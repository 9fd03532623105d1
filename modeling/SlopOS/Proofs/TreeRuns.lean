import SlopOS.Proofs.FileEdits
import SlopOS.Support.Runs
/-!
# Runs of the operations on the tree

A run is a sequence of calls from the state that `vfs_init` leaves.  As long as
no call makes a node named `.` or `..` the tree stays well formed.
-/

namespace SlopOS.Proofs.TreeRuns

open SlopOS.Support SlopOS.Kernel
open SlopOS.Proofs.FileTree SlopOS.Proofs.FilePaths SlopOS.Proofs.FileEdits

/-- A call that may change the tree, or some other use of the kernel heap. -/
inductive TreeEvent
  | changeDir (cwd : Nat) (path : CStr)
  | makeDir (cwd : Nat) (path : CStr)
  | touch (cwd : Nat) (path : CStr)
  | writeFile (cwd : Nat) (path : CStr) (data : Nat → U8) (size : U32)
  | useHeap (size : U32)

/-- The working directory is a node; a call that never returns is no step. -/
def treeStep (mach : Machine) (fs : Fs) : TreeEvent → Option Fs
  | .changeDir cwd path =>
    if cwd < fs.tree.count then (vfsChangeDir mach fs cwd path).map Prod.snd else none
  | .makeDir cwd path =>
    if cwd < fs.tree.count then some (vfsMakeDir fs cwd path).2 else none
  | .touch cwd path =>
    if cwd < fs.tree.count then some (vfsTouch fs cwd path).2 else none
  | .writeFile cwd path data size =>
    if cwd < fs.tree.count then some (vfsWriteFile fs cwd path data size).2 else none
  | .useHeap size => (kmalloc fs.heap size).map fun (_, heap) => { fs with heap := heap }

variable {mach : Machine} {mounts : Mounts} {heap : Heap} {fs₀ fs fs' : Fs} {es : List TreeEvent}
variable {e : TreeEvent} {t u : VfsTree} {n c cwd : Nat} {name path : CStr}
variable {new : List CStr → VfsNodeType → Prop} {fill : VfsTree → Nat → Prop}

def Adds (mach : Machine) (fs : Fs) : TreeEvent → List CStr → VfsNodeType → Prop
  | .changeDir cwd path, ws, type => type = .dir ∧ ShadowAt mach fs cwd path ws
  | .makeDir cwd path, ws, type => type = .dir ∧ Targeted fs cwd path ws
  | .touch cwd path, ws, _ => Targeted fs cwd path ws
  | .writeFile cwd path _ _, ws, _ => Targeted fs cwd path ws
  | .useHeap _, _, _ => False

def Fills (fs : Fs) : TreeEvent → VfsTree → Nat → Prop
  | .writeFile cwd path _ _ => Filled fs.tree cwd path
  | _ => fun _ _ => False

theorem treeStep_edits (hok : TreeOk fs.tree) (h : treeStep mach fs e = some fs') :
    Edited (Adds mach fs e) (Fills fs e) fs.tree fs'.tree ∧ fs'.mounts = fs.mounts := by
  cases e with
  | changeDir cwd path =>
      obtain ⟨hcwd, h⟩ := Option.ite_none_right_eq_some.mp h
      obtain ⟨⟨r, fs₁⟩, hchange, rfl⟩ := Option.map_eq_some_iff.mp h
      obtain ⟨hedits, hmounts, -⟩ := vfsChangeDir_edits hok hcwd hchange
      exact ⟨hedits, hmounts⟩
  | makeDir cwd path =>
      obtain ⟨hcwd, h⟩ := Option.ite_none_right_eq_some.mp h
      obtain ⟨hedits, hmounts, -⟩ := vfsMakeDir_edits hok hcwd path
      rw [← Option.some.inj h]
      exact ⟨hedits, hmounts⟩
  | touch cwd path =>
      obtain ⟨hcwd, h⟩ := Option.ite_none_right_eq_some.mp h
      obtain ⟨hedits, hmounts, -⟩ := vfsTouch_edits hok hcwd path
      rw [← Option.some.inj h]
      exact ⟨hedits, hmounts⟩
  | writeFile cwd path data size =>
      obtain ⟨hcwd, h⟩ := Option.ite_none_right_eq_some.mp h
      obtain ⟨hedits, hmounts, -⟩ := vfsWriteFile_edits hok hcwd path data size
      rw [← Option.some.inj h]
      exact ⟨hedits, hmounts⟩
  | useHeap size =>
      obtain ⟨⟨addr, heap⟩, -, rfl⟩ := Option.map_eq_some_iff.mp h
      exact ⟨.refl, rfl⟩

/-! ## Well-formed trees -/

def Dot (name : CStr) : Prop := name = cstr "." ∨ name = cstr ".."

instance Dot.decidable (name : CStr) : Decidable (Dot name) := inferInstanceAs (Decidable (_ ∨ _))

structure WellFormed (t : VfsTree) : Prop where
  listedOnce : ∀ c < t.count, c ≠ vfsRoot → ∃ p < t.count, (t.node c).parent = some p ∧
    (children t p).count c = 1 ∧ ∀ q < t.count, c ∈ children t q → q = p
  listsEnd : ∀ n < t.count, (children t n).Nodup ∧
    ∀ fuel, t.count ≤ fuel → childrenFrom t fuel (t.node n).firstChild = children t n
  rooted : ∀ n < t.count, Under t vfsRoot n
  siblings : ∀ n < t.count, ∀ c ∈ children t n, ∀ d ∈ children t n,
    (t.node c).name = (t.node d).name → c = d
  names : ∀ c < t.count, c ≠ vfsRoot → 1 ≤ (t.node c).name.length ∧ (t.node c).name.length ≤ 31 ∧
    chr '/' ∉ (t.node c).name ∧ ¬Dot (t.node c).name
  parents : ∀ n < t.count, children t n ≠ [] → (t.node n).type = .dir
  contents : ∀ n < t.count, (t.node n).data ≠ none ∨ (t.node n).size ≠ 0 → (t.node n).type = .file

/-- The invariant of a run. -/
structure Tidy (t : VfsTree) : Prop where
  tree : TreeOk t
  noDots : ∀ c < t.count, c ≠ vfsRoot → ¬Dot (t.node c).name
  contents : ∀ n < t.count, (t.node n).data ≠ none ∨ (t.node n).size ≠ 0 → (t.node n).type = .file

theorem Tidy.wellFormed (h : Tidy t) : WellFormed t := by
  have hok := h.tree
  constructor
  case listedOnce =>
    intro c hc hne
    obtain ⟨p, hparent, -, hmem⟩ := hok.listed c hc hne
    have hp := (hok.parent_lt hc hparent).2
    have hcount : (children t p).count c = 1 := by
      rw [(hok.children_nodup hp).count, if_pos hmem]
    refine ⟨p, hp, hparent, hcount, ?_⟩
    intro q hq hmem'
    have hparent' := (hok.parentOf q hq c hmem').1
    rw [hparent] at hparent'
    exact (Option.some.inj hparent').symm
  case listsEnd =>
    exact fun n hn => ⟨hok.children_nodup hn, fun fuel => hok.childrenFrom_fuel hn⟩
  case rooted =>
    exact TreeOk.induction hok .self fun c n _ hparent _ ih => .child ih hparent
  case siblings => exact hok.distinct
  case names =>
    intro c hc hne
    have hname := hok.named c hc hne
    exact ⟨List.length_pos_iff.mpr hname.nonempty, hname.short, hname.noSlash, h.noDots c hc hne⟩
  case parents =>
    intro n hn hne
    obtain ⟨c, hc⟩ := List.exists_mem_of_ne_nil _ hne
    exact hok.dir_of_mem hn hc
  case contents => exact h.contents

/-! ## Names of dots -/

theorem path_of_dot (h : Dot (strCopy path (vfsNameMax + 1))) : path = strCopy path (vfsNameMax + 1) := by
  have hlen : (strCopy path (vfsNameMax + 1)).length ≤ 2 := by
    rcases h with h | h <;>
    · rw [h]
      decide
  unfold strCopy at hlen ⊢
  rw [List.length_take] at hlen
  refine (List.take_of_length_le ?_).symm
  unfold vfsNameMax at hlen ⊢
  omega

theorem Target.dot {parent : Nat} (h : Target t cwd path parent name) (hdot : Dot name) :
    path = name ∧ parent = cwd := by
  rcases h.how with ⟨-, -, hparent, hname⟩ | ⟨-, -, -, hnd, hnds⟩
  · rw [hname] at hdot ⊢
    exact ⟨path_of_dot hdot, hparent⟩
  · rcases hdot with hdot | hdot
    · exact absurd hdot hnd
    · exact absurd hdot hnds

theorem Target.name_of_dot {parent : Nat} (h : Target t cwd path parent name) (hdot : Dot path) :
    name = path := by
  have hslash : chr '/' ∉ path ∧ path.length ≤ vfsNameMax := by
    rcases hdot with rfl | rfl <;> decide
  rcases h.how with ⟨-, -, -, hname⟩ | ⟨-, -, hwords, -, -⟩
  · rw [hname]
    exact List.take_of_length_le hslash.2
  · have hne : path ≠ [] := by
      rcases hdot with rfl | rfl <;> decide
    have hone : words path = [path] := PathText.components_word hne hslash.1
    rw [hone] at hwords
    exact (List.cons.inj hwords).1.symm

def MakesDot (fs : Fs) (cwd : Nat) (path : CStr) : Prop :=
  Dot path ∧ vfsMountSubpath (vfsCheckPath fs.tree cwd path) = none ∧
    (fs.tree.node cwd).type = .dir ∧ (kcalloc fs.heap vfsNodeSize).isSome

def ShadowsDot (mach : Machine) (fs : Fs) (cwd : Nat) (path : CStr) : Prop :=
  ∃ ws w, ShadowAt mach fs cwd path (ws ++ [w]) ∧ (∀ v ∈ ws, v.length ≤ vfsNameMax) ∧ Dot w

/-- The call makes no node named by a dot. -/
def NoDotMade (mach : Machine) (fs : Fs) : TreeEvent → Prop
  | .changeDir cwd path => ¬ShadowsDot mach fs cwd path
  | .makeDir cwd path => ¬MakesDot fs cwd path
  | .touch cwd path => ¬MakesDot fs cwd path
  | .writeFile cwd path _ _ => ¬MakesDot fs cwd path
  | .useHeap _ => True

theorem not_dot_of_targeted {ws : List CStr} (h : Targeted fs cwd path (ws ++ [name]))
    (hno : ¬MakesDot fs cwd path) : ¬Dot name := by
  obtain ⟨parent, last, htarget, -, -, hroom, hws⟩ := h
  obtain ⟨-, hname⟩ := List.append_inj' hws rfl
  rw [List.cons.inj hname |>.1]
  intro hdot
  obtain ⟨hpath, hparent⟩ := Target.dot htarget hdot
  apply hno
  refine ⟨?_, htarget.allowed, ?_, hroom⟩
  · rw [hpath]
    exact hdot
  · rw [← hparent]
    exact htarget.isDir

theorem not_dot_of_adds {ws : List CStr} {type : VfsNodeType} (hno : NoDotMade mach fs e)
    (hws : ∀ v ∈ ws, NameOk v) (h : Adds mach fs e (ws ++ [name]) type) : ¬Dot name := by
  cases e with
  | changeDir cwd path => exact fun hdot => hno ⟨ws, name, h.2, fun v hv => (hws v hv).short, hdot⟩
  | makeDir cwd path => exact not_dot_of_targeted h.2 hno
  | touch cwd path => exact not_dot_of_targeted h hno
  | writeFile cwd path data size => exact not_dot_of_targeted h hno
  | useHeap size => exact h.elim

theorem file_of_filled (h : Filled t cwd path u n) (hle : t.count ≤ u.count) (hu : Tidy u) :
    (u.node n).type = .file := by
  obtain ⟨-, parent, name, c, hat, hsame⟩ := h
  have hnot : ¬Dot path := by
    intro hdot
    have hname := Target.name_of_dot hat.target hdot
    obtain ⟨hc, hparent, -, hcname⟩ :=
      hu.tree.find_lt (Nat.lt_of_lt_of_le hat.parent_lt hle) hat.find
    apply hu.noDots c hc (hu.tree.ne_root hparent)
    rw [hcname, hname]
    exact hdot
  rw [hsame (fun hd => hnot (Or.inl hd)) (fun hd => hnot (Or.inr hd))]
  exact hat.isFile

/-! ## A run -/

theorem Tidy.addNode {dir : Nat} {type : VfsNodeType} (h : Tidy t) (hadd : Addable t dir name)
    (hname : ¬Dot name) : Tidy (t.addNode name type (some dir)) := by
  have hlt : ∀ {m : Nat}, m < t.count + 1 → m < t.count ∨ m = t.count := by
    intro m hm
    omega
  constructor
  case tree => exact hadd.treeOk h.tree
  case noDots =>
    intro c hc hne
    rcases hlt hc with hold | rfl
    · rw [node_addNode hadd.dir_lt hold]
      exact h.noDots c hold hne
    · rw [node_addNode_new]
      dsimp only
      rw [strCopy_nameOk hadd.nameOk]
      exact hname
  case contents =>
    intro n hn
    rcases hlt hn with hold | rfl
    · rw [node_addNode hadd.dir_lt hold]
      exact h.contents n hold
    · rw [node_addNode_new]
      rintro (hdata | hsize)
      · exact absurd rfl hdata
      · exact absurd rfl hsize

theorem Tidy.setData {data : Bytes} {size : U32} (h : Tidy t) (hfile : (t.node n).type = .file) :
    Tidy (t.setData n data size) := by
  have hshape := sameShape_setData t n data size
  constructor
  case tree => exact hshape.treeOk h.tree
  case noDots =>
    intro c hc
    rw [hshape.name]
    exact h.noDots c hc
  case contents =>
    intro m hm
    rw [hshape.type]
    by_cases hmn : m = n
    · rw [hmn]
      exact fun _ => hfile
    · have hsame : (t.setData n data size).node m = t.node m := Function.update_of_ne hmn _ _
      rw [hsame]
      exact h.contents m hm

theorem Edited.tidy (h : Edited new fill t u) (ht : Tidy t)
    (hnew : ∀ ws name ty, (∀ v ∈ ws, NameOk v) → new (ws ++ [name]) ty → ¬Dot name)
    (hfill : ∀ v n, t.count ≤ v.count → Tidy v → fill v n → (v.node n).type = .file) : Tidy u := by
  have hinv : t.count ≤ u.count ∧ Tidy u := by
    refine h.invariant (I := fun v => t.count ≤ v.count ∧ Tidy v) ht.tree ?_ ?_ ⟨Nat.le_refl _, ht⟩
    · intro v dir name type hok hv hadd hn
      refine ⟨Nat.le_succ_of_le hv.1, hv.2.addNode hadd (hnew _ _ _ ?_ hn)⟩
      exact hok.nameOk_of_mem_pathOf hadd.dir_lt
    · intro v n data size _ hv _ hf
      exact ⟨hv.1, hv.2.setData (hfill v n hv.1 hv.2 hf)⟩
  exact hinv.2

theorem tidy_root : Tidy (emptyTree.addNode [] .dir none) := by
  have hnode : ∀ n < (emptyTree.addNode [] .dir none).count, n = vfsRoot := by
    intro n hn
    have hcount : (emptyTree.addNode [] .dir none).count = 1 := rfl
    rw [hcount] at hn
    exact Nat.lt_one_iff.mp hn
  constructor
  case tree => exact treeOk_root []
  case noDots => exact fun c hc hne => absurd (hnode c hc) hne
  case contents =>
    intro n hn
    rw [hnode n hn]
    decide

theorem tidy_init (h : vfsInit mounts heap = some fs) : Tidy fs.tree := by
  have hplain : ∀ ws ∈ startPaths, ∀ name ∈ ws.getLast?, ¬(name = cstr "." ∨ name = cstr "..") := by
    decide
  refine Edited.tidy (vfsInit_edits h).1 tidy_root (fun ws name _ _ hmem => ?_) fun _ _ _ _ => id
  exact hplain _ hmem name List.getLast?_concat

theorem tidy_step (hno : NoDotMade mach fs e) (hfs : Tidy fs.tree)
    (h : treeStep mach fs e = some fs') : Tidy fs'.tree := by
  refine Edited.tidy (treeStep_edits hfs.tree h).1 hfs (fun ws name ty => not_dot_of_adds hno) ?_
  intro v n hle hv hfill
  cases e with
  | writeFile cwd path data size => exact file_of_filled hfill hle hv
  | changeDir cwd path => exact hfill.elim
  | makeDir cwd path => exact hfill.elim
  | touch cwd path => exact hfill.elim
  | useHeap size => exact hfill.elim

/-- The tree stays well formed as long as no call makes a node named by a dot. -/
theorem wellFormed_run (hinit : vfsInit mounts heap = some fs₀)
    (hno : Runs.AllSteps (treeStep mach) (NoDotMade mach) fs₀ es)
    (hrun : Runs.run (treeStep mach) fs₀ es = some fs) : WellFormed fs.tree := by
  have htidy : Tidy fs.tree :=
    Runs.invariant (I := fun fs => Tidy fs.tree) (fun _ _ _ hno hfs hstep => tidy_step hno hfs hstep)
      hno hrun (tidy_init hinit)
  exact htidy.wellFormed

def plainMach : Machine where
  kernelEnd := 0x00140000
  userStacks := 0x00130000
  ram := fun _ => 0
  outside := fun _ => 0
  storageRead := fun _ _ => none
  stacks_above := by decide
  stacks_below := by decide

def plainHeap : Heap := ⟨0x00180000, 0x00180000, 0x00300000, true⟩

def callsFrom (mach : Machine) (mounts : Mounts) (heap : Heap) (es : List TreeEvent) : Option Fs :=
  (vfsInit mounts heap).bind fun fs₀ => Runs.run (treeStep mach) fs₀ es

def demoCalls : List TreeEvent :=
  [.makeDir vfsRoot (cstr "/tmp/a"), .changeDir vfsRoot (cstr "/docs"),
    .writeFile vfsRoot (cstr "tmp//a/./f") (fun _ => 7) 3, .touch vfsRoot (cstr "/docs/../g")]

theorem wellFormed_demo : ∃ fs₀ fs, vfsInit (fsInit none) plainHeap = some fs₀ ∧
    Runs.run (treeStep plainMach) fs₀ demoCalls = some fs ∧ fs.tree.count = 9 ∧
      WellFormed fs.tree := by
  have hcount : (callsFrom plainMach (fsInit none) plainHeap demoCalls).map (fun fs => fs.tree.count) =
      some 9 := by decide +kernel
  obtain ⟨fs, hcalls, hfs⟩ := Option.map_eq_some_iff.mp hcount
  obtain ⟨fs₀, hinit, hrun⟩ := Option.bind_eq_some_iff.mp hcalls
  refine ⟨fs₀, fs, hinit, hrun, hfs, wellFormed_run hinit (Runs.AllSteps.of_events ?_ fs₀) hrun⟩
  have hplain : ∀ path, ¬Dot path → ∀ fs cwd, ¬MakesDot fs cwd path :=
    fun path hpath fs cwd hdot => hpath hdot.1
  have hdocs : ∀ fs, ¬ShadowsDot plainMach fs vfsRoot (cstr "/docs") := by
    rintro fs ⟨ws, w, hshadow, -⟩
    obtain ⟨subpath, hsub, -⟩ := hshadow.shadowed
    have hnone : vfsMountSubpath (cstr "/docs") = none := by decide
    have hcheck : vfsCheckPath fs.tree vfsRoot (cstr "/docs") = cstr "/docs" := rfl
    rw [hcheck, hnone] at hsub
    cases hsub
  intro e he fs
  simp only [demoCalls, List.mem_cons, List.not_mem_nil, or_false] at he
  rcases he with rfl | rfl | rfl | rfl
  · exact hplain _ (by decide) fs _
  · exact hdocs fs
  · exact hplain _ (by decide) fs _
  · exact hplain _ (by decide) fs _

/-! ## A node named by a dot -/

def HasDot (t : VfsTree) : Prop := ∃ c < t.count, c ≠ vfsRoot ∧ Dot (t.node c).name

theorem HasDot.not_wellFormed (h : HasDot t) : ¬WellFormed t := by
  obtain ⟨c, hc, hne, hdot⟩ := h
  intro hwf
  exact (hwf.names c hc hne).2.2.2 hdot

theorem parentDir_of_dot (h : MakesDot fs cwd path) :
    vfsParentDir fs.tree cwd path = some (cwd, path) := by
  have hplain : path ≠ [] ∧ chr '/' ∉ path ∧ strCopy path (vfsNameMax + 1) = path := by
    rcases h.1 with rfl | rfl <;> decide
  obtain ⟨-, hgate, hdir, -⟩ := h
  have hsplit : vfsSplitParent path = some ([], path) := by
    unfold vfsSplitParent
    rw [if_neg hplain.1, if_pos hplain.2.1, hplain.2.2]
  unfold vfsParentDir
  rw [hgate, hsplit]
  simp [hdir]

theorem find_of_dot (hfs : Tidy fs.tree) (hcwd : cwd < fs.tree.count) (hdot : Dot path) :
    vfsFindChild fs.tree cwd path = none := by
  rw [find_eq_none_iff]
  intro c hc hname
  have hparent := (hfs.tree.parentOf cwd hcwd c hc).1
  apply hfs.noDots c (hfs.tree.child_lt hcwd hc) (hfs.tree.ne_root hparent)
  rw [hname]
  exact hdot

theorem hasDot_addNode {type : VfsNodeType} (hcwd : cwd < t.count) (hdot : Dot path) :
    HasDot (t.addNode path type (some cwd)) := by
  refine ⟨t.count, Nat.lt_succ_self _, Nat.ne_of_gt (Nat.zero_lt_of_lt hcwd), ?_⟩
  have hcopy : strCopy path (vfsNameMax + 1) = path := by
    rcases hdot with rfl | rfl <;> decide
  rw [node_addNode_new]
  dsimp only
  rw [hcopy]
  exact hdot

/-- Where the condition fails for one of the three calls, the tree is spoilt. -/
theorem hasDot_of_makesDot (hfs : Tidy fs.tree) (hcwd : cwd < fs.tree.count)
    (h : MakesDot fs cwd path) (data : Nat → U8) (size : U32) :
    HasDot (vfsMakeDir fs cwd path).2.tree ∧ HasDot (vfsTouch fs cwd path).2.tree ∧
      HasDot (vfsWriteFile fs cwd path data size).2.tree := by
  have hparent := parentDir_of_dot h
  have hfind := find_of_dot hfs hcwd h.1
  obtain ⟨⟨addr, heap'⟩, hroom⟩ := Option.isSome_iff_exists.mp h.2.2.2
  have halloc : ∀ type, vfsAllocNode fs path type (some cwd) = some (fs.tree.count,
      { fs with tree := fs.tree.addNode path type (some cwd), heap := heap' }) := by
    intro type
    unfold vfsAllocNode
    rw [hroom]
    rfl
  have htouch : vfsTouch fs cwd path =
      (true, { fs with tree := fs.tree.addNode path .file (some cwd), heap := heap' }) := by
    unfold vfsTouch
    simp only [hparent, hfind, halloc]
  have hdot : ∀ type, HasDot (fs.tree.addNode path type (some cwd)) := fun type =>
    hasDot_addNode hcwd h.1
  refine ⟨?_, ?_, ?_⟩
  · unfold vfsMakeDir
    simp only [hparent, hfind, halloc, Option.isSome_none]
    exact hdot .dir
  · rw [htouch]
    exact hdot .file
  · unfold vfsWriteFile
    rw [h.2.1, htouch]
    dsimp only
    split
    · exact absurd ‹_› (by decide)
    · split
      · exact hdot .file
      · split
        · exact hdot .file
        · obtain ⟨c, hc, hne, hname⟩ := hdot .file
          refine ⟨c, hc, hne, ?_⟩
          rw [(sameShape_setData _ _ _ _).name]
          exact hname

/-- `mkdir .` in the root: a directory named `.`; writing to `.` also makes the root a directory
with contents. -/
theorem not_wellFormed_dot :
    (∃ fs₀ fs, vfsInit (fsInit none) plainHeap = some fs₀ ∧
      Runs.run (treeStep plainMach) fs₀ [.makeDir vfsRoot (cstr ".")] = some fs ∧
        (fs.tree.node 6).name = cstr "." ∧ ¬WellFormed fs.tree) ∧
    ∃ fs₀ fs, vfsInit (fsInit none) plainHeap = some fs₀ ∧
      Runs.run (treeStep plainMach) fs₀ [.writeFile vfsRoot (cstr ".") (fun _ => 7) 1] = some fs ∧
        (fs.tree.node vfsRoot).type = .dir ∧ (fs.tree.node vfsRoot).data = some [7] ∧
          ¬WellFormed fs.tree := by
  constructor
  · have hview : (callsFrom plainMach (fsInit none) plainHeap [.makeDir vfsRoot (cstr ".")]).map
        (fun fs => (fs.tree.count, (fs.tree.node 6).name)) = some (7, cstr ".") := by decide +kernel
    obtain ⟨fs, hcalls, hfs⟩ := Option.map_eq_some_iff.mp hview
    obtain ⟨fs₀, hinit, hrun⟩ := Option.bind_eq_some_iff.mp hcalls
    obtain ⟨hcount, hname⟩ := Prod.mk.inj hfs
    refine ⟨fs₀, fs, hinit, hrun, hname, HasDot.not_wellFormed ⟨6, ?_, by decide, Or.inl hname⟩⟩
    rw [hcount]
    decide
  · have hview : (callsFrom plainMach (fsInit none) plainHeap
        [.writeFile vfsRoot (cstr ".") (fun _ => 7) 1]).map (fun fs => (fs.tree.count,
          (fs.tree.node vfsRoot).type, (fs.tree.node vfsRoot).data)) = some (7, .dir, some [7]) := by
      decide +kernel
    obtain ⟨fs, hcalls, hfs⟩ := Option.map_eq_some_iff.mp hview
    obtain ⟨fs₀, hinit, hrun⟩ := Option.bind_eq_some_iff.mp hcalls
    obtain ⟨hcount, hnode⟩ := Prod.mk.inj hfs
    obtain ⟨htype, hdata⟩ := Prod.mk.inj hnode
    refine ⟨fs₀, fs, hinit, hrun, htype, hdata, fun hwf => ?_⟩
    have hfile := hwf.contents vfsRoot (by rw [hcount]; decide) (Or.inl (by rw [hdata]; nofun))
    rw [htype] at hfile
    cases hfile

end SlopOS.Proofs.TreeRuns
