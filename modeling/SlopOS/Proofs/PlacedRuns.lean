import SlopOS.Proofs.PlacedCalls
/-!
# Runs with contents in memory

The kernel starts with what `vfs_init` has copied, and then any events follow
one another.  In every state the memory holds, at the pointers of the code, the
contents that `KState` has by value, and what a process reads is what lies there.
-/

namespace SlopOS.Proofs.PlacedRuns

open SlopOS.Support SlopOS.Support.Placement SlopOS.Kernel
open SlopOS.Proofs.HeapUse SlopOS.Proofs.FileTree SlopOS.Proofs.FileEdits SlopOS.Proofs.FileCalls
open SlopOS.Proofs.FileCursor SlopOS.Proofs.FileSessions SlopOS.Proofs.FileSteps
open SlopOS.Proofs.TreeRuns SlopOS.Proofs.PlacedFiles SlopOS.Proofs.PlacedCalls

def treeAt (p : Placed) : TreeEvent → Pointers
  | .writeFile cwd path data size =>
    vfsWriteFileAt p.ptrs p.k.files.fs cwd path (given data) size
  | _ => p.ptrs

/-- The steps of `fileStep`.  The memory of a process ends below 2^31, and so does every buffer
that a call is given. -/
def placedStep (mach : Machine) (p : Placed) : FileEvent → Option Placed
  | .turn other => (fileStep mach p.k (.turn other)).map fun k' => ⟨k', p.ptrs⟩
  | .call num a1 a2 a3 =>
    if num = sysWrite ∧ validateBuffer p.k.core a2 a3 = true ∧ 2 ^ 31 ≤ a3.toNat then none
    else (placedCall mach p num a1 a2 a3).map Prod.snd
  | .tree e => (fileStep mach p.k (.tree e)).map fun k' => ⟨k', treeAt p e⟩

/-- The zeroed entry of a table in which nothing has been opened. -/
def bootFd : FdEntry := ⟨false, 0, false, false, .file none, 0, 0, [], none, 0, 0, false⟩

/-- The kernel after `heap_init` and `vfs_init`; it is linked at 1 MiB and ends below the memory of
the processes. -/
structure Booted (p : Placed) : Prop where
  init : ∃ kernelEnd mbi magic mounts ram, 0x00100000 ≤ kernelEnd.toNat ∧
    kernelEnd.toNat ≤ 0x00300000 ∧
    vfsInit mounts (heapInit kernelEnd mbi magic) = some p.k.files.fs ∧
    vfsInitAt ram mounts (heapInit kernelEnd mbi magic) = some p.ptrs
  fds : ∀ s, p.k.files.fds s = bootFd
  userCwd : p.k.files.userCwd = none

def PlacedReached (mach : Machine) (p : Placed) : Prop :=
  ∃ p₀ es, Booted p₀ ∧ Runs.run (placedStep mach) p₀ es = some p

variable {mach : Machine} {p p' p₀ : Placed} {e : FileEvent} {es : List FileEvent} {fs fs' : Fs}
variable {ptrs : Pointers} {s : Fin fdMax} {path : CStr} {k : KState}

/-! ## Steps -/

theorem placedCall_eq {num a1 a2 a3 : U32} (h : Laid p) :
    placedCall mach p num a1 a2 a3 =
      (syscallEntry mach p.k num a1 a2 a3 0 0).done.map fun (r, k') =>
        (r, ⟨k', syscallAt mach p num a1 a2 a3⟩) := by
  unfold placedCall
  cases hdone : (syscallEntry mach p.k num a1 a2 a3 0 0).done with
  | none => rfl
  | some res =>
      obtain ⟨r, k'⟩ := res
      have hcore := userMemAfter_eq h hdone
      rw [Option.map_some, Option.map_some]
      dsimp only
      rw [hcore]
      rfl

theorem laid_step (h : Laid p) (hk : FilesOk p.k) (hstep : placedStep mach p e = some p') :
    Laid p' ∧ fileStep mach p.k e = some p'.k := by
  cases e with
  | turn other =>
      obtain ⟨k', hturn, rfl⟩ := Option.map_eq_some_iff.mp hstep
      refine ⟨?_, hturn⟩
      obtain ⟨-, hturn⟩ := Option.ite_none_right_eq_some.mp hturn
      obtain rfl := Option.some.inj hturn
      exact ⟨h.heap, h.sound, h.nodes, h.views, h.entries⟩
  | call num a1 a2 a3 =>
      obtain ⟨hmem, hsome⟩ := Option.ite_none_left_eq_some.mp hstep
      rw [placedCall_eq h] at hsome
      obtain ⟨⟨r, p₁⟩, hcall, rfl⟩ := Option.map_eq_some_iff.mp hsome
      obtain ⟨⟨r', k'⟩, hdone, hpair⟩ := Option.map_eq_some_iff.mp hcall
      cases hpair
      constructor
      · refine laid_call h hk (fun hnum hvalid => ?_) hdone
        by_contra hlarge
        exact hmem ⟨hnum, hvalid, Nat.not_lt.mp hlarge⟩
      · show ((syscallEntry mach p.k num a1 a2 a3 0 0).done.map Prod.snd) = _
        rw [hdone]
        rfl
  | tree e =>
      obtain ⟨k', htree, rfl⟩ := Option.map_eq_some_iff.mp hstep
      refine ⟨?_, htree⟩
      have hrise := fileStep_rises htree
      obtain ⟨fs, hfs, rfl⟩ := Option.map_eq_some_iff.mp htree
      obtain ⟨hedits, -⟩ := treeStep_edits hk.tree hfs
      cases e with
      | writeFile cwd path data size =>
          obtain ⟨hcwd, hfs⟩ := Option.ite_none_right_eq_some.mp hfs
          obtain rfl := Option.some.inj hfs
          obtain ⟨hfilled, hnodes⟩ := vfsWriteFileAt_moves path h hk.tree hcwd
            (below_given data _ _ _) fun _ _ => rfl
          refine h.step (fun _ => False) true 0 hrise (hfilled.sameBut _) (hnodes _ rfl rfl rfl)
            fun s => ?_
          exact sameSlot h (congrFun hfilled.data s) (congrFun hfilled.writeBuf s) rfl id
      | changeDir => exact h.edit hrise hedits rfl (.refl p) rfl
      | makeDir => exact h.edit hrise hedits rfl (.refl p) rfl
      | touch => exact h.edit hrise hedits rfl (.refl p) rfl
      | useHeap => exact h.edit hrise hedits rfl (.refl p) rfl

/-! ## Start-up -/

structure Stage (k : KState) (fs : Fs) (ptrs : Pointers) : Prop where
  laid : Laid ⟨k.setFs fs, ptrs⟩
  tree : TreeOk fs.tree

theorem heapFine_init {kernelEnd magic : U32} {mbi : Option MultibootInfo}
    (hlow : 0x00100000 ≤ kernelEnd.toNat) (hhigh : kernelEnd.toNat ≤ 0x00300000) :
    HeapFine (heapInit kernelEnd mbi magic) := by
  have hok := HeapBlocks.heapOk_boot kernelEnd mbi magic fun _ => 0
  have hstart : ∀ h : Heap, h = heapInit kernelEnd mbi magic →
      h.start = alignUp kernelEnd 16 ∧ h.current = alignUp kernelEnd 16 := by
    rintro h rfl
    unfold heapInit
    cases mbi with
    | none => exact ⟨rfl, rfl⟩
    | some mbi =>
        dsimp only
        repeat' split
        all_goals exact ⟨rfl, rfl⟩
  obtain ⟨hbase, hmark⟩ := hstart _ rfl
  have hup : (alignUp kernelEnd 16).toNat = Alignment.roundUp kernelEnd.toNat 16 :=
    HeapBlocks.toNat_alignUp (by omega)
  have hge : kernelEnd.toNat ≤ Alignment.roundUp kernelEnd.toNat 16 :=
    Alignment.le_roundUp (by decide)
  have hle : Alignment.roundUp kernelEnd.toNat 16 ≤ 0x00300000 :=
    Alignment.roundUp_le (by decide) (by decide) hhigh
  constructor
  case start_pos =>
    rw [hbase, hup]
    omega
  case start_le => exact hok.start_le
  case current_le => exact hok.current_le
  case limit_le => exact hok.limit_le
  case low =>
    rw [hmark, hup]
    exact hle
  case aligned => exact hok.aligned
  case limit_aligned => exact hok.limit_aligned

theorem stage_root {heap : Heap} {mounts : Mounts} {root : NodeId} (ram : ByteMem.Mem)
    (hfine : HeapFine heap) (hfds : ∀ s, k.files.fds s = bootFd)
    (halloc : vfsAllocNode ⟨emptyTree, heap, mounts⟩ [] .dir none = some (root, fs)) :
    Stage k fs ⟨ram, fun _ => 0, fun _ => 0, fun _ => 0⟩ := by
  obtain ⟨hfine', -⟩ := rises_of_steps (vfsAllocNode_steps halloc) hfine
  obtain ⟨⟨addr, heap'⟩, -, hpair⟩ := Option.map_eq_some_iff.mp halloc
  cases hpair
  have hsize : ∀ n < (emptyTree.addNode [] .dir none).count,
      ((emptyTree.addNode [] .dir none).node n).size = 0 := by
    intro n hn
    have hzero : n = 0 := Nat.lt_one_iff.mp hn
    rw [hzero]
    rfl
  have hshown : ∀ a, (placement ⟨k.setFs ⟨emptyTree.addNode [] .dir none, heap', mounts⟩,
      ⟨ram, fun _ => 0, fun _ => 0, fun _ => 0⟩⟩).shown a = .empty := by
    rintro (n | s)
    · by_cases hn : n < (emptyTree.addNode [] .dir none).count
      · refine (if_pos hn).trans ?_
        show blockAt _ ((emptyTree.addNode [] .dir none).node n).size.toNat = _
        rw [hsize n hn]
        rfl
      · exact if_neg hn
    · show (if (0 : U32) = 0 then blockAt 0 (k.files.fds s).size.toNat else .empty) = _
      rw [if_pos rfl, hfds s]
      rfl
  have howned : ∀ s, (placement ⟨k.setFs ⟨emptyTree.addNode [] .dir none, heap', mounts⟩,
      ⟨ram, fun _ => 0, fun _ => 0, fun _ => 0⟩⟩).owned s = .empty := by
    intro s
    show (if (0 : U32) = 0 then .empty else blockAt 0 (k.files.fds s).writeCapacity.toNat) = _
    rw [if_pos rfl]
  refine ⟨⟨hfine', ⟨?_, ?_, ?_, ?_⟩, ?_, ?_, ?_⟩, treeOk_root []⟩
  · intro a
    rw [hshown]
    exact Nat.zero_le _
  · intro s
    rw [howned]
    exact Nat.zero_le _
  · intro s a
    rw [howned]
    exact Block.empty_apart _
  · intro s t _
    rw [howned]
    exact Block.empty_apart _
  · intro n hn
    show Holds ram 0 ((emptyTree.addNode [] .dir none).node n).size.toNat _
    rw [hsize n hn]
    exact .zero _ _ _
  · intro s
    show Holds ram _ (fdSize (k.files.fds s)).toNat _
    rw [hfds s]
    exact .zero _ _ _
  · intro s
    show EntryOk 0 (k.files.fds s)
    rw [hfds s]
    exact ⟨iff_of_true rfl rfl, nofun, Nat.le_refl _, nofun⟩

theorem Stage.makeDir (h : Stage k fs ptrs) (path : CStr) :
    Stage k (vfsMakeDir fs vfsRoot path).2 ptrs := by
  obtain ⟨hedits, -⟩ := vfsMakeDir_edits h.tree h.tree.root_lt path
  refine ⟨?_, hedits.treeOk h.tree⟩
  exact h.laid.edit (rises_of_steps (vfsMakeDir_steps fs vfsRoot path)) hedits rfl (.refl _) rfl

theorem map_range_getD (data : CStr) : (List.range data.length).map (data.getD · 0) = data := by
  apply List.ext_getElem
  · rw [List.length_map, List.length_range]
  · intro i hi hi'
    rw [List.getElem_map, List.getElem_range, List.getD_eq_getElem?_getD,
      List.getElem?_eq_getElem hi', Option.getD_some]

theorem Stage.seed (h : Stage k fs ptrs) (path data : CStr) (hdata : data.length < 2 ^ 32) :
    Stage k (vfsWriteSeedFile fs path data).2 (vfsWriteSeedFileAt ptrs fs path data) := by
  refine ⟨?_, (vfsWriteSeedFile_edits h.tree path data).1.treeOk h.tree⟩
  obtain ⟨hedits, -⟩ := vfsTouch_edits h.tree h.tree.root_lt path
  have hrise := rises_of_steps (vfsTouch_steps fs vfsRoot path)
  have hsize : (BitVec.ofNat 32 (strLen data)).toNat = data.length := by
    unfold strLen
    rw [BitVec.toNat_ofNat]
    exact Nat.mod_eq_of_lt hdata
  unfold vfsWriteSeedFile vfsWriteSeedFileAt
  cases htouch : vfsTouch fs vfsRoot path with
  | mk ok fs₁ =>
      rw [htouch] at hedits hrise
      obtain ⟨hfine, hmark⟩ := hrise h.laid.heap
      cases ok with
      | false => exact h.laid.edit hrise hedits rfl (.refl _) rfl
      | true =>
          dsimp only
          cases hres : vfsResolve fs₁.tree path with
          | none => exact h.laid.edit hrise hedits rfl (.refl _) rfl
          | some file =>
              dsimp only
              cases hmalloc : kmalloc fs₁.heap (BitVec.ofNat 32 (strLen data) + 1) with
              | none =>
                  have hsame : fillNode ptrs fs₁.heap file (given (data.getD · 0))
                      (BitVec.ofNat 32 (strLen data)) = ptrs := by
                    unfold fillNode
                    rw [hmalloc]
                  rw [hsame]
                  exact h.laid.edit hrise hedits rfl (.refl _) rfl
              | some made =>
                  obtain ⟨copy, heap'⟩ := made
                  obtain ⟨hfilled, hnodes⟩ := fillNode_moves (p := ⟨k.setFs fs, ptrs⟩)
                    (f := (data.getD · 0)) file hedits hfine hmark hmalloc (below_given (data.getD · 0) _ _ _) fun _ _ => rfl
                  rw [hsize, map_range_getD] at hnodes
                  refine h.laid.step (fun _ => False) true 0 (hrise.trans (kmalloc_rises hmalloc))
                    (hfilled.sameBut _) (hnodes _ rfl rfl rfl rfl) fun s => ?_
                  exact sameSlot h.laid (congrFun hfilled.data s) (congrFun hfilled.writeBuf s) rfl id

theorem laid_boot (h : Booted p) : Laid p := by
  obtain ⟨kernelEnd, mbi, magic, mounts, ram, hlow, hhigh, hinit, hptrs⟩ := h.init
  obtain ⟨⟨root, fs₀⟩, halloc, hfs⟩ := Option.map_eq_some_iff.mp hinit
  obtain ⟨⟨root', fs₀'⟩, halloc', hptrs⟩ := Option.map_eq_some_iff.mp hptrs
  rw [halloc] at halloc'
  cases halloc'
  have hroot : root = vfsRoot := by
    obtain ⟨made, -, hpair⟩ := Option.map_eq_some_iff.mp halloc
    exact (congrArg Prod.fst hpair).symm
  have h₀ := stage_root ram (heapFine_init hlow hhigh) h.fds halloc
  have h₁ := ((((h₀.makeDir (cstr "/bin")).makeDir (cstr "/docs")).makeDir (cstr "/mount")).makeDir
    (cstr "/mount/cdrom")).makeDir (cstr "/tmp")
  have h₂ := h₁.seed (cstr "/docs/readme.txt")
    (cstr "SLOP in-memory VFS\nThis is not a disk-backed filesystem yet.\n") (by decide)
  have h₃ := h₂.seed (cstr "/docs/roadmap.txt")
    (cstr "Next: more memory management, a better VFS, and real userland.\n") (by decide)
  subst hroot
  dsimp only at hfs hptrs
  rw [hfs, hptrs] at h₃
  exact h₃.laid

/-! ## Runs -/

structure PlacedOk (p : Placed) : Prop where
  laid : Laid p
  files : FilesOk p.k

theorem placedOk_boot (h : Booted p) : PlacedOk p := by
  obtain ⟨kernelEnd, mbi, magic, mounts, ram, -, -, hinit, -⟩ := h.init
  refine ⟨laid_boot h, filesOk_fresh ⟨⟨_, _, hinit⟩, fun s => ?_, h.userCwd⟩⟩
  rw [h.fds s]
  rfl

theorem placedOk_step (h : PlacedOk p) (hstep : placedStep mach p e = some p') : PlacedOk p' := by
  obtain ⟨hlaid, hfile⟩ := laid_step h.laid h.files hstep
  exact ⟨hlaid, (fileStep_edits h.files hfile).2⟩

theorem placedOk_reached (h : PlacedReached mach p) : PlacedOk p := by
  obtain ⟨p₀, es, hboot, hrun⟩ := h
  exact Runs.invariant (I := PlacedOk) (fun _ _ _ _ hok hstep => placedOk_step hok hstep)
    (Runs.AllSteps.trivial p₀ es) hrun (placedOk_boot hboot)

/-- In every run from the start the contents by value are those in memory at the pointers, and a
run with contents in memory is a run of the model without them. -/
theorem contents_inMemory (h : PlacedReached mach p)
    (hrun : Runs.run (placedStep mach) p es = some p') :
    (∀ n < p'.k.files.fs.tree.count,
      ByteMem.load p'.ptrs.ram (p'.ptrs.node n) (p'.k.files.fs.tree.node n).size.toNat =
        fileBytes p'.k.files.fs.tree n) ∧
    (∀ s, ByteMem.load p'.ptrs.ram (p'.ptrs.view s) (fdSize (p'.k.files.fds s)).toNat =
      contentsOf (p'.k.files.fds s)) ∧
    Runs.run (fileStep mach) p.k es = some p'.k := by
  have hend := Runs.invariant (I := PlacedOk) (fun _ _ _ _ hok hstep => placedOk_step hok hstep)
    (Runs.AllSteps.trivial p es) hrun (placedOk_reached h)
  refine ⟨fun n hn => ?_, fun s => ?_, ?_⟩
  · exact List.map_congr_left fun i hi => hend.laid.nodes n hn i (List.mem_range.mp hi)
  · exact List.map_congr_left fun i hi => hend.laid.views s i (List.mem_range.mp hi)
  · have hstart := placedOk_reached h
    clear h hend
    induction es generalizing p with
    | nil =>
        obtain rfl := Option.some.inj hrun
        rfl
    | cons e es ih =>
        obtain ⟨p₁, hstep, hrest⟩ := Runs.run_cons_eq_some.mp hrun
        have hfile := (laid_step hstart.laid hstart.files hstep).2
        exact Runs.run_cons_eq_some.mpr ⟨p₁.k, hfile, ih hrest (placedOk_step hstart hstep)⟩

end SlopOS.Proofs.PlacedRuns
