import SlopOS.Proofs.FileEdits
import SlopOS.Proofs.SystemCalls
/-!
# What the system calls do to files

A call adds to the tree and fills at most the file that it writes back on
`ksys_close`; it changes no descriptor but the one it works on.
-/

namespace SlopOS.Proofs.FileCalls

open SlopOS.Support SlopOS.Kernel
open SlopOS.Proofs.FileTree SlopOS.Proofs.FilePaths SlopOS.Proofs.FileEdits
open SlopOS.Proofs.FileOutcomes SlopOS.Proofs.SystemCalls

variable {mach : Machine} {k k' : KState} {fs fs' : Fs} {t u : VfsTree} {n m cwd : Nat}
variable {path : CStr} {slot : Fin fdMax} {r : Int}
variable {new : List CStr → VfsNodeType → Prop} {fill : VfsTree → Nat → Prop}

/-! ## Contents -/

/-- The contents of a node, as many bytes as its size says. -/
def fileBytes (t : VfsTree) (n : Nat) : Bytes :=
  (List.range (t.node n).size.toNat).map fun i => ((t.node n).data.getD []).getD i 0

theorem length_fileBytes (t : VfsTree) (n : Nat) :
    (fileBytes t n).length = (t.node n).size.toNat := by
  unfold fileBytes
  rw [List.length_map, List.length_range]

theorem fileBytes_setData_of_ne (hnm : n ≠ m) (data : Bytes) (size : U32) :
    fileBytes (t.setData m data size) n = fileBytes t n := by
  have hnode : (t.setData m data size).node n = t.node n := Function.update_of_ne hnm _ _
  unfold fileBytes
  rw [hnode]

theorem fileBytes_setData (data : Nat → U8) (size : U32) :
    fileBytes (t.setData n ((List.range size.toNat).map data) size) n =
      (List.range size.toNat).map data := by
  have hnode : (t.setData n ((List.range size.toNat).map data) size).node n =
      { t.node n with data := some ((List.range size.toNat).map data), size := size } :=
    Function.update_self _ _ _
  unfold fileBytes
  rw [hnode]
  dsimp only
  apply List.map_congr_left
  intro i hi
  have hlt : i < ((List.range size.toNat).map data).length := by
    rw [List.length_map, List.length_range]
    exact List.mem_range.mp hi
  rw [Option.getD_some, List.getD_eq_getElem?_getD, List.getElem?_eq_getElem hlt,
    Option.getD_some, List.getElem_map, List.getElem_range]

theorem Edited.bytes (h : Edited new fill t u) (hn : n < t.count) (hfill : ∀ v, ¬fill v n) :
    fileBytes u n = fileBytes t n := by
  induction h with
  | refl => rfl
  | @add v dir name type h hadd _ ih =>
      have hv : n < v.count := Nat.lt_of_lt_of_le hn h.count_le
      have hnode : ((v.addNode name type (some dir)).node n).size = (v.node n).size ∧
          ((v.addNode name type (some dir)).node n).data = (v.node n).data := by
        rw [node_addNode hadd.dir_lt hv]
        exact ⟨rfl, rfl⟩
      rw [← ih]
      unfold fileBytes
      rw [hnode.1, hnode.2]
  | @fill v m data size h _ hf ih =>
      have hne : n ≠ m := by
        rintro rfl
        exact hfill _ hf
      rw [fileBytes_setData_of_ne hne, ih]

/-! ## `vfs_write_file` -/

def Stores (fs : Fs) (cwd : Nat) (path : CStr) (data : Nat → U8) (size : U32) (n : Nat) : Prop :=
  (vfsWriteFile fs cwd path data size).1 = true ∧
    vfsResolveFrom (vfsWriteFile fs cwd path data size).2.tree cwd path = some n

theorem vfsWriteFile_stores (hok : TreeOk fs.tree) (hcwd : cwd < fs.tree.count) (path : CStr)
    (data : Nat → U8) (size : U32) :
    Edited (fun _ _ => True) (fun _ n => Stores fs cwd path data size n) fs.tree
        (vfsWriteFile fs cwd path data size).2.tree ∧
      (vfsWriteFile fs cwd path data size).2.mounts = fs.mounts ∧
      ∀ n, Stores fs cwd path data size n →
        fileBytes (vfsWriteFile fs cwd path data size).2.tree n = (List.range size.toNat).map data := by
  obtain ⟨htouch, hmounts, -⟩ := vfsTouch_edits hok hcwd path
  have hedits : ∀ fill, Edited (fun _ _ => True) fill fs.tree (vfsTouch fs cwd path).2.tree :=
    fun fill => htouch.mono (fun _ _ _ => trivial) fun _ _ => False.elim
  cases hres : vfsWriteFile fs cwd path data size with
  | mk ok fs' =>
      unfold Stores
      rw [hres]
      unfold vfsWriteFile at hres
      split at hres
      · cases hres
        exact ⟨.refl, rfl, fun _ h => Bool.noConfusion h.1⟩
      split at hres
      · rename_i fs₁ h₁
        rw [h₁] at hedits hmounts
        cases hres
        exact ⟨hedits _, hmounts, fun _ h => Bool.noConfusion h.1⟩
      rename_i fs₁ h₁
      rw [h₁] at hedits hmounts
      split at hres
      · cases hres
        exact ⟨hedits _, hmounts, fun _ h => Bool.noConfusion h.1⟩
      rename_i node hnode
      split at hres
      · cases hres
        exact ⟨hedits _, hmounts, fun _ h => Bool.noConfusion h.1⟩
      · cases hres
        have hok₁ := (hedits fun _ _ => False).treeOk hok
        have hcwd₁ := Nat.lt_of_lt_of_le hcwd (hedits fun _ _ => False).count_le
        have hlt : node < fs₁.tree.count := TreeOk.resolve_lt hok₁ hcwd₁ hnode
        have hfill : Edited (fun _ _ => True) (fun _ n => n = node) fs₁.tree
            (fs₁.tree.setData node ((List.range size.toNat).map data) size) := .fill .refl hlt rfl
        have hafter := Edited.resolve hfill hok₁ hcwd₁ hnode
        refine ⟨(hedits _).fill hlt ⟨rfl, hafter⟩, hmounts, fun n hn => ?_⟩
        obtain rfl := Option.some.inj (hafter.symm.trans hn.2)
        exact fileBytes_setData data size

/-! ## Looking at files -/

theorem vfsReadFile_keeps {found : Option (Option Bytes × U32)}
    (h : vfsReadFile mach fs cwd path = some (found, fs')) :
    fs'.tree = fs.tree ∧ fs'.mounts = fs.mounts := by
  unfold vfsReadFile at h
  split at h
  · obtain ⟨⟨data, heap⟩, -, hpair⟩ := Option.map_eq_some_iff.mp h
    cases hpair
    exact ⟨rfl, rfl⟩
  split at h <;>
  · cases h
    exact ⟨rfl, rfl⟩

theorem vfsStat_keeps {found : Bool × UserStat} (h : vfsStat mach fs cwd path = some (found, fs')) :
    fs'.tree = fs.tree ∧ fs'.mounts = fs.mounts := by
  unfold vfsStat at h
  split at h
  · cases h
    exact ⟨rfl, rfl⟩
  split at h
  · split at h
    · cases h
    · cases h
      exact ⟨rfl, rfl⟩
    · obtain ⟨⟨data, heap⟩, -, hpair⟩ := Option.map_eq_some_iff.mp h
      cases data <;>
      · cases hpair
        exact ⟨rfl, rfl⟩
  split at h <;>
  · cases h
    exact ⟨rfl, rfl⟩

/-! ## Single calls -/

/-- The call works on the descriptor in this slot, or opens one there. -/
def Uses (k : KState) (num a1 : U32) (slot : Fin fdMax) : Prop :=
  num ∈ [sysRead, sysWrite, sysClose] ∧ fdLookup k.files.fds (toInt a1) k.pid = some slot ∨
    num = sysOpen ∧ (k.files.fds slot).used = false

/-- Closing a descriptor with this entry stores to `n`. -/
def WritesBack (k : KState) (e : FdEntry) (n : Nat) : Prop :=
  e.writable = true ∧ e.dirty = true ∧
    Stores k.files.fs k.cwd e.path (e.writeBuf.getD fun _ => 0) e.writeSize n

/-- The call closes a descriptor and stores to `n`. -/
def Fills (k : KState) (num a1 : U32) (n : Nat) : Prop :=
  num = sysClose ∧ ∃ slot, fdLookup k.files.fds (toInt a1) k.pid = some slot ∧
    WritesBack k (k.files.fds slot) n

/-- What a call does to the files and the descriptors. -/
structure Effect (k : KState) (num a1 : U32) (k' : KState) : Prop where
  edits : Edited (fun _ _ => True) (fun _ n => Fills k num a1 n) k.files.fs.tree k'.files.fs.tree
  mounts : k'.files.fs.mounts = k.files.fs.mounts
  userCwd : k'.files.userCwd = k.files.userCwd
  fds : ∀ slot, ¬Uses k num a1 slot → k'.files.fds slot = k.files.fds slot

structure SameFiles (k k' : KState) : Prop where
  tree : k'.files.fs.tree = k.files.fs.tree
  mounts : k'.files.fs.mounts = k.files.fs.mounts
  userCwd : k'.files.userCwd = k.files.userCwd
  fds : k'.files.fds = k.files.fds

variable {num a1 a2 a3 a4 a5 : U32}

theorem SameFiles.refl (k : KState) : SameFiles k k := ⟨rfl, rfl, rfl, rfl⟩

theorem SameFiles.effect (h : SameFiles k k') : Effect k num a1 k' where
  edits := by
    rw [h.tree]
    exact .refl
  mounts := h.mounts
  userCwd := h.userCwd
  fds := fun slot _ => congrFun h.fds slot

/-- The descriptor is another than the one in the slot that is set. -/
theorem setFd_of_not_uses {entry : FdEntry} {slot' : Fin fdMax} (huses : Uses k num a1 slot)
    (hslot' : ¬Uses k num a1 slot') :
    Function.update k.files.fds slot entry slot' = k.files.fds slot' := by
  apply Function.update_of_ne
  rintro rfl
  exact hslot' huses

theorem effect_setFd {k₁ : KState} {entry : FdEntry} (h : SameFiles k k₁)
    (huses : Uses k num a1 slot) : Effect k num a1 (k₁.setFd slot entry) where
  edits := h.effect.edits
  mounts := h.mounts
  userCwd := h.userCwd
  fds := fun slot' hslot' => by
    show Function.update k₁.files.fds slot entry slot' = _
    rw [h.fds]
    exact setFd_of_not_uses huses hslot'

theorem ksysRead_effect (h : (ksysRead k (toInt a1) a2 a3).done = some (r, k')) :
    Effect k sysRead a1 k' := by
  cases ksysRead_cases h with
  | refused => exact (SameFiles.refl k).effect
  | line => exact SameFiles.effect ⟨rfl, rfl, rfl, rfl⟩
  | file slot hslot => exact effect_setFd ⟨rfl, rfl, rfl, rfl⟩ (Or.inl ⟨by decide, hslot⟩)

theorem ksysWrite_effect (h : (ksysWrite mach k (toInt a1) a2 a3).done = some (r, k')) :
    Effect k sysWrite a1 k' := by
  cases ksysWrite_cases h with
  | refused => exact (SameFiles.refl k).effect
  | shown => exact (SameFiles.refl k).effect
  | stored hstores => exact effect_setFd ⟨rfl, rfl, rfl, rfl⟩ (Or.inl ⟨by decide, hstores.lookup⟩)

theorem effect_edit {fs' : Fs}
    (hedits : Edited (fun _ _ => True) (fun _ _ => False) k.files.fs.tree fs'.tree)
    (hmounts : fs'.mounts = k.files.fs.mounts) : Effect k num a1 (k.setFs fs') where
  edits := hedits.mono (fun _ _ => id) fun _ _ => False.elim
  mounts := hmounts
  userCwd := rfl
  fds := fun _ _ => rfl

theorem Effect.setFd {entry : FdEntry} (h : Effect k num a1 k') (huses : Uses k num a1 slot) :
    Effect k num a1 (k'.setFd slot entry) where
  edits := h.edits
  mounts := h.mounts
  userCwd := h.userCwd
  fds := fun slot' hslot' => by
    have hne : slot' ≠ slot := by
      rintro rfl
      exact hslot' huses
    exact (Function.update_of_ne hne _ _).trans (h.fds slot' hslot')

theorem Effect.setHeap (h : Effect k num a1 k') (heap : Heap) :
    Effect k num a1 (k'.setFs { k'.files.fs with heap := heap }) :=
  ⟨h.edits, h.mounts, h.userCwd, h.fds⟩

theorem touched_edits (hok : TreeOk k.files.fs.tree) (hcwd : k.cwd < k.files.fs.tree.count)
    {flags : U32} {created : Bool}
    (h : (if flags &&& oCreat ≠ 0 then vfsTouch k.files.fs k.cwd path else (true, k.files.fs)) =
      (created, fs)) :
    Edited (fun _ _ => True) (fun _ _ => False) k.files.fs.tree fs.tree ∧
      fs.mounts = k.files.fs.mounts := by
  obtain ⟨htouch, hmounts, -⟩ := vfsTouch_edits hok hcwd path
  split at h
  · rw [h] at htouch hmounts
    exact ⟨htouch.mono (fun _ _ _ => trivial) fun _ _ => id, hmounts⟩
  · cases h
    exact ⟨.refl, rfl⟩

theorem ksysOpen_effect (hok : TreeOk k.files.fs.tree) (hcwd : k.cwd < k.files.fs.tree.count)
    (h : (ksysOpen mach k a1 a2).done = some (r, k')) : Effect k sysOpen a1 k' := by
  have hread : ∀ {full made fs₁ found fs₂}, Touches k a2 full made fs₁ →
      vfsReadFile mach fs₁ k.cwd full = some (found, fs₂) → Effect k sysOpen a1 (k.setFs fs₂) := by
    intro full made fs₁ found fs₂ htouches hread
    obtain ⟨hedits, hmounts⟩ := touched_edits hok hcwd htouches
    obtain ⟨htree, hmounts₂⟩ := vfsReadFile_keeps hread
    exact effect_edit (by rw [htree]; exact hedits) (hmounts₂.trans hmounts)
  cases ksysOpen_cases h with
  | refused => exact (SameFiles.refl k).effect
  | unmade _ htouches =>
      obtain ⟨hedits, hmounts⟩ := touched_edits hok hcwd htouches
      exact effect_edit hedits hmounts
  | unread _ htouches hnone => exact hread htouches hnone
  | noSlot _ htouches hsome => exact hread htouches hsome
  | opened _ htouches hsome hslot hopen =>
      have heffect := hread htouches hsome
      have huses : Uses k sysOpen a1 _ := Or.inr ⟨rfl, (fdAllocSlot_spec hslot).1⟩
      cases hopen with
      | noRoom => exact heffect.setFd huses
      | buffered => exact (heffect.setHeap _).setFd huses
      | plain => exact heffect.setFd huses

theorem ksysClose_effect (hok : TreeOk k.files.fs.tree) (hcwd : k.cwd < k.files.fs.tree.count)
    (h : (ksysClose k (toInt a1)).done = some (r, k')) : Effect k sysClose a1 k' := by
  have hback : ∀ {slot made fs}, fdLookup k.files.fds (toInt a1) k.pid = some slot →
      fdWriteBack k (k.files.fds slot) = (made, fs) → Effect k sysClose a1 (k.setFs fs) := by
    intro slot made fs hslot hback
    unfold fdWriteBack at hback
    split at hback
    · rename_i hdirty
      obtain ⟨hedits, hmounts, -⟩ := vfsWriteFile_stores hok hcwd (k.files.fds slot).path
        ((k.files.fds slot).writeBuf.getD fun _ => 0) (k.files.fds slot).writeSize
      rw [hback] at hedits hmounts
      refine ⟨hedits.mono (fun _ _ => id) fun _ n hn => ?_, hmounts, rfl, fun _ _ => rfl⟩
      exact ⟨rfl, slot, hslot, hdirty.1, hdirty.2, hn⟩
    · cases hback
      exact (SameFiles.refl k).effect
  cases ksysClose_cases h with
  | refused => exact (SameFiles.refl k).effect
  | unstored hslot hfail => exact hback hslot hfail
  | closed hslot hdone => exact (hback hslot hdone).setFd (Or.inl ⟨by decide, hslot⟩)

theorem withUserCstr_effect {call : CStr → List ByteMem.Span → Outcome} {ptr : U32} {size : Nat}
    (hcall : ∀ s touched, (call s touched).done = some (r, k') → Effect k num a1 k')
    (h : (withUserCstr k ptr size call).done = some (r, k')) : Effect k num a1 k' := by
  unfold withUserCstr at h
  split at h
  · cases h
    exact (SameFiles.refl k).effect
  split at h
  · cases h
    exact (SameFiles.refl k).effect
  · exact hcall _ _ h

theorem ksysMkdir_effect (hok : TreeOk k.files.fs.tree) (hcwd : k.cwd < k.files.fs.tree.count)
    (h : (ksysMkdir k a1).done = some (r, k')) : Effect k sysMkdir a1 k' := by
  refine withUserCstr_effect (fun kpath touched h => ?_) h
  obtain ⟨hedits, hmounts, -⟩ := vfsMakeDir_edits hok hcwd kpath
  have hmade := @effect_edit k sysMkdir a1 _ (hedits.mono (fun _ _ _ => trivial) fun _ _ => id) hmounts
  split at h
  all_goals
    rename_i fs hmake
    rw [hmake] at hmade
    cases h
    exact hmade

theorem ksysList_same (h : (ksysList mach k a1).done = some (r, k')) : k' = k := by
  have hlist : ∀ p : Option CStr, ((vfsList mach k.files.fs k.cwd p).map fun _ => ((0 : Int), k)) =
      some (r, k') → k' = k := by
    intro p hp
    obtain ⟨-, -, hpair⟩ := Option.map_eq_some_iff.mp hp
    exact (Prod.mk.inj hpair).2.symm
  unfold ksysList at h
  dsimp only at h
  split at h
  · exact hlist _ h
  split at h
  · cases h
    rfl
  · exact hlist _ h

theorem ksysStat_same (h : (ksysStat mach k a1 a2).done = some (r, k')) : SameFiles k k' := by
  unfold ksysStat at h
  split at h
  · cases h
    exact .refl k
  split at h
  · cases h
    exact .refl k
  split at h
  · cases h
    exact .refl k
  dsimp only at h
  split at h
  · cases h
  · rename_i ok stat fs hstat
    obtain ⟨htree, hmounts⟩ := vfsStat_keeps hstat
    cases h
    exact ⟨htree, hmounts, rfl, rfl⟩

/-! ## All calls -/

/-- The calls whose handlers see none of the files, or only look at them. -/
theorem ksysOther_files :
    ((ksysGetcwd k a1 a2).done = some (r, k') → k'.files = k.files) ∧
    ((ksysMeminfo mach k a1).done = some (r, k') → k'.files = k.files) ∧
    ((ksysIpcRecv k a1).done = some (r, k') → k'.files = k.files) ∧
    (∀ send, (ksysIpcSendWith send k a1).done = some (r, k') → k'.files = k.files) ∧
    ((ksysServiceRegister k a1).done = some (r, k') → k'.files = k.files) ∧
    ((ksysServiceLookup k a1).done = some (r, k') → k'.files = k.files) ∧
    ((ksysFstat k (toInt a1) a2).done = some (r, k') → k'.files = k.files) := by
  refine ⟨fun h => ?getcwd, fun h => ?meminfo, fun h => ?recv, fun send h => ?send,
    fun h => ?register, fun h => ?lookup, fun h => ?fstat⟩
  case getcwd =>
    unfold ksysGetcwd at h
    dsimp only at h
    repeat' split at h
    all_goals
      cases h
      rfl
  case meminfo =>
    unfold ksysMeminfo at h
    split at h <;>
    · cases h
      rfl
  case recv =>
    unfold ksysIpcRecv at h
    dsimp only at h
    repeat' split at h
    all_goals
      cases h
      rfl
  case send =>
    unfold ksysIpcSendWith at h
    dsimp only at h
    split at h <;>
    · cases h
      rfl
  case register =>
    unfold ksysServiceRegister withUserCstr at h
    dsimp only at h
    repeat' split at h
    all_goals
      cases h
      rfl
  case lookup =>
    unfold ksysServiceLookup withUserCstr at h
    dsimp only at h
    repeat' split at h
    all_goals
      cases h
      rfl
  case fstat =>
    unfold ksysFstat at h
    dsimp only at h
    repeat' split at h
    all_goals
      cases h
      rfl

/-- The handlers that work on files; every other call leaves them alone. -/
inductive Handled (mach : Machine) (k : KState) (a1 a2 a3 : U32) (r : Int) (k' : KState) : U32 → Prop
  | read (h : (ksysRead k (toInt a1) a2 a3).done = some (r, k')) : Handled mach k a1 a2 a3 r k' sysRead
  | write (h : (ksysWrite mach k (toInt a1) a2 a3).done = some (r, k')) :
      Handled mach k a1 a2 a3 r k' sysWrite
  | openFile (h : (ksysOpen mach k a1 a2).done = some (r, k')) : Handled mach k a1 a2 a3 r k' sysOpen
  | close (h : (ksysClose k (toInt a1)).done = some (r, k')) : Handled mach k a1 a2 a3 r k' sysClose
  | mkdir (h : (ksysMkdir k a1).done = some (r, k')) : Handled mach k a1 a2 a3 r k' sysMkdir
  | stat (h : (ksysStat mach k a1 a2).done = some (r, k')) : Handled mach k a1 a2 a3 r k' sysStat
  | other {num : U32} (hfiles : k'.files = k.files) : Handled mach k a1 a2 a3 r k' num

theorem done_ite {c : Prop} [Decidable c] {a b : Outcome} {x : Int × KState}
    (h : (if c then a else b).done = some x) : c ∧ a.done = some x ∨ b.done = some x := by
  by_cases hc : c
  · rw [if_pos hc] at h
    exact Or.inl ⟨hc, h⟩
  · rw [if_neg hc] at h
    exact Or.inr h

theorem syscallEntry_handled
    (h : (syscallEntry mach k num a1 a2 a3 a4 a5).done = some (r, k')) :
    Handled mach k a1 a2 a3 r k' num := by
  obtain ⟨hgetcwd, hmeminfo, hrecv, hsend, hregister, hlookup, hfstat⟩ :=
    @ksysOther_files mach k k' r a1 a2
  have hret : ∀ {r' : Int}, (Outcome.ret k r' []).done = some (r, k') → k'.files = k.files := by
    intro r' h
    cases h
    rfl
  unfold syscallEntry at h
  rcases done_ite h with ⟨rfl, h⟩ | h
  · exact .read h
  rcases done_ite h with ⟨rfl, h⟩ | h
  · exact .write h
  rcases done_ite h with ⟨rfl, h⟩ | h
  · exact .openFile h
  rcases done_ite h with ⟨rfl, h⟩ | h
  · exact .close h
  rcases done_ite h with ⟨-, h⟩ | h
  · exact .other (hret h)
  rcases done_ite h with ⟨rfl, h⟩ | h
  · exact .mkdir h
  rcases done_ite h with ⟨-, h⟩ | h
  · exact .other (hgetcwd h)
  rcases done_ite h with ⟨-, h⟩ | h
  · cases h
    apply Handled.other
    unfold ksysExit
    dsimp only
    split <;> rfl
  rcases done_ite h with ⟨-, h⟩ | h
  · exact .other (congrArg KState.files (ksysList_same h))
  rcases done_ite h with ⟨-, h⟩ | h
  · exact .other (hret h)
  rcases done_ite h with ⟨-, h⟩ | h
  · exact .other (hret h)
  rcases done_ite h with ⟨-, h⟩ | h
  · exact .other (hmeminfo h)
  rcases done_ite h with ⟨-, h⟩ | h
  · exact .other (hsend _ h)
  rcases done_ite h with ⟨-, h⟩ | h
  · exact .other (hrecv h)
  rcases done_ite h with ⟨-, h⟩ | h
  · exact .other (hsend _ h)
  rcases done_ite h with ⟨-, h⟩ | h
  · exact .other (hret h)
  rcases done_ite h with ⟨-, h⟩ | h
  · exact .other (hregister h)
  rcases done_ite h with ⟨-, h⟩ | h
  · exact .other (hlookup h)
  rcases done_ite h with ⟨rfl, h⟩ | h
  · exact .stat h
  rcases done_ite h with ⟨-, h⟩ | h
  · exact .other (hfstat h)
  rcases done_ite h with ⟨-, h⟩ | h
  · exact .other (hret h)
  · exact .other (hret h)

theorem syscallEntry_effect (hok : TreeOk k.files.fs.tree) (hcwd : k.cwd < k.files.fs.tree.count)
    (h : (syscallEntry mach k num a1 a2 a3 a4 a5).done = some (r, k')) : Effect k num a1 k' := by
  cases syscallEntry_handled h with
  | read h => exact ksysRead_effect h
  | write h => exact ksysWrite_effect h
  | openFile h => exact ksysOpen_effect hok hcwd h
  | close h => exact ksysClose_effect hok hcwd h
  | mkdir h => exact ksysMkdir_effect hok hcwd h
  | stat h => exact (ksysStat_same h).effect
  | other hfiles =>
      apply SameFiles.effect
      exact ⟨by rw [hfiles], by rw [hfiles], by rw [hfiles], by rw [hfiles]⟩

end SlopOS.Proofs.FileCalls
