import SlopOS.Proofs.FileWrites
import SlopOS.Proofs.StatOpen
import SlopOS.Proofs.TreeRuns
/-!
# Sessions on a file

Between two calls on a descriptor anything may happen: other processes run, call
the kernel and work on other descriptors, and the shell works on the tree.  The
calls on the descriptor are all the same reads and writes at one cursor, and
what `ksys_close` leaves in the file is the array they have made.
-/

namespace SlopOS.Proofs.FileSessions

open SlopOS.Support SlopOS.Kernel
open SlopOS.Proofs.FileTree SlopOS.Proofs.FilePaths SlopOS.Proofs.FileEdits SlopOS.Proofs.TreeRuns
open SlopOS.Proofs.SystemCalls SlopOS.Proofs.FileOutcomes SlopOS.Proofs.FileCalls SlopOS.Proofs.FileCursor
open SlopOS.Proofs.FileWrites SlopOS.Proofs.StatOpen

/-! ## Events -/

/-- The processor goes to other code, which leaves files and descriptors alone; a system call; an
operation of the shell on the tree, or some other use of the kernel heap. -/
inductive FileEvent
  | turn (other : KState)
  | call (num a1 a2 a3 : U32)
  | tree (e : TreeEvent)

/-- The files and the descriptors of `k`, and everything else of `other`. -/
def turnTo (k other : KState) : KState :=
  { other with files := { other.files with fs := k.files.fs, fds := k.files.fds } }

/-- The working directory is a node; a call that never returns is no step. -/
def fileStep (mach : Machine) (k : KState) : FileEvent → Option KState
  | .turn other => if other.cwd < k.files.fs.tree.count then some (turnTo k other) else none
  | .call num a1 a2 a3 => (syscallEntry mach k num a1 a2 a3 0 0).done.map Prod.snd
  | .tree e => (treeStep mach k.files.fs e).map k.setFs

structure Fresh (k : KState) : Prop where
  init : ∃ mounts heap, vfsInit mounts heap = some k.files.fs
  unused : ∀ slot, (k.files.fds slot).used = false
  userCwd : k.files.userCwd = none

def Reached (mach : Machine) (k : KState) : Prop :=
  ∃ k₀ es, Fresh k₀ ∧ Runs.run (fileStep mach) k₀ es = some k

/-- The event stores to node `n`: a descriptor is closed, or the shell writes. -/
def Writes (n : Nat) (k : KState) : FileEvent → Prop
  | .call num a1 _ _ => Fills k num a1 n
  | .tree (.writeFile cwd path data size) => Stores k.files.fs cwd path data size n
  | _ => False

variable {mach : Machine} {k k' k₁ k₂ : KState} {e : FileEvent} {es : List FileEvent}
variable {fd pid r : Int} {slot : Fin fdMax} {n cwd : Nat} {full : CStr} {c c₀ : Cursor U8}
variable {t u : VfsTree} {buf len path flags : U32} {d : Prop}

/-! ## The tree under all events -/

structure FilesOk (k : KState) : Prop where
  tree : TreeOk k.files.fs.tree
  cwd : k.cwd < k.files.fs.tree.count

theorem filesOk_fresh (h : Fresh k) : FilesOk k := by
  obtain ⟨mounts, heap, hinit⟩ := h.init
  have hok : TreeOk k.files.fs.tree := (tidy_init hinit).tree
  refine ⟨hok, ?_⟩
  unfold KState.cwd
  rw [h.userCwd]
  exact hok.root_lt

theorem treeStep_stores {e : TreeEvent} {fs fs' : Fs} (hok : TreeOk fs.tree)
    (h : treeStep mach fs e = some fs') (k : KState) (hfs : k.files.fs = fs) :
    Edited (fun _ _ => True) (fun _ n => Writes n k (.tree e)) fs.tree fs'.tree := by
  obtain ⟨hedits, -⟩ := treeStep_edits hok h
  cases e with
  | writeFile cwd path data size =>
      obtain ⟨hcwd, h⟩ := Option.ite_none_right_eq_some.mp h
      obtain rfl := Option.some.inj h
      obtain ⟨hstores, -⟩ := vfsWriteFile_stores hok hcwd path data size
      rw [← hfs] at hstores ⊢
      exact hstores
  | _ => exact hedits.mono (fun _ _ _ => trivial) fun _ _ => False.elim

theorem fileStep_edits (hk : FilesOk k) (h : fileStep mach k e = some k') :
    Edited (fun _ _ => True) (fun _ n => Writes n k e) k.files.fs.tree k'.files.fs.tree ∧
      FilesOk k' := by
  cases e with
  | turn other =>
      obtain ⟨hcwd, h⟩ := Option.ite_none_right_eq_some.mp h
      obtain rfl := Option.some.inj h
      exact ⟨.refl, hk.tree, hcwd⟩
  | call num a1 a2 a3 =>
      obtain ⟨⟨r, k₁⟩, hdone, rfl⟩ := Option.map_eq_some_iff.mp h
      have heffect := syscallEntry_effect hk.tree hk.cwd hdone
      refine ⟨heffect.edits, heffect.edits.treeOk hk.tree, ?_⟩
      have hcwd : k₁.cwd = k.cwd := by
        unfold KState.cwd
        rw [heffect.userCwd]
      rw [hcwd]
      exact Nat.lt_of_lt_of_le hk.cwd heffect.edits.count_le
  | tree e =>
      obtain ⟨fs, hstep, rfl⟩ := Option.map_eq_some_iff.mp h
      have hedits := treeStep_stores hk.tree hstep k rfl
      exact ⟨hedits, hedits.treeOk hk.tree, Nat.lt_of_lt_of_le hk.cwd hedits.count_le⟩

theorem filesOk_run (hk : FilesOk k) (hrun : Runs.run (fileStep mach) k es = some k') :
    FilesOk k' := by
  refine Runs.invariant (I := FilesOk) (fun k e k' _ hk h => ?_) (Runs.AllSteps.trivial k es) hrun hk
  exact (fileStep_edits hk h).2

theorem filesOk_reached (h : Reached mach k) : FilesOk k := by
  obtain ⟨k₀, es, hfresh, hrun⟩ := h
  exact filesOk_run (filesOk_fresh hfresh) hrun

theorem edited_run (hk : FilesOk k) (hrun : Runs.run (fileStep mach) k es = some k') :
    Edited (fun _ _ => True) (fun _ _ => True) k.files.fs.tree k'.files.fs.tree := by
  have hend := Runs.invariant
    (I := fun k' => FilesOk k' ∧
      Edited (fun _ _ => True) (fun _ _ => True) k.files.fs.tree k'.files.fs.tree)
    (fun k₁ e k₂ _ hk₁ h => ?_) (Runs.AllSteps.trivial k es) hrun ⟨hk, .refl⟩
  · exact hend.2
  · obtain ⟨hedits, hk₂⟩ := fileStep_edits hk₁.1 h
    exact ⟨hk₂, hk₁.2.trans (hedits.mono (fun _ _ => id) fun _ _ _ => trivial)⟩

theorem bytes_run (hk : FilesOk k) (hn : n < k.files.fs.tree.count)
    (hspare : Runs.AllSteps (fileStep mach) (fun k e => ¬Writes n k e) k es)
    (hrun : Runs.run (fileStep mach) k es = some k') :
    fileBytes k'.files.fs.tree n = fileBytes k.files.fs.tree n := by
  have hend := Runs.invariant
    (I := fun k' => FilesOk k' ∧ n < k'.files.fs.tree.count ∧
      fileBytes k'.files.fs.tree n = fileBytes k.files.fs.tree n)
    (fun k₁ e k₂ hno hk₁ h => ?_) hspare hrun ⟨hk, hn, rfl⟩
  · exact hend.2.2
  · obtain ⟨hok, hlt, hbytes⟩ := hk₁
    obtain ⟨hedits, hk₂⟩ := fileStep_edits hok h
    refine ⟨hk₂, Nat.lt_of_lt_of_le hlt hedits.count_le, ?_⟩
    exact (Edited.bytes hedits hlt fun _ => hno).trans hbytes

/-! ## A descriptor that is written through -/

/-- Process `pid` has a descriptor for writing to the path `full`, at cursor `c`; `d` tells whether
closing it will store. -/
structure WriterAt (k : KState) (fd pid : Int) (slot : Fin fdMax) (full : CStr) (c : Cursor U8)
    (d : Prop) : Prop where
  fd_eq : (slot.val : Int) = fd
  three : 3 ≤ slot.val
  used : (k.files.fds slot).used = true
  pid_eq : (k.files.fds slot).pid = pid
  path_eq : (k.files.fds slot).path = full
  entry : Writable (k.files.fds slot) c
  dirty : (k.files.fds slot).dirty = true ↔ d

theorem WriterAt.congr (h : WriterAt k fd pid slot full c d)
    (hsame : k'.files.fds slot = k.files.fds slot) : WriterAt k' fd pid slot full c d where
  fd_eq := h.fd_eq
  three := h.three
  used := by
    rw [hsame]
    exact h.used
  pid_eq := by
    rw [hsame]
    exact h.pid_eq
  path_eq := by
    rw [hsame]
    exact h.path_eq
  entry := by
    rw [hsame]
    exact h.entry
  dirty := by
    rw [hsame]
    exact h.dirty

theorem WriterAt.lookup (h : WriterAt k fd pid slot full c d) (hpid : k.pid = pid) :
    fdLookup k.files.fds fd k.pid = some slot := by
  obtain rfl := h.fd_eq
  exact fdLookup_eq h.three h.used (h.pid_eq.trans hpid.symm)

theorem WriterAt.setEntry {k₁ : KState} {entry : FdEntry} {d' : Prop} {c' : Cursor U8}
    (h : WriterAt k fd pid slot full c d) (howner : SameOwner (k.files.fds slot) entry)
    (hentry : Writable entry c') (hdirty : entry.dirty = true ↔ d') :
    WriterAt (k₁.setFd slot entry) fd pid slot full c' d' := by
  have hset : (k₁.setFd slot entry).files.fds slot = entry := Function.update_self _ _ _
  constructor
  case fd_eq => exact h.fd_eq
  case three => exact h.three
  all_goals rw [hset]
  case used => exact howner.used.trans h.used
  case pid_eq => exact howner.pid.trans h.pid_eq
  case path_eq => exact howner.path.trans h.path_eq
  case entry => exact hentry
  case dirty => exact hdirty

theorem writerAt_write (h : WriterAt k fd pid slot full c d) (hpid : k.pid = pid)
    (hdone : (ksysWrite mach k fd buf len).done = some (r, k')) (hr : 0 ≤ r) :
    r = len.toNat ∧
      WriterAt k' fd pid slot full (c.write (ByteMem.load k.core.mem buf len.toNat)) True := by
  obtain ⟨hlen, entry, heap, rfl, hentry, howner, hdirty⟩ :=
    ksysWrite_done (h.lookup hpid) h.entry hdone hr
  exact ⟨hlen, h.setEntry howner hentry (iff_of_true hdirty trivial)⟩

theorem read_checked (hlookup : fdLookup k.files.fds fd k.pid = some slot)
    (hdone : (ksysRead k fd buf len).done = some (r, k')) (hr : 0 ≤ r) :
    (k.files.fds slot).readable = true ∧ validateBuffer k.core buf len = true := by
  have hthree := (fdLookup_spec hlookup).2.2
  cases ksysRead_cases hdone with
  | refused hcode => omega
  | line hfd => omega
  | file _ hslot hreadable hvalid =>
      obtain rfl := Option.some.inj (hlookup.symm.trans hslot)
      exact ⟨hreadable, hvalid⟩

theorem writerAt_read (h : WriterAt k fd pid slot full c d) (hpid : k.pid = pid)
    (hdone : (ksysRead k fd buf len).done = some (r, k')) (hr : 0 ≤ r) :
    r = (c.read len.toNat).length ∧
      ByteMem.load k'.core.mem buf r.toNat = c.read len.toNat ∧
        WriterAt k' fd pid slot full (c.afterRead len.toNat) d := by
  have hlookup := h.lookup hpid
  obtain ⟨hreadable, hvalid⟩ := read_checked hlookup hdone hr
  have hread := ksysRead_done hlookup hreadable hvalid h.entry.views
  have hviews := @views_afterRead k slot buf c len.toNat h.entry.views
  rw [hread] at hdone
  cases hdone
  have hbound : (c.read len.toNat).length ≤ 2 ^ 32 := by
    have hlt := len.isLt
    rw [c.length_read]
    omega
  refine ⟨rfl, load_afterRead _ hbound, h.setEntry ⟨rfl, rfl, rfl, rfl, rfl⟩ ⟨h.entry.writable,
    h.entry.buffered, ?_⟩ h.dirty⟩
  have hset : (afterRead k slot buf (c.read len.toNat)).files.fds slot = _ :=
    Function.update_self _ _ _
  rw [hset] at hviews
  exact hviews

/-! ## Sessions -/

/-- A read or a write, with its result and the bytes it has given. -/
structure Transfer where
  op : Cursor.Op U8
  result : Int
  given : Bytes

/-- The calls of `ksys_read` and `ksys_write` on the descriptor. -/
def transfers (mach : Machine) (fd pid : Int) (k : KState) : FileEvent → List Transfer
  | .call num a1 a2 a3 =>
    if toInt a1 = fd ∧ k.pid = pid then
      match (syscallEntry mach k num a1 a2 a3 0 0).done with
      | none => []
      | some (r, k') =>
        if num = sysRead then [⟨.read a3.toNat, r, ByteMem.load k'.core.mem a2 r.toNat⟩]
        else if num = sysWrite then [⟨.write (ByteMem.load k.core.mem a2 a3.toNat), r, []⟩]
        else []
    else []
  | _ => []

def Closes (fd pid : Int) (k : KState) : FileEvent → Prop
  | .call num a1 _ _ => num = sysClose ∧ toInt a1 = fd ∧ k.pid = pid
  | _ => False

/-- The calls on the descriptor succeed, and it stays open. -/
def InUse (mach : Machine) (fd pid : Int) (k : KState) (e : FileEvent) : Prop :=
  (∀ x ∈ transfers mach fd pid k e, 0 ≤ x.result) ∧ ¬Closes fd pid k e

def Transfer.amount (x : Transfer) : Int :=
  match x.op with
  | .read _ => x.given.length
  | .write xs => xs.length

structure LikeCursor (c : Cursor U8) (log : List Transfer) : Prop where
  given : log.map Transfer.given = (c.run (log.map Transfer.op)).1
  result : ∀ x ∈ log, x.result = x.amount

def Wrote (log : List Transfer) : Prop := ∃ x ∈ log, ∃ xs, x.op = .write xs

/-- After the calls `log` on a descriptor that started at `c₀`. -/
structure Session (k : KState) (fd pid : Int) (slot : Fin fdMax) (full : CStr) (c₀ : Cursor U8)
    (d : Prop) (log : List Transfer) : Prop where
  files : FilesOk k
  writer : WriterAt k fd pid slot full (c₀.run (log.map Transfer.op)).2 (d ∨ Wrote log)
  like : LikeCursor c₀ log

theorem LikeCursor.snoc {log : List Transfer} {x : Transfer} (h : LikeCursor c log)
    (hgiven : x.given = ((c.run (log.map Transfer.op)).2.step x.op).1)
    (hresult : x.result = x.amount) : LikeCursor c (log ++ [x]) where
  given := by
    rw [List.map_append, List.map_append, Cursor.run_append, h.given, List.map_cons, hgiven]
    rfl
  result := by
    intro y hy
    rcases List.mem_append.mp hy with hy | hy
    · exact h.result y hy
    · rw [List.mem_singleton.mp hy]
      exact hresult

theorem run_snoc {log : List Transfer} {x : Transfer} :
    (c.run ((log ++ [x]).map Transfer.op)).2 =
      ((c.run (log.map Transfer.op)).2.step x.op).2 := by
  rw [List.map_append, Cursor.run_append]
  rfl

theorem wrote_snoc {log : List Transfer} {x : Transfer} :
    Wrote (log ++ [x]) ↔ Wrote log ∨ ∃ xs, x.op = .write xs := by
  unfold Wrote
  simp only [List.mem_append, List.mem_singleton, or_and_right, exists_or, exists_eq_left]

variable {log : List Transfer}

theorem Session.other (h : Session k fd pid slot full c₀ d log) (hstep : fileStep mach k e = some k')
    (hkeep : k'.files.fds slot = k.files.fds slot) : Session k' fd pid slot full c₀ d log :=
  ⟨(fileStep_edits h.files hstep).2, h.writer.congr hkeep, h.like⟩

theorem not_uses (h : WriterAt k fd pid slot full c d) {num a1 : U32}
    (hnot : ¬(num ∈ [sysRead, sysWrite, sysClose] ∧ toInt a1 = fd ∧ k.pid = pid)) :
    ¬Uses k num a1 slot := by
  rintro (⟨hnum, hlookup⟩ | ⟨-, hunused⟩)
  · obtain ⟨-, hpid, -, hfd⟩ := fdLookup_spec hlookup
    exact hnot ⟨hnum, hfd.symm.trans h.fd_eq, hpid.symm.trans h.pid_eq⟩
  · rw [h.used] at hunused
    cases hunused

theorem session_step (huse : InUse mach fd pid k e) (h : Session k fd pid slot full c₀ d log)
    (hstep : fileStep mach k e = some k') :
    Session k' fd pid slot full c₀ d (log ++ transfers mach fd pid k e) := by
  obtain ⟨hsucceed, hopen⟩ := huse
  cases e with
  | turn other =>
      have hsame : k'.files.fds slot = k.files.fds slot := by
        obtain ⟨-, hturn⟩ := Option.ite_none_right_eq_some.mp hstep
        rw [← Option.some.inj hturn]
        rfl
      have hnone : transfers mach fd pid k (.turn other) = [] := rfl
      rw [hnone, List.append_nil]
      exact h.other hstep hsame
  | tree e =>
      have hsame : k'.files.fds slot = k.files.fds slot := by
        obtain ⟨fs, -, rfl⟩ := Option.map_eq_some_iff.mp hstep
        rfl
      have hnone : transfers mach fd pid k (.tree e) = [] := rfl
      rw [hnone, List.append_nil]
      exact h.other hstep hsame
  | call num a1 a2 a3 =>
      obtain ⟨⟨r, k₁⟩, hdone, rfl⟩ := Option.map_eq_some_iff.mp hstep
      have hfiles := (fileStep_edits h.files hstep).2
      have heffect := syscallEntry_effect h.files.tree h.files.cwd hdone
      have hother : ¬Uses k num a1 slot → Session k₁ fd pid slot full c₀ d log :=
        fun hnot => h.other hstep (heffect.fds slot hnot)
      unfold transfers at hsucceed ⊢
      dsimp only at hsucceed hfiles ⊢
      by_cases hown : toInt a1 = fd ∧ k.pid = pid
      · rw [if_pos hown, hdone] at hsucceed ⊢
        dsimp only at hsucceed ⊢
        by_cases hread : num = sysRead
        · rw [if_pos hread] at hsucceed ⊢
          subst num
          obtain ⟨rfl, hpid⟩ := hown
          obtain ⟨hr, hgiven, hwriter⟩ :=
            writerAt_read h.writer hpid hdone (hsucceed _ List.mem_cons_self)
          refine ⟨hfiles, ?_, h.like.snoc hgiven ?_⟩
          · rw [run_snoc, wrote_snoc]
            simp only [reduceCtorEq, exists_false, or_false]
            exact hwriter
          · show r = _
            unfold Transfer.amount
            dsimp only
            rw [hgiven]
            exact hr
        rw [if_neg hread] at hsucceed ⊢
        by_cases hwrite : num = sysWrite
        · rw [if_pos hwrite] at hsucceed ⊢
          subst num
          obtain ⟨rfl, hpid⟩ := hown
          obtain ⟨hr, hwriter⟩ := writerAt_write h.writer hpid hdone (hsucceed _ List.mem_cons_self)
          refine ⟨hfiles, ?_, h.like.snoc rfl ?_⟩
          · rw [run_snoc, wrote_snoc]
            simp only [Cursor.Op.write.injEq, exists_eq', or_true]
            exact hwriter
          · show r = _
            unfold Transfer.amount
            dsimp only
            rw [ByteMem.length_load]
            exact hr
        · rw [if_neg hwrite, List.append_nil]
          refine hother (not_uses h.writer ?_)
          rintro ⟨hnum, -⟩
          simp only [List.mem_cons, List.not_mem_nil, or_false] at hnum
          rcases hnum with hnum | hnum | hnum
          · exact hread hnum
          · exact hwrite hnum
          · exact hopen ⟨hnum, hown⟩
      · rw [if_neg hown, List.append_nil]
        exact hother (not_uses h.writer fun hnot => hown hnot.2)

/-- The calls of a whole session are reads and writes at a cursor. -/
theorem session_run (h : Session k fd pid slot full c₀ d [])
    (huse : Runs.AllSteps (fileStep mach) (InUse mach fd pid) k es)
    (hrun : Runs.run (fileStep mach) k es = some k') :
    Session k' fd pid slot full c₀ d (Runs.observe (fileStep mach) (transfers mach fd pid) k es) :=
  Runs.observe_invariant (J := fun k log => Session k fd pid slot full c₀ d log)
    (fun _ _ _ _ huse h hstep => session_step huse h hstep) huse hrun h

/-! ## Opening and closing -/

variable {kpath : CStr}

/-- The descriptor is to be written through. -/
def WantsWrite (flags : U32) : Prop := flags &&& oAccmode = oWronly ∨ flags &&& oAccmode = oRdwr

theorem opening_text {fs₁ fs₂ : Fs} {data : Option Bytes} {size : U32}
    (h : Opening mach k path flags kpath full fs₁ fs₂ data size slot) : AbsText full := by
  have hle := copyUserCstr_length h.copied
  have hmax : vfsPathMax = 128 := rfl
  exact makeAbsPath_text (by omega) h.absPath

theorem opening_old {fs₁ fs₂ : Fs} {data : Option Bytes} {size : U32} (hk : FilesOk k)
    (h : Opening mach k path flags kpath full fs₁ fs₂ data size slot)
    (hres : vfsResolve fs₁.tree full = some n) :
    fileBytes fs₁.tree n = oldBytes k.files.fs.tree full := by
  have htouched := h.touched
  split at htouched
  · exact vfsTouch_oldBytes hk.tree hk.cwd (opening_text h) htouched hres
  · obtain rfl := (Prod.mk.inj htouched).2
    unfold oldBytes
    rw [hres]
    rfl

theorem session_open (hk : FilesOk k) (hcopy : (copyUserCstr k.core path 128).1 = some kpath)
    (hfull : makeAbsPath k.files.fs.tree k.cwd kpath 128 = some full)
    (hmem : vfsMountSubpath full = none) (hwrite : WantsWrite flags)
    (hopen : (ksysOpen mach k path flags).done = some (fd, k₁)) (hfd : 0 ≤ fd) :
    ∃ slot n, vfsResolve k₁.files.fs.tree full = some n ∧
      (k₁.files.fs.tree.node n).type = .file ∧ k₁.cwd = k.cwd ∧
      Edited (fun _ _ => True) (fun _ _ => True) k.files.fs.tree k₁.files.fs.tree ∧
      Session k₁ fd k.pid slot full (startCursor (oldBytes k.files.fs.tree full) flags)
        (flags &&& oTrunc ≠ 0) [] := by
  obtain ⟨kpath', full', fs₁, fs₂, data, size, slot, ho, hdone⟩ := ksysOpen_opening hopen hfd
  have hpath : kpath' = kpath := Option.some.inj (ho.copied.symm.trans hcopy)
  subst hpath
  have hsame : full' = full := Option.some.inj (ho.absPath.symm.trans hfull)
  subst hsame
  have habs := opening_text ho
  obtain ⟨rfl, n, hres, hfile, hdata, hsize⟩ := (found_inTree habs hmem).mp ho.found
  obtain ⟨hedits, -⟩ := touched_edits hk.tree hk.cwd ho.touched
  have hold := opening_old hk ho hres
  have hwritable : (openEntry k.pid full' data size flags).writable = true := by
    show (decide (flags &&& oAccmode = oWronly) || decide (flags &&& oAccmode = oRdwr)) = true
    rw [Bool.or_eq_true, decide_eq_true_eq, decide_eq_true_eq]
    exact hwrite
  cases hdone with
  | noRoom => exact absurd hfd (by decide)
  | plain hplain => exact (Bool.false_ne_true (hplain.symm.trans hwritable)).elim
  | @buffered entry heap _ hbuf =>
      obtain ⟨hw, howner, hdirty⟩ := openForWrite_spec rfl hwritable hbuf
      have hset : (((k.setFs fs₂).setFs { (k.setFs fs₂).files.fs with heap := heap }).setFd slot
          entry).files.fds slot = entry := Function.update_self _ _ _
      refine ⟨slot, n, hres, hfile, rfl, hedits.mono (fun _ _ => id) fun _ _ => False.elim,
        ⟨hedits.treeOk hk.tree, Nat.lt_of_lt_of_le hk.cwd hedits.count_le⟩, ?_, rfl, nofun⟩
      constructor
      case fd_eq => rfl
      case three => exact (fdAllocSlot_spec ho.free).2
      all_goals rw [hset]
      case used => exact howner.used
      case pid_eq => exact howner.pid
      case path_eq =>
        rw [howner.path]
        have hshort := habs.short
        exact List.take_of_length_le (by omega)
      case entry =>
        rw [← hold]
        unfold fileBytes
        rw [← hdata, ← hsize]
        exact hw
      case dirty =>
        rw [hdirty]
        constructor
        · rintro (htrunc | hold)
          · exact Or.inl htrunc
          · cases hold
        · rintro (htrunc | ⟨x, hx, -⟩)
          · exact Or.inl htrunc
          · cases hx

theorem Writable.bytes (h : Writable (k.files.fds slot) c) :
    (List.range (k.files.fds slot).writeSize.toNat).map
      ((k.files.fds slot).writeBuf.getD fun _ => 0) = c.elems := by
  obtain ⟨b, hb⟩ := Option.isSome_iff_exists.mp h.buffered
  have hsize : fdSize (k.files.fds slot) = (k.files.fds slot).writeSize := by simp [fdSize, hb]
  have hbyte : byteAt (k.files.fds slot) = b := by simp [byteAt, hb]
  rw [← h.views.elems, hb, Option.getD_some]
  unfold contentsOf
  rw [hsize, hbyte]

/-- A close that succeeds leaves the array in the file, if there is anything to store. -/
theorem writerAt_close (hk : FilesOk k) (h : WriterAt k fd pid slot full c d) (habs : AbsText full)
    (hres : vfsResolve k.files.fs.tree full = some n)
    (hdone : (ksysClose k fd).done = some (0, k')) :
    Edited (fun _ _ => True) (fun _ m => d ∧ m = n) k.files.fs.tree k'.files.fs.tree ∧
      k'.cwd = k.cwd ∧ (d → fileBytes k'.files.fs.tree n = c.elems) := by
  cases ksysClose_cases hdone with
  | @closed slot' fs hslot' hback =>
      obtain ⟨-, -, -, hfd⟩ := fdLookup_spec hslot'
      have hsame : slot' = slot := by
        have heq := hfd.trans h.fd_eq.symm
        exact Fin.ext (by omega)
      subst hsame
      unfold fdWriteBack at hback
      split at hback
      · rename_i hdirty
        have hd : d := h.dirty.mp hdirty.2
        obtain ⟨hedits, -, hbytes⟩ := vfsWriteFile_stores hk.tree hk.cwd (k.files.fds slot').path
          ((k.files.fds slot').writeBuf.getD fun _ => 0) (k.files.fds slot').writeSize
        have hstores : ∀ m, Stores k.files.fs k.cwd (k.files.fds slot').path
            ((k.files.fds slot').writeBuf.getD fun _ => 0) (k.files.fds slot').writeSize m ↔ m = n := by
          have hleads := Edited.resolve hedits hk.tree hk.cwd ((habs.resolve k.cwd).trans hres)
          intro m
          unfold Stores
          rw [hback]
          rw [hback] at hleads
          rw [h.path_eq, hleads]
          simp [eq_comm]
        rw [hback] at hedits hbytes
        refine ⟨hedits.mono (fun _ _ => id) fun _ m hm => ⟨hd, (hstores m).mp hm⟩, rfl, fun _ => ?_⟩
        rw [← Writable.bytes h.entry]
        exact hbytes n ((hstores n).mpr rfl)
      · rename_i hclean
        cases hback
        exact ⟨.refl, rfl, fun hd => absurd ⟨h.entry.writable, h.dirty.mpr hd⟩ hclean⟩

/-! ## Opening again -/

/-- An absolute path is made from the same working directory as before. -/
theorem Edited.absPath {new : List CStr → VfsNodeType → Prop} {fill : VfsTree → Nat → Prop}
    (h : Edited new fill t u) (hok : TreeOk t) (hcwd : cwd < t.count) (kpath : CStr) (size : Nat) :
    makeAbsPath u cwd kpath size = makeAbsPath t cwd kpath size := by
  unfold makeAbsPath vfsGetCwdPath
  rw [Edited.cwdParts h hok cwdPartsMax hcwd]

/-- Opened read-only, the file has the contents `bs`. -/
def ReadsBackAs (mach : Machine) (k : KState) (path : U32) (bs : Bytes) : Prop :=
  ∃ fd k', Opens mach k path fd k' ∧ ReadsToEnd k' fd bs ∧
    FstatsFile k' fd (BitVec.ofNat 32 bs.length)

theorem readsBackAs_of_bytes (hcopy : (copyUserCstr k.core path 128).1 = some kpath)
    (hfull : makeAbsPath k.files.fs.tree k.cwd kpath 128 = some full)
    (hmem : vfsMountSubpath full = none) (hres : vfsResolve k.files.fs.tree full = some n)
    (hfile : (k.files.fs.tree.node n).type = .file) (hslot : (fdAllocSlot k.files.fds).isSome) :
    ReadsBackAs mach k path (fileBytes k.files.fs.tree n) := by
  obtain ⟨slot, hslot⟩ := Option.isSome_iff_exists.mp hslot
  have hpath : path ≠ 0 := by
    rintro rfl
    cases hcopy
  have hlen : kpath.length < 128 := by
    have hle := copyUserCstr_length hcopy
    have hmax : vfsPathMax = 128 := rfl
    omega
  have habs := makeAbsPath_text hlen hfull
  have hfound : vfsReadFile mach k.files.fs k.cwd full = some (some ((k.files.fs.tree.node n).data,
      (k.files.fs.tree.node n).size), k.files.fs) :=
    (found_inTree habs hmem).mpr ⟨rfl, n, hres, hfile, rfl, rfl⟩
  have hpair := Prod.mk.eta (p := copyUserCstr k.core path 128)
  rw [hcopy] at hpair
  have hopens := (@opens_iff mach k _ path slot.val slot kpath _ hpath hpair.symm hslot).mpr
    ⟨full, _, _, _, hfull, hfound, rfl, rfl⟩
  obtain ⟨c, hat, hpos, helems⟩ := @openAt_openEntry k k.files.fs slot full
    (k.files.fs.tree.node n).data (k.files.fs.tree.node n).size hslot
  have hbytes : c.elems = fileBytes k.files.fs.tree n := helems
  have hrest : c.rest = fileBytes k.files.fs.tree n := by
    unfold Cursor.rest
    rw [hpos, List.drop_zero, hbytes]
  refine ⟨slot.val, _, hopens, ?_, ?_⟩
  · rw [← hrest]
    exact readsToEnd_of_openAt hat
  · apply fstatsFile_of_openAt hat
    have hset : ((k.setFs k.files.fs).setFd slot (openEntry k.pid full
        (k.files.fs.tree.node n).data (k.files.fs.tree.node n).size 0)).files.fds slot =
        openEntry k.pid full (k.files.fs.tree.node n).data (k.files.fs.tree.node n).size 0 :=
      Function.update_self _ _ _
    rw [hset, length_fileBytes]
    show (k.files.fs.tree.node n).size = BitVec.ofNat 32 (k.files.fs.tree.node n).size.toNat
    rw [BitVec.ofNat_toNat, BitVec.setWidth_eq]

/-! ## Round trips -/

theorem Edited.isFile {new : List CStr → VfsNodeType → Prop} {fill : VfsTree → Nat → Prop}
    (h : Edited new fill t u) (hok : TreeOk t) (hn : n < t.count) (hfile : (t.node n).type = .file) :
    (u.node n).type = .file := by
  rw [(h.old hok hn).2.1]
  exact hfile

/-- The calls of a session are reads and writes at a cursor that starts where the flags say; and
when the descriptor has been closed, the file at the path has the contents that they made, however
it is read, until something else is stored to it. -/
theorem session_readsBack (hreach : Reached mach k)
    (hcopy : (copyUserCstr k.core path 128).1 = some kpath)
    (hfull : makeAbsPath k.files.fs.tree k.cwd kpath 128 = some full)
    (hmem : vfsMountSubpath full = none) (hwrite : WantsWrite flags)
    (hopen : (ksysOpen mach k path flags).done = some (fd, k₁)) (hfd : 0 ≤ fd)
    (huse : Runs.AllSteps (fileStep mach) (InUse mach fd k.pid) k₁ es)
    (hrun : Runs.run (fileStep mach) k₁ es = some k₂) :
    let start := startCursor (oldBytes k.files.fs.tree full) flags
    let log := Runs.observe (fileStep mach) (transfers mach fd k.pid) k₁ es
    LikeCursor start log ∧
      ∀ k₃, (ksysClose k₂ fd).done = some (0, k₃) → (flags &&& oTrunc ≠ 0 ∨ Wrote log) →
        ∃ n, vfsResolve k₃.files.fs.tree full = some n ∧
          ∀ es' k₄ path', Runs.run (fileStep mach) k₃ es' = some k₄ →
            Runs.AllSteps (fileStep mach) (fun k e => ¬Writes n k e) k₃ es' →
              (k₄.cwd = k.cwd ∨ kpath.head? = some (chr '/')) →
                (copyUserCstr k₄.core path' 128).1 = some kpath → (fdAllocSlot k₄.files.fds).isSome →
                  ReadsBackAs mach k₄ path' (start.run (log.map Transfer.op)).2.elems := by
  intro start log
  have hk := filesOk_reached hreach
  obtain ⟨slot, n, hres, hfile, -, hedits₁, hsession⟩ :=
    session_open hk hcopy hfull hmem hwrite hopen hfd
  have hk₁ := hsession.files
  have hend := session_run hsession huse hrun
  refine ⟨hend.like, fun k₃ hclose hd => ?_⟩
  have hlen : kpath.length < 128 := by
    have hle := copyUserCstr_length hcopy
    have hmax : vfsPathMax = 128 := rfl
    omega
  have habs := makeAbsPath_text hlen hfull
  -- the path leads to the same file all the time
  have hedits₂ := edited_run hk₁ hrun
  have hres₂ := Edited.resolve hedits₂ hk₁.tree hk₁.tree.root_lt hres
  obtain ⟨hclosed, hcwd₃, hbytes⟩ := writerAt_close hend.files hend.writer habs hres₂ hclose
  have hedits₃ : Edited (fun _ _ => True) (fun _ _ => True) k₂.files.fs.tree k₃.files.fs.tree :=
    hclosed.mono (fun _ _ => id) fun _ _ _ => trivial
  have hok₃ := hclosed.treeOk hend.files.tree
  have hk₃ : FilesOk k₃ := by
    refine ⟨hok₃, ?_⟩
    rw [hcwd₃]
    exact Nat.lt_of_lt_of_le hend.files.cwd hclosed.count_le
  have hres₃ := Edited.resolve hclosed hend.files.tree hend.files.tree.root_lt hres₂
  refine ⟨n, hres₃, fun es' k₄ path' hrun' hspare hcwd hcopy' hslot => ?_⟩
  have hedits₄ := edited_run hk₃ hrun'
  have hn₃ : n < k₃.files.fs.tree.count := TreeOk.resolve_lt hok₃ hok₃.root_lt hres₃
  have hwhole := ((hedits₁.trans hedits₂).trans hedits₃).trans hedits₄
  have hfull₄ : makeAbsPath k₄.files.fs.tree k₄.cwd kpath 128 = some full := by
    rw [← hfull]
    rcases hcwd with hcwd | hhead
    · rw [hcwd]
      exact Edited.absPath hwhole hk.tree hk.cwd kpath 128
    · unfold makeAbsPath
      rw [if_pos hhead, if_pos hhead]
  have hfile₄ : (k₄.files.fs.tree.node n).type = .file := by
    have hn₁ := TreeOk.resolve_lt hk₁.tree hk₁.tree.root_lt hres
    exact Edited.isFile ((hedits₂.trans hedits₃).trans hedits₄) hk₁.tree hn₁ hfile
  have hres₄ := Edited.resolve hedits₄ hok₃ hok₃.root_lt hres₃
  have hback := @readsBackAs_of_bytes mach _ _ _ _ _ hcopy' hfull₄ hmem hres₄ hfile₄ hslot
  rw [bytes_run hk₃ hn₃ hspare hrun', hbytes hd] at hback
  exact hback

/-- A kernel in which nothing has been opened, and a path in its memory. -/
def freshState (fs : Fs) (path : CStr) : KState :=
  { demoState fs vfsRoot path with
    files := { (demoState fs vfsRoot path).files with userCwd := none } }

def demoText : CStr := cstr "/docs/readme.txt"

def demoSession : List FileEvent := [.call sysWrite 3 0x00300000 4]

theorem session_demo : ∃ fs k₁ k₂ k₃, vfsInit (fsInit none) plainHeap = some fs ∧
    (ksysOpen plainMach (freshState fs demoText) 0x00300000 (oRdwr ||| oTrunc)).done = some (3, k₁) ∧
    Runs.run (fileStep plainMach) k₁ demoSession = some k₂ ∧
      (ksysClose k₂ 3).done = some (0, k₃) ∧
        ReadsBackAs plainMach k₃ 0x00300000 (cstr "/doc") := by
  have hview : ((vfsInit (fsInit none) plainHeap).bind fun fs =>
      (ksysOpen plainMach (freshState fs demoText) 0x00300000 (oRdwr ||| oTrunc)).done.bind fun r =>
        (Runs.run (fileStep plainMach) r.2 demoSession).bind fun k₂ =>
          (ksysClose k₂ 3).done.map fun r' =>
            ([r.1, r'.1], (transfers plainMach 3 0 r.2 (.call sysWrite 3 0x00300000 4)).map
              Transfer.result, (copyUserCstr r'.2.core 0x00300000 128).1,
              [(fdAllocSlot r'.2.files.fds).isSome,
                ((startCursor (oldBytes fs.tree demoText) (oRdwr ||| oTrunc)).run
                  ((Runs.observe (fileStep plainMach) (transfers plainMach 3 0) r.2
                    demoSession).map Transfer.op)).2.elems = cstr "/doc"])) =
      some ([3, 0], [4], some demoText, [true, true]) := by
    decide +kernel
  obtain ⟨fs, hinit, hview⟩ := Option.bind_eq_some_iff.mp hview
  obtain ⟨⟨fd, k₁⟩, hopen, hview⟩ := Option.bind_eq_some_iff.mp hview
  obtain ⟨k₂, hrun, hview⟩ := Option.bind_eq_some_iff.mp hview
  obtain ⟨⟨r, k₃⟩, hclose, hview⟩ := Option.map_eq_some_iff.mp hview
  simp only [Prod.mk.injEq, List.cons.injEq, and_true, decide_eq_true_eq] at hview
  obtain ⟨⟨rfl, rfl⟩, hresult, hcopy₃, hslot, hbytes⟩ := hview
  have hfresh : Fresh (freshState fs demoText) := ⟨⟨_, _, hinit⟩, fun _ => rfl, rfl⟩
  have hcopy : (copyUserCstr (freshState fs demoText).core 0x00300000 128).1 = some demoText := by
    show (copyUserCstr (demoCore demoText) 0x00300000 128).1 = some demoText
    decide +kernel
  have hfull : makeAbsPath fs.tree vfsRoot demoText 128 = some demoText := by
    unfold makeAbsPath
    rw [if_neg (by decide), if_pos (by decide)]
    rfl
  have hkernel : (demoCore demoText).ring3.currentPid = 0 := by decide +kernel
  have hpid : (freshState fs demoText).pid = 0 := by
    show toInt (demoCore demoText).ring3.currentPid = 0
    rw [hkernel]
    rfl
  have huse : Runs.AllSteps (fileStep plainMach) (InUse plainMach 3 (freshState fs demoText).pid)
      k₁ demoSession := by
    rw [hpid]
    refine ⟨⟨fun x hx => ?_, fun hclose => ?_⟩, fun _ _ => trivial⟩
    · have hmem := List.mem_map_of_mem (f := Transfer.result) hx
      rw [hresult] at hmem
      rw [List.mem_singleton.mp hmem]
      decide
    · exact absurd hclose.1 (by decide)
  have hreach : Reached plainMach (freshState fs demoText) := ⟨_, [], hfresh, rfl⟩
  obtain ⟨-, hback⟩ := session_readsBack hreach hcopy hfull (by decide) (Or.inr (by decide))
    hopen (by decide) huse hrun
  obtain ⟨n, -, hafter⟩ := hback k₃ hclose (Or.inl (by decide))
  have hreads := hafter [] k₃ 0x00300000 rfl trivial (Or.inr (by decide)) hcopy₃ hslot
  rw [hpid] at hreads
  exact ⟨fs, k₁, k₂, k₃, hinit, hopen, hrun, hclose, hbytes ▸ hreads⟩

end SlopOS.Proofs.FileSessions
