import SlopOS.Proofs.FileCursor
/-!
# The ways back from a file call

`ksys_read`, `ksys_write`, `ksys_open` and `ksys_close` taken apart once: one
case for each way back to the process, with the tests that lead there and the
state that it leaves.
-/

namespace SlopOS.Proofs.FileOutcomes

open SlopOS.Support SlopOS.Kernel SlopOS.Proofs.FileCursor

variable {mach : Machine} {k k' : KState} {heap : Heap} {slot : Fin fdMax} {fd r : Int}
variable {buf len path flags size needed : U32} {full : CStr} {data : Option Bytes} {e : FdEntry}

/-! ## Looking for a descriptor -/

theorem fdLookup_spec {fds : Fin fdMax → FdEntry} {pid : Int} (h : fdLookup fds fd pid = some slot) :
    (fds slot).used = true ∧ (fds slot).pid = pid ∧ 3 ≤ slot.val ∧ (slot.val : Int) = fd := by
  unfold fdLookup at h
  split at h
  · rename_i hfd
    dsimp only at h
    split at h
    · cases h
    · rename_i hentry
      obtain rfl := Option.some.inj h
      simp only [not_or, ne_eq, Decidable.not_not, Bool.not_eq_true] at hentry
      refine ⟨by simpa using hentry.1, hentry.2, ?_, ?_⟩
      · dsimp only
        omega
      · dsimp only
        omega
  · cases h

theorem fdLookup_eq {fds : Fin fdMax → FdEntry} {pid : Int}
    (hthree : 3 ≤ slot.val) (hused : (fds slot).used = true) (hpid : (fds slot).pid = pid) :
    fdLookup fds slot.val pid = some slot := by
  unfold fdLookup
  have hfd : (3 : Int) ≤ slot.val ∧ (slot.val : Int).toNat < fdMax := by
    rw [Int.toNat_natCast]
    exact ⟨by omega, slot.isLt⟩
  rw [dif_pos hfd]
  have hsame : (⟨(slot.val : Int).toNat, hfd.2⟩ : Fin fdMax) = slot := Fin.ext (Int.toNat_natCast _)
  dsimp only
  rw [hsame, if_neg]
  rintro (hunused | hother)
  · exact hunused hused
  · exact hother hpid

theorem fdAllocSlot_spec {fds : Fin fdMax → FdEntry} (h : fdAllocSlot fds = some slot) :
    (fds slot).used = false ∧ 3 ≤ slot.val := by
  have hslot := (Fin.find?_eq_some_iff.mp h).1
  simp only [Bool.and_eq_true, decide_eq_true_eq, Bool.not_eq_true'] at hslot
  exact ⟨hslot.2, hslot.1⟩

/-! ## The write buffer -/

theorem growCapacity_le {capacity : U32} {fuel : Nat}
    (h : growCapacity needed fuel size = some capacity) : needed ≤ capacity := by
  induction fuel generalizing size with
  | zero => cases h
  | succ fuel ih =>
      rw [growCapacity] at h
      split at h
      · rename_i hle
        obtain rfl := Option.some.inj h
        exact hle
      split at h
      · cases h
      · exact ih h

/-- There has been room, or there is a new block with the bytes that were written. -/
inductive EnsureDone (heap : Heap) (e : FdEntry) (needed : U32) : FdEntry → Heap → Prop
  | roomy (hroom : needed ≤ e.writeCapacity) : EnsureDone heap e needed e heap
  | moved {capacity addr : U32} {newBuf : Nat → U8} {heap' : Heap}
      (hmore : ¬needed ≤ e.writeCapacity) (hle : needed ≤ capacity)
      (halloc : kmalloc heap capacity = some (addr, heap'))
      (hbytes : ∀ i < e.writeSize.toNat, newBuf i = (e.writeBuf.getD fun _ => 0) i) :
      EnsureDone heap e needed { e with writeBuf := some newBuf, writeCapacity := capacity } heap'

theorem fdEnsureWriteCapacity_cases {e' : FdEntry} {heap' : Heap}
    (h : fdEnsureWriteCapacity mach heap e needed = some (e', heap')) :
    EnsureDone heap e needed e' heap' := by
  unfold fdEnsureWriteCapacity at h
  split at h
  · rename_i hroom
    cases h
    exact .roomy hroom
  rename_i hmore
  split at h
  · cases h
  rename_i hgrow
  split at h
  · cases h
  · rename_i halloc
    cases h
    exact .moved hmore (growCapacity_le hgrow) halloc fun i hi => if_pos hi

theorem needed_le {e' : FdEntry} {heap' : Heap}
    (h : fdEnsureWriteCapacity mach heap e needed = some (e', heap')) :
    needed ≤ e'.writeCapacity := by
  cases fdEnsureWriteCapacity_cases h with
  | roomy hroom => exact hroom
  | moved _ hle => exact hle

/-! ## `ksys_read` -/

def takes (e : FdEntry) (len : U32) : Nat := min len.toNat ((fdSize e).toNat - e.offset.toNat)

theorem toNat_add_takes (e : FdEntry) (len : U32) :
    (e.offset + BitVec.ofNat 32 (takes e len)).toNat = e.offset.toNat + takes e len := by
  have hsize := (fdSize e).isLt
  have hoffset := e.offset.isLt
  have htakes : e.offset.toNat + takes e len < 2 ^ 32 := by
    unfold takes
    omega
  rw [BitVec.toNat_add, BitVec.toNat_ofNat, Nat.mod_eq_of_lt (a := takes e len) (by omega)]
  exact Nat.mod_eq_of_lt htakes

theorem add_takes_le (h : e.offset.toNat ≤ (fdSize e).toNat) (len : U32) :
    e.offset.toNat + takes e len ≤ (fdSize e).toNat := by
  unfold takes
  omega

def readState (k : KState) (slot : Fin fdMax) (buf len : U32) : KState :=
  (k.setMem (ByteMem.store k.core.mem buf (takes (k.files.fds slot) len) fun j =>
    byteAt (k.files.fds slot) ((k.files.fds slot).offset.toNat + j))).setFd slot
      { k.files.fds slot with
        offset := (k.files.fds slot).offset + BitVec.ofNat 32 (takes (k.files.fds slot) len) }

inductive ReadDone (k : KState) (fd : Int) (buf len : U32) : Int → KState → Prop
  | refused {code : Int} (hcode : code < 0) : ReadDone k fd buf len code k
  | line (hfd : fd = 0) (n : Nat) :
      ReadDone k fd buf len n { k.setMem (ByteMem.store k.core.mem buf n k.files.keyboard) with
        files := { k.files with keyboard := fun i => k.files.keyboard (n + i) } }
  | file (slot : Fin fdMax) (hslot : fdLookup k.files.fds fd k.pid = some slot)
      (hreadable : (k.files.fds slot).readable = true)
      (hvalid : validateBuffer k.core buf len = true) :
      ReadDone k fd buf len (takes (k.files.fds slot) len) (readState k slot buf len)

theorem fdReadFrom_eq {src : Nat → U8} (hsrc : byteAt (k.files.fds slot) = src)
    (hsize : fdSize (k.files.fds slot) = size) :
    (fdReadFrom k slot src size buf len).done =
      some ((takes (k.files.fds slot) len : Int), readState k slot buf len) := by
  unfold fdReadFrom readState
  by_cases hend : size ≤ (k.files.fds slot).offset
  · have hnone : takes (k.files.fds slot) len = 0 := by
      have hle : size.toNat ≤ (k.files.fds slot).offset.toNat := hend
      unfold takes
      rw [hsize]
      omega
    rw [if_pos hend, hnone]
    unfold Outcome.ret KState.setFd KState.setMem
    simp
  · rw [if_neg hend, hsrc]
    unfold takes
    rw [hsize]
    rfl

theorem ksysRead_cases (h : (ksysRead k fd buf len).done = some (r, k')) :
    ReadDone k fd buf len r k' := by
  have hfrom : ∀ {slot : Fin fdMax} {src : Nat → U8} {size : U32},
      fdLookup k.files.fds fd k.pid = some slot → (k.files.fds slot).readable = true →
        validateBuffer k.core buf len = true → byteAt (k.files.fds slot) = src →
          fdSize (k.files.fds slot) = size →
            (fdReadFrom k slot src size buf len).done = some (r, k') →
              ReadDone k fd buf len r k' := by
    intro slot src size hslot hreadable hvalid hsrc hsize hdone
    rw [fdReadFrom_eq hsrc hsize] at hdone
    cases hdone
    exact .file slot hslot hreadable hvalid
  unfold ksysRead at h
  split at h
  · cases h
    exact .refused (by decide)
  split at h
  · cases h
    exact .refused (by decide)
  rename_i hvalid
  split at h
  · rename_i hfd
    cases h
    exact .line hfd _
  split at h
  · cases h
    exact .refused (by decide)
  rename_i slot hslot
  dsimp only at h
  split at h
  · cases h
    exact .refused (by decide)
  rename_i hreadable
  split at h
  · rename_i hbuf
    exact hfrom hslot (not_not.mp hreadable) (not_not.mp hvalid) (by simp [byteAt, hbuf])
      (by simp [fdSize, hbuf]) h
  rename_i hbuf
  have hsize : fdSize (k.files.fds slot) = (k.files.fds slot).size := by simp [fdSize, hbuf]
  split at h
  all_goals
    rename_i hdata
    exact hfrom hslot (not_not.mp hreadable) (not_not.mp hvalid) (by simp [byteAt, hbuf, hdata])
      hsize h

/-! ## `ksys_write` -/

theorem toNat_newSize {offset : U32} (writeSize : U32) (h : ¬offset + len < offset) :
    (if writeSize < offset + len then offset + len else writeSize).toNat =
      max writeSize.toNat (offset.toNat + len.toNat) := by
  rw [ByteMem.toNat_larger, ByteMem.toNat_add_of_not_lt h]

/-- The entry after the store loops, with its buffer grown to `e` before. -/
def writtenEntry (k : KState) (e : FdEntry) (needed buf len : U32) : FdEntry :=
  let writeSize := if e.writeSize < needed then needed else e.writeSize
  { e with
    writeBuf := some (writeInto (e.writeBuf.getD fun _ => 0) e.writeSize.toNat e.offset.toNat
      (fun j => k.core.mem (buf + BitVec.ofNat 32 j)) len.toNat)
    offset := needed
    writeSize := writeSize
    data := .writeBuf
    size := writeSize
    dirty := true }

structure Storing (mach : Machine) (k : KState) (fd : Int) (buf len : U32) (slot : Fin fdMax)
    (e : FdEntry) (heap : Heap) : Prop where
  notNull : buf ≠ 0
  valid : validateBuffer k.core buf len = true
  lookup : fdLookup k.files.fds fd k.pid = some slot
  writable : (k.files.fds slot).writable = true
  exact : ¬(k.files.fds slot).offset + len < (k.files.fds slot).offset
  grown : fdEnsureWriteCapacity mach k.files.fs.heap (k.files.fds slot)
    ((k.files.fds slot).offset + len + 1) = some (e, heap)

inductive WriteDone (mach : Machine) (k : KState) (fd : Int) (buf len : U32) :
    Int → KState → Prop
  | refused {code : Int} (hcode : code < 0)
      (hnot : ∀ slot e heap, ¬Storing mach k fd buf len slot e heap) :
      WriteDone mach k fd buf len code k
  | shown (hfd : fd = 1 ∨ fd = 2) :
      WriteDone mach k fd buf len (min len.toNat syscallWriteMax : Nat) k
  | stored {slot : Fin fdMax} {e : FdEntry} {heap : Heap}
      (hstores : Storing mach k fd buf len slot e heap) :
      WriteDone mach k fd buf len (toInt len) ((k.setFs { k.files.fs with heap := heap }).setFd slot
        (writtenEntry k e ((k.files.fds slot).offset + len) buf len))

theorem fdWrite_cases (hnull : buf ≠ 0) (hvalid : validateBuffer k.core buf len = true)
    (hslot : fdLookup k.files.fds fd k.pid = some slot)
    (h : (fdWrite mach k slot buf len).done = some (r, k')) : WriteDone mach k fd buf len r k' := by
  have hsame : ∀ {slot' : Fin fdMax} {e heap}, Storing mach k fd buf len slot' e heap →
      slot' = slot := fun hstores => Option.some.inj (hstores.lookup.symm.trans hslot)
  unfold fdWrite at h
  dsimp only at h
  split at h
  · rename_i hnot
    cases h
    refine .refused (by decide) fun slot' e heap hstores => hnot ?_
    rw [← hsame hstores]
    exact hstores.writable
  rename_i hwritable
  split at h
  · rename_i hwrap
    cases h
    refine .refused (by decide) fun slot' e heap hstores => ?_
    rw [← hsame hstores] at hwrap
    exact hstores.exact hwrap
  rename_i hexact
  split at h
  · rename_i hnone
    cases h
    refine .refused (by decide) fun slot' e heap hstores => ?_
    rw [← hsame hstores, hstores.grown] at hnone
    cases hnone
  · rename_i hgrown
    cases h
    exact .stored ⟨hnull, hvalid, hslot, not_not.mp hwritable, hexact, hgrown⟩

theorem ksysWrite_cases (h : (ksysWrite mach k fd buf len).done = some (r, k')) :
    WriteDone mach k fd buf len r k' := by
  unfold ksysWrite at h
  split at h
  · rename_i hnull
    cases h
    exact .refused (by decide) fun _ _ _ hstores => hstores.notNull hnull
  rename_i hnull
  split at h
  · rename_i hnot
    cases h
    exact .refused (by decide) fun _ _ _ hstores => hnot hstores.valid
  rename_i hvalid
  split at h
  · rename_i hfd
    cases h
    exact .shown hfd
  split at h
  · rename_i hnone
    cases h
    refine .refused (by decide) fun _ _ _ hstores => ?_
    rw [hstores.lookup] at hnone
    cases hnone
  · rename_i slot hslot
    exact fdWrite_cases hnull (not_not.mp hvalid) hslot h

/-! ## `ksys_open` -/

/-- The entry after the copy that `ksys_open` makes for a writable descriptor. -/
def copiedEntry (e : FdEntry) (data : Option Bytes) (initialSize flags : U32) : FdEntry :=
  { e with
    writeSize := initialSize
    writeBuf := some (Function.update (fun i => if i < initialSize.toNat then
      (data.getD []).getD i 0 else e.writeBuf.getD (fun _ => 0) i) initialSize.toNat 0)
    data := .writeBuf
    size := initialSize
    offset := if flags &&& oTrunc ≠ 0 then 0 else e.offset
    dirty := decide (flags &&& oTrunc ≠ 0) || e.dirty }

def initialSize (size flags : U32) : U32 := if flags &&& oTrunc ≠ 0 then 0 else size

theorem openForWrite_eq : openForWrite mach heap e data size flags =
    (fdEnsureWriteCapacity mach heap e (initialSize size flags + 1)).map fun p =>
      (copiedEntry p.1 data (initialSize size flags) flags, p.2) := by
  unfold openForWrite copiedEntry initialSize
  dsimp only
  cases fdEnsureWriteCapacity mach heap e ((if flags &&& oTrunc ≠ 0 then 0 else size) + 1) with
  | none => rfl
  | some p =>
      dsimp only [Option.map_some]
      by_cases htrunc : flags &&& oTrunc ≠ 0
      · simp only [if_pos htrunc, decide_eq_true htrunc, Bool.true_or]
      · simp only [if_neg htrunc, decide_eq_false htrunc, Bool.false_or]

theorem openForWrite_some {e' : FdEntry} {heap' : Heap}
    (h : openForWrite mach heap e data size flags = some (e', heap')) :
    ∃ e₁, fdEnsureWriteCapacity mach heap e (initialSize size flags + 1) = some (e₁, heap') ∧
      e' = copiedEntry e₁ data (initialSize size flags) flags := by
  rw [openForWrite_eq] at h
  obtain ⟨⟨e₁, heap₁⟩, hgrown, hpair⟩ := Option.map_eq_some_iff.mp h
  cases hpair
  exact ⟨e₁, hgrown, rfl⟩

theorem openForWrite_none (h : openForWrite mach heap e data size flags = none) :
    fdEnsureWriteCapacity mach heap e (initialSize size flags + 1) = none := by
  rw [openForWrite_eq] at h
  exact Option.map_eq_none_iff.mp h

inductive SlotDone (mach : Machine) (k : KState) (slot : Fin fdMax) (full : CStr)
    (data : Option Bytes) (size flags : U32) : Int → KState → Prop
  | noRoom (hwritable : (openEntry k.pid full data size flags).writable = true)
      (hopen : openForWrite mach k.files.fs.heap (openEntry k.pid full data size flags) data size
        flags = none) : SlotDone mach k slot full data size flags errInval (k.setFd slot emptyFd)
  | buffered {e : FdEntry} {heap : Heap}
      (hwritable : (openEntry k.pid full data size flags).writable = true)
      (hopen : openForWrite mach k.files.fs.heap (openEntry k.pid full data size flags) data size
        flags = some (e, heap)) :
      SlotDone mach k slot full data size flags slot.val
        ((k.setFs { k.files.fs with heap := heap }).setFd slot e)
  | plain (hplain : (openEntry k.pid full data size flags).writable = false) :
      SlotDone mach k slot full data size flags slot.val
        (k.setFd slot (openEntry k.pid full data size flags))

theorem fdOpen_cases (h : fdOpen mach k slot full data size flags = (r, k')) :
    SlotDone mach k slot full data size flags r k' := by
  unfold fdOpen at h
  dsimp only at h
  split at h
  · rename_i hwritable
    split at h
    · rename_i hopen
      cases h
      exact .noRoom hwritable hopen
    · rename_i hopen
      cases h
      exact .buffered hwritable hopen
  · rename_i hplain
    cases h
    exact .plain (Bool.eq_false_iff.mpr hplain)

/-- The path that a process has passed, made absolute. -/
structure Names (k : KState) (path : U32) (kpath full : CStr) : Prop where
  copied : (copyUserCstr k.core path 128).1 = some kpath
  absPath : makeAbsPath k.files.fs.tree k.cwd kpath 128 = some full

/-- Whether the file was there or could be made, and the file system after that. -/
def Touches (k : KState) (flags : U32) (full : CStr) (made : Bool) (fs₁ : Fs) : Prop :=
  (if flags &&& oCreat ≠ 0 then vfsTouch k.files.fs k.cwd full else (true, k.files.fs)) = (made, fs₁)

inductive OpenDone (mach : Machine) (k : KState) (path flags : U32) : Int → KState → Prop
  | refused {code : Int} (hcode : code = errInval ∨ code = errFault)
      (hnot : ∀ kpath full, ¬Names k path kpath full) : OpenDone mach k path flags code k
  | unmade {kpath full : CStr} {fs₁ : Fs} (hnames : Names k path kpath full)
      (htouches : Touches k flags full false fs₁) :
      OpenDone mach k path flags errInval (k.setFs fs₁)
  | unread {kpath full : CStr} {fs₁ fs₂ : Fs} (hnames : Names k path kpath full)
      (htouches : Touches k flags full true fs₁)
      (hread : vfsReadFile mach fs₁ k.cwd full = some (none, fs₂)) :
      OpenDone mach k path flags errInval (k.setFs fs₂)
  | noSlot {kpath full : CStr} {fs₁ fs₂ : Fs} {data : Option Bytes} {size : U32}
      (hnames : Names k path kpath full) (htouches : Touches k flags full true fs₁)
      (hread : vfsReadFile mach fs₁ k.cwd full = some (some (data, size), fs₂))
      (hslot : fdAllocSlot k.files.fds = none) :
      OpenDone mach k path flags errNfile (k.setFs fs₂)
  | opened {kpath full : CStr} {fs₁ fs₂ : Fs} {data : Option Bytes} {size : U32}
      {slot : Fin fdMax} {r : Int} {k' : KState}
      (hnames : Names k path kpath full) (htouches : Touches k flags full true fs₁)
      (hread : vfsReadFile mach fs₁ k.cwd full = some (some (data, size), fs₂))
      (hslot : fdAllocSlot k.files.fds = some slot)
      (hopen : SlotDone mach (k.setFs fs₂) slot full data size flags r k') :
      OpenDone mach k path flags r k'

theorem ksysOpen_cases (h : (ksysOpen mach k path flags).done = some (r, k')) :
    OpenDone mach k path flags r k' := by
  unfold ksysOpen at h
  split at h
  · rename_i hnull
    cases h
    refine .refused (Or.inl rfl) fun kpath full hnames => ?_
    have hcopied := hnames.copied
    rw [hnull] at hcopied
    cases hcopied
  split at h
  · rename_i hcopy
    cases h
    refine .refused (Or.inr rfl) fun kpath full hnames => ?_
    have hcopied := hnames.copied
    rw [hcopy] at hcopied
    cases hcopied
  rename_i kpath touched hcopy
  split at h
  · rename_i hnone
    cases h
    refine .refused (Or.inl rfl) fun kpath' full hnames => ?_
    have hcopied := hnames.copied
    rw [hcopy] at hcopied
    obtain rfl := Option.some.inj hcopied
    rw [hnames.absPath] at hnone
    cases hnone
  rename_i full hfull
  have hnames : Names k path kpath full := ⟨congrArg Prod.fst hcopy, hfull⟩
  split at h
  rename_i made fs₁ htouch
  dsimp only at h
  split at h
  · rename_i hnot
    rw [Bool.not_eq_true] at hnot
    cases h
    exact .unmade hnames (hnot ▸ htouch)
  rename_i hmade
  have htouches : Touches k flags full true fs₁ := not_not.mp hmade ▸ htouch
  split at h
  · cases h
  · rename_i hread
    cases h
    exact .unread hnames htouches hread
  rename_i hread
  split at h
  · rename_i hslot
    cases h
    exact .noSlot hnames htouches hread hslot
  · rename_i hslot
    exact .opened hnames htouches hread hslot (fdOpen_cases (Option.some.inj h))

/-! ## `ksys_close` -/

inductive CloseDone (k : KState) (fd : Int) : Int → KState → Prop
  | refused (hslot : fdLookup k.files.fds fd k.pid = none) : CloseDone k fd errBadf k
  | unstored {slot : Fin fdMax} {fs : Fs} (hslot : fdLookup k.files.fds fd k.pid = some slot)
      (hback : fdWriteBack k (k.files.fds slot) = (false, fs)) : CloseDone k fd errInval (k.setFs fs)
  | closed {slot : Fin fdMax} {fs : Fs} (hslot : fdLookup k.files.fds fd k.pid = some slot)
      (hback : fdWriteBack k (k.files.fds slot) = (true, fs)) :
      CloseDone k fd 0 ((k.setFs fs).setFd slot emptyFd)

theorem ksysClose_cases (h : (ksysClose k fd).done = some (r, k')) : CloseDone k fd r k' := by
  unfold ksysClose at h
  split at h
  · rename_i hslot
    cases h
    exact .refused hslot
  rename_i slot hslot
  split at h
  · rename_i hback
    cases h
    exact .unstored hslot hback
  · rename_i hback
    cases h
    exact .closed hslot hback

end SlopOS.Proofs.FileOutcomes
