import SlopOS.Proofs.Moves
/-!
# The memory that a system call touches

`touched` names the bytes of memory that a call reads or writes: from a state with
other bytes elsewhere the call gives the same result, and leaves those bytes alone.
A send also writes into the buffer that a blocked receiver handed in earlier.
-/

namespace SlopOS.Proofs.TouchedMemory

open SlopOS.Support SlopOS.Kernel
open SlopOS.Proofs.Loader SlopOS.Proofs.Moves

def Agree (spans : List ByteMem.Span) (mem m : ByteMem.Mem) : Prop :=
  ∀ sp ∈ spans, sp.All fun a => m a = mem a

def overlay (spans : List ByteMem.Span) (mem m : ByteMem.Mem) : ByteMem.Mem := fun a =>
  if ByteMem.Covered spans a then mem a else m a

/-- An outcome with the memory that the call has not touched taken from `m`. -/
def atMem (o : Outcome) (m : ByteMem.Mem) : Outcome where
  touched := o.touched
  done := o.done.map fun (r, k) => (r, k.setMem (overlay o.touched k.core.mem m))

/-- `o'` is what becomes of `o` in a memory that agrees on what `o` touches. -/
def Footprint (k : KState) (m : ByteMem.Mem) (o o' : Outcome) : Prop :=
  Agree o.touched k.core.mem m → o' = atMem o m

variable {mach : Machine} {k q : KState} {mem m : ByteMem.Mem} {spans : List ByteMem.Span}
variable {r : Int} {touched : List ByteMem.Span} {p : U32} {n : Nat} {f g : Nat → U8}

/-! ## Memory -/

theorem Agree.covered (h : Agree spans mem m) {a : U32} (ha : ByteMem.Covered spans a) :
    m a = mem a := by
  obtain ⟨sp, hsp, hin⟩ := ha
  exact (h sp hsp).at hin

theorem overlay_agree (h : Agree spans mem m) : overlay spans mem m = m := by
  funext a
  unfold overlay
  split
  · rename_i ha
    exact (h.covered ha).symm
  · rfl

theorem overlay_store (h : Agree spans mem m) (hsp : ⟨p, n⟩ ∈ spans) :
    overlay spans (ByteMem.store mem p n f) m = ByteMem.store m p n f := by
  funext a
  unfold overlay
  split
  · rename_i ha
    unfold ByteMem.store
    rw [h.covered ha]
  · rename_i ha
    exact (ByteMem.store_uncovered hsp ha).symm

/-! ## Ways to return -/

theorem footprint_quiet (hmem : q.core.mem = k.core.mem) :
    Footprint k m (.ret q r touched) (.ret (q.setMem m) r touched) := by
  intro hagree
  change Agree touched k.core.mem m at hagree
  change _ = Outcome.ret (q.setMem (overlay touched q.core.mem m)) r touched
  rw [hmem, overlay_agree hagree]

theorem footprint_stuck : Footprint k m ⟨touched, none⟩ ⟨touched, none⟩ := fun _ => rfl

theorem footprint_store (hsp : ⟨p, n⟩ ∈ touched) :
    Footprint k m (.ret (q.setMem (ByteMem.store k.core.mem p n f)) r touched)
      (.ret (q.setMem (ByteMem.store m p n f)) r touched) := by
  intro hagree
  change Agree touched k.core.mem m at hagree
  change _ = Outcome.ret (q.setMem (overlay touched (ByteMem.store k.core.mem p n f) m)) r touched
  rw [overlay_store hagree hsp]

@[simp] theorem files_setMem : (k.setMem m).files = k.files := rfl

@[simp] theorem services_setMem : (k.setMem m).services = k.services := rfl

@[simp] theorem proc_setMem : (k.setMem m).core.proc = k.core.proc := rfl

@[simp] theorem mem_setMem : (k.setMem m).core.mem = m := rfl

@[simp] theorem cwd_setMem : (k.setMem m).cwd = k.cwd := rfl

@[simp] theorem pid_setMem : (k.setMem m).pid = k.pid := rfl

@[simp] theorem validateUserPtr_setMem (ptr len : U32) :
    validateUserPtr (k.setMem m).core ptr len = validateUserPtr k.core ptr len := rfl

@[simp] theorem validateBuffer_setMem (ptr len : U32) :
    validateBuffer (k.setMem m).core ptr len = validateBuffer k.core ptr len := rfl

/-! ## Strings -/

theorem copyUserCstrLoop_setMem (n : Nat) (ptr : U32)
    (h : Agree (copyUserCstrLoop k.core n ptr).2 k.core.mem m) :
    copyUserCstrLoop (k.setMem m).core n ptr = copyUserCstrLoop k.core n ptr := by
  induction n generalizing ptr with
  | zero => rfl
  | succ n ih =>
      rw [copyUserCstrLoop] at h
      rw [copyUserCstrLoop, copyUserCstrLoop, validateUserPtr_setMem, mem_setMem]
      split
      · rfl
      rename_i hvalid
      rw [if_neg hvalid] at h
      -- the first character is read in either case
      have hbyte : ∀ {rest}, Agree (⟨ptr, 1⟩ :: rest) k.core.mem m → m ptr = k.core.mem ptr := by
        intro rest hagree
        have hat := hagree _ List.mem_cons_self 0 Nat.one_pos
        rwa [BitVec.add_zero] at hat
      by_cases hzero : k.core.mem ptr = 0
      · rw [if_pos hzero] at h ⊢
        rw [hbyte h, if_pos hzero]
      · rw [if_neg hzero] at h ⊢
        have hrest : Agree (copyUserCstrLoop k.core n (ptr + 1)).2 k.core.mem m :=
          fun sp hsp => h sp (List.mem_cons_of_mem _ hsp)
        rw [hbyte h, if_neg hzero, ih _ hrest]

theorem copyUserCstr_setMem (ptr : U32) (n : Nat)
    (h : Agree (copyUserCstr k.core ptr n).2 k.core.mem m) :
    copyUserCstr (k.setMem m).core ptr n = copyUserCstr k.core ptr n := by
  unfold copyUserCstr at h ⊢
  split
  · rfl
  · rename_i hnull
    rw [if_neg hnull] at h
    exact copyUserCstrLoop_setMem (n - 1) ptr h

/-- A call that copies the string at `ptr` first: `o` is its outcome. -/
theorem copied_setMem {o : Outcome} {ptr : U32} {size : Nat}
    (hsub : (copyUserCstr k.core ptr size).2 ⊆ o.touched) (h : Agree o.touched k.core.mem m) :
    copyUserCstr (k.setMem m).core ptr size = copyUserCstr k.core ptr size :=
  copyUserCstr_setMem ptr size fun sp hsp => h sp (hsub hsp)

theorem copyUserCstr_null (c : Core) (size : Nat) : (copyUserCstr c 0 size).2 = [] := by
  unfold copyUserCstr
  rw [if_pos (Or.inl rfl)]

theorem withUserCstr_touched {ptr : U32} {size : Nat} {call : CStr → List ByteMem.Span → Outcome}
    (hsub : ∀ str touched, (call str touched).touched = touched) :
    (copyUserCstr k.core ptr size).2 ⊆ (withUserCstr k ptr size call).touched := by
  unfold withUserCstr
  split
  · rename_i hnull
    rw [hnull, copyUserCstr_null]
    exact List.nil_subset _
  split
  · rename_i touched hcopy
    rw [hcopy]
    exact fun _ h => h
  · rename_i str touched hcopy
    rw [hcopy, hsub]
    exact fun _ h => h

theorem withUserCstr_footprint {ptr : U32} {size : Nat}
    {call call' : CStr → List ByteMem.Span → Outcome}
    (hsub : ∀ str touched, (call str touched).touched = touched)
    (hcall : ∀ str touched, Footprint k m (call str touched) (call' str touched)) :
    Footprint k m (withUserCstr k ptr size call) (withUserCstr (k.setMem m) ptr size call') := by
  intro hagree
  have hcopy := copied_setMem (withUserCstr_touched hsub) hagree
  revert hagree
  change Footprint k m _ _
  unfold withUserCstr
  rw [hcopy]
  split
  · exact footprint_quiet rfl
  split
  · exact footprint_quiet rfl
  · exact hcall _ _

/-! ## Reading and writing -/

theorem fdReadFrom_footprint (slot : Fin fdMax) (src : Nat → U8) (size buf len : U32) :
    Footprint k m (fdReadFrom k slot src size buf len)
      (fdReadFrom (k.setMem m) slot src size buf len) := by
  unfold fdReadFrom
  rw [files_setMem, mem_setMem]
  dsimp only
  split
  · exact footprint_quiet rfl
  · exact footprint_store (q := k.setFd slot _) List.mem_cons_self

theorem ksysRead_footprint (fd : Int) (buf len : U32) :
    Footprint k m (ksysRead k fd buf len) (ksysRead (k.setMem m) fd buf len) := by
  unfold ksysRead
  rw [validateBuffer_setMem, files_setMem, pid_setMem, mem_setMem]
  split
  · exact footprint_quiet rfl
  split
  · exact footprint_quiet rfl
  split
  · let n := readLineLen k.files.keyboard len.toNat 0
    let files := { k.files with keyboard := fun i => k.files.keyboard (n + i) }
    exact @footprint_store k { k with files := files } m n [⟨buf, n⟩] buf n k.files.keyboard
      List.mem_cons_self
  split
  · exact footprint_quiet rfl
  dsimp only
  split
  · exact footprint_quiet rfl
  split
  · exact fdReadFrom_footprint _ _ _ _ _
  split
  · exact fdReadFrom_footprint _ _ _ _ _
  · exact fdReadFrom_footprint _ _ _ _ _

theorem writeInto_congr {buf : Nat → U8} {writeSize offset len : Nat}
    (h : ∀ j < len, g j = f j) :
    writeInto buf writeSize offset g len = writeInto buf writeSize offset f len := by
  unfold writeInto
  dsimp only
  congr 1
  funext i
  split
  · exact h _ (by omega)
  · rfl

theorem fdWrite_footprint (slot : Fin fdMax) (buf len : U32) :
    Footprint k m (fdWrite mach k slot buf len) (fdWrite mach (k.setMem m) slot buf len) := by
  unfold fdWrite
  rw [files_setMem, mem_setMem]
  dsimp only
  split
  · exact footprint_quiet rfl
  split
  · exact footprint_quiet rfl
  split
  · exact footprint_quiet rfl
  intro hagree
  have hsrc : ∀ j < len.toNat, m (buf + BitVec.ofNat 32 j) = k.core.mem (buf + BitVec.ofNat 32 j) :=
    hagree ⟨buf, len.toNat⟩ List.mem_cons_self
  rw [writeInto_congr hsrc]
  revert hagree
  exact footprint_quiet rfl

theorem ksysWrite_footprint (fd : Int) (buf len : U32) :
    Footprint k m (ksysWrite mach k fd buf len) (ksysWrite mach (k.setMem m) fd buf len) := by
  unfold ksysWrite
  rw [validateBuffer_setMem, files_setMem, pid_setMem]
  split
  · exact footprint_quiet rfl
  split
  · exact footprint_quiet rfl
  split
  · exact footprint_quiet rfl
  split
  · exact footprint_quiet rfl
  · exact fdWrite_footprint _ _ _

/-! ## Files -/

theorem ksysOpen_touched (path flags : U32) :
    (copyUserCstr k.core path 128).2 ⊆ (ksysOpen mach k path flags).touched := by
  unfold ksysOpen
  split
  · rename_i hnull
    rw [hnull, copyUserCstr_null]
    exact List.nil_subset _
  split
  · rename_i hcopy
    rw [hcopy]
    exact fun _ h => h
  rename_i hcopy
  rw [hcopy]
  split
  · exact fun _ h => h
  generalize (if flags &&& oCreat ≠ 0 then vfsTouch k.files.fs k.cwd _
    else (true, k.files.fs)) = made
  dsimp only
  split
  · exact fun _ h => h
  split
  · exact fun _ h => h
  · exact fun _ h => h
  split
  · exact fun _ h => h
  · exact fun _ h => h

theorem footprint_outcome (hmem : q.core.mem = k.core.mem) :
    Footprint k m ⟨touched, some (r, q)⟩ ⟨touched, some (r, q.setMem m)⟩ :=
  footprint_quiet hmem

theorem fdOpen_setMem (slot : Fin fdMax) (fullPath : CStr) (data : Option Bytes)
    (size flags : U32) :
    fdOpen mach (k.setMem m) slot fullPath data size flags =
        ((fdOpen mach k slot fullPath data size flags).1,
          (fdOpen mach k slot fullPath data size flags).2.setMem m) ∧
      (fdOpen mach k slot fullPath data size flags).2.core.mem = k.core.mem := by
  unfold fdOpen
  rw [files_setMem, pid_setMem]
  dsimp only
  split
  · split
    · exact ⟨rfl, rfl⟩
    · exact ⟨rfl, rfl⟩
  · exact ⟨rfl, rfl⟩

theorem ksysOpen_footprint (path flags : U32) :
    Footprint k m (ksysOpen mach k path flags) (ksysOpen mach (k.setMem m) path flags) := by
  intro hagree
  have hcopy := copied_setMem (ksysOpen_touched path flags) hagree
  revert hagree
  change Footprint k m _ _
  unfold ksysOpen
  rw [hcopy, files_setMem, cwd_setMem]
  split
  · exact footprint_quiet rfl
  split
  · exact footprint_quiet rfl
  split
  · exact footprint_quiet rfl
  generalize (if flags &&& oCreat ≠ 0 then vfsTouch k.files.fs k.cwd _
    else (true, k.files.fs)) = made
  obtain ⟨created, fs⟩ := made
  have hfs : (k.setMem m).setFs fs = (k.setFs fs).setMem m := rfl
  dsimp only
  rw [hfs, files_setMem, cwd_setMem]
  split
  · exact footprint_quiet rfl
  split
  · exact footprint_stuck
  · exact footprint_quiet rfl
  rename_i data size fs₂ _
  have hfs₂ : ((k.setFs fs).setMem m).setFs fs₂ = ((k.setFs fs).setFs fs₂).setMem m := rfl
  rw [hfs₂, files_setMem]
  split
  · exact footprint_quiet rfl
  · rename_i slot _
    obtain ⟨hopen, hmem⟩ := @fdOpen_setMem mach ((k.setFs fs).setFs fs₂) m slot _ data size flags
    rw [hopen]
    exact footprint_outcome hmem

theorem ksysClose_footprint (fd : Int) :
    Footprint k m (ksysClose k fd) (ksysClose (k.setMem m) fd) := by
  unfold ksysClose
  rw [files_setMem, pid_setMem]
  split
  · exact footprint_quiet rfl
  have hback : ∀ entry, fdWriteBack (k.setMem m) entry = fdWriteBack k entry := fun _ => rfl
  rw [hback]
  split
  · exact footprint_quiet rfl
  · exact footprint_quiet rfl

theorem ksysMkdir_footprint (path : U32) :
    Footprint k m (ksysMkdir k path) (ksysMkdir (k.setMem m) path) := by
  refine withUserCstr_footprint (fun str touched => ?_) fun str touched => ?_
  · split <;> rfl
  · rw [files_setMem, cwd_setMem]
    split
    · exact footprint_quiet rfl
    · exact footprint_quiet rfl

theorem ksysGetcwd_footprint (buf len : U32) :
    Footprint k m (ksysGetcwd k buf len) (ksysGetcwd (k.setMem m) buf len) := by
  unfold ksysGetcwd
  rw [validateUserPtr_setMem, files_setMem, cwd_setMem, mem_setMem]
  split
  · exact footprint_quiet rfl
  split
  · exact footprint_quiet rfl
  dsimp only
  split
  · exact footprint_quiet rfl
  · exact footprint_store List.mem_cons_self

theorem ksysList_touched (path : U32) :
    (copyUserCstr k.core path 128).2 ⊆ (ksysList mach k path).touched := by
  unfold ksysList
  dsimp only
  split
  · rename_i hnull
    rw [hnull, copyUserCstr_null]
    exact List.nil_subset _
  split
  · rename_i hcopy
    rw [hcopy]
    exact fun _ h => h
  · rename_i hcopy
    rw [hcopy]
    exact fun _ h => h

theorem ksysList_footprint (path : U32) :
    Footprint k m (ksysList mach k path) (ksysList mach (k.setMem m) path) := by
  intro hagree
  have hcopy := copied_setMem (ksysList_touched path) hagree
  revert hagree
  change Footprint k m _ _
  have hlist : ∀ p touched, Footprint k m
      ⟨touched, (vfsList mach k.files.fs k.cwd p).map fun _ => (0, k)⟩
      ⟨touched, (vfsList mach k.files.fs k.cwd p).map fun _ => (0, k.setMem m)⟩ := by
    intro p touched
    cases vfsList mach k.files.fs k.cwd p with
    | none => exact footprint_stuck
    | some _ => exact footprint_outcome rfl
  unfold ksysList
  rw [hcopy, files_setMem, cwd_setMem]
  dsimp only
  split
  · exact hlist none []
  split
  · exact footprint_quiet rfl
  · exact hlist _ _

/-! ## Information -/

theorem footprint_words {ws : List U32} (hsp : ⟨p, 4 * ws.length⟩ ∈ touched) :
    Footprint k m (.ret (q.setMem (ByteMem.storeWords k.core.mem p ws)) r touched)
      (.ret (q.setMem (ByteMem.storeWords m p ws)) r touched) :=
  footprint_store hsp

theorem ksysMeminfo_footprint (info : U32) :
    Footprint k m (ksysMeminfo mach k info) (ksysMeminfo mach (k.setMem m) info) := by
  have hwords : memInfoWords mach (k.setMem m) = memInfoWords mach k := rfl
  unfold ksysMeminfo
  rw [validateUserPtr_setMem, hwords, mem_setMem]
  split
  · exact footprint_quiet rfl
  · exact footprint_words List.mem_cons_self

theorem ksysServiceRegister_footprint (name : U32) :
    Footprint k m (ksysServiceRegister k name) (ksysServiceRegister (k.setMem m) name) := by
  refine withUserCstr_footprint (fun str touched => ?_) fun str touched => ?_
  · split <;> rfl
  · rw [proc_setMem, services_setMem, pid_setMem]
    split
    · exact footprint_quiet rfl
    · exact footprint_quiet rfl

theorem ksysServiceLookup_footprint (name : U32) :
    Footprint k m (ksysServiceLookup k name) (ksysServiceLookup (k.setMem m) name) := by
  refine withUserCstr_footprint (fun str touched => rfl) fun str touched => ?_
  dsimp only
  rw [proc_setMem, services_setMem]
  exact footprint_quiet rfl

theorem storeStat_footprint {stat : UserStat} (hsp : ⟨p, userStatSize⟩ ∈ touched) :
    Footprint k m (.ret (q.setMem (ByteMem.storeWords k.core.mem p [stat.stMode, stat.stSize])) r
        touched)
      (.ret (q.setMem (ByteMem.storeWords m p [stat.stMode, stat.stSize])) r touched) :=
  footprint_words hsp

theorem ksysStat_touched (path st : U32)
    (hgood : ¬(path = 0 ∨ st = 0) ∧ ¬¬validateUserPtr k.core st (BitVec.ofNat 32 userStatSize)) :
    (copyUserCstr k.core path 128).2 ⊆ (ksysStat mach k path st).touched := by
  unfold ksysStat
  rw [if_neg hgood.1, if_neg hgood.2]
  split
  · rename_i hcopy
    rw [hcopy]
    exact fun _ h => h
  · rename_i hcopy
    rw [hcopy]
    dsimp only
    split
    · exact List.subset_append_left _ _
    · exact List.subset_append_left _ _

theorem ksysStat_footprint (path st : U32) :
    Footprint k m (ksysStat mach k path st) (ksysStat mach (k.setMem m) path st) := by
  intro hagree
  by_cases hnull : path = 0 ∨ st = 0
  · unfold ksysStat
    rw [if_pos hnull, if_pos hnull]
    exact footprint_quiet rfl fun sp hsp => absurd hsp List.not_mem_nil
  by_cases hvalid : ¬validateUserPtr k.core st (BitVec.ofNat 32 userStatSize)
  · unfold ksysStat
    rw [validateUserPtr_setMem, if_neg hnull, if_neg hnull, if_pos hvalid, if_pos hvalid]
    exact footprint_quiet rfl fun sp hsp => absurd hsp List.not_mem_nil
  have hcopy := copied_setMem (ksysStat_touched path st ⟨hnull, hvalid⟩) hagree
  revert hagree
  change Footprint k m _ _
  unfold ksysStat
  rw [validateUserPtr_setMem, hcopy, files_setMem, cwd_setMem, if_neg hnull, if_neg hnull,
    if_neg hvalid, if_neg hvalid]
  split
  · exact footprint_quiet rfl
  dsimp only
  split
  · exact footprint_stuck
  · rename_i fs _
    exact storeStat_footprint (q := k.setFs fs) (List.mem_append_right _ List.mem_cons_self)

theorem ksysFstat_footprint (fd : Int) (st : U32) :
    Footprint k m (ksysFstat k fd st) (ksysFstat (k.setMem m) fd st) := by
  unfold ksysFstat
  rw [validateUserPtr_setMem, files_setMem, pid_setMem]
  split
  · exact footprint_quiet rfl
  split
  · exact footprint_quiet rfl
  split
  · exact storeStat_footprint List.mem_cons_self
  split
  · exact footprint_quiet rfl
  · exact storeStat_footprint List.mem_cons_self

/-! ## Messages -/

/-- A message is taken, and a waiter entered, without a look at memory. -/
theorem ipcRecv_setMem (c : Core) (m : ByteMem.Mem) (pid : Int) :
    ipcRecv { c with mem := m } pid =
        (ipcRecv c pid).map (fun (msg, c') => (msg, { c' with mem := m })) ∧
      ∀ msg c', ipcRecv c pid = some (msg, c') → c'.mem = c.mem := by
  unfold ipcRecv
  dsimp only
  split
  · exact ⟨rfl, by simp⟩
  split
  · exact ⟨rfl, by simp⟩
  split
  · refine ⟨rfl, fun msg c' h => ?_⟩
    cases h
    rfl
  · exact ⟨rfl, by simp⟩

theorem ipcBlockRecv_setMem (c : Core) (m : ByteMem.Mem) (pid : Int) (ptr : U32) :
    ipcBlockRecv { c with mem := m } pid ptr =
        ((ipcBlockRecv c pid ptr).1, { (ipcBlockRecv c pid ptr).2 with mem := m }) ∧
      (ipcBlockRecv c pid ptr).2.mem = c.mem := by
  unfold ipcBlockRecv
  dsimp only
  split
  · exact ⟨rfl, rfl⟩
  split
  · exact ⟨rfl, rfl⟩
  · exact ⟨rfl, rfl⟩

theorem ksysIpcRecv_footprint (msg : U32) :
    Footprint k m (ksysIpcRecv k msg) (ksysIpcRecv (k.setMem m) msg) := by
  obtain ⟨hrecv, hmem⟩ := ipcRecv_setMem k.core m k.pid
  obtain ⟨hblock, hkept⟩ := ipcBlockRecv_setMem k.core m k.pid msg
  have hcore : (k.setMem m).core = { k.core with mem := m } := rfl
  unfold ksysIpcRecv
  rw [validateUserPtr_setMem, pid_setMem, hcore, hrecv, hblock]
  split
  · exact footprint_quiet rfl
  cases htaken : ipcRecv k.core k.pid with
  | none => exact footprint_quiet (q := { k with core := _ }) hkept
  | some taken =>
      obtain ⟨kmsg, c⟩ := taken
      have hwords := @footprint_words k { k with core := c } m 0 [⟨msg, ipcMessageSize⟩] msg kmsg.words
        (by simp [ipcMessageSize])
      dsimp only
      rw [Option.map_some]
      dsimp only
      unfold storeMessage
      rw [hmem kmsg c htaken]
      exact hwords

/-- A send finds the same message in a memory that agrees on what it touches. -/
theorem ksysIpcSendWith_reads {send : Core → Int → Int → IpcMessage → Bool × Core} {msg : U32}
    (hgood : ¬(msg = 0 ∨ ¬validateUserPtr k.core msg (BitVec.ofNat 32 ipcMessageSize)))
    (hagree : Agree (ksysIpcSendWith send k msg).touched k.core.mem m) :
    loadMessage m msg = loadMessage k.core.mem msg := by
  unfold ksysIpcSendWith at hagree
  rw [if_neg hgood] at hagree
  unfold loadMessage
  rw [ByteMem.loadWords_congr fun j hj => hagree ⟨msg, ipcMessageSize⟩ List.mem_cons_self j hj]

/-! ## Every call -/

theorem number_footprint : Footprint k m (.ret k r []) (.ret (k.setMem m) r []) :=
  footprint_quiet rfl

theorem ksysExit_footprint (code : Int) :
    Footprint k m (.ret (ksysExit k code) 0 []) (.ret (ksysExit (k.setMem m) code) 0 []) := by
  have htask : (k.setMem m).core.task = k.core.task := rfl
  unfold ksysExit
  rw [htask]
  dsimp only
  split
  · exact footprint_quiet rfl
  · exact footprint_quiet rfl

theorem syscallEntry_footprint (mach : Machine) (k : KState) (m : ByteMem.Mem)
    (num a1 a2 a3 a4 a5 : U32) (hsend : num ∉ sendNumbers) :
    Footprint k m (syscallEntry mach k num a1 a2 a3 a4 a5)
      (syscallEntry mach (k.setMem m) num a1 a2 a3 a4 a5) := by
  simp only [sendNumbers, List.mem_cons, List.not_mem_nil, or_false, not_or] at hsend
  obtain ⟨h245, h247⟩ := hsend
  by_cases h0 : num = sysRead
  · subst h0
    exact ksysRead_footprint _ _ _
  by_cases h1 : num = sysWrite
  · subst h1
    exact ksysWrite_footprint _ _ _
  by_cases h2 : num = sysOpen
  · subst h2
    exact ksysOpen_footprint _ _
  by_cases h3 : num = sysClose
  · subst h3
    exact ksysClose_footprint _
  by_cases h20 : num = sysGetpid
  · subst h20
    exact number_footprint
  by_cases h83 : num = sysMkdir
  · subst h83
    exact ksysMkdir_footprint _
  by_cases h183 : num = sysGetcwd
  · subst h183
    exact ksysGetcwd_footprint _ _
  by_cases h60 : num = sysExit
  · subst h60
    exact ksysExit_footprint _
  by_cases h241 : num = sysList
  · subst h241
    exact ksysList_footprint _
  by_cases h242 : num = sysSysteminfo
  · subst h242
    exact number_footprint
  by_cases h243 : num = sysPs
  · subst h243
    exact number_footprint
  by_cases h244 : num = sysMeminfo
  · subst h244
    exact ksysMeminfo_footprint _
  by_cases h246 : num = sysIpcRecv
  · subst h246
    exact ksysIpcRecv_footprint _
  by_cases h248 : num = sysYield
  · subst h248
    exact number_footprint
  by_cases h249 : num = sysServiceRegister
  · subst h249
    exact ksysServiceRegister_footprint _
  by_cases h250 : num = sysServiceLookup
  · subst h250
    exact ksysServiceLookup_footprint _
  by_cases h251 : num = sysStat
  · subst h251
    exact ksysStat_footprint _ _
  by_cases h252 : num = sysFstat
  · subst h252
    exact ksysFstat_footprint _ _
  unfold syscallEntry
  simp only [h0, h1, h2, h3, h20, h60, h83, h183, h241, h242, h243, h244, h245, h246, h247, h248,
    h249, h250, h251, h252, if_false]
  split
  · exact number_footprint
  · exact number_footprint

theorem syscallEntry_frame (num a1 a2 a3 a4 a5 : U32) (hsend : num ∉ sendNumbers)
    (h : (syscallEntry mach k num a1 a2 a3 a4 a5).done = some (r, q)) :
    SameOutside (ByteMem.Covered (syscallEntry mach k num a1 a2 a3 a4 a5).touched) k.core.mem
      q.core.mem := by
  have hsame := syscallEntry_footprint mach k k.core.mem num a1 a2 a3 a4 a5 hsend
    fun _ _ _ _ => rfl
  have hself : k.setMem k.core.mem = k := rfl
  rw [hself] at hsame
  intro a ha
  have hdone := congrArg Outcome.done hsame
  rw [atMem, h, Option.map_some, Option.some_inj] at hdone
  have hmem := congrFun (congrArg (fun r => r.2.core.mem) hdone) a
  change q.core.mem a = overlay _ q.core.mem k.core.mem a at hmem
  rw [hmem, overlay, if_neg ha]

end SlopOS.Proofs.TouchedMemory
