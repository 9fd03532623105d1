import SlopOS.Proofs.FileOutcomes
import SlopOS.Proofs.UserPointers
/-!
# What one system call does

`CallOk` collects, for a call of the process in Ring 3, what the rest of the
development needs to know about every handler that does not deal with messages:
it touches only memory of the process, changes nothing else of the process
tables, refuses a buffer only if it lies outside, and gives descriptors only to
the caller.
-/

namespace SlopOS.Proofs.SystemCalls

open SlopOS.Support SlopOS.Kernel
open SlopOS.Proofs.TableInvariant SlopOS.Proofs.Loader SlopOS.Proofs.UserPointers
open SlopOS.Proofs.FileOutcomes

/-- Descriptors in use afterwards were in use before, by the same process, or are
the caller's. -/
def FdsOk (pid : Int) (fds fds' : Fin fdMax → FdEntry) : Prop :=
  ∀ i, (fds' i).used = true →
    ((fds i).used = true ∧ (fds' i).pid = (fds i).pid) ∨ ((fds' i).pid = pid ∧ 3 ≤ i.val)

structure CallOk (image : ProcImage) (k : KState) (buffers : List (U32 × Nat))
    (o : Outcome) : Prop where
  touched : ∀ sp ∈ o.touched, sp.All (Own image)
  core : ∀ r k', o.done = some (r, k') →
    ∃ m, k'.core = { k.core with mem := m } ∧ SameOutside (Own image) k.core.mem m
  blocked : ∀ r k', o.done = some (r, k') → r ≠ errBlocked
  fault : ∀ k', o.done = some (errFault, k') → ∃ b ∈ buffers, ¬Within image b.1 b.2
  fds : ∀ r k', o.done = some (r, k') → FdsOk k.pid k.files.fds k'.files.fds

def bufferLen (len : U32) : Nat := (if len = 0 then 1 else len).toNat

/-- The buffers that the arguments of call `num` describe. -/
def userBuffers (m : ByteMem.Mem) (num a1 a2 a3 : U32) : List (U32 × Nat) :=
  if num = sysRead ∨ num = sysWrite then [(a2, bufferLen a3)]
  else if num = sysOpen ∨ num = sysMkdir then [(a1, cstrSpan m 127 a1)]
  else if num = sysList then if a1 = 0 then [] else [(a1, cstrSpan m 127 a1)]
  else if num = sysGetcwd then [(a1, a2.toNat)]
  else if num = sysMeminfo then [(a1, memInfoSize)]
  else if num = sysIpcSend ∨ num = sysIpcRecv ∨ num = sysIpcReply then [(a1, ipcMessageSize)]
  else if num = sysServiceRegister ∨ num = sysServiceLookup then [(a1, cstrSpan m 31 a1)]
  else if num = sysStat then [(a1, cstrSpan m 127 a1), (a2, userStatSize)]
  else if num = sysFstat then [(a2, userStatSize)]
  else []

variable {mach : Machine} {k k' : KState} {pid : Int} {image : ProcImage} {s : Fin elfProcSlots}
variable {buffers : List (U32 × Nat)} {r : Int} {touched : List ByteMem.Span}

theorem fdsOk_refl (pid : Int) (fds : Fin fdMax → FdEntry) : FdsOk pid fds fds :=
  fun _ hused => Or.inl ⟨hused, rfl⟩

/-- Overwriting a descriptor of the caller, or one it has just been given. -/
theorem fdsOk_update {fds : Fin fdMax → FdEntry} {slot : Fin fdMax} {entry : FdEntry}
    (h : entry.used = true → entry.pid = pid ∧ 3 ≤ slot.val) :
    FdsOk pid fds (Function.update fds slot entry) := by
  intro i hused
  by_cases hi : i = slot
  · subst hi
    rw [Function.update_self] at hused ⊢
    exact Or.inr (h hused)
  · rw [Function.update_of_ne hi] at hused ⊢
    exact Or.inl ⟨hused, rfl⟩

/-! ## Ways to return -/

theorem callOk_ret {m : ByteMem.Mem} (ht : ∀ sp ∈ touched, sp.All (Own image))
    (hcore : k'.core = { k.core with mem := m }) (hmem : SameOutside (Own image) k.core.mem m)
    (hr : r ≠ errBlocked) (hfault : r = errFault → ∃ b ∈ buffers, ¬Within image b.1 b.2)
    (hfds : FdsOk k.pid k.files.fds k'.files.fds) :
    CallOk image k buffers (.ret k' r touched) where
  touched := ht
  core r' k'' h := by
    cases h
    exact ⟨m, hcore, hmem⟩
  blocked r' k'' h := by
    cases h
    exact hr
  fault k'' h := by
    cases h
    exact hfault rfl
  fds r' k'' h := by
    cases h
    exact hfds

theorem callOk_plain (ht : ∀ sp ∈ touched, sp.All (Own image)) (hcore : k'.core = k.core)
    (hfds : k'.files.fds = k.files.fds) (hr : r ≠ errBlocked)
    (hfault : r = errFault → ∃ b ∈ buffers, ¬Within image b.1 b.2) :
    CallOk image k buffers (.ret k' r touched) := by
  refine callOk_ret ht (m := k.core.mem) hcore (SameOutside.refl _ _) hr hfault ?_
  rw [hfds]
  exact fdsOk_refl _ _

theorem callOk_error (ht : ∀ sp ∈ touched, sp.All (Own image)) (hcore : k'.core = k.core)
    (hfds : k'.files.fds = k.files.fds) (hr : r ∉ [errBlocked, errFault]) :
    CallOk image k buffers (.ret k' r touched) := by
  rw [List.mem_cons, List.mem_singleton, not_or] at hr
  exact callOk_plain ht hcore hfds hr.1 fun h => absurd h hr.2

theorem callOk_fault {b : U32 × Nat} (ht : ∀ sp ∈ touched, sp.All (Own image))
    (hb : b ∈ buffers) (hw : ¬Within image b.1 b.2) :
    CallOk image k buffers (.ret k errFault touched) :=
  callOk_plain ht rfl rfl (by decide) fun _ => ⟨b, hb, hw⟩

theorem callOk_stuck (ht : ∀ sp ∈ touched, sp.All (Own image)) :
    CallOk image k buffers ⟨touched, none⟩ := by
  refine ⟨ht, ?_, ?_, ?_, ?_⟩ <;> simp

theorem ne_errors_of_nonneg (h : 0 ≤ r) : r ≠ errBlocked ∧ r ≠ errFault := by
  simp only [errBlocked, errFault]
  omega

/-- Success, with memory of the process written and a descriptor perhaps changed. -/
theorem callOk_success {m : ByteMem.Mem} (ht : ∀ sp ∈ touched, sp.All (Own image))
    (hcore : k'.core = { k.core with mem := m }) (hmem : SameOutside (Own image) k.core.mem m)
    (hr : 0 ≤ r) (hfds : FdsOk k.pid k.files.fds k'.files.fds) :
    CallOk image k buffers (.ret k' r touched) :=
  callOk_ret ht hcore hmem (ne_errors_of_nonneg hr).1
    (fun h => absurd h (ne_errors_of_nonneg hr).2) hfds

theorem no_spans {P : ByteMem.Span → Prop} : ∀ sp ∈ ([] : List ByteMem.Span), P sp := by
  simp

theorem one_span {P : ByteMem.Span → Prop} {sp : ByteMem.Span} (h : P sp) :
    ∀ sp' ∈ [sp], P sp' := by
  intro sp' hsp
  rw [List.mem_singleton.mp hsp]
  exact h

/-! ## Descriptors -/

theorem fdEnsureWriteCapacity_pid {heap heap' : Heap} {fd fd' : FdEntry} {needed : U32}
    (h : fdEnsureWriteCapacity mach heap fd needed = some (fd', heap')) : fd'.pid = fd.pid := by
  cases fdEnsureWriteCapacity_cases h with
  | roomy => rfl
  | moved => rfl

theorem openForWrite_pid {heap heap' : Heap} {fd fd' : FdEntry} {data : Option Bytes}
    {size flags : U32} (h : openForWrite mach heap fd data size flags = some (fd', heap')) :
    fd'.pid = fd.pid := by
  obtain ⟨entry, hgrow, rfl⟩ := openForWrite_some h
  have hpid : entry.pid = fd.pid := fdEnsureWriteCapacity_pid hgrow
  exact hpid

/-! ## Reading and writing -/

theorem readLineLen_le (keyboard : Nat → U8) (n i : Nat) :
    readLineLen keyboard n i ≤ i + n := by
  induction n generalizing i with
  | zero => exact Nat.le_refl i
  | succ n ih =>
      rw [readLineLen]
      split
      · omega
      · have hrest := ih (i + 1)
        omega

theorem within_len {buf len : U32} (hw : Within image buf (bufferLen len)) :
    Within image buf len.toNat := by
  apply hw.mono
  unfold bufferLen
  split
  · rename_i hz
    rw [hz]
    decide
  · exact Nat.le_refl _

section Handlers

variable (h : OwnerOk mach k.core pid image s)
include h

theorem validateBuffer_iff (buf len : U32) :
    validateBuffer k.core buf len = true ↔ Within image buf (bufferLen len) := by
  unfold validateBuffer bufferLen
  apply validateUserPtr_iff h
  split
  · decide
  · assumption

theorem fdReadFrom_ok {fd : Int} {slot : Fin fdMax} {src : Nat → U8} {size buf len : U32}
    (hslot : fdLookup k.files.fds fd k.pid = some slot)
    (hw : Within image buf (bufferLen len)) :
    CallOk image k buffers (fdReadFrom k slot src size buf len) := by
  obtain ⟨hused, hpid, hge, -⟩ := fdLookup_spec hslot
  have hwl := within_len hw
  unfold fdReadFrom
  dsimp only
  split
  · exact callOk_error no_spans rfl rfl (by decide)
  · have hwn : Within image buf
        (min len.toNat (size.toNat - (k.files.fds slot).offset.toNat)) :=
      hwl.mono (Nat.min_le_left _ _)
    refine callOk_success (one_span (hwn.all_own h.fits)) rfl
      (hwn.sameOutside_store h.fits) (Int.natCast_nonneg _) (fdsOk_update fun _ => ?_)
    exact ⟨hpid, hge⟩

theorem ksysRead_ok (fd : Int) (buf len : U32) :
    CallOk image k [(buf, bufferLen len)] (ksysRead k fd buf len) := by
  unfold ksysRead
  split
  · rename_i hnull
    refine callOk_fault no_spans List.mem_cons_self ?_
    dsimp only
    rw [hnull.2]
    exact not_within_null h.fits _
  split
  · rename_i hv
    exact callOk_fault no_spans List.mem_cons_self (mt (validateBuffer_iff h buf len).mpr hv)
  rename_i hv
  have hw := (validateBuffer_iff h buf len).mp (not_not.mp hv)
  split
  · have hlen := readLineLen_le k.files.keyboard len.toNat 0
    rw [Nat.zero_add] at hlen
    have hwn := (within_len hw).mono hlen
    exact callOk_success (one_span (hwn.all_own h.fits)) rfl
      (hwn.sameOutside_store h.fits) (Int.natCast_nonneg _) (fdsOk_refl _ _)
  split
  · exact callOk_error no_spans rfl rfl (by decide)
  rename_i slot hslot
  dsimp only
  split
  · exact callOk_error no_spans rfl rfl (by decide)
  split
  · exact fdReadFrom_ok h hslot hw
  split
  · exact fdReadFrom_ok h hslot hw
  · exact fdReadFrom_ok h hslot hw

theorem toInt_len_nonneg {buf len : U32} (hw : Within image buf len.toNat) : 0 ≤ toInt len := by
  obtain ⟨-, himg, -, hstk⟩ := range_bounds h.fits
  have hlt : len.toNat < 2 ^ 31 := by
    unfold Within at hw
    omega
  unfold toInt
  rw [BitVec.toInt_eq_toNat_of_lt (by omega)]
  exact Int.natCast_nonneg _

theorem fdWrite_ok {fd : Int} {slot : Fin fdMax} {buf len : U32}
    (hslot : fdLookup k.files.fds fd k.pid = some slot)
    (hw : Within image buf (bufferLen len)) :
    CallOk image k buffers (fdWrite mach k slot buf len) := by
  obtain ⟨hused, hpid, hge, -⟩ := fdLookup_spec hslot
  have hwl := within_len hw
  unfold fdWrite
  dsimp only
  split
  · exact callOk_error no_spans rfl rfl (by decide)
  split
  · exact callOk_error no_spans rfl rfl (by decide)
  split
  · exact callOk_error no_spans rfl rfl (by decide)
  rename_i entry heap hgrow
  have hentry := fdEnsureWriteCapacity_pid hgrow
  refine callOk_success (one_span (hwl.all_own h.fits)) (m := k.core.mem) rfl
    (SameOutside.refl _ _) (toInt_len_nonneg h hwl) (fdsOk_update fun _ => ?_)
  exact ⟨hentry.trans hpid, hge⟩

theorem ksysWrite_ok (fd : Int) (buf len : U32) :
    CallOk image k [(buf, bufferLen len)] (ksysWrite mach k fd buf len) := by
  unfold ksysWrite
  split
  · exact callOk_error no_spans rfl rfl (by decide)
  split
  · rename_i hv
    exact callOk_fault no_spans List.mem_cons_self (mt (validateBuffer_iff h buf len).mpr hv)
  rename_i hv
  have hw := (validateBuffer_iff h buf len).mp (not_not.mp hv)
  split
  · have hwn : Within image buf (min len.toNat syscallWriteMax) :=
      (within_len hw).mono (Nat.min_le_left _ _)
    exact callOk_success (one_span (hwn.all_own h.fits)) (m := k.core.mem) rfl
      (SameOutside.refl _ _) (Int.natCast_nonneg _) (fdsOk_refl _ _)
  split
  · exact callOk_error no_spans rfl rfl (by decide)
  · rename_i slot hslot
    exact fdWrite_ok h hslot hw

/-! ## Opening and closing -/

omit h in
theorem fdOpen_ok {slot : Fin fdMax} (hslot : fdAllocSlot k.files.fds = some slot)
    (ht : ∀ sp ∈ touched, sp.All (Own image)) (fullPath : CStr) (data : Option Bytes)
    (size flags : U32) :
    CallOk image k buffers
      ⟨touched, some (fdOpen mach k slot fullPath data size flags)⟩ := by
  obtain ⟨hused, hge⟩ := fdAllocSlot_spec hslot
  unfold fdOpen
  dsimp only
  split
  · split
    · refine callOk_ret ht (m := k.core.mem) rfl (SameOutside.refl _ _) (by decide)
        (fun hr => absurd hr (by decide)) (fdsOk_update fun hu => ?_)
      cases hu
    · rename_i entry heap hopen
      have hentry := openForWrite_pid hopen
      exact callOk_success ht (m := k.core.mem) rfl (SameOutside.refl _ _)
        (Int.natCast_nonneg _) (fdsOk_update fun _ => ⟨hentry, hge⟩)
  · exact callOk_success ht (m := k.core.mem) rfl (SameOutside.refl _ _)
      (Int.natCast_nonneg _) (fdsOk_update fun _ => ⟨rfl, hge⟩)

omit h in
theorem CallOk.ofSetFs {fs : Fs} {o : Outcome} (ho : CallOk image (k.setFs fs) buffers o) :
    CallOk image k buffers o :=
  ⟨ho.touched, ho.core, ho.blocked, ho.fault, ho.fds⟩

omit h in
theorem ownerOk_setFs (hk : OwnerOk mach k.core pid image s) (fs : Fs) :
    OwnerOk mach (k.setFs fs).core pid image s :=
  ⟨hk.active, hk.current, hk.pos, hk.found, hk.loaded, hk.fits⟩

theorem ksysOpen_ok (path flags : U32) :
    CallOk image k [(path, cstrSpan k.core.mem 127 path)] (ksysOpen mach k path flags) := by
  have ht := copyUserCstr_touched h path 128
  unfold ksysOpen
  split
  · exact callOk_error no_spans rfl rfl (by decide)
  rename_i hnull
  split
  · rename_i touched hcopy
    rw [hcopy] at ht
    refine callOk_fault ht List.mem_cons_self ?_
    exact copyUserCstr_none h 128 hnull (by decide) (by rw [hcopy])
  rename_i kpath touched hcopy
  rw [hcopy] at ht
  split
  · exact callOk_error ht rfl rfl (by decide)
  rename_i fullPath _
  generalize (if flags &&& oCreat ≠ 0 then vfsTouch k.files.fs k.cwd fullPath
    else (true, k.files.fs)) = created
  dsimp only
  split
  · exact callOk_error ht rfl rfl (by decide)
  split
  · exact callOk_stuck ht
  · exact callOk_error ht rfl rfl (by decide)
  · rename_i data size fs' _
    split
    · exact callOk_error ht rfl rfl (by decide)
    · rename_i slot hslot
      apply CallOk.ofSetFs
      apply CallOk.ofSetFs
      exact fdOpen_ok hslot ht _ _ _ _

omit h in
theorem ksysClose_ok (fd : Int) : CallOk image k [] (ksysClose k fd) := by
  unfold ksysClose
  split
  · exact callOk_error no_spans rfl rfl (by decide)
  split
  · exact callOk_error no_spans rfl rfl (by decide)
  · refine callOk_success no_spans (m := k.core.mem) rfl (SameOutside.refl _ _)
      (Int.le_refl 0) (fdsOk_update fun hu => ?_)
    cases hu

/-! ## Paths, names and records -/

theorem withUserCstr_ok {call : CStr → List ByteMem.Span → Outcome} (ptr : U32) (n : Nat)
    (hcall : ∀ str touched, (∀ sp ∈ touched, sp.All (Own image)) →
      CallOk image k [(ptr, cstrSpan k.core.mem n ptr)] (call str touched)) :
    CallOk image k [(ptr, cstrSpan k.core.mem n ptr)] (withUserCstr k ptr (n + 1) call) := by
  have ht := copyUserCstr_touched h ptr (n + 1)
  unfold withUserCstr
  split
  · exact callOk_error no_spans rfl rfl (by decide)
  rename_i hnull
  split
  · rename_i touched hcopy
    rw [hcopy] at ht
    refine callOk_fault ht List.mem_cons_self ?_
    exact copyUserCstr_none h (n + 1) hnull (by omega) (by rw [hcopy])
  · rename_i str touched hcopy
    rw [hcopy] at ht
    exact hcall str touched ht

theorem ksysMkdir_ok (path : U32) :
    CallOk image k [(path, cstrSpan k.core.mem 127 path)] (ksysMkdir k path) := by
  apply withUserCstr_ok h
  intro kpath touched ht
  split
  · exact callOk_error ht rfl rfl (by decide)
  · exact callOk_error ht rfl rfl (by decide)

theorem ksysGetcwd_ok (buf len : U32) :
    CallOk image k [(buf, len.toNat)] (ksysGetcwd k buf len) := by
  unfold ksysGetcwd
  split
  · exact callOk_error no_spans rfl rfl (by decide)
  rename_i hzero
  rw [not_or] at hzero
  split
  · rename_i hv
    exact callOk_fault no_spans List.mem_cons_self (mt (validateUserPtr_iff h hzero.2).mpr hv)
  rename_i hv
  have hw := (validateUserPtr_iff h hzero.2).mp (not_not.mp hv)
  dsimp only
  split
  · exact callOk_error no_spans rfl rfl (by decide)
  · rename_i hroom
    have hwn := hw.mono (Nat.not_lt.mp hroom)
    exact callOk_success (one_span (hwn.all_own h.fits)) rfl
      (hwn.sameOutside_store h.fits) (Int.natCast_nonneg _) (fdsOk_refl _ _)

theorem ksysList_ok (path : U32) :
    CallOk image k (if path = 0 then [] else [(path, cstrSpan k.core.mem 127 path)])
      (ksysList mach k path) := by
  have ht := copyUserCstr_touched h path 128
  have hlist : ∀ buffers touched p, (∀ sp ∈ touched, sp.All (Own image)) →
      CallOk image k buffers
        ⟨touched, (vfsList mach k.files.fs k.cwd p).map fun _ => (0, k)⟩ := by
    intro buffers touched p ht
    cases vfsList mach k.files.fs k.cwd p with
    | none => exact callOk_stuck ht
    | some _ => exact callOk_error ht rfl rfl (by decide)
  unfold ksysList
  dsimp only
  split
  · exact hlist _ _ _ no_spans
  · rename_i hnull
    split
    · rename_i touched hcopy
      rw [hcopy] at ht
      refine callOk_fault ht List.mem_cons_self ?_
      exact copyUserCstr_none h 128 hnull (by decide) (by rw [hcopy])
    · rename_i kpath touched hcopy
      rw [hcopy] at ht
      exact hlist _ _ _ ht

theorem storeWords_ok {ptr : U32} {ws : List U32} {n : Nat} (hn : 4 * ws.length = n)
    (hw : Within image ptr n) :
    SameOutside (Own image) k.core.mem (ByteMem.storeWords k.core.mem ptr ws) := by
  unfold ByteMem.storeWords
  rw [hn]
  exact hw.sameOutside_store h.fits

theorem ksysMeminfo_ok (info : U32) :
    CallOk image k [(info, memInfoSize)] (ksysMeminfo mach k info) := by
  have hne : BitVec.ofNat 32 memInfoSize ≠ 0 := by decide
  unfold ksysMeminfo
  split
  · rename_i hbad
    refine callOk_fault no_spans List.mem_cons_self ?_
    rcases hbad with hnull | hv
    · dsimp only
      rw [hnull]
      exact not_within_null h.fits _
    · exact mt (validateUserPtr_iff h hne).mpr hv
  · rename_i hgood
    rw [not_or, not_not] at hgood
    have hw : Within image info memInfoSize := (validateUserPtr_iff h hne).mp hgood.2
    refine callOk_success (one_span (hw.all_own h.fits)) rfl (storeWords_ok h ?_ hw)
      (Int.le_refl 0) (fdsOk_refl _ _)
    rfl

/-! ## Services -/

theorem ksysServiceRegister_ok (name : U32) :
    CallOk image k [(name, cstrSpan k.core.mem 31 name)] (ksysServiceRegister k name) := by
  apply withUserCstr_ok h
  intro kname touched ht
  split
  · exact callOk_error ht rfl rfl (by decide)
  · exact callOk_error ht rfl rfl (by decide)

theorem ksysServiceLookup_ok (name : U32) :
    CallOk image k [(name, cstrSpan k.core.mem 31 name)] (ksysServiceLookup k name) := by
  apply withUserCstr_ok h
  intro kname touched ht
  dsimp only
  split
  · exact callOk_error ht rfl rfl (by decide)
  · rename_i hpos
    exact callOk_success ht (m := k.core.mem) rfl (SameOutside.refl _ _) (by omega)
      (fdsOk_refl _ _)

/-! ## Status -/

theorem storeStat_ok {st : U32} (hw : Within image st userStatSize) (stat : UserStat)
    (hr : r ∉ [errBlocked, errFault]) (ht : ∀ sp ∈ touched, sp.All (Own image)) :
    CallOk image k buffers (.ret (k.storeStat st stat) r touched) := by
  rw [List.mem_cons, List.mem_singleton, not_or] at hr
  refine callOk_ret ht rfl (storeWords_ok h ?_ hw) hr.1 (fun hf => absurd hf hr.2)
    (fdsOk_refl _ _)
  rfl

theorem ksysStat_ok (path st : U32) :
    CallOk image k [(path, cstrSpan k.core.mem 127 path), (st, userStatSize)]
      (ksysStat mach k path st) := by
  have ht := copyUserCstr_touched h path 128
  have hne : BitVec.ofNat 32 userStatSize ≠ 0 := by decide
  unfold ksysStat
  split
  · exact callOk_error no_spans rfl rfl (by decide)
  rename_i hnull
  rw [not_or] at hnull
  split
  · rename_i hv
    exact callOk_fault (b := (st, userStatSize)) no_spans (by simp)
      (mt (validateUserPtr_iff h hne).mpr hv)
  rename_i hv
  have hw : Within image st userStatSize := (validateUserPtr_iff h hne).mp (not_not.mp hv)
  split
  · rename_i touched hcopy
    rw [hcopy] at ht
    refine callOk_fault ht List.mem_cons_self ?_
    exact copyUserCstr_none h 128 hnull.1 (by decide) (by rw [hcopy])
  · rename_i kpath touched hcopy
    rw [hcopy] at ht
    have ht' : ∀ sp ∈ touched ++ [⟨st, userStatSize⟩], sp.All (Own image) := by
      intro sp hsp
      rcases List.mem_append.mp hsp with hsp | hsp
      · exact ht sp hsp
      · rw [List.mem_singleton.mp hsp]
        exact hw.all_own h.fits
    dsimp only
    split
    · exact callOk_stuck ht'
    · apply CallOk.ofSetFs
      apply storeStat_ok (ownerOk_setFs h _) hw _ _ ht'
      split <;> decide

theorem ksysFstat_ok (fd : Int) (st : U32) :
    CallOk image k [(st, userStatSize)] (ksysFstat k fd st) := by
  have hne : BitVec.ofNat 32 userStatSize ≠ 0 := by decide
  unfold ksysFstat
  split
  · exact callOk_error no_spans rfl rfl (by decide)
  split
  · rename_i hv
    exact callOk_fault no_spans List.mem_cons_self (mt (validateUserPtr_iff h hne).mpr hv)
  rename_i hv
  have hw : Within image st userStatSize := (validateUserPtr_iff h hne).mp (not_not.mp hv)
  split
  · exact storeStat_ok h hw _ (by decide) (one_span (hw.all_own h.fits))
  split
  · exact callOk_error no_spans rfl rfl (by decide)
  · exact storeStat_ok h hw _ (by decide) (one_span (hw.all_own h.fits))

end Handlers

end SlopOS.Proofs.SystemCalls
