import SlopOS.Proofs.Messages
import SlopOS.Proofs.SystemCalls
/-!
# The dispatcher

The lemmas about single calls, put together for `syscall_entry`.  The three
calls that deal with messages and the exit call change more than `CallOk`
allows; for them `CallTouch` says what all calls have in common.
-/

namespace SlopOS.Proofs.Dispatch

open SlopOS.Support SlopOS.Kernel
open SlopOS.Proofs.TableInvariant SlopOS.Proofs.UserPointers SlopOS.Proofs.SystemCalls

/-- The memory a call touches is the caller's, and a refused buffer is not. -/
structure CallTouch (image : ProcImage) (buffers : List (U32 × Nat)) (o : Outcome) : Prop where
  touched : ∀ sp ∈ o.touched, sp.All (Own image)
  fault : ∀ k', o.done = some (errFault, k') → ∃ b ∈ buffers, ¬Within image b.1 b.2

variable {mach : Machine} {k : KState} {pid : Int} {image : ProcImage} {s : Fin elfProcSlots}

theorem messageSize_ne_zero : (BitVec.ofNat 32 ipcMessageSize : U32) ≠ 0 := by decide

theorem message_refused_iff (h : OwnerOk mach k.core pid image s) (msg : U32) :
    (msg = 0 ∨ ¬validateUserPtr k.core msg (BitVec.ofNat 32 ipcMessageSize)) ↔
      ¬Within image msg ipcMessageSize := by
  have hvalid : validateUserPtr k.core msg (BitVec.ofNat 32 ipcMessageSize) = true ↔ _ :=
    validateUserPtr_iff h messageSize_ne_zero
  have hsize : (BitVec.ofNat 32 ipcMessageSize : U32).toNat = ipcMessageSize := rfl
  rw [hsize] at hvalid
  rw [hvalid]
  constructor
  · rintro (rfl | hw)
    · exact not_within_null h.fits _
    · exact hw
  · exact Or.inr

theorem ksysIpcSendWith_touch (send : Core → Int → Int → IpcMessage → Bool × Core)
    (h : OwnerOk mach k.core pid image s) (msg : U32) :
    CallTouch image [(msg, ipcMessageSize)] (ksysIpcSendWith send k msg) := by
  unfold ksysIpcSendWith
  split
  · rename_i hbad
    exact ⟨no_spans, fun _ _ => ⟨_, List.mem_singleton_self _, (message_refused_iff h msg).mp hbad⟩⟩
  · rename_i hgood
    rw [message_refused_iff h, not_not] at hgood
    refine ⟨one_span (hgood.all_own h.fits), fun k' hk' => ?_⟩
    obtain ⟨hcode, -⟩ := Prod.mk.inj (Option.some.inj hk')
    split at hcode <;> cases hcode

theorem ksysIpcRecv_touch (h : OwnerOk mach k.core pid image s) (msg : U32) :
    CallTouch image [(msg, ipcMessageSize)] (ksysIpcRecv k msg) := by
  unfold ksysIpcRecv
  split
  · rename_i hbad
    exact ⟨no_spans, fun _ _ => ⟨_, List.mem_singleton_self _, (message_refused_iff h msg).mp hbad⟩⟩
  rename_i hgood
  rw [message_refused_iff h, not_not] at hgood
  split
  · rcases ipcBlockRecv k.core k.pid msg with ⟨blocked, c⟩
    refine ⟨no_spans, fun k' hk' => ?_⟩
    cases blocked <;> cases hk'
  · refine ⟨one_span (hgood.all_own h.fits), fun k' hk' => ?_⟩
    cases hk'

theorem ksysGetpid_pos (h : OwnerOk mach k.core pid image s) : ksysGetpid k = pid := by
  have hpos := h.pos
  have hcur := h.current
  have hne : 0 < k.core.ring3.currentPid := by
    by_contra hzero
    have hz : k.core.ring3.currentPid = 0 := by bv_omega
    rw [hz] at hcur
    have h0 : toInt 0 = 0 := rfl
    omega
  unfold ksysGetpid
  rw [if_pos ⟨h.active, hne⟩]
  exact hcur

/-- The numbers of the calls that `syscall_entry` answers without touching
anything. -/
theorem callOk_number (buffers : List (U32 × Nat)) {r : Int} (hr : r ∉ [errBlocked, errFault]) :
    CallOk image k buffers (.ret k r []) :=
  callOk_error no_spans rfl rfl hr

def ipcNumbers : List U32 := [sysIpcSend, sysIpcRecv, sysIpcReply]

section Handlers

variable (h : OwnerOk mach k.core pid image s)
include h

theorem syscallEntry_ok (num a1 a2 a3 a4 a5 : U32) (hipc : num ∉ ipcNumbers)
    (hexit : num ≠ sysExit) :
    CallOk image k (userBuffers k.core.mem num a1 a2 a3)
      (syscallEntry mach k num a1 a2 a3 a4 a5) := by
  simp only [ipcNumbers, List.mem_cons, List.not_mem_nil, or_false, not_or] at hipc
  obtain ⟨hsend, hrecv, hreply⟩ := hipc
  by_cases h0 : num = sysRead
  · subst h0
    exact ksysRead_ok h _ _ _
  by_cases h1 : num = sysWrite
  · subst h1
    exact ksysWrite_ok h _ _ _
  by_cases h2 : num = sysOpen
  · subst h2
    exact ksysOpen_ok h _ _
  by_cases h3 : num = sysClose
  · subst h3
    exact ksysClose_ok _
  by_cases h20 : num = sysGetpid
  · subst h20
    have hpos := h.pos
    refine callOk_number _ ?_
    rw [ksysGetpid_pos h]
    simp only [errBlocked, errFault, List.mem_cons, List.not_mem_nil, or_false]
    omega
  by_cases h83 : num = sysMkdir
  · subst h83
    exact ksysMkdir_ok h _
  by_cases h183 : num = sysGetcwd
  · subst h183
    exact ksysGetcwd_ok h _ _
  by_cases h241 : num = sysList
  · subst h241
    exact ksysList_ok h _
  by_cases h242 : num = sysSysteminfo
  · subst h242
    refine callOk_number _ ?_
    unfold ksysSysteminfo
    split <;> decide
  by_cases h243 : num = sysPs
  · subst h243
    exact callOk_number _ (by decide)
  by_cases h244 : num = sysMeminfo
  · subst h244
    exact ksysMeminfo_ok h _
  by_cases h248 : num = sysYield
  · subst h248
    exact callOk_number _ (by decide)
  by_cases h249 : num = sysServiceRegister
  · subst h249
    exact ksysServiceRegister_ok h _
  by_cases h250 : num = sysServiceLookup
  · subst h250
    exact ksysServiceLookup_ok h _
  by_cases h251 : num = sysStat
  · subst h251
    exact ksysStat_ok h _ _
  by_cases h252 : num = sysFstat
  · subst h252
    exact ksysFstat_ok h _ _
  unfold syscallEntry
  simp only [h0, h1, h2, h3, h20, h83, h183, hexit, h241, h242, h243, h244, hsend, hrecv, hreply,
    h248, h249, h250, h251, h252, if_false]
  split
  · exact callOk_number _ (by decide)
  · exact callOk_number _ (by decide)

/-- Whatever the number, a call touches the caller's memory only, and refuses no
buffer that lies in it. -/
theorem syscallEntry_touch (num a1 a2 a3 a4 a5 : U32) :
    CallTouch image (userBuffers k.core.mem num a1 a2 a3)
      (syscallEntry mach k num a1 a2 a3 a4 a5) := by
  by_cases hsend : num = sysIpcSend
  · subst hsend
    exact ksysIpcSendWith_touch ipcSend h a1
  by_cases hrecv : num = sysIpcRecv
  · subst hrecv
    exact ksysIpcRecv_touch h _
  by_cases hreply : num = sysIpcReply
  · subst hreply
    exact ksysIpcSendWith_touch ipcReply h a1
  by_cases hexit : num = sysExit
  · subst hexit
    refine ⟨no_spans, fun k' hk' => ?_⟩
    cases hk'
  have hipc : num ∉ ipcNumbers := by
    simp [ipcNumbers, hsend, hrecv, hreply]
  have hok := syscallEntry_ok h num a1 a2 a3 a4 a5 hipc hexit
  exact ⟨hok.touched, hok.fault⟩

end Handlers

end SlopOS.Proofs.Dispatch
