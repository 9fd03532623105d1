import SlopOS.Proofs.Leaving
/-!
# The state of one process

`procView` gathers what the tables hold for one pid, so that a step of the
kernel is one equation between functions of a pid.  `MemKept` says that the
memory of a stopped process has stayed as it was.
-/

namespace SlopOS.Proofs.Views

open SlopOS.Support SlopOS.Kernel
open SlopOS.Proofs.Tables SlopOS.Proofs.Mail SlopOS.Proofs.Scheduling
open SlopOS.Proofs.TableInvariant SlopOS.Proofs.Loader SlopOS.Proofs.UserPointers
open SlopOS.Proofs.Messages SlopOS.Proofs.Leaving

@[ext] structure ProcView where
  phase : Phase
  image : Option ProcImage
  waiting : Option U32
  inbox : Option IpcMessage

def procView (c : Core) (p : Int) : ProcView :=
  ⟨procPhase c.proc p, procGetImage c.proc p, waiting c.ipc p, inbox c.ipc p⟩

/-- The saved image and the stack of `q` are as they were. -/
def MemKept (c c' : Core) (q : Int) : Prop :=
  ∀ image s, procGetImage c.proc q = some image → image.loaded = true →
    slotOf c.elf q = some s →
      c'.elf.userImages s = c.elf.userImages s ∧ ∀ a, InStack image a → c'.mem a = c.mem a

/-- Live processes keep their image slots, and pids are not used again. -/
structure Keeps (c c' : Core) : Prop where
  next : c.proc.nextPid ≤ c'.proc.nextPid
  slots : ∀ q, procPhase c.proc q ≠ .dead → slotOf c'.elf q = slotOf c.elf q

variable {mach : Machine} {c c' c'' : Core} {pid q : Int} {image : ProcImage}
variable {s : Fin elfProcSlots}

theorem phase_of_view (h : procView c' q = procView c q) :
    procPhase c'.proc q = procPhase c.proc q :=
  congrArg ProcView.phase h

theorem image_of_view (h : procView c' q = procView c q) :
    procGetImage c'.proc q = procGetImage c.proc q :=
  congrArg ProcView.image h

theorem procView_congr (hp : ∀ q, procPhase c'.proc q = procPhase c.proc q)
    (hi : ∀ q, procGetImage c'.proc q = procGetImage c.proc q) (hm : c'.ipc = c.ipc) :
    procView c' = procView c := by
  funext q
  unfold procView
  rw [hp, hi, hm]

/-! ## Memory of stopped processes -/

theorem memKept_of_dead (h : procPhase c.proc q = .dead) : MemKept c c' q := by
  intro image s himg _ _
  exact absurd h (live_of_procGetImage himg)

theorem MemKept.trans (h : MemKept c c' q) (h' : MemKept c' c'' q)
    (himage : procGetImage c'.proc q = procGetImage c.proc q)
    (hslot : procPhase c.proc q ≠ .dead → slotOf c'.elf q = slotOf c.elf q) : MemKept c c'' q := by
  intro image s himg hl hs
  have hold := h image s himg hl hs
  have hs' := (hslot (live_of_procGetImage himg)).trans hs
  have hnew := h' image s (himage.trans himg) hl hs'
  exact ⟨hnew.1.trans hold.1, fun a ha => (hnew.2 a ha).trans (hold.2 a ha)⟩

theorem memKept_of_same (he : c'.elf.userImages = c.elf.userImages) (hm : c'.mem = c.mem) :
    MemKept c c' q := by
  intro image s _ _ _
  rw [he, hm]
  exact ⟨rfl, fun _ _ => rfl⟩

theorem memKept_of_window (hb : Base mach c) (he : c'.elf.userImages = c.elf.userImages)
    (hm : SameOutside InWindow c.mem c'.mem) : MemKept c c' q := by
  intro image s himg hl hs
  obtain ⟨s', hs', hok⟩ := hb.loaded q image himg hl
  refine ⟨by rw [he], fun a ha => hm a ?_⟩
  exact not_inWindow_of_inStack hok ha

/-- What the process in slot `s` does to its memory does not reach the others. -/
theorem memKept_of_own (hb : Base mach c) (hs : slotOf c.elf pid = some s)
    (hok : ImageOk mach image s) (hq : q ≠ pid)
    (he : ∀ s', s' ≠ s → c'.elf.userImages s' = c.elf.userImages s')
    (hm : SameOutside (Own image) c.mem c'.mem) : MemKept c c' q := by
  intro im s' himg hl hs'
  obtain ⟨s'', hs'', hok'⟩ := hb.loaded q im himg hl
  rw [hs'] at hs''
  obtain rfl := Option.some.inj hs''
  have hne : s' ≠ s := by
    rintro rfl
    exact hq (slotOf_inj hs' hs)
  refine ⟨he s' hne, fun a ha => hm a ?_⟩
  rintro (ha' | ha')
  · exact not_inWindow_of_inStack hok' ha (inWindow_of_inImage hok ha')
  · exact not_inStack_of_ne hok' hok hne ha ha'

theorem keeps_of_elf (hn : c'.proc.nextPid = c.proc.nextPid)
    (he : c'.elf.slotOwnerPid = c.elf.slotOwnerPid) : Keeps c c' := by
  refine ⟨Int.le_of_eq hn.symm, fun q _ => ?_⟩
  unfold slotOf
  rw [he]

/-! ## The views after each operation -/

theorem procView_quiet (h : Repaint c c' (procPhase c.proc)) : procView c' = procView c :=
  procView_congr h.phase h.image h.ipc

theorem procView_gone (h : Gone c c' pid) : procView c' =
    Function.update (procView c) pid
      { procView c pid with phase := .dead, image := none } := by
  funext q
  unfold procView
  rw [h.phase, h.image, h.ipc]
  by_cases hq : q = pid
  · simp [hq]
  · simp [hq]

theorem procView_stopped {frame : UserContext} {phase : Phase}
    (h : Stopped c pid image s frame phase c') : procView c' =
    Function.update (procView c) pid { procView c pid with
      phase := phase, image := some (stoppedImage image frame) } := by
  funext q
  unfold procView
  rw [h.phase, h.image, h.ipc]
  by_cases hq : q = pid
  · simp [hq]
  · simp [hq]

theorem procView_resumed (h : Resumed c pid image s c') : procView c' =
    Function.update (procView c) pid { procView c pid with phase := .runnable } := by
  funext q
  unfold procView
  rw [h.phase, h.image, h.ipc]
  by_cases hq : q = pid
  · simp [hq]
  · simp [hq]

theorem procView_blockedAt {ptr : U32} {ipc : IpcTables} (h : BlockedAt c.ipc pid ptr ipc) :
    procView { c with ipc := ipc } =
      Function.update (procView c) pid { procView c pid with waiting := some ptr } := by
  funext q
  unfold procView
  dsimp only
  rw [h.waiting, inbox_congr h.mailboxes]
  by_cases hq : q = pid
  · simp [hq]
  · simp [hq]

theorem procView_inboxSet {content : Option IpcMessage} {ipc : IpcTables}
    (h : InboxSet c.ipc pid content ipc) :
    procView { c with ipc := ipc } =
      Function.update (procView c) pid { procView c pid with inbox := content } := by
  funext q
  unfold procView
  dsimp only
  rw [h.inbox, waiting_congr h.waiters]
  by_cases hq : q = pid
  · simp [hq]
  · simp [hq]

theorem procView_delivered {dst : Int} {msg : IpcMessage} {ptr : U32} {c₁ : Core}
    (h : Delivered mach c dst msg ptr image s c₁ c') : procView c' =
    Function.update (procView c) dst { procView c dst with
      phase := .runnable
      image := some { image with context := { image.context with eax := 0 } }
      waiting := none } := by
  have hw := h.wrote
  funext q
  unfold procView
  rw [h.woken.phase, h.woken.image, h.woken.unblocked.waiting,
    inbox_congr h.woken.unblocked.mailboxes, hw.proc, hw.ipc]
  by_cases hq : q = dst
  · simp [hq]
  · simp [hq]

/-! ## Memory and slots after each operation -/

theorem keeps_stopped {frame : UserContext} {phase : Phase}
    (h : Stopped c pid image s frame phase c') : Keeps c c' :=
  keeps_of_elf h.nextPid h.owners

theorem memKept_stopped {frame : UserContext} {phase : Phase} (hs : slotOf c.elf pid = some s)
    (h : Stopped c pid image s frame phase c') (hq : q ≠ pid) : MemKept c c' q := by
  intro im s' himg hl hs'
  have hne : s' ≠ s := by
    rintro rfl
    exact hq (slotOf_inj hs' hs)
  rw [h.mem]
  exact ⟨h.others s' hne, fun _ _ => rfl⟩

theorem keeps_resumed (h : Resumed c pid image s c') : Keeps c c' :=
  keeps_of_elf h.nextPid (by rw [h.elf])

theorem memKept_resumed (hb : Base mach c) (hok : ImageOk mach image s)
    (h : Resumed c pid image s c') : MemKept c c' q := by
  apply memKept_of_window hb (by rw [h.elf])
  rw [h.mem]
  exact resumedMem_sameOutside hok

theorem keeps_delivered {dst : Int} {msg : IpcMessage} {ptr : U32} {c₁ : Core}
    (h : Delivered mach c dst msg ptr image s c₁ c') : Keeps c c' := by
  apply keeps_of_elf
  · rw [h.woken.nextPid, h.wrote.proc]
  · rw [h.woken.elf, h.wrote.owners]

theorem memKept_delivered {dst : Int} {msg : IpcMessage} {ptr : U32} {c₁ : Core}
    (hb : Base mach c) (h : Delivered mach c dst msg ptr image s c₁ c') (hq : q ≠ dst) :
    MemKept c c' q := by
  apply memKept_of_own hb h.slot h.fits hq
  · intro s' hs'
    rw [h.woken.elf]
    exact h.wrote.others s' hs'
  · rw [h.woken.mem]
    exact h.wrote.mem.mono fun a ha => Or.inr ha

theorem view_delivered {dst : Int} {msg : IpcMessage} {ptr : U32} {c₁ : Core}
    (h : Delivered mach c dst msg ptr image s c₁ c') {a : U32} (ha : Own image a) :
    view c' image s a = ByteMem.store (view c image s) ptr ipcMessageSize msg.byte a := by
  rw [← h.wrote.view a ha]
  unfold view
  rw [h.woken.elf, h.woken.mem]

theorem view_of_memKept (h : MemKept c c' q) (himg : procGetImage c.proc q = some image)
    (hl : image.loaded = true) (hs : slotOf c.elf q = some s) {a : U32} (ha : Own image a) :
    view c' image s a = view c image s a := by
  obtain ⟨himages, hstack⟩ := h image s himg hl hs
  unfold view
  rw [himages]
  split
  · rfl
  · rename_i hin
    exact hstack a (ha.resolve_left hin)

end SlopOS.Proofs.Views
