import SlopOS.Kernel.System
import SlopOS.Proofs.Scheduling
/-!
# The invariant of the process tables

`Base` is what the process, task, message and image-slot tables satisfy between
any two kernel operations, whatever the processes and the shells do.  The
lemmas carry it over the changes that operations are made of.
-/

namespace SlopOS.Proofs.TableInvariant

open SlopOS.Support SlopOS.Kernel
open SlopOS.Proofs.Tables SlopOS.Proofs.Mail SlopOS.Proofs.Scheduling

/-- An image in the user window whose stack is the one of slot `s`. -/
structure ImageOk (mach : Machine) (image : ProcImage) (s : Fin elfProcSlots) : Prop where
  lower : elfUserImageBase.toNat ≤ image.imageBase.toNat
  upper : image.imageBase.toNat + image.imageSize.toNat ≤
    elfUserImageBase.toNat + elfUserImageMax
  stackBase : image.userStackBase = mach.stackBase s
  stackSize : image.userStackSize = BitVec.ofNat 32 elfStackSize

structure Base (mach : Machine) (c : Core) : Prop where
  synced : Synced c
  mail : MailDistinct c.ipc
  owners : SlotTable.Distinct ownerKey c.elf.slotOwnerPid
  next : 0 < c.proc.nextPid ∧ c.proc.nextPid < 2 ^ 31
  pids : ∀ p, procPhase c.proc p ≠ .dead → 0 ≤ p ∧ p < c.proc.nextPid
  zombie : ∀ p, procPhase c.proc p ≠ .zombie
  kernel : procPhase c.proc 0 = .runnable
  owner : ∀ p, slotOf c.elf p ≠ none → p < c.proc.nextPid
  loaded : ∀ p image, procGetImage c.proc p = some image → image.loaded = true →
    ∃ s, slotOf c.elf p = some s ∧ ImageOk mach image s
  waiterPid : ∀ p, waiting c.ipc p ≠ none → p < c.proc.nextPid
  waiterImage : ∀ p, waiting c.ipc p ≠ none → procPhase c.proc p ≠ .dead →
    ∃ image, procGetImage c.proc p = some image ∧ image.loaded = true ∧
      image.contextValid = true

structure Running (c : Core) (pid : Int) : Prop where
  active : c.ring3.active = true
  current : c.ring3.currentPid = toU32 pid
  stop : c.ring3.stopReason = 0
  pos : 0 < pid
  image : ∃ image, procGetImage c.proc pid = some image ∧ image.loaded = true

def CtlOk (c : Core) : Ctl → Prop
  | .shell => True
  | .user pid caller =>
    Running c pid ∧ ∀ i, caller = .auto i → c.task.findSlotByPid pid = some i

/-- What holds in every reachable state of the system. -/
structure SysOk (mach : Machine) (s : Sys) : Prop where
  base : Base mach s.kernel.core
  current : CurrentOk s.kernel.core
  ctl : CtlOk s.kernel.core s.ctl

variable {mach : Machine} {c c' : Core} {pid : Int} {f : Int → Phase}

/-! ## Changes that keep the invariant -/

theorem Base.ofSame (h : Base mach c) (ht : c'.task = c.task) (hp : c'.proc = c.proc)
    (he : c'.elf.slotOwnerPid = c.elf.slotOwnerPid) (hm : MailDistinct c'.ipc)
    (hw : ∀ p, waiting c'.ipc p ≠ none → waiting c.ipc p ≠ none) : Base mach c' := by
  have hslot : ∀ p, slotOf c'.elf p = slotOf c.elf p := by
    intro p
    unfold slotOf
    rw [he]
  refine ⟨⟨?_, ?_, fun p => ?_⟩, hm, ?_, ?_, fun p hp' => ?_, fun p => ?_, ?_, fun p hp' => ?_,
    fun p image himg hl => ?_, fun p hp' => ?_, fun p hp' hl => ?_⟩
  · rw [hp]
    exact h.synced.procs
  · rw [ht]
    exact h.synced.tasks
  · rw [ht, hp]
    exact h.synced.sync p
  · rw [he]
    exact h.owners
  · rw [hp]
    exact h.next
  · rw [hp] at hp' ⊢
    exact h.pids p hp'
  · rw [hp]
    exact h.zombie p
  · rw [hp]
    exact h.kernel
  · rw [hslot] at hp'
    rw [hp]
    exact h.owner p hp'
  · rw [hp] at himg
    rw [hslot]
    exact h.loaded p image himg hl
  · rw [hp]
    exact h.waiterPid p (hw p hp')
  · rw [hp] at hl ⊢
    exact h.waiterImage p (hw p hp') hl

theorem Base.setMem (h : Base mach c) (m : ByteMem.Mem) (r : Ring3) :
    Base mach { c with mem := m, ring3 := r } :=
  h.ofSame rfl rfl rfl h.mail fun _ hp => hp

theorem Base.repaint (h : Base mach c) (hre : Repaint c c' f) (h0 : f 0 = .runnable)
    (hlive : ∀ q, f q ≠ .dead → procPhase c.proc q ≠ .dead) (hz : ∀ q, f q ≠ .zombie) :
    Base mach c' where
  synced := hre.synced
  mail := by rw [hre.ipc]; exact h.mail
  owners := by rw [hre.elf]; exact h.owners
  next := by rw [hre.nextPid]; exact h.next
  pids p hp := by
    rw [hre.phase] at hp
    rw [hre.nextPid]
    exact h.pids p (hlive p hp)
  zombie p := by rw [hre.phase]; exact hz p
  kernel := (hre.phase 0).trans h0
  owner p hp := by
    rw [hre.elf] at hp
    rw [hre.nextPid]
    exact h.owner p hp
  loaded p image himg hl := by
    rw [hre.image] at himg
    rw [hre.elf]
    exact h.loaded p image himg hl
  waiterPid p hp := by
    rw [hre.ipc] at hp
    rw [hre.nextPid]
    exact h.waiterPid p hp
  waiterImage p hp hl := by
    rw [hre.ipc] at hp
    rw [hre.phase] at hl
    rw [hre.image]
    exact h.waiterImage p hp (hlive p hl)

theorem Base.quiet (h : Base mach c) (hre : Repaint c c' (procPhase c.proc)) : Base mach c' :=
  h.repaint hre h.kernel (fun _ hq => hq) h.zombie

theorem Base.gone (h : Base mach c) (hg : Gone c c' pid) (hpid : pid ≠ 0) : Base mach c' where
  synced := hg.synced
  mail := by rw [hg.ipc]; exact h.mail
  owners := by rw [hg.elf]; exact h.owners
  next := by rw [hg.nextPid]; exact h.next
  pids p hp := by
    rw [hg.phase] at hp
    rw [hg.nextPid]
    split at hp
    · exact absurd rfl hp
    · exact h.pids p hp
  zombie p := by
    rw [hg.phase]
    split
    · decide
    · exact h.zombie p
  kernel := by rw [hg.phase, if_neg hpid.symm]; exact h.kernel
  owner p hp := by
    rw [hg.elf] at hp
    rw [hg.nextPid]
    exact h.owner p hp
  loaded p image himg hl := by
    rw [hg.image] at himg
    rw [hg.elf]
    split at himg
    · cases himg
    · exact h.loaded p image himg hl
  waiterPid p hp := by
    rw [hg.ipc] at hp
    rw [hg.nextPid]
    exact h.waiterPid p hp
  waiterImage p hp hl := by
    rw [hg.ipc] at hp
    rw [hg.phase] at hl
    rw [hg.image]
    split at hl
    · exact absurd rfl hl
    · rename_i hne
      rw [if_neg hne]
      exact h.waiterImage p hp hl

theorem Base.fresh (h : Base mach c) : procPhase c.proc c.proc.nextPid = .dead := by
  by_contra hne
  have hlt := (h.pids _ hne).2
  omega

theorem Base.born (h : Base mach c) (hb : Born c c' pid) (hnext : c.proc.nextPid < 2 ^ 31 - 1) :
    Base mach c' where
  synced := hb.synced
  mail := by rw [hb.ipc]; exact h.mail
  owners := by rw [hb.elf]; exact h.owners
  next := by
    have hn := h.next
    rw [hb.nextPid]
    omega
  pids p hp := by
    have hn := h.next
    rw [hb.phase] at hp
    rw [hb.nextPid]
    split at hp
    · rename_i hpp
      rw [hpp, hb.pid_eq]
      omega
    · have hold := h.pids p hp
      omega
  zombie p := by
    rw [hb.phase]
    split
    · decide
    · exact h.zombie p
  kernel := by
    rw [hb.phase]
    split
    · rfl
    · exact h.kernel
  owner p hp := by
    rw [hb.elf] at hp
    have hold := h.owner p hp
    rw [hb.nextPid]
    omega
  loaded p image himg hl := by
    rw [hb.image] at himg
    rw [hb.elf]
    split at himg
    · obtain rfl := Option.some.inj himg
      cases hl
    · exact h.loaded p image himg hl
  waiterPid p hp := by
    rw [hb.ipc] at hp
    have hold := h.waiterPid p hp
    rw [hb.nextPid]
    omega
  waiterImage p hp hl := by
    rw [hb.ipc] at hp
    have hne : p ≠ pid := by
      have hold := h.waiterPid p hp
      have hpid := hb.pid_eq
      omega
    rw [hb.phase, if_neg hne] at hl
    rw [hb.image, if_neg hne]
    exact h.waiterImage p hp hl

theorem Base.slotTaken {s : Fin elfProcSlots} {elf : ElfSlots} (h : Base mach c)
    (ht : SlotTaken c pid s elf) (hpid : pid < c.proc.nextPid)
    (himage : ∀ image, procGetImage c.proc pid = some image → image.loaded = false) :
    Base mach { c with elf := elf } where
  synced := ⟨h.synced.procs, h.synced.tasks, h.synced.sync⟩
  mail := h.mail
  owners := ht.distinct
  next := h.next
  pids := h.pids
  zombie := h.zombie
  kernel := h.kernel
  owner p hp := by
    rcases ht.owner p hp with hq | hq
    · rw [hq]
      exact hpid
    · exact h.owner p hq
  loaded p image himg hl := by
    have hne : p ≠ pid := by
      rintro rfl
      rw [himage image himg] at hl
      cases hl
    have hslot := ht.other p hne (live_of_procGetImage himg)
    change ∃ s, slotOf elf p = some s ∧ _
    rw [hslot]
    exact h.loaded p image himg hl
  waiterPid := h.waiterPid
  waiterImage := h.waiterImage

theorem Base.bind {image : ProcImage} (h : Base mach c)
    (himage : image.loaded = true → ∃ s, slotOf c.elf pid = some s ∧ ImageOk mach image s)
    (hvalid : waiting c.ipc pid ≠ none → image.loaded = true ∧ image.contextValid = true) :
    Base mach { c with proc := procBindImage c.proc pid image } where
  synced := by
    refine ⟨?_, h.synced.tasks, fun p => ?_⟩
    · rw [procs_procBindImage]
      exact h.synced.procs
    · rw [procPhase_procBindImage]
      exact h.synced.sync p
  mail := h.mail
  owners := h.owners
  next := by rw [nextPid_procBindImage]; exact h.next
  pids p hp := by
    rw [procPhase_procBindImage] at hp
    rw [nextPid_procBindImage]
    exact h.pids p hp
  zombie p := by rw [procPhase_procBindImage]; exact h.zombie p
  kernel := by rw [procPhase_procBindImage]; exact h.kernel
  owner p hp := by rw [nextPid_procBindImage]; exact h.owner p hp
  loaded p im himg hl := by
    rw [procGetImage_procBindImage] at himg
    split at himg
    · rename_i hp
      obtain rfl := Option.some.inj himg
      rw [hp.1]
      exact himage hl
    · exact h.loaded p im himg hl
  waiterPid p hp := by rw [nextPid_procBindImage]; exact h.waiterPid p hp
  waiterImage p hp hl := by
    rw [procPhase_procBindImage] at hl
    rw [procGetImage_procBindImage]
    by_cases hpp : p = pid
    · subst hpp
      rw [if_pos ⟨rfl, hl⟩]
      exact ⟨image, rfl, hvalid hp⟩
    · rw [if_neg (by simp [hpp])]
      exact h.waiterImage p hp hl

theorem Base.block {ptr : U32} {ipc : IpcTables} {image : ProcImage} (h : Base mach c)
    (hblock : BlockedAt c.ipc pid ptr ipc) (himg : procGetImage c.proc pid = some image)
    (hl : image.loaded = true) (hcv : image.contextValid = true) :
    Base mach { c with ipc := ipc } where
  synced := ⟨h.synced.procs, h.synced.tasks, h.synced.sync⟩
  mail := ⟨by rw [hblock.mailboxes]; exact h.mail.mailboxes, hblock.distinct⟩
  owners := h.owners
  next := h.next
  pids := h.pids
  zombie := h.zombie
  kernel := h.kernel
  owner := h.owner
  loaded := h.loaded
  waiterPid p hp := by
    rw [hblock.waiting] at hp
    split at hp
    · rename_i hpp
      rw [hpp]
      exact (h.pids pid (live_of_procGetImage himg)).2
    · exact h.waiterPid p hp
  waiterImage p hp hlive := by
    rw [hblock.waiting] at hp
    split at hp
    · rename_i hpp
      rw [hpp]
      exact ⟨image, himg, hl, hcv⟩
    · exact h.waiterImage p hp hlive

/-! ## The running process -/

theorem Running.live (h : Running c pid) : procPhase c.proc pid ≠ .dead := by
  obtain ⟨image, himg, -⟩ := h.image
  exact live_of_procGetImage himg

theorem Base.toInt_pid (h : Base mach c) (hlive : procPhase c.proc pid ≠ .dead) :
    toInt (toU32 pid) = pid := by
  have hp := h.pids pid hlive
  have hn := h.next
  exact toInt_toU32 hp.1 (by omega)

theorem Running.toInt_current (h : Running c pid) (hb : Base mach c) :
    toInt c.ring3.currentPid = pid := by
  rw [h.current, hb.toInt_pid h.live]

theorem Running.imageOk (h : Running c pid) (hb : Base mach c) :
    ∃ image s, procGetImage c.proc pid = some image ∧ image.loaded = true ∧
      slotOf c.elf pid = some s ∧ ImageOk mach image s := by
  obtain ⟨image, himg, hl⟩ := h.image
  obtain ⟨s, hs, hok⟩ := hb.loaded pid image himg hl
  exact ⟨image, s, himg, hl, hs, hok⟩

theorem currentOk_ofSame (h : CurrentOk c) (ht : c'.task = c.task)
    (hp : ∀ q, procPhase c'.proc q = procPhase c.proc q) : CurrentOk c' := by
  obtain ⟨i, p, hi, hfind, hrun⟩ := h
  refine ⟨i, p, ?_, ?_, ?_⟩
  · rw [ht, hi]
  · rw [ht, hfind]
  · rw [hp, hrun]

/-! ## Bounds of a fitting image -/

theorem stackBase_toNat (mach : Machine) (s : Fin elfProcSlots) :
    (mach.stackBase s).toNat = mach.userStacks.toNat + s.val * elfStackSize := by
  have habove := mach.stacks_above
  have hbelow := mach.stacks_below
  have hs := s.isLt
  simp only [elfProcSlots, elfStackSize] at *
  unfold Machine.stackBase
  simp only [elfStackSize]
  rw [BitVec.toNat_add, BitVec.toNat_ofNat]
  omega

theorem stackBase_bounds (mach : Machine) (s : Fin elfProcSlots) :
    (mach.stackBase s).toNat + elfStackSize ≤ elfUserImageBase.toNat := by
  have hbelow := mach.stacks_below
  have hs := s.isLt
  rw [stackBase_toNat]
  simp only [elfProcSlots, elfStackSize, elfUserImageBase_toNat] at *
  omega

theorem stackBase_disjoint (mach : Machine) {s s' : Fin elfProcSlots} (h : s ≠ s') :
    (mach.stackBase s).toNat + elfStackSize ≤ (mach.stackBase s').toNat ∨
      (mach.stackBase s').toNat + elfStackSize ≤ (mach.stackBase s).toNat := by
  have hne : s.val ≠ s'.val := fun hv => h (Fin.ext hv)
  rw [stackBase_toNat, stackBase_toNat]
  simp only [elfStackSize]
  omega

end SlopOS.Proofs.TableInvariant
