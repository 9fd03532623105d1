import SlopOS.Proofs.ElfBounds
import SlopOS.Proofs.TableInvariant
/-!
# What loading, entering and resuming an image change

Each function of `elf.c` gets a lemma that says which tables it leaves alone,
what it puts into the image slots, and outside which addresses memory stays.
-/

namespace SlopOS.Proofs.Loader

open SlopOS.Support SlopOS.Kernel
open SlopOS.Proofs.Tables SlopOS.Proofs.Mail SlopOS.Proofs.TableInvariant
open SlopOS.Proofs.ElfBounds (PassesChecks NoWrap)

def InWindow (a : U32) : Prop := ByteMem.InRange elfUserImageBase elfUserImageMax a

def InImage (image : ProcImage) (a : U32) : Prop :=
  ByteMem.InRange image.imageBase image.imageSize.toNat a

def InStack (image : ProcImage) (a : U32) : Prop :=
  ByteMem.InRange image.userStackBase image.userStackSize.toNat a

variable {mach : Machine} {c c' : Core} {pid : Int} {image : ProcImage}
variable {s s' : Fin elfProcSlots} {a : U32}

theorem inWindow_of_inImage (h : ImageOk mach image s) (ha : InImage image a) : InWindow a := by
  have hl := h.lower
  have hu := h.upper
  unfold InImage ByteMem.InRange at ha
  unfold InWindow ByteMem.InRange
  omega

theorem inStack_iff (h : ImageOk mach image s) :
    InStack image a ↔ ByteMem.InRange (mach.stackBase s) elfStackSize a := by
  unfold InStack
  rw [h.stackBase, h.stackSize]
  rfl

theorem not_inWindow_of_inStack (h : ImageOk mach image s) (ha : InStack image a) :
    ¬InWindow a := by
  have hb := stackBase_bounds mach s
  rw [inStack_iff h] at ha
  unfold ByteMem.InRange at ha
  unfold InWindow ByteMem.InRange
  omega

theorem not_inStack_of_ne {image' : ProcImage} (h : ImageOk mach image s)
    (h' : ImageOk mach image' s') (hne : s ≠ s') (ha : InStack image a) : ¬InStack image' a := by
  have hd := stackBase_disjoint mach hne
  rw [inStack_iff h] at ha
  rw [inStack_iff h']
  unfold ByteMem.InRange at *
  omega

/-- Memory is the same outside the addresses that `P` allows. -/
def SameOutside (P : U32 → Prop) (m m' : ByteMem.Mem) : Prop := ∀ a, ¬P a → m' a = m a

theorem SameOutside.trans {P : U32 → Prop} {m m' m'' : ByteMem.Mem} (h : SameOutside P m m')
    (h' : SameOutside P m' m'') : SameOutside P m m'' :=
  fun a ha => (h' a ha).trans (h a ha)

theorem SameOutside.refl (P : U32 → Prop) (m : ByteMem.Mem) : SameOutside P m m :=
  fun _ _ => rfl

theorem SameOutside.mono {P Q : U32 → Prop} {m m' : ByteMem.Mem} (h : SameOutside P m m')
    (hPQ : ∀ a, P a → Q a) : SameOutside Q m m' :=
  fun a ha => h a fun hp => ha (hPQ a hp)

theorem sameOutside_store {m : ByteMem.Mem} {base ptr : U32} {size n : Nat} {g : Nat → U8}
    (hlow : base.toNat ≤ ptr.toNat) (hup : ptr.toNat + n ≤ base.toNat + size)
    (hsize : base.toNat + size ≤ 2 ^ 32) :
    SameOutside (ByteMem.InRange base size) m (ByteMem.store m ptr n g) := by
  intro a ha
  apply ByteMem.store_of_not_inRange (by omega)
  intro hin
  apply ha
  unfold ByteMem.InRange at *
  omega

theorem zeroWindow_sameOutside (m : ByteMem.Mem) : SameOutside InWindow m (zeroWindow m) :=
  sameOutside_store (Nat.le_refl _) (Nat.le_refl _) (by decide)

/-! ## Plans -/

theorem prepare_bounds {file : Option FileView} {plan : ExecLoadPlan}
    (h : elfPrepareLoadPlanFromVfs file = some plan) :
    elfUserImageBase.toNat ≤ plan.imageBase.toNat ∧
      plan.imageBase.toNat + plan.imageSize.toNat ≤
        elfUserImageBase.toNat + elfUserImageMax := by
  unfold elfPrepareLoadPlanFromVfs at h
  split at h
  case h_1 => cases h
  split at h
  case isFalse => cases h
  split at h
  case h_1 => cases h
  rename_i acc _
  split at h
  case isTrue => cases h
  rename_i hsome
  split at h
  case isTrue => cases h
  rename_i hbounds
  split at h
  case isTrue => cases h
  obtain rfl := Option.some.inj h
  rw [not_or] at hsome hbounds
  have hmin := hsome.2
  obtain ⟨hlow, hup⟩ := hbounds
  simp only [elfUserImageBase, elfUserImageMax] at *
  constructor <;> bv_omega

/-- Every segment of the plan of a file without wrapping sums lies in the window. -/
theorem plan_window {f : FileView} {plan : ExecLoadPlan}
    (h : elfPrepareLoadPlanFromVfs (some f) = some plan) (hwrap : PassesChecks f → NoWrap f) :
    ∀ seg ∈ plan.segments, elfUserImageBase.toNat ≤ seg.vaddr.toNat ∧
      seg.vaddr.toNat + seg.fileSize.toNat ≤ elfUserImageBase.toNat + elfUserImageMax := by
  intro seg hseg
  obtain ⟨hpass, hsegs⟩ := ElfBounds.passesChecks_of_prepare h
  have hsafe := ElfBounds.planSafe_of_noWrap hpass hsegs (hwrap hpass)
  have hw := hsafe.window seg hseg
  have hsize := hsafe.sizes seg hseg
  omega

theorem window_of_plan {safe : Prop} {file : Option FileView} {plan : ExecLoadPlan}
    (hplan : elfPrepareLoadPlanFromVfs file = some plan)
    (hsafe : safe → ∀ f, file = some f → PassesChecks f → NoWrap f) :
    safe → ∀ seg ∈ plan.segments, elfUserImageBase.toNat ≤ seg.vaddr.toNat ∧
      seg.vaddr.toNat + seg.fileSize.toNat ≤ elfUserImageBase.toNat + elfUserImageMax := by
  intro hs
  cases file with
  | none => cases hplan
  | some f => exact plan_window hplan (hsafe hs f rfl)

theorem loadSegments_sameOutside (f : FileView) (segs : List ExecSegment)
    (hwin : ∀ seg ∈ segs, elfUserImageBase.toNat ≤ seg.vaddr.toNat ∧
      seg.vaddr.toNat + seg.fileSize.toNat ≤ elfUserImageBase.toNat + elfUserImageMax)
    (m : ByteMem.Mem) (tr : LoadTrace) :
    SameOutside InWindow m (loadSegments f m tr segs).2.1 := by
  induction segs generalizing m tr with
  | nil => exact SameOutside.refl _ m
  | cons seg segs ih =>
      rw [loadSegments]
      split
      · exact SameOutside.refl _ m
      · have hseg := hwin seg List.mem_cons_self
        have hcopy : SameOutside InWindow m (copySegment f m seg) :=
          sameOutside_store hseg.1 hseg.2 (by decide)
        exact hcopy.trans (ih (fun s hs => hwin s (List.mem_cons_of_mem seg hs)) _ _)

/-! ## Loading -/

/-- What a load leaves behind: a slot perhaps taken, memory changed, and with an
image returned, one that fits the slot. -/
structure Loaded (mach : Machine) (c : Core) (pid : Int) (plan : ExecLoadPlan)
    (r : LoadResult) : Prop where
  task : r.core.task = c.task
  proc : r.core.proc = c.proc
  ipc : r.core.ipc = c.ipc
  ring3 : r.core.ring3 = c.ring3
  images : r.core.elf.userImages = c.elf.userImages
  base : Base mach r.core
  other : ∀ q, q ≠ pid → procPhase c.proc q ≠ .dead → slotOf r.core.elf q = slotOf c.elf q
  mem : (∀ seg ∈ plan.segments, elfUserImageBase.toNat ≤ seg.vaddr.toNat ∧
      seg.vaddr.toNat + seg.fileSize.toNat ≤ elfUserImageBase.toNat + elfUserImageMax) →
    SameOutside InWindow c.mem r.core.mem
  image : ∀ image, r.image = some image → image.loaded = true ∧ image.contextValid = false ∧
    ∃ s, slotOf r.core.elf pid = some s ∧ ImageOk mach image s

theorem elfLoadFromPlan_spec {plan : ExecLoadPlan} (file : FileView) (hb : Base mach c)
    (hpid : 0 ≤ pid ∧ pid < c.proc.nextPid) (hnone : slotOf c.elf pid = none)
    (hempty : ∀ image, procGetImage c.proc pid = some image → image.loaded = false)
    (hplan : elfUserImageBase.toNat ≤ plan.imageBase.toNat ∧
      plan.imageBase.toNat + plan.imageSize.toNat ≤ elfUserImageBase.toNat + elfUserImageMax) :
    Loaded mach c pid plan (elfLoadFromPlan mach c pid plan file) := by
  have hfail : Loaded mach c pid plan ⟨none, c, ⟨[], []⟩⟩ :=
    ⟨rfl, rfl, rfl, rfl, rfl, hb, fun _ _ _ => rfl, fun _ => SameOutside.refl _ _, by simp⟩
  unfold elfLoadFromPlan
  split
  · exact hfail
  split
  · exact hfail
  rcases elfSlotForPid_new hpid.1 hb.owners hnone with heq | ⟨s, elf, heq, htaken⟩
  · rw [heq]
    exact hfail
  rw [heq]
  have hbase := hb.slotTaken htaken hpid.2 hempty
  dsimp only
  split
  · rename_i m tr hload
    refine ⟨rfl, rfl, rfl, rfl, htaken.images, hbase.setMem m c.ring3, htaken.other, fun hwin => ?_,
      by simp⟩
    have hsame := loadSegments_sameOutside file plan.segments hwin
      (zeroWindow c.mem) ⟨[⟨elfUserImageBase, elfUserImageMax⟩], []⟩
    rw [hload] at hsame
    exact (zeroWindow_sameOutside c.mem).trans hsame
  · rename_i m tr hload
    refine ⟨rfl, rfl, rfl, rfl, htaken.images, hbase.setMem m c.ring3, htaken.other, fun hwin => ?_,
      fun image himage => ?_⟩
    · have hsame := loadSegments_sameOutside file plan.segments hwin
        (zeroWindow c.mem) ⟨[⟨elfUserImageBase, elfUserImageMax⟩], []⟩
      rw [hload] at hsame
      exact (zeroWindow_sameOutside c.mem).trans hsame
    · obtain rfl := Option.some.inj himage
      exact ⟨rfl, rfl, s, htaken.slot, hplan.1, hplan.2, rfl, rfl⟩

/-! ## Entering with arguments -/

theorem pushArgs_sameOutside (argv : Nat → Option CStr)
    (hstack : image.userStackBase.toNat + elfStackSize ≤ elfUserImageBase.toNat)
    (hsize : image.userStackSize = BitVec.ofNat 32 elfStackSize)
    (i : Nat) (sp : U32) (m : ByteMem.Mem) (addrs : List U32)
    (hlow : image.userStackBase.toNat ≤ sp.toNat)
    (hup : sp.toNat ≤ image.userStackBase.toNat + elfStackSize) :
    SameOutside (InStack image) m (pushArgs image argv i sp m addrs).2 ∧
      ∀ sp' addrs', (pushArgs image argv i sp m addrs).1 = some (sp', addrs') →
        sp'.toNat ≤ image.userStackBase.toNat + elfStackSize ∧
          addrs'.length = addrs.length + i := by
  induction i generalizing sp m addrs with
  | zero =>
      refine ⟨SameOutside.refl _ m, ?_⟩
      intro sp' addrs' h
      cases h
      exact ⟨hup, rfl⟩
  | succ i ih =>
      rw [pushArgs]
      dsimp only
      split
      · exact ⟨SameOutside.refl _ m, by simp⟩
      split
      · exact ⟨SameOutside.refl _ m, by simp⟩
      rename_i hlen hroom
      generalize (BitVec.ofNat 32 (strLen ((argv i).getD [])) + 1 : U32) = len at hlen hroom ⊢
      rw [hsize] at hlen
      simp only [elfStackSize, elfUserImageBase] at hstack hup hlen
      have hsp : (sp - len).toNat + len.toNat = sp.toNat := by bv_omega
      have hsp' : image.userStackBase.toNat ≤ (sp - len).toNat := by bv_omega
      have hstore : SameOutside (InStack image) m (ByteMem.store m (sp - len) len.toNat
          fun j => ((argv i).getD []).getD j 0) := by
        unfold InStack
        apply sameOutside_store hsp'
        · rw [hsize]
          simp only [elfStackSize]
          bv_omega
        · rw [hsize]
          simp only [elfStackSize]
          bv_omega
      have hrest := ih (sp - len) (ByteMem.store m (sp - len) len.toNat
        fun j => ((argv i).getD []).getD j 0) ((sp - len) :: addrs) hsp'
        (by simp only [elfStackSize]; omega)
      refine ⟨hstore.trans hrest.1, ?_⟩
      intro sp' addrs' h
      obtain ⟨hsp'', hlen'⟩ := hrest.2 sp' addrs' h
      refine ⟨hsp'', ?_⟩
      rw [hlen', List.length_cons]
      omega

structure EnterFrame (c c' : Core) : Prop where
  task : c'.task = c.task
  proc : c'.proc = c.proc
  ipc : c'.ipc = c.ipc
  elf : c'.elf = c.elf

/-- The `ring3_*` variables of a process that has just been entered. -/
structure JustEntered (c : Core) (pid : Int) : Prop where
  active : c.ring3.active = true
  current : c.ring3.currentPid = toU32 pid
  stop : c.ring3.stopReason = 0

/-- How many strings `elf_execute_image` puts on the stack. -/
def stackedArgs (argc : Int) : Nat := min argc.toNat elfArgMax

def argTableSize (argc : Int) : U32 := (BitVec.ofNat 32 (stackedArgs argc) + 1) * 4

/-- Where the table of the strings starts, with the strings down to `sp`. -/
def argTable (argc : Int) (sp : U32) : U32 := (sp &&& ~~~3) - argTableSize argc

def withTable (argc : Int) (sp : U32) (addrs : List U32) (m : ByteMem.Mem) : ByteMem.Mem :=
  ByteMem.storeWords m (argTable argc sp) (addrs ++ [0])

def withHeader (argc : Int) (sp : U32) (addrs : List U32) (m : ByteMem.Mem) : ByteMem.Mem :=
  ByteMem.storeWords (withTable argc sp addrs m) (argTable argc sp - 8)
    [BitVec.ofNat 32 (stackedArgs argc), argTable argc sp]

def pushed (c : Core) (image : ProcImage) (argc : Int) (argv : Nat → Option CStr) :
    Option (U32 × List U32) × ByteMem.Mem :=
  pushArgs image argv (stackedArgs argc) (image.userStackBase + image.userStackSize) c.mem []

inductive ExecuteDone (c : Core) (image : ProcImage) (pid argc : Int) (argv : Nat → Option CStr) :
    Bool × Core → Prop
  | refused : ExecuteDone c image pid argc argv (false, c)
  | unpushed {m : ByteMem.Mem} (hpush : pushed c image argc argv = (none, m)) :
      ExecuteDone c image pid argc argv (false, { c with mem := m })
  | crowded {sp : U32} {addrs : List U32} {m : ByteMem.Mem}
      (hpush : pushed c image argc argv = (some (sp, addrs), m)) :
      ExecuteDone c image pid argc argv (false, { c with mem := m })
  | low {sp : U32} {addrs : List U32} {m : ByteMem.Mem}
      (hpush : pushed c image argc argv = (some (sp, addrs), m))
      (hroom : ¬(sp &&& ~~~3) < image.userStackBase + argTableSize argc + 8) :
      ExecuteDone c image pid argc argv (false, { c with mem := withTable argc sp addrs m })
  | entered {sp : U32} {addrs : List U32} {m : ByteMem.Mem} (hsize : 64 ≤ image.userStackSize)
      (hpush : pushed c image argc argv = (some (sp, addrs), m))
      (hroom : ¬(sp &&& ~~~3) < image.userStackBase + argTableSize argc + 8)
      (hlow : ¬argTable argc sp < image.userStackBase + 8) :
      ExecuteDone c image pid argc argv (true, enterUserMode
        { c with
          mem := withHeader argc sp addrs m
          ring3 := { c.ring3 with currentPid := toU32 pid } }
        image.entry (argTable argc sp - 8))

theorem elfExecuteImage_cases (c : Core) (image : ProcImage) (pid argc : Int)
    (argv : Nat → Option CStr) :
    ExecuteDone c image pid argc argv (elfExecuteImage c image pid argc argv) := by
  unfold elfExecuteImage
  split
  · exact .refused
  split
  · exact .refused
  split
  · exact .refused
  rename_i hsize
  dsimp only
  split
  · rename_i hpush
    exact .unpushed hpush
  rename_i hpush
  split
  · exact .crowded hpush
  rename_i hroom
  split
  · exact .low hpush hroom
  · rename_i hlow
    exact .entered (BitVec.not_lt.mp hsize) hpush hroom hlow

theorem toNat_argTableSize (argc : Int) : (argTableSize argc).toNat = 4 * (stackedArgs argc + 1) := by
  have hle : stackedArgs argc ≤ 16 := Nat.min_le_right _ _
  unfold argTableSize
  rw [BitVec.toNat_mul, BitVec.toNat_add, BitVec.toNat_ofNat]
  simp
  omega

/-- The table lies below the strings, and there is room for the header below it. -/
theorem argTable_bounds {sp : U32} (hstack : image.userStackBase.toNat + 76 < 2 ^ 32)
    (hroom : ¬(sp &&& ~~~3) < image.userStackBase + argTableSize argc + 8) :
    image.userStackBase.toNat + 8 ≤ (argTable argc sp).toNat ∧
      (argTable argc sp).toNat + 4 * (stackedArgs argc + 1) ≤ sp.toNat := by
  have hle : stackedArgs argc ≤ 16 := Nat.min_le_right _ _
  have hsize := toNat_argTableSize argc
  have halign : (sp &&& ~~~3 : U32).toNat ≤ sp.toNat := by
    rw [BitVec.toNat_and]
    exact Nat.and_le_left
  unfold argTable
  generalize (sp &&& ~~~3 : U32) = top at halign hroom ⊢
  generalize argTableSize argc = size at hsize hroom ⊢
  constructor
  · bv_omega
  · bv_omega

section Arguments

variable {argc : Int} {argv : Nat → Option CStr} {sp : U32} {addrs : List U32} {m : ByteMem.Mem}

theorem pushed_sameOutside (argc : Int) (argv : Nat → Option CStr) (hok : ImageOk mach image s) :
    SameOutside (InStack image) c.mem (pushed c image argc argv).2 ∧
      ∀ sp addrs, (pushed c image argc argv).1 = some (sp, addrs) →
        sp.toNat ≤ image.userStackBase.toNat + elfStackSize ∧
          addrs.length = stackedArgs argc := by
  have hstack : image.userStackBase.toNat + elfStackSize ≤ elfUserImageBase.toNat := by
    rw [hok.stackBase]
    exact stackBase_bounds mach s
  have htop : (image.userStackBase + image.userStackSize).toNat =
      image.userStackBase.toNat + elfStackSize := by
    rw [hok.stackSize]
    simp only [elfStackSize, elfUserImageBase] at *
    bv_omega
  have hpush := pushArgs_sameOutside argv hstack hok.stackSize (stackedArgs argc)
    (image.userStackBase + image.userStackSize) c.mem [] (by rw [htop]; omega) (by rw [htop])
  rw [List.length_nil, Nat.zero_add] at hpush
  exact hpush

theorem withTable_sameOutside (hok : ImageOk mach image s)
    (hm : SameOutside (InStack image) c.mem m) (hlen : addrs.length = stackedArgs argc)
    (hlow : image.userStackBase.toNat ≤ (argTable argc sp).toNat)
    (hup : (argTable argc sp).toNat + 4 * (stackedArgs argc + 1) ≤
      image.userStackBase.toNat + elfStackSize) :
    SameOutside (InStack image) c.mem (withTable argc sp addrs m) := by
  have hstack := stackBase_bounds mach s
  rw [← hok.stackBase] at hstack
  simp only [elfStackSize, elfUserImageBase] at hstack hup
  apply hm.trans
  unfold InStack withTable
  apply sameOutside_store hlow
  · rw [List.length_append, hlen, hok.stackSize]
    simp only [elfStackSize, List.length_singleton, BitVec.toNat_ofNat]
    omega
  · rw [hok.stackSize]
    simp only [elfStackSize, BitVec.toNat_ofNat]
    omega

theorem withHeader_sameOutside (hok : ImageOk mach image s)
    (hm : SameOutside (InStack image) c.mem (withTable argc sp addrs m))
    (hlow : image.userStackBase.toNat + 8 ≤ (argTable argc sp).toNat)
    (hup : (argTable argc sp).toNat ≤ image.userStackBase.toNat + elfStackSize) :
    SameOutside (InStack image) c.mem (withHeader argc sp addrs m) := by
  have hstack := stackBase_bounds mach s
  rw [← hok.stackBase] at hstack
  simp only [elfStackSize, elfUserImageBase] at hstack hup
  have hptr : (argTable argc sp - 8 : U32).toNat = (argTable argc sp).toNat - 8 := by bv_omega
  apply hm.trans
  unfold InStack withHeader
  apply sameOutside_store
  · omega
  · rw [hptr, hok.stackSize]
    simp only [elfStackSize, List.length_cons, List.length_nil, BitVec.toNat_ofNat]
    omega
  · rw [hok.stackSize]
    simp only [elfStackSize, BitVec.toNat_ofNat]
    omega

theorem elfExecuteImage_spec {ok : Bool} (hok : ImageOk mach image s)
    (h : elfExecuteImage c image pid argc argv = (ok, c')) :
    EnterFrame c c' ∧ SameOutside (InStack image) c.mem c'.mem ∧
      (ok = true → JustEntered c' pid) := by
  have hstack := stackBase_bounds mach s
  rw [← hok.stackBase] at hstack
  simp only [elfStackSize, elfUserImageBase] at hstack
  have hfits : image.userStackBase.toNat + 76 < 2 ^ 32 := by omega
  obtain ⟨hm, hargs⟩ := @pushed_sameOutside mach c image s argc argv hok
  have hfails : (false = true) → JustEntered c' pid := fun h => absurd h Bool.false_ne_true
  have hcases := elfExecuteImage_cases c image pid argc argv
  rw [h] at hcases
  cases hcases with
  | refused => exact ⟨⟨rfl, rfl, rfl, rfl⟩, SameOutside.refl _ _, hfails⟩
  | unpushed hpush =>
      rw [hpush] at hm
      exact ⟨⟨rfl, rfl, rfl, rfl⟩, hm, hfails⟩
  | crowded hpush =>
      rw [hpush] at hm
      exact ⟨⟨rfl, rfl, rfl, rfl⟩, hm, hfails⟩
  | @low sp addrs m hpush hroom =>
      rw [hpush] at hm hargs
      obtain ⟨hsp, hlen⟩ := hargs sp addrs rfl
      obtain ⟨hlow, hup⟩ := argTable_bounds hfits hroom
      exact ⟨⟨rfl, rfl, rfl, rfl⟩, withTable_sameOutside hok hm hlen (by omega) (by omega), hfails⟩
  | @entered sp addrs m hsize hpush hroom htable =>
      rw [hpush] at hm hargs
      obtain ⟨hsp, hlen⟩ := hargs sp addrs rfl
      obtain ⟨hlow, hup⟩ := argTable_bounds hfits hroom
      have hlow' : image.userStackBase.toNat ≤ (argTable argc sp).toNat := by omega
      have hmTable := withTable_sameOutside hok hm hlen hlow' (by omega)
      exact ⟨⟨rfl, rfl, rfl, rfl⟩, withHeader_sameOutside hok hmTable hlow (by omega),
        fun _ => ⟨rfl, rfl, rfl⟩⟩

end Arguments

/-! ## Snapshot and resume -/

theorem imageInWindow (hok : ImageOk mach image s) :
    imageOutsideWindow image.imageBase image.imageSize = false := by
  have hl := hok.lower
  have hu := hok.upper
  simp only [elfUserImageBase, elfUserImageMax] at hl hu
  have hlow : ¬image.imageBase < elfUserImageBase := by
    simp only [elfUserImageBase]
    bv_omega
  have hup : ¬elfUserImageBase + BitVec.ofNat 32 elfUserImageMax <
      image.imageBase + image.imageSize := by
    simp only [elfUserImageBase, elfUserImageMax]
    bv_omega
  rw [imageOutsideWindow, decide_eq_false hlow, decide_eq_false hup]
  rfl

theorem elfSnapshotImage_eq (hpid : 0 ≤ pid) (hl : image.loaded = true)
    (hs : slotOf c.elf pid = some s) (hok : ImageOk mach image s) :
    elfSnapshotImage c pid image = (true, setSaved c s (savedImage c image s)) := by
  unfold elfSnapshotImage
  rw [if_neg (by simp [hl]; omega), imageInWindow hok, elfSlotForPid_of_slotOf hs]
  rfl

/-- The memory a resume leaves: the window zeroed, the saved image copied in. -/
def resumedMem (c : Core) (image : ProcImage) (s : Fin elfProcSlots) : ByteMem.Mem :=
  ByteMem.store (zeroWindow c.mem) image.imageBase image.imageSize.toNat (c.elf.userImages s)

theorem elfResumeImage_eq (hpid : 0 ≤ pid) (hl : image.loaded = true)
    (hcv : image.contextValid = true) (hs : slotOf c.elf pid = some s)
    (hok : ImageOk mach image s) :
    elfResumeImage c image pid = (true, resumeUserMode { c with
      mem := resumedMem c image s
      ring3 := { c.ring3 with currentPid := toU32 pid } } image.context) := by
  unfold elfResumeImage
  rw [if_neg (by simp [hl, hcv]; omega), imageInWindow hok, elfSlotForPid_of_slotOf hs]
  rfl

theorem resumedMem_sameOutside (hok : ImageOk mach image s) :
    SameOutside InWindow c.mem (resumedMem c image s) := by
  apply (zeroWindow_sameOutside c.mem).trans
  unfold InWindow resumedMem
  exact sameOutside_store hok.lower hok.upper (by decide)

end SlopOS.Proofs.Loader
