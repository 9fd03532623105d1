import SlopOS.Proofs.Loader
/-!
# Validation of user pointers

For the process in Ring 3 the pointer checks of `syscall.c` are exact: they
accept precisely the buffers that lie in its image or in its stack slot.
-/

namespace SlopOS.Proofs.UserPointers

open SlopOS.Support SlopOS.Kernel
open SlopOS.Proofs.TableInvariant SlopOS.Proofs.Loader

def Own (image : ProcImage) (a : U32) : Prop := InImage image a ∨ InStack image a

/-- `len` bytes from `ptr` on lie in one of the process's two ranges. -/
def Within (image : ProcImage) (ptr : U32) (len : Nat) : Prop :=
  (image.imageBase.toNat ≤ ptr.toNat ∧
    ptr.toNat + len ≤ image.imageBase.toNat + image.imageSize.toNat) ∨
  (image.userStackBase.toNat ≤ ptr.toNat ∧
    ptr.toNat + len ≤ image.userStackBase.toNat + image.userStackSize.toNat)

/-- Process `pid` is in Ring 3 with an image that fits slot `s`. -/
structure OwnerOk (mach : Machine) (c : Core) (pid : Int) (image : ProcImage)
    (s : Fin elfProcSlots) : Prop where
  active : c.ring3.active = true
  current : toInt c.ring3.currentPid = pid
  pos : 0 < pid
  found : procGetImage c.proc pid = some image
  loaded : image.loaded = true
  fits : ImageOk mach image s

variable {mach : Machine} {c : Core} {pid : Int} {image : ProcImage} {s : Fin elfProcSlots}
variable {ptr len : U32}

theorem ownerOk_of_running (hb : Base mach c) (hr : Running c pid) :
    ∃ image s, OwnerOk mach c pid image s ∧ Mail.slotOf c.elf pid = some s := by
  obtain ⟨image, s, himg, hl, hs, hok⟩ := hr.imageOk hb
  exact ⟨image, s, ⟨hr.active, hr.toInt_current hb, hr.pos, himg, hl, hok⟩, hs⟩

theorem range_bounds (h : ImageOk mach image s) :
    0x00100000 ≤ image.imageBase.toNat ∧
      image.imageBase.toNat + image.imageSize.toNat ≤ 0x00320000 ∧
      0x00100000 ≤ image.userStackBase.toNat ∧
      image.userStackBase.toNat + image.userStackSize.toNat ≤ 0x00320000 := by
  have hl := h.lower
  have hu := h.upper
  have hs := stackBase_bounds mach s
  have ha := mach.stacks_above
  have hb := stackBase_toNat mach s
  rw [h.stackBase, h.stackSize]
  simp only [elfUserImageBase_toNat, elfUserImageMax_eq, elfStackSize] at *
  simp only [BitVec.toNat_ofNat]
  omega

theorem rangeContains_iff {base size : U32} (hwrap : base.toNat + size.toNat < 2 ^ 32)
    (hlen : len ≠ 0) : rangeContains base size ptr len = true ↔
      base.toNat ≤ ptr.toNat ∧ ptr.toNat + len.toNat ≤ base.toNat + size.toNat := by
  unfold rangeContains
  by_cases hsize : size = 0
  · rw [if_pos hsize]
    subst hsize
    constructor
    · simp
    · intro h
      bv_omega
  rw [if_neg hsize]
  by_cases hlow : ptr < base
  · rw [if_pos hlow]
    constructor
    · simp
    · intro h
      bv_omega
  rw [if_neg hlow, if_neg hlen]
  by_cases hover : ptr + len < ptr
  · rw [if_pos hover]
    constructor
    · simp
    · intro h
      bv_omega
  rw [if_neg hover, decide_eq_true_eq]
  constructor
  · intro h
    constructor <;> bv_omega
  · intro h
    bv_omega

theorem validateUserPtr_iff (h : OwnerOk mach c pid image s) (hlen : len ≠ 0) :
    validateUserPtr c ptr len = true ↔ Within image ptr len.toNat := by
  obtain ⟨-, himg, -, hstk⟩ := range_bounds h.fits
  have hpos := h.pos
  unfold validateUserPtr Within
  rw [if_neg (by simp [h.active])]
  simp only [h.current, h.found]
  rw [if_neg (by simp [h.loaded]; omega)]
  have hi : rangeContains image.imageBase image.imageSize ptr len = true ↔ _ :=
    rangeContains_iff (by omega) hlen
  have hs : rangeContains image.userStackBase image.userStackSize ptr len = true ↔ _ :=
    rangeContains_iff (by omega) hlen
  rw [← hi, ← hs]
  by_cases hin : rangeContains image.imageBase image.imageSize ptr len = true <;> simp [hin]

theorem not_within_null (h : ImageOk mach image s) (n : Nat) : ¬Within image 0 n := by
  obtain ⟨himg, -, hstk, -⟩ := range_bounds h
  have hzero : (0 : U32).toNat = 0 := rfl
  unfold Within
  omega

/-- A buffer that lies in one range touches only addresses of the process. -/
theorem Within.all_own (h : ImageOk mach image s) {n : Nat} (hw : Within image ptr n) :
    (⟨ptr, n⟩ : ByteMem.Span).All (Own image) := by
  obtain ⟨-, himg, -, hstk⟩ := range_bounds h
  intro j hj
  unfold Own InImage InStack ByteMem.InRange
  dsimp only at hj ⊢
  rcases hw with hw | hw
  · left
    bv_omega
  · right
    bv_omega

theorem Within.mono {m n : Nat} (hw : Within image ptr n) (hmn : m ≤ n) :
    Within image ptr m := by
  unfold Within at *
  omega

/-- A store into such a buffer changes nothing outside the process's memory. -/
theorem Within.sameOutside_store (h : ImageOk mach image s) {n : Nat} {m : ByteMem.Mem}
    {g : Nat → U8} (hw : Within image ptr n) :
    SameOutside (Own image) m (ByteMem.store m ptr n g) := by
  obtain ⟨-, himg, -, hstk⟩ := range_bounds h
  rcases hw with hw | hw
  · exact (Loader.sameOutside_store hw.1 hw.2 (by omega)).mono fun a ha => Or.inl ha
  · exact (Loader.sameOutside_store hw.1 hw.2 (by omega)).mono fun a ha => Or.inr ha

/-! ## Strings -/

/-- The bytes a copy of at most `n` characters looks at: up to the NUL, or all. -/
def cstrSpan (m : ByteMem.Mem) : Nat → U32 → Nat
  | 0, _ => 0
  | n + 1, ptr => if m ptr = 0 then 1 else 1 + cstrSpan m n (ptr + 1)

theorem Within.tail (h : ImageOk mach image s) {n : Nat} (hw : Within image ptr (1 + n)) :
    Within image (ptr + 1) n := by
  obtain ⟨-, himg, -, hstk⟩ := range_bounds h
  unfold Within at *
  have hnext : (ptr + 1).toNat = ptr.toNat + 1 := by bv_omega
  rw [hnext]
  omega

theorem copyUserCstrLoop_spec (h : OwnerOk mach c pid image s) (n : Nat) (ptr : U32) :
    (∀ sp ∈ (copyUserCstrLoop c n ptr).2, sp.All (Own image)) ∧
      ((copyUserCstrLoop c n ptr).1 = none → ¬Within image ptr (cstrSpan c.mem n ptr)) := by
  induction n generalizing ptr with
  | zero => simp [copyUserCstrLoop]
  | succ n ih =>
      have hone : (1 : U32) ≠ 0 := by decide
      rw [copyUserCstrLoop]
      by_cases hv : validateUserPtr c ptr 1 = true
      · have hw : Within image ptr 1 := (validateUserPtr_iff h hone).mp hv
        have hbyte : ∀ sp ∈ [(⟨ptr, 1⟩ : ByteMem.Span)], sp.All (Own image) := by
          intro sp hsp
          rw [List.mem_singleton.mp hsp]
          exact hw.all_own h.fits
        rw [if_neg (not_not.mpr hv), cstrSpan]
        by_cases hnul : c.mem ptr = 0
        · rw [if_pos hnul, if_pos hnul]
          exact ⟨hbyte, by simp⟩
        · rw [if_neg hnul, if_neg hnul]
          obtain ⟨htouched, hnone⟩ := ih (ptr + 1)
          constructor
          · intro sp hsp
            rcases List.mem_cons.mp hsp with rfl | hsp
            · exact hw.all_own h.fits
            · exact htouched sp hsp
          · intro hfail hwithin
            exact hnone (by simpa using hfail) (hwithin.tail h.fits)
      · rw [if_pos hv]
        refine ⟨by simp, fun _ hwithin => hv ?_⟩
        apply (validateUserPtr_iff h hone).mpr
        apply hwithin.mono
        rw [cstrSpan]
        split
        · exact Nat.le_refl 1
        · exact Nat.le_add_right 1 _

theorem copyUserCstr_touched (h : OwnerOk mach c pid image s) (ptr : U32) (size : Nat) :
    ∀ sp ∈ (copyUserCstr c ptr size).2, sp.All (Own image) := by
  unfold copyUserCstr
  split
  · simp
  · exact (copyUserCstrLoop_spec h _ ptr).1

theorem copyUserCstr_none (h : OwnerOk mach c pid image s) (size : Nat) (hptr : ptr ≠ 0)
    (hsize : size ≠ 0) (hnone : (copyUserCstr c ptr size).1 = none) :
    ¬Within image ptr (cstrSpan c.mem (size - 1) ptr) := by
  unfold copyUserCstr at hnone
  rw [if_neg (not_or.mpr ⟨hptr, hsize⟩)] at hnone
  exact (copyUserCstrLoop_spec h _ ptr).2 hnone

end SlopOS.Proofs.UserPointers
