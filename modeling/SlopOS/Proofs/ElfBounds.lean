import SlopOS.Kernel.Elf
/-!
# Bounds of an accepted ELF file

The loader checks the program-header table, each segment's file range and the
image bounds with 32-bit sums.  `PassesChecks` says what those checks accept,
field by field; `NoWrap` says that the sums they form are exact.  A file that
passes the checks loads within its bounds precisely when none of the sums
wraps (`loadSafe_iff`).
-/

namespace SlopOS.Proofs.ElfBounds

open SlopOS.Support SlopOS.Kernel

/-! ## The statement -/

/-- The bounds an accepted plan is meant to satisfy, in exact arithmetic. -/
structure PlanSafe (f : FileView) (plan : ExecLoadPlan) : Prop where
  table : f.ehdr.ePhoff.toNat + elf32PhdrSize * f.ehdr.ePhnum.toNat ≤ f.size.toNat
  fileRange : ∀ seg ∈ plan.segments,
    seg.fileOffset.toNat + seg.fileSize.toNat ≤ f.size.toNat
  sizes : ∀ seg ∈ plan.segments, seg.fileSize.toNat ≤ seg.memSize.toNat
  window : ∀ seg ∈ plan.segments, elfUserImageBase.toNat ≤ seg.vaddr.toNat ∧
    seg.vaddr.toNat + seg.memSize.toNat ≤ elfUserImageBase.toNat + elfUserImageMax

/-- Every byte written lies in the user window, every byte read in the file. -/
structure TraceSafe (f : FileView) (tr : LoadTrace) : Prop where
  writes : ∀ sp ∈ tr.writes, sp.All (ByteMem.InRange elfUserImageBase elfUserImageMax)
  reads : ∀ sp ∈ tr.reads, sp.All fun i => i.toNat < f.size.toNat

/-- Whatever plan the file yields is safe, and so is loading it. -/
def LoadSafe (f : FileView) : Prop :=
  ∀ plan, elfPrepareLoadPlanFromVfs (some f) = some plan →
    PlanSafe f plan ∧
      ∀ mach c pid, TraceSafe f (elfLoadFromPlan mach c pid plan f).trace

def loads (f : FileView) : List Elf32Phdr := f.phdrs.filter fun p => p.pType = ptLoad

/-- What the 32-bit checks of the loader accept. -/
structure PassesChecks (f : FileView) : Prop where
  header : elfValidateHeader f.ehdr f.size = true
  segments : ∀ p ∈ loads f, p.pFilesz ≤ p.pMemsz ∧ p.pOffset + p.pFilesz ≤ f.size
  count : loads f ≠ [] ∧ (loads f).length ≤ execMaxSegments
  lower : ∀ p ∈ loads f, elfUserImageBase ≤ p.pVaddr
  upper : ∀ p ∈ loads f,
    p.pVaddr + p.pMemsz ≤ elfUserImageBase + BitVec.ofNat 32 elfUserImageMax
  nonempty : ∃ p ∈ loads f, ∃ q ∈ loads f, p.pVaddr < q.pVaddr + q.pMemsz

/-- The sums the checks form stay below 2^32. -/
structure NoWrap (f : FileView) : Prop where
  table : f.ehdr.ePhoff.toNat + elf32PhdrSize * f.ehdr.ePhnum.toNat < 2 ^ 32
  fileRange : ∀ p ∈ loads f, p.pOffset.toNat + p.pFilesz.toNat < 2 ^ 32
  window : ∀ p ∈ loads f, p.pVaddr.toNat + p.pMemsz.toNat < 2 ^ 32

/-! ## The segment loop -/

def segmentOf (p : Elf32Phdr) : ExecSegment :=
  ⟨p.pOffset, p.pFilesz, p.pMemsz, p.pVaddr, p.pFlags⟩

/-- The locals of the segment loop after the `PT_LOAD` headers `done`. -/
structure ScanInv (size : U32) (done : List Elf32Phdr) (acc : PlanScan) : Prop where
  segs : acc.segments = done.map segmentOf
  checked : ∀ p ∈ done, p.pFilesz ≤ p.pMemsz ∧ p.pOffset + p.pFilesz ≤ size
  few : done.length ≤ execMaxSegments
  lower : ∀ p ∈ done, acc.minVaddr ≤ p.pVaddr
  upper : ∀ p ∈ done, p.pVaddr + p.pMemsz ≤ acc.maxEnd
  least : acc.minVaddr = 0xFFFFFFFF ∨ ∃ p ∈ done, acc.minVaddr = p.pVaddr
  greatest : acc.maxEnd = 0 ∨ ∃ p ∈ done, acc.maxEnd = p.pVaddr + p.pMemsz

theorem scanInv_init (size : U32) : ScanInv size [] ⟨0xFFFFFFFF, 0, []⟩ where
  segs := rfl
  checked := by simp
  few := by simp
  lower := by simp
  upper := by simp
  least := Or.inl rfl
  greatest := Or.inl rfl

theorem planStep_skip {size : U32} {acc : PlanScan} {p : Elf32Phdr}
    (hp : p.pType ≠ ptLoad) : planStep size acc p = some acc := by
  rw [planStep, if_pos hp]

/-- A `PT_LOAD` header that the step accepts extends the invariant. -/
theorem ScanInv.step {size : U32} {done : List Elf32Phdr} {acc acc' : PlanScan}
    {p : Elf32Phdr} (h : ScanInv size done acc) (hp : p.pType = ptLoad)
    (hstep : planStep size acc p = some acc') : ScanInv size (done ++ [p]) acc' := by
  have hlen : acc.segments.length = done.length := by rw [h.segs, List.length_map]
  rw [planStep, if_neg (not_not.mpr hp)] at hstep
  split at hstep
  · cases hstep
  rename_i hranges
  split at hstep
  · cases hstep
  rename_i hroom
  rw [hlen] at hroom
  obtain rfl := Option.some.inj hstep
  have hpchk : p.pFilesz ≤ p.pMemsz ∧ p.pOffset + p.pFilesz ≤ size := by
    constructor <;> bv_omega
  refine ⟨by simp [h.segs, segmentOf], ?_, ?_, ?_, ?_, ?_, ?_⟩
  · intro q hq
    rcases List.mem_append.mp hq with hq | hq
    · exact h.checked q hq
    · rw [List.mem_singleton.mp hq]
      exact hpchk
  · rw [List.length_append, List.length_singleton]
    omega
  · intro q hq
    rcases List.mem_append.mp hq with hq | hq
    · have hold := h.lower q hq
      dsimp only
      split <;> bv_omega
    · rw [List.mem_singleton.mp hq]
      dsimp only
      split <;> bv_omega
  · intro q hq
    rcases List.mem_append.mp hq with hq | hq
    · have hold := h.upper q hq
      dsimp only
      split <;> bv_omega
    · rw [List.mem_singleton.mp hq]
      dsimp only
      split <;> bv_omega
  · dsimp only
    split
    · exact Or.inr ⟨p, by simp, rfl⟩
    · rcases h.least with hl | ⟨q, hq, hl⟩
      · exact Or.inl hl
      · exact Or.inr ⟨q, by simp [hq], hl⟩
  · dsimp only
    split
    · exact Or.inr ⟨p, by simp, rfl⟩
    · rcases h.greatest with hg | ⟨q, hq, hg⟩
      · exact Or.inl hg
      · exact Or.inr ⟨q, by simp [hq], hg⟩

/-- Header by header, what the loop accepts keeps the invariant. -/
theorem ScanInv.run {size : U32} {done : List Elf32Phdr} {acc acc' : PlanScan}
    (l : List Elf32Phdr) (h : ScanInv size done acc)
    (hrun : l.foldlM (planStep size) acc = some acc') :
    ScanInv size (done ++ l.filter fun p => p.pType = ptLoad) acc' := by
  induction l generalizing done acc with
  | nil =>
      obtain rfl := Option.some.inj hrun
      simpa using h
  | cons p l ih =>
      rw [List.foldlM_cons] at hrun
      obtain ⟨mid, hmid, hrest⟩ := Option.bind_eq_some_iff.mp hrun
      by_cases hp : p.pType = ptLoad
      · have hnext := ih (h.step hp hmid) hrest
        simpa [hp] using hnext
      · rw [planStep_skip hp] at hmid
        obtain rfl := Option.some.inj hmid
        have hnext := ih h hrest
        simpa [hp] using hnext

/-- The loop accepts every list whose `PT_LOAD` headers pass its tests and fit. -/
theorem ScanInv.exists_run {size : U32} {done : List Elf32Phdr} {acc : PlanScan}
    (l : List Elf32Phdr) (h : ScanInv size done acc)
    (hchk : ∀ p ∈ l, p.pType = ptLoad →
      p.pFilesz ≤ p.pMemsz ∧ p.pOffset + p.pFilesz ≤ size)
    (hfew : (done ++ l.filter fun p => p.pType = ptLoad).length ≤ execMaxSegments) :
    ∃ acc', l.foldlM (planStep size) acc = some acc' := by
  induction l generalizing done acc with
  | nil => exact ⟨acc, rfl⟩
  | cons p l ih =>
      have htail : ∀ q ∈ l, q.pType = ptLoad →
          q.pFilesz ≤ q.pMemsz ∧ q.pOffset + q.pFilesz ≤ size :=
        fun q hq => hchk q (List.mem_cons_of_mem p hq)
      rw [List.foldlM_cons]
      by_cases hp : p.pType = ptLoad
      · have hpchk := hchk p List.mem_cons_self hp
        have hlen : acc.segments.length = done.length := by rw [h.segs, List.length_map]
        have hroom : done.length < execMaxSegments := by
          simp [hp] at hfew
          omega
        obtain ⟨mid, hmid⟩ : ∃ mid, planStep size acc p = some mid := by
          rw [planStep, if_neg (not_not.mpr hp), if_neg (by bv_omega), if_neg (by omega)]
          exact ⟨_, rfl⟩
        obtain ⟨acc', hacc'⟩ := ih (h.step hp hmid) htail (by simpa [hp] using hfew)
        exact ⟨acc', by rw [hmid]; exact hacc'⟩
      · rw [planStep_skip hp]
        exact ih h htail (by simpa [hp] using hfew)

/-! ## What acceptance means -/

theorem size_ge_table_of_header {f : FileView} (h : elfValidateHeader f.ehdr f.size = true) :
    f.ehdr.ePhentsize = BitVec.ofNat 16 elf32PhdrSize ∧
      f.ehdr.ePhoff + f.ehdr.ePhnum.setWidth 32 * f.ehdr.ePhentsize.setWidth 32 ≤ f.size := by
  unfold elfValidateHeader at h
  grind

theorem table_inside {f : FileView} (h : elfValidateHeader f.ehdr f.size = true)
    (hwrap : f.ehdr.ePhoff.toNat + elf32PhdrSize * f.ehdr.ePhnum.toNat < 2 ^ 32) :
    f.ehdr.ePhoff.toNat + elf32PhdrSize * f.ehdr.ePhnum.toNat ≤ f.size.toNat := by
  obtain ⟨hent, hle⟩ := size_ge_table_of_header h
  rw [hent] at hle
  have hmul : (f.ehdr.ePhnum.setWidth 32 *
      (BitVec.ofNat 16 elf32PhdrSize).setWidth 32).toNat =
        elf32PhdrSize * f.ehdr.ePhnum.toNat := by
    have hnum := f.ehdr.ePhnum.isLt
    have hsize : ((BitVec.ofNat 16 elf32PhdrSize).setWidth 32).toNat = 32 := rfl
    rw [BitVec.toNat_mul, hsize, BitVec.toNat_setWidth, elf32PhdrSize]
    omega
  have hsum : (f.ehdr.ePhoff + f.ehdr.ePhnum.setWidth 32 *
      (BitVec.ofNat 16 elf32PhdrSize).setWidth 32).toNat =
        f.ehdr.ePhoff.toNat + elf32PhdrSize * f.ehdr.ePhnum.toNat := by
    rw [BitVec.toNat_add, hmul, Nat.mod_eq_of_lt hwrap]
  rw [← hsum]
  exact BitVec.le_def.mp hle

/-- An accepted plan lists the `PT_LOAD` headers of a file that passes the checks. -/
theorem passesChecks_of_prepare {f : FileView} {plan : ExecLoadPlan}
    (h : elfPrepareLoadPlanFromVfs (some f) = some plan) :
    PassesChecks f ∧ plan.segments = (loads f).map segmentOf := by
  simp only [elfPrepareLoadPlanFromVfs] at h
  split at h
  case isFalse => cases h
  rename_i hheader
  split at h
  case h_1 => cases h
  rename_i acc hscan
  have hinv := (scanInv_init f.size).run f.phdrs hscan
  rw [List.nil_append] at hinv
  split at h
  case isTrue => cases h
  rename_i hsome
  split at h
  case isTrue => cases h
  rename_i hbounds
  split at h
  case isTrue => cases h
  obtain rfl := Option.some.inj h
  rw [not_or] at hsome hbounds
  have hne : loads f ≠ [] := by
    intro hnil
    have hsegs : acc.segments = (loads f).map segmentOf := hinv.segs
    rw [hnil, List.map_nil] at hsegs
    exact hsome.1 hsegs
  refine ⟨⟨hheader, hinv.checked, ⟨hne, hinv.few⟩, ?_, ?_, ?_⟩, hinv.segs⟩
  · intro p hp
    have hlow := hinv.lower p hp
    bv_omega
  · intro p hp
    have hup := hinv.upper p hp
    bv_omega
  · obtain ⟨p₀, hp₀⟩ := List.exists_mem_of_ne_nil _ hne
    have hmin : ∃ p ∈ loads f, acc.minVaddr = p.pVaddr := by
      rcases hinv.least with hl | hl
      · refine ⟨p₀, hp₀, ?_⟩
        have hlow := hinv.lower p₀ hp₀
        bv_omega
      · exact hl
    have hmax : ∃ q ∈ loads f, acc.maxEnd = q.pVaddr + q.pMemsz := by
      rcases hinv.greatest with hg | hg
      · refine ⟨p₀, hp₀, ?_⟩
        have hup := hinv.upper p₀ hp₀
        bv_omega
      · exact hg
    obtain ⟨p, hp, hpmin⟩ := hmin
    obtain ⟨q, hq, hqmax⟩ := hmax
    refine ⟨p, hp, q, hq, ?_⟩
    rw [← hpmin, ← hqmax]
    bv_omega

theorem prepare_of_passesChecks {f : FileView} (h : PassesChecks f) :
    ∃ plan, elfPrepareLoadPlanFromVfs (some f) = some plan := by
  have hchk : ∀ p ∈ f.phdrs, p.pType = ptLoad →
      p.pFilesz ≤ p.pMemsz ∧ p.pOffset + p.pFilesz ≤ f.size := by
    intro p hp hload
    exact h.segments p (List.mem_filter.mpr ⟨hp, by simpa using hload⟩)
  obtain ⟨acc, hscan⟩ := (scanInv_init f.size).exists_run f.phdrs hchk h.count.2
  have hinv := (scanInv_init f.size).run f.phdrs hscan
  rw [List.nil_append] at hinv
  obtain ⟨p, hp, q, hq, hpq⟩ := h.nonempty
  have hsegs : acc.segments ≠ [] := by
    rw [hinv.segs]
    exact List.ne_nil_of_mem (List.mem_map_of_mem hp)
  have hlow := hinv.lower p hp
  have hup := hinv.upper q hq
  have hmin : elfUserImageBase ≤ acc.minVaddr := by
    rcases hinv.least with hl | ⟨r, hr, hl⟩
    · rw [hl]
      decide
    · rw [hl]
      exact h.lower r hr
  have hmax : acc.maxEnd ≤ elfUserImageBase + BitVec.ofNat 32 elfUserImageMax := by
    rcases hinv.greatest with hg | ⟨r, hr, hg⟩
    · rw [hg]
      decide
    · rw [hg]
      exact h.upper r hr
  simp only [elfPrepareLoadPlanFromVfs]
  rw [if_pos h.header]
  simp only [planScan, hscan]
  rw [if_neg, if_neg, if_neg]
  · exact ⟨_, rfl⟩
  · simp only [elfUserImageBase, elfUserImageMax] at *
    bv_omega
  · simp only [elfUserImageBase, elfUserImageMax] at *
    bv_omega
  · rw [not_or]
    exact ⟨hsegs, by bv_omega⟩

/-! ## Loading -/

/-- A load that touches only what `ok` segments allow touches nothing else. -/
theorem loadSegments_safe {f : FileView} (segs : List ExecSegment) (m : ByteMem.Mem)
    (tr : LoadTrace) (htr : TraceSafe f tr)
    (hfile : ∀ seg ∈ segs, seg.fileOffset.toNat + seg.fileSize.toNat ≤ f.size.toNat)
    (hwin : ∀ seg ∈ segs, elfUserImageBase.toNat ≤ seg.vaddr.toNat ∧
      seg.vaddr.toNat + seg.fileSize.toNat ≤ elfUserImageBase.toNat + elfUserImageMax) :
    TraceSafe f (loadSegments f m tr segs).2.2 := by
  induction segs generalizing m tr with
  | nil => exact htr
  | cons seg segs ih =>
      rw [loadSegments]
      split
      · exact htr
      apply ih
      · have hf := hfile seg List.mem_cons_self
        have hw := hwin seg List.mem_cons_self
        constructor
        · intro sp hsp
          rcases List.mem_append.mp hsp with hsp | hsp
          · exact htr.writes sp hsp
          · rw [List.mem_singleton.mp hsp]
            intro j hj
            unfold ByteMem.InRange
            simp only [elfUserImageBase, elfUserImageMax] at *
            bv_omega
        · intro sp hsp
          rcases List.mem_append.mp hsp with hsp | hsp
          · exact htr.reads sp hsp
          · rw [List.mem_singleton.mp hsp]
            intro j hj
            dsimp only at hj ⊢
            bv_omega
      · exact fun s hs => hfile s (List.mem_cons_of_mem seg hs)
      · exact fun s hs => hwin s (List.mem_cons_of_mem seg hs)

theorem traceSafe_zeroed (f : FileView) :
    TraceSafe f ⟨[⟨elfUserImageBase, elfUserImageMax⟩], []⟩ where
  writes := by
    intro sp hsp
    rw [List.mem_singleton.mp hsp]
    intro j hj
    exact ByteMem.inRange_add (by decide) hj
  reads := by simp

theorem traceSafe_nil (f : FileView) : TraceSafe f ⟨[], []⟩ where
  writes := by simp
  reads := by simp

theorem elfLoadFromPlan_safe {f : FileView} {plan : ExecLoadPlan} (h : PlanSafe f plan)
    (mach : Machine) (c : Core) (pid : Int) :
    TraceSafe f (elfLoadFromPlan mach c pid plan f).trace := by
  have hsegs : ∀ c' : Core, TraceSafe f
      (loadSegments f (zeroWindow c'.mem) ⟨[⟨elfUserImageBase, elfUserImageMax⟩], []⟩
        plan.segments).2.2 := by
    intro c'
    apply loadSegments_safe _ _ _ (traceSafe_zeroed f) h.fileRange
    intro seg hseg
    have hw := h.window seg hseg
    have hs := h.sizes seg hseg
    omega
  unfold elfLoadFromPlan
  split
  · exact traceSafe_nil f
  split
  · exact traceSafe_nil f
  split
  · exact traceSafe_nil f
  · rename_i slot c' _
    have hc := hsegs c'
    dsimp only
    split
    · rename_i m tr heq
      rw [heq] at hc
      exact hc
    · rename_i m tr heq
      rw [heq] at hc
      exact hc

/-! ## The main result -/

theorem planSafe_of_noWrap {f : FileView} {plan : ExecLoadPlan} (hpass : PassesChecks f)
    (hsegs : plan.segments = (loads f).map segmentOf) (hwrap : NoWrap f) :
    PlanSafe f plan := by
  have hmem : ∀ seg ∈ plan.segments, ∃ p ∈ loads f, segmentOf p = seg := by
    intro seg hseg
    rw [hsegs] at hseg
    exact List.mem_map.mp hseg
  refine ⟨table_inside hpass.header hwrap.table, ?_, ?_, ?_⟩
  · intro seg hseg
    obtain ⟨p, hp, rfl⟩ := hmem seg hseg
    have hchk := (hpass.segments p hp).2
    have hw := hwrap.fileRange p hp
    simp only [segmentOf]
    bv_omega
  · intro seg hseg
    obtain ⟨p, hp, rfl⟩ := hmem seg hseg
    exact BitVec.le_def.mp (hpass.segments p hp).1
  · intro seg hseg
    obtain ⟨p, hp, rfl⟩ := hmem seg hseg
    have hlow := hpass.lower p hp
    have hup := hpass.upper p hp
    have hw := hwrap.window p hp
    simp only [segmentOf, elfUserImageBase, elfUserImageMax] at *
    constructor <;> bv_omega

theorem noWrap_of_planSafe {f : FileView} {plan : ExecLoadPlan}
    (hsegs : plan.segments = (loads f).map segmentOf) (h : PlanSafe f plan) : NoWrap f := by
  have hmem : ∀ p ∈ loads f, segmentOf p ∈ plan.segments := by
    intro p hp
    rw [hsegs]
    exact List.mem_map_of_mem hp
  refine ⟨?_, ?_, ?_⟩
  · have ht := h.table
    have hsize := f.size.isLt
    omega
  · intro p hp
    have hf := h.fileRange _ (hmem p hp)
    have hsize := f.size.isLt
    simp only [segmentOf] at hf
    omega
  · intro p hp
    have hw := (h.window _ (hmem p hp)).2
    simp only [segmentOf, elfUserImageBase_toNat, elfUserImageMax_eq] at hw
    omega

/-- A file loads within its bounds iff, should it pass the loader's 32-bit
checks, none of the sums those checks form has wrapped. -/
theorem loadSafe_iff (f : FileView) : LoadSafe f ↔ (PassesChecks f → NoWrap f) := by
  constructor
  · intro hsafe hpass
    obtain ⟨plan, hplan⟩ := prepare_of_passesChecks hpass
    exact noWrap_of_planSafe (passesChecks_of_prepare hplan).2 (hsafe plan hplan).1
  · intro hwrap plan hplan
    obtain ⟨hpass, hsegs⟩ := passesChecks_of_prepare hplan
    have hplanSafe := planSafe_of_noWrap hpass hsegs (hwrap hpass)
    exact ⟨hplanSafe, elfLoadFromPlan_safe hplanSafe⟩

/-! ## A file that wraps

Two segments: an ordinary one at the window's base, and one at `0xFFFFF000`
whose end wraps to 0.  The first hides the second from the minimum and maximum.
-/

def wrapFileWords : List U32 :=
  [0x464C457F, 0x00010101, 0, 0, 0x00030002, 1, 0x00300000, 52, 0, 0, 0x00200034, 2, 0,
    1, 0, 0x00300000, 0, 116, 0x1000, 5, 0,
    1, 0, 0xFFFFF000, 0, 16, 0x1000, 6, 0]

def wrapFile : FileView :=
  FileView.ofBytes (fun _ => 0)
    (wrapFileWords.flatMap fun w => (List.range 4).map (ByteMem.byteOf w))

def wrapPlan : ExecLoadPlan where
  valid := true
  entry := 0x00300000
  imageBase := 0x00300000
  imageSize := 0x1000
  segments := [⟨0, 116, 0x1000, 0x00300000, 5⟩, ⟨0, 16, 0x1000, 0xFFFFF000, 6⟩]

/-- The file is accepted, and its second segment lies outside the window. -/
theorem wrapFile_not_loadSafe : ¬LoadSafe wrapFile := by
  intro h
  have hplan : elfPrepareLoadPlanFromVfs (some wrapFile) = some wrapPlan := by
    decide +kernel
  have hwindow := (h wrapPlan hplan).1.window ⟨0, 16, 0x1000, 0xFFFFF000, 6⟩ (by decide)
  exact absurd hwindow.2 (by decide)

end SlopOS.Proofs.ElfBounds
