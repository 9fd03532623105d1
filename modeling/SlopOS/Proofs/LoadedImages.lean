import Mathlib.Data.List.Induction
import Mathlib.Order.Bounds.Basic
import SlopOS.Proofs.Loader
import SlopOS.Proofs.TreeRuns
/-!
# What is in the window after a load

The plan lists the `PT_LOAD` headers, and the segments are copied in its order
over a window of zeros.  So the last segment whose file part covers an address
gives its byte, and an address that none covers is zero.
-/

namespace SlopOS.Proofs.LoadedImages

open SlopOS.Support SlopOS.Kernel
open SlopOS.Proofs.ElfBounds SlopOS.Proofs.Loader

variable {f : FileView} {plan : ExecLoadPlan} {seg : ExecSegment} {segs : List ExecSegment}
variable {m : ByteMem.Mem} {tr : LoadTrace} {a : U32} {mach : Machine} {c : Core} {pid : Int}

/-! ## The abstract contents -/

def Covers (seg : ExecSegment) (a : U32) : Prop :=
  ByteMem.InRange seg.vaddr seg.fileSize.toNat a

instance Covers.decidable (seg : ExecSegment) (a : U32) : Decidable (Covers seg a) :=
  inferInstanceAs (Decidable (ByteMem.InRange _ _ _))

/-- The last listed segment that covers the address. -/
def lastCovering (segs : List ExecSegment) (a : U32) : Option ExecSegment :=
  segs.reverse.find? fun seg => decide (Covers seg a)

/-- The index in the file, in exact arithmetic, of the byte that the segment has at `a`. -/
def fileIndex (seg : ExecSegment) (a : U32) : Nat :=
  seg.fileOffset.toNat + (a.toNat - seg.vaddr.toNat)

/-- The byte that the segments give an address over the memory `m`. -/
def layered (f : FileView) (m : ByteMem.Mem) (segs : List ExecSegment) (a : U32) : U8 :=
  match lastCovering segs a with
  | some seg => f.byte (BitVec.ofNat 32 (fileIndex seg a))
  | none => m a

/-- The segments lie, in exact arithmetic, inside the file and inside the reserved region. -/
structure ExactSegments (f : FileView) : Prop where
  inFile : ∀ p ∈ loads f, p.pOffset.toNat + p.pFilesz.toNat ≤ f.size.toNat
  inWindow : ∀ p ∈ loads f, elfUserImageBase.toNat ≤ p.pVaddr.toNat ∧
    p.pVaddr.toNat + p.pMemsz.toNat ≤ elfUserImageBase.toNat + elfUserImageMax

/-! ## Copying -/

theorem lastCovering_concat (segs : List ExecSegment) (seg : ExecSegment) (a : U32) :
    lastCovering (segs ++ [seg]) a = if Covers seg a then some seg else lastCovering segs a := by
  unfold lastCovering
  rw [List.reverse_append, List.reverse_singleton, List.singleton_append, List.find?_cons]
  by_cases h : Covers seg a
  · rw [if_pos h, decide_eq_true h]
  · rw [if_neg h, decide_eq_false h]

theorem copySegment_apply (hend : seg.vaddr.toNat + seg.fileSize.toNat ≤ 2 ^ 32) :
    copySegment f m seg a =
      if Covers seg a then f.byte (BitVec.ofNat 32 (fileIndex seg a)) else m a := by
  unfold copySegment
  by_cases hcovers : Covers seg a
  · have hin : seg.vaddr.toNat ≤ a.toNat ∧ a.toNat < seg.vaddr.toNat + seg.fileSize.toNat := hcovers
    have haddr : a = seg.vaddr + BitVec.ofNat 32 (a.toNat - seg.vaddr.toNat) := by
      bv_omega
    have hindex : seg.fileOffset + BitVec.ofNat 32 (a.toNat - seg.vaddr.toNat) =
        BitVec.ofNat 32 (fileIndex seg a) := by
      unfold fileIndex
      bv_omega
    have hstore := @ByteMem.store_apply_add m seg.vaddr seg.fileSize.toNat
      (a.toNat - seg.vaddr.toNat) (fun j => f.byte (seg.fileOffset + BitVec.ofNat 32 j))
      (by omega) (by omega)
    rw [← haddr] at hstore
    rw [if_pos hcovers, hstore, hindex]
  · rw [if_neg hcovers]
    exact ByteMem.store_of_not_inRange hend hcovers

theorem copied_eq_layered (f : FileView) (m : ByteMem.Mem) (segs : List ExecSegment)
    (hends : ∀ seg ∈ segs, seg.vaddr.toNat + seg.fileSize.toNat ≤ 2 ^ 32) :
    segs.foldl (copySegment f) m = layered f m segs := by
  induction segs using List.reverseRecOn with
  | nil => rfl
  | append_singleton segs seg ih =>
      have hlast := hends seg (List.mem_append_right _ List.mem_cons_self)
      rw [List.foldl_append, List.foldl_cons, List.foldl_nil, ih fun s hs => hends s (List.mem_append_left _ hs)]
      funext a
      rw [copySegment_apply hlast]
      unfold layered
      rw [lastCovering_concat]
      by_cases h : Covers seg a
      · rw [if_pos h, if_pos h]
      · rw [if_neg h, if_neg h]

theorem loadSegments_mem (h : (loadSegments f m tr segs).1 = true) :
    (loadSegments f m tr segs).2.1 = segs.foldl (copySegment f) m := by
  induction segs generalizing m tr with
  | nil => rfl
  | cons seg segs ih =>
      rw [loadSegments] at h ⊢
      by_cases hfile : f.size < seg.fileOffset + seg.fileSize
      · rw [if_pos hfile] at h
        cases h
      · rw [if_neg hfile] at h ⊢
        exact ih h

theorem zeroWindow_eq_memZero (m : ByteMem.Mem) :
    zeroWindow m = memZero m elfUserImageBase elfUserImageMax :=
  (memZero_eq m elfUserImageBase elfUserImageMax (by decide)).symm

theorem zeroWindow_apply (ha : InWindow a) : zeroWindow m a = 0 := by
  have hlt := (ByteMem.sub_lt_iff_inRange (by decide)).mpr ha
  unfold zeroWindow ByteMem.store
  rw [if_pos hlt]

theorem elfSlotForPid_mem (c : Core) (pid : Int) : (elfSlotForPid c pid).2.mem = c.mem := by
  obtain ⟨elf, h⟩ := Mail.elfSlotForPid_core c pid
  rw [h]

/-! ## The trace of a load -/

theorem loadSegments_extends (f : FileView) (segs : List ExecSegment) (m : ByteMem.Mem)
    (tr : LoadTrace) :
    tr.writes ⊆ (loadSegments f m tr segs).2.2.writes ∧
      tr.reads ⊆ (loadSegments f m tr segs).2.2.reads := by
  induction segs generalizing m tr with
  | nil => exact ⟨fun _ h => h, fun _ h => h⟩
  | cons seg segs ih =>
      rw [loadSegments]
      split
      · exact ⟨fun _ h => h, fun _ h => h⟩
      obtain ⟨hwrites, hreads⟩ := ih (copySegment f m seg)
        ⟨tr.writes ++ [⟨seg.vaddr, seg.fileSize.toNat⟩],
          tr.reads ++ [⟨seg.fileOffset, seg.fileSize.toNat⟩]⟩
      exact ⟨List.Subset.trans (List.subset_append_left _ _) hwrites,
        List.Subset.trans (List.subset_append_left _ _) hreads⟩

/-- The segment loop changes only what its trace writes, and needs only what it reads. -/
theorem loadSegments_traced {f g : FileView} (segs : List ExecSegment) (m : ByteMem.Mem)
    (tr : LoadTrace) :
    SameOutside (ByteMem.Covered (loadSegments f m tr segs).2.2.writes) m
        (loadSegments f m tr segs).2.1 ∧
      (g.size = f.size →
        (∀ sp ∈ (loadSegments f m tr segs).2.2.reads, sp.All fun i => g.byte i = f.byte i) →
          loadSegments g m tr segs = loadSegments f m tr segs) := by
  induction segs generalizing m tr with
  | nil => exact ⟨SameOutside.refl _ m, fun _ _ => rfl⟩
  | cons seg segs ih =>
      rw [loadSegments, loadSegments]
      split
      · rename_i hpast
        refine ⟨SameOutside.refl _ m, fun hsize _ => ?_⟩
        rw [hsize, if_pos hpast]
      rename_i hinside
      obtain ⟨hwrites, hreads⟩ := loadSegments_extends f segs (copySegment f m seg)
        ⟨tr.writes ++ [⟨seg.vaddr, seg.fileSize.toNat⟩],
          tr.reads ++ [⟨seg.fileOffset, seg.fileSize.toNat⟩]⟩
      obtain ⟨hframe, hsame⟩ := ih (copySegment f m seg)
        ⟨tr.writes ++ [⟨seg.vaddr, seg.fileSize.toNat⟩],
          tr.reads ++ [⟨seg.fileOffset, seg.fileSize.toNat⟩]⟩
      refine ⟨?_, fun hsize hbytes => ?_⟩
      · refine SameOutside.trans (fun a ha => ?_) hframe
        have hmem := hwrites (List.mem_append_right tr.writes List.mem_cons_self)
        exact ByteMem.store_uncovered hmem ha
      · have hmem := hreads (List.mem_append_right tr.reads List.mem_cons_self)
        have hcopy : copySegment g m seg = copySegment f m seg :=
          ByteMem.store_congr fun j hj => hbytes _ hmem j hj
        rw [hsize, if_neg hinside, hcopy]
        exact hsame hsize hbytes

/-- A load writes nothing outside the writes of its trace, and a file of the same size
with the same bytes where the trace reads is loaded alike. -/
theorem elfLoadFromPlan_traced (mach : Machine) (c : Core) (pid : Int) (plan : ExecLoadPlan)
    (f g : FileView) :
    SameOutside (ByteMem.Covered (elfLoadFromPlan mach c pid plan f).trace.writes) c.mem
        (elfLoadFromPlan mach c pid plan f).core.mem ∧
      (g.size = f.size →
        (∀ sp ∈ (elfLoadFromPlan mach c pid plan f).trace.reads,
          sp.All fun i => g.byte i = f.byte i) →
            elfLoadFromPlan mach c pid plan g = elfLoadFromPlan mach c pid plan f) := by
  unfold elfLoadFromPlan
  split
  · exact ⟨SameOutside.refl _ _, fun _ _ => rfl⟩
  split
  · exact ⟨SameOutside.refl _ _, fun _ _ => rfl⟩
  have hmem := elfSlotForPid_mem c pid
  split
  · rename_i c' heq
    rw [heq] at hmem
    exact ⟨fun a _ => congrFun hmem a, fun _ _ => rfl⟩
  rename_i slot c' heq
  rw [heq] at hmem
  dsimp only
  obtain ⟨hwrites, -⟩ := loadSegments_extends f plan.segments (zeroWindow c'.mem)
    ⟨[⟨elfUserImageBase, elfUserImageMax⟩], []⟩
  obtain ⟨hframe, hsame⟩ := @loadSegments_traced f g plan.segments (zeroWindow c'.mem)
    ⟨[⟨elfUserImageBase, elfUserImageMax⟩], []⟩
  have hzeroed := hwrites List.mem_cons_self
  generalize hload : loadSegments f (zeroWindow c'.mem) ⟨[⟨elfUserImageBase, elfUserImageMax⟩], []⟩
    plan.segments = loaded at hzeroed hframe hsame ⊢
  obtain ⟨ok, m, tr⟩ := loaded
  have hchanged : SameOutside (ByteMem.Covered tr.writes) c.mem m := by
    refine SameOutside.trans (fun a ha => ?_) hframe
    rw [← hmem]
    exact ByteMem.store_uncovered hzeroed ha
  cases ok with
  | false =>
      refine ⟨hchanged, fun hsize hbytes => ?_⟩
      rw [hsame hsize hbytes]
  | true =>
      refine ⟨hchanged, fun hsize hbytes => ?_⟩
      rw [hsame hsize hbytes]

/-! ## The image -/

theorem elfLoadFromPlan_mem {image : ProcImage}
    (h : (elfLoadFromPlan mach c pid plan f).image = some image) :
    (elfLoadFromPlan mach c pid plan f).core.mem =
        plan.segments.foldl (copySegment f) (zeroWindow c.mem) ∧
      image.imageBase = plan.imageBase ∧ image.imageSize = plan.imageSize := by
  unfold elfLoadFromPlan at h ⊢
  split_ifs at h ⊢
  have hkept := elfSlotForPid_mem c pid
  rcases hslot : elfSlotForPid c pid with ⟨slot, c'⟩
  rw [hslot] at h hkept
  have hmem : c'.mem = c.mem := hkept
  cases slot with
  | none => cases h
  | some slot =>
      dsimp only at h ⊢
      have hloop := @loadSegments_mem f plan.segments (zeroWindow c'.mem)
        ⟨[⟨elfUserImageBase, elfUserImageMax⟩], []⟩
      rcases hload : loadSegments f (zeroWindow c'.mem) ⟨[⟨elfUserImageBase, elfUserImageMax⟩], []⟩
        plan.segments with ⟨ok, m, tr⟩
      rw [hload] at h hloop
      cases ok with
      | false => cases h
      | true =>
          rw [← Option.some.inj h, ← hmem]
          exact ⟨hloop rfl, rfl, rfl⟩

/-! ## The plan -/

theorem plan_bounds (h : elfPrepareLoadPlanFromVfs (some f) = some plan) :
    ∃ acc, ScanInv f.size (loads f) acc ∧ acc.minVaddr < acc.maxEnd ∧
      acc.maxEnd ≤ elfUserImageBase + BitVec.ofNat 32 elfUserImageMax ∧
      plan.segments = (loads f).map segmentOf ∧ plan.imageBase = acc.minVaddr ∧
      plan.imageSize = acc.maxEnd - acc.minVaddr := by
  simp only [elfPrepareLoadPlanFromVfs] at h
  split at h
  case isFalse => cases h
  split at h
  case h_1 => cases h
  rename_i acc hscan
  have hinv := (scanInv_init f.size).run f.phdrs hscan
  rw [List.nil_append] at hinv
  split at h
  case isTrue => cases h
  rename_i hsome
  split at h
  case isTrue => cases h
  rename_i hbounds
  split at h
  case isTrue => cases h
  obtain rfl := Option.some.inj h
  rw [not_or] at hsome hbounds
  refine ⟨acc, hinv, ?_, ?_, hinv.segs, rfl, rfl⟩
  · exact BitVec.not_le.mp hsome.2
  · exact BitVec.not_lt.mp hbounds.2

/-- The least address and the greatest end of the segments are where the image lies. -/
theorem plan_extent (h : elfPrepareLoadPlanFromVfs (some f) = some plan) (hexact : ExactSegments f) :
    IsLeast { v | ∃ p ∈ loads f, v = p.pVaddr.toNat } plan.imageBase.toNat ∧
      IsGreatest { v | ∃ p ∈ loads f, v = p.pVaddr.toNat + p.pMemsz.toNat }
        (plan.imageBase.toNat + plan.imageSize.toNat) := by
  obtain ⟨acc, hinv, hlt, htop, -, hbase, hsize⟩ := plan_bounds h
  have hend : ∀ p ∈ loads f, (p.pVaddr + p.pMemsz).toNat = p.pVaddr.toNat + p.pMemsz.toNat := by
    intro p hp
    have hwin := (hexact.inWindow p hp).2
    simp only [elfUserImageBase, elfUserImageMax] at hwin
    bv_omega
  have htotal : plan.imageBase.toNat + plan.imageSize.toNat = acc.maxEnd.toNat := by
    rw [hbase, hsize]
    bv_omega
  simp only [elfUserImageBase, elfUserImageMax] at htop
  rw [htotal, hbase]
  refine ⟨⟨?_, ?_⟩, ⟨?_, ?_⟩⟩
  · rcases hinv.least with hleast | ⟨p, hp, hleast⟩
    · rw [hleast] at hlt
      exfalso
      bv_omega
    · exact ⟨p, hp, congrArg BitVec.toNat hleast⟩
  · rintro v ⟨p, hp, rfl⟩
    exact BitVec.le_def.mp (hinv.lower p hp)
  · rcases hinv.greatest with hgreatest | ⟨p, hp, hgreatest⟩
    · rw [hgreatest] at hlt
      exfalso
      bv_omega
    · refine ⟨p, hp, ?_⟩
      rw [hgreatest, hend p hp]
  · rintro v ⟨p, hp, rfl⟩
    rw [← hend p hp]
    exact BitVec.le_def.mp (hinv.upper p hp)

/-! ## Loading -/

/-- What planning and loading a file come to. -/
structure LoadsFile (f : FileView) (plan : ExecLoadPlan) (m : ByteMem.Mem) : Prop where
  segments : plan.segments = (loads f).map segmentOf
  base : IsLeast { v | ∃ p ∈ loads f, v = p.pVaddr.toNat } plan.imageBase.toNat
  stop : IsGreatest { v | ∃ p ∈ loads f, v = p.pVaddr.toNat + p.pMemsz.toNat }
    (plan.imageBase.toNat + plan.imageSize.toNat)
  bytes : ∀ a, InWindow a → m a = layered f (fun _ => 0) plan.segments a
  inFile : ∀ a seg, lastCovering plan.segments a = some seg → fileIndex seg a < f.size.toNat

theorem loadsFile (hplan : elfPrepareLoadPlanFromVfs (some f) = some plan)
    (hexact : ExactSegments f) {image : ProcImage}
    (hload : (elfLoadFromPlan mach c pid plan f).image = some image) :
    LoadsFile f plan (elfLoadFromPlan mach c pid plan f).core.mem := by
  obtain ⟨hpass, hsegs⟩ := passesChecks_of_prepare hplan
  obtain ⟨hleast, hgreatest⟩ := plan_extent hplan hexact
  have hseg : ∀ seg ∈ plan.segments, ∃ p ∈ loads f, segmentOf p = seg := by
    intro seg hmem
    rw [hsegs] at hmem
    exact List.mem_map.mp hmem
  refine ⟨hsegs, hleast, hgreatest, fun a ha => ?_, fun a seg hfound => ?_⟩
  · have hends : ∀ seg ∈ plan.segments, seg.vaddr.toNat + seg.fileSize.toNat ≤ 2 ^ 32 := by
      intro seg hmem
      obtain ⟨p, hp, rfl⟩ := hseg seg hmem
      have hwin := (hexact.inWindow p hp).2
      have hsizes := BitVec.le_def.mp (hpass.segments p hp).1
      have htop : elfUserImageBase.toNat + elfUserImageMax ≤ 2 ^ 32 := by decide
      show p.pVaddr.toNat + p.pFilesz.toNat ≤ 2 ^ 32
      omega
    rw [(elfLoadFromPlan_mem hload).1, copied_eq_layered f _ _ hends]
    unfold layered
    cases lastCovering plan.segments a with
    | some seg => rfl
    | none => exact zeroWindow_apply ha
  · have hmem : seg ∈ plan.segments := List.mem_reverse.mp (List.mem_of_find?_eq_some hfound)
    have hfind : plan.segments.reverse.find? (fun seg => decide (Covers seg a)) = some seg := hfound
    have hdecided := List.find?_some hfind
    have hcovers : Covers seg a := of_decide_eq_true hdecided
    obtain ⟨p, hp, rfl⟩ := hseg _ hmem
    have hfile := hexact.inFile p hp
    have hlow : p.pVaddr.toNat ≤ a.toNat := hcovers.1
    have hhigh : a.toNat < p.pVaddr.toNat + p.pFilesz.toNat := hcovers.2
    show p.pOffset.toNat + (a.toNat - p.pVaddr.toNat) < f.size.toNat
    omega

/-- A program of two segments; the second lies over the first one's bytes from 32 to 47. -/
def overlapFile : FileView :=
  FileView.ofBytes (fun _ => 0) ([0x464C457F, 0x00010101, 0, 0, 0x00030002, 1, 0x00300000, 52, 0, 0,
    0x00200034, 2, 0, 1, 0, 0x00300000, 0, 116, 0x1000, 5, 0, 1, 64, 0x00300020, 0, 16, 0x2000, 6, 0
    ].flatMap fun w : U32 => (List.range 4).map (ByteMem.byteOf w))

def overlapPlan : ExecLoadPlan where
  valid := true
  entry := 0x00300000
  imageBase := 0x00300000
  imageSize := 0x2020
  segments := [⟨0, 116, 0x1000, 0x00300000, 5⟩, ⟨64, 16, 0x2000, 0x00300020, 6⟩]

theorem loadsFile_overlap : elfPrepareLoadPlanFromVfs (some overlapFile) = some overlapPlan ∧
    LoadsFile overlapFile overlapPlan (elfLoadFromPlan TreeRuns.plainMach
      (coreInit TreeRuns.plainMach) 1 overlapPlan overlapFile).core.mem := by
  have hplan : elfPrepareLoadPlanFromVfs (some overlapFile) = some overlapPlan := by
    decide +kernel
  have hexact : ExactSegments overlapFile := ⟨by decide +kernel, by decide +kernel⟩
  have hload : (elfLoadFromPlan TreeRuns.plainMach (coreInit TreeRuns.plainMach) 1 overlapPlan
      overlapFile).image.isSome := by decide +kernel
  obtain ⟨image, himage⟩ := Option.isSome_iff_exists.mp hload
  exact ⟨hplan, loadsFile hplan hexact himage⟩

end SlopOS.Proofs.LoadedImages
