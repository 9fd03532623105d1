import SlopOS.Kernel.Contents
import SlopOS.Proofs.DiscFiles
import SlopOS.Proofs.HeapUse
import SlopOS.Support.ByteCopy
import SlopOS.Support.Placement
/-!
# Contents lie where the pointers say

`KState` has the contents of files and buffers by value.  `Laid` says that the
same bytes lie in memory where the pointers of the code point to, although
descriptors and files share blocks: a block that is shared is never written
again, and a buffer that is written is nobody else's.
-/

namespace SlopOS.Proofs.PlacedFiles

open SlopOS.Support SlopOS.Support.Placement SlopOS.Kernel
open SlopOS.Proofs.HeapUse SlopOS.Proofs.FileTree SlopOS.Proofs.FilePaths SlopOS.Proofs.FileEdits
open SlopOS.Proofs.FileCalls SlopOS.Proofs.FileCursor SlopOS.Proofs.FileSessions SlopOS.Proofs.FileSteps
open SlopOS.Proofs.TreeRuns
open SlopOS.Proofs.SystemCalls SlopOS.Proofs.FileWrites

/-! ## The invariant -/

def nodeByte (n : VfsNode) (i : Nat) : U8 := (n.data.getD []).getD i 0

/-- Nodes and descriptors without a buffer look at their blocks, buffers are owned. -/
def placement (p : Placed) : Placement (NodeId ⊕ Fin fdMax) (Fin fdMax) where
  mark := p.k.files.fs.heap.current.toNat
  shown
    | .inl n =>
      if n < p.k.files.fs.tree.count then
        blockAt (p.ptrs.node n) (p.k.files.fs.tree.node n).size.toNat
      else .empty
    | .inr s =>
      if p.ptrs.writeBuf s = 0 then blockAt (p.ptrs.data s) (p.k.files.fds s).size.toNat
      else .empty
  owned s :=
    if p.ptrs.writeBuf s = 0 then .empty
    else blockAt (p.ptrs.writeBuf s) (p.k.files.fds s).writeCapacity.toNat

/-- What the code keeps true of an entry with this `write_buf` pointer. -/
structure EntryOk (writeBuf : U32) (e : FdEntry) : Prop where
  buffered : writeBuf = 0 ↔ e.writeBuf = none
  room : e.writeBuf.isSome → e.writeSize.toNat < e.writeCapacity.toNat
  offset : e.offset.toNat ≤ (fdSize e).toNat
  writable : e.writable = true → e.writeBuf.isSome

structure Laid (p : Placed) : Prop where
  heap : HeapFine p.k.files.fs.heap
  sound : (placement p).Sound
  nodes : ∀ n < p.k.files.fs.tree.count, Holds p.ptrs.ram (p.ptrs.node n)
    (p.k.files.fs.tree.node n).size.toNat (nodeByte (p.k.files.fs.tree.node n))
  views : ∀ s, Holds p.ptrs.ram (p.ptrs.view s) (fdSize (p.k.files.fds s)).toNat
    (byteAt (p.k.files.fds s))
  entries : ∀ s, EntryOk (p.ptrs.writeBuf s) (p.k.files.fds s)

variable {p p' : Placed} {n : NodeId} {s slot : Fin fdMax} {S : Fin fdMax → Prop} {shows : Bool}

/-- A node after a step: as before, without contents, or with a block of its own. -/
inductive NodeMoves (shows : Bool) (p p' : Placed) (n : NodeId) : Prop
  | same : n < p.k.files.fs.tree.count → p'.ptrs.node n = p.ptrs.node n →
      (p'.k.files.fs.tree.node n).size = (p.k.files.fs.tree.node n).size →
      (p'.k.files.fs.tree.node n).data = (p.k.files.fs.tree.node n).data → NodeMoves shows p p' n
  | blank : (p'.k.files.fs.tree.node n).size = 0 → NodeMoves shows p p' n
  | filled : shows = true →
      (blockAt (p'.ptrs.node n) (p'.k.files.fs.tree.node n).size.toNat).Within (placement p).mark
        (placement p').mark →
      Holds p'.ptrs.ram (p'.ptrs.node n) (p'.k.files.fs.tree.node n).size.toNat
        (nodeByte (p'.k.files.fs.tree.node n)) → NodeMoves shows p p' n

/-- A descriptor after a step: as before but for its offset, reset, looking at a block, or writing
its own. -/
inductive SlotMoves (S : Fin fdMax → Prop) (shows : Bool) (slot : Fin fdMax) (p p' : Placed)
    (s : Fin fdMax) : Prop
  | same (offset : U32) : ¬S s → p'.ptrs.data s = p.ptrs.data s →
      p'.ptrs.writeBuf s = p.ptrs.writeBuf s →
      p'.k.files.fds s = { p.k.files.fds s with offset := offset } →
      offset.toNat ≤ (fdSize (p.k.files.fds s)).toNat → SlotMoves S shows slot p p' s
  | closed : p'.ptrs.writeBuf s = 0 → p'.k.files.fds s = emptyFd → SlotMoves S shows slot p p' s
  | looks : p'.ptrs.writeBuf s = 0 → EntryOk 0 (p'.k.files.fds s) →
      ((placement p).Seen (blockAt (p'.ptrs.data s) (p'.k.files.fds s).size.toNat) ∨ shows = true ∧
        (blockAt (p'.ptrs.data s) (p'.k.files.fds s).size.toNat).Within (placement p).mark
          (placement p').mark) →
      Holds p'.ptrs.ram (p'.ptrs.data s) (p'.k.files.fds s).size.toNat (byteAt (p'.k.files.fds s)) →
      SlotMoves S shows slot p p' s
  | writes : EntryOk (p'.ptrs.writeBuf s) (p'.k.files.fds s) → p'.ptrs.writeBuf s ≠ 0 →
      (placement p').owned s = (placement p).owned s ∨ s = slot ∧ shows = false ∧
        ((placement p').owned s).Within (placement p).mark (placement p').mark →
      Holds p'.ptrs.ram (p'.ptrs.writeBuf s) (p'.k.files.fds s).writeSize.toNat
        (byteAt (p'.k.files.fds s)) → SlotMoves S shows slot p p' s

theorem EntryOk.fdSize_eq {e : FdEntry} {w : U32} (h : EntryOk w e) :
    fdSize e = if w = 0 then e.size else e.writeSize := by
  unfold fdSize
  by_cases hw : w = 0
  · rw [if_pos hw, h.buffered.mp hw]
    rfl
  · have hsome : e.writeBuf.isSome = true := by
      rw [Option.isSome_iff_ne_none]
      exact fun hnone => hw (h.buffered.mpr hnone)
    rw [if_neg hw, if_pos hsome]

theorem view_block (h : EntryOk (p.ptrs.writeBuf s) (p.k.files.fds s)) (hl : (placement p).Sound) :
    (blockAt (p.ptrs.view s) (fdSize (p.k.files.fds s)).toNat).stop ≤ (placement p).mark ∧
      ∀ b, b ≠ s → ((placement p).owned b).Apart
        (blockAt (p.ptrs.view s) (fdSize (p.k.files.fds s)).toNat) := by
  rw [h.fdSize_eq]
  unfold Pointers.view
  by_cases hw : p.ptrs.writeBuf s = 0
  · have hshown : (placement p).shown (.inr s) =
        blockAt (p.ptrs.data s) (p.k.files.fds s).size.toNat := if_pos hw
    rw [if_pos hw, if_pos hw, ← hshown]
    exact ⟨hl.shown_le _, fun b _ => hl.apart b _⟩
  · have howned : (placement p).owned s =
        blockAt (p.ptrs.writeBuf s) (p.k.files.fds s).writeCapacity.toNat := if_neg hw
    have hsome : (p.k.files.fds s).writeBuf.isSome := by
      rw [Option.isSome_iff_ne_none]
      exact fun hnone => hw (h.buffered.mpr hnone)
    have hroom := h.room hsome
    have hle := hl.owned_le s
    have hapart := fun b (hb : b ≠ s) => hl.alone b s hb
    rw [if_neg hw, if_neg hw]
    rw [howned] at hle hapart
    have hcap : blockAt (p.ptrs.writeBuf s) (p.k.files.fds s).writeCapacity.toNat =
        ⟨(p.ptrs.writeBuf s).toNat, (p.k.files.fds s).writeCapacity.toNat⟩ := if_neg (by omega)
    rw [hcap] at hle hapart
    by_cases hzero : (p.k.files.fds s).writeSize.toNat = 0
    · rw [hzero]
      exact ⟨Nat.zero_le _, fun b _ => (Block.empty_apart _).symm⟩
    · have hsize : blockAt (p.ptrs.writeBuf s) (p.k.files.fds s).writeSize.toNat =
          ⟨(p.ptrs.writeBuf s).toNat, (p.k.files.fds s).writeSize.toNat⟩ := if_neg hzero
      rw [hsize]
      have hpart : Block.Within ⟨(p.ptrs.writeBuf s).toNat, (p.k.files.fds s).writeSize.toNat⟩
          (p.ptrs.writeBuf s).toNat
          (Block.mk (p.ptrs.writeBuf s).toNat (p.k.files.fds s).writeCapacity.toNat).stop := by
        unfold Block.Within Block.stop
        dsimp only
        omega
      refine ⟨Nat.le_trans hpart.2 hle, fun b hb => ?_⟩
      exact (Block.Apart.of_within (hapart b hb).symm hpart).symm

/-! ## One step -/

theorem NodeMoves.block (hn : n < p'.k.files.fs.tree.count) (h : NodeMoves shows p p' n) :
    (placement p).Seen ((placement p').shown (.inl n)) ∨ shows = true ∧
      ((placement p').shown (.inl n)).Within (placement p).mark (placement p').mark := by
  have hshown : (placement p').shown (.inl n) =
      blockAt (p'.ptrs.node n) (p'.k.files.fs.tree.node n).size.toNat := if_pos hn
  rw [hshown]
  cases h with
  | same hold hptr hsize hdata =>
      have hbefore : (placement p).shown (.inl n) =
          blockAt (p.ptrs.node n) (p.k.files.fs.tree.node n).size.toNat := if_pos hold
      rw [hptr, hsize, ← hbefore]
      exact Or.inl (Or.inr ⟨_, rfl⟩)
  | blank hsize =>
      rw [hsize]
      exact Or.inl (Or.inl rfl)
  | filled hshows hblock _ => exact Or.inr ⟨hshows, hblock⟩

theorem SlotMoves.block (h : SlotMoves S shows slot p p' s) :
    ((placement p).Seen ((placement p').shown (.inr s)) ∨ shows = true ∧
      ((placement p').shown (.inr s)).Within (placement p).mark (placement p').mark) ∧
    ((placement p').owned s = .empty ∨ (placement p').owned s = (placement p).owned s ∨
      s = slot ∧ shows = false ∧
        ((placement p').owned s).Within (placement p).mark (placement p').mark) := by
  by_cases hw : p'.ptrs.writeBuf s = 0
  · have hshown : (placement p').shown (.inr s) =
        blockAt (p'.ptrs.data s) (p'.k.files.fds s).size.toNat := if_pos hw
    have howned : (placement p').owned s = .empty := if_pos hw
    refine ⟨?_, Or.inl howned⟩
    rw [hshown]
    cases h with
    | same offset _ hdata hbuf hentry _ =>
        have hbefore : (placement p).shown (.inr s) =
            blockAt (p.ptrs.data s) (p.k.files.fds s).size.toNat := if_pos (hbuf.symm.trans hw)
        rw [hdata, hentry, ← hbefore]
        exact Or.inl (Or.inr ⟨_, rfl⟩)
    | closed _ hentry =>
        rw [hentry]
        exact Or.inl (Or.inl rfl)
    | looks _ _ hblock _ => exact hblock
    | writes _ hne _ _ => exact absurd hw hne
  · have hshown : (placement p').shown (.inr s) = .empty := if_neg hw
    have howned : (placement p').owned s =
        blockAt (p'.ptrs.writeBuf s) (p'.k.files.fds s).writeCapacity.toNat := if_neg hw
    refine ⟨Or.inl (Or.inl hshown), ?_⟩
    cases h with
    | same offset _ hdata hbuf hentry _ =>
        have hbefore : (placement p).owned s =
            blockAt (p.ptrs.writeBuf s) (p.k.files.fds s).writeCapacity.toNat :=
          if_neg fun hzero => hw (hbuf.trans hzero)
        rw [howned, hbuf, hentry, ← hbefore]
        exact Or.inr (Or.inl rfl)
    | closed hzero _ => exact absurd hzero hw
    | looks hzero _ _ _ => exact absurd hzero hw
    | writes _ _ hblock _ => exact Or.inr hblock

/-- A step that takes fresh blocks either to show them or for one buffer. -/
theorem placement_sound (h : (placement p).Sound) (hmark : (placement p).mark ≤ (placement p').mark)
    (hnodes : ∀ n < p'.k.files.fs.tree.count, NodeMoves shows p p' n)
    (hslots : ∀ s, SlotMoves S shows slot p p' s) : (placement p').Sound := by
  have hshown : ∀ a, (placement p).Seen ((placement p').shown a) ∨ shows = true ∧
      ((placement p').shown a).Within (placement p).mark (placement p').mark := by
    rintro (n | s)
    · by_cases hn : n < p'.k.files.fs.tree.count
      · exact (hnodes n hn).block hn
      · exact Or.inl (Or.inl (if_neg hn))
    · exact (hslots s).block.1
  have howned := fun s => (hslots s).block.2
  rcases howned slot with hold | hold | ⟨-, hshows, hblock⟩
  case inr.inr =>
    have hseen : ∀ a, (placement p).Seen ((placement p').shown a) := by
      intro a
      rcases hshown a with hseen | ⟨hcontra, -⟩
      · exact hseen
      · rw [hshows] at hcontra
        cases hcontra
    refine h.own hmark hseen (fun b hb => ?_) hblock
    rcases howned b with hempty | hsame | ⟨rfl, -⟩
    · exact Or.inl hempty
    · exact Or.inr hsame
    · exact absurd rfl hb
  all_goals
    refine h.reveal hmark (fun a => (hshown a).imp id And.right) fun b => ?_
    rcases howned b with hempty | hsame | ⟨rfl, -⟩
    · exact Or.inl hempty
    · exact Or.inr hsame
  · exact Or.inl hold
  · exact Or.inr hold

theorem byteAt_offset (e : FdEntry) (offset : U32) : byteAt { e with offset := offset } = byteAt e :=
  rfl

theorem fdSize_offset (e : FdEntry) (offset : U32) : fdSize { e with offset := offset } = fdSize e :=
  rfl

theorem fdSize_emptyFd : fdSize emptyFd = 0 := rfl

theorem entryOk_emptyFd : EntryOk 0 emptyFd :=
  ⟨iff_of_true rfl rfl, nofun, Nat.le_refl _, nofun⟩

theorem Laid.mark_le (h : Laid p) : (placement p).mark ≤ 2 ^ 32 := by
  have hlow : (placement p).mark ≤ 0x00300000 := h.heap.low
  omega

theorem Laid.step (h : Laid p) (S : Fin fdMax → Prop) (shows : Bool) (slot : Fin fdMax)
    (hrise : Rises p.k.files.fs.heap p'.k.files.fs.heap)
    (hram : (placement p).SameBut S p.ptrs.ram p'.ptrs.ram)
    (hnodes : ∀ n < p'.k.files.fs.tree.count, NodeMoves shows p p' n)
    (hslots : ∀ s, SlotMoves S shows slot p p' s) : Laid p' := by
  obtain ⟨hheap, hmark⟩ := hrise h.heap
  constructor
  case heap => exact hheap
  case sound => exact placement_sound h.sound hmark hnodes hslots
  case nodes =>
    intro n hn
    cases hnodes n hn with
    | same hold hptr hsize hdata =>
        have hshown : (placement p).shown (.inl n) =
            blockAt (p.ptrs.node n) (p.k.files.fs.tree.node n).size.toNat := if_pos hold
        have hle := h.sound.shown_le (.inl n)
        have hapart := fun b => h.sound.apart b (.inl n)
        rw [hshown] at hle hapart
        have hbyte : nodeByte (p'.k.files.fs.tree.node n) = nodeByte (p.k.files.fs.tree.node n) := by
          unfold nodeByte
          rw [hdata]
        rw [hptr, hsize, hbyte]
        exact (h.nodes n hold).keep hram hle h.mark_le fun b _ => hapart b
    | blank hsize =>
        rw [hsize]
        exact .zero _ _ _
    | filled _ _ hbytes => exact hbytes
  case views =>
    intro s
    cases hslots s with
    | same offset hs hdata hbuf hentry _ =>
        have hview : p'.ptrs.view s = p.ptrs.view s := by
          unfold Pointers.view
          rw [hdata, hbuf]
        obtain ⟨hle, hapart⟩ := view_block (h.entries s) h.sound
        rw [hview, hentry, fdSize_offset, byteAt_offset]
        refine (h.views s).keep hram hle h.mark_le fun b hb => hapart b ?_
        rintro rfl
        exact hs hb
    | closed _ hentry =>
        rw [hentry, fdSize_emptyFd]
        exact .zero _ _ _
    | looks hzero hok _ hbytes =>
        rw [hok.fdSize_eq, if_pos rfl]
        unfold Pointers.view
        rw [if_pos hzero]
        exact hbytes
    | writes hok hne _ hbytes =>
        rw [hok.fdSize_eq, if_neg hne]
        unfold Pointers.view
        rw [if_neg hne]
        exact hbytes
  case entries =>
    intro s
    cases hslots s with
    | same offset _ _ hbuf hentry hoff =>
        have hok := h.entries s
        rw [hbuf, hentry]
        exact ⟨hok.buffered, hok.room, hoff, hok.writable⟩
    | closed hzero hentry =>
        rw [hzero, hentry]
        exact entryOk_emptyFd
    | looks hzero hok _ _ =>
        rw [hzero]
        exact hok
    | writes hok _ _ _ => exact hok

/-! ## The copy loops -/

variable {dst q : U32} {src : Source} {len mark : Nat} {ram : ByteMem.Mem} {f : Nat → U8}

/-- Stores at and above the mark do not change the source. -/
def Below (src : Source) (len mark : Nat) (ram : ByteMem.Mem) : Prop :=
  ∀ m : ByteMem.Mem, (∀ a : U32, a.toNat < mark → m a = ram a) → ∀ i < len, src m i = src ram i

theorem below_given (f : Nat → U8) (len mark : Nat) (ram : ByteMem.Mem) :
    Below (given f) len mark ram := fun _ _ _ _ => rfl

theorem below_bytesAt (hle : (blockAt q len).stop ≤ mark) :
    Below (bytesAt q) len mark ram := by
  intro m hm i hi
  have hblock : blockAt q len = ⟨q.toNat, len⟩ := if_neg (by omega)
  rw [hblock] at hle
  have hstop : q.toNat + len ≤ mark := hle
  apply hm
  bv_omega

theorem copyLoop_eq_copyUp : copyLoop dst src len ram = ByteMem.copyUp ram dst src len := by
  induction len with
  | zero => rfl
  | succ len ih => rw [copyLoop, ByteMem.copyUp, ih]

/-- If the source is not among the bytes that are stored, the loop copies what was there. -/
theorem copyLoop_eq (hfit : dst.toNat + len ≤ 2 ^ 32)
    (hsrc : ∀ m : ByteMem.Mem, (∀ a, ¬ByteMem.InRange dst len a → m a = ram a) →
      ∀ i < len, src m i = src ram i) :
    copyLoop dst src len ram = ByteMem.store ram dst len (src ram) := by
  rw [copyLoop_eq_copyUp]
  refine ByteMem.copyUp_eq_store (by omega) fun i hi m hm => hsrc m (fun a ha => ?_) i hi
  refine hm a fun j hj haddr => ha ?_
  rw [haddr]
  exact ByteMem.inRange_add hfit (Nat.lt_trans hj hi)

theorem copy_fresh (hlow : mark ≤ dst.toNat) (hfit : dst.toNat + len ≤ 2 ^ 32)
    (hsrc : Below src len mark ram) :
    (∀ a : U32, a.toNat < mark → copyLoop dst src len ram a = ram a) ∧
      Holds (copyLoop dst src len ram) dst len (src ram) := by
  have heq : copyLoop dst src len ram = ByteMem.store ram dst len (src ram) := by
    refine copyLoop_eq hfit fun m hm => hsrc m fun a ha => hm a ?_
    rintro ⟨hge, -⟩
    omega
  rw [heq]
  constructor
  · intro a ha
    apply ByteMem.store_of_not_inRange hfit
    rintro ⟨hge, -⟩
    omega
  · exact fun i hi => ByteMem.store_apply_add (by omega) hi

theorem fill_fresh {size : U32} (hlow : mark ≤ dst.toNat) (hfit : dst.toNat + size.toNat < 2 ^ 32)
    (hsrc : Below src size.toNat mark ram) :
    (∀ a : U32, a.toNat < mark →
      storeNul dst size (copyLoop dst src size.toNat ram) a = ram a) ∧
      Holds (storeNul dst size (copyLoop dst src size.toNat ram)) dst size.toNat (src ram) := by
  obtain ⟨hsame, hbytes⟩ := copy_fresh hlow (Nat.le_of_lt hfit) hsrc
  unfold storeNul
  constructor
  · intro a ha
    rw [Function.update_of_ne]
    · exact hsame a ha
    · rintro rfl
      bv_omega
  · intro i hi
    rw [Function.update_of_ne]
    · exact hbytes i hi
    · bv_omega

/-! ## Files that are filled -/

variable {fs fs₁ : Fs} {cwd : NodeId} {path : CStr} {size : U32} {t u : VfsTree} {heap : Heap}
variable {new : List CStr → VfsNodeType → Prop}

theorem Edited.contents (h : Edited new (fun _ _ => False) t u) (hn : n < u.count) :
    (n < t.count ∧ (u.node n).size = (t.node n).size ∧ (u.node n).data = (t.node n).data) ∨
      (u.node n).size = 0 := by
  induction h with
  | refl => exact Or.inl ⟨hn, rfl, rfl⟩
  | @add v dir name type h hadd _ ih =>
      rcases Nat.lt_or_eq_of_le (Nat.lt_succ_iff.mp hn) with hlt | rfl
      · rw [node_addNode hadd.dir_lt hlt]
        exact ih hlt
      · rw [node_addNode_new]
        exact Or.inr rfl
  | fill _ _ hfill _ => exact hfill.elim

theorem nodeMoves_edit (h : Edited new (fun _ _ => False) p.k.files.fs.tree p'.k.files.fs.tree)
    (hptr : p'.ptrs.node = p.ptrs.node) (hn : n < p'.k.files.fs.tree.count) :
    NodeMoves shows p p' n := by
  rcases Edited.contents h hn with ⟨hold, hsize, hdata⟩ | hsize
  · exact .same hold (congrFun hptr n) hsize hdata
  · exact .blank hsize

structure FilledAt (p : Placed) (q : Pointers) : Prop where
  ram : ∀ a : U32, a.toNat < (placement p).mark → q.ram a = p.ptrs.ram a
  data : q.data = p.ptrs.data
  writeBuf : q.writeBuf = p.ptrs.writeBuf

theorem FilledAt.refl (p : Placed) : FilledAt p p.ptrs := ⟨fun _ _ => rfl, rfl, rfl⟩

theorem fillNode_moves (node : NodeId) {copy : U32} {heap' : Heap}
    (hedits : Edited new (fun _ _ => False) p.k.files.fs.tree fs₁.tree) (hfine : HeapFine fs₁.heap)
    (hmark : (placement p).mark ≤ fs₁.heap.current.toNat)
    (hmalloc : kmalloc fs₁.heap (size + 1) = some (copy, heap'))
    (hsrc : Below src size.toNat (placement p).mark p.ptrs.ram)
    (hf : ∀ i < size.toNat, f i = src p.ptrs.ram i) :
    FilledAt p (fillNode p.ptrs fs₁.heap node src size) ∧
      ∀ p', p'.k.files.fs.tree = fs₁.tree.setData node ((List.range size.toNat).map f) size →
        p'.k.files.fs.heap = heap' →
        p'.ptrs.node = (fillNode p.ptrs fs₁.heap node src size).node →
        p'.ptrs.ram = (fillNode p.ptrs fs₁.heap node src size).ram →
          ∀ n < p'.k.files.fs.tree.count, NodeMoves true p p' n := by
  obtain ⟨hfine', hlow, hhigh, -⟩ := kmalloc_fresh hfine hmalloc
  have hpos := (HeapBlocks.kmalloc_spec hfine.aligned hfine.limit_le hmalloc).size_pos
  have hlimit := hfine'.low
  have hsize : (size + 1).toNat = size.toNat + 1 := by bv_omega
  rw [hsize] at hhigh
  unfold fillNode
  rw [hmalloc]
  dsimp only
  obtain ⟨hsame, hbytes⟩ := @fill_fresh copy src (placement p).mark p.ptrs.ram size
    (Nat.le_trans hmark hlow) (by omega) hsrc
  refine ⟨⟨hsame, rfl, rfl⟩, fun p' htree hheap hnode hram n hn => ?_⟩
  rw [htree] at hn
  by_cases hn' : n = node
  · subst hn'
    have hnew : p'.k.files.fs.tree.node n =
        { fs₁.tree.node n with data := some ((List.range size.toNat).map f), size := size } := by
      rw [htree]
      exact Function.update_self _ _ _
    have hptr : p'.ptrs.node n = copy := by
      rw [hnode]
      exact Function.update_self _ _ _
    by_cases hzero : size.toNat = 0
    · apply NodeMoves.blank
      rw [hnew]
      exact BitVec.eq_of_toNat_eq hzero
    apply NodeMoves.filled rfl
    · rw [hptr, hnew]
      have hmark' : (placement p').mark = heap'.current.toNat := by
        rw [← hheap]
        rfl
      have htop : copy.toNat + size.toNat ≤ heap'.current.toNat := by omega
      rw [hmark']
      exact blockAt_within hzero (Nat.le_trans hmark hlow) htop
    · rw [hptr, hnew, hram]
      intro i hi
      have hi' : i < size.toNat := hi
      rw [hbytes i hi', ← hf i hi']
      unfold nodeByte
      dsimp only
      rw [Option.getD_some, List.getD_eq_getElem?_getD, List.getElem?_map,
        List.getElem?_range hi']
      rfl
  · have hold : p'.k.files.fs.tree.node n = fs₁.tree.node n := by
      rw [htree]
      exact Function.update_of_ne hn' _ _
    have hptr : p'.ptrs.node n = p.ptrs.node n := by
      rw [hnode]
      exact Function.update_of_ne hn' _ _
    rcases Edited.contents hedits hn with ⟨hlt, hsz, hdata⟩ | hsz
    · exact .same hlt hptr (by rw [hold, hsz]) (by rw [hold, hdata])
    · exact .blank (by rw [hold, hsz])

theorem vfsWriteFileAt_moves (path : CStr) (h : Laid p) (hok : TreeOk p.k.files.fs.tree)
    (hcwd : cwd < p.k.files.fs.tree.count)
    (hsrc : Below src size.toNat (placement p).mark p.ptrs.ram)
    (hf : ∀ i < size.toNat, f i = src p.ptrs.ram i) :
    FilledAt p (vfsWriteFileAt p.ptrs p.k.files.fs cwd path src size) ∧
      ∀ p', p'.k.files.fs = (vfsWriteFile p.k.files.fs cwd path f size).2 →
        p'.ptrs.node = (vfsWriteFileAt p.ptrs p.k.files.fs cwd path src size).node →
        p'.ptrs.ram = (vfsWriteFileAt p.ptrs p.k.files.fs cwd path src size).ram →
          ∀ n < p'.k.files.fs.tree.count, NodeMoves true p p' n := by
  obtain ⟨hedits, -, -⟩ := vfsTouch_edits hok hcwd path
  have hrise := rises_of_steps (vfsTouch_steps p.k.files.fs cwd path)
  unfold vfsWriteFile vfsWriteFileAt
  by_cases hgate : (vfsMountSubpath (vfsCheckPath p.k.files.fs.tree cwd path)).isSome
  · rw [if_pos hgate, if_pos hgate]
    refine ⟨.refl p, fun p' hfs hnode _ n hn => ?_⟩
    have hsame : Edited (fun _ _ => True) (fun _ _ => False) p.k.files.fs.tree
        p'.k.files.fs.tree := by
      rw [hfs]
      exact .refl
    exact nodeMoves_edit hsame hnode hn
  rw [if_neg hgate, if_neg hgate]
  cases htouch : vfsTouch p.k.files.fs cwd path with
  | mk ok fs₁ =>
      rw [htouch] at hedits hrise
      obtain ⟨hfine, hmark⟩ := hrise h.heap
      have hmoved : ∀ p', p'.k.files.fs = fs₁ → p'.ptrs.node = p.ptrs.node →
          ∀ n < p'.k.files.fs.tree.count, NodeMoves true p p' n := by
        intro p' hfs hnode n hn
        have hsame := hedits
        rw [← hfs] at hsame
        exact nodeMoves_edit hsame hnode hn
      cases ok with
      | false => exact ⟨.refl p, fun p' hfs hnode _ => hmoved p' hfs hnode⟩
      | true =>
          dsimp only
          cases hres : vfsResolveFrom fs₁.tree cwd path with
          | none => exact ⟨.refl p, fun p' hfs hnode _ => hmoved p' hfs hnode⟩
          | some node =>
              dsimp only
              cases hmalloc : kmalloc fs₁.heap (size + 1) with
              | none =>
                  have hsame : fillNode p.ptrs fs₁.heap node src size = p.ptrs := by
                    unfold fillNode
                    rw [hmalloc]
                  rw [hsame]
                  exact ⟨.refl p, fun p' hfs hnode _ => hmoved p' hfs hnode⟩
              | some made =>
                  obtain ⟨copy, heap'⟩ := made
                  obtain ⟨hfilled, hnodes⟩ :=
                    fillNode_moves node hedits hfine hmark hmalloc hsrc hf
                  refine ⟨hfilled, fun p' hfs hnode hram => hnodes p' ?_ ?_ hnode hram⟩
                  · rw [hfs]
                  · rw [hfs]

/-! ## Steps that change no descriptor -/

theorem FilledAt.sameBut {q : Pointers} (h : FilledAt p q) (S : Fin fdMax → Prop) :
    (placement p).SameBut S p.ptrs.ram q.ram := fun a ha _ => h.ram a ha

theorem sameSlot (h : Laid p) (hdata : p'.ptrs.data s = p.ptrs.data s)
    (hbuf : p'.ptrs.writeBuf s = p.ptrs.writeBuf s) (hentry : p'.k.files.fds s = p.k.files.fds s)
    (hs : ¬S s) : SlotMoves S shows slot p p' s :=
  .same _ hs hdata hbuf hentry (h.entries s).offset

/-- A step that changes no descriptor and stores to nothing that is looked at. -/
theorem Laid.edit (h : Laid p) (hrise : Rises p.k.files.fs.heap p'.k.files.fs.heap)
    (hedits : Edited new (fun _ _ => False) p.k.files.fs.tree p'.k.files.fs.tree)
    (hfds : p'.k.files.fds = p.k.files.fds) (hptrs : FilledAt p p'.ptrs)
    (hnode : p'.ptrs.node = p.ptrs.node) : Laid p' := by
  refine h.step (fun _ => False) true 0 hrise (hptrs.sameBut _)
    (fun n hn => nodeMoves_edit hedits hnode hn) fun s => ?_
  exact sameSlot h (congrFun hptrs.data s) (congrFun hptrs.writeBuf s) (congrFun hfds s) id

/-! ## What `vfs_read_file` returns -/

variable {found : U32 × Pointers} {mach : Machine} {bytes : Bytes} {data : Option Bytes} {heap' : Heap} {mounts : Mounts} {fs₂ : Fs}

/-- The block and the size of a file that has been read from the disc. -/
theorem disc_malloc (hread : fsReadFileFromMount mach mounts heap cdromMount path =
      some (some bytes, heap')) :
    bytes.length < 2 ^ 32 - 1 ∧
      ∃ addr, kmalloc heap (BitVec.ofNat 32 bytes.length + 1) = some (addr, heap') := by
  unfold fsReadFileFromMount at hread
  split at hread
  · cases hread
  obtain ⟨loc, addr, -, hmax, hmalloc, hdata⟩ := DiscFiles.parts_of_readFileAlloc hread
  have hcount := DiscFiles.readDataLoop_length hdata
  unfold isoFileMax at hmax
  refine ⟨by omega, addr, ?_⟩
  rw [DiscFiles.readDataLoop_size hdata]
  exact hmalloc

theorem discBlock_spec (mark : Nat) (ram : ByteMem.Mem) (hfine : HeapFine heap) (hmark : mark ≤ heap.current.toNat)
    (hread : fsReadFileFromMount mach mounts heap cdromMount path = some (some bytes, heap')) :
    (∀ a : U32, a.toNat < mark → (discBlock heap bytes ram).2 a = ram a) ∧
      Holds (discBlock heap bytes ram).2 (discBlock heap bytes ram).1 bytes.length
        (bytes.getD · 0) ∧
      mark ≤ (discBlock heap bytes ram).1.toNat ∧
      (discBlock heap bytes ram).1.toNat + bytes.length ≤ heap'.current.toNat := by
  obtain ⟨hlen, addr, hmalloc⟩ := disc_malloc hread
  obtain ⟨hfine', hlow, hhigh, -⟩ := kmalloc_fresh hfine hmalloc
  have hlimit := hfine'.low
  have hcount : (BitVec.ofNat 32 bytes.length).toNat = bytes.length := by
    rw [BitVec.toNat_ofNat]
    omega
  have hsize : (BitVec.ofNat 32 bytes.length + 1).toNat = bytes.length + 1 := by
    rw [← hcount] at hlen ⊢
    bv_omega
  rw [hsize] at hhigh
  unfold discBlock
  rw [hmalloc]
  dsimp only
  obtain ⟨hsame, hbytes⟩ := @fill_fresh addr (given fun i => bytes.getD i 0) mark ram
    (BitVec.ofNat 32 bytes.length) (Nat.le_trans hmark hlow) (by omega) (below_given _ _ _ _)
  rw [hcount] at hsame hbytes
  exact ⟨hsame, hbytes, Nat.le_trans hmark hlow, by omega⟩

/-- Where the bytes lie that `vfs_read_file` has found. -/
structure FoundAt (p : Placed) (r : U32 × Pointers) (data : Option Bytes) (size : U32)
    (top : Nat) : Prop where
  filled : FilledAt p r.2
  node : r.2.node = p.ptrs.node
  bytes : Holds r.2.ram r.1 size.toNat fun i => (data.getD []).getD i 0
  block : (placement p).Seen (blockAt r.1 size.toNat) ∨
    (blockAt r.1 size.toNat).Within (placement p).mark top
  size_lt : size.toNat < 2 ^ 32 - 1

theorem vfsReadFileAt_spec (h : Laid p)
    (hedits : Edited new (fun _ _ => False) p.k.files.fs.tree fs₁.tree) (hok : TreeOk fs₁.tree)
    (hcwd : cwd < fs₁.tree.count) (hfine : HeapFine fs₁.heap)
    (hmark : (placement p).mark ≤ fs₁.heap.current.toNat)
    (hread : vfsReadFile mach fs₁ cwd path = some (some (data, size), fs₂)) :
    FoundAt p (vfsReadFileAt mach p.ptrs fs₁ cwd path) data size fs₂.heap.current.toNat := by
  unfold vfsReadFile at hread
  split at hread
  · rename_i subpath hgate
    obtain ⟨⟨found, heap'⟩, hdisc, hpair⟩ := Option.map_eq_some_iff.mp hread
    cases found with
    | none => cases hpair
    | some bytes =>
        cases hpair
        unfold vfsReadFileAt
        rw [hgate]
        dsimp only
        rw [hdisc]
        obtain ⟨hsame, hbytes, hlow, hhigh⟩ := discBlock_spec (placement p).mark p.ptrs.ram
          hfine hmark hdisc
        obtain ⟨hlen, -⟩ := disc_malloc hdisc
        have hcount : (BitVec.ofNat 32 bytes.length).toNat = bytes.length := by
          rw [BitVec.toNat_ofNat]
          omega
        rw [← hcount] at hhigh
        constructor
        case filled => exact ⟨hsame, rfl, rfl⟩
        case node => rfl
        case bytes =>
          rw [hcount]
          exact hbytes
        case block =>
          by_cases hzero : (BitVec.ofNat 32 bytes.length).toNat = 0
          · rw [hzero]
            exact Or.inl (Or.inl rfl)
          · exact Or.inr (blockAt_within hzero hlow hhigh)
        case size_lt =>
          rw [hcount]
          exact hlen
  · rename_i hgate
    split at hread
    · cases hread
    rename_i node hres
    obtain ⟨hfound, hfs⟩ := Prod.mk.inj (Option.some.inj hread)
    split at hfound
    case isFalse => cases hfound
    cases hfound
    subst hfs
    unfold vfsReadFileAt
    rw [hgate]
    dsimp only
    rw [hres]
    dsimp only
    have hlt : node < fs₁.tree.count := TreeOk.resolve_lt hok hcwd hres
    rcases Edited.contents hedits hlt with ⟨hold, hsize, hdata⟩ | hsize
    · have hshown : (placement p).shown (.inl node) =
          blockAt (p.ptrs.node node) (p.k.files.fs.tree.node node).size.toNat := if_pos hold
      have hbytes := h.nodes node hold
      have hle := h.sound.shown_le (.inl node)
      have hmark' := h.heap.low
      rw [hsize, hdata]
      refine ⟨.refl p, rfl, hbytes, Or.inl (Or.inr ⟨_, hshown.symm⟩), ?_⟩
      rw [hshown] at hle
      unfold blockAt at hle
      split at hle
      · omega
      · have hstop : (p.ptrs.node node).toNat + (p.k.files.fs.tree.node node).size.toNat ≤
            p.k.files.fs.heap.current.toNat := hle
        omega
    · rw [hsize]
      exact ⟨.refl p, rfl, .zero _ _ _, Or.inl (Or.inl rfl), by decide⟩

theorem vfsReadFileAt_filled (hfine : HeapFine fs.heap)
    (hmark : (placement p).mark ≤ fs.heap.current.toNat) :
    FilledAt p (vfsReadFileAt mach p.ptrs fs cwd path).2 ∧
      (vfsReadFileAt mach p.ptrs fs cwd path).2.node = p.ptrs.node := by
  unfold vfsReadFileAt
  split
  · split
    · rename_i hdisc
      obtain ⟨hsame, -⟩ := discBlock_spec (placement p).mark p.ptrs.ram hfine hmark hdisc
      exact ⟨⟨hsame, rfl, rfl⟩, rfl⟩
    · exact ⟨.refl p, rfl⟩
  · split <;>
    exact ⟨.refl p, rfl⟩

theorem FoundAt.stop_le {top n : Nat} (h : FoundAt p found data size top) (hl : Laid p)
    (htop : (placement p).mark ≤ top) (hn : n = 0 ∨ n = size.toNat) :
    (blockAt found.1 n).stop ≤ top := by
  rcases hn with rfl | rfl
  · exact Nat.zero_le _
  · rcases h.block with hseen | hfresh
    · exact Nat.le_trans (hseen.stop_le hl.sound) htop
    · exact hfresh.2

end SlopOS.Proofs.PlacedFiles
