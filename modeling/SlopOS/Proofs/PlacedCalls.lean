import SlopOS.Proofs.PlacedFiles
/-!
# What the calls do to contents in memory

Every system call keeps contents where their pointers say.  `ksys_write` stores
to the buffer of its own descriptor, before or after the buffer has moved to a
fresh block, and to nothing else; `ksys_open` and `ksys_close` fill fresh blocks.
-/

namespace SlopOS.Proofs.PlacedCalls

open SlopOS.Support SlopOS.Support.Placement SlopOS.Kernel
open SlopOS.Proofs.HeapUse SlopOS.Proofs.FileTree SlopOS.Proofs.FilePaths SlopOS.Proofs.FileEdits
open SlopOS.Proofs.FileOutcomes SlopOS.Proofs.FileCalls SlopOS.Proofs.FileCursor SlopOS.Proofs.FileSessions
open SlopOS.Proofs.FileSteps
open SlopOS.Proofs.SystemCalls SlopOS.Proofs.FileWrites SlopOS.Proofs.PlacedFiles

variable {p p' : Placed} {s slot : Fin fdMax} {S : Fin fdMax → Prop} {shows : Bool}
variable {mach : Machine} {k' : KState} {r fd : Int} {num a1 a2 a3 buf count size flags : U32}
variable {heap heap' : Heap} {data : Option Bytes} {mark : Nat} {ram : ByteMem.Mem} {q : U32}

/-! ## Reading -/

def cursorOf (e : FdEntry) (h : e.offset.toNat ≤ (fdSize e).toNat) : Cursor U8 :=
  ⟨contentsOf e, e.offset.toNat, by rw [length_contentsOf]; exact h⟩

theorem views_cursorOf {e : FdEntry} (h : e.offset.toNat ≤ (fdSize e).toNat) :
    Views e (cursorOf e h) := ⟨rfl, rfl⟩

theorem userMemAfter_eq (h : Laid p)
    (hdone : (syscallEntry mach p.k num a1 a2 a3 0 0).done = some (r, k')) :
    userMemAfter p num a1 a2 r k' = k'.core.mem := by
  unfold userMemAfter
  split
  case h_2 => rfl
  rename_i slot hslot
  split
  case isFalse => rfl
  rename_i hread
  obtain ⟨rfl, hr⟩ := hread
  have hdone' : (ksysRead p.k (toInt a1) a2 a3).done = some (r, k') := hdone
  obtain ⟨hreadable, hvalid⟩ := read_checked hslot hdone' hr
  have hoff := (h.entries slot).offset
  have hview := views_cursorOf hoff
  generalize cursorOf (p.k.files.fds slot) hoff = c at hview
  rw [ksysRead_done hslot hreadable hvalid hview] at hdone'
  cases hdone'
  have hlen := c.length_read a3.toNat
  rw [hview.length, ← hview.pos] at hlen
  unfold readInto
  rw [Int.toNat_natCast]
  show _ = ByteMem.store p.k.core.mem a2 _ fun j => (c.read a3.toNat).getD j 0
  apply ByteMem.store_congr
  intro j hj
  have hin : (p.k.files.fds slot).offset.toNat + j < (fdSize (p.k.files.fds slot)).toNat := by omega
  have hbyte := h.views slot _ hin
  rw [hview.getD_read hj, ← hbyte]
  unfold bytesAt
  congr 1
  bv_omega

theorem read_slots (hoff : ∀ s, (p.k.files.fds s).offset.toNat ≤ (fdSize (p.k.files.fds s)).toNat)
    (hdone : (ksysRead p.k fd buf count).done = some (r, k')) :
    ∃ offset : U32, k'.files.fds s = { p.k.files.fds s with offset := offset } ∧
      offset.toNat ≤ (fdSize (p.k.files.fds s)).toNat := by
  cases ksysRead_cases hdone with
  | refused => exact ⟨_, rfl, hoff s⟩
  | line => exact ⟨_, rfl, hoff s⟩
  | file slot =>
      by_cases hs : s = slot
      · subst hs
        refine ⟨_, Function.update_self _ _ _, ?_⟩
        rw [toNat_add_takes]
        exact add_takes_le (hoff s) count
      · exact ⟨_, Function.update_of_ne hs _ _, hoff s⟩

theorem laid_read (h : Laid p)
    (hdone : (ksysRead p.k (toInt a1) a2 a3).done = some (r, k')) : Laid ⟨k', p.ptrs⟩ := by
  have heffect := ksysRead_effect hdone
  have hedits : Edited (fun _ _ => True) (fun _ _ => False) p.k.files.fs.tree k'.files.fs.tree :=
    heffect.edits.mono (fun _ _ => id) fun _ _ hfill => absurd hfill.1 (by decide)
  refine h.step (fun _ => False) true 0 (keepsHeap_of_steps (ksysRead_steps p.k _ _ _) _ _ hdone)
    ((FilledAt.refl p).sameBut _) (fun n hn => nodeMoves_edit hedits rfl hn) fun s => ?_
  obtain ⟨offset, hentry, hle⟩ := read_slots (s := s) (fun s => (h.entries s).offset) hdone
  exact .same offset id rfl rfl hentry hle

/-! ## Buffers -/

variable {e e' : FdEntry} {needed capacity : U32} {old : Nat → U8}

/-- The buffer after `fd_ensure_write_capacity`: large enough, with the bytes that it had, and
either the one from before or a fresh block. -/
structure Ensured (q : Pointers) (heap : Heap) (slot : Fin fdMax) (e : FdEntry) (needed : U32)
    (mark : Nat) (q' : Pointers) (e' : FdEntry) (heap' : Heap) : Prop where
  node : q'.node = q.node
  data : q'.data = q.data
  others : ∀ s, s ≠ slot → q'.writeBuf s = q.writeBuf s
  ram : ∀ a : U32, a.toNat < mark → q'.ram a = q.ram a
  room : needed ≤ e'.writeCapacity
  larger : e.writeCapacity.toNat ≤ e'.writeCapacity.toNat
  bytes : Holds q'.ram (q'.writeBuf slot) e.writeSize.toNat (e'.writeBuf.getD fun _ => 0)
  block : q'.writeBuf slot = q.writeBuf slot ∧ e'.writeCapacity = e.writeCapacity ∧ heap' = heap ∨
    Fresh heap (q'.writeBuf slot) e'.writeCapacity heap'

theorem ensureAt_spec {q : Pointers} (slot : Fin fdMax) (mark : Nat) (hfine : HeapFine heap) (hmark : mark ≤ heap.current.toNat)
    (hbytes : Holds q.ram (q.writeBuf slot) e.writeSize.toNat (e.writeBuf.getD fun _ => 0))
    (hblock : (blockAt (q.writeBuf slot) e.writeSize.toNat).stop ≤ mark)
    (hroom : e.writeSize.toNat ≤ e.writeCapacity.toNat)
    (hnull : q.writeBuf slot = 0 → e.writeSize = 0)
    (hens : fdEnsureWriteCapacity mach heap e needed = some (e', heap')) :
    Ensured q heap slot e needed mark (fdEnsureWriteCapacityAt q heap slot e needed) e' heap' := by
  unfold fdEnsureWriteCapacity at hens
  split at hens
  · rename_i hle
    cases hens
    unfold fdEnsureWriteCapacityAt
    rw [if_pos hle]
    exact ⟨rfl, rfl, fun _ _ => rfl, fun _ _ => rfl, hle, Nat.le_refl _, hbytes,
      Or.inl ⟨rfl, rfl, rfl⟩⟩
  rename_i hmore
  split at hens
  · cases hens
  rename_i capacity hgrow
  split at hens
  · cases hens
  rename_i newBuf heap₁ hmalloc
  cases hens
  unfold fdEnsureWriteCapacityAt
  rw [if_neg hmore, hgrow]
  dsimp only
  rw [hmalloc]
  dsimp only
  have hfresh := kmalloc_fresh hfine hmalloc
  have hlow := hfresh.low
  have hhigh := hfresh.high
  have hlimit := hfresh.fine.low
  have hle := growCapacity_le hgrow
  have hlarger : e.writeCapacity.toNat ≤ capacity.toNat := by
    have hneeded : needed.toNat ≤ capacity.toNat := hle
    have hmore' : e.writeCapacity.toNat < needed.toNat := Nat.not_le.mp hmore
    omega
  have hself : Function.update q.writeBuf slot newBuf slot = newBuf := Function.update_self _ _ _
  -- the bytes of the old buffer, which the fresh block does not meet
  have hsrc : Below (if q.writeBuf slot = 0 then given fun _ => 0 else bytesAt (q.writeBuf slot))
      e.writeSize.toNat mark q.ram := by
    split
    · exact below_given _ _ _ _
    · exact below_bytesAt hblock
  obtain ⟨hsame, hcopied⟩ := @copy_fresh newBuf _ e.writeSize.toNat mark q.ram
    (Nat.le_trans hmark hlow) (by omega) hsrc
  constructor
  case node => rfl
  case data => rfl
  case others => exact fun s hs => Function.update_of_ne hs _ _
  case ram => exact hsame
  case room => exact hle
  case larger => exact hlarger
  case bytes =>
    dsimp only
    rw [hself]
    intro i hi
    rw [hcopied i hi, Option.getD_some, if_pos hi]
    split
    · rename_i hzero
      rw [hnull hzero] at hi
      exact absurd hi (Nat.not_lt_zero i)
    · exact hbytes i hi
  case block =>
    dsimp only
    rw [hself]
    exact Or.inr hfresh

theorem stores_spec {w writeSize offset len newSize : U32} {src : Nat → U8}
    (hfit : w.toNat + capacity.toNat ≤ 2 ^ 32) (hoff : offset.toNat ≤ writeSize.toNat)
    (hnew : newSize.toNat = max writeSize.toNat (offset.toNat + len.toNat))
    (hroom : newSize.toNat < capacity.toNat) (hold : Holds ram w writeSize.toNat old) :
    let ram₁ := copyLoop (w + writeSize) (given fun _ => 0) (offset.toNat - writeSize.toNat) ram
    let ram₂ := storeNul w newSize (copyLoop (w + offset) (given src) len.toNat ram₁)
    (∀ a : U32, ¬(w.toNat ≤ a.toNat ∧ a.toNat < w.toNat + capacity.toNat) → ram₂ a = ram a) ∧
      Holds ram₂ w newSize.toNat (writeInto old writeSize.toNat offset.toNat src len.toNat) := by
  have hgap : offset.toNat - writeSize.toNat = 0 := by omega
  rw [hgap]
  have hloop : copyLoop (w + offset) (given src) len.toNat ram =
      ByteMem.store ram (w + offset) len.toNat src := by
    apply copyLoop_eq
    · bv_omega
    · exact fun _ _ _ _ => rfl
  have hadd : (w + offset).toNat = w.toNat + offset.toNat := by bv_omega
  show (∀ a : U32, _ → storeNul w newSize (copyLoop (w + offset) (given src) len.toNat ram) a = ram a) ∧
    Holds (storeNul w newSize (copyLoop (w + offset) (given src) len.toNat ram)) w _ _
  rw [hloop]
  unfold storeNul
  constructor
  · intro a ha
    rw [Function.update_of_ne]
    · apply ByteMem.store_of_not_inRange (by omega)
      rintro ⟨hlow, hhigh⟩
      omega
    · rintro rfl
      bv_omega
  · intro i hi
    have hne : w + BitVec.ofNat 32 i ≠ w + newSize := by bv_omega
    have hsum : (w + BitVec.ofNat 32 i).toNat = w.toNat + i := by bv_omega
    rw [Function.update_of_ne hne]
    unfold writeInto
    dsimp only
    rw [Function.update_of_ne (by omega)]
    by_cases hmid : offset.toNat ≤ i ∧ i < offset.toNat + len.toNat
    · rw [if_pos hmid]
      have hplace : w + BitVec.ofNat 32 i = w + offset + BitVec.ofNat 32 (i - offset.toNat) := by
        bv_omega
      rw [hplace]
      exact ByteMem.store_apply_add (Nat.le_of_lt len.isLt) (by omega)
    · rw [if_neg hmid, if_neg (by omega), ByteMem.store_of_not_inRange (by omega)]
      · exact hold i (by omega)
      · rintro ⟨hlow, hhigh⟩
        omega

/-! ## Writing -/

theorem fds_setFd (k : KState) (slot s : Fin fdMax) (entry : FdEntry) :
    (k.setFd slot entry).files.fds s = if s = slot then entry else k.files.fds s := by
  show Function.update k.files.fds slot entry s = _
  rw [Function.update_apply]

theorem EntryOk.buffer (h : Laid p) (hw : (p.k.files.fds slot).writable = true) :
    p.ptrs.writeBuf slot ≠ 0 ∧
      Holds p.ptrs.ram (p.ptrs.writeBuf slot) (p.k.files.fds slot).writeSize.toNat
        ((p.k.files.fds slot).writeBuf.getD fun _ => 0) ∧
      (blockAt (p.ptrs.writeBuf slot) (p.k.files.fds slot).writeSize.toNat).stop ≤ (placement p).mark ∧
      (p.k.files.fds slot).writeSize.toNat < (p.k.files.fds slot).writeCapacity.toNat ∧
      (p.ptrs.writeBuf slot).toNat + (p.k.files.fds slot).writeCapacity.toNat ≤
        (placement p).mark ∧
      (p.k.files.fds slot).offset.toNat ≤ (p.k.files.fds slot).writeSize.toNat := by
  have hok := h.entries slot
  have hsome := hok.writable hw
  have hne : p.ptrs.writeBuf slot ≠ 0 := by
    intro hzero
    rw [hok.buffered.mp hzero] at hsome
    cases hsome
  have hroom := hok.room hsome
  have hbytes := h.views slot
  have hoff := hok.offset
  obtain ⟨hblock, -⟩ := view_block hok h.sound
  have howned := h.sound.owned_le slot
  have hview : p.ptrs.view slot = p.ptrs.writeBuf slot := if_neg hne
  have hbuf : (placement p).owned slot = blockAt (p.ptrs.writeBuf slot)
      (p.k.files.fds slot).writeCapacity.toNat := if_neg hne
  have hcap : blockAt (p.ptrs.writeBuf slot) (p.k.files.fds slot).writeCapacity.toNat =
      ⟨(p.ptrs.writeBuf slot).toNat, (p.k.files.fds slot).writeCapacity.toNat⟩ := if_neg (by omega)
  obtain ⟨b, hb⟩ := Option.isSome_iff_exists.mp hsome
  have hbyte : byteAt (p.k.files.fds slot) = (p.k.files.fds slot).writeBuf.getD fun _ => 0 := by
    simp [byteAt, hb]
  rw [hok.fdSize_eq, if_neg hne] at hbytes hoff hblock
  rw [hview] at hbytes hblock
  rw [hbyte] at hbytes
  rw [hbuf, hcap] at howned
  exact ⟨hne, hbytes, hblock, hroom, howned, hoff⟩

/-- The descriptor that writes, with its old buffer or one above the mark. -/
theorem slotMoves_buffer {entry : FdEntry} {b : Nat → U8} {w : U32}
    (hentry : p'.k.files.fds slot = entry) (hbuf : entry.writeBuf = some b)
    (hptr : p'.ptrs.writeBuf slot = w) (hw : w ≠ 0)
    (hroom : entry.writeSize.toNat < entry.writeCapacity.toNat)
    (hoff : entry.offset.toNat ≤ entry.writeSize.toNat)
    (hwhere : (placement p).owned slot = blockAt w entry.writeCapacity.toNat ∨
      (placement p).mark ≤ w.toNat ∧ w.toNat + entry.writeCapacity.toNat ≤ (placement p').mark)
    (hbytes : Holds p'.ptrs.ram w entry.writeSize.toNat b) :
    SlotMoves S false slot p p' slot := by
  have hsize : fdSize entry = entry.writeSize := by simp [fdSize, hbuf]
  have hbyte : byteAt entry = b := by simp [byteAt, hbuf]
  have howned : (placement p').owned slot = blockAt w entry.writeCapacity.toNat := by
    rw [← hptr, ← hentry]
    exact if_neg fun hzero => hw (hptr.symm.trans hzero)
  have hok : EntryOk w entry := by
    refine ⟨iff_of_false hw ?_, fun _ => hroom, ?_, fun _ => ?_⟩
    · rw [hbuf]
      exact Option.some_ne_none b
    · rw [hsize]
      exact hoff
    · rw [hbuf]
      rfl
  apply SlotMoves.writes
  · rw [hptr, hentry]
    exact hok
  · rw [hptr]
    exact hw
  · rw [howned]
    rcases hwhere with hold | ⟨hlow, hhigh⟩
    · exact Or.inl hold.symm
    · exact Or.inr ⟨rfl, rfl, blockAt_within (by omega) hlow hhigh⟩
  · rw [hptr, hentry, hbyte]
    exact hbytes

/-- The buffer after the growth: the old one, or one above the mark. -/
theorem Ensured.placed {q : Pointers} (h : Laid p) (hw : (p.k.files.fds slot).writable = true)
    (hensured : Ensured p.ptrs p.k.files.fs.heap slot (p.k.files.fds slot) needed (placement p).mark q
      e' heap') :
    q.writeBuf slot ≠ 0 ∧ (q.writeBuf slot).toNat + e'.writeCapacity.toNat ≤ 2 ^ 32 ∧
      ((placement p).owned slot = blockAt (q.writeBuf slot) e'.writeCapacity.toNat ∨
        (placement p).mark ≤ (q.writeBuf slot).toNat ∧
          (q.writeBuf slot).toNat + e'.writeCapacity.toNat ≤ heap'.current.toNat) := by
  obtain ⟨hne, -, -, -, hfit, -⟩ := EntryOk.buffer h hw
  have hlow : (placement p).mark ≤ 0x00300000 := h.heap.low
  rcases hensured.block with ⟨hbuf, hsize, -⟩ | hfresh
  · rw [hbuf, hsize]
    exact ⟨hne, by omega, Or.inl (if_neg hne)⟩
  · have hlimit := hfresh.fine.low
    have hhigh := hfresh.high
    exact ⟨hfresh.pos, by omega, Or.inr ⟨hfresh.low, hhigh⟩⟩

/-- The pointers after the store loops of `ksys_write`. -/
def storedAt (q : Pointers) (k : KState) (slot : Fin fdMax) (buf count : U32) : Pointers :=
  let entry := k.files.fds slot
  let needed := entry.offset + count
  let q := fdEnsureWriteCapacityAt q k.files.fs.heap slot entry (needed + 1)
  let writeBuf := q.writeBuf slot
  let ram := copyLoop (writeBuf + entry.writeSize) (given fun _ => 0)
    (entry.offset.toNat - entry.writeSize.toNat) q.ram
  let ram := copyLoop (writeBuf + entry.offset)
    (given fun j => k.core.mem (buf + BitVec.ofNat 32 j)) count.toNat ram
  let writeSize := if entry.writeSize < needed then needed else entry.writeSize
  { q with
    ram := storeNul writeBuf writeSize ram
    data := Function.update q.data slot writeBuf }

theorem laid_stored (h : Laid p) (hcount : count.toNat < 2 ^ 31)
    (hstores : Storing mach p.k fd buf count slot e' heap') :
    Laid ⟨(p.k.setFs { p.k.files.fs with heap := heap' }).setFd slot
      (writtenEntry p.k e' ((p.k.files.fds slot).offset + count) buf count),
        storedAt p.ptrs p.k slot buf count⟩ := by
  have hens := hstores.grown
  obtain ⟨hne, hbytes, hblock, hroom, hfit, hoff⟩ := EntryOk.buffer h hstores.writable
  have hensured := ensureAt_spec slot (placement p).mark h.heap (Nat.le_refl _) hbytes hblock (Nat.le_of_lt hroom)
    (fun hzero => absurd hzero hne) hens
  obtain ⟨hne', hfit', hwhere⟩ := hensured.placed h hstores.writable
  obtain ⟨-, hsameOff, hsameSize, -, -⟩ := fdEnsureWriteCapacity_grown hens
  unfold storedAt writtenEntry
  dsimp only
  rw [hsameSize, hsameOff]
  have hneeded := ByteMem.toNat_add_of_not_lt hstores.exact
  have hnew := toNat_newSize (p.k.files.fds slot).writeSize hstores.exact
  have hcap : ((p.k.files.fds slot).offset + count).toNat < e'.writeCapacity.toNat := by
    have hlow : (placement p).mark ≤ 0x00300000 := h.heap.low
    have hle : ((p.k.files.fds slot).offset + count + 1).toNat ≤ e'.writeCapacity.toNat :=
      hensured.room
    bv_omega
  have hlarger := hensured.larger
  generalize fdEnsureWriteCapacityAt p.ptrs p.k.files.fs.heap slot (p.k.files.fds slot)
    ((p.k.files.fds slot).offset + count + 1) = q at hensured hne' hfit' hwhere ⊢
  generalize (if (p.k.files.fds slot).writeSize < (p.k.files.fds slot).offset + count then
    (p.k.files.fds slot).offset + count else (p.k.files.fds slot).writeSize) = newSize at hnew ⊢
  obtain ⟨hsame, hstored⟩ := @stores_spec q.ram e'.writeCapacity _ _ _ _ _ _
    (fun j => p.k.core.mem (buf + BitVec.ofNat 32 j)) hfit' hoff hnew (by omega) hensured.bytes
  have hcapBlock : blockAt (q.writeBuf slot) e'.writeCapacity.toNat =
      ⟨(q.writeBuf slot).toNat, e'.writeCapacity.toNat⟩ := if_neg (by omega)
  refine h.step (fun s => s = slot) false slot (rises_of_allocs (fdEnsureWriteCapacity_allocs hens))
    ?ram ?nodes ?slots
  case ram =>
    intro a ha hnot
    dsimp only
    rw [hsame, hensured.ram a ha]
    rcases hwhere with howned | ⟨hge, -⟩
    · have hout := hnot slot rfl
      rw [howned, hcapBlock] at hout
      exact hout
    · omega
  case nodes =>
    intro n hn
    exact .same hn (congrFun hensured.node n) rfl rfl
  case slots =>
    intro s
    by_cases hs : s = slot
    · rw [hs]
      refine slotMoves_buffer ((fds_setFd _ _ _ _).trans (if_pos rfl)) rfl rfl hne' ?_ ?_ hwhere
        hstored
      · show newSize.toNat < e'.writeCapacity.toNat
        omega
      · show ((p.k.files.fds slot).offset + count).toNat ≤ newSize.toNat
        omega
    · refine .same _ hs ?_ (hensured.others s hs) ?_ (h.entries s).offset
      · dsimp only
        rw [Function.update_of_ne hs, hensured.data]
      · rw [fds_setFd, if_neg hs]
        rfl

theorem ksysWriteAt_stored {k : KState} (q : Pointers) (hstores : Storing mach k fd buf count slot e' heap') :
    ksysWriteAt mach q k fd buf count = storedAt q k slot buf count := by
  have hthree := (fdLookup_spec hstores.lookup).2.2
  have hpass : ¬(buf = 0 ∨ ¬validateBuffer k.core buf count = true ∨ fd = 1 ∨ fd = 2) := by
    rintro (hnull | hnot | hfd)
    · exact hstores.notNull hnull
    · exact hnot hstores.valid
    · omega
  have hwrites : ¬(¬(k.files.fds slot).writable = true ∨
      (k.files.fds slot).offset + count < (k.files.fds slot).offset) :=
    not_or.mpr ⟨not_not.mpr hstores.writable, hstores.exact⟩
  unfold ksysWriteAt
  rw [if_neg hpass, hstores.lookup]
  unfold fdWriteAt
  dsimp only
  rw [if_neg hwrites, hstores.grown]
  rfl

theorem ksysWriteAt_refused {k : KState} (q : Pointers)
    (hnot : ∀ slot e heap, ¬Storing mach k fd buf count slot e heap) :
    ksysWriteAt mach q k fd buf count = q := by
  unfold ksysWriteAt
  split
  · rfl
  rename_i hpass
  rw [not_or, not_or, not_not] at hpass
  split
  · rfl
  rename_i slot hslot
  unfold fdWriteAt
  dsimp only
  split
  · rfl
  rename_i hwrites
  rw [not_or, not_not] at hwrites
  split
  · rfl
  · rename_i hgrown
    exact absurd ⟨hpass.1, hpass.2.1, hslot, hwrites.1, hwrites.2, hgrown⟩ (hnot _ _ _)

theorem laid_write (h : Laid p) (hcount : validateBuffer p.k.core buf count = true →
      count.toNat < 2 ^ 31)
    (hdone : (ksysWrite mach p.k fd buf count).done = some (r, k')) :
    Laid ⟨k', ksysWriteAt mach p.ptrs p.k fd buf count⟩ := by
  cases ksysWrite_cases hdone with
  | refused _ hnot =>
      rw [ksysWriteAt_refused _ hnot]
      exact h
  | shown hfd =>
      unfold ksysWriteAt
      rw [if_pos (Or.inr (Or.inr hfd))]
      exact h
  | stored hstores =>
      rw [ksysWriteAt_stored _ hstores]
      exact laid_stored h (hcount hstores.valid) hstores

/-! ## Closing -/

theorem laid_close (h : Laid p) (hk : FilesOk p.k)
    (hdone : (ksysClose p.k fd).done = some (r, k')) : Laid ⟨k', ksysCloseAt p.ptrs p.k fd⟩ := by
  have hrise := keepsHeap_of_steps (ksysClose_steps p.k fd) _ _ hdone
  unfold ksysClose at hdone
  split at hdone
  · rename_i hlookup
    cases hdone
    unfold ksysCloseAt
    rw [hlookup]
    exact h
  rename_i slot hlookup
  unfold ksysCloseAt
  rw [hlookup]
  dsimp only
  -- the write-back, with what it leaves of the pointers
  generalize hq : (if (p.k.files.fds slot).writable = true ∧ (p.k.files.fds slot).dirty = true then
    vfsWriteFileAt p.ptrs p.k.files.fs p.k.cwd (p.k.files.fds slot).path
      (if p.ptrs.writeBuf slot = 0 then given fun _ => 0 else bytesAt (p.ptrs.writeBuf slot))
      (p.k.files.fds slot).writeSize else p.ptrs) = q
  have hback : FilledAt p q ∧ ∀ p', p'.k.files.fs = (fdWriteBack p.k (p.k.files.fds slot)).2 →
      p'.ptrs.node = q.node → p'.ptrs.ram = q.ram →
        ∀ n < p'.k.files.fs.tree.count, NodeMoves true p p' n := by
    unfold fdWriteBack
    by_cases hdirty : (p.k.files.fds slot).writable = true ∧ (p.k.files.fds slot).dirty = true
    · obtain ⟨hne, hbytes, hblock, -⟩ := EntryOk.buffer h hdirty.1
      rw [if_pos hdirty, if_neg hne] at hq
      rw [if_pos hdirty, ← hq]
      exact vfsWriteFileAt_moves _ h hk.tree hk.cwd (below_bytesAt hblock)
        fun i hi => (hbytes i hi).symm
    · rw [if_neg hdirty] at hq
      rw [if_neg hdirty, ← hq]
      refine ⟨.refl p, fun p' hfs hnode _ n hn => ?_⟩
      have hsame : Edited (fun _ _ => True) (fun _ _ => False) p.k.files.fs.tree
          p'.k.files.fs.tree := by
        rw [hfs]
        exact .refl
      exact nodeMoves_edit hsame hnode hn
  obtain ⟨hfilled, hnodes⟩ := hback
  split at hdone
  · rename_i fs heq
    rw [heq] at hnodes ⊢
    cases hdone
    refine h.step (fun _ => False) true 0 hrise (hfilled.sameBut _) (hnodes _ rfl rfl rfl) fun s => ?_
    exact sameSlot h (congrFun hfilled.data s) (congrFun hfilled.writeBuf s) rfl id
  · rename_i fs heq
    rw [heq] at hnodes ⊢
    cases hdone
    refine h.step (fun _ => False) true 0 hrise (hfilled.sameBut _) (hnodes _ rfl rfl rfl) fun s => ?_
    by_cases hs : s = slot
    · rw [hs]
      exact .closed (Function.update_self _ _ _) ((fds_setFd _ _ _ _).trans (if_pos rfl))
    · refine sameSlot h ?_ ?_ ((fds_setFd _ _ _ _).trans (if_neg hs)) id
      · exact (Function.update_of_ne hs _ _).trans (congrFun hfilled.data s)
      · exact (Function.update_of_ne hs _ _).trans (congrFun hfilled.writeBuf s)

/-! ## Opening -/

variable {found : U32 × Pointers} {full : CStr} {fs₂ : Fs}
variable {new : List CStr → VfsNodeType → Prop}

theorem slotMoves_looks {entry : FdEntry} (hentry : p'.k.files.fds slot = entry)
    (hdata : p'.ptrs.data slot = q) (hbuf : p'.ptrs.writeBuf slot = 0) (hok : EntryOk 0 entry)
    (hblock : (placement p).Seen (blockAt q entry.size.toNat) ∨ shows = true ∧
      (blockAt q entry.size.toNat).Within (placement p).mark (placement p').mark)
    (hbytes : Holds p'.ptrs.ram q entry.size.toNat (byteAt entry)) :
    SlotMoves S shows s p p' slot := by
  apply SlotMoves.looks hbuf
  all_goals rw [hentry]
  · exact hok
  · rw [hdata]
    exact hblock
  · rw [hdata]
    exact hbytes

/-- The descriptor of a file that is opened for reading looks at its block. -/
theorem laid_openRead (slot : Fin fdMax) (h : Laid p)
    (hedits : Edited new (fun _ _ => False) p.k.files.fs.tree fs₂.tree)
    (hrise : Rises p.k.files.fs.heap fs₂.heap)
    (hfound : FoundAt p found data size fs₂.heap.current.toNat)
    (hw : ¬(openEntry p.k.pid full data size flags).writable = true) :
    Laid ⟨(p.k.setFs fs₂).setFd slot (openEntry p.k.pid full data size flags),
      { found.2.reset slot with
        data := Function.update (found.2.reset slot).data slot found.1 }⟩ := by
  refine h.step (fun _ => False) true 0 hrise ?ram (fun n hn => nodeMoves_edit hedits hfound.node hn)
    fun s => ?slots
  case ram => exact hfound.filled.sameBut _
  case slots =>
    by_cases hs : s = slot
    · rw [hs]
      refine slotMoves_looks ((fds_setFd _ _ _ _).trans (if_pos rfl)) (Function.update_self _ _ _)
        (Function.update_self _ _ _) ?_ (hfound.block.imp id fun hfresh => ⟨rfl, hfresh⟩)
        hfound.bytes
      refine ⟨iff_of_true rfl rfl, nofun, ?_, fun hw' => absurd hw' hw⟩
      show (if flags &&& oAppend ≠ 0 then size else 0).toNat ≤ size.toNat
      split
      · exact Nat.le_refl _
      · exact Nat.zero_le _
    · refine sameSlot h ?_ ?_ ((fds_setFd _ _ _ _).trans (if_neg hs)) id
      · refine (Function.update_of_ne hs _ _).trans ((Function.update_of_ne hs _ _).trans ?_)
        exact congrFun hfound.filled.data s
      · exact (Function.update_of_ne hs _ _).trans (congrFun hfound.filled.writeBuf s)

theorem initialSize_cases (size flags : U32) :
    (initialSize size flags).toNat = 0 ∨ (initialSize size flags).toNat = size.toNat := by
  unfold initialSize
  split
  · exact Or.inl rfl
  · exact Or.inr rfl

structure Copied (e₁ e' : FdEntry) (data : Option Bytes) (size flags : U32) (b : Nat → U8) :
    Prop where
  buffer : e'.writeBuf = some b
  size_eq : e'.writeSize = initialSize size flags
  capacity : e'.writeCapacity = e₁.writeCapacity
  offset : e'.offset.toNat ≤ (initialSize size flags).toNat
  bytes : ∀ i < (initialSize size flags).toNat, b i = (data.getD []).getD i 0

theorem openForWrite_copied (hoff : e.offset.toNat ≤ size.toNat)
    (h : openForWrite mach heap e data size flags = some (e', heap')) :
    ∃ e₁ b, fdEnsureWriteCapacity mach heap e (initialSize size flags + 1) = some (e₁, heap') ∧
      Copied e₁ e' data size flags b := by
  obtain ⟨e₁, hens, rfl⟩ := openForWrite_some h
  refine ⟨e₁, _, hens, rfl, rfl, rfl, ?_, fun i hi => ?_⟩
  · show (if flags &&& oTrunc ≠ 0 then 0 else e₁.offset).toNat ≤ (initialSize size flags).toNat
    unfold initialSize
    split
    · exact Nat.le_refl _
    · rw [(fdEnsureWriteCapacity_grown hens).offset]
      exact hoff
  · rw [Function.update_of_ne (Nat.ne_of_lt hi), if_pos hi]

theorem found_others (hfound : FoundAt p found data size mark) {s : Fin fdMax} (hs : s ≠ slot) :
    (found.2.reset slot).data s = p.ptrs.data s ∧
      (found.2.reset slot).writeBuf s = p.ptrs.writeBuf s :=
  ⟨(Function.update_of_ne hs _ _).trans (congrFun hfound.filled.data s),
    (Function.update_of_ne hs _ _).trans (congrFun hfound.filled.writeBuf s)⟩

theorem laid_noRoom (slot : Fin fdMax) (h : Laid p)
    (hedits : Edited new (fun _ _ => False) p.k.files.fs.tree fs₂.tree)
    (hrise : Rises p.k.files.fs.heap fs₂.heap)
    (hfound : FoundAt p found data size fs₂.heap.current.toNat) :
    Laid ⟨(p.k.setFs fs₂).setFd slot emptyFd, found.2.reset slot⟩ := by
  refine h.step (fun _ => False) true 0 hrise (hfound.filled.sameBut _)
    (fun n hn => nodeMoves_edit hedits hfound.node hn) fun s => ?_
  by_cases hs : s = slot
  · rw [hs]
    exact .closed (Function.update_self _ _ _) ((fds_setFd _ _ _ _).trans (if_pos rfl))
  · obtain ⟨hdata, hbuf⟩ := found_others hfound hs
    exact sameSlot h hdata hbuf ((fds_setFd _ _ _ _).trans (if_neg hs)) id

def copiedAt (q : Pointers) (heap : Heap) (slot : Fin fdMax) (e : FdEntry) (data size : U32) :
    Pointers :=
  let q := fdEnsureWriteCapacityAt q heap slot e (size + 1)
  let writeBuf := q.writeBuf slot
  { q with
    ram := storeNul writeBuf size (copyLoop writeBuf (bytesAt data) size.toNat q.ram)
    data := Function.update q.data slot writeBuf }

/-- The buffer of a new descriptor: a fresh block with the bytes of the file, and nothing else
below the break has changed. -/
structure Buffered (q₀ q : Pointers) (heap heap' : Heap) (slot : Fin fdMax) (capacity size : U32)
    (contents : Option Bytes) : Prop where
  node : q.node = q₀.node
  data : ∀ s, s ≠ slot → q.data s = q₀.data s
  writeBuf : ∀ s, s ≠ slot → q.writeBuf s = q₀.writeBuf s
  ram : ∀ a : U32, a.toNat < heap.current.toNat → q.ram a = q₀.ram a
  room : size.toNat < capacity.toNat
  fresh : HeapUse.Fresh heap (q.writeBuf slot) capacity heap'
  bytes : ∀ i < size.toNat, bytesAt (q.writeBuf slot) q.ram i = (contents.getD []).getD i 0

theorem copiedAt_spec (q₀ : Pointers) {data₀ initial : U32} (slot : Fin fdMax) (hfine : HeapFine heap)
    (hcap : e.writeCapacity = 0) (hsize : e.writeSize = 0)
    (hstop : (blockAt data₀ initial.toNat).stop ≤ heap.current.toNat)
    (hbytes : ∀ i < initial.toNat, q₀.ram (data₀ + BitVec.ofNat 32 i) = (data.getD []).getD i 0)
    (hens : fdEnsureWriteCapacity mach heap e (initial + 1) = some (e', heap'))
    (hmax : initial.toNat < 2 ^ 32 - 1) :
    Buffered q₀ (copiedAt q₀ heap slot e data₀ initial) heap heap' slot e'.writeCapacity initial
      data := by
  have hlow := hfine.low
  have hnone : e.writeSize.toNat = 0 := by
    rw [hsize]
    rfl
  have hensured := ensureAt_spec (q := q₀) (e := e) slot heap.current.toNat hfine (Nat.le_refl _)
    (by rw [hnone]; exact .zero _ _ _) (by rw [hnone]; exact Nat.zero_le _)
    (by rw [hnone]; exact Nat.zero_le _) (fun _ => hsize) hens
  unfold copiedAt
  generalize fdEnsureWriteCapacityAt q₀ heap slot e (initial + 1) = q at hensured ⊢
  have hroom : initial.toNat < e'.writeCapacity.toNat := by
    have hle : (initial + 1).toNat ≤ e'.writeCapacity.toNat := hensured.room
    bv_omega
  -- an empty buffer is never large enough, so the buffer is a fresh block
  have hfresh : HeapUse.Fresh heap (q.writeBuf slot) e'.writeCapacity heap' := by
    rcases hensured.block with ⟨-, hsame, -⟩ | hfresh
    · rw [hsame, hcap] at hroom
      exact absurd hroom (Nat.not_lt_zero _)
    · exact hfresh
  have hbufLow := hfresh.low
  have hbufHigh := hfresh.high
  have hlimit := hfresh.fine.low
  obtain ⟨hsame, hcopied⟩ := @fill_fresh (q.writeBuf slot) (bytesAt data₀)
    heap.current.toNat q.ram initial hbufLow (by omega) (below_bytesAt hstop)
  constructor
  case node => exact hensured.node
  case data =>
    intro s hs
    exact (Function.update_of_ne hs _ _).trans (congrFun hensured.data s)
  case writeBuf => exact hensured.others
  case ram => exact fun a ha => (hsame a ha).trans (hensured.ram a ha)
  case room => exact hroom
  case fresh => exact hfresh
  case bytes =>
    intro i hi
    have hblock : blockAt data₀ initial.toNat = ⟨data₀.toNat, initial.toNat⟩ := if_neg (by omega)
    rw [hblock] at hstop
    have hstop' : data₀.toNat + initial.toNat ≤ heap.current.toNat := hstop
    have hsource : bytesAt data₀ q.ram i = q₀.ram (data₀ + BitVec.ofNat 32 i) :=
      hensured.ram _ (by bv_omega)
    exact (hcopied i hi).trans (hsource.trans (hbytes i hi))

/-- The descriptor of a file that is opened for writing has a fresh buffer. -/
theorem laid_buffered (slot : Fin fdMax) (h : Laid p)
    (hedits : Edited new (fun _ _ => False) p.k.files.fs.tree fs₂.tree)
    (hrise : Rises p.k.files.fs.heap fs₂.heap)
    (hfound : FoundAt p found data size fs₂.heap.current.toNat)
    (hopen : openForWrite mach fs₂.heap (openEntry p.k.pid full data size flags) data size flags =
      some (e', heap')) :
    Laid ⟨((p.k.setFs fs₂).setFs { fs₂ with heap := heap' }).setFd slot e',
      copiedAt (found.2.reset slot) fs₂.heap slot (openEntry p.k.pid full data size flags) found.1
        (initialSize size flags)⟩ := by
  obtain ⟨hfine, hmark⟩ := hrise h.heap
  have hsize := hfound.size_lt
  have hinitial := initialSize_cases size flags
  have hoff : (openEntry p.k.pid full data size flags).offset.toNat ≤ size.toNat := by
    show (if flags &&& oAppend ≠ 0 then size else 0).toNat ≤ size.toNat
    split
    · exact Nat.le_refl _
    · exact Nat.zero_le _
  obtain ⟨e₁, b, hens, hcopy⟩ := openForWrite_copied hoff hopen
  have hbuffered := copiedAt_spec (found.2.reset slot) slot hfine rfl rfl
    (hfound.stop_le h hmark hinitial) (fun i hi => hfound.bytes i (by omega)) hens (by omega)
  have hbufLow := hbuffered.fresh.low
  refine h.step (fun _ => False) false slot
    (hrise.trans (rises_of_allocs (fdEnsureWriteCapacity_allocs hens))) ?ram
    (fun n hn => nodeMoves_edit hedits (hbuffered.node.trans hfound.node) hn) fun s => ?slots
  case ram =>
    intro a ha _
    exact (hbuffered.ram a (Nat.lt_of_lt_of_le ha hmark)).trans (hfound.filled.ram a ha)
  case slots =>
    by_cases hs : s = slot
    · rw [hs]
      refine slotMoves_buffer ((fds_setFd _ _ _ _).trans (if_pos rfl)) hcopy.buffer rfl
        hbuffered.fresh.pos ?_ ?_ (Or.inr ⟨Nat.le_trans hmark hbufLow, ?_⟩) ?_
      · rw [hcopy.size_eq, hcopy.capacity]
        exact hbuffered.room
      · rw [hcopy.size_eq]
        exact hcopy.offset
      · rw [hcopy.capacity]
        exact hbuffered.fresh.high
      · rw [hcopy.size_eq]
        exact fun i hi => (hbuffered.bytes i hi).trans (hcopy.bytes i hi).symm
    · obtain ⟨hdata, hbuf⟩ := found_others hfound hs
      exact sameSlot h ((hbuffered.data s hs).trans hdata) ((hbuffered.writeBuf s hs).trans hbuf)
        ((fds_setFd _ _ _ _).trans (if_neg hs)) id

theorem ksysOpenAt_eq (mach : Machine) {path : U32} {kpath : CStr} {made : Bool}
    (hnames : Names p.k path kpath full) (htouches : Touches p.k flags full made fs₁) :
    ksysOpenAt mach p.ptrs p.k path flags =
      if ¬made then p.ptrs
      else
        let found := vfsReadFileAt mach p.ptrs fs₁ p.k.cwd full
        match vfsReadFile mach fs₁ p.k.cwd full with
        | some (some (bytes, size), fs) =>
          match fdAllocSlot p.k.files.fds with
          | none => found.2
          | some slot => fdOpenAt mach found.2 (p.k.setFs fs) slot full found.1 bytes size flags
        | _ => found.2 := by
  have hnull : path ≠ 0 := by
    rintro rfl
    cases hnames.copied
  unfold Touches at htouches
  unfold ksysOpenAt
  rw [if_neg hnull, hnames.copied]
  dsimp only
  rw [hnames.absPath]
  dsimp only
  rewrite [htouches]
  rfl

theorem ksysOpenAt_refused {path : U32} (hnot : ∀ kpath full, ¬Names p.k path kpath full) :
    ksysOpenAt mach p.ptrs p.k path flags = p.ptrs := by
  unfold ksysOpenAt
  split
  · rfl
  split
  · rfl
  rename_i hcopied
  split
  · rfl
  · rename_i hfull
    exact absurd ⟨hcopied, hfull⟩ (hnot _ _)

theorem laid_slotDone (h : Laid p)
    (hedits : Edited new (fun _ _ => False) p.k.files.fs.tree fs₂.tree)
    (hrise : Rises p.k.files.fs.heap fs₂.heap)
    (hfound : FoundAt p found data size fs₂.heap.current.toNat)
    (hdone : SlotDone mach (p.k.setFs fs₂) slot full data size flags r k') :
    Laid ⟨k', fdOpenAt mach found.2 (p.k.setFs fs₂) slot full found.1 data size flags⟩ := by
  unfold fdOpenAt
  dsimp only
  cases hdone with
  | noRoom hwritable hopen =>
      have hens := openForWrite_none hopen
      unfold initialSize at hens
      rw [if_pos hwritable, hens]
      exact laid_noRoom slot h hedits hrise hfound
  | buffered hwritable hopen =>
      obtain ⟨e₁, hens, -⟩ := openForWrite_some hopen
      unfold initialSize at hens
      rw [if_pos hwritable, hens]
      exact laid_buffered slot h hedits hrise hfound hopen
  | plain hplain =>
      have hnot : ¬(openEntry (p.k.setFs fs₂).pid full data size flags).writable = true :=
        Bool.eq_false_iff.mp hplain
      rw [if_neg hnot]
      exact laid_openRead slot h hedits hrise hfound hnot

theorem laid_open {path : U32} (h : Laid p) (hk : FilesOk p.k)
    (hdone : (ksysOpen mach p.k path flags).done = some (r, k')) :
    Laid ⟨k', ksysOpenAt mach p.ptrs p.k path flags⟩ := by
  cases ksysOpen_cases hdone with
  | refused _ hnot =>
      rw [ksysOpenAt_refused hnot]
      exact h
  | unmade hnames htouches =>
      rw [ksysOpenAt_eq mach hnames htouches, if_pos Bool.false_ne_true]
      obtain ⟨hedits, -⟩ := touched_edits hk.tree hk.cwd htouches
      exact h.edit (rises_of_steps (touches_steps htouches)) hedits rfl (.refl p) rfl
  | @unread _ full fs₁ fs₂ hnames htouches hread =>
      have hrise := rises_of_steps (touches_steps htouches)
      obtain ⟨hfine, hmark⟩ := hrise h.heap
      obtain ⟨hfilled, hnode⟩ := @vfsReadFileAt_filled p fs₁ p.k.cwd full mach hfine hmark
      obtain ⟨hedits, -⟩ := touched_edits hk.tree hk.cwd htouches
      rw [← (vfsReadFile_keeps hread).1] at hedits
      rw [ksysOpenAt_eq mach hnames htouches, if_neg (not_not.mpr rfl), hread]
      exact h.edit (hrise.trans (rises_of_steps (vfsReadFile_steps hread))) hedits rfl hfilled hnode
  | @noSlot _ full fs₁ fs₂ _ _ hnames htouches hread hslot =>
      have hrise := rises_of_steps (touches_steps htouches)
      obtain ⟨hfine, hmark⟩ := hrise h.heap
      obtain ⟨hfilled, hnode⟩ := @vfsReadFileAt_filled p fs₁ p.k.cwd full mach hfine hmark
      obtain ⟨hedits, -⟩ := touched_edits hk.tree hk.cwd htouches
      rw [← (vfsReadFile_keeps hread).1] at hedits
      rw [ksysOpenAt_eq mach hnames htouches, if_neg (not_not.mpr rfl), hread]
      dsimp only
      rw [hslot]
      exact h.edit (hrise.trans (rises_of_steps (vfsReadFile_steps hread))) hedits rfl hfilled hnode
  | @opened _ full fs₁ fs₂ data size slot _ _ hnames htouches hread hslot hopen =>
      have hrise := rises_of_steps (touches_steps htouches)
      obtain ⟨hfine, hmark⟩ := hrise h.heap
      obtain ⟨hedits, -⟩ := touched_edits hk.tree hk.cwd htouches
      have hcwd : p.k.cwd < fs₁.tree.count := Nat.lt_of_lt_of_le hk.cwd hedits.count_le
      have hfound := vfsReadFileAt_spec h hedits (hedits.treeOk hk.tree) hcwd hfine hmark hread
      rw [← (vfsReadFile_keeps hread).1] at hedits
      rw [ksysOpenAt_eq mach hnames htouches, if_neg (not_not.mpr rfl), hread]
      dsimp only
      rw [hslot]
      exact laid_slotDone h hedits (hrise.trans (rises_of_steps (vfsReadFile_steps hread))) hfound hopen

/-! ## All calls -/

theorem ksysStatAt_filled (h : Laid p) (path st : U32) :
    FilledAt p (ksysStatAt mach p.ptrs p.k path st) ∧
      (ksysStatAt mach p.ptrs p.k path st).node = p.ptrs.node := by
  unfold ksysStatAt
  repeat' split
  all_goals first
    | exact ⟨.refl p, rfl⟩
    | exact vfsReadFileAt_filled h.heap (Nat.le_refl _)

theorem laid_call (h : Laid p) (hk : FilesOk p.k)
    (hmem : num = sysWrite → validateBuffer p.k.core a2 a3 = true → a3.toNat < 2 ^ 31)
    (hdone : (syscallEntry mach p.k num a1 a2 a3 0 0).done = some (r, k')) :
    Laid ⟨k', syscallAt mach p num a1 a2 a3⟩ := by
  unfold syscallAt
  by_cases hwrite : num = sysWrite
  · subst hwrite
    exact laid_write h (hmem rfl) hdone
  rw [if_neg hwrite]
  by_cases hopen : num = sysOpen
  · subst hopen
    exact laid_open h hk hdone
  rw [if_neg hopen]
  by_cases hclose : num = sysClose
  · subst hclose
    exact laid_close h hk hdone
  rw [if_neg hclose]
  have heffect := syscallEntry_effect hk.tree hk.cwd hdone
  have hrise := keepsHeap_of_steps (syscallEntry_steps mach p.k num a1 a2 a3 0 0) r k' hdone
  by_cases hread : num = sysRead
  · subst hread
    exact laid_read h hdone
  have hedits : Edited (fun _ _ => True) (fun _ _ => False) p.k.files.fs.tree k'.files.fs.tree :=
    heffect.edits.mono (fun _ _ => id) fun _ _ hfill => hclose hfill.1
  have hfds : k'.files.fds = p.k.files.fds := by
    funext s
    apply heffect.fds
    rintro (⟨hmem, -⟩ | ⟨hnum, -⟩)
    · simp only [List.mem_cons, List.not_mem_nil, or_false] at hmem
      rcases hmem with hnum | hnum | hnum
      · exact hread hnum
      · exact hwrite hnum
      · exact hclose hnum
    · exact hopen hnum
  by_cases hstat : num = sysStat
  · rw [if_pos hstat]
    obtain ⟨hfilled, hnode⟩ := @ksysStatAt_filled p mach h a1 a2
    exact h.edit hrise hedits hfds hfilled hnode
  · rw [if_neg hstat]
    exact h.edit hrise hedits hfds (.refl p) rfl

end SlopOS.Proofs.PlacedCalls
