import SlopOS.Kernel.Syscall
import SlopOS.Support.Cursor
/-!
# Open files as cursors

A descriptor in use stands for a cursor on the bytes it reads: those that
`ksys_open` found, or those of the write buffer.
-/

namespace SlopOS.Proofs.FileCursor

open SlopOS.Support SlopOS.Kernel

variable {k : KState} {fd : Int} {slot : Fin fdMax} {buf len : U32} {c : Cursor U8} {e : FdEntry}

def byteAt (e : FdEntry) : Nat → U8 :=
  match e.writeBuf with
  | some writeBuf => writeBuf
  | none =>
    match e.data with
    | .file bytes => fun i => (bytes.getD []).getD i 0
    | .writeBuf => fun _ => 0

def fdSize (e : FdEntry) : U32 := if e.writeBuf.isSome then e.writeSize else e.size

def contentsOf (e : FdEntry) : Bytes := (List.range (fdSize e).toNat).map (byteAt e)

structure Views (e : FdEntry) (c : Cursor U8) : Prop where
  elems : contentsOf e = c.elems
  pos : e.offset.toNat = c.pos

@[simp] theorem length_contentsOf (e : FdEntry) : (contentsOf e).length = (fdSize e).toNat := by
  unfold contentsOf
  rw [List.length_map, List.length_range]

theorem getElem_contentsOf {j : Nat} (hj : j < (contentsOf e).length) :
    (contentsOf e)[j] = byteAt e j := by
  simp [contentsOf]

theorem Views.length (h : Views e c) : c.elems.length = (fdSize e).toNat := by
  rw [← h.elems, length_contentsOf]

theorem Views.getD_read (h : Views e c) {n j : Nat} (hj : j < (c.read n).length) :
    (c.read n).getD j 0 = byteAt e (e.offset.toNat + j) := by
  have hlen := c.length_read n
  have hsize := h.length
  have hlt : c.pos + j < (contentsOf e).length := by
    rw [h.elems]
    omega
  have hget : (c.read n)[j] = (contentsOf e)[c.pos + j] := by
    simp only [Cursor.read, Cursor.rest, ← h.elems, List.getElem_take, List.getElem_drop]
  rw [List.getD_eq_getElem?_getD, List.getElem?_eq_getElem hj, Option.getD_some, hget, h.pos,
    getElem_contentsOf]

/-! ## `ksys_read` -/

def afterRead (k : KState) (slot : Fin fdMax) (buf : U32) (bs : Bytes) : KState :=
  (k.setMem (ByteMem.store k.core.mem buf bs.length fun j => bs.getD j 0)).setFd slot
    { k.files.fds slot with offset := (k.files.fds slot).offset + BitVec.ofNat 32 bs.length }

theorem fdReadFrom_done {src : Nat → U8} {size : U32} (hview : Views (k.files.fds slot) c)
    (hsrc : byteAt (k.files.fds slot) = src) (hsize : fdSize (k.files.fds slot) = size) :
    (fdReadFrom k slot src size buf len).done =
      some (((c.read len.toNat).length : Int), afterRead k slot buf (c.read len.toNat)) := by
  have hlen := c.length_read len.toNat
  rw [hview.length, hsize, ← hview.pos] at hlen
  unfold fdReadFrom
  by_cases hend : size ≤ (k.files.fds slot).offset
  · have hnil : c.read len.toNat = [] := by
      rw [← List.length_eq_zero_iff, hlen]
      have : size.toNat ≤ (k.files.fds slot).offset.toNat := hend
      omega
    rw [if_pos hend, hnil]
    unfold Outcome.ret afterRead
    simp only [List.length_nil, ByteMem.store_zero]
    congr 2
    unfold KState.setFd KState.setMem
    simp
  · rw [if_neg hend, ← hlen]
    have hstore : ByteMem.store k.core.mem buf (c.read len.toNat).length
        (fun j => src ((k.files.fds slot).offset.toNat + j)) =
        ByteMem.store k.core.mem buf (c.read len.toNat).length fun j => (c.read len.toNat).getD j 0 := by
      apply ByteMem.store_congr
      intro j hj
      rw [hview.getD_read hj, hsrc]
    unfold Outcome.ret afterRead
    rw [← hstore]

theorem ksysRead_done (hlookup : fdLookup k.files.fds fd k.pid = some slot)
    (hreadable : (k.files.fds slot).readable = true) (hvalid : validateBuffer k.core buf len = true)
    (hview : Views (k.files.fds slot) c) :
    (ksysRead k fd buf len).done =
      some (((c.read len.toNat).length : Int), afterRead k slot buf (c.read len.toNat)) := by
  have hfd : fd ≠ 0 := by
    rintro rfl
    unfold fdLookup at hlookup
    rw [dif_neg (by omega)] at hlookup
    cases hlookup
  unfold ksysRead
  rw [if_neg fun h => hfd h.1, if_neg (not_not.mpr hvalid), if_neg hfd, hlookup]
  dsimp only
  rw [if_neg (not_not.mpr hreadable)]
  cases hbuf : (k.files.fds slot).writeBuf with
  | some writeBuf =>
      exact fdReadFrom_done hview (by simp [byteAt, hbuf]) (by simp [fdSize, hbuf])
  | none =>
      have hsize : fdSize (k.files.fds slot) = (k.files.fds slot).size := by simp [fdSize, hbuf]
      cases hdata : (k.files.fds slot).data with
      | file bytes => exact fdReadFrom_done hview (by simp [byteAt, hbuf, hdata]) hsize
      | writeBuf => exact fdReadFrom_done hview (by simp [byteAt, hbuf, hdata]) hsize

theorem load_afterRead (bs : Bytes) (hbs : bs.length ≤ 2 ^ 32) :
    ByteMem.load (afterRead k slot buf bs).core.mem buf bs.length = bs :=
  ByteMem.load_store_getD k.core.mem buf bs hbs

theorem views_afterRead {n : Nat} (hview : Views (k.files.fds slot) c) :
    Views ((afterRead k slot buf (c.read n)).files.fds slot) (c.afterRead n) := by
  have hslot : (afterRead k slot buf (c.read n)).files.fds slot =
      { k.files.fds slot with
        offset := (k.files.fds slot).offset + BitVec.ofNat 32 (c.read n).length } :=
    Function.update_self _ _ _
  rw [hslot]
  constructor
  case elems => exact hview.elems
  case pos =>
    have hlen := c.length_read n
    have hle := c.pos_le
    have hsize := hview.length
    have hlt := (fdSize (k.files.fds slot)).isLt
    have hpos := hview.pos
    show _ = c.pos + (c.read n).length
    rw [BitVec.toNat_add, BitVec.toNat_ofNat, hpos]
    omega

/-! ## Reading to the end -/

/-- The process that runs has a readable descriptor, at cursor `c`. -/
structure OpenAt (k : KState) (fd : Int) (slot : Fin fdMax) (c : Cursor U8) : Prop where
  lookup : fdLookup k.files.fds fd k.pid = some slot
  readable : (k.files.fds slot).readable = true
  views : Views (k.files.fds slot) c

theorem fdLookup_congr {fds fds' : Fin fdMax → FdEntry} {pid : Int}
    (hused : ∀ i, (fds' i).used = (fds i).used) (hpid : ∀ i, (fds' i).pid = (fds i).pid) :
    fdLookup fds' fd pid = fdLookup fds fd pid := by
  unfold fdLookup
  simp only [hused, hpid]

theorem openAt_afterRead {n : Nat} (h : OpenAt k fd slot c) :
    OpenAt (afterRead k slot buf (c.read n)) fd slot (c.afterRead n) := by
  have hfds : ∀ i, ((afterRead k slot buf (c.read n)).files.fds i).used = (k.files.fds i).used ∧
      ((afterRead k slot buf (c.read n)).files.fds i).pid = (k.files.fds i).pid ∧
      ((afterRead k slot buf (c.read n)).files.fds i).readable = (k.files.fds i).readable := by
    intro i
    by_cases hi : i = slot
    · have hslot : (afterRead k slot buf (c.read n)).files.fds slot =
          { k.files.fds slot with
            offset := (k.files.fds slot).offset + BitVec.ofNat 32 (c.read n).length } :=
        Function.update_self _ _ _
      rw [hi, hslot]
      exact ⟨rfl, rfl, rfl⟩
    · have hother : (afterRead k slot buf (c.read n)).files.fds i = k.files.fds i :=
        Function.update_of_ne hi _ _
      rw [hother]
      exact ⟨rfl, rfl, rfl⟩
  constructor
  case lookup =>
    rw [fdLookup_congr (fun i => (hfds i).1) fun i => (hfds i).2.1]
    exact h.lookup
  case readable =>
    rw [(hfds slot).2.2]
    exact h.readable
  case views => exact views_afterRead h.views

/-- Reads one after the other, each into its own buffer; `none` where one fails. -/
def readAll (fd : Int) : KState → List (U32 × U32) → Option (List Bytes × KState)
  | k, [] => some ([], k)
  | k, (buf, len) :: rs =>
    match (ksysRead k fd buf len).done with
    | none => none
    | some (n, k') =>
      if n < 0 then none
      else (readAll fd k' rs).map fun (chunks, k'') =>
        (ByteMem.load k'.core.mem buf n.toNat :: chunks, k'')

theorem readAll_eq {rs : List (U32 × U32)} (h : OpenAt k fd slot c)
    (hvalid : ∀ r ∈ rs, validateBuffer k.core r.1 r.2 = true) :
    ∃ k', readAll fd k rs = some ((c.run (rs.map fun r => .read r.2.toNat)).1, k') ∧
      OpenAt k' fd slot (c.run (rs.map fun r => .read r.2.toNat)).2 ∧
        ∀ buf len, validateBuffer k'.core buf len = validateBuffer k.core buf len := by
  induction rs generalizing k c with
  | nil => exact ⟨k, rfl, h, fun _ _ => rfl⟩
  | cons r rs ih =>
      obtain ⟨buf, len⟩ := r
      have hdone := ksysRead_done h.lookup h.readable (hvalid _ List.mem_cons_self) h.views
      have hbound : (c.read len.toNat).length ≤ 2 ^ 32 := by
        have hlt := len.isLt
        rw [c.length_read]
        omega
      obtain ⟨k', hreads, hopen, hcore⟩ := ih (@openAt_afterRead k fd slot buf c len.toNat h)
        fun r hr => hvalid r (List.mem_cons_of_mem _ hr)
      refine ⟨k', ?_, hopen, hcore⟩
      rw [readAll, hdone]
      dsimp only
      rw [if_neg (by omega), hreads, Int.toNat_natCast, load_afterRead _ hbound]
      rfl

/-- However a file is read, the chunks follow one another in `bs`, and a read of something gives
nothing exactly when they make up all of it. -/
def ReadsToEnd (k : KState) (fd : Int) (bs : Bytes) : Prop :=
  ∀ rs : List (U32 × U32), (∀ r ∈ rs, validateBuffer k.core r.1 r.2 = true) →
    ∃ chunks k', readAll fd k rs = some (chunks, k') ∧ chunks.flatten <+: bs ∧
      ∀ buf len, validateBuffer k.core buf len = true → len ≠ 0 →
        ((ksysRead k' fd buf len).done.map Prod.fst = some 0 ↔ chunks.flatten = bs)

theorem readsToEnd_of_openAt (h : OpenAt k fd slot c) : ReadsToEnd k fd c.rest := by
  intro rs hvalid
  obtain ⟨k', hreads, hopen, hcore⟩ := readAll_eq h hvalid
  have hflat := c.flatten_run_reads (rs.map fun r => r.2.toNat)
  rw [List.map_map] at hflat
  change (c.run (rs.map fun r => .read r.2.toNat)).1.flatten ++
    (c.run (rs.map fun r => .read r.2.toNat)).2.rest = c.rest at hflat
  generalize c.run (rs.map fun r => .read r.2.toNat) = run at hreads hopen hflat
  refine ⟨run.1, k', hreads, ⟨run.2.rest, hflat⟩, fun buf len hbuf hlen => ?_⟩
  have hdone := ksysRead_done hopen.lookup hopen.readable ((hcore buf len).trans hbuf) hopen.views
  have hpos : 0 < len.toNat := by
    have : len.toNat ≠ 0 := fun hzero => hlen (BitVec.eq_of_toNat_eq hzero)
    omega
  have hzero : (ksysRead k' fd buf len).done.map Prod.fst = some 0 ↔
      (run.2.read len.toNat).length = 0 := by
    rw [hdone, Option.map_some, Option.some.injEq]
    exact Int.natCast_eq_zero
  rw [hzero, List.length_eq_zero_iff, run.2.read_eq_nil_iff hpos]
  constructor
  · intro hrest
    rw [hrest, List.append_nil] at hflat
    exact hflat
  · intro hall
    rw [← hflat] at hall
    exact List.append_right_eq_self.mp hall.symm

end SlopOS.Proofs.FileCursor
