import SlopOS.Proofs.FileCalls
import SlopOS.Proofs.FileCursor
import SlopOS.Proofs.PrintedPaths
/-!
# Writing at a cursor

A descriptor opened for writing has a buffer of its own.  Writing through it is
writing at its cursor, however often the buffer has to grow.
-/

namespace SlopOS.Proofs.FileWrites

open SlopOS.Support SlopOS.Kernel
open SlopOS.Proofs.FileTree SlopOS.Proofs.FilePaths SlopOS.Proofs.FileEdits
open SlopOS.Proofs.SystemCalls SlopOS.Proofs.FileOutcomes SlopOS.Proofs.FileCalls SlopOS.Proofs.FileCursor
open SlopOS.Proofs.PrintedPaths

variable {mach : Machine} {k k' : KState} {fd r : Int} {slot : Fin fdMax} {buf len size flags : U32}
variable {c : Cursor U8} {e e' : FdEntry} {heap heap' : Heap} {data : Option Bytes}
variable {fs fs' fs₁ fs₂ : Fs} {t : VfsTree} {n cwd : Nat} {path : U32} {kpath full : CStr}

/-! ## The buffer -/

structure SameOwner (e e' : FdEntry) : Prop where
  used : e'.used = e.used
  pid : e'.pid = e.pid
  readable : e'.readable = e.readable
  writable : e'.writable = e.writable
  path : e'.path = e.path

/-- Growing the buffer keeps the bytes written. -/
structure Grown (e e' : FdEntry) : Prop where
  owner : SameOwner e e'
  offset : e'.offset = e.offset
  writeSize : e'.writeSize = e.writeSize
  dirty : e'.dirty = e.dirty
  bytes : ∀ i < e.writeSize.toNat,
    (e'.writeBuf.getD fun _ => 0) i = (e.writeBuf.getD fun _ => 0) i

theorem fdEnsureWriteCapacity_grown {needed : U32}
    (h : fdEnsureWriteCapacity mach heap e needed = some (e', heap')) : Grown e e' := by
  cases fdEnsureWriteCapacity_cases h with
  | roomy => exact ⟨⟨rfl, rfl, rfl, rfl, rfl⟩, rfl, rfl, rfl, fun _ _ => rfl⟩
  | moved _ _ _ hbytes => exact ⟨⟨rfl, rfl, rfl, rfl, rfl⟩, rfl, rfl, rfl, hbytes⟩

theorem Views.byte (h : Views e c) {i : Nat} (hi : i < c.elems.length) :
    c.elems[i]? = some (byteAt e i) := by
  have hlt : i < (contentsOf e).length := by
    rw [h.elems]
    exact hi
  rw [← h.elems, List.getElem?_eq_getElem hlt, getElem_contentsOf]

theorem views_of_bytes {b : Nat → U8} (hbuf : e.writeBuf = some b)
    (hlen : e.writeSize.toNat = c.elems.length)
    (hbytes : ∀ i < c.elems.length, c.elems[i]? = some (b i))
    (hpos : e.offset.toNat = c.pos) : Views e c where
  elems := by
    have hsize : fdSize e = e.writeSize := by simp [fdSize, hbuf]
    apply List.ext_getElem
    · rw [length_contentsOf, hsize, hlen]
    · intro i hi hi'
      have hbyte := hbytes i hi'
      rw [List.getElem?_eq_getElem hi', Option.some.injEq] at hbyte
      rw [getElem_contentsOf, hbyte]
      simp [byteAt, hbuf]
  pos := hpos

/-! ## `ksys_write` -/

/-- A descriptor with a buffer of its own, at cursor `c`. -/
structure Writable (e : FdEntry) (c : Cursor U8) : Prop where
  writable : e.writable = true
  buffered : e.writeBuf.isSome
  views : Views e c

theorem toNat_of_toInt_nonneg (h : 0 ≤ toInt len) : toInt len = len.toNat := by
  unfold toInt at h ⊢
  rw [BitVec.toInt_eq_toNat_cond] at h ⊢
  split at h
  · rw [if_pos ‹_›]
  · have hlt := len.isLt
    omega

theorem writtenEntry_views (hstores : Storing mach k fd buf len slot e heap)
    (hw : Writable (k.files.fds slot) c) :
    Views (writtenEntry k e ((k.files.fds slot).offset + len) buf len)
      (c.write (ByteMem.load k.core.mem buf len.toNat)) := by
  obtain ⟨-, hoffset, hsize, -, hbytes⟩ := fdEnsureWriteCapacity_grown hstores.grown
  obtain ⟨old, hold⟩ := Option.isSome_iff_exists.mp hw.buffered
  rw [hold] at hbytes
  have hpos := hw.views.pos
  have hlen := hw.views.length
  have hlenSize : c.elems.length = (k.files.fds slot).writeSize.toNat := by
    rw [hlen]
    simp [fdSize, hold]
  have hview : ∀ i < c.elems.length, c.elems[i]? = some ((e.writeBuf.getD fun _ => 0) i) := by
    intro i hi
    rw [hbytes i (by omega), Views.byte hw.views hi]
    simp [byteAt, hold]
  have hle := c.pos_le
  have hwlen := c.length_write (ByteMem.load k.core.mem buf len.toNat)
  rw [ByteMem.length_load] at hwlen
  have hnew := toNat_newSize e.writeSize hstores.exact
  rw [hsize, hpos, ← hlenSize, ← hwlen] at hnew
  refine views_of_bytes rfl (by rw [← hnew, ← hsize]; rfl) (fun i hi => ?_) ?_
  · rw [hwlen] at hi
    rw [Cursor.getElem?_write, hsize, hoffset, hpos, ← hlenSize, ByteMem.length_load]
    unfold writeInto
    dsimp only
    rw [Function.update_of_ne (by omega)]
    split
    · rename_i hmid
      rw [List.getElem?_eq_getElem (by rw [ByteMem.length_load]; omega)]
      simp [ByteMem.load]
    · rename_i hmid
      rw [if_neg (by omega), hview i (by omega)]
  · show ((k.files.fds slot).offset + len).toNat = c.pos + _
    rw [ByteMem.toNat_add_of_not_lt hstores.exact, hpos, ByteMem.length_load]

theorem ksysWrite_done (hlookup : fdLookup k.files.fds fd k.pid = some slot)
    (hw : Writable (k.files.fds slot) c) (h : (ksysWrite mach k fd buf len).done = some (r, k'))
    (hr : 0 ≤ r) :
    r = len.toNat ∧ ∃ entry heap,
      k' = (k.setFs { k.files.fs with heap := heap }).setFd slot entry ∧
      Writable entry (c.write (ByteMem.load k.core.mem buf len.toNat)) ∧
      SameOwner (k.files.fds slot) entry ∧ entry.dirty = true := by
  have hthree := (fdLookup_spec hlookup).2.2
  cases ksysWrite_cases h with
  | refused hcode => omega
  | shown hfd => omega
  | stored hstores =>
      obtain rfl := Option.some.inj (hlookup.symm.trans hstores.lookup)
      have howner := (fdEnsureWriteCapacity_grown hstores.grown).owner
      exact ⟨toNat_of_toInt_nonneg hr, _, _, rfl,
        ⟨howner.writable.trans hw.writable, rfl, writtenEntry_views hstores hw⟩,
        ⟨howner.used, howner.pid, howner.readable, howner.writable, howner.path⟩, rfl⟩

/-! ## `ksys_open` -/

/-- Where a descriptor starts: on nothing with `O_TRUNC`, else on the contents, with `O_APPEND` at
their end. -/
def startCursor (old : Bytes) (flags : U32) : Cursor U8 :=
  if flags &&& oTrunc ≠ 0 then ⟨[], 0, Nat.le_refl 0⟩
  else if flags &&& oAppend ≠ 0 then ⟨old, old.length, Nat.le_refl _⟩
  else ⟨old, 0, Nat.zero_le _⟩

theorem elems_startCursor (old : Bytes) (flags : U32) :
    (startCursor old flags).elems = if flags &&& oTrunc ≠ 0 then [] else old := by
  unfold startCursor
  split
  · rfl
  · split <;> rfl

theorem pos_startCursor (old : Bytes) (flags : U32) :
    (startCursor old flags).pos =
      if flags &&& oTrunc ≠ 0 then 0 else if flags &&& oAppend ≠ 0 then old.length else 0 := by
  unfold startCursor
  split
  · rfl
  · split <;> rfl

theorem openForWrite_spec (hoffset : e.offset = if flags &&& oAppend ≠ 0 then size else 0)
    (hwritable : e.writable = true)
    (h : openForWrite mach heap e data size flags = some (e', heap')) :
    Writable e' (startCursor ((List.range size.toNat).map fun i => (data.getD []).getD i 0) flags) ∧
      SameOwner e e' ∧ (e'.dirty = true ↔ flags &&& oTrunc ≠ 0 ∨ e.dirty = true) := by
  obtain ⟨entry, hgrow, rfl⟩ := openForWrite_some h
  obtain ⟨howner, hoff, -, hdirty, -⟩ := fdEnsureWriteCapacity_grown hgrow
  refine ⟨⟨howner.writable.trans hwritable, rfl, views_of_bytes rfl ?_ ?_ ?_⟩,
    ⟨howner.used, howner.pid, howner.readable, howner.writable, howner.path⟩, ?_⟩
  · rw [elems_startCursor]
    show (initialSize size flags).toNat = _
    unfold initialSize
    split
    · rfl
    · rw [List.length_map, List.length_range]
  · rw [elems_startCursor]
    unfold initialSize
    intro i hi
    split at hi
    · exact absurd hi (Nat.not_lt_zero i)
    · rename_i htrunc
      rw [List.length_map, List.length_range] at hi
      rw [if_neg htrunc, if_neg htrunc, Function.update_of_ne (Nat.ne_of_lt hi), if_pos hi]
      simp [hi]
  · rw [pos_startCursor, List.length_map, List.length_range]
    show (if flags &&& oTrunc ≠ 0 then 0 else entry.offset).toNat = _
    rw [hoff, hoffset]
    split
    · rfl
    · split <;> rfl
  · show (decide (flags &&& oTrunc ≠ 0) || entry.dirty) = true ↔ _
    rw [Bool.or_eq_true, decide_eq_true_eq, hdirty]

/-- What `ksys_open` has found when it comes to the descriptor. -/
structure Opening (mach : Machine) (k : KState) (path flags : U32) (kpath full : CStr)
    (fs₁ fs₂ : Fs) (data : Option Bytes) (size : U32) (slot : Fin fdMax) : Prop where
  copied : (copyUserCstr k.core path 128).1 = some kpath
  absPath : makeAbsPath k.files.fs.tree k.cwd kpath 128 = some full
  touched : (if flags &&& oCreat ≠ 0 then vfsTouch k.files.fs k.cwd full
    else (true, k.files.fs)) = (true, fs₁)
  found : vfsReadFile mach fs₁ k.cwd full = some (some (data, size), fs₂)
  free : fdAllocSlot k.files.fds = some slot

theorem ksysOpen_opening (h : (ksysOpen mach k path flags).done = some (fd, k')) (hfd : 0 ≤ fd) :
    ∃ kpath full fs₁ fs₂ data size slot, Opening mach k path flags kpath full fs₁ fs₂ data size slot ∧
      SlotDone mach (k.setFs fs₂) slot full data size flags fd k' := by
  cases ksysOpen_cases h with
  | refused hcode => rcases hcode with rfl | rfl <;> exact absurd hfd (by decide)
  | unmade => exact absurd hfd (by decide)
  | unread => exact absurd hfd (by decide)
  | noSlot => exact absurd hfd (by decide)
  | opened hnames htouches hread hslot hopen =>
      exact ⟨_, _, _, _, _, _, _, ⟨hnames.copied, hnames.absPath, htouches, hread, hslot⟩, hopen⟩

theorem Opening.done (h : Opening mach k path flags kpath full fs₁ fs₂ data size slot) :
    (ksysOpen mach k path flags).done =
      some (fdOpen mach (k.setFs fs₂) slot full data size flags) := by
  have hpath : path ≠ 0 := by
    rintro rfl
    have hcopied := h.copied
    cases hcopied
  have hpair := Prod.mk.eta (p := copyUserCstr k.core path 128)
  rw [h.copied] at hpair
  have hslot : fdAllocSlot ((k.setFs fs₁).setFs fs₂).files.fds = some slot := h.free
  have hfound : vfsReadFile mach (k.setFs fs₁).files.fs (k.setFs fs₁).cwd full = _ := h.found
  unfold ksysOpen
  rw [if_neg hpath, ← hpair]
  dsimp only
  rw [h.absPath]
  dsimp only
  rw [h.touched]
  dsimp only
  rw [if_neg (by decide), hfound]
  dsimp only
  rw [hslot]
  rfl

structure AbsText (full : CStr) : Prop where
  head : full.head? = some (chr '/')
  short : full.length < 128

theorem makeAbsPath_text (hlen : kpath.length < 128) (h : makeAbsPath t cwd kpath 128 = some full) :
    AbsText full := by
  unfold makeAbsPath at h
  rw [if_neg (by decide)] at h
  split at h
  · rename_i habs
    have hcopy : strCopy kpath 128 = kpath := List.take_of_length_le (by omega)
    rw [hcopy] at h
    obtain rfl := Option.some.inj h
    exact ⟨habs, hlen⟩
  · exact ⟨(words_join (cwdPath_head t cwd) h).1, (vfsPathJoin_eq h).2⟩

theorem AbsText.resolve (h : AbsText full) (cwd : Nat) :
    vfsResolveFrom t cwd full = vfsResolve t full := by
  unfold vfsResolve
  rw [vfsResolveFrom_eq, vfsResolveFrom_eq]
  unfold startOf
  rw [if_pos h.head, if_pos h.head]

theorem AbsText.check (h : AbsText full) (cwd : Nat) : vfsCheckPath t cwd full = full := by
  unfold vfsCheckPath
  rw [if_pos h.head]

theorem found_inTree (habs : AbsText full) (hgate : vfsMountSubpath full = none) :
    vfsReadFile mach fs cwd full = some (some (data, size), fs') ↔ fs' = fs ∧
      ∃ n, vfsResolve fs.tree full = some n ∧ (fs.tree.node n).type = .file ∧
        data = (fs.tree.node n).data ∧ size = (fs.tree.node n).size := by
  unfold vfsReadFile
  rw [habs.check, hgate]
  dsimp only
  rw [habs.resolve]
  cases vfsResolve fs.tree full with
  | none => simp
  | some n =>
      dsimp only
      by_cases hfile : (fs.tree.node n).type = .file
      · rw [if_pos hfile]
        simp only [Option.some.injEq, Prod.mk.injEq, exists_eq_left', hfile, true_and]
        constructor
        · rintro ⟨⟨hdata, hsize⟩, hfs⟩
          exact ⟨hfs.symm, hdata.symm, hsize.symm⟩
        · rintro ⟨hfs, hdata, hsize⟩
          exact ⟨⟨hdata.symm, hsize.symm⟩, hfs.symm⟩
      · rw [if_neg hfile]
        simp [hfile]

/-- The contents before the call: those of the file, or nothing where it has yet to be made. -/
def oldBytes (t : VfsTree) (full : CStr) : Bytes :=
  ((vfsResolve t full).map (fileBytes t)).getD []

theorem vfsTouch_oldBytes (hok : TreeOk fs.tree) (hcwd : cwd < fs.tree.count) (habs : AbsText full)
    (h : vfsTouch fs cwd full = (true, fs₁)) (hres : vfsResolve fs₁.tree full = some n) :
    fileBytes fs₁.tree n = oldBytes fs.tree full := by
  have hdot : full ≠ cstr "." := by
    rintro rfl
    exact absurd habs.head (by decide)
  have hdots : full ≠ cstr ".." := by
    rintro rfl
    exact absurd habs.head (by decide)
  have hslash : chr '/' ∈ full := List.mem_of_mem_head? habs.head
  unfold vfsTouch at h
  split at h
  · cases h
  rename_i parent name hparent
  have htarget := vfsParentDir_spec hparent
  have hleads : ∀ {u : VfsTree}, (∀ ws m, stepAll fs.tree (startOf cwd full) ws = some m →
      stepAll u (startOf cwd full) ws = some m) →
        vfsResolve u full = vfsFindChild u parent name := by
    intro u hsame
    rw [← habs.resolve cwd]
    rcases Target.resolve htarget hsame hdot hdots with heq | ⟨hno, -⟩
    · exact heq
    · exact absurd hslash hno
  unfold oldBytes
  split at h
  · obtain rfl := (Prod.mk.inj h).2
    rw [hres]
    rfl
  rename_i hfresh
  split at h
  · cases h
  · rename_i node fs₂ halloc
    cases h
    obtain ⟨htree, -, hadd, -⟩ := edited_alloc hok hcwd htarget hfresh halloc
    have hedit : Edited (fun _ _ => True) (fun _ _ => False) fs.tree fs₁.tree := by
      rw [htree]
      exact .add .refl hadd trivial
    have hstart := TreeOk.startOf_lt hok hcwd full
    rw [hleads fun _ _ => hedit.stepAll hok hstart, htree, hadd.find hok] at hres
    obtain rfl := Option.some.inj hres
    rw [hleads fun _ _ => id, hfresh, htree]
    unfold fileBytes
    rw [node_addNode_new]
    rfl

end SlopOS.Proofs.FileWrites
