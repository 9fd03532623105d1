import SlopOS.Proofs.StatOpen
import SlopOS.Proofs.StoreRuns
import SlopOS.User.Cat
/-!
# What `cat` shows

A run of `cat` over the kernel: the loop is left for every file, and the console gets the contents
and a newline, or the message.
-/

namespace SlopOS.Proofs.CatRuns

open SlopOS.Support SlopOS.Kernel SlopOS.User
open SlopOS.Proofs.FileCursor SlopOS.Proofs.FileOutcomes SlopOS.Proofs.StatOpen
open SlopOS.Proofs.StoreRuns SlopOS.Proofs.TreeRuns

variable {mach : Machine} {k k₁ : KState} {out text : CStr} {pl : Cat.Places} {fd : Int}
variable {slot : Fin fdMax} {fs : Fs} {c : Cursor U8} {path buf len a1 a2 a3 : U32}

/-! ## The calls -/

theorem entry_read : syscallEntry mach k sysRead a1 a2 a3 0 0 = ksysRead k (toInt a1) a2 a3 := rfl

theorem entry_write :
    syscallEntry mach k sysWrite a1 a2 a3 0 0 = ksysWrite mach k (toInt a1) a2 a3 := rfl

theorem entry_open : syscallEntry mach k sysOpen a1 a2 a3 0 0 = ksysOpen mach k a1 a2 := rfl

theorem entry_close : syscallEntry mach k sysClose a1 a2 a3 0 0 = ksysClose k (toInt a1) := rfl

theorem toInt_slot (slot : Fin fdMax) : toInt (toU32 slot.val) = slot.val := by
  have hlt : slot.val < 16 := slot.isLt
  exact toInt_toU32 (Int.natCast_nonneg _) (by omega)

theorem write_console (mach : Machine) (out : CStr) (hne : buf ≠ 0)
    (hvalid : validateBuffer k.core buf len = true) (hlen : len.toNat ≤ syscallWriteMax) :
    Cat.sysWrite mach 1 buf len ⟨k, out⟩ =
      some ((len.toNat : Int), ⟨k, out ++ ByteMem.load k.core.mem buf len.toNat⟩) := by
  have hone : toInt (toU32 1) = 1 := by decide
  unfold Cat.sysWrite Cat.int80
  rw [entry_write, hone]
  unfold ksysWrite
  rw [if_neg hne, if_neg (not_not.mpr hvalid), if_pos (Or.inl rfl), Nat.min_eq_left hlen]
  rfl

/-- A string in memory that a program may write out. -/
structure TextAt (k : KState) (ptr : U32) (s : CStr) : Prop where
  ne : ptr ≠ 0
  short : s.length ≤ syscallWriteMax
  load : ByteMem.load k.core.mem ptr s.length = s
  nul : k.core.mem (ptr + BitVec.ofNat 32 s.length) = 0
  noNul : 0 ∉ s
  valid : validateBuffer k.core ptr (BitVec.ofNat 32 s.length) = true

theorem TextAt.congr (h : TextAt k buf text) (hcore : k₁.core = k.core) : TextAt k₁ buf text := by
  obtain ⟨hne, hshort, hload, hnul, hno, hvalid⟩ := h
  rw [← hcore] at hload hnul hvalid
  exact ⟨hne, hshort, hload, hnul, hno, hvalid⟩

theorem cstrLenLoop_text {m : ByteMem.Mem} {ptr : U32} {s : CStr} {n : Nat}
    (hload : ByteMem.load m ptr s.length = s) (hnul : m (ptr + BitVec.ofNat 32 s.length) = 0)
    (hno : 0 ∉ s) (hn : s.length < n) : Cat.cstrLenLoop m n ptr = some s.length := by
  induction s generalizing ptr n with
  | nil =>
      obtain ⟨n, rfl⟩ := Nat.exists_eq_succ_of_ne_zero (Nat.ne_zero_of_lt hn)
      rw [Cat.cstrLenLoop, if_pos (by simpa using hnul)]
      rfl
  | cons c s ih =>
      obtain ⟨n, rfl⟩ := Nat.exists_eq_succ_of_ne_zero (Nat.ne_zero_of_lt hn)
      have hstep : ∀ j, ptr + BitVec.ofNat 32 (j + 1) = ptr + 1 + BitVec.ofNat 32 j := by
        intro j
        rw [Nat.add_comm, BitVec.ofNat_add, BitVec.add_assoc]
        rfl
      rw [List.length_cons] at hload hnul hn
      unfold ByteMem.load at hload
      rw [List.range_succ_eq_map, List.map_cons, List.map_map] at hload
      obtain ⟨hhead, htail⟩ := List.cons.inj hload
      have hc : m ptr = c := by simpa using hhead
      have hne : m ptr ≠ 0 := by
        rw [hc]
        rintro rfl
        exact hno List.mem_cons_self
      rw [Cat.cstrLenLoop, if_neg hne]
      have hrest : Cat.cstrLenLoop m n (ptr + 1) = some s.length := by
        refine ih ?_ ?_ (fun h => hno (List.mem_cons_of_mem _ h)) (by omega)
        · refine Eq.trans (List.map_congr_left fun j _ => ?_) htail
          exact congrArg m (hstep j).symm
        · rw [← hstep]
          exact hnul
      rw [hrest]
      rfl

theorem writeStr_text (h : TextAt k buf text) :
    Cat.writeStr mach buf ⟨k, out⟩ = some ⟨k, out ++ text⟩ := by
  have hshort : text.length ≤ 1024 := h.short
  have hlen : Cat.cstrLen k.core.mem buf = some (BitVec.ofNat 32 text.length) := by
    unfold Cat.cstrLen
    rw [if_neg h.ne, cstrLenLoop_text h.load h.nul h.noNul (by omega)]
    rfl
  have hnat : (BitVec.ofNat 32 text.length).toNat = text.length := by
    rw [BitVec.toNat_ofNat, Nat.mod_eq_of_lt (by omega)]
  unfold Cat.writeStr
  have hle : (BitVec.ofNat 32 text.length).toNat ≤ syscallWriteMax := by
    rw [hnat]
    exact h.short
  rw [hlen, Option.bind_some, write_console mach out h.ne h.valid hle, hnat, h.load]
  rfl

/-! ## The loop -/

/-- Where `cat` keeps its buffer and its newline. -/
structure Placed (k : KState) (pl : Cat.Places) : Prop where
  buf_ne : pl.buf ≠ 0
  buf_fits : pl.buf.toNat + 128 ≤ 2 ^ 32
  buf_valid : ∀ len : U32, len.toNat ≤ 128 → validateBuffer k.core pl.buf len = true
  newline_ne : pl.newline ≠ 0
  newline_valid : validateBuffer k.core pl.newline 1 = true
  newline_text : k.core.mem pl.newline = chr '\n'
  newline_apart : ¬ByteMem.InRange pl.buf 128 pl.newline

/-- Only the buffer and the offset of the descriptor are not as before. -/
def CopiedFrom (pl : Cat.Places) (slot : Fin fdMax) (k k' : KState) : Prop :=
  ∃ mem offset, k' = (k.setMem mem).setFd slot { k.files.fds slot with offset := offset } ∧
    ∀ a, ¬ByteMem.InRange pl.buf 128 a → mem a = k.core.mem a

theorem copiedFrom_afterRead {bs : Bytes} (hpl : Placed k pl) (hbs : bs.length ≤ 128) :
    CopiedFrom pl slot k (afterRead k slot pl.buf bs) := by
  refine ⟨_, _, rfl, fun a ha => ?_⟩
  have hfits := hpl.buf_fits
  refine ByteMem.store_of_not_inRange (by omega) fun hin => ha ?_
  unfold ByteMem.InRange at hin ⊢
  omega

theorem CopiedFrom.trans {k₂ : KState} (h : CopiedFrom pl slot k k₁)
    (h' : CopiedFrom pl slot k₁ k₂) : CopiedFrom pl slot k k₂ := by
  obtain ⟨mem, offset, rfl, hmem⟩ := h
  obtain ⟨mem', offset', rfl, hmem'⟩ := h'
  refine ⟨mem', offset', ?_, fun a ha => (hmem' a ha).trans (hmem a ha)⟩
  unfold KState.setFd KState.setMem
  simp

theorem CopiedFrom.placed (h : CopiedFrom pl slot k k₁) (hpl : Placed k pl) : Placed k₁ pl := by
  obtain ⟨mem, offset, rfl, hmem⟩ := h
  refine ⟨hpl.buf_ne, hpl.buf_fits, hpl.buf_valid, hpl.newline_ne, hpl.newline_valid, ?_,
    hpl.newline_apart⟩
  exact (hmem _ hpl.newline_apart).trans hpl.newline_text

/-- The loop is left, and what lies behind the cursor has been written out. -/
theorem copies_rest (hpl : Placed k pl) (h : OpenAt k slot.val slot c) :
    ∃ turns k' c', Turns.Ends (Cat.copyTurn mach pl slot.val) ⟨k, out⟩ turns
        (some ⟨k', out ++ c.rest⟩) ∧ CopiedFrom pl slot k k' ∧ OpenAt k' slot.val slot c' := by
  induction hn : c.rest.length using Nat.strong_induction_on generalizing k c out with
  | _ n ih =>
      have hbound : (c.read 128).length ≤ 128 := List.length_take_le _ _
      have hcopied := @copiedFrom_afterRead k pl slot _ hpl hbound
      have hopen := @openAt_afterRead k slot.val slot pl.buf c 128 h
      have hread : Cat.sysRead mach slot.val pl.buf 128 ⟨k, out⟩ =
          some (((c.read 128).length : Int), ⟨afterRead k slot pl.buf (c.read 128), out⟩) := by
        unfold Cat.sysRead Cat.int80
        rw [entry_read, toInt_slot,
          ksysRead_done h.lookup h.readable (hpl.buf_valid 128 (by decide)) h.views]
        rfl
      by_cases hend : c.rest = []
      · have hnil : c.read 128 = [] := (c.read_eq_nil_iff (by decide)).mpr hend
        refine ⟨1, afterRead k slot pl.buf (c.read 128), c.afterRead 128, .done ?_, hcopied, hopen⟩
        unfold Cat.copyTurn
        rw [hread, hnil, hend, List.append_nil]
        rfl
      · have hne : c.read 128 ≠ [] := mt (c.read_eq_nil_iff (by decide)).mp hend
        have hpos : 0 < (c.read 128).length := List.length_pos_iff.mpr hne
        have hsplit := c.read_append_rest 128
        have hless : (c.afterRead 128).rest.length < n := by
          rw [← hn, ← hsplit, List.length_append]
          omega
        have hnat : (toU32 (c.read 128).length).toNat = (c.read 128).length := by
          unfold toU32
          rw [BitVec.ofInt_natCast, BitVec.toNat_ofNat, Nat.mod_eq_of_lt (by omega)]
        have hplaced := hcopied.placed hpl
        have hwrite := write_console mach out hplaced.buf_ne
          (hplaced.buf_valid (toU32 (c.read 128).length) (by omega))
          (by rw [hnat]; exact hbound.trans (by decide))
        rw [hnat, load_afterRead _ (by omega)] at hwrite
        obtain ⟨turns, k', c', hends, hmore, hopen'⟩ : ∃ turns k' c',
            Turns.Ends (Cat.copyTurn mach pl slot.val)
              ⟨afterRead k slot pl.buf (c.read 128), out ++ c.read 128⟩ turns
              (some ⟨k', (out ++ c.read 128) ++ (c.afterRead 128).rest⟩) ∧
            CopiedFrom pl slot (afterRead k slot pl.buf (c.read 128)) k' ∧
              OpenAt k' slot.val slot c' :=
          ih _ hless hplaced hopen rfl
        rw [List.append_assoc, hsplit] at hends
        refine ⟨turns + 1, k', c', .again ?_ hends, hcopied.trans hmore, hopen'⟩
        unfold Cat.copyTurn
        rw [hread]
        dsimp only
        rw [if_neg (by omega), hwrite]

/-! ## The program -/

/-- The messages are where `cat` has them. -/
structure Literals (k : KState) (pl : Cat.Places) : Prop where
  usage : TextAt k pl.usage Cat.usageText
  noSuchFile : TextAt k pl.noSuchFile Cat.noSuchFileText

/-- What a run of `cat` returns and shows, and what it leaves of the file system and the
descriptors. -/
inductive Shown (mach : Machine) (k : KState) (argc : Int) (path : U32) :
    Int → CStr → KState → Prop
  | usage : argc < 2 → Shown mach k argc path 1 Cat.usageText k
  | noSuchFile {fd : Int} {k' : KState} : 2 ≤ argc →
      (ksysOpen mach k path 0).done = some (fd, k') → fd < 0 → k'.files.fds = k.files.fds →
      Shown mach k argc path 1 Cat.noSuchFileText k'
  | contents {kpath full : CStr} {found : Option Bytes × U32} {fs : Fs} {slot : Fin fdMax}
      {bs : Bytes} {k' : KState} : 2 ≤ argc →
      (copyUserCstr k.core path vfsPathMax).1 = some kpath →
      makeAbsPath k.files.fs.tree k.cwd kpath vfsPathMax = some full →
      vfsReadFile mach k.files.fs k.cwd full = some (some found, fs) →
      bytesRead (some found) = some bs → (k.files.fds slot).used = false → k'.files.fs = fs →
      k'.files.fds = Function.update k.files.fds slot emptyFd →
      Shown mach k argc path 0 (bs ++ [chr '\n']) k'

theorem Placed.congr (h : Placed k pl) (hcore : k₁.core = k.core) : Placed k₁ pl := by
  obtain ⟨hbuf, hfits, hvalid, hnewline, hvalid', htext, hapart⟩ := h
  rw [← hcore] at hvalid hvalid' htext
  exact ⟨hbuf, hfits, hvalid, hnewline, hvalid', htext, hapart⟩

/-- An opening for reading that fails leaves the table, and memory, as they were. -/
theorem open_refused (h : (ksysOpen mach k path 0).done = some (fd, k₁)) (hfd : fd < 0) :
    k₁.core = k.core ∧ k₁.files.fds = k.files.fds := by
  cases ksysOpen_cases h with
  | refused => exact ⟨rfl, rfl⟩
  | unmade => exact ⟨rfl, rfl⟩
  | unread => exact ⟨rfl, rfl⟩
  | noSlot => exact ⟨rfl, rfl⟩
  | opened hnames htouches hread hfree hopen =>
      cases hopen with
      | noRoom hwritable => cases hwritable
      | buffered hwritable => cases hwritable
      | plain => omega

theorem close_read (h : OpenAt k slot.val slot c)
    (hwritable : (k.files.fds slot).writable = false) :
    Cat.sysClose mach slot.val ⟨k, out⟩ = some (0, ⟨k.setFd slot emptyFd, out⟩) := by
  have hback : fdWriteBack k (k.files.fds slot) = (true, k.files.fs) := by
    unfold fdWriteBack
    rw [if_neg fun hdirty => by rw [hwritable] at hdirty; exact Bool.false_ne_true hdirty.1]
  unfold Cat.sysClose Cat.int80
  rw [entry_close, toInt_slot]
  unfold ksysClose
  rw [h.lookup]
  dsimp only
  rw [hback]
  rfl

theorem write_newline (h : Placed k pl) :
    Cat.sysWrite mach 1 pl.newline 1 ⟨k, out⟩ = some (1, ⟨k, out ++ [chr '\n']⟩) := by
  have hload : ByteMem.load k.core.mem pl.newline 1 = [chr '\n'] := by
    rw [← h.newline_text]
    simp [ByteMem.load]
  rw [write_console mach out h.newline_ne h.newline_valid (by decide)]
  exact congrArg (fun text => some ((1 : Int), (⟨k, out ++ text⟩ : Cat.Ran))) hload

/-- From the descriptor on: the contents, the newline, and the slot is free again. -/
theorem opened_shows (mach : Machine) (out : CStr) (hpl : Placed k pl)
    (h : OpenAt k slot.val slot c) (hplain : (k.files.fds slot).writable = false) :
    ∃ turns k', k'.files.fs = k.files.fs ∧
      k'.files.fds = Function.update k.files.fds slot emptyFd ∧ ∀ more,
        ((Turns.within (Cat.copyTurn mach pl slot.val) (turns + more) ⟨k, out⟩).join.bind fun r =>
          (Cat.sysClose mach slot.val r).bind fun (_, r) =>
            (Cat.sysWrite mach 1 pl.newline 1 r).map fun (_, r) => ((0 : Int), r)) =
        some (0, ⟨k', out ++ (c.rest ++ [chr '\n'])⟩) := by
  obtain ⟨turns, k₂, c', hends, hcopied, hopen⟩ := @copies_rest mach k out pl slot c hpl h
  have hplaced := hcopied.placed hpl
  obtain ⟨mem, offset, hk₂, -⟩ := hcopied
  have hwritable : (k₂.files.fds slot).writable = false := by
    rw [hk₂]
    unfold KState.setFd KState.setMem
    simp [hplain]
  refine ⟨turns, k₂.setFd slot emptyFd, ?_, ?_, fun more => ?_⟩
  · rw [hk₂]
    rfl
  · rw [hk₂]
    unfold KState.setFd KState.setMem
    simp
  · rw [Turns.within_eq_some.mpr ⟨turns, Nat.le_add_right _ _, hends⟩]
    have hclosed : Placed (k₂.setFd slot emptyFd) pl := hplaced.congr rfl
    dsimp only [Option.join_some]
    rw [Option.bind_some, close_read hopen hwritable, Option.bind_some]
    dsimp only
    rw [write_newline hclosed, List.append_assoc]
    rfl

theorem open_entry (h : (ksysOpen mach k path 0).done = some (fd, k₁)) :
    Cat.sysOpen mach path 0 ⟨k, out⟩ = some (fd, ⟨k₁, out⟩) := by
  unfold Cat.sysOpen Cat.int80
  rw [entry_open, h]
  rfl

/-- `cat` ends for every path whose opening ends, with the contents and a newline on the console or
with one of its messages. -/
theorem cat_shows {argc : Int} {argv : U32} (hpl : Placed k pl) (hliterals : Literals k pl)
    (hpath : ByteMem.loadWord k.core.mem (argv + 4) = path)
    (hopens : 2 ≤ argc → ∃ r, (ksysOpen mach k path 0).done = some r) :
    ∃ turns code shown k', Shown mach k argc path code shown k' ∧
      ∀ more, Cat.main mach pl (turns + more) argc argv ⟨k, out⟩ =
        some (code, ⟨k', out ++ shown⟩) := by
  by_cases hargc : argc < 2
  · refine ⟨0, 1, Cat.usageText, k, .usage hargc, fun more => ?_⟩
    unfold Cat.main
    rw [if_pos hargc, writeStr_text hliterals.usage]
    rfl
  obtain ⟨⟨fd, k₁⟩, hopen⟩ := hopens (not_lt.mp hargc)
  by_cases hneg : fd < 0
  · obtain ⟨hcore, hfds⟩ := open_refused hopen hneg
    refine ⟨0, 1, Cat.noSuchFileText, k₁, .noSuchFile (not_lt.mp hargc) hopen hneg hfds,
      fun more => ?_⟩
    unfold Cat.main
    rw [if_neg hargc, hpath, open_entry hopen, Option.bind_some]
    dsimp only
    rw [if_pos hneg, writeStr_text (hliterals.noSuchFile.congr hcore)]
    rfl
  · obtain ⟨kpath, full, data, size, fs, slot, hcopy, hfull, hread, hfree, rfl, rfl⟩ :=
      opens_spec ⟨hopen, not_lt.mp hneg⟩
    obtain ⟨c, hat, hpos, helems⟩ := @openAt_openEntry k fs slot full data size hfree
    have hplaced : Placed ((k.setFs fs).setFd slot (openEntry k.pid full data size 0)) pl :=
      hpl.congr rfl
    have hplain : (((k.setFs fs).setFd slot (openEntry k.pid full data size 0)).files.fds
        slot).writable = false := by
      unfold KState.setFd
      dsimp only
      rw [Function.update_self]
      rfl
    have hbytes : bytesRead (some (data, size)) = some c.rest := by
      unfold Cursor.rest
      rw [hpos, helems, List.drop_zero]
      rfl
    obtain ⟨turns, k', hfs, hfds, hruns⟩ := opened_shows mach out hplaced hat hplain
    have hfds' : k'.files.fds = Function.update k.files.fds slot emptyFd := by
      rw [hfds]
      exact Function.update_idem _ _ _
    refine ⟨turns, 0, c.rest ++ [chr '\n'], k', ?_, fun more => ?_⟩
    · exact .contents (not_lt.mp hargc) hcopy hfull hread hbytes (fdAllocSlot_spec hfree).1 hfs
        hfds'
    · unfold Cat.main
      rw [if_neg hargc, hpath, open_entry hopen, Option.bind_some]
      dsimp only
      rw [if_neg hneg]
      exact hruns more

def put (m : ByteMem.Mem) (ptr : U32) (text : CStr) : ByteMem.Mem :=
  ByteMem.store m ptr (text.length + 1) fun j => text.getD j 0

def catPlaces : Cat.Places := ⟨0x00300100, 0x00300140, 0x00300180, 0x00300200⟩

def catMem : ByteMem.Mem :=
  put (put (put (put (put (fun _ => 0) 0x00300000 (cstr "docs/readme.txt")) 0x00300084
    [0x00, 0x00, 0x30]) catPlaces.usage Cat.usageText) catPlaces.noSuchFile Cat.noSuchFileText)
      catPlaces.newline [chr '\n']

def catState (fs : Fs) : KState := (demoState fs vfsRoot []).setMem catMem

theorem catState_valid (fs : Fs) (buf len : U32) :
    validateBuffer (catState fs).core buf len = true := by
  have hinit : (demoCore []).ring3.active = false := by decide +kernel
  have hactive : (catState fs).core.ring3.active = false := hinit
  unfold validateBuffer validateUserPtr
  rw [hactive, if_pos Bool.false_ne_true]

theorem catState_text {fs : Fs} {ptr : U32} {s : CStr} (hne : ptr ≠ 0)
    (hshort : s.length ≤ syscallWriteMax) (hload : ByteMem.load catMem ptr s.length = s)
    (hnul : catMem (ptr + BitVec.ofNat 32 s.length) = 0) (hno : 0 ∉ s) :
    TextAt (catState fs) ptr s :=
  ⟨hne, hshort, hload, hnul, hno, catState_valid fs _ _⟩

theorem cat_shows_demo : ∃ fs turns k', vfsInit (fsInit none) plainHeap = some fs ∧
    ∀ more, Cat.main plainMach catPlaces (turns + more) 2 0x00300080 ⟨catState fs, []⟩ =
      some (0, ⟨k', cstr "SLOP in-memory VFS\nThis is not a disk-backed filesystem yet.\n\n"⟩) := by
  have hview : (vfsInit (fsInit none) plainHeap).bind (fun fs =>
      (ksysOpen plainMach (catState fs) 0x00300000 0).done.map fun r =>
        (r.1, (copyUserCstr (catState fs).core 0x00300000 vfsPathMax).1,
          makeAbsPath fs.tree (catState fs).cwd (cstr "docs/readme.txt") vfsPathMax,
          (vfsReadFile plainMach fs (catState fs).cwd (cstr "/docs/readme.txt")).map fun found =>
            (bytesRead found.1).getD [])) =
      some (3, some (cstr "docs/readme.txt"), some (cstr "/docs/readme.txt"),
        some (cstr "SLOP in-memory VFS\nThis is not a disk-backed filesystem yet.\n")) := by
    decide +kernel
  obtain ⟨fs, hinit, hview⟩ := Option.bind_eq_some_iff.mp hview
  obtain ⟨⟨fd, k₁⟩, hopen, hview⟩ := Option.map_eq_some_iff.mp hview
  simp only [Prod.mk.injEq] at hview
  obtain ⟨rfl, hcopy, hfull, hread⟩ := hview
  have hnewline : catMem catPlaces.newline = chr '\n' := by decide +kernel
  have hplaced : Placed (catState fs) catPlaces :=
    ⟨by decide, by decide, fun _ _ => catState_valid fs _ _, by decide, catState_valid fs _ _,
      hnewline, by decide⟩
  have hliterals : Literals (catState fs) catPlaces := by
    constructor
    · exact catState_text (by decide) (by decide +kernel) (by decide +kernel) (by decide +kernel)
        (by decide +kernel)
    · exact catState_text (by decide) (by decide +kernel) (by decide +kernel) (by decide +kernel)
        (by decide +kernel)
  have hpath : ByteMem.loadWord catMem (0x00300080 + 4) = 0x00300000 := by decide +kernel
  obtain ⟨turns, code, shown, k', hshown, hruns⟩ :=
    cat_shows hplaced hliterals hpath fun _ => ⟨_, hopen⟩
  cases hshown with
  | usage hargc => exact absurd hargc (lt_irrefl 2)
  | noSuchFile _ hopen' hneg =>
      rw [hopen] at hopen'
      obtain ⟨rfl, -⟩ := Prod.mk.inj (Option.some.inj hopen')
      exact absurd hneg (by decide)
  | contents _ hcopy' hfull' hread' hbytes =>
      obtain rfl := Option.some.inj (hcopy'.symm.trans hcopy)
      obtain rfl := Option.some.inj (hfull'.symm.trans hfull)
      rw [show (catState fs).files.fs = fs from rfl] at hread'
      rw [hread', Option.map_some, hbytes] at hread
      obtain rfl := Option.some.inj hread
      exact ⟨fs, turns, k', hinit, hruns⟩

end SlopOS.Proofs.CatRuns
