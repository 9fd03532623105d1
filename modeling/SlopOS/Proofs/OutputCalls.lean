import SlopOS.Proofs.PrintfBuffer
import SlopOS.User.SlopStreams
/-!
# Four ways to write a string

`slop_fputs` and `slop_fprintf` write to the descriptor of a stream whatever its kind, and the second
one has a buffer of 512 bytes; `slop_fputc` and `slop_fwrite` know memory streams.
-/

namespace SlopOS.Proofs.OutputCalls

open SlopOS.Kernel SlopOS.User SlopOS.User.Streams SlopOS.Support SlopOS.Proofs.Formats

/-! ## The system call -/

/-- `sys_write`, with the bytes that each descriptor has got.  A call for a descriptor takes some of
the bytes, and -1 is no descriptor. -/
structure Writer (σ : Type) where
  write : σ → Int → Bytes → Int × σ
  got : σ → Int → Bytes
  accepts : ∀ w fd buf, 0 ≤ fd → buf ≠ [] →
    0 < (write w fd buf).1 ∧ (write w fd buf).1 ≤ buf.length ∧
      got (write w fd buf).2 fd = got w fd ++ buf.take (write w fd buf).1.toNat
  refuses : ∀ w fd buf, fd < 0 → (write w fd buf).1 < 0 ∧ (write w fd buf).2 = w

/-- A world in which every call takes all bytes. -/
def recorder : Writer (Int → Bytes) where
  write w fd buf :=
    if fd < 0 then (-1, w) else (buf.length, Function.update w fd (w fd ++ buf))
  got w := w
  accepts w fd buf hfd hbuf := by
    have hlen := List.length_pos_of_ne_nil hbuf
    rw [if_neg (by omega)]
    refine ⟨Int.natCast_pos.mpr hlen, le_rfl, ?_⟩
    dsimp only
    rw [Function.update_self, Int.toNat_natCast, List.take_length]
  refuses w fd buf hfd := by
    rw [if_pos hfd]
    exact ⟨neg_one_lt_zero, rfl⟩

/-! ## Effects -/

structure Effect where
  ok : Bool
  got : Bytes
  err : Bool
  pos : U32
  size : U32
  contents : Bytes
deriving DecidableEq

variable {σ : Type} (W : Writer σ)

def effect (ok : Bool) (w : σ) (a : SlopAlloc) (fp : SlopStream) : Effect where
  ok := ok
  got := W.got w fp.fd
  err := fp.file.err
  pos := fp.file.pos
  size := fp.file.size
  contents := a.get fp.file.mem 0 fp.file.size.toNat

/-- A stream with the world and the allocator, and what the stack holds where `out` will be. -/
structure Scene (σ : Type) where
  world : σ
  alloc : SlopAlloc
  stream : SlopStream
  stack : Nat → U8

def fputsEffect (c : Scene σ) (s : CStr) : Effect :=
  let d := slopFputs W.write c.world c.alloc s c.stream
  effect W (d.value = 0) d.world d.alloc d.stream

/-- `slop_fprintf(fp, "%s", s)`, with `s` at an address `p`. -/
def fprintfEffect (c : Scene σ) (p : U32) (s : CStr) : Effect :=
  let d := slopFprintf W.write c.world c.alloc (fun _ => s) c.stack c.stream (cstr "%s") fun _ => p
  effect W (0 ≤ d.value) d.world d.alloc d.stream

/-- `slop_fwrite(s, 1, strlen(s), fp)` -/
def fwriteEffect (c : Scene σ) (s : CStr) : Option Effect := do
  let d ← Streams.slopFwrite W.write c.world c.alloc (some fun i => s.getD i 0) 1
    (BitVec.ofNat 32 s.length) c.stream
  some (effect W (d.value = BitVec.ofNat 32 s.length) d.world d.alloc d.stream)

def fputcEffect (c : Scene σ) (s : CStr) : Option Effect := do
  let d ← fputcEach W.write c.world c.alloc c.stream s
  some (effect W d.value d.world d.alloc d.stream)

/-- All four have one effect, and the error flag says so where it is a failure. -/
def SameEffect (c : Scene σ) (p : U32) (s : CStr) : Prop :=
  ∃ e, fputsEffect W c s = e ∧ fprintfEffect W c p s = e ∧ fwriteEffect W c s = some e ∧
    fputcEffect W c s = some e ∧ (e.ok = false → e.err = true)

variable {W} {w w' : σ} {fd : Int} {buf : Bytes} {off : U32} {c : Scene σ} {s : CStr} {p : U32}

/-! ## The write loop -/

theorem writeLoop_nil {f : σ → Int → Bytes → Int × σ} :
    writeLoop f fd w [] off = (true, off, w) := by
  rw [writeLoop, dif_pos rfl]

theorem writeLoop_turn {f : σ → Int → Bytes → Int × σ} (hbuf : buf ≠ []) :
    writeLoop f fd w buf off =
      if (f w fd buf).1 ≤ 0 then (false, off, (f w fd buf).2)
      else writeLoop f fd (f w fd buf).2 (buf.drop (f w fd buf).1.toNat)
        (off + BitVec.ofInt 32 (f w fd buf).1) := by
  rw [writeLoop, dif_neg hbuf]

theorem writeLoop_accepted (W : Writer σ) (w : σ) (buf : Bytes) (off : U32) (hfd : 0 ≤ fd) : ∃ w',
    writeLoop W.write fd w buf off = (true, off + BitVec.ofNat 32 buf.length, w') ∧
      W.got w' fd = W.got w fd ++ buf := by
  induction hn : buf.length using Nat.strong_induction_on generalizing buf off w with
  | _ n ih =>
      by_cases hend : buf = []
      · subst hend
        refine ⟨w, ?_, (List.append_nil _).symm⟩
        rw [writeLoop_nil, ← hn]
        exact congrArg (true, ·, w) (BitVec.add_zero off).symm
      · obtain ⟨hpos, hle, hgot⟩ := W.accepts w fd buf hfd hend
        rw [writeLoop_turn hend, if_neg (by omega)]
        obtain ⟨k, hk⟩ : ∃ k : Nat, (W.write w fd buf).1 = k :=
          ⟨(W.write w fd buf).1.toNat, (Int.toNat_of_nonneg hpos.le).symm⟩
        rw [hk, Int.toNat_natCast] at hgot ⊢
        obtain ⟨w', hrest, hall⟩ := ih (buf.drop k).length (by rw [List.length_drop]; omega)
          (W.write w fd buf).2 (buf.drop k) (off + BitVec.ofInt 32 k) rfl
        refine ⟨w', ?_, ?_⟩
        · have hoff : BitVec.ofNat 32 k + BitVec.ofNat 32 (buf.drop k).length = BitVec.ofNat 32 n := by
            rw [← BitVec.ofNat_add, List.length_drop, show k + (buf.length - k) = n by omega]
          rw [hrest, BitVec.add_assoc, BitVec.ofInt_natCast, hoff]
        · rw [hall, hgot, List.append_assoc, List.take_append_drop]

theorem writeLoop_refused (hfd : fd < 0) (hbuf : buf ≠ []) :
    writeLoop W.write fd w buf off = (false, off, w) := by
  obtain ⟨hneg, hsame⟩ := W.refuses w fd buf hfd
  rw [writeLoop_turn hbuf, if_pos (by omega), hsame]

theorem slopWriteAll_accepted (W : Writer σ) (w : σ) (buf : Bytes) (hfd : 0 ≤ fd) : ∃ w',
    slopWriteAll W.write w fd buf = (0, w') ∧ W.got w' fd = W.got w fd ++ buf := by
  obtain ⟨w', hrun, hgot⟩ := writeLoop_accepted W w buf 0 hfd
  refine ⟨w', ?_, hgot⟩
  unfold slopWriteAll
  rw [hrun]
  rfl

theorem slopWriteAll_refused (hfd : fd < 0) (hbuf : buf ≠ []) :
    slopWriteAll W.write w fd buf = (-1, w) := by
  unfold slopWriteAll
  rw [writeLoop_refused hfd hbuf]
  rfl

/-! ## The text of `slop_fprintf` -/

theorem text_store {bytes : Nat → U8} {limit : Nat} {b : OutBuf} {t : CStr}
    (h : Holds bytes limit b t) (hlimit : t.length ≤ limit) :
    (List.range b.off.toNat).map (b.store b.off.toNat 0).bytes = t := by
  have hoff := h.off
  apply List.ext_getElem?
  intro i
  rw [hoff, List.getElem?_map]
  by_cases hi : i < t.length
  · have hget := h.text i (by omega) t[i] (List.getElem?_eq_getElem hi)
    have hkeep : (b.store b.off.toNat 0).bytes i = b.bytes i :=
      Function.update_of_ne (by omega) _ _
    rw [List.getElem?_range hi, Option.map_some, ← hoff, hkeep, hget, List.getElem?_eq_getElem hi]
  · rw [List.getElem?_eq_none (by rw [List.length_range]; omega),
      List.getElem?_eq_none (by omega)]
    rfl

theorem fprintf_text (hp : p ≠ 0) (stack : Nat → U8) : ∃ out,
    slopVfprintfOut (fun _ => s) (cstr "%s") (fun _ => p) stack = out ∧
      out.off.toNat = (s.take 511).length ∧
      (List.range out.off.toNat).map out.bytes = s.take 511 := by
  have hpieces : pieces (cstr "%s") = [.string] := by
    simp [pieces, cstr, chr]
  have hstring : vaString (fun _ => s) p = s := if_neg hp
  have hdrive : drive slopSink (fun _ => s) [.string] (fun _ => p) ⟨stack, 0, []⟩ =
      slopSink.writeString ⟨stack, 0, []⟩ s := by
    change slopSink.writeString ⟨stack, 0, []⟩ (vaString (fun _ => s) p) = _
    rw [hstring]
  have hrun : slopVfprintfOut (fun _ => s) (cstr "%s") (fun _ => p) stack =
      (slopSink.writeString ⟨stack, 0, []⟩ s).store
        (slopSink.writeString ⟨stack, 0, []⟩ s).off.toNat 0 := by
    unfold slopVfprintfOut
    rw [format_eq PrintfBuffer.room_of_more, hpieces, hdrive]
  have hheld : Holds stack (2 ^ 32) (slopSink.writeString ⟨stack, 0, []⟩ s) (s.take 511) :=
    PrintfBuffer.holds_writeString (holds_nil _ _) (Nat.zero_le 511)
  have hlen := List.length_take_le 511 s
  exact ⟨_, hrun, hheld.off, text_store hheld (by omega)⟩

/-! ## Descriptors -/

theorem fd_eq {k : Nat} {fp : SlopStream} (h : fp.backing = .fd k) : fp.fd = k := by
  unfold SlopStream.fd
  rw [h]

/-- The bytes of `s` reach the descriptor and nothing else happens. -/
def written (c : Scene σ) (s : CStr) (W : Writer σ) : Effect :=
  { effect W true c.world c.alloc c.stream with got := W.got c.world c.stream.fd ++ s }

theorem effect_written (hgot : W.got w' c.stream.fd = W.got c.world c.stream.fd ++ s) :
    effect W true w' c.alloc c.stream = written c s W := by
  unfold effect written
  rw [hgot]
  rfl

theorem fputsEffect_fd (hfd : 0 ≤ c.stream.fd) : fputsEffect W c s = written c s W := by
  obtain ⟨w', hrun, hgot⟩ := slopWriteAll_accepted W c.world s hfd
  unfold fputsEffect slopFputs
  rw [hrun]
  exact effect_written hgot

theorem fprintfEffect_fd (hfd : 0 ≤ c.stream.fd) (hp : p ≠ 0) :
    fprintfEffect W c p s = written c (s.take 511) W := by
  obtain ⟨out, hout, hoff, htext⟩ := fprintf_text (s := s) hp c.stack
  obtain ⟨w', hrun, hgot⟩ := slopWriteAll_accepted W c.world (s.take 511) hfd
  have hlen := List.length_take_le 511 s
  have hsign : 0 ≤ out.off.toInt := by
    rw [BitVec.toInt_eq_toNat_of_lt (by omega)]
    exact Int.natCast_nonneg _
  unfold fprintfEffect slopFprintf slopVfprintf
  rw [hout]
  dsimp only
  rw [htext, hrun]
  dsimp only
  rw [if_pos rfl, decide_eq_true hsign]
  exact effect_written hgot

theorem map_getD_range : (List.range s.length).map (fun i => s.getD i 0) = s := by
  apply List.ext_getElem
  · rw [List.length_map, List.length_range]
  · intro i hi hi'
    rw [List.getElem_map, List.getElem_range, List.getD_eq_getElem?_getD,
      List.getElem?_eq_getElem hi', Option.getD_some]

theorem toNat_length (hlen : s.length < 2 ^ 32) : (BitVec.ofNat 32 s.length).toNat = s.length := by
  rw [BitVec.toNat_ofNat]
  exact Nat.mod_eq_of_lt hlen

theorem ofNat_length_ne (hs : s ≠ []) (hlen : s.length < 2 ^ 32) :
    BitVec.ofNat 32 s.length ≠ 0 := by
  intro hzero
  have hlen' := toNat_length hlen
  rw [hzero] at hlen'
  exact hs (List.eq_nil_of_length_eq_zero hlen'.symm)

theorem fwriteEffect_fd {k : Nat} (hfd : c.stream.backing = .fd k) (hlen : s.length < 2 ^ 32) :
    fwriteEffect W c s = some (written c s W) := by
  have hfd' : c.stream.fd = k := fd_eq hfd
  have hlen' := toNat_length hlen
  unfold fwriteEffect Streams.slopFwrite
  rw [hfd]
  dsimp only
  by_cases hnil : s = []
  · subst hnil
    rw [if_pos (.inr rfl)]
    exact congrArg some (effect_written (List.append_nil _).symm)
  · have hne : BitVec.ofNat 32 s.length ≠ 0 := ofNat_length_ne hnil hlen
    obtain ⟨w', hrun, hgot⟩ := writeLoop_accepted W c.world s 0 (Int.natCast_nonneg k)
    have htotal : (1 : U32) * BitVec.ofNat 32 s.length = BitVec.ofNat 32 s.length :=
      BitVec.one_mul _
    have hoff : (0 + BitVec.ofNat 32 s.length) / (1 : U32) = BitVec.ofNat 32 s.length := by
      rw [show (0 : U32) + BitVec.ofNat 32 s.length = BitVec.ofNat 32 s.length from
        BitVec.zero_add _]
      exact BitVec.udiv_one
    rw [if_neg (not_or.mpr ⟨by decide, hne⟩), htotal, hlen', map_getD_range, hrun]
    dsimp only [Option.bind_eq_bind, Option.bind_some]
    rw [hoff, if_pos rfl, decide_eq_true rfl]
    rw [← hfd'] at hgot
    exact congrArg some (effect_written hgot)

theorem fputcEach_fd {k : Nat} {a : SlopAlloc} {fp : SlopStream} (hfd : fp.backing = .fd k) :
    ∃ w', fputcEach W.write w a fp s = some ⟨true, w', a, fp⟩ ∧ W.got w' k = W.got w k ++ s := by
  induction s generalizing w with
  | nil => exact ⟨w, rfl, (List.append_nil _).symm⟩
  | cons b s ih =>
      obtain ⟨hpos, hle, hgot⟩ := W.accepts w k [b] (Int.natCast_nonneg k) (List.cons_ne_nil b [])
      have hone : (W.write w k [b]).1 = 1 := by
        rw [List.length_singleton] at hle
        omega
      have hchar : BitVec.ofInt 8 (b.toNat : Int) = b := by
        rw [BitVec.ofInt_natCast, BitVec.ofNat_toNat, BitVec.setWidth_eq]
      obtain ⟨w', hrest, hall⟩ := ih (w := (W.write w k [b]).2)
      rw [hone] at hgot
      have hfputc : Streams.slopFputc W.write w a b.toNat fp =
          some ⟨b.toNat, (W.write w k [b]).2, a, fp⟩ := by
        unfold Streams.slopFputc
        rw [hfd, hchar]
        dsimp only
        rw [if_neg (by rw [hone]; decide)]
      refine ⟨w', ?_, ?_⟩
      · rw [fputcEach, hfputc]
        dsimp only [Option.bind_eq_bind, Option.bind_some]
        rw [if_neg (by omega), hrest]
      · rw [hall, hgot, List.append_assoc]
        rfl

theorem fputcEffect_fd {k : Nat} (hfd : c.stream.backing = .fd k) :
    fputcEffect W c s = some (written c s W) := by
  obtain ⟨w', hrun, hgot⟩ := fputcEach_fd (W := W) (w := c.world) (a := c.alloc) (s := s) hfd
  have hfd' : c.stream.fd = k := fd_eq hfd
  unfold fputcEffect
  rw [hrun]
  rw [← hfd'] at hgot
  exact congrArg some (effect_written hgot)

theorem sameEffect_fd {k : Nat} (hfd : c.stream.backing = .fd k) (hp : p ≠ 0)
    (hlen : s.length < 2 ^ 32) : SameEffect W c p s ↔ s.length ≤ 511 := by
  have hfd' : c.stream.fd = k := fd_eq hfd
  have hnonneg : 0 ≤ c.stream.fd := by
    rw [hfd']
    exact Int.natCast_nonneg k
  constructor
  · rintro ⟨e, hputs, hprintf, -⟩
    have hgot := congrArg Effect.got ((fprintfEffect_fd hnonneg hp).symm.trans
      (hprintf.trans (hputs.symm.trans (fputsEffect_fd hnonneg))))
    have htake : s.take 511 = s := List.append_cancel_left hgot
    rw [← htake]
    exact List.length_take_le 511 s
  · intro hshort
    refine ⟨_, fputsEffect_fd hnonneg, ?_, fwriteEffect_fd hfd hlen, fputcEffect_fd hfd, ?_⟩
    · rw [fprintfEffect_fd hnonneg hp, List.take_of_length_le hshort]
    · exact fun h => absurd (show true = false from h) (by decide)

/-! ## Memory streams -/

/-- The buffer of a memory stream is too small and cannot be made larger. -/
def CannotGrow (a : SlopAlloc) (file : SlopFile) (needed : U32) : Prop :=
  (slopEnsureMemCapacity a file needed).map StdioDone.value = some false

variable {a : SlopAlloc} {fp : SlopStream} {file : SlopFile} {needed : U32}

theorem slopMalloc_none {size : U32} {res : SlopAlloc} (h : slopMalloc a size = (none, res)) :
    res = a := by
  unfold slopMalloc at h
  split at h
  · exact (Prod.mk.inj h).2.symm
  · dsimp only at h
    split at h
    · exact (Prod.mk.inj h).2.symm
    · cases (Prod.mk.inj h).1

theorem slopRealloc_none {ptr : Option U32} {size : U32} {res : SlopAlloc}
    (h : slopRealloc a ptr size = (none, res)) : res = a := by
  unfold slopRealloc at h
  split at h
  · exact slopMalloc_none h
  · split at h
    · exact (Prod.mk.inj h).2.symm
    · split at h
      · cases (Prod.mk.inj h).1
      · split at h
        · rename_i hmalloc
          rw [← (Prod.mk.inj h).2]
          exact slopMalloc_none hmalloc
        · cases (Prod.mk.inj h).1

theorem ensure_failed (h : CannotGrow a file needed) :
    slopEnsureMemCapacity a file needed = some ⟨false, a, file, []⟩ := by
  unfold CannotGrow slopEnsureMemCapacity at *
  split at h
  · cases h
  · split at h
    · cases h
    · split at h
      · rename_i hcapacity _ _ _ _ res hrealloc
        rw [if_neg hcapacity, slopRealloc_none hrealloc]
      · cases h

def refused (c : Scene σ) (W : Writer σ) : Effect := effect W false c.world c.alloc c.stream

theorem fputsEffect_mem (hfd : c.stream.fd < 0) (hs : s ≠ []) :
    fputsEffect W c s = refused c W := by
  unfold fputsEffect slopFputs
  rw [slopWriteAll_refused hfd hs]
  rfl

theorem fprintfEffect_mem (hfd : c.stream.fd < 0) (hp : p ≠ 0) (hs : s ≠ []) :
    fprintfEffect W c p s = refused c W := by
  obtain ⟨out, hout, hoff, htext⟩ := fprintf_text (s := s) hp c.stack
  have htake : s.take 511 ≠ [] := by
    intro h
    exact hs (by simpa using h)
  unfold fprintfEffect slopFprintf slopVfprintf
  rw [hout]
  dsimp only
  rw [htext, slopWriteAll_refused hfd htake]
  rfl

theorem fwrite_cases {src : Nat → U8} {n : U32} {d : StdioDone U32} (hn : n ≠ 0)
    (h : User.slopFwrite a (some src) 1 n file = some d) :
    CannotGrow a file (file.pos + n + 1) ∧ d = ⟨0, a, { file with err := true }, []⟩ ∨
      d.value = n := by
  have htotal : (1 : U32) * n = n := BitVec.one_mul _
  unfold User.slopFwrite at h
  dsimp only at h
  rw [if_neg (not_or.mpr ⟨by decide, hn⟩), htotal] at h
  cases hroom : slopEnsureMemCapacity a file (file.pos + n + 1) with
  | none =>
      rw [hroom] at h
      cases h
  | some room =>
      obtain ⟨value, a', file', accesses⟩ := room
      cases value with
      | true =>
          rw [hroom] at h
          exact .inr (congrArg StdioDone.value (Option.some.inj h)).symm
      | false =>
          have hcannot : CannotGrow a file (file.pos + n + 1) := by
            unfold CannotGrow
            rw [hroom]
            rfl
          rw [ensure_failed hcannot] at h
          exact .inl ⟨hcannot, (Option.some.inj h).symm⟩

theorem fwrite_cannotGrow {src : Nat → U8} {n : U32} (hn : n ≠ 0)
    (h : CannotGrow a file (file.pos + n + 1)) :
    User.slopFwrite a (some src) 1 n file = some ⟨0, a, { file with err := true }, []⟩ := by
  have htotal : (1 : U32) * n = n := BitVec.one_mul _
  unfold User.slopFwrite
  dsimp only
  rw [if_neg (not_or.mpr ⟨by decide, hn⟩), htotal, ensure_failed h]

theorem pos_ensure {d : StdioDone Bool} (h : slopEnsureMemCapacity a file needed = some d) :
    d.file.pos = file.pos := by
  unfold slopEnsureMemCapacity at h
  split at h
  · rw [← Option.some.inj h]
  · split at h
    · cases h
    · split at h
      · rw [← Option.some.inj h]
      · rw [← Option.some.inj h]

theorem fputc_cases {ch : Int} {d : StdioDone Int} (h : User.slopFputc a ch file = some d) :
    CannotGrow a file (file.pos + 2) ∧ d = ⟨-1, a, { file with err := true }, []⟩ ∨
      0 ≤ d.value ∧ d.file.pos = file.pos + 1 := by
  unfold User.slopFputc at h
  dsimp only at h
  cases hroom : slopEnsureMemCapacity a file (file.pos + 2) with
  | none =>
      rw [hroom] at h
      cases h
  | some room =>
      have hpos := pos_ensure hroom
      obtain ⟨value, a', file', accesses⟩ := room
      cases value with
      | true =>
          rw [hroom] at h
          obtain rfl := Option.some.inj h
          refine .inr ⟨Int.natCast_nonneg _, ?_⟩
          change file'.pos + 1 = file.pos + 1
          rw [← hpos]
      | false =>
          have hcannot : CannotGrow a file (file.pos + 2) := by
            unfold CannotGrow
            rw [hroom]
            rfl
          rw [ensure_failed hcannot] at h
          exact .inl ⟨hcannot, (Option.some.inj h).symm⟩

theorem fputc_cannotGrow {ch : Int} (h : CannotGrow a file (file.pos + 2)) :
    User.slopFputc a ch file = some ⟨-1, a, { file with err := true }, []⟩ := by
  unfold User.slopFputc
  dsimp only
  rw [ensure_failed h]

/-- What a failing run of `slop_fputc` calls has moved the position by. -/
theorem fputcEach_failed (fp : SlopStream) {d : Done σ Bool} (hmem : fp.backing = .mem)
    (h : fputcEach W.write w a fp s = some d) (hfail : d.value = false) :
    ∃ k < s.length, d.stream.file.pos = fp.file.pos + BitVec.ofNat 32 k ∧
      (k = 0 → CannotGrow a fp.file (fp.file.pos + 2) ∧ d = ⟨false, w, a, fp.setErr⟩) := by
  induction s generalizing w a fp with
  | nil =>
      rw [← Option.some.inj h] at hfail
      cases hfail
  | cons b s ih =>
      rw [fputcEach, Option.bind_eq_bind, Option.bind_eq_some_iff] at h
      obtain ⟨first, hfirst, h⟩ := h
      have hcall : Streams.slopFputc W.write w a b.toNat fp =
          (User.slopFputc a b.toNat fp.file).map (inMemory w fp) := by
        unfold Streams.slopFputc
        rw [hmem]
      rw [hcall, Option.map_eq_some_iff] at hfirst
      obtain ⟨done, hdone, rfl⟩ := hfirst
      rcases fputc_cases hdone with ⟨hcannot, rfl⟩ | ⟨hvalue, hpos⟩
      · rw [if_pos (by exact neg_one_lt_zero)] at h
        refine ⟨0, Nat.zero_lt_succ _, ?_, fun _ => ⟨hcannot, (Option.some.inj h).symm⟩⟩
        rw [← Option.some.inj h]
        exact (BitVec.add_zero _).symm
      · have hgood : ¬(inMemory w fp done).value < 0 := not_lt.mpr hvalue
        rw [if_neg hgood] at h
        obtain ⟨k, hk, hrest, -⟩ := ih { fp with file := done.file } hmem h
        refine ⟨k + 1, Nat.succ_lt_succ hk, ?_, fun hzero => absurd hzero (Nat.succ_ne_zero k)⟩
        rw [hrest, hpos, BitVec.add_assoc, Nat.add_comm k 1, BitVec.ofNat_add]
        rfl

theorem setErr_of_err (h : fp.file.err = true) : fp.setErr = fp := by
  obtain ⟨backing, file⟩ := fp
  obtain ⟨eof, err, pos, size, capacity, mem⟩ := file
  obtain rfl : err = true := h
  rfl

theorem sameEffect_mem (hmem : c.stream.backing = .mem) (hp : p ≠ 0) (hs : s ≠ [])
    (hlen : s.length < 2 ^ 32) : SameEffect W c p s ↔ c.stream.file.err = true ∧
      CannotGrow c.alloc c.stream.file (c.stream.file.pos + 2) ∧
      CannotGrow c.alloc c.stream.file
        (c.stream.file.pos + BitVec.ofNat 32 s.length + 1) := by
  have hfd : c.stream.fd < 0 := by
    unfold SlopStream.fd
    rw [hmem]
    exact neg_one_lt_zero
  have hn : BitVec.ofNat 32 s.length ≠ 0 := ofNat_length_ne hs hlen
  have hfwrite : Streams.slopFwrite W.write c.world c.alloc (some fun i => s.getD i 0) 1
      (BitVec.ofNat 32 s.length) c.stream =
        (User.slopFwrite c.alloc (some fun i => s.getD i 0) 1 (BitVec.ofNat 32 s.length)
          c.stream.file).map (inMemory c.world c.stream) := by
    unfold Streams.slopFwrite
    rw [hmem]
  constructor
  · rintro ⟨e, hputs, -, hwrite, hputc, herr⟩
    obtain rfl : refused c W = e := (fputsEffect_mem hfd hs).symm.trans hputs
    unfold fwriteEffect at hwrite
    unfold fputcEffect at hputc
    rw [hfwrite, Option.bind_eq_bind, Option.bind_eq_some_iff] at hwrite
    rw [Option.bind_eq_bind, Option.bind_eq_some_iff] at hputc
    obtain ⟨d, hd, hwrite⟩ := hwrite
    obtain ⟨d', hd', hputc⟩ := hputc
    obtain ⟨done, hdone, rfl⟩ := Option.map_eq_some_iff.mp hd
    obtain ⟨k, hk, hpos, hfirst⟩ := fputcEach_failed c.stream hmem hd'
      (congrArg Effect.ok (Option.some.inj hputc))
    have hsame : d'.stream.file.pos = c.stream.file.pos :=
      congrArg Effect.pos (Option.some.inj hputc)
    have hzero : k = 0 := by
      have hmove := (hpos.symm.trans hsame).trans (BitVec.add_zero _).symm
      have hnat := congrArg BitVec.toNat ((BitVec.add_right_inj _).mp hmove)
      rw [BitVec.toNat_ofNat, Nat.mod_eq_of_lt (by omega)] at hnat
      exact hnat
    refine ⟨herr rfl, (hfirst hzero).1, ?_⟩
    rcases fwrite_cases hn hdone with ⟨hcannot, -⟩ | hvalue
    · exact hcannot
    · have hok := congrArg Effect.ok (Option.some.inj hwrite)
      exact absurd (show true = false from (decide_eq_true hvalue).symm.trans hok) (by decide)
  · rintro ⟨herr, hone, hall⟩
    refine ⟨_, fputsEffect_mem hfd hs, fprintfEffect_mem hfd hp hs, ?_, ?_, fun _ => herr⟩
    · unfold fwriteEffect
      rw [hfwrite, fwrite_cannotGrow hn hall, Option.map_some, Option.bind_eq_bind,
        Option.bind_some]
      have hfailed : decide ((0 : U32) = BitVec.ofNat 32 s.length) = false :=
        decide_eq_false hn.symm
      change some (effect W (decide ((0 : U32) = _)) c.world c.alloc c.stream.setErr) = _
      rw [hfailed, setErr_of_err herr]
      rfl
    · obtain ⟨b, s, rfl⟩ := List.exists_cons_of_ne_nil hs
      have hcall : Streams.slopFputc W.write c.world c.alloc b.toNat c.stream =
          some ⟨-1, c.world, c.alloc, c.stream.setErr⟩ := by
        unfold Streams.slopFputc
        rw [hmem]
        dsimp only
        rw [fputc_cannotGrow hone]
        rfl
      unfold fputcEffect
      rw [fputcEach, hcall]
      dsimp only [Option.bind_eq_bind, Option.bind_some]
      rw [if_pos (by decide), Option.bind_some, setErr_of_err herr]
      rfl

theorem sameEffect_nil (hp : p ≠ 0) : SameEffect W c p [] := by
  have hnothing (fd : Int) : slopWriteAll W.write c.world fd [] = (0, c.world) := by
    unfold slopWriteAll
    rw [writeLoop_nil]
    rfl
  refine ⟨effect W true c.world c.alloc c.stream, ?_, ?_, ?_, rfl, ?_⟩
  · unfold fputsEffect slopFputs
    rw [hnothing]
    rfl
  · obtain ⟨out, hout, hoff, htext⟩ := fprintf_text (s := []) hp c.stack
    have hsign : 0 ≤ out.off.toInt := by
      have hzero : out.off.toNat = 0 := hoff
      rw [BitVec.toInt_eq_toNat_of_lt (by omega)]
      exact Int.natCast_nonneg _
    unfold fprintfEffect slopFprintf slopVfprintf
    rw [hout]
    dsimp only
    rw [htext, List.take_nil, hnothing]
    dsimp only
    rw [if_pos rfl, decide_eq_true hsign]
  · unfold fwriteEffect Streams.slopFwrite
    cases hback : c.stream.backing with
    | mem =>
        have hcall : User.slopFwrite c.alloc (some fun i => ([] : CStr).getD i 0) 1
            (BitVec.ofNat 32 0) c.stream.file = some ⟨0, c.alloc, c.stream.file, []⟩ := by
          unfold User.slopFwrite
          exact if_pos (.inr rfl)
        dsimp only [List.length_nil]
        rw [hcall]
        rfl
    | fd k =>
        dsimp only [List.length_nil]
        rw [if_pos (.inr rfl)]
        rfl
  · exact fun h => absurd (show true = false from h) (by decide)

/-- The four calls agree on descriptors for strings that fit in the buffer of `slop_vfprintf`, and
otherwise only where none of them can do anything. -/
theorem sameEffect_iff (W : Writer σ) (c : Scene σ) (p : U32) (s : CStr) (hp : p ≠ 0)
    (hlen : s.length < 2 ^ 32) : SameEffect W c p s ↔
      s = [] ∨ c.stream.backing ≠ .mem ∧ s.length ≤ 511 ∨
        c.stream.backing = .mem ∧ c.stream.file.err = true ∧
          CannotGrow c.alloc c.stream.file (c.stream.file.pos + 2) ∧
          CannotGrow c.alloc c.stream.file
            (c.stream.file.pos + BitVec.ofNat 32 s.length + 1) := by
  by_cases hnil : s = []
  · subst hnil
    exact iff_of_true (sameEffect_nil hp) (.inl rfl)
  · cases hback : c.stream.backing with
    | mem =>
        rw [sameEffect_mem hback hp hnil hlen]
        simp [hnil]
    | fd k =>
        rw [sameEffect_fd hback hp hlen]
        simp [hnil]

/-- A stream of descriptor 1 in a world where nothing has been written. -/
def onDescriptor : Scene (Int → Bytes) where
  world _ := []
  alloc := slopAllocInit
  stream := ⟨.fd 1, ⟨false, false, 0, 0, 0, none⟩⟩
  stack _ := 0

/-- A stream as `slop_tmpfile` makes it. -/
def onMemory : Scene (Int → Bytes) := { onDescriptor with stream.backing := .mem }

theorem sameEffect_demo : SameEffect recorder onDescriptor 1 (cstr "hi") :=
  (sameEffect_iff recorder onDescriptor 1 (cstr "hi") (by decide) (by decide)).mpr
    (.inr (.inl ⟨by decide, by decide⟩))

/-- Not even one character reaches a memory stream. -/
theorem not_sameEffect_memory : ¬SameEffect recorder onMemory 1 (cstr "a") := by
  intro h
  have herr := ((sameEffect_mem rfl (by decide) (by decide) (by decide)).mp h).1
  exact absurd herr (by decide)

end SlopOS.Proofs.OutputCalls
