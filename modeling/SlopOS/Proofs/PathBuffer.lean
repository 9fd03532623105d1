import SlopOS.Kernel.CwdBuffer
import SlopOS.Proofs.PrintedPaths
import SlopOS.Support.History
/-!
# The buffer of `vfs_get_cwd_path`

A name is printed if it fits with a NUL behind it, and then a separator takes the place of that NUL.
So the count of what remains is exact throughout, but it may end at zero, and the NUL is stored all
the same.
-/

namespace SlopOS.Proofs.PathBuffer

open SlopOS.Support SlopOS.Kernel
open SlopOS.Proofs.FileTree SlopOS.Proofs.TreeRuns SlopOS.Proofs.PrintedPaths

/-- Only `buf[0]` to `buf[size - 1]` are written, there is a NUL among them, and no subtraction goes
below zero. -/
structure CwdSafe (size : U32) (b : CwdBuffer) : Prop where
  inside : ∀ i ∈ b.written, i < size.toNat
  terminated : ∃ n < size.toNat, b.bytes n = 0
  exact : ∀ step ∈ b.taken, step.2 ≤ step.1

/-- The names that are printed: the innermost sixteen on the way to the node. -/
def shownNames (t : VfsTree) (n : Nat) : List CStr :=
  (pathOf t n).drop ((pathOf t n).length - cwdPartsMax)

variable {t : VfsTree} {n r : Nat} {parts : List CStr} {b : CwdBuffer} {s text : CStr} {c : U8}
  {size len : U32} {bytes : Nat → U8}

/-! ## What is in the buffer -/

/-- The text has been stored, and what was taken off was there. -/
structure Filled (b : CwdBuffer) (text : CStr) : Prop where
  out : b.out = text.length
  chars : ∀ i, ∀ c ∈ text[i]?, b.bytes i = c
  written : ∀ i ∈ b.written, i < text.length
  exact : ∀ step ∈ b.taken, step.2 ≤ step.1

theorem filled_nil (bytes : Nat → U8) (size : U32) : Filled ⟨bytes, 0, size, [], []⟩ [] where
  out := rfl
  chars i c hc := by cases hc
  written _ hi := by cases hi
  exact _ hstep := by cases hstep

theorem Filled.push (h : Filled b text) (c : U8) : Filled (b.push c) (text ++ [c]) where
  out := by
    rw [List.length_append, ← h.out]
    rfl
  chars i d hd := by
    have hout := h.out
    change Function.update b.bytes b.out c i = d
    by_cases hlast : i = text.length
    · rw [hlast, List.getElem?_concat_length] at hd
      obtain rfl := Option.some.inj hd
      rw [hout, hlast, Function.update_self]
    · have hlt : i < text.length := by
        have hbound := (List.getElem?_eq_some_iff.mp hd).1
        rw [List.length_append, List.length_singleton] at hbound
        omega
      rw [List.getElem?_append_left hlt] at hd
      rw [hout, Function.update_of_ne hlast]
      exact h.chars i d hd
  written i hi := by
    have hout := h.out
    rw [List.length_append, List.length_singleton]
    rcases List.mem_cons.mp hi with rfl | hold
    · omega
    · exact Nat.lt_succ_of_lt (h.written i hold)
  exact := h.exact

theorem Filled.append (h : Filled b text) (s : CStr) :
    Filled (s.foldl CwdBuffer.push b) (text ++ s) := by
  induction s generalizing b text with
  | nil =>
      rw [List.append_nil]
      exact h
  | cons c s ih =>
      have hnext := ih (h.push c)
      rw [List.append_assoc] at hnext
      exact hnext

theorem Filled.safe_iff (h : Filled b text) :
    CwdSafe size (b.store 0) ↔ text.length < size.toNat := by
  have hmem : ∀ i, i ∈ (b.store 0).written ↔ i = text.length ∨ i ∈ b.written := by
    intro i
    rw [← h.out]
    exact List.mem_cons
  constructor
  · exact fun hsafe => hsafe.inside _ ((hmem _).mpr (Or.inl rfl))
  · intro hlt
    refine ⟨fun i hi => ?_, ⟨text.length, hlt, ?_⟩, h.exact⟩
    · rcases (hmem i).mp hi with rfl | hold
      · exact hlt
      · exact Nat.lt_trans (h.written i hold) hlt
    · rw [← h.out]
      exact Function.update_self _ _ _

structure Stored (size : U32) (b : CwdBuffer) (text : CStr) : Prop extends Filled b text where
  remaining : b.remaining.toNat + text.length = size.toNat

theorem Stored.append (h : Stored size b text) (hlen : len.toNat = s.length)
    (hroom : s.length ≤ b.remaining.toNat) :
    Stored size ((s.foldl CwdBuffer.push b).take len) (text ++ s) := by
  have hfilled := h.toFilled.append s
  have hsame : (s.foldl CwdBuffer.push b).remaining = b.remaining := by
    clear hfilled hlen hroom h
    induction s generalizing b with
    | nil => rfl
    | cons c s ih => exact ih
  have hle : len ≤ b.remaining := by
    rw [BitVec.le_def, hlen]
    exact hroom
  refine ⟨⟨hfilled.out, hfilled.chars, hfilled.written, fun step hstep => ?_⟩, ?_⟩
  · rcases List.mem_cons.mp hstep with rfl | hold
    · rw [hsame]
      exact hle
    · exact hfilled.exact step hold
  · have htotal := h.remaining
    change ((s.foldl CwdBuffer.push b).remaining - len).toNat + _ = _
    rw [hsame, BitVec.toNat_sub_of_le hle, List.length_append]
    omega

theorem Stored.slash (h : Stored size b text) (hroom : 1 ≤ b.remaining.toNat) :
    Stored size ((b.push (chr '/')).take 1) (text ++ [chr '/']) :=
  h.append (s := [chr '/']) rfl hroom

/-! ## The loop -/

theorem stored_printParts (hshort : ∀ w ∈ parts, w.length ≤ vfsNameMax) (h : Stored size b text) :
    Stored size (b.printParts parts) (text ++ printParts parts b.remaining.toNat) := by
  induction parts generalizing b text with
  | nil =>
      rw [CwdBuffer.printParts, printParts, List.append_nil]
      exact h
  | cons part parts ih =>
      have hpart := hshort part List.mem_cons_self
      unfold vfsNameMax at hpart
      have hlen : (BitVec.ofNat 32 (strLen part)).toNat = part.length := by
        rw [BitVec.toNat_ofNat]
        exact Nat.mod_eq_of_lt (by unfold strLen; omega)
      have hroom : b.remaining < BitVec.ofNat 32 (strLen part) + 1 ↔
          b.remaining.toNat < strLen part + 1 := by
        rw [BitVec.lt_def, BitVec.toNat_add, hlen, show (1 : U32).toNat = 1 from rfl,
          Nat.mod_eq_of_lt (by omega)]
        rfl
      rw [CwdBuffer.printParts, printParts]
      dsimp only
      by_cases hfull : b.remaining.toNat < strLen part + 1
      · rw [if_pos (hroom.mpr hfull), if_pos hfull, List.append_nil]
        exact h
      · rw [if_neg (mt hroom.mp hfull), if_neg hfull]
        have hfits : part.length + 1 ≤ b.remaining.toNat := Nat.not_lt.mp hfull
        have hname := h.append hlen (Nat.le_of_succ_le hfits)
        have htotal := h.remaining
        have htotal' := hname.remaining
        rw [List.length_append] at htotal'
        by_cases hlast : parts = []
        · rw [if_pos hlast, if_pos hlast, hlast]
          exact hname
        · have hnext := ih (fun w hw => hshort w (List.mem_cons_of_mem part hw)) (hname.slash (by omega))
          have htotal'' := (hname.slash (by omega)).remaining
          rw [List.length_append, List.length_append, List.length_singleton] at htotal''
          have hleft : (((part.foldl CwdBuffer.push b).take (BitVec.ofNat 32 (strLen part))).push
              (chr '/') |>.take 1).remaining.toNat = b.remaining.toNat - strLen part - 1 := by
            unfold strLen at *
            omega
          rw [hleft, List.append_assoc, List.append_assoc] at hnext
          rw [if_neg hlast, if_neg hlast]
          exact hnext

/-- The printed names fill all of what remains exactly if some of them, not all, take it up with
their separators. -/
theorem length_printParts (parts : List CStr) (r : Nat) : (printParts parts r).length ≤ r ∧
    (parts ≠ [] → ((printParts parts r).length < r ↔
      History.Each (fun front _ => roomFor front ≠ r) parts)) := by
  induction parts generalizing r with
  | nil => exact ⟨Nat.zero_le r, fun h => absurd rfl h⟩
  | cons part parts ih =>
      obtain ⟨hle, hiff⟩ := ih (r - strLen part - 1)
      have hroom : ∀ front, roomFor (part :: front) = part.length + 1 + roomFor front := fun _ => rfl
      rw [printParts, History.each_cons]
      simp only [hroom]
      have hnone : roomFor [] = 0 := rfl
      unfold strLen at hle hiff ⊢
      by_cases hfull : r < part.length + 1
      · rw [if_pos hfull, hnone]
        refine ⟨Nat.zero_le r, fun _ => ⟨fun hlt => ⟨by change 0 < r at hlt; omega, ?_⟩, fun h => ?_⟩⟩
        · intro front w back _
          omega
        · have hne := h.1
          change 0 < r
          omega
      rw [if_neg hfull, hnone]
      by_cases hlast : parts = []
      · rw [if_pos hlast, hlast]
        exact ⟨by omega, fun _ => iff_of_true (by omega) ⟨by omega, History.each_nil⟩⟩
      · rw [if_neg hlast, List.length_append, List.length_cons]
        refine ⟨by omega, fun _ => ?_⟩
        have hshift : (fun (front : List CStr) (_ : CStr) => part.length + 1 + roomFor front ≠ r) =
            fun front _ => roomFor front ≠ r - part.length - 1 := by
          funext front w
          exact propext ⟨fun h => by omega, fun h => by omega⟩
        rw [hshift, ← hiff hlast]
        constructor
        · exact fun hlt => ⟨by omega, by omega⟩
        · exact fun h => by omega

/-! ## The call -/

theorem stored_slash (bytes : Nat → U8) (hsize : 1 < size.toNat) :
    Stored size (((⟨bytes, 0, size, [], []⟩ : CwdBuffer).push (chr '/')).take 1) [chr '/'] := by
  have hstart : Stored size ⟨bytes, 0, size, [], []⟩ [] := ⟨filled_nil bytes size, rfl⟩
  exact hstart.slash (Nat.le_of_lt hsize)

/-- Whatever the size, the buffer gets the text of the model with a NUL behind it. -/
theorem getCwdPathInto_filled (h : TreeOk t) (hn : n < t.count) (bytes : Nat → U8)
    (hsize : 1 ≤ size.toNat) : ∃ b, vfsGetCwdPathInto t n bytes size = b.store 0 ∧
      Filled b (vfsGetCwdPath t n size.toNat) := by
  have hzero : size ≠ 0 := by
    rintro rfl
    exact absurd hsize (by decide)
  have hlt : (1 : U32) < size ↔ 1 < size.toNat := BitVec.lt_def
  have hnil := filled_nil bytes size
  unfold vfsGetCwdPathInto vfsGetCwdPath
  dsimp only
  rw [if_neg hzero, if_neg (show ¬size.toNat = 0 by omega)]
  by_cases hroot : n = vfsRoot
  · rw [if_pos hroot, if_pos hroot, CwdBuffer.strCopy, if_neg hzero]
    by_cases hmore : 1 < size.toNat
    · have htext : strCopy (cstr "/") size.toNat = [chr '/'] := List.take_of_length_le (by
        change 1 ≤ _
        omega)
      rw [htext]
      refine ⟨_, ?_, hnil.push (chr '/')⟩
      change CwdBuffer.strCopyLoop _ [chr '/'] size = _
      rw [CwdBuffer.strCopyLoop, if_pos (hlt.mpr hmore)]
      rfl
    · have htext : strCopy (cstr "/") size.toNat = [] := by
        unfold strCopy
        rw [show size.toNat - 1 = 0 by omega, List.take_zero]
      rw [htext]
      refine ⟨_, ?_, hnil⟩
      change CwdBuffer.strCopyLoop _ [chr '/'] size = _
      rw [CwdBuffer.strCopyLoop, if_neg (mt hlt.mp hmore)]
  · rw [if_neg hroot, if_neg hroot]
    have hshort : ∀ w ∈ (cwdParts t cwdPartsMax (some n)).reverse, w.length ≤ vfsNameMax := by
      intro w hw
      rw [cwdParts_eq h hn, List.mem_reverse] at hw
      have hmem := List.mem_reverse.mp (List.mem_of_mem_take hw)
      exact (h.nameOk_of_mem_pathOf hn w hmem).short
    refine ⟨_, rfl, ?_⟩
    by_cases hmore : 1 < size.toNat
    · have hslash := stored_slash bytes hmore
      have hstored := stored_printParts hshort hslash
      have hleft := hslash.remaining
      rw [List.length_singleton] at hleft
      rw [Nat.eq_sub_of_add_eq hleft] at hstored
      rw [if_pos (hlt.mpr hmore), if_pos hmore]
      exact hstored.toFilled
    · have hstart : Stored size ⟨bytes, 0, size, [], []⟩ [] := ⟨hnil, rfl⟩
      have hstored := stored_printParts hshort hstart
      rw [if_neg (mt hlt.mp hmore), if_neg hmore]
      exact hstored.toFilled

/-- The text has as many bytes as the buffer exactly if some of the names, not all, take up all of
it with the separators. -/
theorem length_getCwdPath (h : TreeOk t) (hn : n < t.count) {size : Nat} (hsize : 1 ≤ size) :
    (vfsGetCwdPath t n size).length < size ↔
      History.Each (fun front _ => front ≠ [] → 1 + roomFor front ≠ size) (shownNames t n) := by
  have hshown : (cwdParts t cwdPartsMax (some n)).reverse = shownNames t n := by
    rw [cwdParts_eq h hn, List.reverse_take, List.reverse_reverse, List.length_reverse]
    rfl
  have hok : ∀ w ∈ shownNames t n, NameOk w :=
    fun w hw => h.nameOk_of_mem_pathOf hn w (List.mem_of_mem_drop hw)
  unfold vfsGetCwdPath
  rw [if_neg (by omega), hshown]
  by_cases hroot : n = vfsRoot
  · have hnil : shownNames t n = [] := by
      unfold shownNames
      rw [hroot, h.pathOf_root, List.drop_nil]
    rw [if_pos hroot, hnil]
    refine iff_of_true ?_ History.each_nil
    have hle := List.length_take_le (size - 1) (cstr "/")
    change (List.take (size - 1) (cstr "/")).length < size
    omega
  rw [if_neg hroot]
  have hne : shownNames t n ≠ [] := by
    intro hnil
    have hlen := congrArg List.length hnil
    have hpath : pathOf t n ≠ [] := mt (h.pathOf_eq_nil_iff hn).mp hroot
    have hpos := List.length_pos_iff.mpr hpath
    unfold shownNames cwdPartsMax at hlen
    rw [List.length_drop, List.length_nil] at hlen
    omega
  by_cases hmore : 1 < size
  · have hshift : (fun (front : List CStr) (_ : CStr) => roomFor front ≠ size - 1) =
        fun front _ => front ≠ [] → 1 + roomFor front ≠ size := by
      funext front w
      refine propext ⟨fun h _ => by omega, fun h hsum => ?_⟩
      have hcons : front ≠ [] := by
        rintro rfl
        change 0 = size - 1 at hsum
        omega
      have hsize' := h hcons
      omega
    have hiff := (length_printParts (shownNames t n) (size - 1)).2 hne
    rw [hshift] at hiff
    rw [if_pos hmore, List.length_cons, ← hiff]
    omega
  · -- not even the slash is stored
    obtain ⟨name, names, hnames⟩ := List.exists_cons_of_ne_nil hne
    have hname : name ≠ [] := (hok name (hnames ▸ List.mem_cons_self)).nonempty
    have hlen : 0 < name.length := List.length_pos_iff.mpr hname
    rw [if_neg hmore, hnames, printParts, if_pos (by unfold strLen; omega)]
    refine iff_of_true hsize fun front w back _ hfront => ?_
    obtain ⟨first, rest, rfl⟩ := List.exists_cons_of_ne_nil hfront
    change 1 + (first.length + 1 + roomFor rest) ≠ size
    omega

section Runs

variable {mach : Machine} {mounts : Mounts} {heap : Heap} {fs₀ fs : Fs} {es : List TreeEvent}

/-- For a node of a tree that a run makes: the call keeps to its buffer unless the slash in front
and some of the names, not all, each with the slash behind it, take up exactly the whole buffer. -/
theorem getCwdPathInto_safe_iff (hinit : vfsInit mounts heap = some fs₀)
    (hrun : Runs.run (treeStep mach) fs₀ es = some fs) (hn : n < fs.tree.count)
    (bytes : Nat → U8) (hsize : 1 ≤ size.toNat) :
    CwdSafe size (vfsGetCwdPathInto fs.tree n bytes size) ↔
      ∀ front name back, shownNames fs.tree n = front ++ name :: back →
        front ≠ [] → 1 + roomFor front ≠ size.toNat := by
  have hok := treeOk_run hinit hrun
  obtain ⟨b, hb, hfilled⟩ := getCwdPathInto_filled hok hn bytes hsize
  rw [hb, hfilled.safe_iff]
  exact length_getCwdPath hok hn hsize

end Runs

/-- The directory `b` in `a`, with room for both names. -/
theorem getCwdPathInto_safe_demo : ∃ fs₀ fs, vfsInit (fsInit none) plainHeap = some fs₀ ∧
    Runs.run (treeStep plainMach) fs₀ demoDirs = some fs ∧
      CwdSafe 128 (vfsGetCwdPathInto fs.tree 7 (fun _ => 0xFF) 128) := by
  have hview : (callsFrom plainMach (fsInit none) plainHeap demoDirs).map (fun fs => (fs.tree.count,
      pathOf fs.tree 7)) = some (8, [cstr "tmp", cstr "a", cstr "b"]) := by decide +kernel
  obtain ⟨fs, hcalls, hfs⟩ := Option.map_eq_some_iff.mp hview
  obtain ⟨fs₀, hinit, hrun⟩ := Option.bind_eq_some_iff.mp hcalls
  obtain ⟨hcount, hpath⟩ := Prod.mk.inj hfs
  have hlt : 7 < fs.tree.count := by
    rw [hcount]
    decide
  refine ⟨fs₀, fs, hinit, hrun, ?_⟩
  refine (getCwdPathInto_safe_iff hinit hrun hlt (fun _ => 0xFF) (by decide)).mpr ?_
  intro front name back hnames _ hroom
  have hshown : shownNames fs.tree 7 = [cstr "tmp", cstr "a", cstr "b"] := by
    unfold shownNames
    rw [hpath]
    rfl
  have hall : roomFor front ≤ roomFor [cstr "tmp", cstr "a", cstr "b"] := by
    rw [← hshown, hnames]
    unfold roomFor
    rw [List.map_append, List.sum_append]
    exact Nat.le_add_right _ _
  have hsmall : roomFor [cstr "tmp", cstr "a", cstr "b"] = 8 := by decide
  change 1 + roomFor front = 128 at hroom
  omega

/-- Directories whose printed names take 127 bytes with their separators, and one more in the
last. -/
def fullDirs : List TreeEvent :=
  [.makeDir vfsRoot (List.replicate 31 (chr 'a')), .makeDir 6 (List.replicate 31 (chr 'b')),
    .makeDir 7 (List.replicate 31 (chr 'c')), .makeDir 8 (List.replicate 30 (chr 'd')),
    .makeDir 9 (cstr "e")]

/-- The prompt of a shell in the last of these directories: the NUL is stored behind the 128 bytes
of `path`. -/
theorem getCwdPathInto_outside : ∃ fs₀ fs, vfsInit (fsInit none) plainHeap = some fs₀ ∧
    Runs.run (treeStep plainMach) fs₀ fullDirs = some fs ∧ 10 < fs.tree.count ∧
      128 ∈ (vfsGetCwdPathInto fs.tree 10 (fun _ => 0xFF) 128).written ∧
        ¬CwdSafe 128 (vfsGetCwdPathInto fs.tree 10 (fun _ => 0xFF) 128) := by
  have hview : (callsFrom plainMach (fsInit none) plainHeap fullDirs).map (fun fs =>
      (fs.tree.count, (vfsGetCwdPathInto fs.tree 10 (fun _ => 0xFF) 128).written.head?)) =
        some (11, some 128) := by decide +kernel
  obtain ⟨fs, hcalls, hfs⟩ := Option.map_eq_some_iff.mp hview
  obtain ⟨fs₀, hinit, hrun⟩ := Option.bind_eq_some_iff.mp hcalls
  obtain ⟨hcount, hlast⟩ := Prod.mk.inj hfs
  have hmem : 128 ∈ (vfsGetCwdPathInto fs.tree 10 (fun _ => 0xFF) 128).written :=
    List.mem_of_mem_head? hlast
  refine ⟨fs₀, fs, hinit, hrun, by omega, hmem, fun hsafe => ?_⟩
  exact absurd (hsafe.inside 128 hmem) (by decide)

end SlopOS.Proofs.PathBuffer
