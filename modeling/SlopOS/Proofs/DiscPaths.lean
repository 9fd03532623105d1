import SlopOS.Proofs.DiscScan
import SlopOS.Support.PathText
/-!
# Paths on the disc

The character loop of `fs.c` goes down one directory for every component that a
slash ends, and keeps the last component for its caller.  `iso_resolve_path`
and `iso_read_file_alloc` are rewritten in these terms.
-/

namespace SlopOS.Proofs.DiscPaths

open SlopOS.Support SlopOS.Support.PathText SlopOS.Kernel SlopOS.Proofs.DiscScan

/-- One component down: a directory of that name with a valid extent. -/
def descend (read : Disc) (volumeSectors : U32) (cur : IsoDirLoc) (comp : CStr) :
    Option (Option IsoDirLoc) :=
  if direntNameSize ≤ comp.length then some none
  else
    match isoFindChild read cur comp with
    | none => none
    | some none => some none
    | some (some child) =>
      if child.flags &&& 0x02 = 0 then some none
      else if !isoExtentValid child.extentLba child.size volumeSectors then some none
      else some (some child)

def descendAll (read : Disc) (volumeSectors : U32) :
    List CStr → IsoDirLoc → Option (Option IsoDirLoc)
  | [], cur => some (some cur)
  | comp :: comps, cur =>
    match descend read volumeSectors cur comp with
    | none => none
    | some none => some none
    | some (some child) => descendAll read volumeSectors comps child

/-- The directory that holds the last component, and that component. -/
def isoSplit (read : Disc) (volumeSectors : U32) (root : IsoDirLoc) (path : CStr) :
    Option (Option (IsoDirLoc × CStr)) :=
  match descendAll read volumeSectors (endedWords (chr '/') path) root with
  | none => none
  | some none => some none
  | some (some dir) =>
    let last := lastPiece (chr '/') path
    if direntNameSize ≤ last.length then some none else some (some (dir, last))

variable {read : Disc} {volumeSectors : U32} {cur dir child : IsoDirLoc} {comp p path : CStr}
variable {comps : List CStr}

theorem descendAll_cons_tooLong (hlen : direntNameSize ≤ comp.length) :
    descendAll read volumeSectors (comp :: comps) cur = some none := by
  rw [descendAll, descend, if_pos hlen]

theorem isoSplit_tooLong {w : CStr} (hw : chr '/' ∉ w) (hlen : direntNameSize ≤ w.length)
    (hp : ∀ c ∈ p.head?, c = chr '/') :
    isoSplit read volumeSectors cur (w ++ p) = some none := by
  have hne : w ≠ [] := by
    rintro rfl
    simp [direntNameSize] at hlen
  unfold isoSplit
  cases p with
  | nil =>
      rw [List.append_nil, endedWords_of_not_mem hw, lastPiece_of_not_mem hw]
      exact if_pos hlen
  | cons c p =>
      obtain rfl := hp c rfl
      rw [endedWords_append_sep, components_word hne hw, List.singleton_append,
        descendAll_cons_tooLong hlen]

theorem isoSplit_sep : isoSplit read volumeSectors cur (chr '/' :: p) =
    isoSplit read volumeSectors cur p := by
  have hended := @endedWords_append_sep _ _ (chr '/') [] p
  have hlast := @lastPiece_append_sep _ _ (chr '/') [] p
  simp only [components_nil, List.nil_append] at hended hlast
  unfold isoSplit
  rw [hended, hlast]

theorem isoSplit_word (hne : comp ≠ []) (hcomp : chr '/' ∉ comp) :
    isoSplit read volumeSectors cur (comp ++ chr '/' :: p) =
      match descend read volumeSectors cur comp with
      | none => none
      | some none => some none
      | some (some child) => isoSplit read volumeSectors child p := by
  unfold isoSplit
  rw [endedWords_append_sep, lastPiece_append_sep, components_word hne hcomp,
    List.singleton_append, descendAll]
  cases descend read volumeSectors cur comp with
  | none => rfl
  | some found => cases found <;> rfl

/-- The loop forgets whether there was a component, but a component that is still open
was one. -/
theorem isoWalk_eq {have₀ : Bool} (hcomp : chr '/' ∉ comp) (hlen : comp.length < direntNameSize)
    (hopen : comp ≠ [] → have₀ = true) :
    (isoWalk read volumeSectors p cur comp have₀).map (Option.map fun w => (w.1, w.2.1)) =
        isoSplit read volumeSectors cur (comp ++ p) ∧
      ∀ dir last have₁, isoWalk read volumeSectors p cur comp have₀ =
        some (some (dir, last, have₁)) → last ≠ [] → have₁ = true := by
  induction p generalizing cur comp have₀ with
  | nil =>
      rw [isoWalk, List.append_nil]
      refine ⟨?_, fun dir last have₁ h hlast => ?_⟩
      · unfold isoSplit
        rw [endedWords_of_not_mem hcomp, lastPiece_of_not_mem hcomp, descendAll]
        dsimp only
        rw [if_neg (Nat.not_le.mpr hlen)]
        rfl
      · cases h
        exact hopen hlast
  | cons c p ih =>
      rw [isoWalk]
      by_cases hc : c = chr '/'
      · subst hc
        rw [if_pos rfl]
        by_cases hempty : comp = []
        · subst hempty
          rw [if_pos rfl, List.nil_append, isoSplit_sep]
          exact ih hcomp hlen hopen
        · rw [if_neg hempty, isoSplit_word hempty hcomp, descend, if_neg (Nat.not_le.mpr hlen)]
          cases isoFindChild read cur comp with
          | none => exact ⟨rfl, nofun⟩
          | some found =>
              cases found with
              | none => exact ⟨rfl, nofun⟩
              | some child =>
                  dsimp only
                  split
                  · exact ⟨rfl, nofun⟩
                  split
                  · exact ⟨rfl, nofun⟩
                  · have hrest := @ih child [] true List.not_mem_nil (by decide)
                      (fun _ => rfl)
                    rwa [List.nil_append] at hrest
      · rw [if_neg hc]
        have hcomp' : chr '/' ∉ comp ++ [c] := by
          rw [List.mem_append, List.mem_singleton, not_or]
          exact ⟨hcomp, Ne.symm hc⟩
        have hwhole : comp ++ c :: p = (comp ++ [c]) ++ p := by simp
        rw [hwhole]
        split
        · rename_i hlong
          refine ⟨?_, nofun⟩
          -- the component that overflows the buffer goes on up to the next slash
          have hsplit : (comp ++ [c]) ++ p = ((comp ++ [c]) ++ p.takeWhile fun c => c ≠ chr '/') ++
              p.dropWhile fun c => c ≠ chr '/' := by
            rw [List.append_assoc (comp ++ [c]), List.takeWhile_append_dropWhile]
          rw [hsplit, isoSplit_tooLong _ _ (head?_dropWhile p)]
          · rfl
          · rw [List.mem_append, not_or]
            exact ⟨hcomp', sep_not_mem_takeWhile p⟩
          · simp only [List.length_append, List.length_singleton]
            omega
        · rename_i hshort
          exact ih hcomp' (by simpa using hshort) (fun _ => rfl)

theorem isoSplit_skipSlashes {root : IsoDirLoc} :
    isoSplit read volumeSectors root (skipSlashes path) =
      isoSplit read volumeSectors root path := by
  unfold isoSplit skipSlashes
  rw [endedWords_dropWhile, lastPiece_dropWhile]

/-- What is done with the end of the walk is done with the end of the split. -/
theorem walk_split {β : Type} (root : IsoDirLoc) (path : CStr) (a b : β) (e : IsoDirLoc → β)
    (g : IsoDirLoc → CStr → β) :
    (match isoWalk read volumeSectors (skipSlashes path) root [] false with
      | none => a
      | some none => b
      | some (some (dir, last, have₁)) => if !have₁ ∨ last = [] then e dir else g dir last) =
    match isoSplit read volumeSectors root path with
      | none => a
      | some none => b
      | some (some (dir, last)) => if last = [] then e dir else g dir last := by
  obtain ⟨hwalk, hhave⟩ := @isoWalk_eq read volumeSectors root []
    (skipSlashes path) false List.not_mem_nil (by decide) (fun h => absurd rfl h)
  rw [List.nil_append, isoSplit_skipSlashes] at hwalk
  rw [← hwalk]
  generalize isoWalk read volumeSectors (skipSlashes path) root [] false = walked at hhave
  match walked with
  | none => rfl
  | some none => rfl
  | some (some (dir, last, have₁)) =>
      by_cases hlast : last = []
      · simp [hlast]
      · have hgo : ¬((!have₁) = true ∨ last = []) := by
          rw [hhave dir last have₁ rfl hlast]
          exact fun h => h.elim Bool.false_ne_true hlast
        exact (if_neg hgo).trans (if_neg hlast).symm

theorem isoResolvePath_eq (read : Disc) (path : CStr) :
    isoResolvePath read path =
      match isoReadPvdRoot read with
      | none => some none
      | some (root, volumeSectors) =>
        if !isoExtentValid root.extentLba root.size volumeSectors then some none
        else
          match isoSplit read volumeSectors root path with
          | none => none
          | some none => some none
          | some (some (dir, last)) =>
            if last = [] then some (some (dir, true))
            else
              match isoFindChild read dir last with
              | none => none
              | some none => some none
              | some (some child) =>
                if !isoExtentValid child.extentLba child.size volumeSectors then some none
                else some (some (child, decide (child.flags &&& 0x02 ≠ 0))) := by
  unfold isoResolvePath
  cases isoReadPvdRoot read with
  | none => rfl
  | some pvd =>
      obtain ⟨root, volumeSectors⟩ := pvd
      dsimp only
      split
      · rfl
      by_cases hempty : skipSlashes path = []
      · rw [if_pos hempty, ← isoSplit_skipSlashes, hempty]
        rfl
      rw [if_neg hempty]
      exact walk_split root path _ _ _ _

theorem isoReadFileAlloc_eq (read : Disc) (heap : Heap) (path : CStr) :
    isoReadFileAlloc read heap path =
      match isoReadPvdRoot read with
      | none => some (none, heap)
      | some (root, volumeSectors) =>
        if !isoExtentValid root.extentLba root.size volumeSectors then some (none, heap)
        else
          match isoSplit read volumeSectors root path with
          | none => none
          | some none => some (none, heap)
          | some (some (dir, last)) =>
            if last = [] then some (none, heap)
            else
              match isoFindChild read dir last with
              | none => none
              | some none => some (none, heap)
              | some (some child) =>
                if child.flags &&& 0x02 ≠ 0 then some (none, heap)
                else if !isoExtentValid child.extentLba child.size volumeSectors then
                  some (none, heap)
                else if isoFileMax < child.size.toNat then some (none, heap)
                else
                  match kmalloc heap (child.size + 1) with
                  | none => some (none, heap)
                  | some (_, heap) =>
                    some (readDataLoop read child.extentLba child.size.toNat
                      ((child.size.toNat + 2047) / 2048) 0 [], heap) := by
  unfold isoReadFileAlloc
  by_cases hempty : skipSlashes path = []
  · dsimp only
    rw [if_pos hempty]
    cases isoReadPvdRoot read with
    | none => rfl
    | some pvd =>
        obtain ⟨root, volumeSectors⟩ := pvd
        dsimp only
        rw [← isoSplit_skipSlashes, hempty]
        split <;> rfl
  dsimp only
  rw [if_neg hempty]
  cases isoReadPvdRoot read with
  | none => rfl
  | some pvd =>
      obtain ⟨root, volumeSectors⟩ := pvd
      dsimp only
      split
      · rfl
      exact walk_split root path _ _ _ _

end SlopOS.Proofs.DiscPaths
