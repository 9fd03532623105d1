import SlopOS.Kernel.Shell
import SlopOS.Support.History
import SlopOS.Support.Spans
/-!
# The tokens of a command line

`shell_split_args` ends the words in place.  The NUL that it writes over a `>` behind a word is also
what its outer loop takes for the end of the line, so it finds the tokens up to the first such `>`.
-/

namespace SlopOS.Proofs.Tokens

open SlopOS.Kernel SlopOS.Support SlopOS.Support.Spans

/-! ## Tokens -/

def IsWord (c : U8) : Prop := c ≠ chr ' ' ∧ c ≠ chr '>'

instance (c : U8) : Decidable (IsWord c) := inferInstanceAs (Decidable (_ ∧ _))

/-- The maximal runs of word characters, and each `>` by itself. -/
def tokens : CStr → List CStr
  | [] => []
  | c :: s =>
    if c = chr ' ' then tokens s
    else if c = chr '>' then [c] :: tokens s
    else (c :: s.takeWhile fun c => IsWord c) :: tokens (s.dropWhile fun c => IsWord c)
termination_by s => s.length
decreasing_by
  all_goals simp only [List.length_cons]
  · omega
  · omega
  · exact Nat.lt_succ_of_le (List.dropWhile_sublist _).length_le

/-- The line up to the first `>` that stands right behind a word. -/
def cut : CStr → CStr
  | [] => []
  | [c] => [c]
  | c :: d :: s => if IsWord c ∧ d = chr '>' then [c] else c :: cut (d :: s)

variable {s t w : CStr} {c : U8}

theorem isWord_space : ¬IsWord (chr ' ') := by decide

theorem isWord_redirect : ¬IsWord (chr '>') := by decide

@[simp] theorem tokens_nil : tokens [] = [] := by rw [tokens]

theorem tokens_space : tokens (chr ' ' :: s) = tokens s := by
  rw [tokens, if_pos rfl]

theorem tokens_redirect : tokens (chr '>' :: s) = cstr ">" :: tokens s := by
  rw [tokens, if_neg (by decide), if_pos rfl]
  rfl

/-- A word that ends where the string does, or at a space or a `>`. -/
theorem tokens_word (hne : w ≠ []) (hw : ∀ c ∈ w, IsWord c) (ht : ∀ c ∈ t.head?, ¬IsWord c) :
    tokens (w ++ t) = w :: tokens t := by
  obtain ⟨c, w, rfl⟩ := List.exists_cons_of_ne_nil hne
  have hc := hw c List.mem_cons_self
  have hw' : ∀ d ∈ w, IsWord d := fun d hd => hw d (List.mem_cons_of_mem c hd)
  rw [List.cons_append, tokens, if_neg hc.1, if_neg hc.2, takeWhile_span hw' ht,
    dropWhile_span hw' ht]

theorem word_split (hc : IsWord c) : ∃ w t, c :: s = w ++ t ∧ w ≠ [] ∧ (∀ c ∈ w, IsWord c) ∧
    (∀ c ∈ t.head?, ¬IsWord c) ∧ t.length < (c :: s).length := by
  refine ⟨c :: s.takeWhile fun c => IsWord c, s.dropWhile fun c => IsWord c, ?_,
    List.cons_ne_nil _ _, ?_, ?_, Nat.lt_succ_of_le (List.dropWhile_sublist _).length_le⟩
  · rw [List.cons_append, List.takeWhile_append_dropWhile]
  · intro d hd
    rcases List.mem_cons.mp hd with rfl | hd
    · exact hc
    · exact of_mem_takeWhile hd
  · exact fun d hd => not_of_head_dropWhile hd

theorem tokens_append_redirect :
    tokens (s ++ chr '>' :: t) = tokens s ++ cstr ">" :: tokens t := by
  induction hn : s.length using Nat.strong_induction_on generalizing s with
  | _ n ih =>
      cases s with
      | nil =>
          rw [tokens_nil]
          exact tokens_redirect
      | cons c s =>
          by_cases hspace : c = chr ' '
          · rw [hspace, List.cons_append, tokens_space, tokens_space]
            exact ih s.length (by simp at hn; omega) rfl
          · by_cases hredirect : c = chr '>'
            · rw [hredirect, List.cons_append, tokens_redirect, tokens_redirect, List.cons_append]
              rw [ih s.length (by simp at hn; omega) rfl]
            · obtain ⟨w, u, hsplit, hne, hw, hu, hlt⟩ := word_split (s := s) ⟨hspace, hredirect⟩
              have hrest := ih u.length (by omega) (s := u) rfl
              have hend : ∀ c ∈ (u ++ chr '>' :: t).head?, ¬IsWord c := by
                cases u with
                | nil => simpa using isWord_redirect
                | cons d u => exact hu
              rw [hsplit, List.append_assoc, tokens_word hne hw hend, tokens_word hne hw hu, hrest,
                List.cons_append]

theorem length_tokens_le : (tokens s).length ≤ s.length := by
  induction hn : s.length using Nat.strong_induction_on generalizing s with
  | _ n ih =>
      cases s with
      | nil => simp
      | cons c s =>
          rw [List.length_cons] at hn
          have hrest := ih s.length (by omega) (s := s) rfl
          by_cases hspace : c = chr ' '
          · rw [hspace, tokens_space]
            omega
          · by_cases hredirect : c = chr '>'
            · rw [hredirect, tokens_redirect, List.length_cons]
              omega
            · obtain ⟨w, u, hsplit, hne, hw, hu, hlt⟩ := word_split (s := s) ⟨hspace, hredirect⟩
              rw [List.length_cons] at hlt
              have hrest := ih u.length (by omega) (s := u) rfl
              rw [hsplit, tokens_word hne hw hu, List.length_cons]
              omega

/-! ## The cut -/

theorem cut_of_not (h : ∀ d ∈ s.head?, IsWord c → d ≠ chr '>') : cut (c :: s) = c :: cut s := by
  cases s with
  | nil => rfl
  | cons d s =>
      rw [cut, if_neg]
      rintro ⟨hc, hd⟩
      exact h d rfl hc hd

theorem cut_space : cut (chr ' ' :: s) = chr ' ' :: cut s :=
  cut_of_not fun _ _ h => absurd h isWord_space

theorem cut_redirect : cut (chr '>' :: s) = chr '>' :: cut s :=
  cut_of_not fun _ _ h => absurd h isWord_redirect

theorem cut_word (hw : ∀ c ∈ w, IsWord c) (ht : ∀ c ∈ t.head?, c = chr ' ') :
    cut (w ++ t) = w ++ cut t := by
  induction w with
  | nil => rfl
  | cons c w ih =>
      have hrest := ih fun d hd => hw d (List.mem_cons_of_mem c hd)
      have hnext : ∀ d ∈ (w ++ t).head?, IsWord c → d ≠ chr '>' := by
        intro d hd hc
        cases w with
        | nil =>
            rw [ht d hd]
            decide
        | cons e w =>
            obtain rfl : e = d := Option.some.inj hd
            exact (hw e (List.mem_cons_of_mem c List.mem_cons_self)).2
      rw [List.cons_append, cut_of_not hnext, hrest, List.cons_append]

theorem cut_word_redirect (hne : w ≠ []) (hw : ∀ c ∈ w, IsWord c) :
    cut (w ++ chr '>' :: t) = w := by
  induction w with
  | nil => exact absurd rfl hne
  | cons c w ih =>
      cases w with
      | nil => exact if_pos ⟨hw c List.mem_cons_self, rfl⟩
      | cons d w =>
          have hrest := ih (List.cons_ne_nil d w) fun e he => hw e (List.mem_cons_of_mem c he)
          have hd := hw d (List.mem_cons_of_mem c List.mem_cons_self)
          rw [List.cons_append, cut_of_not, hrest]
          intro e he _
          obtain rfl : d = e := Option.some.inj he
          exact hd.2

theorem cut_cases : cut s = s ∨ ∃ front c back,
    s = front ++ c :: chr '>' :: back ∧ IsWord c ∧ cut s = front ++ [c] := by
  induction s with
  | nil => exact .inl rfl
  | cons c s ih =>
      cases s with
      | nil => exact .inl rfl
      | cons d s =>
          by_cases hcut : IsWord c ∧ d = chr '>'
          · refine .inr ⟨[], c, s, ?_, hcut.1, if_pos hcut⟩
            rw [hcut.2, List.nil_append]
          · have hkeep : cut (c :: d :: s) = c :: cut (d :: s) := if_neg hcut
            rcases ih with hall | ⟨front, e, back, hs, he, hfront⟩
            · exact .inl (hkeep.trans (congrArg _ hall))
            · refine .inr ⟨c :: front, e, back, ?_, he, hkeep.trans (congrArg _ hfront)⟩
              rw [hs, List.cons_append]

theorem cut_le {front back : CStr} (hs : s = front ++ c :: chr '>' :: back) (hc : IsWord c) :
    (∃ mid, s = cut s ++ chr '>' :: mid) ∧ (cut s).length ≤ front.length + 1 := by
  induction front generalizing s with
  | nil =>
      have hcut : cut s = [c] := by
        rw [hs]
        exact if_pos ⟨hc, rfl⟩
      rw [hcut]
      exact ⟨⟨back, hs⟩, le_rfl⟩
  | cons a front ih =>
      obtain ⟨d, u, hu⟩ : ∃ d u, front ++ c :: chr '>' :: back = d :: u :=
        List.exists_cons_of_ne_nil (List.append_ne_nil_of_right_ne_nil _ (List.cons_ne_nil _ _))
      rw [List.cons_append, hu] at hs
      by_cases hcut : IsWord a ∧ d = chr '>'
      · have hs' : cut s = [a] := by
          rw [hs]
          exact if_pos hcut
        rw [hs']
        refine ⟨⟨u, ?_⟩, Nat.le_add_left 1 _⟩
        rw [hs, hcut.2]
        rfl
      · obtain ⟨⟨mid, hmid⟩, hle⟩ := ih hu.symm
        have hs' : cut s = a :: cut (d :: u) := by
          rw [hs]
          exact if_neg hcut
        rw [hs']
        refine ⟨⟨mid, ?_⟩, Nat.succ_le_succ hle⟩
        rw [List.cons_append, ← hmid, hs]

/-! ## The loop -/

variable {pre rest : Bytes} {argv : List ShellArg} {done : List CStr} {maxArgs : Int} {fuel : Nat}

theorem charAt_append : charAt (pre ++ rest) pre.length = rest.headD 0 := by
  unfold charAt
  rw [List.getD_eq_getElem?_getD, List.getElem?_append_right le_rfl, Nat.sub_self,
    List.headD_eq_head?_getD, List.head?_eq_getElem?]

theorem set_append_cons {d : U8} :
    (pre ++ c :: rest).set pre.length d = pre ++ d :: rest := by
  rw [List.set_append_right _ _ le_rfl, Nat.sub_self, List.set_cons_zero]

theorem skipSpacesAt_append {blanks : CStr} (hblanks : ∀ c ∈ blanks, c = chr ' ')
    (hrest : ∀ c ∈ rest.head?, c ≠ chr ' ') :
    skipSpacesAt (pre ++ (blanks ++ rest)) pre.length = (pre ++ blanks).length := by
  unfold skipSpacesAt
  rw [List.drop_left, takeWhile_span hblanks hrest, List.length_append]

theorem wordEnd_append (hw : ∀ c ∈ w, IsWord c) (hnul : 0 ∉ w)
    (ht : ∀ c ∈ t.head?, ¬IsWord c) :
    wordEnd (pre ++ (w ++ t)) pre.length = (pre ++ w).length := by
  have hall : ∀ c ∈ w, c ≠ 0 ∧ c ≠ chr ' ' ∧ c ≠ chr '>' := fun c hc =>
    ⟨ne_of_mem_of_not_mem hc hnul, hw c hc⟩
  have hend : ∀ c ∈ t.head?, ¬(c ≠ 0 ∧ c ≠ chr ' ' ∧ c ≠ chr '>') := fun c hc h => ht c hc h.2
  unfold wordEnd
  rw [List.drop_left, takeWhile_span hall hend, List.length_append]

/-- The entries of `argv` whose strings end in `pre`, whatever is behind it. -/
def Collected (pre : Bytes) (argv : List ShellArg) (done : List CStr) : Prop :=
  ∀ rest, argv.map (argText (pre ++ rest)) = done

theorem collected_append (h : Collected pre argv done) (t : Bytes) :
    Collected (pre ++ t) argv done := by
  intro rest
  rw [List.append_assoc]
  exact h (t ++ rest)

theorem collected_redirect (h : Collected pre argv done) :
    Collected pre (argv ++ [.redirect]) (done ++ [cstr ">"]) := by
  intro rest
  rw [List.map_append, h rest]
  rfl

theorem argText_word (hnul : 0 ∉ w) (hend : ∀ c ∈ rest.head?, c = 0) :
    argText (pre ++ (w ++ rest)) (.word pre.length) = w := by
  have hall : ∀ c ∈ w, c ≠ 0 := fun c hc => ne_of_mem_of_not_mem hc hnul
  dsimp only [argText]
  rw [List.drop_left]
  exact takeWhile_span hall fun c hc => not_not.mpr (hend c hc)

theorem collected_word (h : Collected pre argv done) (hnul : 0 ∉ w) :
    Collected (pre ++ w ++ [0]) (argv ++ [.word pre.length]) (done ++ [w]) := by
  intro rest
  have htext : argText (pre ++ (w ++ 0 :: rest)) (.word pre.length) = w :=
    argText_word hnul fun c hc => (Option.some.inj hc).symm
  have hline : pre ++ w ++ [0] ++ rest = pre ++ (w ++ 0 :: rest) := by
    rw [List.append_assoc, List.append_assoc, List.singleton_append]
  rw [hline, List.map_append, h, List.map_singleton, htext]

theorem splitLoop_full (h : maxArgs ≤ argv.length) :
    splitLoop maxArgs (fuel + 1) (pre ++ rest) pre.length argv = some (argv, pre ++ rest) := by
  dsimp only [splitLoop]
  rw [if_pos (.inr h)]

theorem splitLoop_stop (h : ∀ c ∈ rest.head?, c = 0) :
    splitLoop maxArgs (fuel + 1) (pre ++ rest) pre.length argv = some (argv, pre ++ rest) := by
  have hnul : charAt (pre ++ rest) pre.length = 0 := by
    rw [charAt_append]
    cases rest with
    | nil => rfl
    | cons c s => exact h c rfl
  dsimp only [splitLoop]
  rw [if_pos (.inl hnul)]

theorem splitLoop_blanks {blanks : CStr} (hblanks : ∀ c ∈ blanks, c = chr ' ')
    (hrest : ∀ c ∈ rest.head?, c ≠ chr ' ') :
    splitLoop maxArgs (fuel + 1) (pre ++ (blanks ++ rest)) pre.length argv =
      splitLoop maxArgs (fuel + 1) (pre ++ blanks ++ rest) (pre ++ blanks).length argv := by
  by_cases hfull : maxArgs ≤ argv.length
  · rw [splitLoop_full hfull, splitLoop_full hfull, List.append_assoc]
  cases blanks with
  | nil => rw [List.nil_append, List.append_nil]
  | cons b blanks =>
      have hskip := @skipSpacesAt_append pre _ _ hblanks hrest
      have hstay := @skipSpacesAt_append (pre ++ b :: blanks) rest [] nofun hrest
      rw [List.nil_append, List.append_nil] at hstay
      have hgo : ¬(charAt (pre ++ (b :: blanks ++ rest)) pre.length = 0 ∨
          maxArgs ≤ argv.length) := by
        rw [charAt_append, List.cons_append, List.headD_cons, hblanks b List.mem_cons_self]
        exact not_or.mpr ⟨by decide, hfull⟩
      dsimp only [splitLoop]
      rw [if_neg hgo, hskip, ← List.append_assoc, hstay]
      by_cases hend : charAt (pre ++ b :: blanks ++ rest) (pre ++ b :: blanks).length = 0
      · rw [if_pos hend, if_pos (Or.inl hend)]
      · rw [if_neg (not_or.mpr ⟨hend, hfull⟩)]

theorem splitLoop_token (hfull : ¬maxArgs ≤ argv.length) (hc : c ≠ 0) (hspace : c ≠ chr ' ') :
    splitLoop maxArgs (fuel + 1) (pre ++ c :: s) pre.length argv =
      if c = chr '>' then
        splitLoop maxArgs fuel (pre ++ c :: s) (pre.length + 1) (argv ++ [.redirect])
      else
        let line := pre ++ c :: s
        let p := wordEnd line pre.length
        if charAt line p = chr '>' then
          splitLoop maxArgs fuel (line.set p 0) p (argv ++ [.word pre.length])
        else if charAt line p = 0 then splitLoop maxArgs fuel line p (argv ++ [.word pre.length])
        else splitLoop maxArgs fuel (line.set p 0) (p + 1) (argv ++ [.word pre.length]) := by
  have hchar : charAt (pre ++ c :: s) pre.length = c := charAt_append
  have hstay := @skipSpacesAt_append pre (c :: s) [] nofun fun d hd => by
    rwa [← Option.some.inj hd]
  rw [List.nil_append, List.append_nil] at hstay
  dsimp only [splitLoop]
  rw [hchar, if_neg (not_or.mpr ⟨hc, hfull⟩), hstay, hchar, if_neg hc]

theorem splitLoop_redirect (hfull : ¬maxArgs ≤ argv.length) :
    splitLoop maxArgs (fuel + 1) (pre ++ chr '>' :: s) pre.length argv =
      splitLoop maxArgs fuel (pre ++ [chr '>'] ++ s) (pre ++ [chr '>']).length
        (argv ++ [.redirect]) := by
  rw [splitLoop_token hfull (by decide) (by decide), if_pos rfl, List.append_cons,
    List.length_append, List.length_singleton]

theorem splitLoop_word (hfull : ¬maxArgs ≤ argv.length) (hne : w ≠ []) (hw : ∀ c ∈ w, IsWord c)
    (hnul : 0 ∉ w) (ht : ∀ c ∈ t.head?, ¬IsWord c) :
    splitLoop maxArgs (fuel + 1) (pre ++ (w ++ t)) pre.length argv =
      if t.headD 0 = chr '>' then
        splitLoop maxArgs fuel ((pre ++ w ++ t).set (pre ++ w).length 0) (pre ++ w).length
          (argv ++ [.word pre.length])
      else if t.headD 0 = 0 then
        splitLoop maxArgs fuel (pre ++ w ++ t) (pre ++ w).length (argv ++ [.word pre.length])
      else
        splitLoop maxArgs fuel ((pre ++ w ++ t).set (pre ++ w).length 0) ((pre ++ w).length + 1)
          (argv ++ [.word pre.length]) := by
  have hend := @wordEnd_append t w pre hw hnul ht
  obtain ⟨c, w, rfl⟩ := List.exists_cons_of_ne_nil hne
  have hc := hw c List.mem_cons_self
  have hc0 : c ≠ 0 := fun h => hnul (h ▸ List.mem_cons_self)
  rw [List.cons_append] at hend ⊢
  rw [splitLoop_token hfull hc0 hc.1, if_neg hc.2]
  dsimp only
  rw [hend, ← List.cons_append, ← List.append_assoc, charAt_append]

theorem blanks_split (rest : CStr) : ∃ blanks r, rest = blanks ++ r ∧
    (∀ c ∈ blanks, c = chr ' ') ∧ ∀ c ∈ r.head?, c ≠ chr ' ' := by
  refine ⟨rest.takeWhile fun c => c = chr ' ', rest.dropWhile fun c => c = chr ' ',
    List.takeWhile_append_dropWhile.symm, ?_, ?_⟩
  · exact fun c hc => of_mem_takeWhile (P := fun c => c = chr ' ') hc
  · exact fun c hc => not_of_head_dropWhile (P := fun c => c = chr ' ') hc

theorem tokens_cut_blanks {blanks : CStr} (hblanks : ∀ c ∈ blanks, c = chr ' ') :
    tokens (cut (blanks ++ s)) = tokens (cut s) := by
  induction blanks with
  | nil => rfl
  | cons c blanks ih =>
      rw [hblanks c List.mem_cons_self, List.cons_append, cut_space, tokens_space]
      exact ih fun d hd => hblanks d (List.mem_cons_of_mem c hd)

theorem take_next {n : Nat} {a : CStr} {l : List CStr} (h : done.length < n) :
    done ++ (a :: l).take (n - done.length) =
      (done ++ [a]) ++ l.take (n - (done ++ [a]).length) := by
  obtain ⟨k, hk⟩ : ∃ k, n - done.length = k + 1 := ⟨n - done.length - 1, by omega⟩
  have hnext : n - (done ++ [a]).length = k := by
    rw [List.length_append, List.length_singleton]
    omega
  rw [hk, hnext, List.take_succ_cons, List.append_assoc, List.singleton_append]

def Finds (maxArgs : Int) (fuel : Nat) (line : Bytes) (p : Nat) (argv : List ShellArg)
    (words : List CStr) : Prop :=
  ∃ argv' line', splitLoop maxArgs fuel line p argv = some (argv', line') ∧
    argv'.map (argText line') = words

theorem finds_last (hfuel : 0 < fuel) (hpre : Collected pre argv done)
    (hroom : done.length < maxArgs.toNat) (hnul : 0 ∉ w) (hstop : ∀ c ∈ rest.head?, c = 0) :
    Finds maxArgs fuel (pre ++ w ++ rest) (pre ++ w).length (argv ++ [.word pre.length])
      (done ++ [w].take (maxArgs.toNat - done.length)) := by
  have hword : (argv ++ [ShellArg.word pre.length]).map (argText (pre ++ w ++ rest)) =
      done ++ [w] := by
    rw [List.append_assoc, List.map_append, hpre, List.map_singleton, argText_word hnul hstop]
  obtain ⟨fuel, rfl⟩ : ∃ k, fuel = k + 1 := ⟨fuel - 1, by omega⟩
  refine ⟨_, _, splitLoop_stop hstop, ?_⟩
  rw [hword, take_next hroom, List.take_nil, List.append_nil]

/-- A turn with a word, where behind a space the rest of the loop is given. -/
theorem finds_word (hfull : ¬maxArgs ≤ argv.length) (hroom : done.length < maxArgs.toNat)
    (hfuel : 0 < fuel) (hne : w ≠ []) (hw : ∀ c ∈ w, IsWord c) (hnul : 0 ∉ w ++ t)
    (ht : ∀ c ∈ t.head?, ¬IsWord c) (hpre : Collected pre argv done)
    (hrest : ∀ s, t = chr ' ' :: s →
      Finds maxArgs fuel (pre ++ w ++ [0] ++ s) (pre ++ w ++ [0]).length
        (argv ++ [.word pre.length])
        (done ++ [w] ++ (tokens (cut s)).take (maxArgs.toNat - (done ++ [w]).length))) :
    Finds maxArgs (fuel + 1) (pre ++ (w ++ t)) pre.length argv
      (done ++ (tokens (cut (w ++ t))).take (maxArgs.toNat - done.length)) := by
  have hnulw : 0 ∉ w := fun h => hnul (List.mem_append_left t h)
  have hnult : 0 ∉ t := fun h => hnul (List.mem_append_right w h)
  unfold Finds
  rw [splitLoop_word hfull hne hw hnulw ht]
  cases t with
  | nil =>
      have hzero : ([] : CStr).headD 0 = 0 := rfl
      rw [if_neg (by decide), if_pos hzero, cut_word hw (by simp), tokens_word hne hw (by simp [cut]),
        cut, tokens_nil]
      exact finds_last hfuel hpre hroom hnulw nofun
  | cons d t =>
      rw [List.headD_cons, set_append_cons]
      by_cases hd : d = chr '>'
      · have htokens := tokens_word (t := []) hne hw (by simp)
        rw [List.append_nil, tokens_nil] at htokens
        rw [if_pos hd, hd, cut_word_redirect hne hw, htokens]
        exact finds_last hfuel hpre hroom hnulw (by simp)
      · have hspace : d = chr ' ' := by
          by_contra hns
          exact ht d rfl ⟨hns, hd⟩
        have hd0 : d ≠ 0 := fun h => hnult (h ▸ List.mem_cons_self)
        have hend : ∀ c ∈ (cut (d :: t)).head?, ¬IsWord c := by
          rw [hspace, cut_space]
          simpa using isWord_space
        have hsep : ∀ c ∈ (d :: t).head?, c = chr ' ' := by
          simpa using hspace
        have hpos : (pre ++ w).length + 1 = (pre ++ w ++ [0]).length := by
          simp only [List.length_append, List.length_singleton]
        rw [if_neg hd, if_neg hd0, cut_word hw hsep, tokens_word hne hw hend, List.append_cons _ 0 t,
          hpos, take_next hroom, hspace, cut_space, tokens_space]
        exact hrest t (by rw [hspace])

/-- The loop adds the tokens before the cut, as far as there is room. -/
theorem splitLoop_tokens (pre : Bytes) (done : List CStr) (hlen : rest.length < fuel)
    (hnul : 0 ∉ rest) (hdone : Collected pre argv done) :
    Finds maxArgs fuel (pre ++ rest) pre.length argv
      (done ++ (tokens (cut rest)).take (maxArgs.toNat - done.length)) := by
  have hcount (pre : Bytes) (argv : List ShellArg) (done : List CStr)
      (h : Collected pre argv done) : done.length = argv.length := by
    rw [← h [], List.length_map]
  induction fuel generalizing pre rest argv done with
  | zero => omega
  | succ fuel ih =>
      have hdoneLen := hcount pre argv done hdone
      by_cases hfull : maxArgs ≤ argv.length
      · refine ⟨argv, _, splitLoop_full hfull, ?_⟩
        rw [hdone rest, Nat.sub_eq_zero_of_le (by omega), List.take_zero, List.append_nil]
      have hroom : done.length < maxArgs.toNat := by omega
      obtain ⟨blanks, r, rfl, hblanks, hr⟩ := blanks_split rest
      have hpre := collected_append hdone blanks
      rw [List.length_append] at hlen
      rw [List.mem_append, not_or] at hnul
      unfold Finds
      rw [tokens_cut_blanks hblanks, splitLoop_blanks hblanks hr]
      generalize pre ++ blanks = pre at hpre ⊢
      cases r with
      | nil =>
          refine ⟨argv, _, splitLoop_stop nofun, ?_⟩
          rw [hpre [], cut, tokens_nil, List.take_nil, List.append_nil]
      | cons c s =>
          rw [List.length_cons] at hlen
          by_cases hredirect : c = chr '>'
          · have hs : 0 ∉ s := fun h => hnul.2 (List.mem_cons_of_mem c h)
            rw [hredirect, cut_redirect, tokens_redirect, splitLoop_redirect hfull, take_next hroom]
            exact ih _ _ (by omega) hs (collected_redirect (collected_append hpre _))
          · obtain ⟨w, t, hsplit, hne, hw, ht, hlt⟩ := word_split (s := s) ⟨hr c rfl, hredirect⟩
            rw [hsplit] at hnul ⊢
            apply finds_word hfull hroom (by omega) hne hw hnul.2 ht hpre
            rintro s' rfl
            have hnulw : 0 ∉ w := fun h => hnul.2 (List.mem_append_left _ h)
            have hnuls : 0 ∉ s' := fun h =>
              hnul.2 (List.mem_append_right w (List.mem_cons_of_mem _ h))
            rw [List.length_cons, List.length_cons] at hlt
            exact ih _ _ (by omega) hnuls (collected_word hpre hnulw)

/-! ## All tokens or not -/

/-- `argv` at the return holds the first `max_args` tokens. -/
def SplitsAll (line : CStr) (maxArgs : Int) : Prop :=
  ∃ argv buf, shellSplitArgs line maxArgs = some (argv, buf) ∧
    argv.map (argText buf) = (tokens line).take maxArgs.toNat

theorem shellSplitArgs_tokens (maxArgs : Int) {line : CStr} (hnul : 0 ∉ line) : ∃ argv buf,
    shellSplitArgs line maxArgs = some (argv, buf) ∧
      argv.map (argText buf) = (tokens (cut line)).take maxArgs.toNat :=
  splitLoop_tokens [] [] (Nat.lt_succ_self _) hnul fun _ => rfl

theorem splitsAll_iff_take {line : CStr} (hnul : 0 ∉ line) : SplitsAll line maxArgs ↔
    (tokens (cut line)).take maxArgs.toNat = (tokens line).take maxArgs.toNat := by
  obtain ⟨argv, buf, hrun, htext⟩ := shellSplitArgs_tokens maxArgs hnul
  constructor
  · rintro ⟨argv', buf', hrun', htext'⟩
    obtain ⟨rfl, rfl⟩ := Prod.mk.inj (Option.some.inj (hrun.symm.trans hrun'))
    exact htext.symm.trans htext'
  · exact fun h => ⟨argv, buf, hrun, htext.trans h⟩

/-- What a `>` behind a word cuts off has to be more than `argv` takes. -/
theorem filled_of_splitsAll {line front back : CStr} (hnul : 0 ∉ line)
    (h : SplitsAll line maxArgs) (hline : line = front ++ c :: chr '>' :: back) (hc : IsWord c) :
    maxArgs.toNat ≤ (tokens (front ++ [c])).length := by
  obtain ⟨⟨mid, hmid⟩, hle⟩ := cut_le hline hc
  have htokens : tokens line = tokens (cut line) ++ cstr ">" :: tokens mid := by
    conv_lhs => rw [hmid, tokens_append_redirect]
  have hcount := congrArg List.length ((splitsAll_iff_take hnul).mp h)
  rw [htokens, List.length_take, List.length_take, List.length_append, List.length_cons] at hcount
  have hcut : maxArgs.toNat ≤ (tokens (cut line)).length := by omega
  -- the cut is in front of the first of them
  have hfront : front ++ [c] = (cut line ++ chr '>' :: mid).take (front.length + 1) := by
    have hlen : front.length + 1 = (front ++ [c]).length := by
      rw [List.length_append, List.length_singleton]
    rw [← hmid, hline, List.append_cons front c (chr '>' :: back), hlen, List.take_left]
  apply hcut.trans
  rw [hfront, List.take_append, List.take_of_length_le hle]
  cases front.length + 1 - (cut line).length with
  | zero => simp
  | succ k =>
      rw [List.take_succ_cons, tokens_append_redirect, List.length_append]
      exact Nat.le_add_right _ _

/-- All are found exactly if the tokens in front of each `>` that stands right behind a word
already fill `argv`. -/
theorem splitsAll_iff {line : CStr} (hnul : 0 ∉ line) : SplitsAll line maxArgs ↔
    ∀ front c back, line = front ++ c :: chr '>' :: back → IsWord c →
      maxArgs.toNat ≤ (tokens (front ++ [c])).length := by
  constructor
  · exact fun h front c back => filled_of_splitsAll hnul h
  · intro h
    rw [splitsAll_iff_take hnul]
    rcases cut_cases (s := line) with hall | ⟨front, c, back, hline, hc, hcut⟩
    · rw [hall]
    · have hroom := h front c back hline hc
      rw [← hcut] at hroom
      have hline' : line = cut line ++ chr '>' :: back := by
        rw [hcut, List.append_assoc]
        exact hline
      conv_rhs => rw [hline', tokens_append_redirect]
      rw [List.take_append_of_le_length hroom]

theorem splitsAll_demo : SplitsAll (cstr "echo hi >file") 16 := by
  apply (splitsAll_iff (by decide)).mpr
  intro front c back hline hc
  obtain ⟨mid, hmid⟩ := (cut_le hline hc).1
  have hcut : cut (cstr "echo hi >file") = cstr "echo hi >file" := by decide
  rw [hcut] at hmid
  exact absurd (List.self_eq_append_right.mp hmid) (List.cons_ne_nil _ _)

/-- `>file` is lost. -/
theorem not_splitsAll_redirect : ¬SplitsAll (cstr "echo hi>file") 16 := by
  intro h
  have hline : cstr "echo hi>file" = cstr "echo h" ++ chr 'i' :: chr '>' :: cstr "file" := by decide
  have hfilled := filled_of_splitsAll (by decide) h hline (by decide)
  have hle := length_tokens_le (s := cstr "echo h" ++ [chr 'i'])
  have hlen : (cstr "echo h" ++ [chr 'i']).length = 7 := by decide
  rw [hlen] at hle
  exact absurd (hfilled.trans hle) (by decide)

end SlopOS.Proofs.Tokens
