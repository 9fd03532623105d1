import SlopOS.Proofs.ShellLines
import SlopOS.Proofs.Tokens
import SlopOS.Proofs.Creation
/-!
# `echo`

The words of an `echo` line are joined by single blanks in a buffer of 128 bytes.  Where a `>` of
its own follows them, the text goes to the file that the next word names, and can be read there.
-/

namespace SlopOS.Proofs.EchoLines

open SlopOS.Support SlopOS.Kernel
open SlopOS.Proofs.FilePaths SlopOS.Proofs.TreeRuns SlopOS.Proofs.Creation SlopOS.Proofs.Tokens
open SlopOS.Proofs.WorkingDirs SlopOS.Proofs.ShellRuns SlopOS.Proofs.ShellLines
open SlopOS.Proofs.ReachableStates

variable {out part line path : CStr} {parts words rest argv : List CStr} {b : Boot}
variable {s s' s₀ : ShellLoop} {es : List LoopEvent} {t : Terminal} {c : U8}

/-! ## The buffer -/

def clip (text : CStr) : CStr := text.take (shellEchoMax - 1)

theorem length_clip_le (text : CStr) : (clip text).length ≤ shellEchoMax - 1 := by
  unfold clip
  rw [List.length_take]
  exact Nat.min_le_left _ _

theorem clip_of_le (h : out.length ≤ shellEchoMax - 1) : clip out = out := List.take_of_length_le h

theorem clip_append (text more : CStr) : clip (clip text ++ more) = clip (text ++ more) := by
  unfold clip
  rw [List.take_append, List.take_append, List.take_take, Nat.min_self, List.length_take]
  congr 2
  omega

theorem clip_full (h : out.length ≤ shellEchoMax - 1) (hfull : shellEchoMax ≤ out.length + 1)
    (more : CStr) : clip (out ++ more) = out := by
  have hlen : out.length = shellEchoMax - 1 := by
    have hmax : shellEchoMax = 128 := rfl
    omega
  unfold clip
  rw [← hlen, List.take_left]

theorem echoPart_eq (h : out.length ≤ shellEchoMax - 1) : echoPart out part = clip (out ++ part) := by
  induction part generalizing out with
  | nil => rw [echoPart, List.append_nil, clip_of_le h]
  | cons c part ih =>
      rw [echoPart]
      split
      · rename_i hfull
        exact (clip_full h hfull _).symm
      · rename_i hroom
        rw [ih (by rw [List.length_append, List.length_singleton]; omega), List.append_assoc]
        rfl

def spaced (parts : List CStr) : CStr := parts.flatMap (chr ' ' :: ·)

theorem echoText_ne_nil (h : out.length ≤ shellEchoMax - 1) (hne : out ≠ []) :
    echoText out parts = clip (out ++ spaced parts) := by
  induction parts generalizing out with
  | nil =>
      rw [echoText, spaced, List.flatMap_nil, List.append_nil, clip_of_le h]
  | cons part parts ih =>
      rw [echoText, if_pos hne]
      split
      · rename_i hfull
        exact (clip_full h hfull _).symm
      · rename_i hroom
        have hblank : (out ++ [chr ' ']).length ≤ shellEchoMax - 1 := by
          rw [List.length_append, List.length_singleton]
          omega
        rw [echoPart_eq hblank, ih (length_clip_le _), clip_append, spaced, spaced,
          List.flatMap_cons]
        · simp only [List.append_assoc, List.cons_append, List.nil_append]
        · obtain ⟨d, out, rfl⟩ := List.exists_cons_of_ne_nil hne
          exact List.cons_ne_nil _ _

theorem join_cons (part : CStr) (parts : List CStr) :
    List.intercalate [chr ' '] (part :: parts) = part ++ spaced parts := by
  induction parts generalizing part with
  | nil => simp [List.intercalate, spaced]
  | cons next parts ih =>
      have hcons : List.intercalate [chr ' '] (part :: next :: parts) =
          part ++ (chr ' ' :: List.intercalate [chr ' '] (next :: parts)) := by
        simp [List.intercalate, List.intersperse]
      rw [hcons, ih]
      rfl

/-- The words are joined by single blanks, as far as the buffer goes. -/
theorem echoText_eq (hne : ∀ part ∈ parts, part ≠ []) :
    echoText [] parts = clip (List.intercalate [chr ' '] parts) := by
  cases parts with
  | nil => rfl
  | cons part parts =>
      have hpart := hne part List.mem_cons_self
      rw [echoText, if_neg (not_not.mpr rfl), echoPart_eq (Nat.zero_le _), List.nil_append,
        echoText_ne_nil (length_clip_le _), clip_append, join_cons]
      obtain ⟨c, part, rfl⟩ := List.exists_cons_of_ne_nil hpart
      exact List.cons_ne_nil _ _

/-! ## The words of a line -/

theorem ne_nil_of_mem_tokens {line w : CStr} (h : w ∈ tokens line) : w ≠ [] := by
  induction line using tokens.induct with
  | case1 =>
      rw [tokens_nil] at h
      cases h
  | case2 s ih =>
      rw [tokens_space] at h
      exact ih h
  | case3 s _ ih =>
      rw [tokens_redirect] at h
      rcases List.mem_cons.mp h with rfl | h
      · exact List.cons_ne_nil _ _
      · exact ih h
  | case4 c s hspace hredirect ih =>
      rw [tokens, if_neg hspace, if_neg hredirect] at h
      rcases List.mem_cons.mp h with rfl | h
      · exact List.cons_ne_nil _ _
      · exact ih h

theorem shellArgs_eq (hnul : 0 ∉ line) : shellArgs line = some ((tokens (cut line)).take 16) := by
  obtain ⟨argv, buf, hsplit, htext⟩ := shellSplitArgs_tokens shellArgMax hnul
  unfold shellArgs
  rw [hsplit]
  exact congrArg some htext

theorem takeWhile_words (rest : List CStr) (hwords : cstr ">" ∉ words) :
    (words ++ cstr ">" :: rest).takeWhile (fun arg => !strEq arg (cstr ">")) = words ∧
      (words ++ cstr ">" :: rest).dropWhile (fun arg => !strEq arg (cstr ">")) =
        cstr ">" :: rest := by
  have hpos : ∀ arg ∈ words, (!strEq arg (cstr ">")) = true := by
    intro arg harg
    have hne : arg ≠ cstr ">" := by
      rintro rfl
      exact hwords harg
    unfold strEq
    rw [decide_eq_false hne]
    rfl
  have hneg : (!strEq (cstr ">") (cstr ">")) = false := by decide
  constructor
  · rw [List.takeWhile_append_of_pos hpos, List.takeWhile_cons, hneg]
    exact List.append_nil _
  · rw [List.dropWhile_append_of_pos hpos, List.dropWhile_cons, hneg]
    rfl

theorem handleEcho_redirect {name : CStr} (hnul : 0 ∉ line)
    (hargs : (tokens (cut line)).take 16 = name :: (words ++ cstr ">" :: path :: rest))
    (hwords : cstr ">" ∉ words) (hne : words ≠ []) :
    shellHandleEcho line =
      some (.vfsWriteFile path (clip (List.intercalate [chr ' '] words))) := by
  obtain ⟨htake, hdrop⟩ := takeWhile_words (path :: rest) hwords
  have hparts : ∀ part ∈ words, part ≠ [] := by
    intro part hpart
    refine ne_nil_of_mem_tokens (List.mem_of_mem_take (i := 16) ?_ : part ∈ tokens (cut line))
    rw [hargs]
    exact List.mem_cons_of_mem _ (List.mem_append_left _ hpart)
  have hlong : ¬(name :: (words ++ cstr ">" :: path :: rest)).length < 2 := by
    simp only [List.length_cons, List.length_append]
    omega
  unfold shellHandleEcho
  rw [shellArgs_eq hnul, hargs, Option.map_some]
  dsimp only
  rw [if_neg hlong, List.tail_cons, hdrop, htake]
  dsimp only
  rw [if_neg hne, echoText_eq hparts]

theorem startswith_append {s pre : CStr} (h : strStartswith s pre = true) :
    ∃ rest, s = pre ++ rest := by
  induction pre generalizing s with
  | nil => exact ⟨s, rfl⟩
  | cons c pre ih =>
      cases s with
      | nil => cases h
      | cons d s =>
          rw [strStartswith, Bool.and_eq_true, decide_eq_true_eq] at h
          obtain ⟨rest, rfl⟩ := ih h.2
          exact ⟨rest, by rw [h.1, List.cons_append]⟩

theorem strEq_false {s w : CStr} (h : s.head? ≠ w.head?) : ¬strEq s w = true := by
  unfold strEq
  rw [decide_eq_true_eq]
  exact fun heq => h (congrArg List.head? heq)

theorem startswith_false {s pre : CStr} (hpre : pre ≠ []) (h : s.head? ≠ pre.head?) :
    ¬strStartswith s pre = true := by
  intro hstart
  obtain ⟨rest, rfl⟩ := startswith_append hstart
  obtain ⟨c, pre, rfl⟩ := List.exists_cons_of_ne_nil hpre
  exact h rfl

theorem executeLine_echo (h : strStartswith (skipSpaces line) (cstr "echo ") = true) :
    shellExecuteLine line = shellHandleEcho (skipSpaces line) := by
  obtain ⟨rest, hrest⟩ := startswith_append h
  have hne : skipSpaces line ≠ [] := by
    rw [hrest]
    exact List.cons_ne_nil _ _
  have hhead : (skipSpaces line).head? = some (chr 'e') := by
    rw [hrest]
    rfl
  have heq : ∀ w : CStr, w.head? ≠ some (chr 'e') → ¬strEq (skipSpaces line) w = true :=
    fun w hw => strEq_false (by rw [hhead]; exact hw.symm)
  have hstart : ∀ pre : CStr, pre ≠ [] → pre.head? ≠ some (chr 'e') →
      ¬strStartswith (skipSpaces line) pre = true :=
    fun pre hpre hw => startswith_false hpre (by rw [hhead]; exact hw.symm)
  unfold shellExecuteLine
  dsimp only
  rw [if_neg hne, if_neg (heq _ (by decide)), if_neg (heq _ (by decide)),
    if_neg (heq _ (by decide)), if_neg (hstart _ (by decide) (by decide)),
    if_neg (heq _ (by decide)), if_neg (hstart _ (by decide) (by decide)),
    if_neg (hstart _ (by decide) (by decide)), if_neg (hstart _ (by decide) (by decide)),
    if_neg (hstart _ (by decide) (by decide)), if_neg (heq _ (by decide)),
    if_neg (heq _ (by decide)), if_neg (heq _ (by decide)), if_pos (Or.inr h)]

/-! ## In the loop -/

theorem loopStep_enter {call : ShellCall} {text : CStr} {ctx : ShellContext} {sys : Sys}
    (hctl : s.sys.ctl = .shell) (hpoll : s.point.polls = some t)
    (hline : shellExecuteLine (s.shells t).input = some call)
    (hperform : call.perform b s.sys.kernel (s.shells t) = some (text, ctx, sys)) :
    loopStep b s (.poll (some (chr '\n'))) =
      some (afterCall { s with point := s.point.next true } t text ctx sys) := by
  rw [loopStep, hctl, hpoll]
  change ShellLoop.runLine b { s with point := s.point.next true } t = _
  unfold ShellLoop.runLine
  rw [hline]
  dsimp only
  rw [hperform]
  rfl

theorem map_getD_range (text : CStr) :
    (List.range text.length).map (fun i => text.getD i 0) = text := by
  apply List.ext_getElem
  · rw [List.length_map, List.length_range]
  · intro i _ h
    rw [List.getElem_map, List.getElem_range, List.getD_eq_getElem?_getD, List.getElem?_eq_getElem h,
      Option.getD_some]

/-- A command that has come back has printed its text and the next prompt. -/
theorem afterCall_shell {text : CStr} {ctx : ShellContext} {sys : Sys} (hctl : sys.ctl = .shell) :
    (afterCall s t text ctx sys).sys = sys ∧
      (afterCall s t text ctx sys).printed t =
        s.printed t ++ (cstr "\n" ++ text) ++ shellPrompt sys.kernel.files.fs.tree ctx.cwd := by
  unfold afterCall
  dsimp only
  rw [if_pos hctl]
  refine ⟨rfl, ?_⟩
  unfold ShellLoop.endLine
  rw [print_self, setShell_printed, print_self, setShell_printed, print_shells, setShell_self]
  rfl

/-- Enter on `echo WORDS > PATH`: the words, joined by blanks, can be read from the path, or the
shell says that the write has failed. -/
theorem echo_saves (hinit : shellLoop b = some s₀) (hrun : Runs.run (loopStep b) s₀ es = some s)
    (hctl : s.sys.ctl = .shell) (hpoll : s.point.polls = some t)
    (hecho : strStartswith (skipSpaces (s.shells t).input) (cstr "echo ") = true)
    (hargs : tokens (cut (skipSpaces (s.shells t).input)) =
      cstr "echo" :: (words ++ cstr ">" :: path :: rest))
    (hwords : cstr ">" ∉ words) (hne : words ≠ []) (hcount : words.length ≤ 13)
    (hdot : ¬Dot path) :
    ∃ s', loopStep b s (.poll (some (chr '\n'))) = some s' ∧ s'.sys.ctl = .shell ∧
      ((s'.printed t = s.printed t ++ cstr "\n" ++
          shellPrompt s'.sys.kernel.files.fs.tree (s.shells t).cwd ∧
        vfsReadFile b.mach s'.sys.kernel.files.fs (s.shells t).cwd path =
          some (some (some (clip (List.intercalate [chr ' '] words)),
            BitVec.ofNat 32 (clip (List.intercalate [chr ' '] words)).length),
              s'.sys.kernel.files.fs)) ∨
        s'.printed t = s.printed t ++ cstr "\necho: write failed\n" ++
          shellPrompt s'.sys.kernel.files.fs.tree (s.shells t).cwd) := by
  have hok := loopOk_run hinit hrun
  have hcwd := hok.shells.cwds t
  have hnul : 0 ∉ skipSpaces (s.shells t).input := by
    intro h
    have hplain := (lineOk_run hinit hrun hctl t).plain 0 ((List.dropWhile_sublist _).subset h)
    exact absurd hplain (by decide)
  have htake : (tokens (cut (skipSpaces (s.shells t).input))).take 16 =
      cstr "echo" :: (words ++ cstr ">" :: path :: rest.take (13 - words.length)) := by
    obtain ⟨n, hn⟩ := Nat.exists_eq_add_of_le hcount
    have htwo : 15 - words.length = n + 2 := by omega
    have hrest : 13 - words.length = n := by omega
    rw [hargs, List.take_succ_cons, List.take_append, List.take_of_length_le (by omega), htwo,
      List.take_succ_cons, List.take_succ_cons, hrest]
  have hline : shellExecuteLine (s.shells t).input =
      some (.vfsWriteFile path (clip (List.intercalate [chr ' '] words))) := by
    rw [executeLine_echo hecho]
    exact handleEcho_redirect hnul htake hwords hne
  generalize htext : clip (List.intercalate [chr ' '] words) = text at hline ⊢
  have hlen : (BitVec.ofNat 32 text.length).toNat = text.length := by
    have hshort : text.length ≤ shellEchoMax - 1 := by
      rw [← htext]
      exact length_clip_le _
    rw [BitVec.toNat_ofNat]
    exact Nat.mod_eq_of_lt (Nat.lt_of_le_of_lt hshort (by decide))
  have hback : WriteReadsBack s.sys.kernel.files.fs (s.shells t).cwd path (text.getD · 0)
      (BitVec.ofNat 32 text.length) :=
    writeReadsBack hok.sound.rooted.tree hcwd.1 fun h => hdot h.dot
  rcases hwrite : vfsWriteFile s.sys.kernel.files.fs (s.shells t).cwd path (text.getD · 0)
      (BitVec.ofNat 32 text.length) with ⟨ok, fs⟩
  have hperform : (ShellCall.vfsWriteFile path text).perform b s.sys.kernel (s.shells t) =
      some (if ok then [] else cstr "echo: write failed\n", s.shells t,
        ⟨s.sys.kernel.setFs fs, .shell⟩) := by
    rw [ShellCall.perform, hwrite]
  obtain ⟨hsys, hprinted⟩ := @afterCall_shell { s with point := s.point.next true } t
    (if ok then [] else cstr "echo: write failed\n") (s.shells t)
    ⟨s.sys.kernel.setFs fs, .shell⟩ rfl
  refine ⟨_, loopStep_enter hctl hpoll hline hperform, by rw [hsys], ?_⟩
  rw [hprinted, hsys]
  cases ok with
  | true =>
      unfold WriteReadsBack at hback
      rw [hwrite] at hback
      have hreads := (hback rfl).reads b.mach
      rw [hlen, map_getD_range] at hreads
      exact Or.inl ⟨rfl, hreads⟩
  | false => exact Or.inr rfl

theorem tokens_of_shellArgs (hnul : 0 ∉ line) (h : shellArgs line = some argv)
    (hroom : argv.length < 16) : tokens (cut line) = argv := by
  rw [shellArgs_eq hnul] at h
  obtain rfl := Option.some.inj h
  rw [List.length_take] at hroom
  exact (List.take_of_length_le (by omega)).symm

def demoEcho : CStr := cstr " echo one  two > /tmp/x"

theorem echo_saves_demo : ∃ s s', demoLoop (demoKeys [] demoEcho ++ [.poll none]) = some s ∧
    loopStep demoBoot s (.poll (some (chr '\n'))) = some s' ∧ s'.sys.ctl = .shell ∧
      ((s'.printed .serial = s.printed .serial ++ cstr "\n" ++
          shellPrompt s'.sys.kernel.files.fs.tree (s.shells .serial).cwd ∧
        vfsReadFile demoBoot.mach s'.sys.kernel.files.fs (s.shells .serial).cwd (cstr "/tmp/x") =
          some (some (some (clip (List.intercalate [chr ' '] [cstr "one", cstr "two"])),
            BitVec.ofNat 32 (clip (List.intercalate [chr ' '] [cstr "one", cstr "two"])).length),
              s'.sys.kernel.files.fs)) ∨
        s'.printed .serial = s.printed .serial ++ cstr "\necho: write failed\n" ++
          shellPrompt s'.sys.kernel.files.fs.tree (s.shells .serial).cwd) := by
  have hview : (demoLoop (demoKeys [] demoEcho ++ [.poll none])).map (fun s =>
      (s.sys.ctl, s.point.polls, (s.shells .serial).input)) =
      some (.shell, some .serial, demoEcho) := by decide +kernel
  obtain ⟨s, hs, htriple⟩ := Option.map_eq_some_iff.mp hview
  obtain ⟨hctl, hpair⟩ := Prod.mk.inj htriple
  obtain ⟨hpoll, hinput⟩ := Prod.mk.inj hpair
  obtain ⟨s₀, hinit, hrun⟩ := Option.bind_eq_some_iff.mp hs
  have hargs : tokens (cut (skipSpaces demoEcho)) = cstr "echo" ::
      ([cstr "one", cstr "two"] ++ cstr ">" :: cstr "/tmp/x" :: []) :=
    tokens_of_shellArgs (by decide) (by decide) (by decide)
  obtain ⟨s', hs'⟩ := echo_saves hinit hrun hctl hpoll (by rw [hinput]; decide)
    (by rw [hinput]; exact hargs) (by decide) (by decide) (by decide) (by decide)
  exact ⟨s, s', hs, hs'⟩

end SlopOS.Proofs.EchoLines
