import SlopOS.Proofs.ShellRuns
/-!
# The lines of the two shells

A shell keeps its own line.  The line that Enter runs is made of the keys of its own console since
the last Enter there, whatever is typed on the other one and whatever the processes do, and the
text behind the last prompt spells it.
-/

namespace SlopOS.Proofs.ShellLines

open SlopOS.Support SlopOS.Kernel
open SlopOS.Proofs.FileTree SlopOS.Proofs.FileEdits SlopOS.Proofs.WorkingDirs
open SlopOS.Proofs.ShellRuns SlopOS.Proofs.ReachableStates

variable {b : Boot} {sys sys' : Sys} {s s' s₀ : ShellLoop} {e : LoopEvent} {es : List LoopEvent}
variable {t u : Terminal} {c : U8} {line keys text shown : CStr}

/-! ## Editing -/

instance : DecidablePred IsEnter := fun c => inferInstanceAs (Decidable (c = _ ∨ c = _))

instance : DecidablePred IsErase := fun c => inferInstanceAs (Decidable (c = _ ∨ c = _))

instance : DecidablePred IsPlain := fun c => inferInstanceAs (Decidable (_ ≤ c ∧ c ≤ _))

def typeKey (line : CStr) (c : U8) : CStr :=
  if IsEnter c then []
  else if IsErase c then line.dropLast
  else if IsPlain c ∧ line.length < shellInputMax then line ++ [c]
  else line

/-- The line that a sequence of keys leaves. -/
def editLine (keys : CStr) : CStr := keys.foldl typeKey []

theorem editLine_append (keys : CStr) (c : U8) :
    editLine (keys ++ [c]) = typeKey (editLine keys) c := by
  rw [editLine, List.foldl_append]
  rfl

theorem typeKey_enter (h : IsEnter c) : typeKey line c = [] := if_pos h

theorem not_enter_of_erase (h : IsErase c) : ¬IsEnter c := by
  rcases h with rfl | rfl <;> decide

theorem not_enter_of_plain (h : IsPlain c) : ¬IsEnter c := by
  rintro (rfl | rfl) <;> revert h <;> decide

theorem typeKey_erase (h : IsErase c) : typeKey line c = line.dropLast := by
  rw [typeKey, if_neg (not_enter_of_erase h), if_pos h]

theorem typeKey_plain (h : IsPlain c) (hroom : line.length < shellInputMax) :
    typeKey line c = line ++ [c] := by
  rw [typeKey, if_neg (not_enter_of_plain h),
    if_neg fun herase => not_plain_of_erase herase h, if_pos ⟨h, hroom⟩]

theorem typeKey_spare (henter : ¬IsEnter c) (herase : IsErase c → line = [])
    (hplain : IsPlain c → shellInputMax ≤ line.length) : typeKey line c = line := by
  rw [typeKey, if_neg henter]
  by_cases h : IsErase c
  · rw [if_pos h, herase h]
    rfl
  · rw [if_neg h, if_neg]
    rintro ⟨hp, hroom⟩
    exact absurd hroom (Nat.not_lt.mpr (hplain hp))

/-- A line fits its buffer, and holds printable characters. -/
structure LineOk (line : CStr) : Prop where
  short : line.length ≤ shellInputMax
  plain : ∀ c ∈ line, IsPlain c

theorem LineOk.typeKey (h : LineOk line) (c : U8) : LineOk (typeKey line c) := by
  unfold ShellLines.typeKey
  split
  · exact ⟨Nat.zero_le _, fun _ hc => absurd hc List.not_mem_nil⟩
  split
  · refine ⟨?_, fun d hd => h.plain d (List.mem_of_mem_dropLast hd)⟩
    rw [List.length_dropLast]
    exact Nat.le_trans (Nat.sub_le _ 1) h.short
  split
  · rename_i hp
    refine ⟨?_, fun d hd => ?_⟩
    · rw [List.length_append]
      exact hp.2
    · rcases List.mem_append.mp hd with hd | hd
      · exact h.plain d hd
      · rw [List.mem_singleton.mp hd]
        exact hp.1
  · exact h

theorem lineOk_editLine (keys : CStr) : LineOk (editLine keys) := by
  induction keys using List.reverseRecOn with
  | nil => exact ⟨Nat.zero_le _, fun _ hc => absurd hc List.not_mem_nil⟩
  | append_singleton keys c ih =>
      rw [editLine_append]
      exact ih.typeKey c

/-! ## Keys -/

/-- A key, with the line that its shell held when it came. -/
structure Press where
  terminal : Terminal
  key : U8
  line : CStr
deriving DecidableEq

def presses (s : ShellLoop) : LoopEvent → List Press
  | .poll (some c) =>
    match s.point.polls with
    | some t => [⟨t, c, (s.shells t).input⟩]
    | none => []
  | _ => []

def keysOf (t : Terminal) (log : List Press) : CStr :=
  (log.filter fun p => p.terminal = t).map Press.key

/-- The line that the next key finds; a line that still runs is emptied before. -/
def held (s : ShellLoop) (t : Terminal) : CStr :=
  if s.line = some t then [] else (s.shells t).input

/-- Every shell holds what its own keys spell, and so did it at every key. -/
structure Typing (s : ShellLoop) (log : List Press) : Prop where
  held : ∀ t, held s t = editLine (keysOf t log)
  lines : ∀ front p back, log = front ++ p :: back → p.line = editLine (keysOf p.terminal front)

theorem keysOf_append (t : Terminal) (log : List Press) (p : Press) :
    keysOf t (log ++ [p]) = if p.terminal = t then keysOf t log ++ [p.key] else keysOf t log := by
  unfold keysOf
  rw [List.filter_append, List.map_append]
  by_cases h : p.terminal = t
  · rw [if_pos h, List.filter_cons_of_pos (by simpa using h)]
    rfl
  · rw [if_neg h, List.filter_cons_of_neg (by simpa using h), List.filter_nil, List.map_nil,
      List.append_nil]

variable {log : List Press}

theorem Typing.nil (h : ∀ t, ShellLines.held s t = []) : Typing s [] where
  held := h
  lines front p back hlog := by
    cases front <;> cases hlog

theorem Typing.same (h : Typing s log) (hheld : ShellLines.held s' = ShellLines.held s) :
    Typing s' log where
  held t := (congrFun hheld t).trans (h.held t)
  lines := h.lines

theorem Typing.press (h : Typing s log) (hline : (s.shells t).input = ShellLines.held s t)
    (hheld : ∀ u, ShellLines.held s' u =
      if u = t then typeKey (ShellLines.held s t) c else ShellLines.held s u) :
    Typing s' (log ++ [⟨t, c, (s.shells t).input⟩]) where
  held u := by
    rw [keysOf_append, hheld]
    by_cases hu : t = u
    · obtain rfl := hu
      rw [if_pos rfl, if_pos rfl, editLine_append, h.held]
    · rw [if_neg hu, if_neg (Ne.symm hu), h.held]
  lines front p back hlog := by
    rcases List.eq_nil_or_concat back with rfl | ⟨back', q, rfl⟩
    · obtain ⟨rfl, hp⟩ := List.append_inj' hlog rfl
      obtain rfl := (List.cons.inj hp).1
      exact hline.trans (h.held t)
    · rw [List.concat_eq_append, ← List.cons_append, ← List.append_assoc] at hlog
      obtain ⟨rfl, -⟩ := List.append_inj' hlog rfl
      exact h.lines front p back' rfl

/-! ## What a step does to the lines -/

@[simp] theorem print_sys (s : ShellLoop) (t : Terminal) (text : CStr) :
    (s.print t text).sys = s.sys := rfl

@[simp] theorem print_shells (s : ShellLoop) (t : Terminal) (text : CStr) :
    (s.print t text).shells = s.shells := rfl

@[simp] theorem print_line (s : ShellLoop) (t : Terminal) (text : CStr) :
    (s.print t text).line = s.line := rfl

@[simp] theorem print_self (s : ShellLoop) (t : Terminal) (text : CStr) :
    (s.print t text).printed t = s.printed t ++ text := Function.update_self _ _ _

@[simp] theorem setShell_sys (s : ShellLoop) (t : Terminal) (ctx : ShellContext) :
    (s.setShell t ctx).sys = s.sys := rfl

@[simp] theorem setShell_line (s : ShellLoop) (t : Terminal) (ctx : ShellContext) :
    (s.setShell t ctx).line = s.line := rfl

@[simp] theorem setShell_printed (s : ShellLoop) (t : Terminal) (ctx : ShellContext) :
    (s.setShell t ctx).printed = s.printed := rfl

@[simp] theorem setShell_self (s : ShellLoop) (t : Terminal) (ctx : ShellContext) :
    (s.setShell t ctx).shells t = ctx := Function.update_self _ _ _

@[simp] theorem setShell_other (s : ShellLoop) (ctx : ShellContext) (h : u ≠ t) :
    (s.setShell t ctx).shells u = s.shells u := Function.update_of_ne h _ _

theorem held_of_none (h : s.line = none) : held s t = (s.shells t).input := by
  rw [held, h, if_neg (Option.some_ne_none t).symm]

theorem held_setShell {ctx : ShellContext} (hline : s.line = none) :
    held ((s.setShell t ctx).print t text) u = if u = t then ctx.input else held s u := by
  have hnone : ((s.setShell t ctx).print t text).line = none := hline
  rw [held_of_none hnone, held_of_none hline]
  by_cases hu : u = t
  · rw [if_pos hu, hu, print_shells, setShell_self]
  · rw [if_neg hu, print_shells, setShell_other _ _ hu]

theorem held_endLine (hline : s.line = none) :
    held (s.endLine t) u = if u = t then [] else held s u := held_setShell hline

theorem held_keyed (hline : s.line = none) (hkey : Keyed b s t c s') (u : Terminal) :
    held s' u = if u = t then typeKey (held s t) c else held s u := by
  cases hkey with
  | @enter call text ctx sys hc hcall hperform =>
      rw [typeKey_enter hc]
      unfold afterCall
      dsimp only
      have hmid : held (({ s with sys := sys }.setShell t ctx).print t (cstr "\n" ++ text)) u =
          if u = t then ctx.input else held s u := held_setShell (s := { s with sys := sys }) hline
      split
      · have hnone : (({ s with sys := sys }.setShell t ctx).print t (cstr "\n" ++ text)).line =
            none := hline
        rw [held_endLine hnone, hmid]
        split <;> rfl
      · by_cases hu : u = t
        · rw [if_pos hu, hu]
          exact if_pos rfl
        · rw [if_neg hu] at hmid ⊢
          have hnone : (({ s with sys := sys }.setShell t ctx).print t (cstr "\n" ++ text)).line =
              none := hline
          rw [← hmid, held, if_neg fun h => hu (Option.some.inj h).symm, held_of_none hnone]
  | erase hc =>
      rw [typeKey_erase hc, held_of_none (t := t) hline]
      exact held_setShell hline
  | plain hc hroom =>
      rw [held_of_none (t := t) hline, typeKey_plain hc hroom]
      exact held_setShell hline
  | spare hc herase hplain =>
      rw [held_of_none (t := t) hline, typeKey_spare hc herase hplain]
      split
      · rename_i hu
        rw [hu, held_of_none hline]
      · rfl

theorem held_follow (s : ShellLoop) (sys : Sys) : held (s.follow sys) = held s := by
  funext u
  unfold ShellLoop.follow
  dsimp only
  split
  · split
    · rfl
    · rename_i t hline
      have hline' : s.line = some t := hline
      by_cases hu : u = t
      · obtain rfl := hu
        rw [held_of_none rfl, held, if_pos hline']
        exact congrArg ShellContext.input (setShell_self _ _ _)
      · rw [held_of_none rfl, held, hline', if_neg fun h => hu (Option.some.inj h).symm]
        exact congrArg ShellContext.input (setShell_other _ _ hu)
  · rfl

theorem typing_step (h : LoopOk b s) (hlog : Typing s log) (hstep : loopStep b s e = some s') :
    Typing s' (log ++ presses s e) := by
  cases loopStep_turned hstep with
  | silent =>
      have hnone : presses s (.poll none) = [] := rfl
      rw [hnone, List.append_nil]
      exact hlog.same rfl
  | @key t c point _ hctl hpoll hkey =>
      have hline := h.idle hctl
      have hheld := held_keyed (s := { s with point := point }) hline hkey
      rw [presses, hpoll]
      exact hlog.press (held_of_none hline).symm hheld
  | rest =>
      have hnone : presses s .rest = [] := rfl
      rw [hnone, List.append_nil]
      exact hlog.same rfl
  | @moved e sys hpoll =>
      have hnone : presses s e = [] := by
        cases e with
        | poll o => exact absurd rfl (hpoll o)
        | _ => rfl
      rw [hnone, List.append_nil]
      exact hlog.same (held_follow s sys)

theorem typing_run (hinit : shellLoop b = some s₀) (hrun : Runs.run (loopStep b) s₀ es = some s) :
    Typing s (Runs.observe (loopStep b) presses s₀ es) := by
  have hstart : Typing s₀ [] := by
    obtain ⟨sys, -, rfl⟩ := Option.map_eq_some_iff.mp hinit
    exact .nil fun _ => rfl
  have hend := Runs.observe_invariant (J := fun s log => LoopOk b s ∧ Typing s log)
    (fun s log e s' _ hs hstep => ⟨hs.1.turned (loopStep_turned hstep), typing_step hs.1 hs.2 hstep⟩)
    (Runs.AllSteps.trivial s₀ es) hrun ⟨loopOk_boot hinit, hstart⟩
  exact hend.2

/-- While the shells wait for a key, their lines are in order. -/
theorem lineOk_run (hinit : shellLoop b = some s₀) (hrun : Runs.run (loopStep b) s₀ es = some s)
    (hctl : s.sys.ctl = .shell) (t : Terminal) : LineOk (s.shells t).input := by
  have hheld := (typing_run hinit hrun).held t
  rw [held_of_none ((loopOk_run hinit hrun).idle hctl)] at hheld
  rw [hheld]
  exact lineOk_editLine _

/-- What a key has found in its line, and what Enter has run, are the keys of its own console. -/
theorem line_typed (hinit : shellLoop b = some s₀) (hrun : Runs.run (loopStep b) s₀ es = some s)
    {front back : List Press} {p : Press}
    (hlog : Runs.observe (loopStep b) presses s₀ es = front ++ p :: back) :
    p.line = editLine (keysOf p.terminal front) ∧ LineOk p.line := by
  have hline := (typing_run hinit hrun).lines front p back hlog
  refine ⟨hline, ?_⟩
  rw [hline]
  exact lineOk_editLine _

def demoPresses : List LoopEvent :=
  [.poll none, .poll (some (chr 'l')), .rest, .poll (some (chr 'x')), .poll (some (chr 'z')), .rest,
    .poll none, .poll (some 8), .rest, .poll none, .poll (some (chr 's')), .rest,
    .poll none, .poll (some (chr '\r'))]

theorem line_typed_demo : ∃ (s₀ s : ShellLoop) (p : Press), shellLoop demoBoot = some s₀ ∧
    Runs.run (loopStep demoBoot) s₀ demoPresses = some s ∧ p.key = chr '\r' ∧
      p.line = editLine [chr 'l', chr 'z', 8, chr 's'] ∧ LineOk p.line := by
  have hview : ((shellLoop demoBoot).map fun s₀ =>
      (Runs.observe (loopStep demoBoot) presses s₀ demoPresses,
        (Runs.run (loopStep demoBoot) s₀ demoPresses).isSome)) =
      some ([⟨.serial, chr 'l', []⟩, ⟨.vga, chr 'x', []⟩, ⟨.serial, chr 'z', cstr "l"⟩,
        ⟨.serial, 8, cstr "lz"⟩, ⟨.serial, chr 's', cstr "l"⟩] ++
          ⟨.serial, chr '\r', cstr "ls"⟩ :: [], true) := by decide +kernel
  obtain ⟨s₀, hinit, hpair⟩ := Option.map_eq_some_iff.mp hview
  obtain ⟨hlog, hsome⟩ := Prod.mk.inj hpair
  obtain ⟨s, hrun⟩ := Option.isSome_iff_exists.mp hsome
  exact ⟨s₀, s, _, hinit, hrun, rfl, line_typed hinit hrun hlog⟩

/-! ## The console -/

/-- Behind the prompt, `shown` spells `line`, and no backspace reaches the prompt. -/
inductive Shows : CStr → CStr → Prop
  | nil : Shows [] []
  | plain {shown line : CStr} {c : U8} (h : Shows shown line) (hc : IsPlain c) :
      Shows (shown ++ [c]) (line ++ [c])
  | erase {shown line : CStr} {c : U8} (h : Shows shown (line ++ [c])) : Shows (shown ++ [8]) line

/-- The last prompt of `t` names the directory that its shell works in, and the line is behind it. -/
def Shown (s : ShellLoop) (t : Terminal) : Prop :=
  ∃ front shown, Shows shown (s.shells t).input ∧
    s.printed t = front ++ shellPrompt s.sys.kernel.files.fs.tree (s.shells t).cwd ++ shown

theorem prompt_grows {new : List CStr → VfsNodeType → Prop} {fill : VfsTree → Nat → Prop}
    {v w : VfsTree} {n : Nat} (hok : TreeOk v) (hn : n < v.count) (h : Edited new fill v w) :
    shellPrompt w n = shellPrompt v n := by
  unfold shellPrompt vfsGetCwdPath
  rw [h.cwdParts hok cwdPartsMax hn]

theorem prompt_follows {n : Nat} (hr : Rooted sys.kernel)
    (hdir : IsDir sys.kernel.files.fs.tree n) (hf : Follows b sys sys') :
    shellPrompt sys'.kernel.files.fs.tree n = shellPrompt sys.kernel.files.fs.tree n := by
  rcases hf with rfl | ⟨e, hcwd, hstep⟩
  · rfl
  · exact prompt_grows hr.tree hdir.1 (step_advances hr hcwd hstep).edits

theorem Shown.follows (h : Shown s t) (hok : LoopOk b s) (hf : Follows b s.sys sys) :
    Shown { s with sys := sys } t := by
  obtain ⟨front, shown, hshown, hfront⟩ := h
  refine ⟨front, shown, hshown, ?_⟩
  rw [prompt_follows hok.sound.rooted (hok.shells.cwds t) hf]
  exact hfront

end SlopOS.Proofs.ShellLines
