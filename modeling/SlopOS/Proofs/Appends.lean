import SlopOS.Proofs.FileSessions
/-!
# Two descriptors that append

Every descriptor appends to its own copy of the contents it found, and the copy
replaces the file when the descriptor is closed.  Of two descriptors the one
that stores last decides.
-/

namespace SlopOS.Proofs.Appends

open SlopOS.Support SlopOS.Kernel
open SlopOS.Proofs.FileTree SlopOS.Proofs.FilePaths SlopOS.Proofs.FileEdits SlopOS.Proofs.TreeRuns
open SlopOS.Proofs.SystemCalls SlopOS.Proofs.FileCalls SlopOS.Proofs.FileCursor
open SlopOS.Proofs.FileWrites SlopOS.Proofs.StatOpen SlopOS.Proofs.FileSessions

variable {mach : Machine} {k k' k₀ k₁ k₂ k₃ k₄ k₅ : KState} {es es₁ es₂ es₃ : List FileEvent}
variable {fd pid fd' pid' : Int} {slot slot' : Fin fdMax} {n : Nat} {full full' kpath : CStr}
variable {path flags : U32} {bs bs' : Bytes} {d d' : Prop} {c : Cursor U8} {log : List Transfer}

/-- The bytes written, one call after the other. -/
def written (log : List Transfer) : Bytes := (log.map Transfer.op).flatMap Cursor.Op.bytes

/-- The calls on a descriptor in the course of a run. -/
def callsOn (mach : Machine) (fd pid : Int) (k : KState) (es : List FileEvent) : List Transfer :=
  Runs.observe (fileStep mach) (transfers mach fd pid) k es

/-! ## One descriptor -/

/-- A descriptor at the end of its copy `bs` of the file `n`; `d` tells whether closing it will
store the copy. -/
structure Appender (k : KState) (fd pid : Int) (slot : Fin fdMax) (full : CStr) (n : Nat)
    (bs : Bytes) (d : Prop) : Prop where
  files : FilesOk k
  text : AbsText full
  leads : vfsResolve k.files.fs.tree full = some n
  writer : ∃ c, WriterAt k fd pid slot full c d ∧ c.elems = bs ∧ c.pos = c.elems.length

theorem session_start (hk : FilesOk k) (h : WriterAt k fd pid slot full c d) :
    Session k fd pid slot full c d [] := by
  have hnone : d ∨ Wrote [] ↔ d := by
    constructor
    · rintro (hd | ⟨x, hx, -⟩)
      · exact hd
      · cases hx
    · exact Or.inl
  refine ⟨hk, ⟨h.fd_eq, h.three, h.used, h.pid_eq, h.path_eq, h.entry, ?_⟩, rfl, nofun⟩
  rw [hnone]
  exact h.dirty

theorem Appender.run (h : Appender k fd pid slot full n bs d)
    (huse : Runs.AllSteps (fileStep mach) (InUse mach fd pid) k es)
    (hrun : Runs.run (fileStep mach) k es = some k') :
    Appender k' fd pid slot full n (bs ++ written (callsOn mach fd pid k es))
      (d ∨ Wrote (callsOn mach fd pid k es)) := by
  obtain ⟨c, hwriter, rfl, hend⟩ := h.writer
  have hsession := session_run (session_start h.files hwriter) huse hrun
  obtain ⟨helems, hpos⟩ := c.run_at_end hend ((callsOn mach fd pid k es).map Transfer.op)
  exact ⟨hsession.files, h.text,
    Edited.resolve (edited_run h.files hrun) h.files.tree h.files.tree.root_lt h.leads,
    _, hsession.writer, helems, hpos⟩

theorem Appender.close (h : Appender k fd pid slot full n bs d)
    (hdone : (ksysClose k fd).done = some (0, k')) :
    Edited (fun _ _ => True) (fun _ _ => True) k.files.fs.tree k'.files.fs.tree ∧ FilesOk k' ∧
      (d → fileBytes k'.files.fs.tree n = bs) ∧
        (¬d → fileBytes k'.files.fs.tree n = fileBytes k.files.fs.tree n) := by
  obtain ⟨c, hwriter, rfl, -⟩ := h.writer
  obtain ⟨hedits, hcwd, hbytes⟩ := writerAt_close h.files hwriter h.text h.leads hdone
  have hn : n < k.files.fs.tree.count :=
    TreeOk.resolve_lt h.files.tree h.files.tree.root_lt h.leads
  refine ⟨hedits.mono (fun _ _ => id) fun _ _ _ => trivial, ⟨hedits.treeOk h.files.tree, ?_⟩,
    hbytes, fun hd => Edited.bytes hedits hn fun _ hdn => hd hdn.1⟩
  rw [hcwd]
  exact Nat.lt_of_lt_of_le h.files.cwd hedits.count_le

theorem Appender.other_close (h : Appender k fd pid slot full n bs d) (hne : fd' ≠ fd)
    (h' : Appender k fd' pid' slot' full' n bs' d') (hdone : (ksysClose k fd').done = some (0, k')) :
    Appender k' fd pid slot full n bs d := by
  obtain ⟨hedits, hfiles, -⟩ := h'.close hdone
  obtain ⟨c, hwriter, helems, hpos⟩ := h.writer
  refine ⟨hfiles, h.text, Edited.resolve hedits h.files.tree h.files.tree.root_lt h.leads,
    c, hwriter.congr ?_, helems, hpos⟩
  obtain ⟨c', hwriter', -⟩ := h'.writer
  have hfd : toInt (toU32 fd') = fd' := by
    obtain rfl := hwriter'.fd_eq
    have hlt : slot'.val < 16 := slot'.isLt
    exact toInt_toU32 (by omega) (by omega)
  rw [← hfd] at hdone
  refine (ksysClose_effect h.files.tree h.files.cwd hdone).fds slot (not_uses hwriter ?_)
  rintro ⟨-, hsame, -⟩
  rw [hfd] at hsame
  exact hne hsame

/-! ## Opened to append -/

/-- The call opens the file at `full` with `O_APPEND` and for writing. -/
structure OpensToAppend (mach : Machine) (k : KState) (path flags : U32) (full : CStr) (fd : Int)
    (k' : KState) : Prop where
  reached : Reached mach k
  text : ∃ kpath, (copyUserCstr k.core path 128).1 = some kpath ∧
    makeAbsPath k.files.fs.tree k.cwd kpath 128 = some full
  inTree : vfsMountSubpath full = none
  wantsWrite : WantsWrite flags
  append : flags &&& oAppend ≠ 0
  done : (ksysOpen mach k path flags).done = some (fd, k')
  nonneg : 0 ≤ fd

/-- Process `pid` has opened file `n` to append and has since written: `bs` is what it found, or
nothing with `O_TRUNC`, with the bytes written behind; `d` tells whether closing will store. -/
def AppendsTo (mach : Machine) (k : KState) (fd pid : Int) (n : Nat) (bs : Bytes) (d : Prop) :
    Prop :=
  ∃ k₀ path flags full k₁ es, OpensToAppend mach k₀ path flags full fd k₁ ∧ k₀.pid = pid ∧
    Runs.run (fileStep mach) k₁ es = some k ∧
    Runs.AllSteps (fileStep mach) (InUse mach fd pid) k₁ es ∧
    vfsResolve k.files.fs.tree full = some n ∧
    bs = (if flags &&& oTrunc ≠ 0 then [] else oldBytes k₀.files.fs.tree full) ++
      written (callsOn mach fd pid k₁ es) ∧
    (d ↔ flags &&& oTrunc ≠ 0 ∨ Wrote (callsOn mach fd pid k₁ es))

theorem startCursor_at_end (bs : Bytes) (h : flags &&& oAppend ≠ 0) :
    (startCursor bs flags).pos = (startCursor bs flags).elems.length := by
  rw [pos_startCursor, elems_startCursor, if_pos h]
  split <;> rfl

theorem appender_of_appendsTo (h : AppendsTo mach k fd pid n bs d) :
    ∃ slot full, Appender k fd pid slot full n bs d := by
  obtain ⟨k₀, path, flags, full, k₁, es, ho, rfl, hrun, huse, hres, hbs, hd⟩ := h
  obtain ⟨kpath, hcopy, hfull⟩ := ho.text
  obtain ⟨slot, m, hleads, -, -, -, hsession⟩ := session_open (filesOk_reached ho.reached) hcopy hfull
    ho.inTree ho.wantsWrite ho.done ho.nonneg
  have hlen : kpath.length < 128 := by
    have hle := copyUserCstr_length hcopy
    have hmax : vfsPathMax = 128 := rfl
    omega
  have hstart : Appender k₁ fd k₀.pid slot full m
      (startCursor (oldBytes k₀.files.fs.tree full) flags).elems
      (flags &&& oTrunc ≠ 0 ∨ Wrote []) :=
    ⟨hsession.files, makeAbsPath_text hlen hfull, hleads, _, hsession.writer, rfl,
      startCursor_at_end _ ho.append⟩
  have hend := hstart.run huse hrun
  obtain rfl : m = n := Option.some.inj (hend.leads.symm.trans hres)
  have hnone : flags &&& oTrunc ≠ 0 ∨ Wrote [] ↔ flags &&& oTrunc ≠ 0 := by
    constructor
    · rintro (htrunc | ⟨x, hx, -⟩)
      · exact htrunc
      · cases hx
    · exact Or.inl
  rw [hnone, ← hd, elems_startCursor, ← hbs] at hend
  exact ⟨slot, full, hend⟩

/-! ## Two descriptors -/

/-- What the file holds once both descriptors are closed: the copy of the one closed last, if
something was written through it; if not, that of the other one, if something was written through
that; and else what it held before. -/
structure LastStores (bs₀ bs₁ bs₂ bs : Bytes) (d₁ d₂ : Prop) : Prop where
  last : d₂ → bs = bs₂
  first : ¬d₂ → d₁ → bs = bs₁
  neither : ¬d₂ → ¬d₁ → bs = bs₀

/-- Two descriptors that append to one file are written through and closed, in whatever order their
calls come and whatever else goes on, if nothing else stores to the file. -/
theorem appends_end {mach : Machine} {k k₁ k₂ k₃ k₄ k₅ : KState} {es₁ es₂ es₃ : List FileEvent}
    {fd₁ pid₁ fd₂ pid₂ : Int} {n : Nat} {bs₁ bs₂ : Bytes} {d₁ d₂ : Prop}
    (hfirst : AppendsTo mach k fd₁ pid₁ n bs₁ d₁) (hlast : AppendsTo mach k fd₂ pid₂ n bs₂ d₂)
    (hne : fd₁ ≠ fd₂)
    (hrun₁ : Runs.run (fileStep mach) k es₁ = some k₁)
    (huse₁ : Runs.AllSteps (fileStep mach) (fun k e => InUse mach fd₁ pid₁ k e ∧
      InUse mach fd₂ pid₂ k e ∧ ¬Writes n k e) k es₁)
    (hclose₁ : (ksysClose k₁ fd₁).done = some (0, k₂))
    (hrun₂ : Runs.run (fileStep mach) k₂ es₂ = some k₃)
    (huse₂ : Runs.AllSteps (fileStep mach) (fun k e => InUse mach fd₂ pid₂ k e ∧ ¬Writes n k e)
      k₂ es₂)
    (hclose₂ : (ksysClose k₃ fd₂).done = some (0, k₄))
    (hrun₃ : Runs.run (fileStep mach) k₄ es₃ = some k₅)
    (hspare : Runs.AllSteps (fileStep mach) (fun k e => ¬Writes n k e) k₄ es₃) :
    LastStores (fileBytes k.files.fs.tree n)
      (bs₁ ++ written (callsOn mach fd₁ pid₁ k es₁))
      (bs₂ ++ written (callsOn mach fd₂ pid₂ k es₁ ++ callsOn mach fd₂ pid₂ k₂ es₂))
      (fileBytes k₅.files.fs.tree n)
      (d₁ ∨ Wrote (callsOn mach fd₁ pid₁ k es₁))
      (d₂ ∨ Wrote (callsOn mach fd₂ pid₂ k es₁ ++ callsOn mach fd₂ pid₂ k₂ es₂)) := by
  obtain ⟨slot₁, full₁, hfirst⟩ := appender_of_appendsTo hfirst
  obtain ⟨slot₂, full₂, hlast⟩ := appender_of_appendsTo hlast
  -- up to the first close
  have hfirst₁ := hfirst.run (huse₁.mono fun _ _ h => h.1) hrun₁
  have hlast₁ := hlast.run (huse₁.mono fun _ _ h => h.2.1) hrun₁
  have hkeep₁ : fileBytes k₁.files.fs.tree n = fileBytes k.files.fs.tree n :=
    bytes_run hfirst.files (TreeOk.resolve_lt hfirst.files.tree hfirst.files.tree.root_lt hfirst.leads)
      (huse₁.mono fun _ _ h => h.2.2) hrun₁
  obtain ⟨-, hfiles₂, hstored₁, hspared₁⟩ := hfirst₁.close hclose₁
  -- from there to the second
  have hlast₂ := hlast₁.other_close hne hfirst₁ hclose₁
  have hlast₃ := hlast₂.run (huse₂.mono fun _ _ h => h.1) hrun₂
  have hkeep₂ : fileBytes k₃.files.fs.tree n = fileBytes k₂.files.fs.tree n :=
    bytes_run hfiles₂ (TreeOk.resolve_lt hfiles₂.tree hfiles₂.tree.root_lt hlast₂.leads)
      (huse₂.mono fun _ _ h => h.2) hrun₂
  obtain ⟨hedits₄, hfiles₄, hstored₂, hspared₂⟩ := hlast₃.close hclose₂
  have hleads₄ := Edited.resolve hedits₄ hlast₃.files.tree hlast₃.files.tree.root_lt hlast₃.leads
  have hkeep₃ : fileBytes k₅.files.fs.tree n = fileBytes k₄.files.fs.tree n :=
    bytes_run hfiles₄ (TreeOk.resolve_lt hfiles₄.tree hfiles₄.tree.root_lt hleads₄) hspare hrun₃
  have hwrote : ∀ log log' : List Transfer, (d₂ ∨ Wrote log) ∨ Wrote log' ↔ d₂ ∨ Wrote (log ++ log') := by
    intro log log'
    unfold Wrote
    simp only [List.mem_append, or_and_right, exists_or, or_assoc]
  have hwritten : ∀ log log' : List Transfer, (bs₂ ++ written log) ++ written log' =
      bs₂ ++ written (log ++ log') := by
    intro log log'
    unfold written
    rw [List.map_append, List.flatMap_append, List.append_assoc]
  rw [hwrote, hwritten] at hstored₂
  rw [hwrote] at hspared₂
  constructor
  case last => exact fun h => hkeep₃.trans (hstored₂ h)
  case first => exact fun h h' =>
    calc fileBytes k₅.files.fs.tree n = fileBytes k₄.files.fs.tree n := hkeep₃
      _ = fileBytes k₃.files.fs.tree n := hspared₂ h
      _ = fileBytes k₂.files.fs.tree n := hkeep₂
      _ = bs₁ ++ written (callsOn mach fd₁ pid₁ k es₁) := hstored₁ h'
  case neither => exact fun h h' =>
    calc fileBytes k₅.files.fs.tree n = fileBytes k₄.files.fs.tree n := hkeep₃
      _ = fileBytes k₃.files.fs.tree n := hspared₂ h
      _ = fileBytes k₂.files.fs.tree n := hkeep₂
      _ = fileBytes k₁.files.fs.tree n := hspared₁ h'
      _ = fileBytes k.files.fs.tree n := hkeep₁

/-! ## An append that is lost -/

/-- Two lists merged, each in its order. -/
inductive Merged {α : Type} : List α → List α → List α → Prop
  | done : Merged [] [] []
  | first {x : α} {xs ys zs : List α} : Merged xs ys zs → Merged (x :: xs) ys (x :: zs)
  | second {y : α} {xs ys zs : List α} : Merged xs ys zs → Merged xs (y :: ys) (y :: zs)

theorem Merged.length {α : Type} {xs ys zs : List α} (h : Merged xs ys zs) :
    zs.length = xs.length + ys.length := by
  induction h with
  | done => rfl
  | first _ ih =>
      rw [List.length_cons, List.length_cons, ih]
      omega
  | second _ ih =>
      rw [List.length_cons, List.length_cons, ih]
      omega

def demoAppends : List FileEvent := [.call sysWrite 3 0x00300000 4, .call sysWrite 4 0x00300000 4]

/-- One process opens the file twice, writes through both descriptors and closes both. -/
structure DemoRun (fs : Fs) (ka k k₁ k₂ k₃ : KState) : Prop where
  init : vfsInit (fsInit none) plainHeap = some fs
  opened : (ksysOpen plainMach (freshState fs demoText) 0x00300000 (oWronly ||| oAppend)).done =
    some (3, ka)
  reopened : (ksysOpen plainMach ka 0x00300000 (oWronly ||| oAppend)).done = some (4, k)
  run : Runs.run (fileStep plainMach) k demoAppends = some k₁
  closed : (ksysClose k₁ 3).done = some (0, k₂)
  reclosed : (ksysClose k₂ 4).done = some (0, k₃)
  pid : ka.pid = 0
  copied : (copyUserCstr ka.core 0x00300000 128).1 = some demoText
  leads : vfsResolve k.files.fs.tree demoText = some 4
  results : (callsOn plainMach 3 0 k demoAppends).map Transfer.result = [4] ∧
    (callsOn plainMach 4 0 k demoAppends).map Transfer.result = [4]
  lengths : (written (callsOn plainMach 3 0 k demoAppends)).length = 4 ∧
    (written (callsOn plainMach 4 0 k demoAppends)).length = 4
  contents : (oldBytes fs.tree demoText).length = 61 ∧
    (oldBytes k₃.files.fs.tree demoText).length = 65

theorem demoRun_exists : ∃ fs ka k k₁ k₂ k₃, DemoRun fs ka k k₁ k₂ k₃ := by
  have hview : ((vfsInit (fsInit none) plainHeap).bind fun fs =>
      (ksysOpen plainMach (freshState fs demoText) 0x00300000 (oWronly ||| oAppend)).done.bind fun ra =>
      (ksysOpen plainMach ra.2 0x00300000 (oWronly ||| oAppend)).done.bind fun r =>
      (Runs.run (fileStep plainMach) r.2 demoAppends).bind fun k₁ =>
      (ksysClose k₁ 3).done.bind fun r₂ => (ksysClose r₂.2 4).done.map fun r₃ =>
        ([[ra.1, r.1, r₂.1, r₃.1, ra.2.pid],
            (callsOn plainMach 3 0 r.2 demoAppends).map Transfer.result,
            (callsOn plainMach 4 0 r.2 demoAppends).map Transfer.result],
          (copyUserCstr ra.2.core 0x00300000 128).1, vfsResolve r.2.files.fs.tree demoText,
          [(written (callsOn plainMach 3 0 r.2 demoAppends)).length,
            (written (callsOn plainMach 4 0 r.2 demoAppends)).length,
            (oldBytes fs.tree demoText).length, (oldBytes r₃.2.files.fs.tree demoText).length])) =
      some ([[3, 4, 0, 0, 0], [4], [4]], some demoText, some 4, [4, 4, 61, 65]) := by decide +kernel
  obtain ⟨fs, hinit, hview⟩ := Option.bind_eq_some_iff.mp hview
  obtain ⟨⟨fda, ka⟩, hopen, hview⟩ := Option.bind_eq_some_iff.mp hview
  obtain ⟨⟨fd, k⟩, hreopen, hview⟩ := Option.bind_eq_some_iff.mp hview
  obtain ⟨k₁, hrun, hview⟩ := Option.bind_eq_some_iff.mp hview
  obtain ⟨⟨r₂, k₂⟩, hclose, hview⟩ := Option.bind_eq_some_iff.mp hview
  obtain ⟨⟨r₃, k₃⟩, hreclose, hview⟩ := Option.map_eq_some_iff.mp hview
  simp only [Prod.mk.injEq, List.cons.injEq, and_true] at hview
  obtain ⟨⟨⟨rfl, rfl, rfl, rfl, hpid⟩, hresults⟩, hcopy, hleads, hfirst, hsecond, hold, hnew⟩ := hview
  exact ⟨fs, ka, k, k₁, k₂, k₃, hinit, hopen, hreopen, hrun, hclose, hreclose, hpid, hcopy, hleads,
    hresults, ⟨hfirst, hsecond⟩, hold, hnew⟩

theorem demoFresh_pid (fs : Fs) : (freshState fs demoText).pid = 0 := by
  have hkernel : (demoCore demoText).ring3.currentPid = 0 := by decide +kernel
  show toInt (demoCore demoText).ring3.currentPid = 0
  rw [hkernel]
  rfl

theorem demo_absPath (t : VfsTree) (cwd : Nat) : makeAbsPath t cwd demoText 128 = some demoText := by
  unfold makeAbsPath
  rw [if_neg (by decide), if_pos (by decide)]
  rfl

theorem DemoRun.opensFirst {fs : Fs} {ka k k₁ k₂ k₃ : KState} (h : DemoRun fs ka k k₁ k₂ k₃) :
    OpensToAppend plainMach (freshState fs demoText) 0x00300000 (oWronly ||| oAppend) demoText 3 ka where
  reached := ⟨_, [], ⟨⟨_, _, h.init⟩, fun _ => rfl, rfl⟩, rfl⟩
  text := by
    refine ⟨demoText, ?_, demo_absPath _ _⟩
    show (copyUserCstr (demoCore demoText) 0x00300000 128).1 = some demoText
    decide +kernel
  inTree := by decide
  wantsWrite := Or.inl (by decide)
  append := by decide
  done := h.opened
  nonneg := by decide

def demoOpen : FileEvent := .call sysOpen 0x00300000 (oWronly ||| oAppend) 0

theorem demoOpen_step (k : KState) : fileStep plainMach k demoOpen =
    (ksysOpen plainMach k 0x00300000 (oWronly ||| oAppend)).done.map Prod.snd := rfl

theorem DemoRun.opensSecond {fs : Fs} {ka k k₁ k₂ k₃ : KState} (h : DemoRun fs ka k k₁ k₂ k₃) :
    OpensToAppend plainMach ka 0x00300000 (oWronly ||| oAppend) demoText 4 k where
  reached := by
    obtain ⟨k₀, es, hfresh, hrun⟩ := h.opensFirst.reached
    refine ⟨k₀, es ++ [demoOpen], hfresh, ?_⟩
    rw [Runs.run_append, hrun, Option.bind_some]
    rw [Runs.run, demoOpen_step, h.opened]
    rfl
  text := ⟨demoText, h.copied, demo_absPath _ _⟩
  inTree := by decide
  wantsWrite := Or.inl (by decide)
  append := by decide
  done := h.reopened
  nonneg := by decide

theorem DemoRun.inUse {fs : Fs} {ka k k₁ k₂ k₃ : KState} (_h : DemoRun fs ka k k₁ k₂ k₃)
    (hresult : (callsOn plainMach fd 0 k demoAppends).map Transfer.result = [4]) :
    Runs.AllSteps (fileStep plainMach) (InUse plainMach fd 0) k demoAppends := by
  have hall : ∀ x ∈ callsOn plainMach fd 0 k demoAppends, 0 ≤ x.result := by
    intro x hx
    have hmem := List.mem_map_of_mem (f := Transfer.result) hx
    rw [hresult] at hmem
    rw [List.mem_singleton.mp hmem]
    decide
  refine Runs.AllSteps.and (Runs.AllSteps.of_observe hall) (Runs.AllSteps.of_events (fun e he k hclose => ?_) k)
  simp only [demoAppends, List.mem_cons, List.not_mem_nil, or_false] at he
  rcases he with rfl | rfl <;> exact absurd hclose.1 (by decide)

/-- The run of the demo, as the general theorem describes it. -/
theorem appends_demo : ∃ fs ka k k₁ k₂ k₃, DemoRun fs ka k k₁ k₂ k₃ ∧ ∃ bs₁ bs₂ d₁ d₂,
    LastStores (fileBytes k.files.fs.tree 4)
      (bs₁ ++ written (callsOn plainMach 3 0 k demoAppends))
      (bs₂ ++ written (callsOn plainMach 4 0 k demoAppends ++ callsOn plainMach 4 0 k₂ []))
      (fileBytes k₃.files.fs.tree 4) (d₁ ∨ Wrote (callsOn plainMach 3 0 k demoAppends))
      (d₂ ∨ Wrote (callsOn plainMach 4 0 k demoAppends ++ callsOn plainMach 4 0 k₂ [])) := by
  obtain ⟨fs, ka, k, k₁, k₂, k₃, h⟩ := demoRun_exists
  have hopen : Runs.run (fileStep plainMach) ka [demoOpen] = some k := by
    rw [Runs.run, demoOpen_step, h.reopened]
    rfl
  have hidle : Runs.AllSteps (fileStep plainMach) (InUse plainMach 3 0) ka [demoOpen] := by
    refine ⟨⟨fun x hx => ?_, fun hclose => absurd hclose.1 (by decide)⟩, fun _ _ => trivial⟩
    have hnone : transfers plainMach 3 0 ka demoOpen = [] := by
      unfold demoOpen transfers
      dsimp only
      rw [if_neg fun hfd => absurd hfd.1 (by decide)]
    rw [hnone] at hx
    cases hx
  have hfirst : AppendsTo plainMach k 3 0 4 _ _ :=
    ⟨_, _, _, demoText, ka, [demoOpen], h.opensFirst, demoFresh_pid fs, hopen, hidle, h.leads,
      rfl, Iff.rfl⟩
  have hsecond : AppendsTo plainMach k 4 0 4 _ _ :=
    ⟨_, _, _, demoText, k, [], h.opensSecond, h.pid, rfl, trivial, h.leads, rfl, Iff.rfl⟩
  have hspare : Runs.AllSteps (fileStep plainMach) (fun k e => ¬Writes 4 k e) k demoAppends := by
    refine Runs.AllSteps.of_events (fun e he k hwrites => ?_) k
    simp only [demoAppends, List.mem_cons, List.not_mem_nil, or_false] at he
    rcases he with rfl | rfl <;> exact absurd hwrites.1 (by decide)
  have huse := (h.inUse h.results.1).and ((h.inUse h.results.2).and hspare)
  have hidle₂ : Runs.run (fileStep plainMach) k₂ [] = some k₂ := rfl
  have hidle₃ : Runs.run (fileStep plainMach) k₃ [] = some k₃ := rfl
  exact ⟨fs, ka, k, k₁, k₂, k₃, h, _, _, _, _, appends_end hfirst hsecond (by decide) h.run huse
    h.closed hidle₂ trivial h.reclosed hidle₃ trivial⟩

/-- One process opens a file twice with `O_APPEND`, writes four bytes through each descriptor and
closes both: the file has grown by four bytes. -/
theorem not_appends_merged : ∃ fs ka k k₁ k₂ k₃, DemoRun fs ka k k₁ k₂ k₃ ∧
    ∀ bs, Merged (written (callsOn plainMach 3 0 k demoAppends))
        (written (callsOn plainMach 4 0 k demoAppends)) bs →
      oldBytes k₃.files.fs.tree demoText ≠ oldBytes fs.tree demoText ++ bs := by
  obtain ⟨fs, ka, k, k₁, k₂, k₃, h⟩ := demoRun_exists
  refine ⟨fs, ka, k, k₁, k₂, k₃, h, fun bs hbs heq => ?_⟩
  have hlength := congrArg List.length heq
  rw [List.length_append, hbs.length, h.lengths.1, h.lengths.2, h.contents.1, h.contents.2] at hlength
  omega

end SlopOS.Proofs.Appends
