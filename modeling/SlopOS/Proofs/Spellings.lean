import Mathlib.Logic.Relation
import SlopOS.Proofs.MountRuns
import SlopOS.Proofs.PrintedPaths
/-!
# Spellings of a path

Doubled slashes, `.` components and detours through a directory do not matter in
the tree.  On the CD only doubled slashes do not matter, and they can hide from
the tests on the text that a path leads there.
-/

namespace SlopOS.Proofs.Spellings

open SlopOS.Support SlopOS.Support.PathText SlopOS.Kernel
open SlopOS.Proofs.DiscPaths SlopOS.Proofs.DiscDirs
open SlopOS.Proofs.FileTree SlopOS.Proofs.FilePaths SlopOS.Proofs.TreeRuns
open SlopOS.Proofs.PrintedPaths SlopOS.Proofs.MountRuns

variable {mach : Machine} {fs : Fs} {t : VfsTree} {cwd m : Nat}
variable {ins front path path' full full' subpath subpath' : CStr}

/-! ## Other spellings -/

inductive Doubled : CStr → CStr → Prop
  | slash (front back : CStr) :
      Doubled (front ++ chr '/' :: back) (front ++ chr '/' :: chr '/' :: back)

/-- The components `ins` put in between two components, or at one end: with their slash behind
them or in front of them. -/
inductive PutIn (ins front : CStr) : CStr → CStr → Prop
  | before {back : CStr} : (front = [] → back.head? ≠ some (chr '/')) →
      (front ≠ [] → front.getLast? = some (chr '/')) →
        PutIn ins front (front ++ back) (front ++ (ins ++ chr '/' :: back))
  | behind {back : CStr} : front ≠ [] → (∀ c ∈ back.head?, c = chr '/') →
      PutIn ins front (front ++ back) (front ++ chr '/' :: (ins ++ back))

/-- A path and another spelling of it: a slash doubled, a `.` put in, or a detour through a
directory `d` that is there. -/
inductive Respelled (t : VfsTree) (cwd : Nat) : CStr → CStr → Prop
  | slash {path path' : CStr} : Doubled path path' → Respelled t cwd path path'
  | dot {front path path' : CStr} : PutIn (cstr ".") front path path' → Respelled t cwd path path'
  | detour {front path path' d : CStr} {m c : Nat} : vfsResolveFrom t cwd front = some m →
      vfsFindChild t m d = some c → (t.node c).type = .dir → ¬Dot d →
        PutIn (d ++ cstr "/..") front path path' → Respelled t cwd path path'

theorem Doubled.words (h : Doubled path path') : words path' = words path := by
  cases h with
  | slash front back =>
      unfold FilePaths.words
      rw [components_append_sep, components_append_sep, components_cons_sep]

theorem Doubled.startOf (h : Doubled path path') (cwd : Nat) : startOf cwd path' = startOf cwd path := by
  cases h with
  | slash front back => cases front <;> rfl

theorem PutIn.words (h : PutIn ins front path path') (hne : ins.head? ≠ none)
    (hslash : ins.head? ≠ some (chr '/')) :
    (∃ back, words path = FilePaths.words front ++ back ∧
      FilePaths.words path' = FilePaths.words front ++ (FilePaths.words ins ++ back)) ∧
    FilePaths.startOf cwd path' = FilePaths.startOf cwd path ∧
      FilePaths.startOf cwd front = FilePaths.startOf cwd path := by
  have hstart : ∀ {front back back' : CStr}, front ≠ [] →
      FilePaths.startOf cwd (front ++ back') = FilePaths.startOf cwd (front ++ back) ∧
        FilePaths.startOf cwd front = FilePaths.startOf cwd (front ++ back) := by
    intro front back back' hfront
    cases front with
    | nil => exact absurd rfl hfront
    | cons c front => exact ⟨rfl, rfl⟩
  cases h with
  | @before back hempty hend =>
      by_cases hfront : front = []
      · subst hfront
        have hins : ∀ back : CStr, (ins ++ back).head? = ins.head? := by
          intro back
          cases ins with
          | nil => exact absurd rfl hne
          | cons c ins => rfl
        refine ⟨⟨FilePaths.words back, rfl, components_append_sep ins back⟩, ?_⟩
        unfold FilePaths.startOf
        rw [List.nil_append, List.nil_append, hins, if_neg hslash, if_neg (hempty rfl)]
        exact ⟨rfl, rfl⟩
      · obtain ⟨f, rfl⟩ := List.getLast?_eq_some_iff.mp (hend hfront)
        refine ⟨⟨FilePaths.words back, ?_, ?_⟩, hstart hfront⟩
        · unfold FilePaths.words
          rw [List.append_assoc, List.singleton_append, components_append_sep,
            components_append_sep, components_nil, List.append_nil]
        · unfold FilePaths.words
          rw [List.append_assoc, List.singleton_append, components_append_sep,
            components_append_sep, components_append_sep, components_nil, List.append_nil]
  | @behind back hfront hback =>
      have hsplit : ∀ s : CStr, FilePaths.words (s ++ back) = FilePaths.words s ++ FilePaths.words back := by
        intro s
        cases back with
        | nil =>
            rw [List.append_nil]
            exact (List.append_nil _).symm
        | cons c back =>
            obtain rfl := hback c rfl
            unfold FilePaths.words
            rw [components_append_sep, components_cons_sep]
      refine ⟨⟨FilePaths.words back, hsplit front, ?_⟩, hstart hfront⟩
      have hslash := @components_append_sep _ _ (chr '/') front (ins ++ back)
      rw [← hsplit]
      exact hslash

/-! ## In the tree -/

theorem resolve_respelled (h : TreeOk t) (hcwd : cwd < t.count) (hspell : Respelled t cwd path path') :
    vfsResolveFrom t cwd path' = vfsResolveFrom t cwd path := by
  cases hspell with
  | slash hdouble => rw [vfsResolveFrom_eq, vfsResolveFrom_eq, hdouble.words, hdouble.startOf]
  | @dot front _ _ hput =>
      obtain ⟨⟨back, hwords, hwords'⟩, hstart, -⟩ := @PutIn.words cwd _ _ _ _ hput (by decide) (by decide)
      have hdot : words (cstr ".") = [cstr "."] := rfl
      rw [vfsResolveFrom_eq, vfsResolveFrom_eq, hwords, hwords', hstart, stepAll_append,
        stepAll_append, hdot]
      congr 1
  | @detour front _ _ d m c hfront hfind _ hdot hput =>
      have hm : m < t.count := TreeOk.resolve_lt h hcwd hfront
      obtain ⟨hc, hparent, -, hname⟩ := h.find_lt hm hfind
      have hok := h.named c hc (h.ne_root hparent)
      rw [hname] at hok
      have hhead : (d ++ cstr "/..").head? = d.head? := by
        cases d with
        | nil => exact absurd rfl hok.nonempty
        | cons x d => rfl
      have hd : d.head? ≠ none ∧ d.head? ≠ some (chr '/') := by
        refine ⟨fun hnone => hok.nonempty (List.head?_eq_none_iff.mp hnone), fun hslash => ?_⟩
        exact hok.noSlash (List.mem_of_mem_head? hslash)
      obtain ⟨⟨back, hwords, hwords'⟩, hstart, hstart'⟩ :=
        @PutIn.words cwd _ _ _ _ hput (by rw [hhead]; exact hd.1) (by rw [hhead]; exact hd.2)
      have hins : words (d ++ cstr "/..") = [d, cstr ".."] := by
        have hsep := @components_append_sep _ _ (chr '/') d (cstr "..")
        rw [components_word hok.nonempty hok.noSlash] at hsep
        exact hsep
      rw [vfsResolveFrom_eq, hstart'] at hfront
      rw [vfsResolveFrom_eq, vfsResolveFrom_eq, hwords, hwords', hstart, hins, stepAll_append,
        stepAll_append, hfront, Option.bind_some, Option.bind_some, List.cons_append, stepAll_cons,
        stepTo_name hok.short (fun hd => hdot (Or.inl hd)) (fun hd => hdot (Or.inr hd)), hfind,
        Option.bind_some, List.cons_append, stepAll_cons]
      have hup : stepTo t c (cstr "..") = some m := by
        have hstep : stepTo t c (cstr "..") = some ((t.node c).parent.getD c) := rfl
        rw [hstep, hparent]
        rfl
      rw [hup]
      rfl

/-- The two calls have the same results for both paths. -/
structure SameResults (mach : Machine) (fs : Fs) (cwd : Nat) (path path' : CStr) : Prop where
  stat : vfsStat mach fs cwd path' = vfsStat mach fs cwd path
  readFile : vfsReadFile mach fs cwd path' = vfsReadFile mach fs cwd path

theorem stat_inTree (hcwd : (fs.tree.node cwd).type = .dir)
    (hgate : vfsMountSubpath (vfsCheckPath fs.tree cwd path) = none) :
    vfsStat mach fs cwd path = match vfsResolveFrom fs.tree cwd path with
      | none => some ((false, ⟨0, 0⟩), fs)
      | some node => some (if (fs.tree.node node).type = .dir then (true, ⟨modeDir, 0⟩)
          else (true, ⟨modeFile, (fs.tree.node node).size⟩), fs) := by
  unfold vfsStat
  by_cases hne : path = []
  · have hres : vfsResolveFrom fs.tree cwd [] = some cwd := rfl
    rw [if_pos hne, hne, hres]
    dsimp only
    rw [if_pos hcwd]
  · cases hres : vfsResolveFrom fs.tree cwd path with
    | none => simp only [if_neg hne, hgate]
    | some node => simp only [if_neg hne, hgate]

theorem sameResults_inTree (hcwd : (fs.tree.node cwd).type = .dir)
    (hres : vfsResolveFrom fs.tree cwd path' = vfsResolveFrom fs.tree cwd path)
    (hgate : vfsMountSubpath (vfsCheckPath fs.tree cwd path) = none)
    (hgate' : vfsMountSubpath (vfsCheckPath fs.tree cwd path') = none) :
    SameResults mach fs cwd path path' := by
  constructor
  case stat => rw [stat_inTree hcwd hgate, stat_inTree hcwd hgate', hres]
  case readFile =>
    unfold vfsReadFile
    rw [hgate, hgate', hres]

/-! ## On the CD -/

/-- What the walk on the CD sees of a path. -/
def pieces (path : CStr) : List CStr × CStr := (endedWords (chr '/') path, lastPiece (chr '/') path)

/-- The same for the path on the CD, from that of the path. -/
def discPieces : List CStr × CStr → List CStr × CStr
  | (ended, last) =>
    if [cstr "mount", cstr "cdrom"] <+: ended then (ended.drop 2, last)
    else if ended = [cstr "mount"] then ([], []) else (ended, last)

theorem Doubled.pieces (h : Doubled path path') : pieces path' = pieces path := by
  cases h with
  | slash front back =>
      have hended := @endedWords_append_sep _ _ (chr '/') [] back
      have hlast := @lastPiece_append_sep _ _ (chr '/') [] back
      rw [components_nil, List.nil_append, List.nil_append] at hended
      rw [List.nil_append] at hlast
      unfold Spellings.pieces
      rw [endedWords_append_sep, endedWords_append_sep, lastPiece_append_sep, lastPiece_append_sep,
        hended, hlast]

theorem pieces_subpath (h : vfsMountSubpath path = some subpath) :
    pieces subpath = discPieces (pieces path) := by
  have hsep : ∀ front back : CStr, pieces (front ++ chr '/' :: back) =
      (components (chr '/') front ++ (pieces back).1, (pieces back).2) := by
    intro front back
    unfold pieces
    rw [endedWords_append_sep, lastPiece_append_sep]
  cases vfsMountSubpath_cases h with
  | cdrom => decide
  | belowCdrom rest =>
      have hfront : components (chr '/') cdromMount = [cstr "mount", cstr "cdrom"] := by decide
      have hroot := hsep [] rest
      rw [List.nil_append, components_nil, List.nil_append] at hroot
      rw [hroot, hsep, hfront]
      unfold discPieces
      dsimp only
      rw [if_pos (List.prefix_append _ _)]
      rfl
  | bin => decide
  | belowBin rest =>
      have hfront : components (chr '/') binAlias = [cstr "bin"] := by decide
      rw [hsep, hfront]
      have hcdrom : ¬[cstr "mount", cstr "cdrom"] <+: [cstr "bin"] ++ (pieces rest).1 := fun hpre =>
        absurd (List.cons_prefix_cons.mp hpre).1 (by decide)
      have hmount : [cstr "bin"] ++ (pieces rest).1 ≠ [cstr "mount"] := fun heq =>
        absurd (List.cons.inj heq).1 (by decide)
      unfold discPieces
      dsimp only
      rw [if_neg hcdrom, if_neg hmount]

theorem disc_congr (h : pieces subpath' = pieces subpath) (mach : Machine) (mounts : Mounts)
    (heap : Heap) :
    fsPathIsDirFromMount mach mounts cdromMount subpath' =
        fsPathIsDirFromMount mach mounts cdromMount subpath ∧
      fsReadFileFromMount mach mounts heap cdromMount subpath' =
        fsReadFileFromMount mach mounts heap cdromMount subpath := by
  have hsplit : ∀ read volumeSectors root, isoSplit read volumeSectors root subpath' =
      isoSplit read volumeSectors root subpath := by
    intro read volumeSectors root
    obtain ⟨hended, hlast⟩ := Prod.mk.inj h
    unfold isoSplit
    rw [hended, hlast]
  unfold fsPathIsDirFromMount fsReadFileFromMount
  cases mountedDevice mounts cdromMount with
  | none => exact ⟨rfl, rfl⟩
  | some id =>
      dsimp only
      unfold isoOpsPathIsDir
      simp only [isoResolvePath_eq, isoReadFileAlloc_eq, hsplit]
      exact ⟨trivial, trivial⟩

/-- Where the tests recognise a relative path, they have seen it joined. -/
theorem check_recognised (h : (vfsMountSubpath (vfsCheckPath t cwd path)).isSome) :
    (path.head? = some (chr '/') ∧ vfsCheckPath t cwd path = path) ∨
      (path.head? ≠ some (chr '/') ∧
        vfsCheckPath t cwd path = slashed (vfsGetCwdPath t cwd vfsPathMax) ++ path) := by
  unfold vfsCheckPath at h ⊢
  by_cases habs : path.head? = some (chr '/')
  · rw [if_pos habs]
    exact Or.inl ⟨habs, rfl⟩
  · right
    refine ⟨habs, ?_⟩
    rw [if_neg habs] at h ⊢
    cases hjoin : vfsPathJoin vfsPathMax (vfsGetCwdPath t cwd vfsPathMax) path with
    | none =>
        rw [hjoin] at h
        rw [Option.getD_none, mountSubpath_relative habs] at h
        cases h
    | some full =>
        rw [Option.getD_some]
        exact (vfsPathJoin_eq hjoin).1

theorem Doubled.behind (h : Doubled path path') (base : CStr) :
    Doubled (base ++ path) (base ++ path') := by
  cases h with
  | slash front back =>
      rw [← List.append_assoc, ← List.append_assoc]
      exact .slash (base ++ front) back

theorem Doubled.head (h : Doubled path path') : path'.head? = path.head? := by
  cases h with
  | slash front back => cases front <;> rfl

theorem pieces_doubled (h : Relation.ReflTransGen Doubled path path') (base : CStr) :
    pieces (base ++ path') = pieces (base ++ path) := by
  induction h with
  | refl => rfl
  | tail _ hstep ih => rw [(hstep.behind base).pieces, ih]

theorem head_doubled (h : Relation.ReflTransGen Doubled path path') :
    path'.head? = path.head? := by
  induction h with
  | refl => rfl
  | tail _ hstep ih => rw [hstep.head, ih]

/-- Of two paths with doubled slashes the tests see texts with the same pieces. -/
theorem pieces_check (h : Relation.ReflTransGen Doubled path path')
    (hsub : vfsMountSubpath (vfsCheckPath t cwd path) = some subpath)
    (hsub' : vfsMountSubpath (vfsCheckPath t cwd path') = some subpath') :
    pieces subpath' = pieces subpath := by
  have hhead := head_doubled h
  have hcheck : pieces (vfsCheckPath t cwd path') = pieces (vfsCheckPath t cwd path) := by
    have hseen := check_recognised (Option.isSome_of_eq_some hsub)
    have hseen' := check_recognised (Option.isSome_of_eq_some hsub')
    rcases hseen with ⟨habs, htext⟩ | ⟨hrel, htext⟩
    · rcases hseen' with ⟨-, htext'⟩ | ⟨hrel', -⟩
      · have hpieces := pieces_doubled h []
        rw [htext, htext']
        exact hpieces
      · exact absurd (hhead.trans habs) hrel'
    · rcases hseen' with ⟨habs', -⟩ | ⟨-, htext'⟩
      · exact absurd (hhead.symm.trans habs') hrel
      · rw [htext, htext']
        exact pieces_doubled h _
  calc pieces subpath' = discPieces (pieces (vfsCheckPath t cwd path')) := pieces_subpath hsub'
    _ = discPieces (pieces (vfsCheckPath t cwd path)) := by rw [hcheck]
    _ = pieces subpath := (pieces_subpath hsub).symm

theorem doubled_nil_iff (h : Relation.ReflTransGen Doubled path path') : path' = [] ↔ path = [] := by
  rw [← List.head?_eq_none_iff, head_doubled h, List.head?_eq_none_iff]

theorem sameResults_onDisc (h : Relation.ReflTransGen Doubled path path')
    (hgate : (vfsMountSubpath (vfsCheckPath fs.tree cwd path)).isSome)
    (hgate' : (vfsMountSubpath (vfsCheckPath fs.tree cwd path')).isSome) :
    SameResults mach fs cwd path path' := by
  obtain ⟨subpath, hsub⟩ := Option.isSome_iff_exists.mp hgate
  obtain ⟨subpath', hsub'⟩ := Option.isSome_iff_exists.mp hgate'
  have hpieces := pieces_check h hsub hsub'
  obtain ⟨hdir, hread⟩ := disc_congr hpieces mach fs.mounts fs.heap
  constructor
  case stat =>
    unfold vfsStat
    simp only [doubled_nil_iff h, hsub, hsub', hdir, hread]
  case readFile =>
    unfold vfsReadFile
    rw [hsub, hsub']
    dsimp only
    rw [hread]

/-! ## Runs -/

/-- What holds of a path and another spelling of it: the results are the same where the tests on
the text send both to the tree; and where they send both to the CD, for doubled slashes. -/
structure SpellingsAgree (mach : Machine) (fs : Fs) (cwd : Nat) (path path' : CStr) : Prop where
  inTree : Relation.ReflTransGen (Respelled fs.tree cwd) path path' →
    vfsMountSubpath (vfsCheckPath fs.tree cwd path) = none →
      vfsMountSubpath (vfsCheckPath fs.tree cwd path') = none → SameResults mach fs cwd path path'
  onDisc : Relation.ReflTransGen Doubled path path' →
    (vfsMountSubpath (vfsCheckPath fs.tree cwd path)).isSome →
      (vfsMountSubpath (vfsCheckPath fs.tree cwd path')).isSome →
        SameResults mach fs cwd path path'

theorem resolve_spellings (h : TreeOk t) (hcwd : cwd < t.count)
    (hspell : Relation.ReflTransGen (Respelled t cwd) path path') :
    vfsResolveFrom t cwd path' = vfsResolveFrom t cwd path := by
  induction hspell with
  | refl => rfl
  | tail _ hstep ih => rw [resolve_respelled h hcwd hstep, ih]

section Runs

variable {mounts : Mounts} {heap : Heap} {fs₀ : Fs} {es : List TreeEvent}

/-- In every state that a run makes, from every working directory, for all paths. -/
theorem spellingsAgree_run (hinit : vfsInit mounts heap = some fs₀)
    (hrun : Runs.run (treeStep mach) fs₀ es = some fs) (hcwd : cwd < fs.tree.count)
    (hdir : (fs.tree.node cwd).type = .dir) (path path' : CStr) :
    SpellingsAgree mach fs cwd path path' where
  inTree := fun hspell hgate hgate' =>
    sameResults_inTree hdir (resolve_spellings (treeOk_run hinit hrun) hcwd hspell) hgate hgate'
  onDisc := fun hdouble hgate hgate' => sameResults_onDisc hdouble hgate hgate'

end Runs

theorem spellingsAgree_demo : ∃ fs₀ fs, vfsInit (fsInit (some 0)) plainHeap = some fs₀ ∧
    Runs.run (treeStep discMach) fs₀ demoVisit = some fs ∧
      SpellingsAgree discMach fs vfsRoot (cstr "/docs/readme.txt") (cstr "//docs/./readme.txt") := by
  have hview : (callsFrom discMach (fsInit (some 0)) plainHeap demoVisit).map
      (fun fs => (decide (vfsRoot < fs.tree.count), (fs.tree.node vfsRoot).type)) =
        some (true, .dir) := by decide +kernel
  obtain ⟨fs, hcalls, hfs⟩ := Option.map_eq_some_iff.mp hview
  obtain ⟨fs₀, hinit, hrun⟩ := Option.bind_eq_some_iff.mp hcalls
  obtain ⟨hcount, hdir⟩ := Prod.mk.inj hfs
  exact ⟨fs₀, fs, hinit, hrun, spellingsAgree_run hinit hrun (of_decide_eq_true hcount) hdir _ _⟩

/-- With a second slash in front the CD is not recognised, and with `.` behind the mount a name is
looked up that no directory of the CD holds. -/
theorem not_sameResults_disc : ∃ fs₀, vfsInit (fsInit (some 0)) plainHeap = some fs₀ ∧
    (Respelled fs₀.tree vfsRoot (cstr "/mount/cdrom") (cstr "//mount/cdrom") ∧
      ¬SameResults discMach fs₀ vfsRoot (cstr "/mount/cdrom") (cstr "//mount/cdrom")) ∧
    Respelled fs₀.tree vfsRoot (cstr "/mount/cdrom") (cstr "/mount/cdrom/.") ∧
      ¬SameResults discMach fs₀ vfsRoot (cstr "/mount/cdrom") (cstr "/mount/cdrom/.") := by
  have hview : (vfsInit (fsInit (some 0)) plainHeap).map (fun fs =>
      ((vfsStat discMach fs vfsRoot (cstr "/mount/cdrom")).map fun r => r.1.1,
        (vfsStat discMach fs vfsRoot (cstr "//mount/cdrom")).map fun r => r.1.1,
        (vfsStat discMach fs vfsRoot (cstr "/mount/cdrom/.")).map fun r => r.1.1)) =
      some (some true, some false, some false) := by decide +kernel
  obtain ⟨fs₀, hinit, hfs⟩ := Option.map_eq_some_iff.mp hview
  simp only [Prod.mk.injEq] at hfs
  obtain ⟨hplain, hslash, hdot⟩ := hfs
  refine ⟨fs₀, hinit, ⟨.slash (.slash [] (cstr "mount/cdrom")), fun hsame => ?_⟩,
    .dot (@PutIn.behind _ (cstr "/mount/cdrom") [] (by decide) (by simp)),
    fun hsame => ?_⟩
  · rw [hsame.stat, hplain] at hslash
    cases hslash
  · rw [hsame.stat, hplain] at hdot
    cases hdot

end SlopOS.Proofs.Spellings
