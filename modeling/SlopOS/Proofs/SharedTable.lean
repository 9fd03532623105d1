import SlopOS.Proofs.Isolation
/-!
# A descriptor among other processes

A process opens a file, and then anything may happen but that it closes the
descriptor.  What it reads, writes and asks for is what it would get alone; a
descriptor for reading goes on through the contents that the file had when it
was opened; and calls of others on the number fail.
-/

namespace SlopOS.Proofs.SharedTable

open SlopOS.Support SlopOS.Support.Placement SlopOS.Kernel
open SlopOS.Proofs.FileTree SlopOS.Proofs.FilePaths SlopOS.Proofs.FileEdits SlopOS.Proofs.FileCalls
open SlopOS.Proofs.FileOutcomes SlopOS.Proofs.FileCursor SlopOS.Proofs.FileSessions SlopOS.Proofs.TreeRuns
open SlopOS.Proofs.SystemCalls SlopOS.Proofs.FileWrites SlopOS.Proofs.StatOpen
open SlopOS.Proofs.PlacedFiles SlopOS.Proofs.PlacedCalls SlopOS.Proofs.PlacedRuns
open SlopOS.Proofs.Isolation

variable {mach : Machine} {k k' : KState} {slot : Fin fdMax} {fd pid r : Int}
variable {buf len num a1 a2 a3 path flags size : U32} {p p' p₀ p₁ : Placed} {e : FileEvent}
variable {es : List FileEvent}

/-! ## A descriptor for reading -/

/-- An entry that is only read: its contents, and where it stands in them. -/
structure Reads (e : FdEntry) (bs : Bytes) (pos : Nat) : Prop where
  readOnly : e.writable = false
  contents : contentsOf e = bs
  pos : e.offset.toNat = pos

/-- How much a read of the process on its descriptor has given. -/
def amounts (mach : Machine) (fd pid : Int) (p : Placed) : FileEvent → List Nat
  | .call num a1 a2 a3 =>
    if num = sysRead ∧ toInt a1 = fd ∧ p.k.pid = pid then
      ((placedCall mach p num a1 a2 a3).map fun r => r.1.toNat).toList
    else []
  | _ => []

variable {bs : Bytes} {pos : Nat}

theorem read_refused {k : KState} (hlookup : fdLookup k.files.fds fd k.pid = some slot)
    (hnot : ¬((k.files.fds slot).readable = true ∧ validateBuffer k.core buf len = true)) :
    ∃ code < 0, ksysRead k fd buf len = .ret k code [] := by
  have hthree := (fdLookup_spec hlookup).2.2
  unfold ksysRead
  rw [if_neg (by omega)]
  split
  · exact ⟨errFault, by decide, rfl⟩
  rename_i hvalid
  rw [if_neg (by omega), hlookup]
  dsimp only
  rw [if_pos fun hreadable => hnot ⟨hreadable, not_not.mp hvalid⟩]
  exact ⟨errBadf, by decide, rfl⟩

theorem write_refused {k : KState} (hlookup : fdLookup k.files.fds fd k.pid = some slot)
    (hwritable : (k.files.fds slot).writable = false) :
    ∃ code, ksysWrite mach k fd buf len = .ret k code [] := by
  have hthree := (fdLookup_spec hlookup).2.2
  unfold ksysWrite
  split
  · exact ⟨_, rfl⟩
  split
  · exact ⟨_, rfl⟩
  rw [if_neg (by omega), hlookup]
  unfold fdWrite
  dsimp only
  rw [hwritable]
  exact ⟨_, rfl⟩

theorem Reads.read (h : PlacedOk p) (hlookup : fdLookup p.k.files.fds fd p.k.pid = some slot)
    (hreads : Reads (p.k.files.fds slot) bs pos)
    (hdone : (ksysRead p.k fd buf len).done = some (r, k')) :
    Reads (k'.files.fds slot) bs (pos + r.toNat) ∧ (0 ≤ r →
      r = ((bs.drop pos).take len.toNat).length ∧
        ByteMem.load k'.core.mem buf r.toNat = (bs.drop pos).take len.toNat) := by
  by_cases hchecked : (p.k.files.fds slot).readable = true ∧ validateBuffer p.k.core buf len = true
  · have hoff := (h.laid.entries slot).offset
    have hview := views_cursorOf hoff
    have hread : (cursorOf (p.k.files.fds slot) hoff).read len.toNat = (bs.drop pos).take len.toNat := by
      rw [← hreads.contents, ← hreads.pos]
      rfl
    have hnext := @views_afterRead p.k slot buf _ len.toNat hview
    rw [ksysRead_done hlookup hchecked.1 hchecked.2 hview, hread] at hdone
    rw [hread] at hnext
    cases hdone
    have hbound : ((bs.drop pos).take len.toNat).length ≤ 2 ^ 32 := by
      have hlt := len.isLt
      rw [List.length_take]
      omega
    have hslot : (afterRead p.k slot buf ((bs.drop pos).take len.toNat)).files.fds slot = _ :=
      Function.update_self _ _ _
    refine ⟨⟨?_, ?_, ?_⟩, fun _ => ⟨rfl, load_afterRead _ hbound⟩⟩
    · rw [hslot]
      exact hreads.readOnly
    · exact hnext.elems.trans hreads.contents
    · rw [hnext.pos, Int.toNat_natCast, ← hread, ← hreads.pos]
      rfl
  · obtain ⟨code, hcode, hret⟩ := read_refused hlookup hchecked
    rw [hret] at hdone
    cases hdone
    refine ⟨?_, fun hr => absurd hr (by omega)⟩
    rw [Int.toNat_of_nonpos (by omega)]
    exact hreads

theorem Reads.step (h : PlacedOk p) (howns : Owns p.k fd pid slot)
    (hreads : Reads (p.k.files.fds slot) bs pos) (hopen : ¬Closes fd pid p.k e)
    (hstep : placedStep mach p e = some p') :
    Reads (p'.k.files.fds slot) bs (pos + (amounts mach fd pid p e).sum) := by
  have hquiet : amounts mach fd pid p e = [] → p'.k.files.fds slot = p.k.files.fds slot →
      Reads (p'.k.files.fds slot) bs (pos + (amounts mach fd pid p e).sum) := by
    intro hnone hentry
    rw [hnone, hentry]
    exact hreads
  by_cases hown : OwnCall fd pid p.k e
  case neg =>
    refine hquiet ?_ (kept_step h howns hown hopen hstep).entry
    cases e with
    | call num a1 a2 a3 =>
        refine if_neg ?_
        rintro ⟨rfl, howner⟩
        exact hown ⟨by decide, howner⟩
    | turn => rfl
    | tree => rfl
  cases e with
  | turn => exact hown.elim
  | tree => exact hown.elim
  | call num a1 a2 a3 =>
      obtain ⟨hnum, rfl, hpid⟩ := hown
      have hlookup := howns.lookup hpid
      obtain ⟨⟨r, k'⟩, hdone, hk'⟩ := Option.map_eq_some_iff.mp (laid_step h.laid h.files hstep).2
      dsimp only at hk'
      subst hk'
      simp only [List.mem_cons, List.not_mem_nil, or_false] at hnum
      rcases hnum with rfl | rfl | rfl
      · have hcall : amounts mach (toInt a1) pid p (.call sysRead a1 a2 a3) = [r.toNat] := by
          unfold amounts
          dsimp only
          rw [if_pos ⟨rfl, rfl, hpid⟩, placedCall_eq h.laid, hdone]
          rfl
        rw [hcall]
        exact (Reads.read h hlookup hreads hdone).1
      · obtain ⟨code, hret⟩ := @write_refused mach slot (toInt a1) a2 a3 p.k hlookup hreads.readOnly
        have hdone' : (ksysWrite mach p.k (toInt a1) a2 a3).done = some (r, p'.k) := hdone
        rw [hret] at hdone'
        exact hquiet rfl (congrArg (fun o : Int × KState => o.2.files.fds slot)
          (Option.some.inj hdone')).symm
      · refine hquiet rfl ((syscallEntry_effect h.files.tree h.files.cwd hdone).fds slot ?_)
        rintro (⟨hmem, -⟩ | ⟨hmem, -⟩) <;>
        exact absurd hmem (by decide)

/-! ## Opening -/

/-- The file at the path that `ksys_open` is given has these contents, in the tree or on the CD. -/
def FileHolds (mach : Machine) (k : KState) (path : U32) (bs : Bytes) : Prop :=
  ∃ kpath full, (copyUserCstr k.core path 128).1 = some kpath ∧
    makeAbsPath k.files.fs.tree k.cwd kpath 128 = some full ∧
    match vfsMountSubpath full with
    | none => bs = oldBytes k.files.fs.tree full
    | some subpath => ∃ heap heap', fsReadFileFromMount mach k.files.fs.mounts heap cdromMount
        subpath = some (some bs, heap')

theorem opening_holds {kpath full : CStr} {fs₁ fs₂ : Fs} {data : Option Bytes}
    (hk : FilesOk k) (h : Opening mach k path flags kpath full fs₁ fs₂ data size slot) :
    FileHolds mach k path ((List.range size.toNat).map fun i => (data.getD []).getD i 0) := by
  have habs := opening_text h
  refine ⟨kpath, full, h.copied, h.absPath, ?_⟩
  cases hgate : vfsMountSubpath full with
  | none =>
      obtain ⟨rfl, n, hres, -, rfl, rfl⟩ := (found_inTree habs hgate).mp h.found
      exact opening_old hk h hres
  | some subpath =>
      obtain ⟨-, hmounts⟩ := touched_edits hk.tree hk.cwd h.touched
      have hfound := h.found
      unfold vfsReadFile at hfound
      rw [habs.check, hgate] at hfound
      obtain ⟨⟨found, heap'⟩, hdisc, hpair⟩ := Option.map_eq_some_iff.mp hfound
      cases found with
      | none => cases hpair
      | some bytes =>
          cases hpair
          obtain ⟨hlen, -⟩ := disc_malloc hdisc
          have hcount : (BitVec.ofNat 32 bytes.length).toNat = bytes.length := by
            rw [BitVec.toNat_ofNat]
            omega
          have hall := map_range_getD bytes
          rw [hcount, ← hmounts]
          refine ⟨fs₁.heap, heap', ?_⟩
          rw [hdisc]
          exact congrArg (fun bs => some (some bs, heap')) hall.symm

theorem opened (hk : FilesOk k)
    (hopen : (ksysOpen mach k path flags).done = some (fd, k')) (hfd : 0 ≤ fd) :
    ∃ slot, Owns k' fd k.pid slot ∧ (¬WantsWrite flags → ∃ bs, FileHolds mach k path bs ∧
      Reads (k'.files.fds slot) bs (if flags &&& oAppend ≠ 0 then bs.length else 0)) := by
  obtain ⟨kpath, full, fs₁, fs₂, data, size, slot, ho, hdone⟩ := ksysOpen_opening hopen hfd
  refine ⟨slot, ?_, fun hread => ⟨_, opening_holds hk ho, ?_⟩⟩
  · have hthree := (fdAllocSlot_spec ho.free).2
    cases hdone with
    | noRoom => exact absurd hfd (by decide)
    | buffered hwritable hbuf =>
        obtain ⟨-, howner, -⟩ := openForWrite_spec rfl hwritable hbuf
        refine ⟨rfl, hthree, ?_, ?_⟩
        · rw [fds_self]
          exact howner.used
        · rw [fds_self]
          exact howner.pid
    | plain =>
        refine ⟨rfl, hthree, ?_, ?_⟩ <;>
        · rw [fds_self]
          rfl
  · have hnot : (openEntry (k.setFs fs₂).pid full data size flags).writable = false := by
      show (decide (flags &&& oAccmode = oWronly) || decide (flags &&& oAccmode = oRdwr)) = false
      rw [Bool.or_eq_false_iff, decide_eq_false_iff_not, decide_eq_false_iff_not, ← not_or]
      exact hread
    cases hdone with
    | noRoom => exact absurd hfd (by decide)
    | buffered hwritable => exact (Bool.false_ne_true (hnot.symm.trans hwritable)).elim
    | plain =>
        rw [fds_self]
        refine ⟨hnot, rfl, ?_⟩
        rw [List.length_map, List.length_range]
        show (if flags &&& oAppend ≠ 0 then size else 0).toNat = _
        split <;> rfl

/-! ## Calls of other processes -/

/-- Calls on the number of a descriptor fail and change nothing; the pointer is checked first. -/
structure Refuses (mach : Machine) (p : Placed) (a1 a2 a3 : U32) : Prop where
  close : placedCall mach p sysClose a1 a2 a3 = some (errBadf, p)
  read : placedCall mach p sysRead a1 a2 a3 =
    some (if validateBuffer p.k.core a2 a3 then errBadf else errFault, p)
  write : placedCall mach p sysWrite a1 a2 a3 =
    some (if a2 ≠ 0 ∧ ¬validateBuffer p.k.core a2 a3 then errFault else errBadf, p)
  fstat : placedCall mach p sysFstat a1 a2 a3 =
    some (if a2 = 0 then errInval else
      if validateUserPtr p.k.core a2 (BitVec.ofNat 32 userStatSize) then errBadf else errFault, p)

theorem refuses (h : PlacedOk p) (howns : Owns p.k fd pid slot) (hfd : toInt a1 = fd)
    (hother : p.k.pid ≠ pid) : Refuses mach p a1 a2 a3 := by
  subst hfd
  have hlarge : 3 ≤ toInt a1 := by
    have hthree := howns.three
    have hval := howns.fd_eq
    omega
  have hnotZero : ¬toInt a1 = 0 := by omega
  have hnone : fdLookup p.k.files.fds (toInt a1) p.k.pid = none := by
    cases hlookup : fdLookup p.k.files.fds (toInt a1) p.k.pid with
    | none => rfl
    | some s =>
        obtain ⟨-, hpid, -, hs⟩ := fdLookup_spec hlookup
        have hsame : s = slot := Fin.ext (Int.ofNat_inj.mp (hs.trans howns.fd_eq.symm))
        rw [hsame, howns.pid_eq] at hpid
        exact absurd hpid.symm hother
  have hplaced : ∀ {num : U32} {code : Int},
      syscallEntry mach p.k num a1 a2 a3 0 0 = .ret p.k code [] →
      syscallAt mach p num a1 a2 a3 = p.ptrs →
        placedCall mach p num a1 a2 a3 = some (code, p) := by
    intro num code hentry hptrs
    rw [placedCall_eq h.laid, hentry, hptrs]
    rfl
  constructor
  case close =>
    refine hplaced ?_ ?_
    · show ksysClose p.k (toInt a1) = _
      unfold ksysClose
      rw [hnone]
    · show ksysCloseAt p.ptrs p.k (toInt a1) = _
      unfold ksysCloseAt
      rw [hnone]
  case read =>
    refine hplaced ?_ rfl
    show ksysRead p.k (toInt a1) a2 a3 = _
    unfold ksysRead
    rw [if_neg fun hand => hnotZero hand.1, if_neg hnotZero, hnone]
    cases validateBuffer p.k.core a2 a3 <;> rfl
  case write =>
    refine hplaced ?_ ?_
    · show ksysWrite mach p.k (toInt a1) a2 a3 = _
      unfold ksysWrite
      rw [if_neg (show ¬(toInt a1 = 1 ∨ toInt a1 = 2) by omega), hnone]
      by_cases hnull : a2 = 0
      · rw [if_pos hnull, if_neg fun hand => hand.1 hnull]
      · rw [if_neg hnull]
        cases validateBuffer p.k.core a2 a3 with
        | false =>
            rw [if_pos Bool.false_ne_true, if_pos ⟨hnull, Bool.false_ne_true⟩]
        | true => rw [if_neg (not_not.mpr rfl), if_neg fun hand => hand.2 rfl]
    · show ksysWriteAt mach p.ptrs p.k (toInt a1) a2 a3 = _
      unfold ksysWriteAt
      rw [hnone]
      split <;> rfl
  case fstat =>
    refine hplaced ?_ rfl
    show ksysFstat p.k (toInt a1) a2 = _
    unfold ksysFstat
    rw [if_neg (show ¬(0 ≤ toInt a1 ∧ toInt a1 ≤ 2) by omega), hnone]
    by_cases hnull : a2 = 0
    · rw [if_pos hnull, if_pos hnull]
    · rw [if_neg hnull, if_neg hnull]
      cases validateUserPtr p.k.core a2 (BitVec.ofNat 32 userStatSize) <;> rfl

/-! ## Runs -/

/-- A process opens a file and keeps the descriptor open while the events `es` happen. -/
structure OpenRun (mach : Machine) (p p₀ p₁ : Placed) (path flags a3 : U32) (fd : Int)
    (es : List FileEvent) : Prop where
  reached : PlacedReached mach p
  opened : placedCall mach p sysOpen path flags a3 = some (fd, p₀)
  success : 0 ≤ fd
  run : Runs.run (placedStep mach) p₀ es = some p₁
  stays : Runs.AllSteps (placedStep mach) (fun p' e => ¬Closes fd p.k.pid p'.k e) p₀ es

/-- The own calls of the events, made alone from the state after the open. -/
def aloneRun (mach : Machine) (p p₀ : Placed) (fd : Int) (es : List FileEvent) : List FileEvent :=
  Runs.observe (placedStep mach) (alone p₀.k fd p.k.pid) p₀ es

/-- No event but an own call changes the descriptor or the bytes behind it. -/
def Untouched (mach : Machine) (p p₀ : Placed) (fd : Int) (es : List FileEvent) : Prop :=
  ∃ slot : Fin fdMax, (slot.val : Int) = fd ∧ Runs.AllSteps (placedStep mach)
    (fun p' e => ¬OwnCall fd p.k.pid p'.k e →
      ∀ p'', placedStep mach p' e = some p'' → Kept slot p' p'') p₀ es

/-- The own calls give the same alone, if the allocations of both runs succeed. -/
def SameAlone (mach : Machine) (p p₀ : Placed) (fd : Int) (es : List FileEvent) : Prop :=
  Runs.AllSteps (placedStep mach) (HasRoom fd p.k.pid) p₀ es →
  Runs.AllSteps (placedStep mach) (HasRoom fd p.k.pid) p₀ (aloneRun mach p p₀ fd es) →
    (Runs.run (placedStep mach) p₀ (aloneRun mach p p₀ fd es)).isSome ∧
      Runs.observe (placedStep mach) (responses mach fd p.k.pid) p₀ (aloneRun mach p p₀ fd es) =
        Runs.observe (placedStep mach) (responses mach fd p.k.pid) p₀ es

/-- A read after the events goes on in `bs` behind what the reads before have given. -/
def ReadsOn (mach : Machine) (p p₀ p₁ : Placed) (flags : U32) (fd : Int) (es : List FileEvent)
    (bs : Bytes) : Prop :=
  ∀ a1 buf len r p₂, p₁.k.pid = p.k.pid → toInt a1 = fd →
    placedCall mach p₁ sysRead a1 buf len = some (r, p₂) → 0 ≤ r →
      let start := if flags &&& oAppend ≠ 0 then bs.length else 0
      let given := (Runs.observe (placedStep mach) (amounts mach fd p.k.pid) p₀ es).sum
      let next := (bs.drop (start + given)).take len.toNat
      r = next.length ∧ ByteMem.load p₂.k.core.mem buf r.toNat = next

theorem OpenRun.start (h : OpenRun mach p p₀ p₁ path flags a3 fd es) :
    PlacedOk p₀ ∧ (ksysOpen mach p.k path flags).done = some (fd, p₀.k) := by
  have hok := placedOk_reached h.reached
  have hstep : placedStep mach p (.call sysOpen path flags a3) = some p₀ := by
    unfold placedStep
    dsimp only
    rw [if_neg fun hand => absurd hand.1 (by decide), h.opened]
    rfl
  refine ⟨placedOk_step hok hstep, ?_⟩
  have hopened := h.opened
  rw [placedCall_eq hok.laid] at hopened
  obtain ⟨⟨r, k'⟩, hdone, hpair⟩ := Option.map_eq_some_iff.mp hopened
  cases hpair
  exact hdone

theorem held_step (hopen : ¬Closes fd pid p.k e) (h : PlacedOk p ∧ Owns p.k fd pid slot)
    (hstep : placedStep mach p e = some p') : PlacedOk p' ∧ Owns p'.k fd pid slot :=
  ⟨placedOk_step h.1 hstep, owns_step h.1 h.2 hopen hstep⟩

theorem OpenRun.untouched (h : OpenRun mach p p₀ p₁ path flags a3 fd es)
    (howns : Owns p₀.k fd p.k.pid slot) : Untouched mach p p₀ fd es := by
  refine ⟨slot, howns.fd_eq, ?_⟩
  exact Runs.AllSteps.of_invariant (I := fun p' => PlacedOk p' ∧ Owns p'.k fd p.k.pid slot)
    (fun _ _ _ hopen hp hstep => held_step hopen hp hstep)
    (fun _ _ hopen hp hnot _ hstep => kept_step hp.1 hp.2 hnot hopen hstep) h.stays
    ⟨h.start.1, howns⟩

theorem OpenRun.sameAlone (h : OpenRun mach p p₀ p₁ path flags a3 fd es)
    (howns : Owns p₀.k fd p.k.pid slot) : SameAlone mach p p₀ fd es := by
  intro hroom hroom'
  have hok := h.start.1
  have hbeside : Beside p₀.k fd p.k.pid slot p₀ p₀ := ⟨hok, hok, howns, .refl _, hok.files.cwd⟩
  obtain ⟨⟨q, hq⟩, hsame⟩ := hbeside.run h.stays hroom hroom' h.run
  exact ⟨Option.isSome_iff_exists.mpr ⟨q, hq⟩, hsame⟩

theorem OpenRun.readsOn {bs : Bytes} (h : OpenRun mach p p₀ p₁ path flags a3 fd es)
    (howns : Owns p₀.k fd p.k.pid slot)
    (hreads : Reads (p₀.k.files.fds slot) bs (if flags &&& oAppend ≠ 0 then bs.length else 0)) :
    ReadsOn mach p p₀ p₁ flags fd es bs := by
  intro a1 buf len r p₂ hpid hfd hcall hr
  let Given : Placed → List Nat → Prop := fun p' l =>
    (PlacedOk p' ∧ Owns p'.k fd p.k.pid slot) ∧
      Reads (p'.k.files.fds slot) bs ((if flags &&& oAppend ≠ 0 then bs.length else 0) + l.sum)
  have hkeeps : ∀ p' l e p'', ¬Closes fd p.k.pid p'.k e → Given p' l →
      placedStep mach p' e = some p'' → Given p'' (l ++ amounts mach fd p.k.pid p' e) := by
    intro p' l e p'' hopen hp hstep
    refine ⟨held_step hopen hp.1 hstep, ?_⟩
    rw [List.sum_append, ← Nat.add_assoc]
    exact Reads.step hp.1.1 hp.1.2 hp.2 hopen hstep
  have hstart : Given p₀ [] := ⟨⟨h.start.1, howns⟩, hreads⟩
  obtain ⟨⟨hok, howns₁⟩, hreads₁⟩ := Runs.observe_invariant hkeeps h.stays h.run hstart
  have hlookup := howns₁.lookup hpid
  rw [placedCall_eq hok.laid] at hcall
  obtain ⟨⟨r', k'⟩, hdone, hpair⟩ := Option.map_eq_some_iff.mp hcall
  cases hpair
  rw [← hfd] at hlookup
  exact (Reads.read hok hlookup hreads₁ hdone).2 hr

theorem OpenRun.refuses (h : OpenRun mach p p₀ p₁ path flags a3 fd es)
    (hother : p₁.k.pid ≠ p.k.pid) {a1 a2 a4 : U32} (hfd : toInt a1 = fd) :
    Refuses mach p₁ a1 a2 a4 := by
  obtain ⟨hok₀, hopen⟩ := h.start
  obtain ⟨slot, howns, -⟩ := SharedTable.opened (placedOk_reached h.reached).files hopen h.success
  have hend := Runs.invariant (I := fun p' => PlacedOk p' ∧ Owns p'.k fd p.k.pid slot)
    (fun _ _ _ hopen hp hstep => held_step hopen hp hstep) h.stays h.run ⟨hok₀, howns⟩
  exact SharedTable.refuses hend.1 hend.2 hfd hother

/-- Whatever other processes and the shell do meanwhile, a process has its descriptor to itself. -/
theorem descriptor_isolated (h : OpenRun mach p p₀ p₁ path flags a3 fd es) :
    Untouched mach p p₀ fd es ∧ SameAlone mach p p₀ fd es ∧
      (¬WantsWrite flags → ∃ bs, FileHolds mach p.k path bs ∧ ReadsOn mach p p₀ p₁ flags fd es bs) ∧
      (p₁.k.pid ≠ p.k.pid → ∀ a1 a2 a3, toInt a1 = fd → Refuses mach p₁ a1 a2 a3) := by
  obtain ⟨hok₀, hopen⟩ := h.start
  obtain ⟨slot, howns, hreads⟩ := opened (placedOk_reached h.reached).files hopen h.success
  refine ⟨h.untouched howns, h.sameAlone howns, fun hread => ?_, fun hother _ _ _ => h.refuses hother⟩
  obtain ⟨bs, hholds, hstart⟩ := hreads hread
  exact ⟨bs, hholds, h.readsOn howns hstart⟩

def visitorImage : ProcImage where
  loaded := true
  entry := 0x00308000
  imageBase := 0x00308000
  imageSize := 4096
  userStackBase := 0x00130000
  userStackSize := 128
  cwd := none
  output := .vga
  contextValid := false
  context := {}

def visitor : KState :=
  let home := freshState ⟨emptyTree, plainHeap, fsInit none⟩ demoText
  let spawned := (procSpawnKernel home.core.proc (some (cstr "visitor")) 0).getD (0, home.core.proc)
  let ring3 := { home.core.ring3 with active := true, currentPid := toU32 spawned.1 }
  { home with core :=
    { home.core with proc := procBindImage spawned.2 spawned.1 visitorImage, ring3 := ring3 } }

def demoVisit : List FileEvent :=
  [.call sysRead 3 0x00300100 4, .tree (.writeFile vfsRoot demoText (fun _ => 7) 3), .turn visitor,
    .call sysRead 3 0x00300100 4]

theorem openRun_demo : ∃ p p₀ p₁ : Placed,
    OpenRun plainMach p p₀ p₁ 0x00300000 0 0 3 demoVisit ∧ p.k.pid = 0 ∧ p₁.k.pid = 3 ∧
      procGetImage p₁.k.core.proc 3 = some visitorImage ∧
      validateBuffer p₁.k.core 0x00300100 4 = false := by
  have hview : ((vfsInit (fsInit none) plainHeap).bind fun fs =>
      (vfsInitAt (fun _ => 0) (fsInit none) plainHeap).bind fun ptrs =>
        (placedCall plainMach ⟨freshState fs demoText, ptrs⟩ sysOpen 0x00300000 0 0).bind fun r =>
          (Runs.run (placedStep plainMach) r.2 demoVisit).map fun p₁ =>
            (r.1, p₁.k.pid, procGetImage p₁.k.core.proc 3,
              validateBuffer p₁.k.core 0x00300100 4)) = some (3, 3, some visitorImage, false) := by
    decide +kernel
  obtain ⟨fs, hinit, hview⟩ := Option.bind_eq_some_iff.mp hview
  obtain ⟨ptrs, hptrs, hview⟩ := Option.bind_eq_some_iff.mp hview
  obtain ⟨⟨fd, p₀⟩, hopen, hview⟩ := Option.bind_eq_some_iff.mp hview
  obtain ⟨p₁, hrun, hview⟩ := Option.map_eq_some_iff.mp hview
  simp only [Prod.mk.injEq] at hview
  obtain ⟨rfl, hpid, himage, hinvalid⟩ := hview
  have hheap : heapInit 0x00180000 (some ⟨1, 0, 4096⟩) multibootMagic = plainHeap := by decide
  have hboot : Booted ⟨freshState fs demoText, ptrs⟩ := by
    refine ⟨⟨0x00180000, some ⟨1, 0, 4096⟩, multibootMagic, fsInit none, fun _ => 0, by decide,
      by decide, ?_, ?_⟩, fun _ => rfl, rfl⟩
    · rw [hheap]
      exact hinit
    · rw [hheap]
      exact hptrs
  have hkernel : (demoCore demoText).ring3.currentPid = 0 := by decide +kernel
  have hfirst : (freshState fs demoText).pid = 0 := by
    show toInt (demoCore demoText).ring3.currentPid = 0
    rw [hkernel]
    rfl
  refine ⟨_, p₀, p₁, ⟨⟨_, [], hboot, rfl⟩, hopen, by decide, hrun, ?_⟩, hfirst, hpid, himage, hinvalid⟩
  apply Runs.AllSteps.of_events
  intro e he p hclose
  simp only [demoVisit, List.mem_cons, List.not_mem_nil, or_false] at he
  rcases he with rfl | rfl | rfl | rfl
  · exact absurd hclose.1 (by decide)
  · exact hclose
  · exact hclose
  · exact absurd hclose.1 (by decide)

theorem descriptor_isolated_demo : ∃ p p₀ p₁ : Placed,
    Untouched plainMach p p₀ 3 demoVisit ∧
      (Runs.run (placedStep plainMach) p₀ (aloneRun plainMach p p₀ 3 demoVisit)).isSome ∧
      (∃ bs, FileHolds plainMach p.k 0x00300000 bs ∧ ReadsOn plainMach p p₀ p₁ 0 3 demoVisit bs) ∧
      Refuses plainMach p₁ 3 0x00300100 4 := by
  obtain ⟨p, p₀, p₁, h, hpid, hpid₁, -, -⟩ := openRun_demo
  obtain ⟨huntouched, hsame, hreads, hrefuses⟩ := descriptor_isolated h
  have hread : ¬WantsWrite 0 := by
    unfold WantsWrite
    decide
  have hroom : ∀ e ∈ demoVisit, ∀ p', HasRoom 3 p.k.pid p' e := by
    intro e he p'
    simp only [demoVisit, List.mem_cons, List.not_mem_nil, or_false] at he
    rcases he with rfl | rfl | rfl | rfl
    · exact fun hand => absurd hand.1 (by decide)
    · trivial
    · trivial
    · exact fun hand => absurd hand.1 (by decide)
  have hroom' : ∀ e ∈ aloneRun plainMach p p₀ 3 demoVisit, ∀ p', HasRoom 3 p.k.pid p' e := by
    intro e he p'
    obtain ⟨q, e', he', hmem⟩ := Runs.mem_observe he
    rcases mem_alone hmem with ⟨other, rfl⟩ | rfl
    · trivial
    · exact hroom _ he' p'
  refine ⟨p, p₀, p₁, huntouched, ?_, hreads hread, hrefuses ?_ _ _ _ (by decide)⟩
  · exact (hsame (.of_events hroom p₀) (.of_events hroom' p₀)).1
  · rw [hpid, hpid₁]
    decide

/-- A call of another process that gives an invalid pointer is told of the pointer. -/
theorem not_always_badf : ¬∀ mach p p₀ p₁ path flags a3 fd es,
    OpenRun mach p p₀ p₁ path flags a3 fd es → p₁.k.pid ≠ p.k.pid →
      ∀ num ∈ [sysRead, sysWrite, sysFstat, sysClose], ∀ a1 a2 a3, toInt a1 = fd →
        placedCall mach p₁ num a1 a2 a3 = some (errBadf, p₁) := by
  intro h
  obtain ⟨p, p₀, p₁, hrun, hpid, hpid₁, -, hinvalid⟩ := openRun_demo
  have hne : p₁.k.pid ≠ p.k.pid := by
    rw [hpid, hpid₁]
    decide
  have hbadf := h _ _ _ _ _ _ _ _ _ hrun hne sysRead (by decide) 3 0x00300100 4 (by decide)
  have hfault := (@OpenRun.refuses _ _ _ _ _ _ _ _ _ hrun hne 3 0x00300100 4 (by decide)).read
  rw [hinvalid, hbadf] at hfault
  have hcode : errBadf = errFault := congrArg Prod.fst (Option.some.inj hfault)
  exact absurd hcode (by decide)

end SlopOS.Proofs.SharedTable
