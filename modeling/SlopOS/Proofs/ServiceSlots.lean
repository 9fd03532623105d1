import Mathlib.Data.Fintype.Card
import SlopOS.Proofs.ServiceTable
/-!
# Room for a name

`service_register` takes an entry that is not used, but an entry whose owner is dead stays used
until a lookup passes over it.  While the table has room, or only live owners, every valid name of
a live process gets an entry.
-/

namespace SlopOS.Proofs.ServiceSlots

open SlopOS.Support SlopOS.Kernel SlopOS.Proofs.Tables SlopOS.Proofs.ServiceTable

variable {r r' : Registry} {name : CStr} {pid : Int} {e : RegistryEvent}

def Live (r : Registry) (i : Fin maxServices) : Prop :=
  (r.services i).used = true ∧ procStateOf r.proc (r.services i).pid ≠ .unused

instance (r : Registry) (i : Fin maxServices) : Decidable (Live r i) :=
  inferInstanceAs (Decidable (_ ∧ _))

def liveNames (r : Registry) : Finset CStr :=
  (Finset.univ.filter (Live r)).image fun i => (r.services i).name

def ValidName (name : CStr) : Prop :=
  name ≠ [] ∧ name.length ≤ serviceNameMax ∧ name.all serviceChar = true

instance (name : CStr) : Decidable (ValidName name) := inferInstanceAs (Decidable (_ ∧ _))

/-- With fewer than sixteen names bound to live processes, a registration succeeds. -/
def Admits (r : Registry) : Prop :=
  (liveNames r).card < maxServices → ∀ name pid, ValidName name →
    procStateOf r.proc pid ≠ .unused → (serviceRegister r.proc r.services name pid).isSome = true

def Full (r : Registry) : Prop := ∀ i, (r.services i).used = true

instance (r : Registry) : Decidable (Full r) := inferInstanceAs (Decidable (∀ _, _))

/-- A registration takes the last free entry only if all other owners live, and no owner of an
entry leaves the process table while all entries are used. -/
def SparesLast (r : Registry) : RegistryEvent → Prop
  | .register name pid =>
    ValidName name → procStateOf r.proc pid ≠ .unused →
      (∀ i, (r.services i).used = true → (r.services i).name ≠ name) →
        ∀ i, (∀ j, j ≠ i → (r.services j).used = true) → ∀ j, j ≠ i → Live r j
  | .reap pid =>
    (procReapPid r.proc pid).isSome = true → Full r → ∀ i, (r.services i).pid ≠ pid
  | .wait ppid =>
    ∀ child ∈ procWait r.proc ppid, Full r → ∀ i, (r.services i).pid ≠ child.1
  | _ => True

instance (r : Registry) (e : RegistryEvent) : Decidable (SparesLast r e) := by
  cases e <;> unfold SparesLast <;> infer_instance

/-! ## Registering with a free entry -/

theorem serviceRegister_of_free (hvalid : ValidName name) (hpid : 0 ≤ pid)
    (hlive : procStateOf r.proc pid ≠ .unused) (hfree : ¬Full r) :
    (serviceRegister r.proc r.services name pid).isSome = true := by
  obtain ⟨hne, hlen, hchars⟩ := hvalid
  obtain ⟨i, hi⟩ := not_forall.mp hfree
  unfold serviceRegister
  rw [if_neg (by simp [hne, hlive, hpid]), if_neg (by simp [hchars, hlen])]
  split
  · rfl
  · split
    · rename_i hnone
      have hused := Fin.find?_eq_none_iff.mp hnone i
      simp [hi] at hused
    · rfl

theorem serviceRegister_valid {proc : ProcTable} {services services' : Services}
    (hreg : serviceRegister proc services name pid = some services') :
    ValidName name ∧ procStateOf proc pid ≠ .unused := by
  unfold serviceRegister at hreg
  split at hreg
  · cases hreg
  rename_i hguard
  split at hreg
  · cases hreg
  rename_i hchars
  simp only [not_or, not_not] at hguard hchars
  exact ⟨⟨hguard.1, Nat.not_lt.mp hchars.1, hchars.2⟩, hguard.2.2⟩

/-- In a full table every name has its own live entry, or an owner is dead. -/
theorem card_liveNames (hunique : NamesUnique r.services) (hall : ∀ i, Live r i) :
    (liveNames r).card = maxServices := by
  have hfilter : Finset.univ.filter (Live r) = Finset.univ :=
    Finset.filter_true_of_mem fun i _ => hall i
  unfold liveNames
  rw [hfilter, Finset.card_image_of_injective _ fun i j hij => hunique i j (hall i).1 (hall j).1 hij,
    Finset.card_univ, Fintype.card_fin]

/-! ## The invariant -/

structure Roomy (r : Registry) : Prop where
  bound : ∃ log, Refines r (bindings log)
  next : 0 ≤ r.proc.nextPid
  nonneg : ∀ p, procPhase r.proc p ≠ .dead → 0 ≤ p
  live : Full r → ∀ i, Live r i

theorem live_iff {i : Fin maxServices} :
    Live r i ↔ (r.services i).used = true ∧ procPhase r.proc (r.services i).pid ≠ .dead := by
  unfold Live
  rw [Ne, Ne, procPhase_eq_dead_iff_unused]

theorem Roomy.procs (h : Roomy r) : ProcsOk r.proc := by
  obtain ⟨log, hlog⟩ := h.bound
  exact hlog.procs

theorem Roomy.pid_lt (h : Roomy r) {i : Fin maxServices} (hused : (r.services i).used = true) :
    (r.services i).pid < r.proc.nextPid := by
  obtain ⟨log, hlog⟩ := h.bound
  exact hlog.old _ _ (hlog.sound i hused)

theorem Roomy.admits (h : Roomy r) : Admits r := by
  intro hcard name pid hvalid hlive
  apply serviceRegister_of_free hvalid (h.nonneg pid (mt procPhase_eq_dead_iff_unused.mp hlive))
    hlive
  intro hfull
  obtain ⟨log, hlog⟩ := h.bound
  have hsame := card_liveNames hlog.unique (h.live hfull)
  omega

/-! ## The steps -/

theorem Roomy.fewer {proc' : ProcTable} (h : Roomy r) (hp : Fewer r.proc proc')
    (hspared : Full r → ∀ i, procPhase r.proc (r.services i).pid ≠ .dead →
      procPhase proc' (r.services i).pid ≠ .dead) :
    Roomy { r with proc := proc' } where
  bound := by
    obtain ⟨log, hlog⟩ := h.bound
    exact ⟨log, refines_fewer hlog hp⟩
  next := hp.next ▸ h.next
  nonneg p hlive := h.nonneg p (hp.live p hlive)
  live hfull i := by
    obtain ⟨hused, hlive⟩ := live_iff.mp (h.live hfull i)
    exact live_iff.mpr ⟨hused, hspared hfull i hlive⟩

theorem Roomy.purged {services' : Services} (h : Roomy r)
    (hp : Purged r.proc r.services services') : Roomy { r with services := services' } where
  bound := by
    obtain ⟨log, hlog⟩ := h.bound
    exact ⟨log, refines_purged hlog hp⟩
  next := h.next
  nonneg := h.nonneg
  live hfull := by
    have hsame : services' = r.services := by
      funext i
      rcases hp i with hsame | ⟨hempty, -⟩
      · exact hsame
      · have hused : (services' i).used = true := hfull i
        rw [hempty] at hused
        cases hused
    rw [hsame] at hfull ⊢
    exact h.live hfull

theorem Roomy.spawn {name : Option CStr} {ppid pid : Int} {proc' : ProcTable} (h : Roomy r)
    (hspawn : procSpawnKernel r.proc name ppid = some (pid, proc')) :
    Roomy { r with proc := proc' } := by
  have hspec := h.procs.spawned hspawn
  have hnext := h.next
  refine ⟨?_, ?_, fun p hlive => ?_, fun hfull i => ?_⟩
  · obtain ⟨log, hlog⟩ := h.bound
    have hrefines : Refines { r with proc :=
        ((procSpawnKernel r.proc name ppid).map Prod.snd).getD r.proc } (bindings log) :=
      refines_spawn hlog
    rw [hspawn] at hrefines
    exact ⟨log, hrefines⟩
  · have hstep := hspec.next
    dsimp only
    omega
  · dsimp only at hlive
    rw [hspec.phase p] at hlive
    split at hlive
    · omega
    · exact h.nonneg p hlive
  · obtain ⟨hused, hlive⟩ := live_iff.mp (h.live hfull i)
    have hlt := h.pid_lt hused
    refine live_iff.mpr ⟨hused, ?_⟩
    dsimp only
    rw [hspec.phase, if_neg (by omega)]
    exact hlive

theorem Roomy.register {services' : Services} (h : Roomy r)
    (hreg : serviceRegister r.proc r.services name pid = some services')
    (hspared : SparesLast r (.register name pid)) : Roomy { r with services := services' } := by
  obtain ⟨log, hlog⟩ := h.bound
  obtain ⟨hvalid, hlive⟩ := serviceRegister_valid hreg
  have hpid := mt procPhase_eq_dead_iff_unused.mp hlive
  obtain ⟨i, rfl, hslot⟩ := serviceRegister_spec hreg
  have hothers : Full { r with services := Function.update r.services i ⟨true, pid, name⟩ } →
      ∀ j, j ≠ i → Live r j := by
    intro hfull
    have hrest : ∀ j, j ≠ i → (r.services j).used = true := by
      intro j hj
      have hused := hfull j
      dsimp only at hused
      rwa [Function.update_of_ne hj] at hused
    rcases hslot with ⟨hused, -⟩ | ⟨-, hnamed⟩
    · intro j _
      apply h.live
      intro k
      by_cases hk : k = i
      · rw [hk]
        exact hused
      · exact hrest k hk
    · exact hspared hvalid hlive hnamed i hrest
  refine ⟨⟨log ++ [(name, pid)], ?_⟩, h.next, h.nonneg, fun hfull j => live_iff.mpr ?_⟩
  · rw [bindings_append]
    exact refines_register hlog hreg
  · by_cases hj : j = i
    · subst hj
      simpa using hpid
    · have hlive := live_iff.mp (hothers hfull j hj)
      simpa [Function.update_of_ne hj] using hlive

theorem phase_procRelease {slot : Fin maxProcs} (h : Roomy r)
    (hslot : (r.proc.procs slot).state ≠ .unused) (p : Int) :
    procPhase (procRelease r.proc slot) p =
      if p = (r.proc.procs slot).pid then .dead else procPhase r.proc p := by
  have hkey : (r.proc.procs slot).key = some (r.proc.procs slot).pid := by
    simp [ProcessInfo.key, hslot]
  have hspec := procRelease_spec h.procs.distinct (h.procs.distinct.indexOf_eq_some.mpr hkey)
  exact hspec.phase p

theorem Roomy.reap (h : Roomy r) (hspared : SparesLast r (.reap pid)) :
    Roomy { r with proc := ((procReapPid r.proc pid).map Prod.snd).getD r.proc } := by
  apply h.fewer (fewer_procReapPid h.procs pid)
  intro hfull i hlive
  dsimp only [SparesLast] at hspared
  unfold procReapPid at hspared ⊢
  split
  · exact hlive
  rename_i slot hfind
  split
  · rename_i hzombie
    rw [hfind] at hspared
    dsimp only at hspared
    rw [if_pos hzombie] at hspared
    have hkey := procKey_eq_some.mp (procKey_of_find hfind)
    have hne := hspared rfl hfull i
    rw [← hkey.2] at hne
    rw [Option.map_some, Option.getD_some, phase_procRelease h hkey.1, if_neg hne]
    exact hlive
  · exact hlive

theorem Roomy.wait {ppid : Int} (h : Roomy r) (hspared : SparesLast r (.wait ppid)) :
    Roomy { r with proc := ((procWait r.proc ppid).map fun w => w.2.2).getD r.proc } := by
  apply h.fewer (fewer_procWait h.procs ppid)
  intro hfull i hlive
  dsimp only [SparesLast] at hspared
  unfold procWait at hspared ⊢
  split
  · exact hlive
  rename_i slot hslot
  have hchild := (Fin.find?_eq_some_iff.mp hslot).1
  rw [decide_eq_true_eq] at hchild
  rw [hslot] at hspared
  have hne := hspared _ rfl hfull i
  rw [Option.map_some, Option.getD_some, phase_procRelease h (by rw [hchild.1]; decide), if_neg hne]
  exact hlive

theorem roomy_step (hspared : SparesLast r e) (h : Roomy r) (hstep : registryStep r e = some r') :
    Roomy r' := by
  cases e with
  | register name pid =>
      obtain rfl := Option.some.inj hstep
      cases hreg : serviceRegister r.proc r.services name pid with
      | none => exact h
      | some services' => exact h.register hreg hspared
  | lookup name =>
      obtain rfl := Option.some.inj hstep
      apply h.purged
      unfold serviceLookup
      split
      · exact Purged.refl _ _
      · exact (serviceScan_spec _ _).1
  | spawn name ppid =>
      obtain rfl := Option.some.inj hstep
      cases hspawn : procSpawnKernel r.proc name ppid with
      | none => exact h
      | some s => exact h.spawn hspawn
  | exit pid code =>
      obtain rfl := Option.some.inj hstep
      apply h.fewer (fewer_procExit h.procs pid code)
      intro _ i hlive
      rwa [Ne, live_procExit]
  | reap pid =>
      obtain rfl := Option.some.inj hstep
      exact h.reap hspared
  | wait ppid =>
      obtain rfl := Option.some.inj hstep
      exact h.wait hspared

theorem roomy_init : Roomy registryInit where
  bound := ⟨[], refines_init⟩
  next := by decide
  nonneg p hlive := by
    have hfind : procInit.findSlotByPid p = if p = 0 then some 0 else none :=
      SlotTable.indexOf_single 0 rfl rfl
    obtain ⟨slot, hslot⟩ := procPhase_ne_dead_iff.mp hlive
    have hslot' : procInit.findSlotByPid p = some slot := hslot
    rw [hfind] at hslot'
    split at hslot'
    · omega
    · cases hslot'
  live hfull := by
    have hused : false = true := hfull 0
    cases hused

/-! ## Without room -/

def letters : Finset CStr := (Finset.range 26).image fun k => [chr 'a' + BitVec.ofNat 8 k]

theorem validName_of_letter (hname : name ∈ letters) : ValidName name := by
  have hall : ∀ name ∈ letters, name ≠ [] ∧ name.length ≤ serviceNameMax ∧
      name.all serviceChar = true := by decide +kernel
  exact hall name hname

theorem exists_letter (r : Registry) : ∃ name ∈ letters, ∀ i, (r.services i).name ≠ name := by
  have hletters : letters.card = 26 := by decide +kernel
  have hnames : (Finset.univ.image fun i => (r.services i).name).card ≤ maxServices := by
    have hle := Finset.card_image_le (s := Finset.univ) (f := fun i => (r.services i).name)
    rwa [Finset.card_univ, Fintype.card_fin] at hle
  have hfew : (Finset.univ.image fun i => (r.services i).name).card < letters.card := by
    rw [hletters]
    exact Nat.lt_of_le_of_lt hnames (by decide)
  obtain ⟨name, hname, hnot⟩ := Finset.exists_mem_notMem_of_card_lt_card hfew
  refine ⟨name, hname, fun i hi => hnot ?_⟩
  exact Finset.mem_image.mpr ⟨i, Finset.mem_univ i, hi⟩

theorem serviceRegister_of_full (hfull : Full r) (hname : ∀ i, (r.services i).name ≠ name) :
    serviceRegister r.proc r.services name pid = none := by
  unfold serviceRegister
  split
  · rfl
  split
  · rfl
  split
  · rename_i i hfind
    have hentry := (Fin.find?_eq_some_iff.mp hfind).1
    simp only [Bool.and_eq_true, strEq, decide_eq_true_eq] at hentry
    exact absurd hentry.2 (hname i)
  · split
    · rfl
    · rename_i i hfind
      have hentry := (Fin.find?_eq_some_iff.mp hfind).1
      rw [hfull i] at hentry
      cases hentry

theorem not_admits_of_dead {i : Fin maxServices} (hfull : Full r) (hdead : ¬Live r i)
    (hpid : procStateOf r.proc pid ≠ .unused) : ¬Admits r := by
  intro hadmits
  obtain ⟨name, hname, hnot⟩ := exists_letter r
  have hfew : (Finset.univ.filter (Live r)).card < (Finset.univ : Finset (Fin maxServices)).card :=
    Finset.card_lt_card ((Finset.filter_ssubset).mpr ⟨i, Finset.mem_univ i, hdead⟩)
  rw [Finset.card_univ, Fintype.card_fin] at hfew
  have hcard : (liveNames r).card < maxServices := Nat.lt_of_le_of_lt Finset.card_image_le hfew
  have hsome := hadmits hcard name pid (validName_of_letter hname) hpid
  rw [serviceRegister_of_full hfull hnot] at hsome
  cases hsome

/-- A step that is not spared leaves a full table with a dead owner. -/
theorem exists_dead_of_not_spares (h : Roomy r) (hstep : registryStep r e = some r')
    (hnot : ¬SparesLast r e) : Full r' ∧ ∃ i, ¬Live r' i := by
  cases e with
  | register name pid =>
      obtain rfl := Option.some.inj hstep
      dsimp only [SparesLast] at hnot
      push Not at hnot
      obtain ⟨hvalid, hlive, hnamed, i, hrest, j, hji, hdead⟩ := hnot
      have hfree : ¬Full r := fun hfull => hdead (h.live hfull j)
      have hpid := h.nonneg pid (mt procPhase_eq_dead_iff_unused.mp hlive)
      obtain ⟨services', hreg⟩ := Option.isSome_iff_exists.mp
        (serviceRegister_of_free hvalid hpid hlive hfree)
      obtain ⟨k, rfl, hslot⟩ := serviceRegister_spec hreg
      have hk : k = i := by
        by_contra hne
        rcases hslot with ⟨hused, hname⟩ | ⟨hunused, -⟩
        · exact hnamed k hused hname
        · rw [hrest k hne] at hunused
          cases hunused
      subst hk
      rw [hreg, Option.getD_some]
      refine ⟨fun l => ?_, j, ?_⟩
      · by_cases hl : l = k
        · simp [hl]
        · simpa [Function.update_of_ne hl] using hrest l hl
      · rw [live_iff] at hdead ⊢
        simpa [Function.update_of_ne hji] using hdead
  | lookup name => exact absurd trivial hnot
  | spawn name ppid => exact absurd trivial hnot
  | exit pid code => exact absurd trivial hnot
  | reap pid =>
      obtain rfl := Option.some.inj hstep
      dsimp only [SparesLast] at hnot
      push Not at hnot
      obtain ⟨hreaped, hfull, i, hi⟩ := hnot
      refine ⟨hfull, i, fun hlive => (live_iff.mp hlive).2 ?_⟩
      unfold procReapPid at hreaped ⊢
      cases hfind : r.proc.findSlotByPid pid with
      | none =>
          rw [hfind] at hreaped
          cases hreaped
      | some slot =>
          have hkey := procKey_eq_some.mp (procKey_of_find hfind)
          rw [hfind] at hreaped
          dsimp only at hreaped ⊢
          split at hreaped
          · rename_i hzombie
            rw [if_pos hzombie, Option.map_some, Option.getD_some, phase_procRelease h hkey.1,
              if_pos (hi.trans hkey.2.symm)]
          · cases hreaped
  | wait ppid =>
      obtain rfl := Option.some.inj hstep
      dsimp only [SparesLast] at hnot
      push Not at hnot
      obtain ⟨child, hchild, hfull, i, hi⟩ := hnot
      refine ⟨hfull, i, fun hlive => (live_iff.mp hlive).2 ?_⟩
      unfold procWait at hchild ⊢
      split at hchild
      · cases hchild
      rename_i slot hslot
      have hzombie := (Fin.find?_eq_some_iff.mp hslot).1
      rw [decide_eq_true_eq] at hzombie
      cases hchild
      dsimp only [Option.map_some, Option.getD_some] at hi ⊢
      rw [phase_procRelease h (by rw [hzombie.1]; decide), if_pos hi]

/-! ## Every run -/

theorem roomy_run {es : List RegistryEvent}
    (hspared : Runs.AllSteps registryStep SparesLast registryInit es)
    (hrun : Runs.run registryStep registryInit es = some r) : Roomy r :=
  Runs.invariant (fun _ _ _ hspared h hstep => roomy_step hspared h hstep) hspared hrun roomy_init

/-- As long as no step wastes the last entry on a dead owner, there is room. -/
theorem admits_run {es : List RegistryEvent}
    (hspared : Runs.AllSteps registryStep SparesLast registryInit es)
    (hrun : Runs.run registryStep registryInit es = some r) : Admits r :=
  (roomy_run hspared hrun).admits

/-- While some process lives, the condition is exact: the first step that is not spared takes the
room away. -/
theorem admits_next_iff {es : List RegistryEvent}
    (hspared : Runs.AllSteps registryStep SparesLast registryInit es)
    (hrun : Runs.run registryStep registryInit es = some r) (hstep : registryStep r e = some r')
    (hpid : procStateOf r'.proc pid ≠ .unused) : Admits r' ↔ SparesLast r e := by
  have h := roomy_run hspared hrun
  constructor
  · intro hadmits
    by_contra hnot
    obtain ⟨hfull, i, hdead⟩ := exists_dead_of_not_spares h hstep hnot
    exact not_admits_of_dead hfull hdead hpid hadmits
  · intro hlast
    exact (roomy_step hlast h hstep).admits

theorem admits_demo : ∃ r, Runs.run registryStep registryInit demoServices = some r ∧ Admits r := by
  have hspared : Runs.AllSteps registryStep SparesLast registryInit demoServices := by
    decide +kernel
  obtain ⟨r, hr⟩ : ∃ r, Runs.run registryStep registryInit demoServices = some r := ⟨_, rfl⟩
  exact ⟨r, hr, admits_run hspared hr⟩

/-- Process 1 takes all sixteen entries and dies; then process 0 asks for one. -/
def wastefulRun : List RegistryEvent :=
  .spawn none 0 :: (List.range 16).map (fun k => .register [chr 'a' + BitVec.ofNat 8 k] 1) ++
    [.exit 1 0, .reap 1]

theorem not_admits_wasteful : ¬∀ es r, Runs.run registryStep registryInit es = some r → Admits r := by
  intro h
  have hrun : (Runs.run registryStep registryInit wastefulRun).map (fun r =>
      (decide ((liveNames r).card < maxServices), decide (procStateOf r.proc 0 ≠ .unused),
        (serviceRegister r.proc r.services (cstr "fs") 0).isSome)) = some (true, true, false) := by
    decide +kernel
  obtain ⟨r, hr, hfacts⟩ := Option.map_eq_some_iff.mp hrun
  simp only [Prod.mk.injEq, decide_eq_true_eq] at hfacts
  have hvalid : ValidName (cstr "fs") := ⟨by decide, by decide, by decide⟩
  have hsome := h wastefulRun r hr hfacts.1 (cstr "fs") 0 hvalid hfacts.2.1
  rw [hfacts.2.2] at hsome
  cases hsome

end SlopOS.Proofs.ServiceSlots
