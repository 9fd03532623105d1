import SlopOS.Kernel.Service
import SlopOS.Proofs.Tables
import SlopOS.Support.Runs
/-!
# Named services

The sixteen entries of `service.c` stand for a finite map from names to pids in
which only live pids count.  Processes come and go behind the table's back, and
an entry whose owner is dead stays in it until a lookup passes over it.
-/

namespace SlopOS.Proofs.ServiceTable

open SlopOS.Support SlopOS.Kernel SlopOS.Proofs.Tables

/-- The service table and the processes it asks about. -/
structure Registry where
  proc : ProcTable
  services : Services

inductive RegistryEvent
  | register (name : CStr) (pid : Int)
  | lookup (name : CStr)
  | spawn (name : Option CStr) (ppid : Int)
  | exit (pid code : Int)
  | reap (pid : Int)
  | wait (ppid : Int)

def registryInit : Registry := ⟨procInit, serviceInit⟩

/-- One call of `service.c` or `proc.c`; a call that fails leaves what it leaves. -/
def registryStep (r : Registry) : RegistryEvent → Option Registry
  | .register name pid =>
    some { r with services := (serviceRegister r.proc r.services name pid).getD r.services }
  | .lookup name => some { r with services := (serviceLookup r.proc r.services name).2 }
  | .spawn name ppid =>
    some { r with proc := ((procSpawnKernel r.proc name ppid).map Prod.snd).getD r.proc }
  | .exit pid code => some { r with proc := procExit r.proc pid code }
  | .reap pid => some { r with proc := ((procReapPid r.proc pid).map Prod.snd).getD r.proc }
  | .wait ppid =>
    some { r with proc := ((procWait r.proc ppid).map fun w => w.2.2).getD r.proc }

/-- The successful registrations of a run. -/
def registered (r : Registry) : RegistryEvent → List (CStr × Int)
  | .register name pid =>
    if (serviceRegister r.proc r.services name pid).isSome then [(name, pid)] else []
  | _ => []

/-- The abstract table: what each name was last registered for. -/
abbrev Bindings := CStr → Option Int

def bindings (log : List (CStr × Int)) : Bindings := fun name =>
  (log.reverse.find? fun reg => reg.1 = name).map Prod.snd

def bindingOf (proc : ProcTable) (bound : Bindings) (name : CStr) : Int :=
  match bound name with
  | none => -1
  | some pid => if procStateOf proc pid = .unused then -1 else pid

def NamesUnique (services : Services) : Prop :=
  ∀ i j, (services i).used = true → (services j).used = true →
    (services i).name = (services j).name → i = j

/-- Pids are taken in order, and none is in two slots. -/
structure ProcsOk (proc : ProcTable) : Prop where
  distinct : SlotTable.Distinct ProcessInfo.key proc.procs
  below : ∀ p, procPhase proc p ≠ .dead → p < proc.nextPid

/-- Entries say what was last registered, and live registrations have an entry. -/
structure Refines (r : Registry) (bound : Bindings) : Prop where
  procs : ProcsOk r.proc
  unique : NamesUnique r.services
  sound : ∀ i, (r.services i).used = true → bound (r.services i).name = some (r.services i).pid
  complete : ∀ name p, bound name = some p → procPhase r.proc p ≠ .dead →
    ∃ i, (r.services i).used = true ∧ (r.services i).name = name
  old : ∀ name p, bound name = some p → p < r.proc.nextPid
  named : bound [] = none

variable {r r' : Registry} {bound : Bindings} {proc proc' : ProcTable} {services : Services}
variable {name : CStr} {pid p : Int} {e : RegistryEvent}

/-! ## Processes -/

theorem procsOk_procInit : ProcsOk procInit where
  distinct := SlotTable.distinct_single (k := 0) 0 rfl rfl
  below p hp := by
    have hfind : procInit.findSlotByPid p = if p = 0 then some 0 else none :=
      SlotTable.indexOf_single 0 rfl rfl
    obtain ⟨slot, hslot⟩ := procPhase_ne_dead_iff.mp hp
    rw [hfind] at hslot
    split at hslot
    · rename_i h0
      rw [h0]
      exact (by decide : (0 : Int) < 1)
    · cases hslot

/-- What deaths do to a process table: no pid comes to life. -/
structure Fewer (proc proc' : ProcTable) : Prop where
  distinct : SlotTable.Distinct ProcessInfo.key proc'.procs
  next : proc'.nextPid = proc.nextPid
  live : ∀ p, procPhase proc' p ≠ .dead → procPhase proc p ≠ .dead

theorem Fewer.refl (h : ProcsOk proc) : Fewer proc proc := ⟨h.distinct, rfl, fun _ => id⟩

theorem Fewer.ok (h : Fewer proc proc') (hok : ProcsOk proc) : ProcsOk proc' := by
  refine ⟨h.distinct, fun p hp => ?_⟩
  rw [h.next]
  exact hok.below p (h.live p hp)

theorem live_procExit (pid code p : Int) :
    procPhase (procExit proc pid code) p = .dead ↔ procPhase proc p = .dead := by
  rw [procPhase_eq_dead_iff, procPhase_eq_dead_iff, find_procExit]

theorem fewer_procExit (h : ProcsOk proc) (pid code : Int) :
    Fewer proc (procExit proc pid code) :=
  ⟨distinct_procExit code h.distinct, nextPid_procExit code,
    fun p hp hdead => hp ((live_procExit pid code p).mpr hdead)⟩

theorem fewer_procRelease (h : ProcsOk proc) {slot : Fin maxProcs}
    (hslot : (proc.procs slot).state ≠ .unused) : Fewer proc (procRelease proc slot) := by
  have hkey : (proc.procs slot).key = some (proc.procs slot).pid := by
    simp [ProcessInfo.key, hslot]
  have hspec := procRelease_spec h.distinct (h.distinct.indexOf_eq_some.mpr hkey)
  refine ⟨hspec.distinct, hspec.next, fun p hp => ?_⟩
  rw [hspec.phase p] at hp
  split at hp
  · exact absurd rfl hp
  · exact hp

theorem fewer_procReapPid (h : ProcsOk proc) (pid : Int) :
    Fewer proc (((procReapPid proc pid).map Prod.snd).getD proc) := by
  unfold procReapPid
  split
  · exact Fewer.refl h
  · split
    · rename_i slot _ hzombie
      exact fewer_procRelease h (by rw [hzombie]; decide)
    · exact Fewer.refl h

theorem fewer_procWait (h : ProcsOk proc) (ppid : Int) :
    Fewer proc (((procWait proc ppid).map fun w => w.2.2).getD proc) := by
  unfold procWait
  split
  · exact Fewer.refl h
  · rename_i slot hslot
    have hzombie := (Fin.find?_eq_some_iff.mp hslot).1
    rw [decide_eq_true_eq] at hzombie
    exact fewer_procRelease h (by rw [hzombie.1]; decide)

/-! ## Scanning for a name -/

def Purged (proc : ProcTable) (services services' : Services) : Prop :=
  ∀ i, services' i = services i ∨
    (services' i = emptyService ∧ procPhase proc (services i).pid = .dead)

def LiveEntry (proc : ProcTable) (services : Services) (name : CStr) (i : Fin maxServices) : Prop :=
  (services i).used = true ∧ procPhase proc (services i).pid ≠ .dead ∧ (services i).name = name

theorem Purged.refl (proc : ProcTable) (services : Services) : Purged proc services services :=
  fun _ => Or.inl rfl

theorem purged_update {i : Fin maxServices} (hdead : procPhase proc (services i).pid = .dead) :
    Purged proc services (Function.update services i emptyService) := by
  intro j
  by_cases hj : j = i
  · subst hj
    rw [Function.update_self]
    exact Or.inr ⟨rfl, hdead⟩
  · rw [Function.update_of_ne hj]
    exact Or.inl rfl

theorem Purged.trans {services' services'' : Services} (h : Purged proc services services')
    (h' : Purged proc services' services'') : Purged proc services services'' := by
  intro i
  rcases h' i with hsame | ⟨hempty, hdead⟩
  · rw [hsame]
    exact h i
  · rcases h i with hsame | ⟨-, hdead'⟩
    · rw [hsame] at hdead
      exact Or.inr ⟨hempty, hdead⟩
    · exact Or.inr ⟨hempty, hdead'⟩

theorem liveEntry_purged {services' : Services} {i : Fin maxServices}
    (h : Purged proc services services') :
    LiveEntry proc services' name i ↔ LiveEntry proc services name i := by
  rcases h i with hsame | ⟨hempty, hdead⟩
  · unfold LiveEntry
    rw [hsame]
  · unfold LiveEntry
    rw [hempty, hdead]
    simp [emptyService]

/-- What a scan of the slots `is` for `name` returns, and what it leaves. -/
def ScanResult (proc : ProcTable) (name : CStr) (is : List (Fin maxServices)) (services : Services)
    (out : Int × Services) : Prop :=
  Purged proc services out.2 ∧
    ((∃ i ∈ is, LiveEntry proc services name i ∧ out.1 = (services i).pid) ∨
      out.1 = -1 ∧ ∀ i ∈ is, ¬LiveEntry proc services name i)

/-- An entry that is no live entry for `name` does not decide the scan. -/
theorem scanResult_skip {i : Fin maxServices} {is : List (Fin maxServices)}
    {services' : Services} {out : Int × Services} (hpurged : Purged proc services services')
    (hnot : ¬LiveEntry proc services name i) (h : ScanResult proc name is services' out) :
    ScanResult proc name (i :: is) services out := by
  obtain ⟨hrest, hresult⟩ := h
  refine ⟨hpurged.trans hrest, ?_⟩
  rcases hresult with ⟨j, hj, hlive, hpid⟩ | ⟨hnone, hall⟩
  · have hlive' := (liveEntry_purged hpurged).mp hlive
    refine Or.inl ⟨j, List.mem_cons_of_mem _ hj, hlive', ?_⟩
    rcases hpurged j with h | ⟨-, hdead⟩
    · rw [hpid, h]
    · exact absurd hdead hlive'.2.1
  · refine Or.inr ⟨hnone, fun j hj => ?_⟩
    rcases List.mem_cons.mp hj with rfl | hj
    · exact hnot
    · exact mt (liveEntry_purged hpurged).mpr (hall j hj)

theorem serviceScan_spec (is : List (Fin maxServices)) (services : Services) :
    ScanResult proc name is services (serviceScan proc name is services) := by
  induction is generalizing services with
  | nil => exact ⟨Purged.refl _ _, Or.inr ⟨rfl, fun i hi => absurd hi List.not_mem_nil⟩⟩
  | cons i is ih =>
      rw [serviceScan]
      split
      · rename_i hunused
        exact scanResult_skip (Purged.refl _ _) (fun hlive => hunused hlive.1) (ih services)
      rename_i hused
      split
      · rename_i hdead
        have hphase := procPhase_eq_dead_iff_unused.mpr hdead
        exact scanResult_skip (purged_update hphase) (fun hlive => hlive.2.1 hphase) (ih _)
      rename_i hlive
      split
      · rename_i hname
        simp only [strEq, decide_eq_true_eq] at hname
        refine ⟨Purged.refl _ _, Or.inl ⟨i, List.mem_cons_self, ⟨not_not.mp hused, ?_, hname⟩, rfl⟩⟩
        rwa [ne_eq, procPhase_eq_dead_iff_unused]
      · rename_i hname
        simp only [strEq, decide_eq_true_eq] at hname
        exact scanResult_skip (Purged.refl _ _) (fun hlive => hname hlive.2.2) (ih services)

theorem serviceLookup_spec (h : Refines r bound) (name : CStr) :
    (serviceLookup r.proc r.services name).1 = bindingOf r.proc bound name := by
  unfold serviceLookup bindingOf
  by_cases hempty : name = []
  · rw [if_pos hempty, hempty, h.named]
  rw [if_neg hempty]
  rcases (@serviceScan_spec r.proc name (List.finRange maxServices)
    r.services).2 with ⟨i, -, ⟨hused, hlive, hname⟩, hpid⟩ | ⟨hnone, hall⟩
  · have hbound := h.sound i hused
    rw [hname] at hbound
    rw [hpid, hbound]
    dsimp only
    rw [if_neg (mt procPhase_eq_dead_iff_unused.mpr hlive)]
  · rw [hnone]
    cases hbound : bound name with
    | none => rfl
    | some p =>
        dsimp only
        by_cases hdead : procStateOf r.proc p = .unused
        · rw [if_pos hdead]
        · have hlive := mt procPhase_eq_dead_iff_unused.mp hdead
          obtain ⟨i, hused, hname⟩ := h.complete name p hbound hlive
          have hpid := h.sound i hused
          rw [hname, hbound] at hpid
          rw [Option.some.inj hpid] at hlive
          exact absurd ⟨hused, hlive, hname⟩ (hall i (List.mem_finRange i))

/-! ## Steps -/

theorem refines_fewer (h : Refines r bound) (hp : Fewer r.proc proc') :
    Refines { r with proc := proc' } bound where
  procs := hp.ok h.procs
  unique := h.unique
  sound := h.sound
  complete name p hbound hlive := h.complete name p hbound (hp.live p hlive)
  old name p hbound := by
    have := h.old name p hbound
    rwa [← hp.next] at this
  named := h.named

theorem refines_purged {services' : Services} (h : Refines r bound)
    (hp : Purged r.proc r.services services') : Refines { r with services := services' } bound := by
  have hkept : ∀ i, (services' i).used = true → services' i = r.services i := by
    intro i hused
    rcases hp i with hsame | ⟨hempty, -⟩
    · exact hsame
    · rw [hempty] at hused
      cases hused
  refine ⟨h.procs, fun i j hi hj hij => ?_, fun i hi => ?_, fun name p hbound hlive => ?_,
    h.old, h.named⟩
  · dsimp only at hi hj hij
    have hsi := hkept i hi
    have hsj := hkept j hj
    rw [hsi] at hi hij
    rw [hsj] at hj hij
    exact h.unique i j hi hj hij
  · dsimp only at hi ⊢
    have hsi := hkept i hi
    rw [hsi] at hi ⊢
    exact h.sound i hi
  · obtain ⟨i, hused, hname⟩ := h.complete name p hbound hlive
    have hpid := h.sound i hused
    rw [hname, hbound] at hpid
    refine ⟨i, ?_⟩
    rcases hp i with hsame | ⟨-, hdead⟩
    · dsimp only
      rw [hsame]
      exact ⟨hused, hname⟩
    · rw [Option.some.inj hpid] at hlive
      exact absurd hdead hlive

theorem ProcsOk.spawned {name : Option CStr} {ppid : Int} (h : ProcsOk proc)
    (hspawn : procSpawnKernel proc name ppid = some (pid, proc')) : Spawned proc proc' := by
  have hfresh : proc.findSlotByPid proc.nextPid = none := by
    rw [← procPhase_eq_dead_iff]
    by_contra hlive
    exact absurd (h.below _ hlive) (Int.lt_irrefl _)
  exact procSpawnKernel_spec h.distinct hfresh hspawn

theorem ProcsOk.of_spawned (h : ProcsOk proc) (hproc : Spawned proc proc') : ProcsOk proc' where
  distinct := hproc.distinct
  below p hp := by
    rw [hproc.phase p] at hp
    rw [hproc.next]
    split at hp
    · omega
    · have hlt := h.below p hp
      omega

theorem refines_spawn {name : Option CStr} {ppid : Int} (h : Refines r bound) :
    Refines { r with proc := ((procSpawnKernel r.proc name ppid).map Prod.snd).getD r.proc }
      bound := by
  cases hspawn : procSpawnKernel r.proc name ppid with
  | none => exact h
  | some res =>
      obtain ⟨pid, proc'⟩ := res
      have hspec := h.procs.spawned hspawn
      -- the new pid is not one that a name was ever bound to
      have hlive : ∀ p, p < r.proc.nextPid → procPhase proc' p = procPhase r.proc p := by
        intro p hp
        rw [hspec.phase p, if_neg (by omega)]
      refine ⟨h.procs.of_spawned hspec, h.unique, h.sound, fun name p hbound hp => ?_,
        fun name p hbound => ?_, h.named⟩
      · simp only [Option.map_some, Option.getD_some] at hp
        rw [hlive p (h.old name p hbound)] at hp
        exact h.complete name p hbound hp
      · simp only [Option.map_some, Option.getD_some]
        have := h.old name p hbound
        rw [hspec.next]
        omega

theorem serviceRegister_guard {services' : Services}
    (hreg : serviceRegister proc services name pid = some services') :
    name ≠ [] ∧ procPhase proc pid ≠ .dead ∧ name.length ≤ serviceNameMax := by
  unfold serviceRegister at hreg
  split at hreg
  · cases hreg
  rename_i hguard
  split at hreg
  · cases hreg
  rename_i hchars
  simp only [not_or] at hguard hchars
  exact ⟨hguard.1, mt procPhase_eq_dead_iff_unused.mp hguard.2.2, Nat.not_lt.mp hchars.1⟩

/-- A successful registration writes one entry: the one that carries the name, or
a free one if none does. -/
theorem serviceRegister_spec {services' : Services}
    (hreg : serviceRegister proc services name pid = some services') :
    ∃ i, services' = Function.update services i ⟨true, pid, name⟩ ∧
      ((services i).used = true ∧ (services i).name = name ∨
        (services i).used = false ∧ ∀ j, (services j).used = true → (services j).name ≠ name) := by
  obtain ⟨-, -, hlen⟩ := serviceRegister_guard hreg
  unfold serviceRegister at hreg
  split at hreg
  · cases hreg
  split at hreg
  · cases hreg
  split at hreg
  · rename_i i hfind
    have hentry := (Fin.find?_eq_some_iff.mp hfind).1
    simp only [Bool.and_eq_true, strEq, decide_eq_true_eq] at hentry
    refine ⟨i, ?_, Or.inl hentry⟩
    rw [← Option.some.inj hreg, ← hentry.1, ← hentry.2]
  · rename_i hnone
    split at hreg
    · cases hreg
    · rename_i i hfree
      have hunused := (Fin.find?_eq_some_iff.mp hfree).1
      simp only [Bool.not_eq_true'] at hunused
      refine ⟨i, ?_, Or.inr ⟨hunused, fun j hj hname => ?_⟩⟩
      · rw [← Option.some.inj hreg, strCopy, List.take_of_length_le (by simpa using hlen)]
      · have hfail := Fin.find?_eq_none_iff.mp hnone j
        simp [hj, hname, strEq] at hfail

theorem refines_register {services' : Services} (h : Refines r bound)
    (hreg : serviceRegister r.proc r.services name pid = some services') :
    Refines { r with services := services' } (Function.update bound name (some pid)) := by
  obtain ⟨hne, hlive, -⟩ := serviceRegister_guard hreg
  obtain ⟨i, rfl, hslot⟩ := serviceRegister_spec hreg
  -- every other entry carries another name
  have hothers : ∀ j, j ≠ i → (r.services j).used = true → (r.services j).name ≠ name := by
    intro j hj hused hname
    rcases hslot with ⟨hi, hin⟩ | ⟨-, hfree⟩
    · exact hj (h.unique j i hused hi (hname.trans hin.symm))
    · exact hfree j hused hname
  refine ⟨h.procs, fun j k hj hk hjk => ?_, fun j hj => ?_, fun n p hbound hp => ?_,
    fun n p hbound => ?_, ?_⟩
  · by_cases hji : j = i
    · by_cases hki : k = i
      · rw [hji, hki]
      · subst hji
        simp only [Function.update_self, Function.update_of_ne hki] at hk hjk
        exact absurd hjk.symm (hothers k hki hk)
    · by_cases hki : k = i
      · subst hki
        simp only [Function.update_self, Function.update_of_ne hji] at hj hjk
        exact absurd hjk (hothers j hji hj)
      · simp only [Function.update_of_ne hji, Function.update_of_ne hki] at hj hk hjk
        exact h.unique j k hj hk hjk
  · by_cases hji : j = i
    · subst hji
      simp only [Function.update_self]
    · simp only [Function.update_of_ne hji] at hj ⊢
      rw [Function.update_of_ne (hothers j hji hj)]
      exact h.sound j hj
  · by_cases hn : n = name
    · exact ⟨i, by simp [hn]⟩
    · rw [Function.update_of_ne hn] at hbound
      obtain ⟨j, hused, hname⟩ := h.complete n p hbound hp
      have hji : j ≠ i := by
        rintro rfl
        rcases hslot with ⟨-, hin⟩ | ⟨hfree, -⟩
        · exact hn (hname.symm.trans hin)
        · rw [hfree] at hused
          cases hused
      refine ⟨j, ?_⟩
      dsimp only
      rw [Function.update_of_ne hji]
      exact ⟨hused, hname⟩
  · by_cases hn : n = name
    · rw [hn, Function.update_self] at hbound
      rw [← Option.some.inj hbound]
      exact h.procs.below pid hlive
    · rw [Function.update_of_ne hn] at hbound
      exact h.old n p hbound
  · rw [Function.update_of_ne (Ne.symm hne)]
    exact h.named

theorem bindings_append (log : List (CStr × Int)) (name : CStr) (pid : Int) :
    bindings (log ++ [(name, pid)]) = Function.update (bindings log) name (some pid) := by
  funext n
  unfold bindings
  rw [List.reverse_append, List.reverse_singleton, List.singleton_append]
  by_cases hn : n = name
  · subst hn
    rw [List.find?_cons_of_pos (by simp), Function.update_self]
    rfl
  · rw [List.find?_cons_of_neg (by simpa using Ne.symm hn), Function.update_of_ne hn]

theorem refines_step {log : List (CStr × Int)} (h : Refines r (bindings log))
    (hstep : registryStep r e = some r') : Refines r' (bindings (log ++ registered r e)) := by
  cases e with
  | register name pid =>
      obtain rfl := Option.some.inj hstep
      unfold registered
      dsimp only
      cases hreg : serviceRegister r.proc r.services name pid with
      | none =>
          rw [if_neg (by simp), List.append_nil]
          exact h
      | some services' =>
          rw [Option.isSome_some, if_pos rfl, bindings_append]
          exact refines_register h hreg
  | lookup name =>
      obtain rfl := Option.some.inj hstep
      unfold registered
      rw [List.append_nil]
      refine refines_purged h ?_
      unfold serviceLookup
      split
      · exact Purged.refl _ _
      · exact (serviceScan_spec _ _).1
  | spawn name ppid =>
      obtain rfl := Option.some.inj hstep
      unfold registered
      rw [List.append_nil]
      exact refines_spawn h
  | exit pid code =>
      obtain rfl := Option.some.inj hstep
      unfold registered
      rw [List.append_nil]
      exact refines_fewer h (fewer_procExit h.procs pid code)
  | reap pid =>
      obtain rfl := Option.some.inj hstep
      unfold registered
      rw [List.append_nil]
      exact refines_fewer h (fewer_procReapPid h.procs pid)
  | wait ppid =>
      obtain rfl := Option.some.inj hstep
      unfold registered
      rw [List.append_nil]
      exact refines_fewer h (fewer_procWait h.procs ppid)

theorem refines_init : Refines registryInit (bindings []) where
  procs := procsOk_procInit
  unique i j hi := by cases hi
  sound i hi := by cases hi
  complete name p hbound := by cases hbound
  old name p hbound := by cases hbound
  named := rfl

/-! ## Every run -/

/-- After a run with the successful registrations `log`: a lookup finds the last
registration if its owner lives, no two entries carry one name, and a registration
that fails leaves every binding. -/
structure Resolves (r : Registry) (log : List (CStr × Int)) : Prop where
  lookup : ∀ name, (serviceLookup r.proc r.services name).1 =
    bindingOf r.proc (bindings log) name
  unique : NamesUnique r.services
  failed : ∀ name pid r', serviceRegister r.proc r.services name pid = none →
    registryStep r (.register name pid) = some r' →
      ∀ n, (serviceLookup r'.proc r'.services n).1 = (serviceLookup r.proc r.services n).1

theorem resolves_run {es : List RegistryEvent} (hrun : Runs.run registryStep registryInit es = some r) :
    Resolves r (Runs.observe registryStep registered registryInit es) := by
  have h := Runs.observe_invariant (J := fun r log => Refines r (bindings log))
    (fun _ _ _ _ _ h hstep => refines_step h hstep)
    (Runs.AllSteps.trivial registryInit es) hrun refines_init
  rw [List.nil_append] at h
  refine ⟨serviceLookup_spec h, h.unique, fun name pid r' hfail hstep n => ?_⟩
  obtain rfl := Option.some.inj hstep
  rw [hfail]
  rfl

def demoServices : List RegistryEvent :=
  [.spawn none 0, .spawn none 0, .register (cstr "fs") 1, .exit 1 0, .reap 1,
    .register (cstr "fs") 2]

theorem resolves_demo : ∃ r, Runs.run registryStep registryInit demoServices = some r ∧
    Resolves r (Runs.observe registryStep registered registryInit demoServices) ∧
    (serviceLookup r.proc r.services (cstr "fs")).1 = 2 := by
  have hrun : (Runs.run registryStep registryInit demoServices).map
      (fun r => (serviceLookup r.proc r.services (cstr "fs")).1) = some 2 := by decide +kernel
  obtain ⟨r, hr, hlookup⟩ := Option.map_eq_some_iff.mp hrun
  exact ⟨r, hr, resolves_run hr, hlookup⟩

end SlopOS.Proofs.ServiceTable
