import SlopOS.Proofs.Marks
/-!
# The entries of the two tables

What the tables hold about a pid besides its marks: parent, name, exit code,
phase and image.
-/

namespace SlopOS.Proofs.Entries

open SlopOS.Support SlopOS.Kernel
open SlopOS.Proofs.Tables SlopOS.Proofs.Scheduling SlopOS.Proofs.Marks

structure ProcEntry where
  ppid : Int
  phase : Phase
  exitCode : Int
  name : CStr
  image : ProcImage
deriving DecidableEq

structure TaskEntry where
  ppid : Int
  phase : Phase
  name : CStr
deriving DecidableEq

def procEntry (t : ProcTable) (pid : Int) : Option ProcEntry :=
  (t.findSlotByPid pid).map fun i =>
    ⟨(t.procs i).ppid, procStatePhase (t.procs i).state, (t.procs i).exitCode, (t.procs i).name,
      t.images i⟩

def taskEntry (t : TaskTable) (pid : Int) : Option TaskEntry :=
  (t.findSlotByPid pid).map fun i =>
    ⟨(t.tasks i).ppid, taskStatePhase (t.tasks i).state, (t.tasks i).name⟩

structure SameEntries (c c' : Core) (q : Int) : Prop where
  proc : procEntry c'.proc q = procEntry c.proc q
  task : taskEntry c'.task q = taskEntry c.task q

variable {c c' c'' d : Core} {pid q : Int}

theorem SameEntries.trans (h : SameEntries c c' q) (h' : SameEntries c' c'' q) :
    SameEntries c c'' q :=
  ⟨h'.proc.trans h.proc, h'.task.trans h.task⟩

/-! ## One table -/

section Tables

variable {t t' : ProcTable} {u u' : TaskTable} {name : Option CStr} {ppid : Int}

theorem procEntry_congr (hfind : t'.findSlotByPid q = t.findSlotByPid q)
    (hslot : ∀ i, t.findSlotByPid q = some i →
      t'.procs i = t.procs i ∧ t'.images i = t.images i) : procEntry t' q = procEntry t q := by
  unfold procEntry
  rw [hfind]
  cases hi : t.findSlotByPid q with
  | none => rfl
  | some i =>
      obtain ⟨hprocs, himages⟩ := hslot i hi
      simp only [Option.map_some, hprocs, himages]

theorem taskEntry_congr (hfind : u'.findSlotByPid q = u.findSlotByPid q)
    (hslot : ∀ i, u.findSlotByPid q = some i → u'.tasks i = u.tasks i) :
    taskEntry u' q = taskEntry u q := by
  unfold taskEntry
  rw [hfind]
  cases hi : u.findSlotByPid q with
  | none => rfl
  | some i => simp only [Option.map_some, hslot i hi]

theorem procEntry_unmark (t : ProcTable) (q : Int) :
    procEntry (unmarkProcs t) q = procEntry t q := by
  have hentry : ∀ i, (ProcEntry.mk ((unmarkProcs t).procs i).ppid
      (procStatePhase ((unmarkProcs t).procs i).state) ((unmarkProcs t).procs i).exitCode
      ((unmarkProcs t).procs i).name ((unmarkProcs t).images i)) =
      ⟨(t.procs i).ppid, procStatePhase (t.procs i).state, (t.procs i).exitCode,
        (t.procs i).name, t.images i⟩ := by
    intro i
    have hphase : procStatePhase ((unmarkProcs t).procs i).state = procStatePhase (t.procs i).state :=
      phase_unmarkProcess (t.procs i)
    rw [hphase]
    unfold unmarkProcs unmarkProcess
    dsimp only
    split <;> rfl
  unfold procEntry
  rw [find_unmarkProcs]
  simp only [hentry]

theorem taskEntry_unmark (u : TaskTable) (q : Int) : taskEntry (unmarkTasks u) q = taskEntry u q := by
  have hentry : ∀ i, (TaskEntry.mk ((unmarkTasks u).tasks i).ppid
      (taskStatePhase ((unmarkTasks u).tasks i).state) ((unmarkTasks u).tasks i).name) =
      ⟨(u.tasks i).ppid, taskStatePhase (u.tasks i).state, (u.tasks i).name⟩ := by
    intro i
    have hphase : taskStatePhase ((unmarkTasks u).tasks i).state = taskStatePhase (u.tasks i).state :=
      phase_unmarkTask (u.tasks i)
    rw [hphase]
    unfold unmarkTasks unmarkTask
    dsimp only
    split <;> rfl
  unfold taskEntry
  rw [find_unmarkTasks]
  simp only [hentry]

theorem procEntry_spawn (hfresh : t.findSlotByPid t.nextPid = none)
    (h : procSpawnKernel t name ppid = some (pid, t')) (hq : q ≠ pid) :
    procEntry t' q = procEntry t q := by
  unfold procSpawnKernel at h
  split at h
  · cases h
  rename_i slot hslot
  cases h
  have hfree : (t.procs slot).key = none := SlotTable.key_of_firstFree hslot
  refine procEntry_congr ((SlotTable.indexOf_update_fresh (k := t.nextPid) hfree rfl hfresh).trans
    (if_neg hq)) fun i hi => ?_
  have hne : i ≠ slot := by
    rintro rfl
    rw [procKey_of_find hi] at hfree
    cases hfree
  exact ⟨Function.update_of_ne hne _ _, Function.update_of_ne hne _ _⟩

theorem procEntry_bind (image : ProcImage) (hq : q ≠ pid) :
    procEntry (procBindImage t pid image) q = procEntry t q := by
  refine procEntry_congr (congrFun (find_procBindImage image) q) fun i hi => ?_
  unfold procBindImage
  cases hpid : t.findSlotByPid pid with
  | none => exact ⟨rfl, rfl⟩
  | some slot =>
      have hne : i ≠ slot := by
        rintro rfl
        exact hq (SlotTable.indexOf_inj hi hpid)
      exact ⟨rfl, Function.update_of_ne hne _ _⟩

theorem reapProc_exit (code : Int) {slot : Fin maxProcs} (h : t.findSlotByPid pid = some slot) :
    (reapProc (procExit t pid code) pid).procs = Function.update t.procs slot emptyProcess ∧
      (reapProc (procExit t pid code) pid).images = Function.update t.images slot emptyImage := by
  have hzombie : ((procExit t pid code).procs slot).state = .zombie := by
    simp [procExit_eq code h, ProcTable.setProc]
  have hfind : (procExit t pid code).findSlotByPid pid = some slot := by
    rw [find_procExit, h]
  have hreap : reapProc (procExit t pid code) pid = procRelease (procExit t pid code) slot := by
    unfold reapProc procReapPid
    rw [hfind]
    dsimp only
    rw [if_pos hzombie]
  rw [hreap, procExit_eq code h]
  exact ⟨Function.update_idem _ _ _, rfl⟩

theorem procEntry_removed (code : Int) (hd : SlotTable.Distinct ProcessInfo.key t.procs)
    (hlive : procPhase t pid ≠ .dead) (hq : q ≠ pid) :
    procEntry (reapProc (procExit t pid code) pid) q = procEntry t q := by
  obtain ⟨slot, h⟩ := procPhase_ne_dead_iff.mp hlive
  obtain ⟨hprocs, himages⟩ := reapProc_exit code h
  have hfind : (reapProc (procExit t pid code) pid).findSlotByPid q = t.findSlotByPid q := by
    unfold ProcTable.findSlotByPid
    rw [hprocs, SlotTable.indexOf_update_free hd (procKey_of_find h) rfl, if_neg hq]
  refine procEntry_congr hfind fun i hi => ?_
  have hne : i ≠ slot := by
    rintro rfl
    exact hq (SlotTable.indexOf_inj hi h)
  rw [hprocs, himages]
  exact ⟨Function.update_of_ne hne _ _, Function.update_of_ne hne _ _⟩

end Tables

/-! ## Both tables -/

theorem sameEntries_of_unmark (h : unmark c' = unmark c) : SameEntries c c' q := by
  refine ⟨?_, ?_⟩
  · rw [← procEntry_unmark, proc_of_unmark h, procEntry_unmark]
  · rw [← taskEntry_unmark, task_of_unmark h, taskEntry_unmark]

theorem sameEntries_of_tables (ht : c'.task = c.task) (hp : c'.proc = c.proc) :
    SameEntries c c' q := by
  refine ⟨?_, ?_⟩
  · rw [hp]
  · rw [ht]

theorem sameEntries_bind (image : ProcImage) (hq : q ≠ pid) :
    SameEntries c { c with proc := procBindImage c.proc pid image } q :=
  ⟨procEntry_bind image hq, rfl⟩

theorem sameEntries_spawn {dflt : CStr} {name : Option CStr} {ppid : Int} (hs : Synced c)
    (hzombie : ∀ p, procPhase c.proc p ≠ .zombie)
    (hfresh : procPhase c.proc c.proc.nextPid = .dead)
    (hspawn : taskSpawn dflt c name ppid = some (pid, d)) (hq : q ≠ pid) : SameEntries c d q := by
  have hborn := taskSpawn_spec hs hzombie hfresh hspawn
  unfold taskSpawn at hspawn
  split at hspawn
  · cases hspawn
  rename_i slot hslot
  split at hspawn
  · cases hspawn
  rename_i pid' proc hproc
  cases hspawn
  refine ⟨procEntry_spawn (procPhase_eq_dead_iff.mp hfresh) hproc hq,
    taskEntry_congr (hborn.find q hq) fun i hi => Function.update_of_ne ?_ _ _⟩
  rintro rfl
  have hstate := (Fin.find?_eq_some_iff.mp hslot).1
  have hocc := occupied_of_find hi
  have hnz : (c.task.tasks i).state ≠ .zombie := by
    intro hz
    apply hzombie q
    rw [← hs.sync, taskPhase_of_find hi, hz]
    rfl
  simp only [hocc.1, hnz, decide_false, Bool.or_false, Bool.false_eq_true] at hstate

theorem sameEntries_removed (code : Int) {slot : Fin maxTasks} (hs : Synced c)
    (hlive : procPhase c.proc pid ≠ .dead) (hfind : c.task.findSlotByPid pid = some slot)
    (hq : q ≠ pid) : SameEntries c (removed c pid code slot) q := by
  have hgone := removed_gone code hs hlive hfind
  refine ⟨procEntry_removed code hs.procs hlive hq,
    taskEntry_congr ((hgone.find q).trans (if_neg hq)) fun i hi => Function.update_of_ne ?_ _ _⟩
  rintro rfl
  exact hq (SlotTable.indexOf_inj hi hfind)

theorem entries_of_dead (hs : Synced c) (hdead : procPhase c.proc q = .dead) :
    procEntry c.proc q = none ∧ taskEntry c.task q = none := by
  have hproc := procPhase_eq_dead_iff.mp hdead
  have htask : c.task.findSlotByPid q = none := by
    by_contra hne
    obtain ⟨i, hi⟩ := Option.ne_none_iff_exists'.mp hne
    have hlive : taskPhase c.task q ≠ .dead := taskPhase_ne_dead_iff.mpr ⟨i, hi⟩
    rw [hs.sync] at hlive
    exact hlive hdead
  unfold procEntry taskEntry
  rw [hproc, htask]
  exact ⟨rfl, rfl⟩

end SlopOS.Proofs.Entries
