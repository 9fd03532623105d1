import SlopOS.Kernel.Task
/-!
# What the process and task tables say about a pid

Both tables are read through a pid: its phase, and the image of its process.
Every operation on a table gets one lemma for each of these readings, so that
nothing later looks into a slot.
-/

namespace SlopOS.Proofs.Tables

open SlopOS.Support SlopOS.Kernel

/-- What matters about a state: whether the pid exists and whether it may run. -/
inductive Phase
  | dead | blocked | runnable | zombie
deriving DecidableEq

def procStatePhase : ProcState → Phase
  | .unused => .dead
  | .blocked => .blocked
  | .zombie => .zombie
  | _ => .runnable

def taskStatePhase : TaskState → Phase
  | .unused => .dead
  | .blocked => .blocked
  | .zombie => .zombie
  | _ => .runnable

def procPhase (t : ProcTable) (pid : Int) : Phase := procStatePhase (procStateOf t pid)

def taskPhase (t : TaskTable) (pid : Int) : Phase :=
  match t.findSlotByPid pid with
  | none => .dead
  | some slot => taskStatePhase (t.tasks slot).state

@[simp] theorem procStatePhase_eq_dead {st : ProcState} :
    procStatePhase st = .dead ↔ st = .unused := by
  cases st <;> simp [procStatePhase]

@[simp] theorem procStatePhase_eq_blocked {st : ProcState} :
    procStatePhase st = .blocked ↔ st = .blocked := by
  cases st <;> simp [procStatePhase]

@[simp] theorem taskStatePhase_eq_dead {st : TaskState} :
    taskStatePhase st = .dead ↔ st = .unused := by
  cases st <;> simp [taskStatePhase]

/-! ## Process table: slots -/

section Proc

variable {t : ProcTable} {pid q : Int} {slot : Fin maxProcs}

theorem procKey_of_find (h : t.findSlotByPid pid = some slot) :
    (t.procs slot).key = some pid :=
  SlotTable.key_of_indexOf h

theorem procKey_eq_some {p : ProcessInfo} :
    p.key = some pid ↔ p.state ≠ .unused ∧ p.pid = pid := by
  unfold ProcessInfo.key
  by_cases h : p.state = .unused <;> simp [h]

theorem procPhase_of_find (h : t.findSlotByPid pid = some slot) :
    procPhase t pid = procStatePhase (t.procs slot).state := by
  simp [procPhase, procStateOf, h]

theorem procPhase_of_find_none (h : t.findSlotByPid pid = none) : procPhase t pid = .dead := by
  simp [procPhase, procStateOf, h]

theorem procPhase_ne_dead_iff : procPhase t pid ≠ .dead ↔ ∃ slot, t.findSlotByPid pid = some slot := by
  cases h : t.findSlotByPid pid with
  | none => simp [procPhase_of_find_none h]
  | some slot =>
      have hkey := procKey_eq_some.mp (procKey_of_find h)
      simp [procPhase_of_find h, hkey.1]

theorem procPhase_eq_dead_iff : procPhase t pid = .dead ↔ t.findSlotByPid pid = none := by
  rw [← not_iff_not, ← ne_eq, procPhase_ne_dead_iff, ← Option.isSome_iff_exists,
    Option.isSome_iff_ne_none, ne_eq]

theorem procPhase_eq_dead_iff_unused : procPhase t pid = .dead ↔ procStateOf t pid = .unused := by
  simp [procPhase]

theorem procGetImage_of_find (h : t.findSlotByPid pid = some slot) :
    procGetImage t pid = some (t.images slot) := by
  simp [procGetImage, h]

theorem procGetImage_isSome_iff : (procGetImage t pid).isSome ↔ procPhase t pid ≠ .dead := by
  rw [procPhase_ne_dead_iff]
  simp [procGetImage, Option.isSome_iff_exists]

theorem live_of_procGetImage {image : ProcImage} (h : procGetImage t pid = some image) :
    procPhase t pid ≠ .dead :=
  procGetImage_isSome_iff.mp (by rw [h]; rfl)

theorem procStateOf_eq (t : ProcTable) (q : Int) : procStateOf t q =
    (SlotTable.readAt ProcessInfo.key t.procs t.procs q).elim .unused ProcessInfo.state := by
  change procStateOf t q = ((t.findSlotByPid q).map t.procs).elim _ _
  unfold procStateOf
  cases t.findSlotByPid q <;> rfl

theorem procGetImage_eq (t : ProcTable) (q : Int) :
    procGetImage t q = SlotTable.readAt ProcessInfo.key t.procs t.images q := rfl

theorem key_of_state {p : ProcessInfo} (h : t.findSlotByPid pid = some slot)
    (hstate : p.state ≠ .unused) (hpid : p.pid = (t.procs slot).pid) :
    p.key = (t.procs slot).key := by
  have hkey := procKey_eq_some.mp (procKey_of_find h)
  simp [ProcessInfo.key, hstate, hpid, hkey.1]

theorem find_setProc_same {p : ProcessInfo} (h : p.key = (t.procs slot).key) :
    (t.setProc slot p).findSlotByPid = t.findSlotByPid :=
  SlotTable.indexOf_update_same h

/-! ## Process table: changing a state -/

theorem find_procSetState {st : ProcState} (hst : st ≠ .unused) :
    (procSetState t pid st).findSlotByPid = t.findSlotByPid := by
  unfold procSetState
  split
  · rfl
  · rename_i slot h
    exact find_setProc_same (key_of_state h hst rfl)

theorem procs_procSetState {st : ProcState} (h : t.findSlotByPid pid = some slot) :
    procSetState t pid st = t.setProc slot { t.procs slot with state := st } := by
  simp [procSetState, h]

theorem procStateOf_procSetState {st : ProcState} (hst : st ≠ .unused)
    (hlive : procPhase t pid ≠ .dead) :
    procStateOf (procSetState t pid st) q = if q = pid then st else procStateOf t q := by
  obtain ⟨slot, h⟩ := procPhase_ne_dead_iff.mp hlive
  have hkey : ({ t.procs slot with state := st } : ProcessInfo).key = (t.procs slot).key :=
    key_of_state h hst rfl
  rw [procs_procSetState h, procStateOf_eq, procStateOf_eq]
  dsimp only [ProcTable.setProc]
  rw [SlotTable.readAt_same hkey h (SlotTable.update_off t.procs _), Function.update_self]
  split <;> rfl

theorem procPhase_procSetState {st : ProcState} (hst : st ≠ .unused) :
    procPhase (procSetState t pid st) q =
      if q = pid ∧ procPhase t pid ≠ .dead then procStatePhase st else procPhase t q := by
  by_cases hlive : procPhase t pid ≠ .dead
  · rw [procPhase, procStateOf_procSetState hst hlive, procPhase]
    by_cases hq : q = pid
    · rw [if_pos hq, if_pos ⟨hq, hlive⟩]
    · rw [if_neg hq, if_neg (fun h => hq h.1), procPhase]
  · have hnone := procPhase_eq_dead_iff.mp (not_not.mp hlive)
    rw [if_neg (fun h => hlive h.2), procSetState, hnone]

theorem procGetImage_procSetState {st : ProcState} (hst : st ≠ .unused) :
    procGetImage (procSetState t pid st) q = procGetImage t q := by
  have himages : (procSetState t pid st).images = t.images := by
    unfold procSetState
    split <;> rfl
  rw [procGetImage, procGetImage, find_procSetState hst, himages]

@[simp] theorem nextPid_procSetState (st : ProcState) :
    (procSetState t pid st).nextPid = t.nextPid := by
  unfold procSetState
  split <;> rfl

theorem distinct_procSetState {st : ProcState} (hst : st ≠ .unused)
    (hd : SlotTable.Distinct ProcessInfo.key t.procs) :
    SlotTable.Distinct ProcessInfo.key (procSetState t pid st).procs := by
  unfold procSetState
  split
  · exact hd
  · rename_i slot h
    exact hd.update_same (key_of_state h hst rfl)

/-! ## Process table: images -/

@[simp] theorem procs_procBindImage (image : ProcImage) :
    (procBindImage t pid image).procs = t.procs := by
  unfold procBindImage
  split <;> rfl

@[simp] theorem nextPid_procBindImage (image : ProcImage) :
    (procBindImage t pid image).nextPid = t.nextPid := by
  unfold procBindImage
  split <;> rfl

@[simp] theorem find_procBindImage (image : ProcImage) :
    (procBindImage t pid image).findSlotByPid = t.findSlotByPid := by
  unfold ProcTable.findSlotByPid
  rw [procs_procBindImage]

@[simp] theorem procPhase_procBindImage (image : ProcImage) :
    procPhase (procBindImage t pid image) q = procPhase t q := by
  unfold procPhase procStateOf
  rw [find_procBindImage, procs_procBindImage]

theorem procGetImage_procBindImage (image : ProcImage) :
    procGetImage (procBindImage t pid image) q =
      if q = pid ∧ procPhase t pid ≠ .dead then some image else procGetImage t q := by
  cases h : t.findSlotByPid pid with
  | none =>
      have hdead := procPhase_of_find_none h
      simp [procBindImage, h, hdead]
  | some slot =>
      have hlive : procPhase t pid ≠ .dead := procPhase_ne_dead_iff.mpr ⟨slot, h⟩
      have hbind : procBindImage t pid image = t.setImage slot image := by
        simp [procBindImage, h]
      rw [hbind, procGetImage_eq, procGetImage_eq]
      dsimp only [ProcTable.setImage]
      rw [SlotTable.readAt_vals h (SlotTable.update_off t.images _), Function.update_self]
      by_cases hq : q = pid
      · rw [if_pos hq, if_pos ⟨hq, hlive⟩]
      · rw [if_neg hq, if_neg (fun h => hq h.1)]

/-! ## Process table: birth and death -/

theorem procSpawnKernel_pid {name : Option CStr} {ppid pid : Int} {t' : ProcTable}
    (h : procSpawnKernel t name ppid = some (pid, t')) : pid = t.nextPid := by
  unfold procSpawnKernel at h
  split at h
  · cases h
  · cases h
    rfl

/-- What a spawn does to a table in which the next pid is still free. -/
structure Spawned (t t' : ProcTable) : Prop where
  next : t'.nextPid = t.nextPid + 1
  distinct : SlotTable.Distinct ProcessInfo.key t'.procs
  phase : ∀ q, procPhase t' q = if q = t.nextPid then .runnable else procPhase t q
  image : ∀ q, procGetImage t' q = if q = t.nextPid then some emptyImage else procGetImage t q

theorem procStateOf_spawn {name : Option CStr} {ppid : Int} {t' : ProcTable}
    (hfresh : t.findSlotByPid t.nextPid = none)
    (h : procSpawnKernel t name ppid = some (pid, t')) :
    procStateOf t' q = if q = pid then .ready else procStateOf t q := by
  unfold procSpawnKernel at h
  split at h
  · cases h
  rename_i slot hslot
  have hfree : (t.procs slot).key = none := SlotTable.key_of_firstFree hslot
  cases h
  rw [procStateOf_eq, procStateOf_eq]
  dsimp only [ProcTable.setProc, ProcTable.setImage]
  rw [SlotTable.readAt_fresh hfree rfl hfresh (SlotTable.update_off t.procs _),
    Function.update_self]
  split <;> rfl

theorem procSpawnKernel_spec {name : Option CStr} {ppid pid : Int} {t' : ProcTable}
    (hd : SlotTable.Distinct ProcessInfo.key t.procs)
    (hfresh : t.findSlotByPid t.nextPid = none)
    (h : procSpawnKernel t name ppid = some (pid, t')) : Spawned t t' := by
  have hstate := fun q => @procStateOf_spawn t pid q name ppid t' hfresh h
  obtain rfl := procSpawnKernel_pid h
  unfold procSpawnKernel at h
  split at h
  · cases h
  rename_i slot hslot
  have hfree : (t.procs slot).key = none := SlotTable.key_of_firstFree hslot
  cases h
  refine ⟨rfl, hd.update_fresh rfl hfresh, fun q => ?_, fun q => ?_⟩
  · rw [procPhase, hstate q, procPhase]
    split <;> rfl
  · rw [procGetImage_eq, procGetImage_eq]
    dsimp only [ProcTable.setProc, ProcTable.setImage]
    rw [SlotTable.readAt_fresh hfree rfl hfresh (SlotTable.update_off t.images _),
      Function.update_self]

structure Reaped (t : ProcTable) (pid : Int) (t' : ProcTable) : Prop where
  next : t'.nextPid = t.nextPid
  distinct : SlotTable.Distinct ProcessInfo.key t'.procs
  phase : ∀ q, procPhase t' q = if q = pid then .dead else procPhase t q
  image : ∀ q, procGetImage t' q = if q = pid then none else procGetImage t q

theorem procStateOf_free {t' : ProcTable} (hd : SlotTable.Distinct ProcessInfo.key t.procs)
    (h : t.findSlotByPid pid = some slot)
    (hprocs : t'.procs = Function.update t.procs slot emptyProcess) :
    procStateOf t' q = if q = pid then .unused else procStateOf t q := by
  rw [procStateOf_eq, procStateOf_eq, hprocs,
    SlotTable.readAt_free hd h rfl (SlotTable.update_off t.procs _)]
  split <;> rfl

theorem procRelease_spec (hd : SlotTable.Distinct ProcessInfo.key t.procs)
    (h : t.findSlotByPid pid = some slot) : Reaped t pid (procRelease t slot) := by
  refine ⟨rfl, hd.update_free rfl, fun q => ?_, fun q => ?_⟩
  · rw [procPhase, procStateOf_free hd h rfl, procPhase]
    split <;> rfl
  · rw [procGetImage_eq, procGetImage_eq]
    dsimp only [procRelease, ProcTable.setProc, ProcTable.setImage]
    exact SlotTable.readAt_free hd h rfl (SlotTable.update_off t.images _)

theorem procExit_eq (code : Int) (h : t.findSlotByPid pid = some slot) :
    procExit t pid code = t.setProc slot { t.procs slot with state := .zombie, exitCode := code } := by
  simp [procExit, h]

theorem key_exited (code : Int) (h : t.findSlotByPid pid = some slot) :
    ({ t.procs slot with state := .zombie, exitCode := code } : ProcessInfo).key =
      (t.procs slot).key :=
  key_of_state h ProcState.noConfusion rfl

theorem find_procExit (code : Int) : (procExit t pid code).findSlotByPid = t.findSlotByPid := by
  cases h : t.findSlotByPid pid with
  | none => rw [procExit, h]
  | some slot =>
      rw [procExit_eq code h]
      exact find_setProc_same (key_exited code h)

theorem distinct_procExit (code : Int) (hd : SlotTable.Distinct ProcessInfo.key t.procs) :
    SlotTable.Distinct ProcessInfo.key (procExit t pid code).procs := by
  cases h : t.findSlotByPid pid with
  | none =>
      rw [procExit, h]
      exact hd
  | some slot =>
      rw [procExit_eq code h]
      exact hd.update_same (key_exited code h)

theorem nextPid_procExit (code : Int) : (procExit t pid code).nextPid = t.nextPid := by
  unfold procExit
  split <;> rfl

theorem procPhase_procExit (code : Int) (hq : q ≠ pid) :
    procPhase (procExit t pid code) q = procPhase t q := by
  cases h : t.findSlotByPid pid with
  | none => rw [procExit, h]
  | some slot =>
      rw [procPhase, procPhase, procExit_eq code h, procStateOf_eq, procStateOf_eq]
      dsimp only [ProcTable.setProc]
      rw [SlotTable.readAt_same (key_exited code h) h (SlotTable.update_off t.procs _), if_neg hq]

theorem procGetImage_procExit (code : Int) :
    procGetImage (procExit t pid code) q = procGetImage t q := by
  have himages : (procExit t pid code).images = t.images := by
    unfold procExit
    split <;> rfl
  rw [procGetImage, procGetImage, find_procExit, himages]

/-- `proc_exit` and `proc_reap_pid` of a live pid take it out of the table. -/
theorem exit_reap_spec (code : Int) (hd : SlotTable.Distinct ProcessInfo.key t.procs)
    (hlive : procPhase t pid ≠ .dead) :
    ∃ r t', procReapPid (procExit t pid code) pid = some (r, t') ∧ Reaped t pid t' := by
  obtain ⟨slot, h⟩ := procPhase_ne_dead_iff.mp hlive
  have hfind : (procExit t pid code).findSlotByPid pid = some slot := by rw [find_procExit, h]
  have hspec := procRelease_spec (distinct_procExit code hd) hfind
  refine ⟨code, procRelease (procExit t pid code) slot, ?_, ?_⟩
  · have hzombie : ((procExit t pid code).procs slot).state = .zombie := by
      simp [procExit_eq code h, ProcTable.setProc]
    have hcode : ((procExit t pid code).procs slot).exitCode = code := by
      simp [procExit_eq code h, ProcTable.setProc]
    simp [procReapPid, hfind, hzombie, hcode]
  · refine ⟨?_, hspec.distinct, fun q => ?_, fun q => ?_⟩
    · rw [hspec.next, nextPid_procExit]
    · rw [hspec.phase q]
      by_cases hq : q = pid
      · simp [hq]
      · rw [if_neg hq, if_neg hq, procPhase_procExit code hq]
    · rw [hspec.image q, procGetImage_procExit]

end Proc

/-! ## Task table -/

section Task

variable {t : TaskTable} {pid q : Int} {slot : Fin maxTasks}

theorem taskKey_of_find (h : t.findSlotByPid pid = some slot) :
    (t.tasks slot).key = some pid :=
  SlotTable.key_of_indexOf h

theorem taskKey_eq_some {p : TaskInfo} : p.key = some pid ↔ p.state ≠ .unused ∧ p.pid = pid := by
  unfold TaskInfo.key
  by_cases h : p.state = .unused <;> simp [h]

theorem taskPhase_of_find (h : t.findSlotByPid pid = some slot) :
    taskPhase t pid = taskStatePhase (t.tasks slot).state := by
  simp [taskPhase, h]

theorem taskPhase_of_find_none (h : t.findSlotByPid pid = none) : taskPhase t pid = .dead := by
  simp [taskPhase, h]

theorem taskPhase_ne_dead_iff : taskPhase t pid ≠ .dead ↔ ∃ slot, t.findSlotByPid pid = some slot := by
  cases h : t.findSlotByPid pid with
  | none => simp [taskPhase_of_find_none h]
  | some slot =>
      have hkey := taskKey_eq_some.mp (taskKey_of_find h)
      simp [taskPhase_of_find h, hkey.1]

theorem find_setTask_same {info : TaskInfo} (h : info.key = (t.tasks slot).key) :
    (t.setTask slot info).findSlotByPid = t.findSlotByPid :=
  SlotTable.indexOf_update_same h

theorem taskPhase_setTask_same {info : TaskInfo} (h : info.key = (t.tasks slot).key) :
    taskPhase (t.setTask slot info) q =
      if t.findSlotByPid q = some slot then taskStatePhase info.state else taskPhase t q := by
  unfold taskPhase
  rw [find_setTask_same h]
  cases hq : t.findSlotByPid q with
  | none => simp
  | some slot' =>
      by_cases hs : slot' = slot
      · subst hs
        simp [TaskTable.setTask]
      · simp [TaskTable.setTask, hs]

theorem state_setState (slot i : Fin maxTasks) (st : TaskState) :
    ((t.setState slot st).tasks i).state = if i = slot then st else (t.tasks i).state := by
  by_cases hi : i = slot
  · simp [TaskTable.setState, TaskTable.setTask, hi]
  · simp [TaskTable.setState, TaskTable.setTask, hi]

theorem pid_setState (slot i : Fin maxTasks) (st : TaskState) :
    ((t.setState slot st).tasks i).pid = (t.tasks i).pid := by
  by_cases hi : i = slot
  · simp [TaskTable.setState, TaskTable.setTask, hi]
  · simp [TaskTable.setState, TaskTable.setTask, hi]

theorem key_setState {st : TaskState} (hst : st ≠ .unused)
    (hocc : (t.tasks slot).state ≠ .unused) :
    ({ t.tasks slot with state := st } : TaskInfo).key = (t.tasks slot).key := by
  simp [TaskInfo.key, hst, hocc]

theorem find_setState {st : TaskState} (hst : st ≠ .unused)
    (hocc : (t.tasks slot).state ≠ .unused) :
    (t.setState slot st).findSlotByPid = t.findSlotByPid :=
  find_setTask_same (key_setState hst hocc)

theorem taskPhase_setState {st : TaskState} (hst : st ≠ .unused)
    (hocc : (t.tasks slot).state ≠ .unused) :
    taskPhase (t.setState slot st) q =
      if t.findSlotByPid q = some slot then taskStatePhase st else taskPhase t q :=
  taskPhase_setTask_same (key_setState hst hocc)

theorem distinct_setState {st : TaskState} (hst : st ≠ .unused)
    (hocc : (t.tasks slot).state ≠ .unused)
    (hd : SlotTable.Distinct TaskInfo.key t.tasks) :
    SlotTable.Distinct TaskInfo.key (t.setState slot st).tasks :=
  hd.update_same (key_setState hst hocc)

end Task

end SlopOS.Proofs.Tables
