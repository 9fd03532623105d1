import SlopOS.Kernel.Ticks
/-!
# A launch without timer ticks

With `noTicks` the functions of `Ticks` are those of `Task`, `Elf` and `Exec`, so
that a launch is the `launch` event of `System`.
-/

namespace SlopOS.Proofs.TickFree

open SlopOS.Support SlopOS.Kernel SlopOS.Kernel.Ticks

variable {mach : Machine} {c : Core} {k : KState}

@[simp] theorem wait_noTicks (gap : Gap) (c : Core) : wait noTicks gap c = c := rfl

/-! ## `task.c` -/

theorem taskSpawnUser_noTicks (c : Core) (name : Option CStr) (ppid : Int) :
    Ticks.taskSpawnUser noTicks c name ppid =
      match Kernel.taskSpawnUser c name ppid with
      | none => (none, c)
      | some (pid, d) => (some pid, d) := by
  unfold Ticks.taskSpawnUser Kernel.taskSpawnUser taskSpawn
  cases c.task.allocSlot with
  | none => rfl
  | some slot =>
      simp only [wait_noTicks]
      cases procSpawnKernel c.proc name ppid with
      | none => rfl
      | some r => rfl

theorem demoteCurrent_noTicks (gap : Gap) (c : Core) (slot : Fin maxTasks) :
    Ticks.demoteCurrent noTicks gap c slot = Kernel.demoteCurrent c slot := by
  unfold Ticks.demoteCurrent Kernel.demoteCurrent
  cases hcur : c.task.currentIndex with
  | none => rfl
  | some cur =>
      simp only [wait_noTicks, hcur]

theorem taskSetRunning_noTicks (c : Core) (pid : Int) :
    taskSetRunning noTicks c pid = taskSetState c pid .running := by
  unfold taskSetRunning taskSetState
  cases c.task.findSlotByPid pid with
  | none => rfl
  | some slot =>
      simp only [wait_noTicks, demoteCurrent_noTicks, if_pos]

theorem taskReturnToKernelMain_noTicks (c : Core) :
    Ticks.taskReturnToKernelMain noTicks c = Kernel.taskReturnToKernelMain c := by
  unfold Ticks.taskReturnToKernelMain Kernel.taskReturnToKernelMain
  cases c.task.findSlotByPid 0 with
  | none => rfl
  | some slot =>
      simp only [wait_noTicks, demoteCurrent_noTicks]
      generalize Kernel.demoteCurrent c slot = d
      have hpid : ((d.task.setState slot .running).tasks slot).pid = (d.task.tasks slot).pid := by
        simp [TaskTable.setState, TaskTable.setTask]
      unfold makeCurrent
      rw [hpid]

theorem taskReapPid_noTicks (c : Core) (pid : Int) :
    Ticks.taskReapPid noTicks c pid = (Kernel.taskReapPid c pid).2 := by
  unfold Ticks.taskReapPid Kernel.taskReapPid
  cases c.task.findSlotByPid pid with
  | none => rfl
  | some slot => simp only [wait_noTicks, taskReturnToKernelMain_noTicks]

theorem exitAndReap_noTicks (c : Core) (pid code : Int) :
    Ticks.exitAndReap noTicks c pid code = Kernel.exitAndReap c pid code :=
  taskReapPid_noTicks _ pid

/-! ## `elf.c` -/

theorem takeFreeSlot_eq {w : Schedule} (pid : Int) (slots : List (Fin elfProcSlots))
    (h : ∀ i, wait w (.ownerAsked i) c = c) :
    takeFreeSlot w pid slots c =
      match slots.find? fun i => decide (c.elf.slotOwnerPid i < 0) ||
        decide (procStateOf c.proc (c.elf.slotOwnerPid i) = .unused) with
      | some i => (some i, setOwner c i pid)
      | none => (none, c) := by
  induction slots with
  | nil => rfl
  | cons i rest ih =>
      rw [takeFreeSlot, List.find?_cons]
      by_cases hneg : c.elf.slotOwnerPid i < 0
      · simp [hneg]
      by_cases hdead : procStateOf c.proc (c.elf.slotOwnerPid i) = .unused
      · simp [hneg, hdead, h]
      · simp [hneg, hdead, h, ih]

theorem find_finRange {n : Nat} (p : Fin n → Bool) : (List.finRange n).find? p = Fin.find? p := by
  cases hfind : Fin.find? p with
  | none =>
      rw [List.find?_eq_none]
      intro i _
      have hall := Fin.find?_eq_none_iff.mp hfind i
      simp [hall]
  | some i =>
      obtain ⟨hi, hbefore⟩ := Fin.find?_eq_some_iff.mp hfind
      rw [List.find?_eq_some_iff_getElem]
      refine ⟨hi, i.val, by simp, by simp, fun j hj => ?_⟩
      have hnot := hbefore ⟨j, by omega⟩ hj
      simp only [List.getElem_finRange, Bool.not_eq_true']
      exact hnot

theorem elfSlotForPid_noTicks (c : Core) (pid : Int) :
    Ticks.elfSlotForPid noTicks c pid = Kernel.elfSlotForPid c pid := by
  unfold Ticks.elfSlotForPid Kernel.elfSlotForPid
  cases Fin.find? fun i => decide (c.elf.slotOwnerPid i = pid) with
  | some i => rfl
  | none =>
      dsimp only
      rw [takeFreeSlot_eq pid _ fun _ => rfl, find_finRange]
      rfl

theorem loadSegments_trace (f : FileView) (segs : List ExecSegment) (m : ByteMem.Mem)
    (tr tr' : LoadTrace) :
    (loadSegments f m tr segs).1 = (loadSegments f m tr' segs).1 ∧
      (loadSegments f m tr segs).2.1 = (loadSegments f m tr' segs).2.1 := by
  induction segs generalizing m tr tr' with
  | nil => exact ⟨rfl, rfl⟩
  | cons seg segs ih =>
      rw [loadSegments, loadSegments]
      split
      · exact ⟨rfl, rfl⟩
      · exact ih _ _ _

theorem loadIntoSlot_eq (c : Core) (slot : Fin elfProcSlots) (plan : ExecLoadPlan)
    (file : FileView) (tr : LoadTrace) :
    loadIntoSlot mach c slot plan file =
      match loadSegments file (zeroWindow c.mem) tr plan.segments with
      | (false, m, _) => (none, { c with mem := m })
      | (true, m, _) =>
        (some ⟨true, plan.entry, plan.imageBase, plan.imageSize, mach.stackBase slot,
          BitVec.ofNat 32 elfStackSize, none, .vga, false, {}⟩, { c with mem := m }) := by
  obtain ⟨hok, hmem⟩ := loadSegments_trace file plan.segments (zeroWindow c.mem) ⟨[], []⟩ tr
  unfold loadIntoSlot
  rcases h : loadSegments file (zeroWindow c.mem) ⟨[], []⟩ plan.segments with ⟨ok, m, t⟩
  rcases h' : loadSegments file (zeroWindow c.mem) tr plan.segments with ⟨ok', m', t'⟩
  rw [h, h'] at hok hmem
  obtain rfl : ok = ok' := hok
  obtain rfl : m = m' := hmem
  cases ok <;> rfl

/-- The loader with ticks is the loader, run where its search for a slot ended. -/
theorem elfLoadFromPlan_eq {w : Schedule} {d : Core} {pid : Int} {plan : ExecLoadPlan}
    (file : FileView)
    (hslot : ∃ r e, Ticks.elfSlotForPid w c pid = (r, e) ∧ Kernel.elfSlotForPid d pid = (r, e))
    (hvalid : plan.valid ∧ 0 ≤ pid)
    (hin : imageOutsideWindow plan.imageBase plan.imageSize = false) :
    Ticks.elfLoadFromPlan w mach c pid plan file =
      ((Kernel.elfLoadFromPlan mach d pid plan file).image,
        (Kernel.elfLoadFromPlan mach d pid plan file).core) := by
  obtain ⟨r, e, hticks, hplain⟩ := hslot
  have hgood : ¬(¬plan.valid = true ∨ pid < 0) := by
    simp only [hvalid.1, not_true_eq_false, false_or]
    omega
  unfold Ticks.elfLoadFromPlan Kernel.elfLoadFromPlan
  rw [if_neg hgood, if_neg hgood, if_neg (by simp [hin]), if_neg (by simp [hin]), hticks, hplain]
  cases r with
  | none => rfl
  | some slot =>
      dsimp only
      rw [loadIntoSlot_eq e slot plan file ⟨[⟨elfUserImageBase, elfUserImageMax⟩], []⟩]
      rcases loadSegments file (zeroWindow e.mem) _ plan.segments with ⟨ok, m, tr⟩
      cases ok <;> rfl

theorem elfLoadFromPlan_noTicks (c : Core) (pid : Int) (plan : ExecLoadPlan) (file : FileView) :
    Ticks.elfLoadFromPlan noTicks mach c pid plan file =
      ((Kernel.elfLoadFromPlan mach c pid plan file).image,
        (Kernel.elfLoadFromPlan mach c pid plan file).core) := by
  by_cases hbad : ¬plan.valid ∨ pid < 0
  · unfold Ticks.elfLoadFromPlan Kernel.elfLoadFromPlan
    rw [if_pos hbad, if_pos hbad]
  cases hin : imageOutsideWindow plan.imageBase plan.imageSize with
  | true =>
      unfold Ticks.elfLoadFromPlan Kernel.elfLoadFromPlan
      rw [if_neg hbad, if_neg hbad, if_pos hin, if_pos hin]
  | false =>
      refine elfLoadFromPlan_eq file ⟨_, _, elfSlotForPid_noTicks c pid, rfl⟩ ?_ hin
      simpa only [not_or, not_not, Bool.not_eq_true, not_lt, Bool.not_eq_false] using hbad

/-! ## `exec.c` -/

theorem taskRunUserEnter_noTicks (k : KState) (pid argc : Int) (argv : Nat → Option CStr)
    (ctx : ExecContext) :
    Ticks.taskRunUserEnter noTicks k pid argc argv ctx =
      Kernel.taskRunUserEnter k pid argc argv ctx := by
  unfold Ticks.taskRunUserEnter Kernel.taskRunUserEnter
  cases procGetImage k.core.proc pid with
  | none => rfl
  | some image =>
      dsimp only
      rewrite [wait_noTicks, wait_noTicks, wait_noTicks, taskSetRunning_noTicks]
      split <;> rfl

def settled (r : Launch) : Sys := (r.finish noTicks).toSys .run

theorem execStart_noTicks (path : CStr) (argv : List CStr) (ctx : ExecContext) (ppid : Int)
    (file : FileView) (plan : ExecLoadPlan) :
    settled (Ticks.execStart noTicks mach k path argv ctx ppid file plan) =
      (Kernel.execStart mach k path argv ctx ppid file plan).toSys .run := by
  unfold Ticks.execStart Kernel.execStart
  rw [taskSpawnUser_noTicks]
  cases Kernel.taskSpawnUser k.core (some (execProgramNameFromPath path 16)) ppid with
  | none => rfl
  | some r =>
      obtain ⟨pid, c⟩ := r
      simp only [wait_noTicks, elfLoadFromPlan_noTicks, taskRunUserEnter_noTicks]
      cases (Kernel.elfLoadFromPlan mach c pid plan file).image with
      | none => exact congrArg (fun d => Sys.mk (k.setCore d) .shell) (exitAndReap_noTicks _ pid (-1))
      | some image =>
          dsimp only
          rcases Kernel.taskRunUserEnter (k.setCore _) pid argv.length (argv[·]?) ctx with ⟨ok, d⟩
          cases ok with
          | true => rfl
          | false =>
              exact congrArg (fun e => Sys.mk (d.setCore e) .shell) (exitAndReap_noTicks _ pid (-1))

theorem execRunElfPath_noTicks (path : CStr) (argv : List CStr) (ctx : ExecContext) :
    (Ticks.execRunElfPath noTicks mach k path argv ctx).map settled =
      (Kernel.execRunElfPath mach k path argv ctx).map (Entered.toSys .run) := by
  unfold Ticks.execRunElfPath Kernel.execRunElfPath
  have hset : k.setCore k.core = k := rfl
  simp only [wait_noTicks, hset]
  cases readForLoader mach k.files.fs (ctx.cwd.getD vfsRoot) path with
  | none => rfl
  | some r =>
      obtain ⟨file, fs⟩ := r
      cases file with
      | none => rfl
      | some file =>
          dsimp only
          cases readForLoader mach fs (ctx.cwd.getD vfsRoot) path with
          | none => rfl
          | some r =>
              obtain ⟨again, fs'⟩ := r
              dsimp only
              cases elfPrepareLoadPlanFromVfs again with
              | none => rfl
              | some plan => exact congrArg some (execStart_noTicks path argv ctx _ file plan)

theorem toSys_orFailed (r : Entered) (caller : Caller) : r.orFailed.toSys caller = r.toSys caller := by
  cases r <;> rfl

theorem execTry_noTicks (argv : List CStr) (ctx : ExecContext) (paths : List CStr) :
    (Ticks.execTry noTicks mach k argv ctx paths).map settled =
      (Kernel.execTry mach k argv ctx paths).map (Entered.toSys .run) := by
  induction paths generalizing k with
  | nil => rfl
  | cons path paths ih =>
      rw [Ticks.execTry, Kernel.execTry]
      cases execIsElfPath mach k.files.fs (ctx.cwd.getD vfsRoot) path with
      | none => rfl
      | some r =>
          obtain ⟨isElf, fs⟩ := r
          cases isElf with
          | false => exact ih
          | true =>
              dsimp only
              rw [execRunElfPath_noTicks path argv ctx, Option.map_map]
              exact congrArg (Option.map · _) (funext fun r => (toSys_orFailed r .run).symm)

/-- Without ticks `exec_run_path` leaves the system where the `launch` event does. -/
theorem execRunPath_noTicks (path : CStr) (argv : List CStr) (ctx : ExecContext) :
    (Ticks.execRunPath noTicks mach k path argv ctx).map settled =
      (Kernel.execRunPath mach k path argv ctx).map (Entered.toSys .run) := by
  unfold Ticks.execRunPath Kernel.execRunPath
  split
  · rfl
  split
  · rfl
  · exact execTry_noTicks argv ctx _

/-- With interrupts disabled a launch is the `launch` event of the system. -/
theorem clockedStep_off (b : Boot) (s : Sys) (path : CStr) (argv : List CStr) (cwd : NodeId)
    (output : ConsoleTarget) (w : Schedule) :
    clockedStep b ⟨s, false⟩ (.launch path argv cwd output w) =
      (step b s (.launch path argv cwd output)).map fun s' => ⟨s', false⟩ := by
  change Option.map (fun r => Clocked.mk (settled r) false) (launch b ⟨s, false⟩ path argv cwd
    output w) = _
  unfold launch step
  dsimp only
  cases s.ctl with
  | user pid caller => rfl
  | shell =>
      unfold shellStep
      dsimp only
      split
      · rfl
      · have hplain := congrArg (Option.map fun s' => Clocked.mk s' false)
          (@execRunPath_noTicks b.mach s.kernel path argv ⟨output, some cwd, b.mbi, b.magic⟩)
        rw [Option.map_map] at hplain
        exact hplain

end SlopOS.Proofs.TickFree
