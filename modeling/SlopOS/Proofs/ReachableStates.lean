import SlopOS.Proofs.Moves
import SlopOS.Support.Runs
/-!
# The reachable states

The invariant `SysOk` holds when `kmain` reaches the shell loop, and so in every
state of every run.  The first consequence is what the system call interface
promises about user memory.
-/

namespace SlopOS.Proofs.ReachableStates

open SlopOS.Support SlopOS.Kernel
open SlopOS.Proofs.Tables SlopOS.Proofs.Mail SlopOS.Proofs.Scheduling
open SlopOS.Proofs.TableInvariant SlopOS.Proofs.UserPointers SlopOS.Proofs.SystemCalls
open SlopOS.Proofs.Views SlopOS.Proofs.Dispatch SlopOS.Proofs.Launching SlopOS.Proofs.Moves
open SlopOS.Proofs.ElfBounds (NoWrap loads)

/-- A state of the system at boot or after some events. -/
def Reachable (b : Boot) (s : Sys) : Prop :=
  ∃ s₀ es, kmain b = some s₀ ∧ Runs.run (step b) s₀ es = some s

/-! ## The tables at boot -/

theorem procPhase_procInit (q : Int) :
    procPhase procInit q = if q = 0 then .runnable else .dead := by
  have hfind : procInit.findSlotByPid q = if q = 0 then some 0 else none :=
    SlotTable.indexOf_single 0 rfl rfl
  unfold procPhase procStateOf
  rw [hfind]
  by_cases hq : q = 0
  · rw [if_pos hq, if_pos hq]
    rfl
  · rw [if_neg hq, if_neg hq]
    rfl

theorem find_taskingInit (q : Int) :
    taskingInit.findSlotByPid q = if q = 0 then some 0 else none :=
  SlotTable.indexOf_single 0 rfl rfl

theorem taskPhase_taskingInit (q : Int) :
    taskPhase taskingInit q = if q = 0 then .runnable else .dead := by
  unfold taskPhase
  rw [find_taskingInit]
  by_cases hq : q = 0
  · rw [if_pos hq, if_pos hq]
    rfl
  · rw [if_neg hq, if_neg hq]

theorem waiting_ipcInit (q : Int) : waiting ipcInit q = none := by
  rw [waiting_eq_none_iff]
  exact SlotTable.indexOf_const rfl q

theorem inbox_ipcInit (q : Int) : inbox ipcInit q = none := by
  have hfind : ipcInit.findSlot q = none := SlotTable.indexOf_const rfl q
  unfold inbox
  rw [hfind]
  rfl

theorem slotOf_elfInit (q : Int) : slotOf elfInit q = none := SlotTable.indexOf_const rfl q

/-- The tables as the three `init` functions leave them. -/
def bootCore (mach : Machine) : Core :=
  { task := taskingInit, proc := procInit, ipc := ipcInit, elf := elfInit,
    ring3 := ring3Init, mem := mach.ram }

theorem image_procInit {q : Int} {image : ProcImage} (h : procGetImage procInit q = some image) :
    image.loaded = false := by
  obtain ⟨slot, hslot⟩ := procPhase_ne_dead_iff.mp (live_of_procGetImage h)
  rw [procGetImage_of_find hslot] at h
  obtain rfl := Option.some.inj h
  rfl

theorem base_bootCore (mach : Machine) : Base mach (bootCore mach) where
  synced := {
    procs := SlotTable.distinct_single (k := 0) 0 rfl rfl
    tasks := SlotTable.distinct_single (k := 0) 0 rfl rfl
    sync := fun p => (taskPhase_taskingInit p).trans (procPhase_procInit p).symm }
  mail := ⟨SlotTable.distinct_const rfl, SlotTable.distinct_const rfl⟩
  owners := SlotTable.distinct_const rfl
  next := ⟨(by decide : (0 : Int) < 1), (by decide : (1 : Int) < 2 ^ 31)⟩
  pids p hp := by
    have hphase : procPhase (bootCore mach).proc p = _ := procPhase_procInit p
    rw [hphase] at hp
    split at hp
    · rename_i h0
      rw [h0]
      exact ⟨Int.le_refl 0, (by decide : (0 : Int) < 1)⟩
    · exact absurd rfl hp
  zombie p := by
    have hphase : procPhase (bootCore mach).proc p = _ := procPhase_procInit p
    rw [hphase]
    split <;> decide
  kernel := procPhase_procInit 0
  owner p hp := absurd (slotOf_elfInit p) hp
  loaded p image himg hl := by
    rw [image_procInit himg] at hl
    cases hl
  waiterPid p hp := absurd (waiting_ipcInit p) hp
  waiterImage p hp := absurd (waiting_ipcInit p) hp

theorem currentOk_bootCore (mach : Machine) : CurrentOk (bootCore mach) :=
  ⟨0, 0, rfl, find_taskingInit 0, procPhase_procInit 0⟩

/-- What is known of the tables until the first program is launched. -/
structure Booting (mach : Machine) (n : Int) (c : Core) : Prop where
  base : Base mach c
  current : CurrentOk c
  next : c.proc.nextPid ≤ n
  ipc : c.ipc = ipcInit
  phases : ∀ q, procPhase c.proc q ≠ .blocked
  loaded : ∀ q image, procGetImage c.proc q = some image → image.loaded = false

theorem Booting.spawn {mach : Machine} {n : Int} {c : Core} {name : Option CStr}
    (h : Booting mach n c) (hn : n < 2 ^ 31 - 1) :
    Booting mach (n + 1) (((taskSpawnKernel c name 0).map Prod.snd).getD c) := by
  have hnext := h.next
  cases hspawn : taskSpawnKernel c name 0 with
  | none => exact ⟨h.base, h.current, by simp only [Option.map_none, Option.getD_none]; omega,
      h.ipc, h.phases, h.loaded⟩
  | some r =>
      obtain ⟨pid, c'⟩ := r
      have hborn := taskSpawn_spec h.base.synced h.base.zombie h.base.fresh hspawn
      have hnew : Newborn mach True c pid c' :=
        newborn_of_born h.base h.current (by omega) hborn
      refine ⟨hnew.base, hnew.current, ?_, hborn.ipc.trans h.ipc, fun q => ?_,
        fun q image himg => ?_⟩
      · have hnext' := hborn.nextPid
        simp only [Option.map_some, Option.getD_some]
        omega
      · simp only [Option.map_some, Option.getD_some]
        rw [hborn.phase]
        split
        · decide
        · exact h.phases q
      · simp only [Option.map_some, Option.getD_some] at himg
        rw [hborn.image] at himg
        split at himg
        · obtain rfl := Option.some.inj himg
          rfl
        · exact h.loaded q image himg

theorem booting_bootCore (mach : Machine) : Booting mach 1 (bootCore mach) := by
  refine ⟨base_bootCore mach, currentOk_bootCore mach, Int.le_refl 1, rfl, fun q => ?_,
    fun _ _ himg => image_procInit himg⟩
  have hphase : procPhase (bootCore mach).proc q = _ := procPhase_procInit q
  rw [hphase]
  split <;> decide

theorem booting_coreInit (mach : Machine) : Booting mach 3 (coreInit mach) :=
  ((booting_bootCore mach).spawn (by decide)).spawn (by decide)

variable {b : Boot} {s s' : Sys} {e : Event} {es : List Event}

theorem kmain_spec (h : kmain b = some s) :
    Booting b.mach 3 s.kernel.core ∧ s.ctl = .shell ∧
      ∀ i, (s.kernel.files.fds i).used = false := by
  obtain ⟨fs, -, rfl⟩ := Option.map_eq_some_iff.mp h
  exact ⟨booting_coreInit b.mach, rfl, fun _ => rfl⟩

theorem sysOk_kmain (h : kmain b = some s) : SysOk b.mach s := by
  obtain ⟨hboot, hctl, -⟩ := kmain_spec h
  refine ⟨hboot.base, hboot.current, ?_⟩
  rw [hctl]
  trivial

/-! ## Every run -/

theorem sysOk_run (h : SysOk b.mach s) (hrun : Runs.run (step b) s es = some s') :
    SysOk b.mach s' :=
  Runs.invariant (I := SysOk b.mach) (fun _ _ _ _ hs hstep => (step_ok hs hstep).ok)
    (Runs.AllSteps.trivial s es) hrun h

theorem sysOk_of_reachable (h : Reachable b s) : SysOk b.mach s := by
  obtain ⟨s₀, es, hboot, hrun⟩ := h
  exact sysOk_run (sysOk_kmain hboot) hrun

/-! ## User memory at the system call interface -/

/-- In every reachable state with a process in Ring 3, and for every number and
arguments: the call touches only that process's memory, and a call whose buffers
lie in it is not refused. -/
theorem syscallEntry_userMemory {pid : Int} {caller : Caller} (hs : Reachable b s)
    (hctl : s.ctl = .user pid caller) (num a1 a2 a3 a4 a5 : U32) :
    ∃ image, procGetImage s.kernel.core.proc pid = some image ∧
      (∀ sp ∈ (syscallEntry b.mach s.kernel num a1 a2 a3 a4 a5).touched, sp.All (Own image)) ∧
      ((∀ buf ∈ userBuffers s.kernel.core.mem num a1 a2 a3, Within image buf.1 buf.2) →
        ∀ k', (syscallEntry b.mach s.kernel num a1 a2 a3 a4 a5).done ≠ some (errFault, k')) := by
  have hok := sysOk_of_reachable hs
  have hrun := hok.ctl
  rw [hctl] at hrun
  obtain ⟨image, sl, hown, -⟩ := ownerOk_of_running hok.base hrun.1
  have htouch := syscallEntry_touch hown num a1 a2 a3 a4 a5
  refine ⟨image, hown.found, htouch.touched, fun hall k' hdone => ?_⟩
  obtain ⟨buf, hmem, hout⟩ := htouch.fault k' hdone
  exact hout (hall buf hmem)

/-! ## A machine with one program

A CD with the single file `A.ELF`, whose image is one page at the window's base.
-/

def wordsBytes (ws : List U32) : Bytes :=
  ws.flatMap fun w => (List.range 4).map (ByteMem.byteOf w)

def demoElf : Bytes := wordsBytes
  [0x464C457F, 0x00010101, 0, 0, 0x00030002, 1, 0x00300000, 52, 0, 0, 0x00200034, 1, 0,
    1, 0, 0x00300000, 0, 84, 0x1000, 5, 0]

def dirRecord (name : Bytes) (lba size : U32) (flags : U8) : Bytes :=
  [BitVec.ofNat 8 (33 + name.length), 0] ++ wordsBytes [lba] ++ List.replicate 4 0 ++
    wordsBytes [size] ++ List.replicate 11 0 ++ [flags] ++ List.replicate 6 0 ++
    [BitVec.ofNat 8 name.length] ++ name

def demoSector (lba : U32) : Option Bytes :=
  if lba = 16 then
    some ([1] ++ cstr "CD001" ++ [1] ++ List.replicate 73 0 ++ wordsBytes [32] ++
      List.replicate 72 0 ++ dirRecord [0] 18 2048 2)
  else if lba = 18 then some (dirRecord (cstr "A.ELF") 20 84 0)
  else if lba = 20 then some demoElf
  else none

def demoBoot : Boot where
  mach :=
    { kernelEnd := 0x00180000
      userStacks := 0x00170000
      ram := fun _ => 0
      outside := fun _ => 0
      storageRead := fun _ lba => (demoSector lba).map fun bytes i => bytes.getD i 0
      stacks_above := by decide
      stacks_below := by decide }
  mbi := some ⟨1, 640, 31 * 1024⟩
  magic := multibootMagic
  cd0 := some 0
  keyboard := fun _ => 0

def demoPath : CStr := cstr "/mount/cdrom/a.elf"

def demoLaunch : Event := .launch demoPath [demoPath] 0 .vga

theorem demoElf_noWrap : NoWrap (fileView demoBoot.mach demoElf 84) := by
  have hloads : loads (fileView demoBoot.mach demoElf 84) =
      [⟨1, 0, 0x00300000, 84, 0x1000, 5⟩] := by decide +kernel
  have htable : (fileView demoBoot.mach demoElf 84).ehdr.ePhoff.toNat +
      elf32PhdrSize * (fileView demoBoot.mach demoElf 84).ehdr.ePhnum.toNat < 2 ^ 32 := by
    decide +kernel
  refine ⟨htable, fun p hp => ?_, fun p hp => ?_⟩
  · rw [hloads, List.mem_singleton] at hp
    subst hp
    decide
  · rw [hloads, List.mem_singleton] at hp
    subst hp
    decide

/-- Launching the program is safe, whatever the file system looks like. -/
theorem demoLaunch_safe (fs : Fs) (cwd : NodeId) : LaunchSafe demoBoot.mach fs cwd demoPath := by
  have hpaths : execCandidates demoPath = [demoPath] := by decide
  have hfile : ∀ heap bs heap', isoReadFileAlloc (demoBoot.mach.storageRead 0) heap
      (cstr "/a.elf") = some (some bs, heap') → bs = demoElf := by
    intro heap bs heap' h
    have hread : (isoReadFileAlloc (demoBoot.mach.storageRead 0)
        (heapInit demoBoot.mach.kernelEnd demoBoot.mbi demoBoot.magic) (cstr "/a.elf")).bind
          Prod.fst = some demoElf := by decide +kernel
    obtain ⟨⟨data, heap₀⟩, hdata, hbytes⟩ := Option.bind_eq_some_iff.mp hread
    have hdata' : data = some demoElf := hbytes
    rw [hdata'] at hdata
    exact isoReadFileAlloc_data h hdata
  intro p hp f hload _
  rw [hpaths, List.mem_singleton] at hp
  subst hp
  obtain ⟨heap, fs', hload⟩ := hload
  suffices hf : f = fileView demoBoot.mach demoElf 84 by
    rw [hf]
    exact demoElf_noWrap
  unfold readForLoader at hload
  split at hload
  · cases hload
  · rename_i data size fs'' hread
    cases hload
    have hsub : vfsMountSubpath (vfsCheckPath fs.tree cwd demoPath) = some (cstr "/a.elf") := by
      unfold vfsCheckPath
      rw [if_pos (by decide)]
      decide
    unfold vfsReadFile at hread
    dsimp only at hread
    rw [hsub] at hread
    obtain ⟨⟨bytes, heap'⟩, hmount, heq⟩ := Option.map_eq_some_iff.mp hread
    unfold fsReadFileFromMount at hmount
    split at hmount
    · cases hmount
      cases heq
    · cases bytes with
      | none => cases heq
      | some bs =>
          cases heq
          rw [hfile heap _ heap' hmount]
          rfl
  · cases hload

/-- The process executes up to an `int 0x80` with these two registers. -/
def demoCall (eax ebx : U32) (bytes : ByteMem.Mem) : List Event :=
  [.user { eax := eax, ebx := ebx, cs := 0x1B } bytes, .syscall]

def demoRun (es : List Event) : Option Sys :=
  (kmain demoBoot).bind fun s => Runs.run (step demoBoot) s es

theorem reachable_of_demoRun (h : demoRun es = some s) : Reachable demoBoot s := by
  obtain ⟨s₀, hboot, hrun⟩ := Option.bind_eq_some_iff.mp h
  exact ⟨s₀, es, hboot, hrun⟩

theorem exists_of_demoRun {α : Type} {f : Sys → α} {y : α} (h : (demoRun es).map f = some y) :
    ∃ s, demoRun es = some s ∧ f s = y :=
  Option.map_eq_some_iff.mp h

theorem fact_of_demoRun {α : Type} {f : Sys → α} {y : α} (hs : demoRun es = some s)
    (h : (demoRun es).map f = some y) : f s = y := by
  rw [hs] at h
  exact Option.some.inj h

/-- The call at a page boundary of the launched program. -/
theorem syscallEntry_userMemory_demo : ∃ (s : Sys) (image : ProcImage), s.ctl = .user 3 .run ∧
    procGetImage s.kernel.core.proc 3 = some image ∧
    (∀ sp ∈ (syscallEntry demoBoot.mach s.kernel sysIpcRecv 0x00300FE4 0 0 0 0).touched,
      sp.All (Own image)) ∧
    ((∀ buf ∈ userBuffers s.kernel.core.mem sysIpcRecv 0x00300FE4 0 0, Within image buf.1 buf.2) →
      ∀ k', (syscallEntry demoBoot.mach s.kernel sysIpcRecv 0x00300FE4 0 0 0 0).done ≠
        some (errFault, k')) := by
  have hrun : (demoRun [demoLaunch]).map Sys.ctl = some (.user 3 .run) := by decide +kernel
  obtain ⟨s, hs, hctl⟩ := exists_of_demoRun hrun
  obtain ⟨image, himg⟩ := syscallEntry_userMemory (reachable_of_demoRun hs) hctl
    sysIpcRecv 0x00300FE4 0 0 0 0
  exact ⟨s, image, hctl, himg⟩

end SlopOS.Proofs.ReachableStates
