import SlopOS.Kernel.Util
import SlopOS.Support.SlotTable
/-!
# `proc.c`

The process table: two parallel arrays of 32 slots, the counter of used slots
and the generator of pids.
-/

namespace SlopOS.Kernel

open SlopOS.Support

abbrev maxProcs : Nat := 32

instance : NeZero maxProcs := ⟨by decide⟩

structure ProcTable where
  procs : Fin maxProcs → ProcessInfo
  images : Fin maxProcs → ProcImage
  used : Nat
  nextPid : Int

def ProcessInfo.key (p : ProcessInfo) : Option Int :=
  if p.state = .unused then none else some p.pid

namespace ProcTable

def findSlotByPid (t : ProcTable) (pid : Int) : Option (Fin maxProcs) :=
  SlotTable.indexOf ProcessInfo.key t.procs pid

def allocSlot (t : ProcTable) : Option (Fin maxProcs) :=
  SlotTable.firstFree ProcessInfo.key t.procs

/-- `procs[slot] = p`. -/
def setProc (t : ProcTable) (slot : Fin maxProcs) (p : ProcessInfo) : ProcTable :=
  { t with procs := Function.update t.procs slot p }

/-- `images[slot] = image`. -/
def setImage (t : ProcTable) (slot : Fin maxProcs) (image : ProcImage) : ProcTable :=
  { t with images := Function.update t.images slot image }

end ProcTable

def emptyProcess : ProcessInfo := ⟨-1, -1, .unused, 0, []⟩

/-- The image record every free or fresh slot is reset to. -/
def emptyImage : ProcImage := ⟨false, 0, 0, 0, 0, 0, none, .vga, false, {}⟩

def procInit : ProcTable :=
  { procs := Function.update (fun _ => emptyProcess) 0 ⟨0, -1, .running, 0, cstr "kmain"⟩
    images := fun _ => emptyImage
    used := 1
    nextPid := 1 }

/-- `proc_spawn_kernel`; a null name becomes `"kproc"`, and `none` stands for `-1`. -/
def procSpawnKernel (t : ProcTable) (name : Option CStr) (ppid : Int) :
    Option (Int × ProcTable) :=
  match t.allocSlot with
  | none => none
  | some slot =>
    let p : ProcessInfo :=
      ⟨t.nextPid, ppid, .ready, 0, strCopy (name.getD (cstr "kproc")) 16⟩
    some (t.nextPid,
      { (t.setProc slot p).setImage slot emptyImage with
        used := t.used + 1
        nextPid := t.nextPid + 1 })

def procExit (t : ProcTable) (pid code : Int) : ProcTable :=
  match t.findSlotByPid pid with
  | none => t
  | some slot => t.setProc slot { t.procs slot with state := .zombie, exitCode := code }

def procSetState (t : ProcTable) (pid : Int) (state : ProcState) : ProcTable :=
  match t.findSlotByPid pid with
  | none => t
  | some slot => t.setProc slot { t.procs slot with state := state }

def procStateOf (t : ProcTable) (pid : Int) : ProcState :=
  match t.findSlotByPid pid with
  | none => .unused
  | some slot => (t.procs slot).state

/-- `proc_bind_image`; a pid without a slot leaves the table as it is. -/
def procBindImage (t : ProcTable) (pid : Int) (image : ProcImage) : ProcTable :=
  match t.findSlotByPid pid with
  | none => t
  | some slot => t.setImage slot image

def procGetImage (t : ProcTable) (pid : Int) : Option ProcImage :=
  (t.findSlotByPid pid).map t.images

/-- The common end of `proc_wait` and `proc_reap_pid`: slot `slot` becomes free. -/
def procRelease (t : ProcTable) (slot : Fin maxProcs) : ProcTable :=
  { (t.setProc slot emptyProcess).setImage slot emptyImage with used := t.used - 1 }

/-- `proc_wait`: child pid and exit code of the first zombie child. -/
def procWait (t : ProcTable) (ppid : Int) : Option (Int × Int × ProcTable) :=
  match Fin.find? fun i => (t.procs i).state = .zombie ∧ (t.procs i).ppid = ppid with
  | none => none
  | some slot =>
    some ((t.procs slot).pid, (t.procs slot).exitCode, procRelease t slot)

/-- `proc_reap_pid`: the exit code of a zombie, and the table without it. -/
def procReapPid (t : ProcTable) (pid : Int) : Option (Int × ProcTable) :=
  match t.findSlotByPid pid with
  | none => none
  | some slot =>
    if (t.procs slot).state = .zombie then
      some ((t.procs slot).exitCode, procRelease t slot)
    else none

end SlopOS.Kernel
