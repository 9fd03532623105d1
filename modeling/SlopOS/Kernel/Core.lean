import SlopOS.Kernel.Proc
/-!
# Process-side kernel state

The tables of `task.c`, `ipc.c` and `elf.c` next to the process table, the flat
memory that holds the user image window and the user stacks, and the variables
the Ring 3 transition keeps.  `Machine` collects what the linker and the
hardware fix once and for all.
-/

namespace SlopOS.Kernel

open SlopOS.Support

/-! ## Constants of the loader -/

def elfUserImageMax : Nat := 128 * 1024
def elfUserImageBase : U32 := 0x00300000
abbrev elfProcSlots : Nat := 8
def elfStackSize : Nat := 4096
def elfArgMax : Nat := 16

@[simp] theorem elfUserImageBase_toNat : elfUserImageBase.toNat = 0x00300000 := rfl

@[simp] theorem elfUserImageMax_eq : elfUserImageMax = 0x20000 := rfl

/-- What the 2048-byte sector buffer holds after a read; an index past it names
the memory behind the buffer. -/
abbrev Sector := Nat → U8

/-- Link-time addresses and the hardware.  The kernel is linked at 1 MiB and
ends below the reserved user window, so its stack array does too. -/
structure Machine where
  kernelEnd : U32
  userStacks : U32
  ram : U32 → U8
  outside : U32 → U8
  storageRead : Int → U32 → Option Sector
  stacks_above : 0x00100000 ≤ userStacks.toNat
  stacks_below : userStacks.toNat + elfProcSlots * elfStackSize ≤ 0x00300000

/-- `&user_stacks[slot][0]`. -/
def Machine.stackBase (mach : Machine) (slot : Fin elfProcSlots) : U32 :=
  mach.userStacks + BitVec.ofNat 32 (slot.val * elfStackSize)

/-! ## Task table -/

abbrev maxTasks : Nat := 32

instance : NeZero maxTasks := ⟨by decide⟩

structure TaskTable where
  tasks : Fin maxTasks → TaskInfo
  tasksUsed : Nat
  currentIndex : Option (Fin maxTasks)
  switches : Nat
  sliceTicks : Nat

def TaskInfo.key (t : TaskInfo) : Option Int :=
  if t.state = .unused then none else some t.pid

/-! ## Mailboxes and waiters -/

abbrev ipcMailboxMax : Nat := 32

structure IpcMailbox where
  used : Bool
  pid : Int
  hasMessage : Bool
  message : IpcMessage
deriving Repr, DecidableEq

structure IpcWaiter where
  active : Bool
  pid : Int
  userMsgPtr : U32
deriving Repr, DecidableEq

def IpcMailbox.key (b : IpcMailbox) : Option Int := if b.used then some b.pid else none

def IpcWaiter.key (w : IpcWaiter) : Option Int := if w.active then some w.pid else none

structure IpcTables where
  mailboxes : Fin ipcMailboxMax → IpcMailbox
  waiters : Fin ipcMailboxMax → IpcWaiter

/-! ## Image slots -/

/-- `slot_owner_pid` and `user_images`; an owner below zero marks a free slot. -/
structure ElfSlots where
  slotOwnerPid : Fin elfProcSlots → Int
  userImages : Fin elfProcSlots → Nat → U8

/-! ## Ring 3 transition -/

/-- The `ring3_*` variables, and the registers the processor has in Ring 3. -/
structure Ring3 where
  active : Bool
  currentPid : U32
  stopReason : U32
  exitCode : U32
  regs : UserContext

structure Core where
  task : TaskTable
  proc : ProcTable
  ipc : IpcTables
  elf : ElfSlots
  ring3 : Ring3
  mem : ByteMem.Mem

end SlopOS.Kernel
