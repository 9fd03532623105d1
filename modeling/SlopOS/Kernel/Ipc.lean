import SlopOS.Kernel.Elf
import SlopOS.Kernel.Task
/-!
# `ipc.c`

One-slot mailboxes keyed by pid, and the waiters of processes blocked in a
receive.  A message to a waiter goes straight into the memory of the stopped
process.
-/

namespace SlopOS.Kernel

open SlopOS.Support

def emptyMessage : IpcMessage := ⟨0, 0, 0, 0, 0, 0, 0⟩

def emptyMailbox : IpcMailbox := ⟨false, -1, false, emptyMessage⟩

def emptyWaiter : IpcWaiter := ⟨false, -1, 0⟩

def ipcInit : IpcTables where
  mailboxes := fun _ => emptyMailbox
  waiters := fun _ => emptyWaiter

namespace IpcTables

def findSlot (t : IpcTables) (pid : Int) : Option (Fin ipcMailboxMax) :=
  SlotTable.indexOf IpcMailbox.key t.mailboxes pid

def findWaiter (t : IpcTables) (pid : Int) : Option (Fin ipcMailboxMax) :=
  SlotTable.indexOf IpcWaiter.key t.waiters pid

/-- `mailboxes[slot] = box`. -/
def setMailbox (t : IpcTables) (slot : Fin ipcMailboxMax) (box : IpcMailbox) : IpcTables :=
  { t with mailboxes := Function.update t.mailboxes slot box }

/-- `waiters[slot] = w`. -/
def setWaiter (t : IpcTables) (slot : Fin ipcMailboxMax) (w : IpcWaiter) : IpcTables :=
  { t with waiters := Function.update t.waiters slot w }

def allocSlot (t : IpcTables) (pid : Int) : Option (Fin ipcMailboxMax × IpcTables) :=
  (SlotTable.firstFree IpcMailbox.key t.mailboxes).map fun slot =>
    let box := { t.mailboxes slot with used := true, pid := pid, hasMessage := false }
    (slot, t.setMailbox slot box)

def allocWaiter (t : IpcTables) (pid : Int) : Option (Fin ipcMailboxMax × IpcTables) :=
  (SlotTable.firstFree IpcWaiter.key t.waiters).map fun slot =>
    (slot, t.setWaiter slot ⟨true, pid, 0⟩)

end IpcTables

def ipcBlockRecv (c : Core) (dstPid : Int) (userMsgPtr : U32) : Bool × Core :=
  if dstPid < 0 ∨ procStateOf c.proc dstPid = .unused then (false, c)
  else
    let found :=
      match c.ipc.findWaiter dstPid with
      | some slot => some (slot, c.ipc)
      | none => c.ipc.allocWaiter dstPid
    match found with
    | none => (false, c)
    | some (slot, ipc) =>
      let w := { ipc.waiters slot with userMsgPtr := userMsgPtr }
      (true, { c with ipc := ipc.setWaiter slot w })

/-- The bytes of a message, as `elf_write_to_task_memory` is handed them. -/
def IpcMessage.byte (msg : IpcMessage) (j : Nat) : U8 :=
  ByteMem.byteOf (msg.words.getD (j / 4) 0) (j % 4)

/-- The end of `ipc_unblock_deliver`, once the message is written. -/
def wakeReceiver (c : Core) (dstPid : Int) (slot : Fin ipcMailboxMax) (image : ProcImage) : Core :=
  let image := { image with context := { image.context with eax := 0 } }
  let c := { c with proc := procBindImage c.proc dstPid image }
  let c := taskSetState c dstPid .ready
  let c := { c with proc := procSetState c.proc dstPid .ready }
  { c with ipc := c.ipc.setWaiter slot emptyWaiter }

def ipcUnblockDeliver (c : Core) (dstPid : Int) (msg : IpcMessage) : Bool × Core :=
  if dstPid < 0 then (false, c)
  else
    match c.ipc.findWaiter dstPid with
    | none => (false, c)
    | some slot =>
      if procStateOf c.proc dstPid = .unused then
        (false, { c with ipc := c.ipc.setWaiter slot emptyWaiter })
      else
        match elfWriteToTaskMemory c dstPid (c.ipc.waiters slot).userMsgPtr msg.byte
            (BitVec.ofNat 32 ipcMessageSize) with
        | (false, c) => (false, c)
        | (true, c) =>
          match procGetImage c.proc dstPid with
          | none => (false, c)
          | some image =>
            if ¬image.loaded ∨ ¬image.contextValid then (false, c)
            else (true, wakeReceiver c dstPid slot image)

def ipcSend (c : Core) (srcPid dstPid : Int) (msg : IpcMessage) : Bool × Core :=
  if dstPid < 0 ∨ procStateOf c.proc dstPid = .unused then (false, c)
  else
    let delivered := { msg with srcPid := srcPid, dstPid := dstPid }
    match ipcUnblockDeliver c dstPid delivered with
    | (true, c) => (true, c)
    | (false, c) =>
      let found :=
        match c.ipc.findSlot dstPid with
        | some slot => some (slot, c.ipc)
        | none => c.ipc.allocSlot dstPid
      match found with
      | none => (false, c)
      | some (slot, ipc) =>
        if (ipc.mailboxes slot).hasMessage then (false, { c with ipc := ipc })
        else
          let box := { ipc.mailboxes slot with message := delivered, hasMessage := true }
          (true, { c with ipc := ipc.setMailbox slot box })

/-- `ipc_recv`: the message taken out of the mailbox, if there is one. -/
def ipcRecv (c : Core) (dstPid : Int) : Option (IpcMessage × Core) :=
  if dstPid < 0 then none
  else
    match c.ipc.findSlot dstPid with
    | none => none
    | some slot =>
      if (c.ipc.mailboxes slot).hasMessage then
        let box := { c.ipc.mailboxes slot with hasMessage := false, message := emptyMessage }
        some ((c.ipc.mailboxes slot).message, { c with ipc := c.ipc.setMailbox slot box })
      else none

def ipcReply : Core → Int → Int → IpcMessage → Bool × Core := ipcSend

end SlopOS.Kernel
