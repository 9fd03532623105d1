import SlopOS.Support.ByteMem
/-!
# The shared declarations of `kernel.h`

Machine words, C strings, and the structures that several kernel files pass to
each other.  An `int` is an `Int`, a `u32` is a 32-bit word; a C string is the
list of its bytes without the terminating NUL.
-/

namespace SlopOS.Kernel

open SlopOS.Support

abbrev U8 := ByteMem.Byte
abbrev U16 := BitVec 16
abbrev U32 := ByteMem.Word

abbrev CStr := List U8

abbrev Bytes := List U8

/-- A pointer to a `struct vfs_node`. -/
abbrev NodeId := Nat

def chr (c : Char) : U8 := BitVec.ofNat 8 c.toNat

def cstr (s : String) : CStr := s.toList.map chr

def multibootMagic : U32 := 0x2BADB002

/-- The fields of `struct multiboot_info` that the kernel modelled here reads. -/
structure MultibootInfo where
  flags : U32
  memLower : U32
  memUpper : U32
deriving Repr, DecidableEq

inductive ConsoleTarget
  | vga | serial | both
deriving Repr, DecidableEq

inductive TaskState
  | unused | ready | running | blocked | zombie
deriving Repr, DecidableEq

inductive ProcState
  | unused | ready | running | blocked | zombie
deriving Repr, DecidableEq

/-- `enum exec_stop_reason`, without the `EXEC_STOP_NONE` a caller starts from. -/
inductive ExecStopReason
  | yielded | exited | blocked
deriving Repr, DecidableEq

structure IpcMessage where
  srcPid : Int
  dstPid : Int
  type : U32
  arg1 : U32
  arg2 : U32
  arg3 : U32
  arg4 : U32
deriving Repr, DecidableEq

/-- `sizeof(struct ipc_message)`. -/
def ipcMessageSize : Nat := 28

/-- The thirteen words of `struct user_context`, which are also the words that
`pushad` and the interrupt entry leave on the kernel stack. -/
structure UserContext where
  edi : U32 := 0
  esi : U32 := 0
  ebp : U32 := 0
  espDummy : U32 := 0
  ebx : U32 := 0
  edx : U32 := 0
  ecx : U32 := 0
  eax : U32 := 0
  eip : U32 := 0
  cs : U32 := 0
  eflags : U32 := 0
  userEsp : U32 := 0
  userSs : U32 := 0
deriving Repr, DecidableEq

/-- The words of the structure in memory order: word `i` is at byte offset `4 * i`. -/
def UserContext.words (c : UserContext) : List U32 :=
  [c.edi, c.esi, c.ebp, c.espDummy, c.ebx, c.edx, c.ecx, c.eax, c.eip, c.cs,
    c.eflags, c.userEsp, c.userSs]

/-- The word at byte offset `off`, as `[esi + off]` reads it. -/
def UserContext.at (c : UserContext) (off : Nat) : U32 := c.words.getD (off / 4) 0

structure ExecSegment where
  fileOffset : U32
  fileSize : U32
  memSize : U32
  vaddr : U32
  flags : U32
deriving Repr, DecidableEq

/-- `struct exec_load_plan`; `segment_count` is the length of `segments`. -/
structure ExecLoadPlan where
  valid : Bool
  entry : U32
  imageBase : U32
  imageSize : U32
  segments : List ExecSegment
deriving Repr, DecidableEq

def execMaxSegments : Nat := 8

structure TaskInfo where
  pid : Int
  ppid : Int
  state : TaskState
  runtimeTicks : U32
  name : CStr
deriving Repr, DecidableEq

structure ProcessInfo where
  pid : Int
  ppid : Int
  state : ProcState
  exitCode : Int
  name : CStr
deriving Repr, DecidableEq

structure ProcImage where
  loaded : Bool
  entry : U32
  imageBase : U32
  imageSize : U32
  userStackBase : U32
  userStackSize : U32
  cwd : Option NodeId
  output : ConsoleTarget
  contextValid : Bool
  context : UserContext
deriving Repr, DecidableEq

structure UserStat where
  stMode : U32
  stSize : U32
deriving Repr, DecidableEq

/-! ## Conversions between `int` and `u32` -/

/-- `(u32)i`. -/
def toU32 (i : Int) : U32 := BitVec.ofInt 32 i

/-- `(int)w`. -/
def toInt (w : U32) : Int := BitVec.toInt w

theorem toInt_toU32 {i : Int} (h₀ : 0 ≤ i) (h₁ : i < 2 ^ 31) : toInt (toU32 i) = i := by
  unfold toInt toU32
  rw [BitVec.toInt_ofInt]
  apply Int.bmod_eq_of_le
  · norm_num
    omega
  · norm_num
    omega

/-! ## A message in memory -/

/-- The seven words of a message in memory order. -/
def IpcMessage.words (msg : IpcMessage) : List U32 :=
  [toU32 msg.srcPid, toU32 msg.dstPid, msg.type, msg.arg1, msg.arg2, msg.arg3, msg.arg4]

def IpcMessage.ofWords (ws : List U32) : IpcMessage where
  srcPid := toInt (ws.getD 0 0)
  dstPid := toInt (ws.getD 1 0)
  type := ws.getD 2 0
  arg1 := ws.getD 3 0
  arg2 := ws.getD 4 0
  arg3 := ws.getD 5 0
  arg4 := ws.getD 6 0

@[simp] theorem IpcMessage.length_words (msg : IpcMessage) : msg.words.length = 7 := rfl

theorem IpcMessage.ofWords_words {msg : IpcMessage} (hs₀ : 0 ≤ msg.srcPid)
    (hs₁ : msg.srcPid < 2 ^ 31) (hd₀ : 0 ≤ msg.dstPid) (hd₁ : msg.dstPid < 2 ^ 31) :
    IpcMessage.ofWords msg.words = msg := by
  cases msg
  simp [ofWords, words, toInt_toU32 hs₀ hs₁, toInt_toU32 hd₀ hd₁]

/-- `*ptr` for a `struct ipc_message *ptr`. -/
def loadMessage (m : ByteMem.Mem) (ptr : U32) : IpcMessage :=
  IpcMessage.ofWords (ByteMem.loadWords m ptr 7)

/-- `*ptr = msg`. -/
def storeMessage (m : ByteMem.Mem) (ptr : U32) (msg : IpcMessage) : ByteMem.Mem :=
  ByteMem.storeWords m ptr msg.words

theorem loadMessage_storeMessage {m : ByteMem.Mem} {ptr : U32} {msg : IpcMessage}
    (hs₀ : 0 ≤ msg.srcPid) (hs₁ : msg.srcPid < 2 ^ 31)
    (hd₀ : 0 ≤ msg.dstPid) (hd₁ : msg.dstPid < 2 ^ 31) :
    loadMessage (storeMessage m ptr msg) ptr = msg := by
  have hwords := ByteMem.loadWords_storeWords m ptr msg.words (by simp)
  rw [IpcMessage.length_words] at hwords
  rw [loadMessage, storeMessage, hwords, IpcMessage.ofWords_words hs₀ hs₁ hd₀ hd₁]

end SlopOS.Kernel
