import SlopOS.Kernel.Ipc
import SlopOS.Kernel.Service
import SlopOS.Kernel.Vfs
/-!
# `syscall.c`

Pointer validation, the descriptor table and the system calls.  A call yields
an `Outcome`: the user memory it touched, and, unless it never returns, its
result with the kernel state it leaves.
-/

namespace SlopOS.Kernel

open SlopOS.Support

def syscallWriteMax : Nat := 1024

def errBadf : Int := -9
def errAgain : Int := -11
def errFault : Int := -14
def errInval : Int := -22
def errNfile : Int := -24
def errBlocked : Int := -512

def oAccmode : U32 := 0x3
def oWronly : U32 := 0x1
def oRdwr : U32 := 0x2
def oCreat : U32 := 0x40
def oTrunc : U32 := 0x200
def oAppend : U32 := 0x400

abbrev fdMax : Nat := 16

/-- What the `data` pointer of a descriptor points to: the contents found at
`open`, or the descriptor's own write buffer. -/
inductive FdData
  | file (bytes : Option Bytes)
  | writeBuf

/-- `struct fd_entry`; byte `i` of the write buffer is `buf i`. -/
structure FdEntry where
  used : Bool
  pid : Int
  readable : Bool
  writable : Bool
  data : FdData
  size : U32
  offset : U32
  path : CStr
  writeBuf : Option (Nat → U8)
  writeSize : U32
  writeCapacity : U32
  dirty : Bool

def emptyFd : FdEntry := ⟨false, -1, false, false, .file none, 0, 0, [], none, 0, 0, false⟩

/-- The state of `syscall.c` with the file system it works on and the characters
the keyboard is going to deliver. -/
structure Files where
  fs : Fs
  fds : Fin fdMax → FdEntry
  userCwd : Option NodeId
  userBootMbi : Option MultibootInfo
  userBootMagic : U32
  keyboard : Nat → U8

structure KState where
  core : Core
  services : Services
  files : Files

structure Outcome where
  touched : List ByteMem.Span
  done : Option (Int × KState)

def Outcome.ret (k : KState) (r : Int) (touched : List ByteMem.Span) : Outcome :=
  ⟨touched, some (r, k)⟩

namespace KState

def setMem (k : KState) (mem : ByteMem.Mem) : KState :=
  { k with core := { k.core with mem := mem } }

def setFs (k : KState) (fs : Fs) : KState :=
  { k with files := { k.files with fs := fs } }

/-- `fd_table[slot] = entry`. -/
def setFd (k : KState) (slot : Fin fdMax) (entry : FdEntry) : KState :=
  { k with files := { k.files with fds := Function.update k.files.fds slot entry } }

/-- `user_cwd ? user_cwd : vfs_root()`. -/
def cwd (k : KState) : NodeId := k.files.userCwd.getD vfsRoot

/-- `(int)ring3_current_pid`. -/
def pid (k : KState) : Int := toInt k.core.ring3.currentPid

end KState

def syscallSaveYieldContext (c : Core) (frame : UserContext) : Core :=
  let pid := toInt c.ring3.currentPid
  match procGetImage c.proc pid with
  | none => c
  | some image =>
    if pid ≤ 0 ∨ ¬image.loaded then c
    else
      let context := { frame with eax := 0 }
      let image := { image with context := context, contextValid := true }
      { c with proc := procBindImage c.proc pid image }

/-! ## User pointers -/

def rangeContains (base size ptr len : U32) : Bool :=
  if size = 0 then false
  else if ptr < base then false
  else if len = 0 then decide (ptr < base + size)
  else if ptr + len < ptr then false
  else decide (ptr + len ≤ base + size)

def validateUserPtr (c : Core) (ptr len : U32) : Bool :=
  if ¬c.ring3.active then true
  else
    let pid := toInt c.ring3.currentPid
    match procGetImage c.proc pid with
    | none => false
    | some image =>
      if pid ≤ 0 ∨ ¬image.loaded then false
      else if rangeContains image.imageBase image.imageSize ptr len then true
      else rangeContains image.userStackBase image.userStackSize ptr len

/-- The loop of `copy_user_cstr`, `n` characters at most: the string, or `none`
where a character fails validation; and the characters read. -/
def copyUserCstrLoop (c : Core) : Nat → U32 → Option CStr × List ByteMem.Span
  | 0, _ => (some [], [])
  | n + 1, ptr =>
    if ¬validateUserPtr c ptr 1 then (none, [])
    else if c.mem ptr = 0 then (some [], [⟨ptr, 1⟩])
    else
      let (rest, touched) := copyUserCstrLoop c n (ptr + 1)
      (rest.map (c.mem ptr :: ·), ⟨ptr, 1⟩ :: touched)

def copyUserCstr (c : Core) (userPtr : U32) (dstSize : Nat) :
    Option CStr × List ByteMem.Span :=
  if userPtr = 0 ∨ dstSize = 0 then (none, []) else copyUserCstrLoop c (dstSize - 1) userPtr

/-- `make_abs_path`; what follows its first test is `vfs_path_join` once more. -/
def makeAbsPath (tree : VfsTree) (cwd : NodeId) (path : CStr) (outSize : Nat) : Option CStr :=
  if outSize = 0 then none
  else if path.head? = some (chr '/') then some (strCopy path outSize)
  else vfsPathJoin outSize (vfsGetCwdPath tree cwd vfsPathMax) path

/-! ## Descriptors -/

def fdAllocSlot (fds : Fin fdMax → FdEntry) : Option (Fin fdMax) :=
  Fin.find? fun i => decide (3 ≤ i.val) && !(fds i).used

def fdLookup (fds : Fin fdMax → FdEntry) (fd pid : Int) : Option (Fin fdMax) :=
  if h : 3 ≤ fd ∧ fd.toNat < fdMax then
    let slot : Fin fdMax := ⟨fd.toNat, h.2⟩
    if ¬(fds slot).used ∨ (fds slot).pid ≠ pid then none else some slot
  else none

/-- The doubling loop; from 256 on it ends within 24 turns. -/
def growCapacity (needed : U32) : Nat → U32 → Option U32
  | 0, _ => none
  | fuel + 1, capacity =>
    if needed ≤ capacity then some capacity
    else if 0x7FFFFFFF < capacity then none
    else growCapacity needed fuel (capacity * 2)

/-- `fd_ensure_write_capacity`.  The part of a new buffer that is not copied
holds what the memory held before. -/
def fdEnsureWriteCapacity (mach : Machine) (heap : Heap) (fd : FdEntry) (needed : U32) :
    Option (FdEntry × Heap) :=
  if needed ≤ fd.writeCapacity then some (fd, heap)
  else
    match growCapacity needed 33 (if fd.writeCapacity = 0 then 256 else fd.writeCapacity) with
    | none => none
    | some capacity =>
      match kmalloc heap capacity with
      | none => none
      | some (addr, heap) =>
        let newBuf : Nat → U8 := fun i =>
          if i < fd.writeSize.toNat then (fd.writeBuf.getD fun _ => 0) i
          else mach.ram (addr + BitVec.ofNat 32 i)
        some ({ fd with writeBuf := some newBuf, writeCapacity := capacity }, heap)

/-! ## Files -/

/-- The keyboard loop: characters taken up to `len` or through a newline. -/
def readLineLen (keyboard : Nat → U8) : Nat → Nat → Nat
  | 0, i => i
  | n + 1, i => if keyboard i = chr '\n' then i + 1 else readLineLen keyboard n (i + 1)

/-- `validate_user_ptr(buf, len == 0u ? 1u : len)`. -/
def validateBuffer (c : Core) (buf len : U32) : Bool :=
  validateUserPtr c buf (if len = 0 then 1 else len)

/-- The read loop of a descriptor over the bytes `src`, of which there are `size`. -/
def fdReadFrom (k : KState) (slot : Fin fdMax) (src : Nat → U8) (size buf len : U32) : Outcome :=
  let entry := k.files.fds slot
  if size ≤ entry.offset then .ret k 0 []
  else
    let n := min len.toNat (size.toNat - entry.offset.toNat)
    let mem := ByteMem.store k.core.mem buf n fun j => src (entry.offset.toNat + j)
    let entry := { entry with offset := entry.offset + BitVec.ofNat 32 n }
    .ret ((k.setMem mem).setFd slot entry) n [⟨buf, n⟩]

def ksysRead (k : KState) (fd : Int) (buf len : U32) : Outcome :=
  if fd = 0 ∧ buf = 0 then .ret k errFault []
  else if ¬validateBuffer k.core buf len then .ret k errFault []
  else if fd = 0 then
    let n := readLineLen k.files.keyboard len.toNat 0
    let mem := ByteMem.store k.core.mem buf n k.files.keyboard
    let files := { k.files with keyboard := fun i => k.files.keyboard (n + i) }
    .ret { k.setMem mem with files := files } n [⟨buf, n⟩]
  else
    match fdLookup k.files.fds fd k.pid with
    | none => .ret k errBadf []
    | some slot =>
      let entry := k.files.fds slot
      if ¬entry.readable then .ret k errBadf []
      else
        match entry.writeBuf with
        | some writeBuf => fdReadFrom k slot writeBuf entry.writeSize buf len
        | none =>
          match entry.data with
          | .file bytes => fdReadFrom k slot ((bytes.getD []).getD · 0) entry.size buf len
          | .writeBuf => fdReadFrom k slot (fun _ => 0) entry.size buf len

/-- The write buffer after the three store loops of `ksys_write`. -/
def writeInto (buf : Nat → U8) (writeSize offset : Nat) (src : Nat → U8) (len : Nat) :
    Nat → U8 :=
  let gap : Nat → U8 := fun i => if writeSize ≤ i ∧ i < offset then 0 else buf i
  let body : Nat → U8 := fun i => if offset ≤ i ∧ i < offset + len then src (i - offset) else gap i
  Function.update body (max writeSize (offset + len)) 0

def fdWrite (mach : Machine) (k : KState) (slot : Fin fdMax) (buf len : U32) : Outcome :=
  let entry := k.files.fds slot
  if ¬entry.writable then .ret k errBadf []
  else
    let needed := entry.offset + len
    if needed < entry.offset then .ret k errInval []
    else
      match fdEnsureWriteCapacity mach k.files.fs.heap entry (needed + 1) with
      | none => .ret k errInval []
      | some (entry, heap) =>
        let src : Nat → U8 := fun j => k.core.mem (buf + BitVec.ofNat 32 j)
        let writeBuf := writeInto (entry.writeBuf.getD fun _ => 0) entry.writeSize.toNat
          entry.offset.toNat src len.toNat
        let writeSize := if entry.writeSize < needed then needed else entry.writeSize
        let entry := { entry with
          writeBuf := some writeBuf
          offset := needed
          writeSize := writeSize
          data := .writeBuf
          size := writeSize
          dirty := true }
        .ret ((k.setFs { k.files.fs with heap := heap }).setFd slot entry) (toInt len)
          [⟨buf, len.toNat⟩]

def ksysWrite (mach : Machine) (k : KState) (fd : Int) (buf len : U32) : Outcome :=
  if buf = 0 then .ret k errBadf []
  else if ¬validateBuffer k.core buf len then .ret k errFault []
  else if fd = 1 ∨ fd = 2 then
    let n := min len.toNat syscallWriteMax
    .ret k n [⟨buf, n⟩]
  else
    match fdLookup k.files.fds fd k.pid with
    | none => .ret k errBadf []
    | some slot => fdWrite mach k slot buf len

def openEntry (pid : Int) (fullPath : CStr) (data : Option Bytes) (size flags : U32) : FdEntry :=
  let access := flags &&& oAccmode
  { emptyFd with
    used := true
    pid := pid
    readable := decide (access ≠ oWronly)
    writable := decide (access = oWronly) || decide (access = oRdwr)
    data := .file data
    size := size
    offset := if flags &&& oAppend ≠ 0 then size else 0
    path := strCopy fullPath 128 }

/-- The private copy that `ksys_open` makes for a writable descriptor. -/
def openForWrite (mach : Machine) (heap : Heap) (entry : FdEntry) (data : Option Bytes)
    (size flags : U32) : Option (FdEntry × Heap) :=
  let initialSize := if flags &&& oTrunc ≠ 0 then 0 else size
  match fdEnsureWriteCapacity mach heap entry (initialSize + 1) with
  | none => none
  | some (entry, heap) =>
    let buf := entry.writeBuf.getD fun _ => 0
    let copied : Nat → U8 := fun i =>
      if i < initialSize.toNat then (data.getD []).getD i 0 else buf i
    let entry := { entry with
      writeSize := initialSize
      writeBuf := some (Function.update copied initialSize.toNat 0)
      data := .writeBuf
      size := initialSize }
    some (if flags &&& oTrunc ≠ 0 then { entry with offset := 0, dirty := true } else entry, heap)

/-- The end of `ksys_open`, from the free slot on; `data` and `size` are what
`vfs_read_file` found. -/
def fdOpen (mach : Machine) (k : KState) (slot : Fin fdMax) (fullPath : CStr)
    (data : Option Bytes) (size flags : U32) : Int × KState :=
  let entry := openEntry k.pid fullPath data size flags
  if entry.writable then
    match openForWrite mach k.files.fs.heap entry data size flags with
    | none => (errInval, k.setFd slot emptyFd)
    | some (entry, heap) =>
      (slot.val, (k.setFs { k.files.fs with heap := heap }).setFd slot entry)
  else (slot.val, k.setFd slot entry)

def ksysOpen (mach : Machine) (k : KState) (path flags : U32) : Outcome :=
  if path = 0 then .ret k errInval []
  else
    match copyUserCstr k.core path 128 with
    | (none, touched) => .ret k errFault touched
    | (some kpath, touched) =>
      match makeAbsPath k.files.fs.tree k.cwd kpath 128 with
      | none => .ret k errInval touched
      | some fullPath =>
        let (created, fs) :=
          if flags &&& oCreat ≠ 0 then vfsTouch k.files.fs k.cwd fullPath
          else (true, k.files.fs)
        let k := k.setFs fs
        if ¬created then .ret k errInval touched
        else
          match vfsReadFile mach k.files.fs k.cwd fullPath with
          | none => ⟨touched, none⟩
          | some (none, fs) => .ret (k.setFs fs) errInval touched
          | some (some (data, size), fs) =>
            let k := k.setFs fs
            match fdAllocSlot k.files.fds with
            | none => .ret k errNfile touched
            | some slot => ⟨touched, some (fdOpen mach k slot fullPath data size flags)⟩

def fdWriteBack (k : KState) (entry : FdEntry) : Bool × Fs :=
  if entry.writable ∧ entry.dirty then
    vfsWriteFile k.files.fs k.cwd entry.path (entry.writeBuf.getD fun _ => 0) entry.writeSize
  else (true, k.files.fs)

def ksysClose (k : KState) (fd : Int) : Outcome :=
  match fdLookup k.files.fds fd k.pid with
  | none => .ret k errBadf []
  | some slot =>
    match fdWriteBack k (k.files.fds slot) with
    | (false, fs) => .ret (k.setFs fs) errInval []
    | (true, fs) => .ret ((k.setFs fs).setFd slot emptyFd) 0 []

/-! ## Directories and information -/

def ksysGetpid (k : KState) : Int :=
  if k.core.ring3.active ∧ 0 < k.core.ring3.currentPid then k.pid
  else taskCurrentPid k.core.task

/-- The opening that every call with a path or name argument makes: no null
pointer, and a copy of the string. -/
def withUserCstr (k : KState) (ptr : U32) (size : Nat)
    (call : CStr → List ByteMem.Span → Outcome) : Outcome :=
  if ptr = 0 then .ret k errInval []
  else
    match copyUserCstr k.core ptr size with
    | (none, touched) => .ret k errFault touched
    | (some s, touched) => call s touched

def ksysMkdir (k : KState) (path : U32) : Outcome :=
  withUserCstr k path 128 fun kpath touched =>
    match vfsMakeDir k.files.fs k.cwd kpath with
    | (false, fs) => .ret (k.setFs fs) errInval touched
    | (true, fs) => .ret (k.setFs fs) 0 touched

def ksysGetcwd (k : KState) (buf len : U32) : Outcome :=
  if buf = 0 ∨ len = 0 then .ret k errInval []
  else if ¬validateUserPtr k.core buf len then .ret k errFault []
  else
    let path := vfsGetCwdPath k.files.fs.tree k.cwd 128
    let n := strLen path
    if len.toNat < n + 1 then .ret k errInval []
    else
      .ret (k.setMem (ByteMem.store k.core.mem buf (n + 1) (path.getD · 0))) n [⟨buf, n + 1⟩]

def ksysList (mach : Machine) (k : KState) (path : U32) : Outcome :=
  let list (path : Option CStr) (touched : List ByteMem.Span) : Outcome :=
    ⟨touched, (vfsList mach k.files.fs k.cwd path).map fun _ => (0, k)⟩
  if path = 0 then list none []
  else
    match copyUserCstr k.core path 128 with
    | (none, touched) => .ret k errFault touched
    | (some kpath, touched) => list (some kpath) touched

def ksysSysteminfo (k : KState) : Int :=
  if k.files.userBootMbi = none ∨ k.files.userBootMagic ≠ multibootMagic then errInval else 0

/-- `sizeof(struct mem_info)`. -/
def memInfoSize : Nat := 36

def kernelStart : U32 := 0x00100000

def memInfoWords (mach : Machine) (k : KState) : List U32 :=
  let totalKib : U32 :=
    match k.files.userBootMbi with
    | none => 0
    | some mbi =>
      if k.files.userBootMagic = multibootMagic ∧ mbi.flags &&& 1 ≠ 0 then
        mbi.memLower + mbi.memUpper
      else 0
  let heap := k.files.fs.heap
  let kernelBytes := mach.kernelEnd - kernelStart
  let (usedBytes, freeBytes) : U32 × U32 :=
    if heap.ready then (kernelBytes + heapBytesUsed heap, heapBytesFree heap)
    else if 1024 < totalKib ∧ kernelBytes < totalKib * 1024 then
      (kernelBytes, totalKib * 1024 - kernelBytes)
    else (kernelBytes, 0)
  let usedKib := (usedBytes + 1023) / 1024
  let freeKib := if usedKib < totalKib then totalKib - usedKib else 0
  let availableKib := if freeKib < freeBytes / 1024 then freeKib else freeBytes / 1024
  [totalKib, usedKib, freeKib, 0, 0, availableKib, 0, 0, 0]

def ksysMeminfo (mach : Machine) (k : KState) (info : U32) : Outcome :=
  if info = 0 ∨ ¬validateUserPtr k.core info (BitVec.ofNat 32 memInfoSize) then
    .ret k errFault []
  else
    .ret (k.setMem (ByteMem.storeWords k.core.mem info (memInfoWords mach k))) 0
      [⟨info, memInfoSize⟩]

/-! ## Messages and services -/

/-- `ksys_ipc_send` and `ksys_ipc_reply`, by the function of `ipc.c` they call. -/
def ksysIpcSendWith (send : Core → Int → Int → IpcMessage → Bool × Core) (k : KState)
    (msg : U32) : Outcome :=
  if msg = 0 ∨ ¬validateUserPtr k.core msg (BitVec.ofNat 32 ipcMessageSize) then
    .ret k errFault []
  else
    let kmsg := loadMessage k.core.mem msg
    let (sent, c) := send k.core k.pid kmsg.dstPid kmsg
    .ret { k with core := c } (if sent then 0 else errAgain) [⟨msg, ipcMessageSize⟩]

def ksysIpcSend : KState → U32 → Outcome := ksysIpcSendWith ipcSend

def ksysIpcReply : KState → U32 → Outcome := ksysIpcSendWith ipcReply

def ksysIpcRecv (k : KState) (msg : U32) : Outcome :=
  if msg = 0 ∨ ¬validateUserPtr k.core msg (BitVec.ofNat 32 ipcMessageSize) then
    .ret k errFault []
  else
    match ipcRecv k.core k.pid with
    | none =>
      let (blocked, c) := ipcBlockRecv k.core k.pid msg
      .ret { k with core := c } (if blocked then errBlocked else errAgain) []
    | some (kmsg, c) =>
      let c := { c with mem := storeMessage c.mem msg kmsg }
      .ret { k with core := c } 0 [⟨msg, ipcMessageSize⟩]

def ksysYield : Int := 0

def ksysServiceRegister (k : KState) (name : U32) : Outcome :=
  withUserCstr k name 32 fun kname touched =>
    match serviceRegister k.core.proc k.services kname k.pid with
    | none => .ret k errInval touched
    | some services => .ret { k with services := services } 0 touched

def ksysServiceLookup (k : KState) (name : U32) : Outcome :=
  withUserCstr k name 32 fun kname touched =>
    let (pid, services) := serviceLookup k.core.proc k.services kname
    .ret { k with services := services } (if pid < 0 then errInval else pid) touched

/-! ## Status -/

/-- `sizeof(struct user_stat)`. -/
def userStatSize : Nat := 8

/-- `*st = stat`. -/
def KState.storeStat (k : KState) (st : U32) (stat : UserStat) : KState :=
  k.setMem (ByteMem.storeWords k.core.mem st [stat.stMode, stat.stSize])

def ksysStat (mach : Machine) (k : KState) (path st : U32) : Outcome :=
  if path = 0 ∨ st = 0 then .ret k errInval []
  else if ¬validateUserPtr k.core st (BitVec.ofNat 32 userStatSize) then .ret k errFault []
  else
    match copyUserCstr k.core path 128 with
    | (none, touched) => .ret k errFault touched
    | (some kpath, touched) =>
      let touched := touched ++ [⟨st, userStatSize⟩]
      match vfsStat mach k.files.fs k.cwd kpath with
      | none => ⟨touched, none⟩
      | some ((ok, stat), fs) =>
        .ret ((k.setFs fs).storeStat st stat) (if ok then 0 else errInval) touched

def modeChar : U32 := 0x2000

def ksysFstat (k : KState) (fd : Int) (st : U32) : Outcome :=
  if st = 0 then .ret k errInval []
  else if ¬validateUserPtr k.core st (BitVec.ofNat 32 userStatSize) then .ret k errFault []
  else if 0 ≤ fd ∧ fd ≤ 2 then .ret (k.storeStat st ⟨modeChar, 0⟩) 0 [⟨st, userStatSize⟩]
  else
    match fdLookup k.files.fds fd k.pid with
    | none => .ret k errBadf []
    | some slot =>
      let entry := k.files.fds slot
      let size := if entry.writeBuf.isSome then entry.writeSize else entry.size
      .ret (k.storeStat st ⟨modeFile, size⟩) 0 [⟨st, userStatSize⟩]

def ksysExit (k : KState) (code : Int) : KState :=
  let pid := taskCurrentPid k.core.task
  if 0 < pid then { k with core := { k.core with proc := procExit k.core.proc pid code } } else k

/-! ## Dispatch -/

def sysRead : U32 := 0
def sysWrite : U32 := 1
def sysOpen : U32 := 2
def sysClose : U32 := 3
def sysGetpid : U32 := 20
def sysExit : U32 := 60
def sysMkdir : U32 := 83
def sysGetcwd : U32 := 183
def sysRetKernel : U32 := 240
def sysList : U32 := 241
def sysSysteminfo : U32 := 242
def sysPs : U32 := 243
def sysMeminfo : U32 := 244
def sysIpcSend : U32 := 245
def sysIpcRecv : U32 := 246
def sysIpcReply : U32 := 247
def sysYield : U32 := 248
def sysServiceRegister : U32 := 249
def sysServiceLookup : U32 := 250
def sysStat : U32 := 251
def sysFstat : U32 := 252

/-- `syscall_entry`; arguments 4 and 5 are not used. -/
def syscallEntry (mach : Machine) (k : KState) (num a1 a2 a3 _a4 _a5 : U32) : Outcome :=
  if num = sysRead then ksysRead k (toInt a1) a2 a3
  else if num = sysWrite then ksysWrite mach k (toInt a1) a2 a3
  else if num = sysOpen then ksysOpen mach k a1 a2
  else if num = sysClose then ksysClose k (toInt a1)
  else if num = sysGetpid then .ret k (ksysGetpid k) []
  else if num = sysMkdir then ksysMkdir k a1
  else if num = sysGetcwd then ksysGetcwd k a1 a2
  else if num = sysExit then .ret (ksysExit k (toInt a1)) 0 []
  else if num = sysList then ksysList mach k a1
  else if num = sysSysteminfo then .ret k (ksysSysteminfo k) []
  else if num = sysPs then .ret k 0 []
  else if num = sysMeminfo then ksysMeminfo mach k a1
  else if num = sysIpcSend then ksysIpcSend k a1
  else if num = sysIpcRecv then ksysIpcRecv k a1
  else if num = sysIpcReply then ksysIpcReply k a1
  else if num = sysYield then .ret k ksysYield []
  else if num = sysServiceRegister then ksysServiceRegister k a1
  else if num = sysServiceLookup then ksysServiceLookup k a1
  else if num = sysStat then ksysStat mach k a1 a2
  else if num = sysFstat then ksysFstat k (toInt a1) a2
  else if num = sysRetKernel then .ret k 0 []
  else .ret k (-1) []

end SlopOS.Kernel
