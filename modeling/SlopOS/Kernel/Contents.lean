import SlopOS.Kernel.Syscall
/-!
# File contents in memory

`syscall.c` and `vfs.c` once more, for what they do with pointers to contents:
which pointers `node->data`, `fd->data` and `fd->write_buf` hold, and what the
copy loops store.  Names, sizes, offsets and flags are those of `KState`; a loop
reads the memory that it has stored to so far, so it sees an alias.
-/

namespace SlopOS.Kernel

open SlopOS.Support

/-- The memory that contents lie in, and the pointers to them; 0 is the null pointer. -/
structure Pointers where
  ram : ByteMem.Mem
  node : NodeId → U32
  data : Fin fdMax → U32
  writeBuf : Fin fdMax → U32

/-- What a loop copies: byte `i`, looked up in the memory as it is then. -/
abbrev Source := ByteMem.Mem → Nat → U8

def bytesAt (p : U32) : Source := fun ram i => ram (p + BitVec.ofNat 32 i)

def given (f : Nat → U8) : Source := fun _ i => f i

/-- `for (i = 0; i < n; ++i) dst[i] = src[i]`. -/
def copyLoop (dst : U32) (src : Source) : Nat → ByteMem.Mem → ByteMem.Mem
  | 0, ram => ram
  | n + 1, ram =>
    let ram := copyLoop dst src n ram
    Function.update ram (dst + BitVec.ofNat 32 n) (src ram n)

/-- `dst[i] = 0`. -/
def storeNul (dst : U32) (i : U32) (ram : ByteMem.Mem) : ByteMem.Mem :=
  Function.update ram (dst + i) 0

/-! ## Files -/

/-- `iso_read_file_alloc` in `vfs_read_file`: the block it has filled, and the memory. -/
def discBlock (heap : Heap) (bytes : Bytes) (ram : ByteMem.Mem) : U32 × ByteMem.Mem :=
  match kmalloc heap (BitVec.ofNat 32 bytes.length + 1) with
  | none => (0, ram)
  | some (buf, _) =>
    let ram := copyLoop buf (given fun i => bytes.getD i 0) bytes.length ram
    (buf, storeNul buf (BitVec.ofNat 32 bytes.length) ram)

/-- `vfs_read_file`: the data pointer that it returns with success. -/
def vfsReadFileAt (mach : Machine) (p : Pointers) (fs : Fs) (cwd : NodeId) (path : CStr) :
    U32 × Pointers :=
  match vfsMountSubpath (vfsCheckPath fs.tree cwd path) with
  | some subpath =>
    match fsReadFileFromMount mach fs.mounts fs.heap cdromMount subpath with
    | some (some bytes, _) =>
      let (buf, ram) := discBlock fs.heap bytes p.ram
      (buf, { p with ram := ram })
    | _ => (0, p)
  | none =>
    match vfsResolveFrom fs.tree cwd path with
    | none => (0, p)
    | some node => (p.node node, p)

/-- The end of `vfs_write_file`: the block that becomes the contents of `node`. -/
def fillNode (p : Pointers) (heap : Heap) (node : NodeId) (data : Source) (size : U32) : Pointers :=
  match kmalloc heap (size + 1) with
  | none => p
  | some (copy, _) =>
    let ram := storeNul copy size (copyLoop copy data size.toNat p.ram)
    { p with ram := ram, node := Function.update p.node node copy }

def vfsWriteFileAt (p : Pointers) (fs : Fs) (cwd : NodeId) (path : CStr) (data : Source)
    (size : U32) : Pointers :=
  if (vfsMountSubpath (vfsCheckPath fs.tree cwd path)).isSome then p
  else
    match vfsTouch fs cwd path with
    | (false, _) => p
    | (true, fs) =>
      match vfsResolveFrom fs.tree cwd path with
      | none => p
      | some node => fillNode p fs.heap node data size

def vfsWriteSeedFileAt (p : Pointers) (fs : Fs) (path data : CStr) : Pointers :=
  match vfsTouch fs vfsRoot path with
  | (false, _) => p
  | (true, fs) =>
    match vfsResolve fs.tree path with
    | none => p
    | some file => fillNode p fs.heap file (given (data.getD · 0)) (BitVec.ofNat 32 (strLen data))

/-- What `vfs_init` leaves where nothing has been stored before. -/
def vfsInitAt (ram : ByteMem.Mem) (mounts : Mounts) (heap : Heap) : Option Pointers :=
  (vfsAllocNode ⟨emptyTree, heap, mounts⟩ [] .dir none).map fun (root, fs) =>
    let fs := (vfsMakeDir fs root (cstr "/bin")).2
    let fs := (vfsMakeDir fs root (cstr "/docs")).2
    let fs := (vfsMakeDir fs root (cstr "/mount")).2
    let fs := (vfsMakeDir fs root (cstr "/mount/cdrom")).2
    let fs := (vfsMakeDir fs root (cstr "/tmp")).2
    let readme := cstr "SLOP in-memory VFS\nThis is not a disk-backed filesystem yet.\n"
    let p := vfsWriteSeedFileAt ⟨ram, fun _ => 0, fun _ => 0, fun _ => 0⟩ fs
      (cstr "/docs/readme.txt") readme
    let fs := (vfsWriteSeedFile fs (cstr "/docs/readme.txt") readme).2
    vfsWriteSeedFileAt p fs (cstr "/docs/roadmap.txt")
      (cstr "Next: more memory management, a better VFS, and real userland.\n")

/-! ## Descriptors -/

/-- `fd_ensure_write_capacity`, where it succeeds. -/
def fdEnsureWriteCapacityAt (p : Pointers) (heap : Heap) (slot : Fin fdMax) (fd : FdEntry)
    (needed : U32) : Pointers :=
  if needed ≤ fd.writeCapacity then p
  else
    match growCapacity needed 33 (if fd.writeCapacity = 0 then 256 else fd.writeCapacity) with
    | none => p
    | some capacity =>
      match kmalloc heap capacity with
      | none => p
      | some (newBuf, _) =>
        let old : Source := if p.writeBuf slot = 0 then given fun _ => 0 else bytesAt (p.writeBuf slot)
        { p with
          ram := copyLoop newBuf old fd.writeSize.toNat p.ram
          writeBuf := Function.update p.writeBuf slot newBuf }

/-- `fd_table[slot].write_buf ? fd_table[slot].write_buf : fd_table[slot].data`. -/
def Pointers.view (p : Pointers) (slot : Fin fdMax) : U32 :=
  if p.writeBuf slot = 0 then p.data slot else p.writeBuf slot

/-- The read loop of `ksys_read`: the memory of the process after a read that gave `n` bytes. -/
def readInto (p : Pointers) (slot : Fin fdMax) (offset buf : U32) (n : Nat) (mem : ByteMem.Mem) :
    ByteMem.Mem :=
  ByteMem.store mem buf n (bytesAt (p.view slot + offset) p.ram)

def fdWriteAt (mach : Machine) (p : Pointers) (k : KState) (slot : Fin fdMax) (buf len : U32) :
    Pointers :=
  let entry := k.files.fds slot
  let needed := entry.offset + len
  if ¬entry.writable ∨ needed < entry.offset then p
  else
    match fdEnsureWriteCapacity mach k.files.fs.heap entry (needed + 1) with
    | none => p
    | some _ =>
      let p := fdEnsureWriteCapacityAt p k.files.fs.heap slot entry (needed + 1)
      let writeBuf := p.writeBuf slot
      let ram := copyLoop (writeBuf + entry.writeSize) (given fun _ => 0)
        (entry.offset.toNat - entry.writeSize.toNat) p.ram
      let ram := copyLoop (writeBuf + entry.offset)
        (given fun j => k.core.mem (buf + BitVec.ofNat 32 j)) len.toNat ram
      let writeSize := if entry.writeSize < needed then needed else entry.writeSize
      { p with
        ram := storeNul writeBuf writeSize ram
        data := Function.update p.data slot writeBuf }

def ksysWriteAt (mach : Machine) (p : Pointers) (k : KState) (fd : Int) (buf len : U32) : Pointers :=
  if buf = 0 ∨ ¬validateBuffer k.core buf len ∨ fd = 1 ∨ fd = 2 then p
  else
    match fdLookup k.files.fds fd k.pid with
    | none => p
    | some slot => fdWriteAt mach p k slot buf len

def Pointers.reset (p : Pointers) (slot : Fin fdMax) : Pointers :=
  { p with data := Function.update p.data slot 0, writeBuf := Function.update p.writeBuf slot 0 }

/-- The end of `ksys_open`; `data` is what `vfs_read_file` returned. -/
def fdOpenAt (mach : Machine) (p : Pointers) (k : KState) (slot : Fin fdMax) (fullPath : CStr)
    (data : U32) (bytes : Option Bytes) (size flags : U32) : Pointers :=
  let p := p.reset slot
  let entry := openEntry k.pid fullPath bytes size flags
  if entry.writable then
    let initialSize := if flags &&& oTrunc ≠ 0 then 0 else size
    match fdEnsureWriteCapacity mach k.files.fs.heap entry (initialSize + 1) with
    | none => p
    | some _ =>
      let p := fdEnsureWriteCapacityAt p k.files.fs.heap slot entry (initialSize + 1)
      let writeBuf := p.writeBuf slot
      let ram := copyLoop writeBuf (bytesAt data) initialSize.toNat p.ram
      { p with
        ram := storeNul writeBuf initialSize ram
        data := Function.update p.data slot writeBuf }
  else { p with data := Function.update p.data slot data }

def ksysOpenAt (mach : Machine) (p : Pointers) (k : KState) (path flags : U32) : Pointers :=
  if path = 0 then p
  else
    match (copyUserCstr k.core path 128).1 with
    | none => p
    | some kpath =>
      match makeAbsPath k.files.fs.tree k.cwd kpath 128 with
      | none => p
      | some fullPath =>
        let (created, fs) :=
          if flags &&& oCreat ≠ 0 then vfsTouch k.files.fs k.cwd fullPath
          else (true, k.files.fs)
        if ¬created then p
        else
          let (data, p) := vfsReadFileAt mach p fs k.cwd fullPath
          match vfsReadFile mach fs k.cwd fullPath with
          | some (some (bytes, size), fs) =>
            match fdAllocSlot k.files.fds with
            | none => p
            | some slot => fdOpenAt mach p (k.setFs fs) slot fullPath data bytes size flags
          | _ => p

def ksysCloseAt (p : Pointers) (k : KState) (fd : Int) : Pointers :=
  match fdLookup k.files.fds fd k.pid with
  | none => p
  | some slot =>
    let entry := k.files.fds slot
    let p :=
      if entry.writable ∧ entry.dirty then
        -- without a buffer the source is the empty string
        let src : Source := if p.writeBuf slot = 0 then given fun _ => 0 else bytesAt (p.writeBuf slot)
        vfsWriteFileAt p k.files.fs k.cwd entry.path src entry.writeSize
      else p
    if (fdWriteBack k entry).1 then p.reset slot else p

/-- `ksys_stat`, which reads a whole file to find its size on the disc. -/
def ksysStatAt (mach : Machine) (p : Pointers) (k : KState) (path st : U32) : Pointers :=
  if path = 0 ∨ st = 0 ∨ ¬validateUserPtr k.core st (BitVec.ofNat 32 userStatSize) then p
  else
    match (copyUserCstr k.core path 128).1 with
    | none => p
    | some kpath =>
      if kpath = [] then p
      else
        match vfsMountSubpath (vfsCheckPath k.files.fs.tree k.cwd kpath) with
        | none => p
        | some subpath =>
          match fsPathIsDirFromMount mach k.files.fs.mounts cdromMount subpath with
          | some false => (vfsReadFileAt mach p k.files.fs k.cwd kpath).2
          | _ => p

/-! ## Calls -/

/-- The kernel with the memory of its file contents. -/
structure Placed where
  k : KState
  ptrs : Pointers

def syscallAt (mach : Machine) (p : Placed) (num a1 a2 a3 : U32) : Pointers :=
  if num = sysWrite then ksysWriteAt mach p.ptrs p.k (toInt a1) a2 a3
  else if num = sysOpen then ksysOpenAt mach p.ptrs p.k a1 a2
  else if num = sysClose then ksysCloseAt p.ptrs p.k (toInt a1)
  else if num = sysStat then ksysStatAt mach p.ptrs p.k a1 a2
  else p.ptrs

/-- The memory of the process after a call that returned `r`: a read from a descriptor takes its
bytes where the pointers of the descriptor say. -/
def userMemAfter (p : Placed) (num a1 a2 : U32) (r : Int) (k' : KState) : ByteMem.Mem :=
  match fdLookup p.k.files.fds (toInt a1) p.k.pid with
  | some slot =>
    if num = sysRead ∧ 0 ≤ r then
      readInto p.ptrs slot (p.k.files.fds slot).offset a2 r.toNat p.k.core.mem
    else k'.core.mem
  | none => k'.core.mem

def placedCall (mach : Machine) (p : Placed) (num a1 a2 a3 : U32) : Option (Int × Placed) :=
  (syscallEntry mach p.k num a1 a2 a3 0 0).done.map fun (r, k') =>
    (r, ⟨k'.setMem (userMemAfter p num a1 a2 r k'), syscallAt mach p num a1 a2 a3⟩)

end SlopOS.Kernel
