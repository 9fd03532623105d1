import SlopOS.Kernel.Core
/-!
# `elf.c`

Header validation, the load plan, loading, argument set-up, and the snapshot
and restore of a process image.  A file is seen through its data pointer:
`byte i` is the byte at `data + i`, for every 32-bit `i`, so an index that has
wrapped reads whatever memory lies there.  `LoadTrace` records which memory the
loader writes and which file bytes it reads.
-/

namespace SlopOS.Kernel

open SlopOS.Support

/-- The pair `(data, size)` that `vfs_read_file` hands out. -/
structure FileView where
  byte : U32 → U8
  size : U32

/-- A file with contents `bs`; `outside` is the memory around its block. -/
def FileView.ofBytes (outside : U32 → U8) (bs : Bytes) : FileView where
  byte i := (bs[i.toNat]?).getD (outside i)
  size := BitVec.ofNat 32 bs.length

namespace FileView

def u16 (f : FileView) (off : U32) : U16 := f.byte (off + 1) ++ f.byte off

def u32 (f : FileView) (off : U32) : U32 := ByteMem.loadWord f.byte off

end FileView

structure Elf32Ehdr where
  eIdent : Nat → U8
  eType : U16
  eMachine : U16
  eVersion : U32
  eEntry : U32
  ePhoff : U32
  ePhentsize : U16
  ePhnum : U16

structure Elf32Phdr where
  pType : U32
  pOffset : U32
  pVaddr : U32
  pFilesz : U32
  pMemsz : U32
  pFlags : U32
deriving Repr, DecidableEq

def elf32EhdrSize : Nat := 52
def elf32PhdrSize : Nat := 32
def ptLoad : U32 := 1

/-- `(const struct elf32_ehdr *)data`. -/
def FileView.ehdr (f : FileView) : Elf32Ehdr where
  eIdent i := f.byte (BitVec.ofNat 32 i)
  eType := f.u16 16
  eMachine := f.u16 18
  eVersion := f.u32 20
  eEntry := f.u32 24
  ePhoff := f.u32 28
  ePhentsize := f.u16 42
  ePhnum := f.u16 44

/-- Entry `i` of the table at `data + e_phoff`. -/
def FileView.phdr (f : FileView) (i : Nat) : Elf32Phdr :=
  let p := f.ehdr.ePhoff + BitVec.ofNat 32 (elf32PhdrSize * i)
  { pType := f.u32 p
    pOffset := f.u32 (p + 4)
    pVaddr := f.u32 (p + 8)
    pFilesz := f.u32 (p + 16)
    pMemsz := f.u32 (p + 20)
    pFlags := f.u32 (p + 24) }

/-! ## Image slots -/

/-- `elf_slot_for_pid`: the slot of `pid`, taking over a free or dead one if it
has none. -/
def elfSlotForPid (c : Core) (pid : Int) : Option (Fin elfProcSlots) × Core :=
  match Fin.find? fun i => decide (c.elf.slotOwnerPid i = pid) with
  | some i => (some i, c)
  | none =>
    match Fin.find? fun i => decide (c.elf.slotOwnerPid i < 0) ||
        decide (procStateOf c.proc (c.elf.slotOwnerPid i) = .unused) with
    | some i =>
      (some i, { c with elf :=
        { c.elf with slotOwnerPid := Function.update c.elf.slotOwnerPid i pid } })
    | none => (none, c)

/-! ## The load plan -/

def elfValidateHeader (eh : Elf32Ehdr) (size : U32) : Bool :=
  if size < BitVec.ofNat 32 elf32EhdrSize then false
  else if eh.eIdent 0 ≠ 0x7F ∨ eh.eIdent 1 ≠ chr 'E' ∨ eh.eIdent 2 ≠ chr 'L' ∨
      eh.eIdent 3 ≠ chr 'F' then false
  else if eh.eIdent 4 ≠ 1 ∨ eh.eIdent 5 ≠ 1 ∨ eh.eIdent 6 ≠ 1 then false
  else if eh.eType ≠ 2 ∨ eh.eMachine ≠ 3 ∨ eh.eVersion ≠ 1 then false
  else if eh.ePhentsize ≠ BitVec.ofNat 16 elf32PhdrSize ∨ eh.ePhnum = 0 then false
  else if size < eh.ePhoff + eh.ePhnum.setWidth 32 * eh.ePhentsize.setWidth 32 then false
  else true

/-- The locals of the segment loop: bounds so far and the segments recorded. -/
structure PlanScan where
  minVaddr : U32
  maxEnd : U32
  segments : List ExecSegment

/-- One turn of the segment loop; `none` is one of its error returns. -/
def planStep (size : U32) (acc : PlanScan) (p : Elf32Phdr) : Option PlanScan :=
  if p.pType ≠ ptLoad then some acc
  else if p.pMemsz < p.pFilesz ∨ size < p.pOffset + p.pFilesz then none
  else if execMaxSegments ≤ acc.segments.length then none
  else some
    { minVaddr := if p.pVaddr < acc.minVaddr then p.pVaddr else acc.minVaddr
      maxEnd := if acc.maxEnd < p.pVaddr + p.pMemsz then p.pVaddr + p.pMemsz else acc.maxEnd
      segments := acc.segments ++
        [⟨p.pOffset, p.pFilesz, p.pMemsz, p.pVaddr, p.pFlags⟩] }

def planScan (size : U32) (phdrs : List Elf32Phdr) : Option PlanScan :=
  phdrs.foldlM (planStep size) ⟨0xFFFFFFFF, 0, []⟩

def FileView.phdrs (f : FileView) : List Elf32Phdr :=
  (List.range f.ehdr.ePhnum.toNat).map f.phdr

/-- `elf_prepare_load_plan_from_vfs`; `file` is what its `vfs_read_file` found. -/
def elfPrepareLoadPlanFromVfs (file : Option FileView) : Option ExecLoadPlan :=
  match file with
  | none => none
  | some f =>
    if elfValidateHeader f.ehdr f.size then
      match planScan f.size f.phdrs with
      | none => none
      | some acc =>
        if acc.segments = [] ∨ acc.maxEnd ≤ acc.minVaddr then none
        else if acc.minVaddr < elfUserImageBase ∨
            elfUserImageBase + BitVec.ofNat 32 elfUserImageMax < acc.maxEnd then none
        else if BitVec.ofNat 32 elfUserImageMax < acc.maxEnd - acc.minVaddr then none
        else some
          { valid := true
            entry := f.ehdr.eEntry
            imageBase := acc.minVaddr
            imageSize := acc.maxEnd - acc.minVaddr
            segments := acc.segments }
    else none

/-! ## Loading -/

/-- Which bytes a load touches: memory written, and file indices read. -/
structure LoadTrace where
  writes : List ByteMem.Span
  reads : List ByteMem.Span

def copySegment (f : FileView) (m : ByteMem.Mem) (seg : ExecSegment) : ByteMem.Mem :=
  ByteMem.store m seg.vaddr seg.fileSize.toNat fun j =>
    f.byte (seg.fileOffset + BitVec.ofNat 32 j)

/-- The segment loop of `elf_load_from_plan`: whether it reached its end, the
memory it leaves and what it touched. -/
def loadSegments (f : FileView) (m : ByteMem.Mem) (tr : LoadTrace) :
    List ExecSegment → Bool × ByteMem.Mem × LoadTrace
  | [] => (true, m, tr)
  | seg :: segs =>
    if f.size < seg.fileOffset + seg.fileSize then (false, m, tr)
    else loadSegments f (copySegment f m seg)
      { writes := tr.writes ++ [⟨seg.vaddr, seg.fileSize.toNat⟩]
        reads := tr.reads ++ [⟨seg.fileOffset, seg.fileSize.toNat⟩] } segs

/-- `mem_zero((void *)ELF_USER_IMAGE_BASE, ELF_USER_IMAGE_MAX)`. -/
def zeroWindow (m : ByteMem.Mem) : ByteMem.Mem :=
  ByteMem.store m elfUserImageBase elfUserImageMax fun _ => 0

structure LoadResult where
  image : Option ProcImage
  core : Core
  trace : LoadTrace

/-- The range test that loader, snapshot and resume share. -/
def imageOutsideWindow (base size : U32) : Bool :=
  decide (base < elfUserImageBase) ||
    decide (elfUserImageBase + BitVec.ofNat 32 elfUserImageMax < base + size)

def elfLoadFromPlan (mach : Machine) (c : Core) (pid : Int) (plan : ExecLoadPlan)
    (file : FileView) : LoadResult :=
  if ¬plan.valid ∨ pid < 0 then ⟨none, c, ⟨[], []⟩⟩
  else if imageOutsideWindow plan.imageBase plan.imageSize then ⟨none, c, ⟨[], []⟩⟩
  else
    match elfSlotForPid c pid with
    | (none, c) => ⟨none, c, ⟨[], []⟩⟩
    | (some slot, c) =>
      let zeroed : LoadTrace := ⟨[⟨elfUserImageBase, elfUserImageMax⟩], []⟩
      match loadSegments file (zeroWindow c.mem) zeroed plan.segments with
      | (false, m, tr) => ⟨none, { c with mem := m }, tr⟩
      | (true, m, tr) =>
        ⟨some
          { loaded := true
            entry := plan.entry
            imageBase := plan.imageBase
            imageSize := plan.imageSize
            userStackBase := mach.stackBase slot
            userStackSize := BitVec.ofNat 32 elfStackSize
            cwd := none
            output := .vga
            contextValid := false
            context := {} },
          { c with mem := m }, tr⟩

/-! ## Entering and re-entering Ring 3 -/

/-- `enter_user_mode`: the frame it hands to `iretd`.  The other registers are
what the kernel happened to hold. -/
def enterUserMode (c : Core) (entry userStack : U32) : Core :=
  { c with ring3 := { c.ring3 with
      active := true
      stopReason := 0
      regs := { c.ring3.regs with
        esi := entry
        edi := userStack
        eip := entry
        cs := 0x1B
        eflags := 0x202
        userEsp := userStack
        userSs := 0x23 } } }

/-- `resume_user_mode`: five pushes for `iretd` and seven register loads, each
by byte offset into the context. -/
def resumeUserMode (c : Core) (context : UserContext) : Core :=
  { c with ring3 := { c.ring3 with
      active := true
      stopReason := 0
      regs :=
        { userSs := context.at 48
          userEsp := context.at 44
          eflags := context.at 40
          cs := context.at 36
          eip := context.at 32
          edi := context.at 0
          ebp := context.at 8
          ebx := context.at 16
          edx := context.at 20
          ecx := context.at 24
          eax := context.at 28
          esi := context.at 4
          espDummy := c.ring3.regs.espDummy } } }

/-- The copy loop of `elf_execute_image`, from the last argument down: stack
pointer and string addresses, or `none` for one of its two error returns. -/
def pushArgs (image : ProcImage) (argv : Nat → Option CStr) :
    Nat → U32 → ByteMem.Mem → List U32 → Option (U32 × List U32) × ByteMem.Mem
  | 0, sp, m, addrs => (some (sp, addrs), m)
  | i + 1, sp, m, addrs =>
    let src := (argv i).getD []
    let len : U32 := BitVec.ofNat 32 (strLen src) + 1
    if image.userStackSize - 64 < len then (none, m)
    else if sp < image.userStackBase + len + 16 then (none, m)
    else
      let sp := sp - len
      pushArgs image argv i sp
        (ByteMem.store m sp len.toNat fun j => src.getD j 0) (sp :: addrs)

/-- `elf_execute_image` up to `enter_user_mode`: `false` is an error return,
after which memory may hold arguments already pushed. -/
def elfExecuteImage (c : Core) (image : ProcImage) (pid : Int) (argc : Int)
    (argv : Nat → Option CStr) : Bool × Core :=
  if ¬image.loaded ∨ pid < 0 then (false, c)
  else if image.entry < image.imageBase ∨ image.imageBase + image.imageSize ≤ image.entry then
    (false, c)
  else if image.userStackSize < 64 then (false, c)
  else
    let argc : Nat := min argc.toNat elfArgMax
    match pushArgs image argv argc (image.userStackBase + image.userStackSize) c.mem [] with
    | (none, m) => (false, { c with mem := m })
    | (some (sp, addrs), m) =>
      let sp := sp &&& ~~~3
      let tableSize : U32 := (BitVec.ofNat 32 argc + 1) * 4
      if sp < image.userStackBase + tableSize + 8 then (false, { c with mem := m })
      else
        let table := sp - tableSize
        let m := ByteMem.storeWords m table (addrs ++ [0])
        if table < image.userStackBase + 8 then (false, { c with mem := m })
        else
          let sp := table - 8
          let m := ByteMem.storeWords m sp [BitVec.ofNat 32 argc, table]
          let c := { c with
            mem := m
            ring3 := { c.ring3 with currentPid := toU32 pid } }
          (true, enterUserMode c image.entry sp)

/-! ## Snapshot, resume and writes into a stopped process -/

/-- `user_images[slot]` as `saved` has it. -/
def setSaved (c : Core) (slot : Fin elfProcSlots) (saved : Nat → U8) : Core :=
  let images := Function.update c.elf.userImages slot saved
  { c with elf := { c.elf with userImages := images } }

/-- The bytes a snapshot saves; behind the image the slot keeps what it had. -/
def savedImage (c : Core) (image : ProcImage) (slot : Fin elfProcSlots) : Nat → U8 := fun i =>
  if i < image.imageSize.toNat then c.mem (image.imageBase + BitVec.ofNat 32 i)
  else c.elf.userImages slot i

/-- A saved image with `n` bytes at `offset` overwritten. -/
def patchSaved (saved : Nat → U8) (offset n : Nat) (src : Nat → U8) : Nat → U8 := fun i =>
  if offset ≤ i ∧ i < offset + n then src (i - offset) else saved i

def elfSnapshotImage (c : Core) (pid : Int) (image : ProcImage) : Bool × Core :=
  if pid < 0 ∨ ¬image.loaded then (false, c)
  else if imageOutsideWindow image.imageBase image.imageSize then (false, c)
  else
    match elfSlotForPid c pid with
    | (none, c) => (false, c)
    | (some slot, c) => (true, setSaved c slot (savedImage c image slot))

def elfResumeImage (c : Core) (image : ProcImage) (pid : Int) : Bool × Core :=
  if ¬image.loaded ∨ ¬image.contextValid ∨ pid < 0 then (false, c)
  else if imageOutsideWindow image.imageBase image.imageSize then (false, c)
  else
    match elfSlotForPid c pid with
    | (none, c) => (false, c)
    | (some slot, c) =>
      let m := ByteMem.store (zeroWindow c.mem) image.imageBase image.imageSize.toNat
        (c.elf.userImages slot)
      let c := { c with
        mem := m
        ring3 := { c.ring3 with currentPid := toU32 pid } }
      (true, resumeUserMode c image.context)

def writeFits (base size dst len : U32) : Bool :=
  decide (base ≤ dst) && decide (dst ≤ dst + len) && decide (dst + len ≤ base + size)

/-- `elf_write_to_task_memory` for the bytes `src 0 .. src (len - 1)`. -/
def elfWriteToTaskMemory (c : Core) (pid : Int) (dst : U32) (src : Nat → U8) (len : U32) :
    Bool × Core :=
  match procGetImage c.proc pid with
  | none => (false, c)
  | some image =>
    if pid < 0 ∨ len = 0 ∨ ¬image.loaded then (false, c)
    else
      match elfSlotForPid c pid with
      | (none, c) => (false, c)
      | (some slot, c) =>
        if writeFits image.imageBase image.imageSize dst len then
          let offset := (dst - image.imageBase).toNat
          (true, setSaved c slot (patchSaved (c.elf.userImages slot) offset len.toNat src))
        else if writeFits image.userStackBase image.userStackSize dst len then
          (true, { c with mem := ByteMem.store c.mem dst len.toNat src })
        else (false, c)

end SlopOS.Kernel
