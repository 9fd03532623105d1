import SlopOS.Proofs.FileWrites
import SlopOS.Support.Traced
/-!
# The bytes of a write buffer

The functions of `syscall.c` that work on the buffer of a descriptor once more, with the loops as
they stand and a trace of the indices used.  Without the trace they are the functions of the model.
-/

namespace SlopOS.Proofs.BufferAccess

open SlopOS.Support SlopOS.Kernel SlopOS.Proofs.FileOutcomes SlopOS.Proofs.FileWrites

/-- An index into a buffer, and the capacity of the buffer. -/
structure BufAccess where
  index : U32
  capacity : U32
deriving Repr, DecidableEq

def BufAccess.Inside (a : BufAccess) : Prop := a.index < a.capacity

/-- `buf[index]` -/
def look (buf : Nat → U8) (capacity index : U32) : Traced BufAccess U8 :=
  .event ⟨index, capacity⟩ (buf index.toNat)

/-- `buf[index] = c` -/
def put (buf : Nat → U8) (capacity index : U32) (c : U8) : Traced BufAccess (Nat → U8) :=
  .event ⟨index, capacity⟩ (Function.update buf index.toNat c)

/-- `for (; i < stop; ++i) buf[base + i] = src(i)`, with so many turns left. -/
def putLoop (capacity base : U32) (src : U32 → Traced BufAccess U8) :
    Nat → U32 → (Nat → U8) → Traced BufAccess (Nat → U8)
  | 0, _, buf => pure buf
  | n + 1, i, buf => do
    let c ← src i
    let buf ← put buf capacity (base + i) c
    putLoop capacity base src n (i + 1) buf

/-- `while (i < len && offset < size) dst[i++] = buf[offset++]`, with `n` bytes left up to `len`: the
bytes. -/
def lookLoop (buf : Nat → U8) (capacity size : U32) : Nat → U32 → Traced BufAccess (List U8)
  | 0, _ => pure []
  | n + 1, offset =>
    if size ≤ offset then pure []
    else do
      let c ← look buf capacity offset
      let rest ← lookLoop buf capacity size n (offset + 1)
      pure (c :: rest)

/-! ## The functions -/

/-- `fd->write_buf ? fd->write_buf[i] : 0` -/
def oldByte (fd : FdEntry) (i : U32) : Traced BufAccess U8 :=
  match fd.writeBuf with
  | none => pure 0
  | some buf => look buf fd.writeCapacity i

def fdEnsureWriteCapacityTraced (mach : Machine) (heap : Heap) (fd : FdEntry) (needed : U32) :
    Traced BufAccess (Option (FdEntry × Heap)) :=
  if needed ≤ fd.writeCapacity then pure (some (fd, heap))
  else
    match growCapacity needed 33 (if fd.writeCapacity = 0 then 256 else fd.writeCapacity) with
    | none => pure none
    | some capacity =>
      match kmalloc heap capacity with
      | none => pure none
      | some (addr, heap) => do
        let newBuf ← putLoop capacity 0 (oldByte fd) fd.writeSize.toNat 0 fun i =>
          mach.ram (addr + BitVec.ofNat 32 i)
        pure (some ({ fd with writeBuf := some newBuf, writeCapacity := capacity }, heap))

def fdReadBufTraced (k : KState) (slot : Fin fdMax) (writeBuf : Nat → U8) (buf len : U32) :
    Traced BufAccess Outcome :=
  let entry := k.files.fds slot
  if entry.writeSize ≤ entry.offset then pure (.ret k 0 [])
  else do
    let bytes ← lookLoop writeBuf entry.writeCapacity entry.writeSize len.toNat entry.offset
    let n := bytes.length
    let mem := ByteMem.store k.core.mem buf n (bytes.getD · 0)
    let entry := { entry with offset := entry.offset + BitVec.ofNat 32 n }
    pure (.ret ((k.setMem mem).setFd slot entry) n [⟨buf, n⟩])

/-- `ksys_read`; of what `data` points to there is no trace. -/
def ksysReadTraced (k : KState) (fd : Int) (buf len : U32) : Traced BufAccess Outcome :=
  if (fd = 0 ∧ buf = 0) ∨ ¬validateBuffer k.core buf len ∨ fd = 0 then
    pure (ksysRead k fd buf len)
  else
    match fdLookup k.files.fds fd k.pid with
    | none => pure (.ret k errBadf [])
    | some slot =>
      let entry := k.files.fds slot
      if ¬entry.readable then pure (.ret k errBadf [])
      else
        match entry.writeBuf with
        | some writeBuf => fdReadBufTraced k slot writeBuf buf len
        | none => pure (ksysRead k fd buf len)

def fdWriteTraced (mach : Machine) (k : KState) (slot : Fin fdMax) (buf len : U32) :
    Traced BufAccess Outcome :=
  let entry := k.files.fds slot
  if ¬entry.writable then pure (.ret k errBadf [])
  else
    let needed := entry.offset + len
    if needed < entry.offset then pure (.ret k errInval [])
    else do
      let grown ← fdEnsureWriteCapacityTraced mach k.files.fs.heap entry (needed + 1)
      match grown with
      | none => pure (.ret k errInval [])
      | some (entry, heap) =>
        let capacity := entry.writeCapacity
        let writeBuf := entry.writeBuf.getD fun _ => 0
        let writeBuf ← putLoop capacity 0 (fun _ => pure 0)
          (entry.offset.toNat - entry.writeSize.toNat) entry.writeSize writeBuf
        let writeBuf ← putLoop capacity entry.offset (fun i => pure (k.core.mem (buf + i)))
          len.toNat 0 writeBuf
        let offset := entry.offset + len
        let writeSize := if entry.writeSize < offset then offset else entry.writeSize
        let writeBuf ← put writeBuf capacity writeSize 0
        let entry := { entry with
          writeBuf := some writeBuf
          offset := offset
          writeSize := writeSize
          data := .writeBuf
          size := writeSize
          dirty := true }
        pure (.ret ((k.setFs { k.files.fs with heap := heap }).setFd slot entry) (toInt len)
          [⟨buf, len.toNat⟩])

def ksysWriteTraced (mach : Machine) (k : KState) (fd : Int) (buf len : U32) :
    Traced BufAccess Outcome :=
  if buf = 0 then pure (.ret k errBadf [])
  else if ¬validateBuffer k.core buf len then pure (.ret k errFault [])
  else if fd = 1 ∨ fd = 2 then
    let n := min len.toNat syscallWriteMax
    pure (.ret k n [⟨buf, n⟩])
  else
    match fdLookup k.files.fds fd k.pid with
    | none => pure (.ret k errBadf [])
    | some slot => fdWriteTraced mach k slot buf len

def openForWriteTraced (mach : Machine) (heap : Heap) (entry : FdEntry) (data : Option Bytes)
    (size flags : U32) : Traced BufAccess (Option (FdEntry × Heap)) := do
  let initialSize := if flags &&& oTrunc ≠ 0 then 0 else size
  let grown ← fdEnsureWriteCapacityTraced mach heap entry (initialSize + 1)
  match grown with
  | none => pure none
  | some (entry, heap) =>
    let capacity := entry.writeCapacity
    let entry := { entry with writeSize := initialSize }
    let buf ← putLoop capacity 0 (fun i => pure ((data.getD []).getD i.toNat 0))
      initialSize.toNat 0 (entry.writeBuf.getD fun _ => 0)
    let buf ← put buf capacity initialSize 0
    let entry := { entry with writeBuf := some buf, data := .writeBuf, size := initialSize }
    pure (some (if flags &&& oTrunc ≠ 0 then { entry with offset := 0, dirty := true } else entry,
      heap))

def fdOpenTraced (mach : Machine) (k : KState) (slot : Fin fdMax) (fullPath : CStr)
    (data : Option Bytes) (size flags : U32) : Traced BufAccess (Int × KState) :=
  let entry := openEntry k.pid fullPath data size flags
  if entry.writable then do
    let opened ← openForWriteTraced mach k.files.fs.heap entry data size flags
    match opened with
    | none => pure (errInval, k.setFd slot emptyFd)
    | some (entry, heap) =>
      pure (slot.val, (k.setFs { k.files.fs with heap := heap }).setFd slot entry)
  else pure (slot.val, k.setFd slot entry)

def ksysOpenTraced (mach : Machine) (k : KState) (path flags : U32) : Traced BufAccess Outcome :=
  if path = 0 then pure (.ret k errInval [])
  else
    match copyUserCstr k.core path 128 with
    | (none, touched) => pure (.ret k errFault touched)
    | (some kpath, touched) =>
      match makeAbsPath k.files.fs.tree k.cwd kpath 128 with
      | none => pure (.ret k errInval touched)
      | some fullPath =>
        let (created, fs) :=
          if flags &&& oCreat ≠ 0 then vfsTouch k.files.fs k.cwd fullPath
          else (true, k.files.fs)
        let k := k.setFs fs
        if ¬created then pure (.ret k errInval touched)
        else
          match vfsReadFile mach k.files.fs k.cwd fullPath with
          | none => pure ⟨touched, none⟩
          | some (none, fs) => pure (.ret (k.setFs fs) errInval touched)
          | some (some (data, size), fs) =>
            let k := k.setFs fs
            match fdAllocSlot k.files.fds with
            | none => pure (.ret k errNfile touched)
            | some slot => do
              let opened ← fdOpenTraced mach k slot fullPath data size flags
              pure ⟨touched, some opened⟩

/-- `vfs_write_file`; `data` is what its copying loop reads. -/
def vfsWriteFileTraced (fs : Fs) (cwd : NodeId) (path : CStr) (data : Traced BufAccess Bytes)
    (size : U32) : Traced BufAccess (Bool × Fs) :=
  if (vfsMountSubpath (vfsCheckPath fs.tree cwd path)).isSome then pure (false, fs)
  else
    match vfsTouch fs cwd path with
    | (false, fs) => pure (false, fs)
    | (true, fs) =>
      match vfsResolveFrom fs.tree cwd path with
      | none => pure (false, fs)
      | some node =>
        match kmalloc fs.heap (size + 1) with
        | none => pure (false, fs)
        | some (_, heap) => do
          let copy ← data
          pure (true, { fs with tree := fs.tree.setData node copy size, heap := heap })

/-- The bytes at `write_buf ? write_buf : ""`. -/
def bufferBytes (entry : FdEntry) : Traced BufAccess Bytes :=
  match entry.writeBuf with
  | none => pure ((List.range entry.writeSize.toNat).map fun _ => 0)
  | some buf => lookLoop buf entry.writeCapacity entry.writeSize entry.writeSize.toNat 0

def fdWriteBackTraced (k : KState) (entry : FdEntry) : Traced BufAccess (Bool × Fs) :=
  if entry.writable ∧ entry.dirty then
    vfsWriteFileTraced k.files.fs k.cwd entry.path (bufferBytes entry) entry.writeSize
  else pure (true, k.files.fs)

def ksysCloseTraced (k : KState) (fd : Int) : Traced BufAccess Outcome :=
  match fdLookup k.files.fds fd k.pid with
  | none => pure (.ret k errBadf [])
  | some slot => do
    let written ← fdWriteBackTraced k (k.files.fds slot)
    match written with
    | (false, fs) => pure (.ret (k.setFs fs) errInval [])
    | (true, fs) => pure (.ret ((k.setFs fs).setFd slot emptyFd) 0 [])

/-! ## Without the trace -/

variable {mach : Machine} {k : KState} {heap : Heap} {fd : FdEntry} {slot : Fin fdMax}
variable {buf : Nat → U8} {capacity base size needed i offset : U32} {n : Nat}
variable {src : U32 → Traced BufAccess U8}

theorem toNat_add_one (h : i.toNat + 1 < 2 ^ 32) : (i + 1).toNat = i.toNat + 1 := by
  rw [BitVec.toNat_add, show (1 : U32).toNat = 1 from rfl, Nat.mod_eq_of_lt h]

theorem out_putLoop (hfit : base.toNat + i.toNat + n < 2 ^ 32) :
    (putLoop capacity base src n i buf).out = fun a =>
      if base.toNat + i.toNat ≤ a ∧ a < base.toNat + i.toNat + n then
        (src (BitVec.ofNat 32 (a - base.toNat))).out
      else buf a := by
  induction n generalizing i buf with
  | zero =>
      funext a
      rw [if_neg (by omega)]
      rfl
  | succ n ih =>
      have hnext : (i + 1).toNat = i.toNat + 1 := toNat_add_one (by omega)
      have hindex : (base + i).toNat = base.toNat + i.toNat := by
        rw [BitVec.toNat_add]
        exact Nat.mod_eq_of_lt (by omega)
      rw [putLoop, Traced.out_bind, Traced.out_bind, ih (by omega), hnext]
      funext a
      unfold put
      rw [Traced.out_event, hindex]
      by_cases hfirst : a = base.toNat + i.toNat
      · have hvalue : BitVec.ofNat 32 (a - base.toNat) = i := by
          rw [hfirst, Nat.add_sub_cancel_left, BitVec.ofNat_toNat, BitVec.setWidth_eq]
        rw [if_neg (by omega), if_pos (by omega), hvalue, hfirst, Function.update_self]
      · rw [Function.update_of_ne hfirst]
        by_cases hlater : base.toNat + (i.toNat + 1) ≤ a ∧ a < base.toNat + (i.toNat + 1) + n
        · rw [if_pos hlater, if_pos (by omega)]
        · rw [if_neg hlater, if_neg (by omega)]

theorem out_lookLoop (n : Nat) (offset : U32) : (lookLoop buf capacity size n offset).out =
    (List.range (min n (size.toNat - offset.toNat))).map fun j => buf (offset.toNat + j) := by
  induction n generalizing offset with
  | zero =>
      rw [Nat.zero_min]
      rfl
  | succ n ih =>
      rw [lookLoop]
      by_cases hend : size ≤ offset
      · have hle : size.toNat ≤ offset.toNat := hend
        rw [if_pos hend, Nat.sub_eq_zero_of_le hle, Nat.min_zero]
        rfl
      · have hlt : offset.toNat < size.toNat := Nat.not_le.mp hend
        have hsize := size.isLt
        have hnext : (offset + 1).toNat = offset.toNat + 1 := toNat_add_one (by omega)
        have hcount : min (n + 1) (size.toNat - offset.toNat) =
            min n (size.toNat - (offset.toNat + 1)) + 1 := by omega
        rw [if_neg hend, Traced.out_bind, Traced.out_bind, ih, hnext, hcount, List.range_succ_eq_map,
          List.map_cons, List.map_map]
        refine congrArg₂ List.cons rfl (List.map_congr_left fun j _ => ?_)
        rw [Function.comp_apply, Nat.add_assoc, Nat.add_comm 1 j]

theorem out_copyLoop (fd : FdEntry) (capacity : U32) (buf : Nat → U8) :
    (putLoop capacity 0 (oldByte fd) fd.writeSize.toNat 0 buf).out = fun a =>
      if a < fd.writeSize.toNat then (fd.writeBuf.getD fun _ => 0) a else buf a := by
  have hzero : (0 : U32).toNat = 0 := rfl
  have hsize := fd.writeSize.isLt
  rw [out_putLoop (by omega), hzero]
  funext a
  simp only [Nat.zero_add, Nat.zero_le, true_and, Nat.sub_zero]
  by_cases hlt : a < fd.writeSize.toNat
  · have ha : (BitVec.ofNat 32 a).toNat = a := by
      rw [BitVec.toNat_ofNat]
      exact Nat.mod_eq_of_lt (by omega)
    rw [if_pos hlt, if_pos hlt]
    unfold oldByte
    cases fd.writeBuf with
    | none => rfl
    | some b =>
        change b (BitVec.ofNat 32 a).toNat = b a
        rw [ha]
  · rw [if_neg hlt, if_neg hlt]

theorem out_fdEnsureWriteCapacity (mach : Machine) (heap : Heap) (fd : FdEntry) (needed : U32) :
    (fdEnsureWriteCapacityTraced mach heap fd needed).out =
      fdEnsureWriteCapacity mach heap fd needed := by
  unfold fdEnsureWriteCapacityTraced fdEnsureWriteCapacity
  split
  · rfl
  cases growCapacity needed 33 (if fd.writeCapacity = 0 then 256 else fd.writeCapacity) with
  | none => rfl
  | some capacity =>
      dsimp only
      cases kmalloc heap capacity with
      | none => rfl
      | some block =>
          dsimp only
          rw [Traced.out_bind, Traced.out_pure, out_copyLoop]

theorem out_fdReadBuf (k : KState) (slot : Fin fdMax) (writeBuf : Nat → U8) (buf len : U32) :
    (fdReadBufTraced k slot writeBuf buf len).out =
      fdReadFrom k slot writeBuf (k.files.fds slot).writeSize buf len := by
  unfold fdReadBufTraced fdReadFrom
  dsimp only
  split
  · rfl
  rw [Traced.out_bind, Traced.out_pure, out_lookLoop, List.length_map, List.length_range]
  generalize hn : min len.toNat _ = n
  have hbytes : ∀ j < n, ((List.range n).map fun j =>
      writeBuf ((k.files.fds slot).offset.toNat + j)).getD j 0 =
        writeBuf ((k.files.fds slot).offset.toNat + j) := by
    intro j hj
    rw [List.getD_eq_getElem?_getD, List.getElem?_map, List.getElem?_range hj]
    rfl
  rw [ByteMem.store_congr hbytes]

theorem out_ksysRead (k : KState) (fd : Int) (buf len : U32) :
    (ksysReadTraced k fd buf len).out = ksysRead k fd buf len := by
  unfold ksysReadTraced
  split
  · rfl
  rename_i hlate
  rw [not_or, not_or, not_not] at hlate
  obtain ⟨hnull, hvalid, hfd⟩ := hlate
  have hlater : ksysRead k fd buf len = match fdLookup k.files.fds fd k.pid with
      | none => .ret k errBadf []
      | some slot =>
        if ¬(k.files.fds slot).readable then .ret k errBadf []
        else
          match (k.files.fds slot).writeBuf with
          | some writeBuf => fdReadFrom k slot writeBuf (k.files.fds slot).writeSize buf len
          | none => ksysRead k fd buf len := by
    unfold ksysRead
    rw [if_neg hnull, if_neg (not_not.mpr hvalid), if_neg hfd]
    cases fdLookup k.files.fds fd k.pid with
    | none => rfl
    | some slot =>
        dsimp only
        split
        · rfl
        · cases (k.files.fds slot).writeBuf <;> rfl
  rw [hlater]
  cases fdLookup k.files.fds fd k.pid with
  | none => rfl
  | some slot =>
      dsimp only
      split
      · rfl
      cases (k.files.fds slot).writeBuf with
      | none => rfl
      | some writeBuf => exact out_fdReadBuf k slot writeBuf buf len

theorem out_writeLoops {len writeSize : U32} (mem : ByteMem.Mem) (user : U32)
    (h : ¬offset + len < offset) :
    Function.update (putLoop capacity offset (fun i => pure (mem (user + i))) len.toNat 0
        (putLoop capacity 0 (fun _ => pure 0) (offset.toNat - writeSize.toNat) writeSize buf).out).out
        (if writeSize < offset + len then offset + len else writeSize).toNat 0 =
      writeInto buf writeSize.toNat offset.toNat (fun j => mem (user + BitVec.ofNat 32 j)) len.toNat := by
  have hzero : (0 : U32).toNat = 0 := rfl
  have hneeded := ByteMem.toNat_add_of_not_lt h
  have hlt := (offset + len).isLt
  have hoffset := offset.isLt
  have hsize := writeSize.isLt
  rw [toNat_newSize writeSize h, out_putLoop (by omega), out_putLoop (by omega), hzero]
  unfold writeInto
  refine congrArg (Function.update · _ _) (funext fun a => ?_)
  have hgap : writeSize.toNat ≤ a ∧ a < writeSize.toNat + (offset.toNat - writeSize.toNat) ↔
      writeSize.toNat ≤ a ∧ a < offset.toNat := by omega
  simp only [Nat.add_zero, Nat.zero_add, Traced.out_pure, hgap]

theorem out_fdWrite (mach : Machine) (k : KState) (slot : Fin fdMax) (buf len : U32) :
    (fdWriteTraced mach k slot buf len).out = fdWrite mach k slot buf len := by
  unfold fdWriteTraced fdWrite
  dsimp only
  split
  · rfl
  split
  · rfl
  rename_i hwrap
  rw [Traced.out_bind, out_fdEnsureWriteCapacity]
  cases hgrow : fdEnsureWriteCapacity mach k.files.fs.heap (k.files.fds slot)
      ((k.files.fds slot).offset + len + 1) with
  | none => rfl
  | some grown =>
      obtain ⟨entry, heap⟩ := grown
      have hoffset := (fdEnsureWriteCapacity_grown hgrow).offset
      rw [← hoffset] at hwrap
      dsimp only
      rw [Traced.out_bind, Traced.out_bind, Traced.out_bind, Traced.out_pure, ← hoffset]
      unfold put
      rw [Traced.out_event, out_writeLoops k.core.mem buf hwrap]

theorem out_ksysWrite (mach : Machine) (k : KState) (fd : Int) (buf len : U32) :
    (ksysWriteTraced mach k fd buf len).out = ksysWrite mach k fd buf len := by
  unfold ksysWriteTraced ksysWrite
  split
  · rfl
  split
  · rfl
  split
  · rfl
  cases fdLookup k.files.fds fd k.pid with
  | none => rfl
  | some slot => exact out_fdWrite mach k slot buf len

theorem out_openForWrite (mach : Machine) (heap : Heap) (entry : FdEntry) (data : Option Bytes)
    (size flags : U32) : (openForWriteTraced mach heap entry data size flags).out =
      openForWrite mach heap entry data size flags := by
  unfold openForWriteTraced openForWrite
  dsimp only
  generalize (if flags &&& oTrunc ≠ 0 then 0 else size) = initialSize
  rw [Traced.out_bind, out_fdEnsureWriteCapacity]
  cases fdEnsureWriteCapacity mach heap entry (initialSize + 1) with
  | none => rfl
  | some grown =>
      have hzero : (0 : U32).toNat = 0 := rfl
      have hsize := initialSize.isLt
      dsimp only
      rw [Traced.out_bind, Traced.out_bind, Traced.out_pure, out_putLoop (by omega), hzero]
      unfold put
      rw [Traced.out_event]
      have hcopy : ∀ a, a < initialSize.toNat →
          (data.getD []).getD (BitVec.ofNat 32 a).toNat 0 = (data.getD []).getD a 0 := by
        intro a ha
        rw [BitVec.toNat_ofNat, Nat.mod_eq_of_lt (by omega)]
      have hbytes : (fun a => if 0 + 0 ≤ a ∧ a < 0 + 0 + initialSize.toNat then
            (pure ((data.getD []).getD (BitVec.ofNat 32 (a - 0)).toNat 0) : Traced BufAccess U8).out
          else (grown.1.writeBuf.getD fun _ => 0) a) =
          fun a => if a < initialSize.toNat then (data.getD []).getD a 0
            else (grown.1.writeBuf.getD fun _ => 0) a := by
        funext a
        simp only [Nat.zero_add, Nat.zero_le, true_and, Nat.sub_zero, Traced.out_pure]
        by_cases hlt : a < initialSize.toNat
        · rw [if_pos hlt, if_pos hlt, hcopy a hlt]
        · rw [if_neg hlt, if_neg hlt]
      rw [hbytes]

theorem out_fdOpen (mach : Machine) (k : KState) (slot : Fin fdMax) (fullPath : CStr)
    (data : Option Bytes) (size flags : U32) :
    (fdOpenTraced mach k slot fullPath data size flags).out =
      fdOpen mach k slot fullPath data size flags := by
  unfold fdOpenTraced fdOpen
  dsimp only
  split
  · rw [Traced.out_bind, out_openForWrite]
    cases openForWrite mach k.files.fs.heap (openEntry k.pid fullPath data size flags) data size
      flags <;> rfl
  · rfl

theorem out_ksysOpen (mach : Machine) (k : KState) (path flags : U32) :
    (ksysOpenTraced mach k path flags).out = ksysOpen mach k path flags := by
  unfold ksysOpenTraced ksysOpen
  split
  · rfl
  rcases copyUserCstr k.core path 128 with ⟨_ | kpath, touched⟩
  · rfl
  dsimp only
  cases makeAbsPath k.files.fs.tree k.cwd kpath 128 with
  | none => rfl
  | some fullPath =>
      dsimp only
      generalize (if flags &&& oCreat ≠ 0 then vfsTouch k.files.fs k.cwd fullPath
        else (true, k.files.fs)) = touch
      split
      · rfl
      rcases vfsReadFile mach (k.setFs touch.2).files.fs (k.setFs touch.2).cwd fullPath with
        _ | ⟨_ | ⟨data, size⟩, fs⟩
      · rfl
      · rfl
      dsimp only
      cases fdAllocSlot ((k.setFs touch.2).setFs fs).files.fds with
      | none => rfl
      | some slot =>
          dsimp only
          rw [Traced.out_bind, Traced.out_pure, out_fdOpen]

theorem out_bufferBytes (entry : FdEntry) : (bufferBytes entry).out =
    (List.range entry.writeSize.toNat).map (entry.writeBuf.getD fun _ => 0) := by
  unfold bufferBytes
  cases entry.writeBuf with
  | none => rfl
  | some buf =>
      dsimp only
      rw [out_lookLoop, show (0 : U32).toNat = 0 from rfl, Nat.sub_zero, Nat.min_self]
      simp only [Nat.zero_add]
      rfl

theorem out_fdWriteBack (k : KState) (entry : FdEntry) :
    (fdWriteBackTraced k entry).out = fdWriteBack k entry := by
  unfold fdWriteBackTraced fdWriteBack
  split
  · unfold vfsWriteFileTraced vfsWriteFile
    split
    · rfl
    rcases vfsTouch k.files.fs k.cwd entry.path with ⟨_ | _, fs⟩
    · rfl
    dsimp only
    cases vfsResolveFrom fs.tree k.cwd entry.path with
    | none => rfl
    | some node =>
        dsimp only
        cases kmalloc fs.heap (entry.writeSize + 1) with
        | none => rfl
        | some block =>
            dsimp only
            rw [Traced.out_bind, Traced.out_pure]
            rw [out_bufferBytes]
  · rfl

theorem out_ksysClose (k : KState) (fd : Int) :
    (ksysCloseTraced k fd).out = ksysClose k fd := by
  unfold ksysCloseTraced ksysClose
  cases fdLookup k.files.fds fd k.pid with
  | none => rfl
  | some slot =>
      dsimp only
      rw [Traced.out_bind, out_fdWriteBack]
      rcases fdWriteBack k (k.files.fds slot) with ⟨_ | _, fs⟩ <;> rfl

/-! ## The indices of the loops -/

theorem inside_putLoop (hfit : base.toNat + i.toNat + n ≤ capacity.toNat)
    (hsrc : ∀ j : U32, j.toNat < i.toNat + n → (src j).All BufAccess.Inside) :
    (putLoop capacity base src n i buf).All BufAccess.Inside := by
  induction n generalizing i buf with
  | zero => exact Traced.all_pure _
  | succ n ih =>
      have hcapacity := capacity.isLt
      rw [putLoop]
      apply (hsrc i (by omega)).bind
      apply Traced.All.bind
      · apply Traced.all_event
        change (base + i).toNat < capacity.toNat
        rw [BitVec.toNat_add, Nat.mod_eq_of_lt (by omega)]
        omega
      · have hnext : (i + 1).toNat = i.toNat + 1 := toNat_add_one (by omega)
        exact ih (by omega) fun j hj => hsrc j (by omega)

theorem inside_lookLoop (hsize : size.toNat ≤ capacity.toNat) (n : Nat) (offset : U32) :
    (lookLoop buf capacity size n offset).All BufAccess.Inside := by
  induction n generalizing offset with
  | zero => exact Traced.all_pure _
  | succ n ih =>
      rw [lookLoop]
      split
      · exact Traced.all_pure _
      rename_i hnotEnd
      apply Traced.All.bind
      · apply Traced.all_event
        exact Nat.lt_of_lt_of_le (Nat.not_le.mp hnotEnd) hsize
      · exact (ih (offset + 1)).bind (Traced.all_pure _)

theorem inside_fdEnsureWriteCapacity (hle : fd.writeSize.toNat ≤ fd.writeCapacity.toNat) :
    (fdEnsureWriteCapacityTraced mach heap fd needed).All BufAccess.Inside := by
  unfold fdEnsureWriteCapacityTraced
  split
  · exact Traced.all_pure _
  rename_i hmore
  cases hgrow : growCapacity needed 33
      (if fd.writeCapacity = 0 then 256 else fd.writeCapacity) with
  | none => exact Traced.all_pure _
  | some capacity =>
      have hneeded : needed.toNat ≤ capacity.toNat := growCapacity_le hgrow
      have hmore' : fd.writeCapacity.toNat < needed.toNat := Nat.not_le.mp hmore
      have hzero : (0 : U32).toNat = 0 := rfl
      dsimp only
      cases kmalloc heap capacity with
      | none => exact Traced.all_pure _
      | some block =>
          refine (inside_putLoop (by omega) fun j hj => ?_).bind (Traced.all_pure _)
          unfold oldByte
          cases fd.writeBuf with
          | none => exact Traced.all_pure _
          | some old =>
              apply Traced.all_event
              change j.toNat < fd.writeCapacity.toNat
              omega

end SlopOS.Proofs.BufferAccess
