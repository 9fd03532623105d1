import SlopOS.User.SlopAlloc
/-!
# The memory streams of `slop_stdio.c`

A stream that `slop_tmpfile` made: its kind is `SLOP_FILE_KIND_MEM` for good, so
of each function the branch for that kind is modelled.  Accesses through
`fp->mem` are recorded by their offset from it.  `none` is a call that never
returns; a `long` is a 32-bit word read with its sign.
-/

namespace SlopOS.User

open SlopOS.Kernel SlopOS.Support

/-- `SLOP_FILE` of kind `SLOP_FILE_KIND_MEM`. -/
structure SlopFile where
  eof : Bool
  err : Bool
  pos : U32
  size : U32
  capacity : U32
  mem : Option U32
deriving DecidableEq

/-- `sizeof(SLOP_FILE)`. -/
def slopFileSize : U32 := 36

def slopTmpfile (a : SlopAlloc) : Option SlopFile × SlopAlloc :=
  match slopMalloc a slopFileSize with
  | (none, a) => (none, a)
  | (some _, a) => (some ⟨false, false, 0, 0, 0, none⟩, a)

/-- `len` bytes from `mem + offset` on are read or written. -/
structure Access where
  mem : Option U32
  offset : U32
  len : Nat
deriving DecidableEq

/-- The loop `mem[offset + j] = f j`; a null pointer leads out of the arena. -/
def SlopAlloc.put (a : SlopAlloc) (mem : Option U32) (offset : U32) (n : Nat) (f : Nat → U8) :
    SlopAlloc :=
  match mem with
  | none => a
  | some mem => { a with arena := ByteMem.store a.arena (mem + offset) n f }

/-- The bytes `mem[offset + j]`. -/
def SlopAlloc.get (a : SlopAlloc) (mem : Option U32) (offset : U32) (n : Nat) : Bytes :=
  match mem with
  | none => List.replicate n 0
  | some mem => ByteMem.load a.arena (mem + offset) n

/-- `while (capacity < needed) capacity *= 2`. -/
def growCapacity (needed : U32) : Nat → U32 → Option U32
  | 0, _ => none
  | fuel + 1, capacity =>
    if capacity < needed then growCapacity needed fuel (capacity * 2) else some capacity

/-- After so many turns the capacity is 0 and stays it. -/
def growTurns : Nat := 33

/-- What a call returns, with the allocator and the stream after it. -/
structure StdioDone (ρ : Type) where
  value : ρ
  alloc : SlopAlloc
  file : SlopFile
  accesses : List Access

def slopEnsureMemCapacity (a : SlopAlloc) (fp : SlopFile) (needed : U32) :
    Option (StdioDone Bool) :=
  if needed ≤ fp.capacity then some ⟨true, a, fp, []⟩
  else
    match growCapacity needed growTurns (if fp.capacity ≠ 0 then fp.capacity else 256) with
    | none => none
    | some capacity =>
      match slopRealloc a fp.mem capacity with
      | (none, a) => some ⟨false, a, fp, []⟩
      | (some newMem, a) =>
        let fill := (capacity - fp.capacity).toNat
        some
          { value := true
            alloc := a.put (some newMem) fp.capacity fill fun _ => 0
            file := { fp with mem := some newMem, capacity := capacity }
            accesses := [⟨some newMem, fp.capacity, fill⟩] }

def slopFgetc (a : SlopAlloc) (fp : SlopFile) : StdioDone Int :=
  if fp.size ≤ fp.pos then ⟨-1, a, { fp with eof := true }, []⟩
  else
    { value := ((a.get fp.mem fp.pos 1).getD 0 0).toNat
      alloc := a
      file := { fp with pos := fp.pos + 1 }
      accesses := [⟨fp.mem, fp.pos, 1⟩] }

/-- What `slop_fputc` and `slop_fwrite` do once there is room: copy the bytes, move the
position, and put a NUL behind the contents. -/
def putBytes (a : SlopAlloc) (fp : SlopFile) (n : U32) (src : Nat → U8) : StdioDone Unit :=
  let pos := fp.pos + n
  let size := if fp.size < pos then pos else fp.size
  { value := ()
    alloc := (a.put fp.mem fp.pos n.toNat src).put fp.mem size 1 fun _ => 0
    file := { fp with pos := pos, size := size }
    accesses := [⟨fp.mem, fp.pos, n.toNat⟩, ⟨fp.mem, size, 1⟩] }

def slopFputc (a : SlopAlloc) (ch : Int) (fp : SlopFile) : Option (StdioDone Int) :=
  let c : U8 := BitVec.ofInt 8 ch
  match slopEnsureMemCapacity a fp (fp.pos + 2) with
  | none => none
  | some ⟨false, a, fp, accesses⟩ => some ⟨-1, a, { fp with err := true }, accesses⟩
  | some ⟨true, a, fp, accesses⟩ =>
    let put := putBytes a fp 1 fun _ => c
    some ⟨c.toNat, put.alloc, put.file, accesses ++ put.accesses⟩

/-- The items read, with the bytes stored at `ptr`; `none` is a null pointer. -/
def slopFread (a : SlopAlloc) (ptr : Option Unit) (size nmemb : U32) (fp : SlopFile) :
    StdioDone (U32 × Bytes) :=
  if ptr = none ∨ size = 0 ∨ nmemb = 0 then ⟨(0, []), a, fp, []⟩
  else
    let available := if fp.pos < fp.size then fp.size - fp.pos else 0
    let want := size * nmemb
    let take := if want < available then want else available
    { value := (take / size, a.get fp.mem fp.pos take.toNat)
      alloc := a
      file := { fp with pos := fp.pos + take, eof := fp.eof || decide (take < want) }
      accesses := [⟨fp.mem, fp.pos, take.toNat⟩] }

/-- `ptr` is null, or the bytes that it points to. -/
def slopFwrite (a : SlopAlloc) (ptr : Option (Nat → U8)) (size nmemb : U32) (fp : SlopFile) :
    Option (StdioDone U32) :=
  match ptr with
  | none => some ⟨0, a, fp, []⟩
  | some src =>
    if size = 0 ∨ nmemb = 0 then some ⟨0, a, fp, []⟩
    else
      let total := size * nmemb
      match slopEnsureMemCapacity a fp (fp.pos + total + 1) with
      | none => none
      | some ⟨false, a, fp, accesses⟩ => some ⟨0, a, { fp with err := true }, accesses⟩
      | some ⟨true, a, fp, accesses⟩ =>
        let put := putBytes a fp total src
        some ⟨nmemb, put.alloc, put.file, accesses ++ put.accesses⟩

def slopFseek (fp : SlopFile) (offset : U32) (whence : Int) : Int × SlopFile :=
  let seek (base : U32) : Int × SlopFile :=
    let pos := base + offset
    if toInt pos < 0 then (-1, { fp with err := true })
    else (0, { fp with pos := pos, eof := false })
  if whence = 0 then seek 0
  else if whence = 1 then seek fp.pos
  else if whence = 2 then seek fp.size
  else (-1, { fp with err := true })

def slopFtell (fp : SlopFile) : Int := toInt fp.pos

end SlopOS.User
