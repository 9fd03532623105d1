import SlopOS.Proofs.DiscDirs
import SlopOS.Proofs.DiscFiles
/-!
# The sectors that are requested

The functions of `fs.c` once more, with a log of the sectors they ask the device
for and of the extent each request belongs to.  Without the log they are the
functions of the model, and the logs miss nothing that the results depend on
(`requests_decide`).
-/

namespace SlopOS.Proofs.DiscReads

open SlopOS.Support SlopOS.Support.PathText SlopOS.Kernel
open SlopOS.Proofs.DiscScan SlopOS.Proofs.DiscPaths SlopOS.Proofs.DiscDirs
open SlopOS.Proofs.DiscFiles (sectorCount)

/-- A requested sector, and the directory or file it is requested for; the volume
descriptor has none. -/
structure Request where
  lba : U32
  extent : Option IsoDirLoc

/-- A computation that may not come back, with its requests. -/
structure Logged (α : Type) where
  reads : List Request
  out : Option α

namespace Logged

variable {α β : Type}

def ret (a : α) : Logged α := ⟨[], some a⟩

def after (log : List Request) (m : Logged α) : Logged α := ⟨log ++ m.reads, m.out⟩

def andThen (m : Logged α) (f : α → Logged β) : Logged β :=
  match m.out with
  | none => ⟨m.reads, none⟩
  | some a => ⟨m.reads ++ (f a).reads, (f a).out⟩

@[simp] theorem out_ret (a : α) : (ret a).out = some a := rfl

@[simp] theorem out_after (log : List Request) (m : Logged α) : (after log m).out = m.out := rfl

theorem out_andThen (m : Logged α) (f : α → Logged β) :
    (m.andThen f).out = m.out.bind fun a => (f a).out := by
  unfold andThen
  cases m.out <;> rfl

theorem mem_andThen {m : Logged α} {f : α → Logged β} {q : Request}
    (h : q ∈ (m.andThen f).reads) :
    q ∈ m.reads ∨ ∃ a, m.out = some a ∧ q ∈ (f a).reads := by
  unfold andThen at h
  cases hout : m.out with
  | none =>
      rw [hout] at h
      exact Or.inl h
  | some a =>
      rw [hout] at h
      rcases List.mem_append.mp h with h | h
      · exact Or.inl h
      · exact Or.inr ⟨a, rfl, h⟩

end Logged

def scanRequest (dir : IsoDirLoc) (offset : U32) : List Request :=
  if dir.size ≤ offset then [] else [⟨dir.extentLba + offset / 2048, some dir⟩]

def findChildLogged (read : Disc) (dir : IsoDirLoc) (name : CStr) :
    Nat → U32 → Logged (Option IsoDirLoc)
  | 0, _ => ⟨[], none⟩
  | fuel + 1, offset =>
    .after (scanRequest dir offset) <|
      match scanNext read dir offset with
      | .done => .ret none
      | .failed => .ret none
      | .skip next => findChildLogged read dir name fuel next
      | .record r next =>
        if r.answers name then .ret (some r.loc) else findChildLogged read dir name fuel next

def listDirLogged (read : Disc) (dir : IsoDirLoc) :
    Nat → U32 → List FsDirEntry → Logged (Bool × List FsDirEntry)
  | 0, _, _ => ⟨[], none⟩
  | fuel + 1, offset, entries =>
    .after (scanRequest dir offset) <|
      match scanNext read dir offset with
      | .done => .ret (true, entries)
      | .failed => .ret (false, entries)
      | .skip next => listDirLogged read dir fuel next entries
      | .record r next =>
        listDirLogged read dir fuel next (if r.isDot then entries else entries ++ [r.listed])

def isoFindChildLogged (read : Disc) (dir : IsoDirLoc) (name : CStr) : Logged (Option IsoDirLoc) :=
  findChildLogged read dir name scanFuel 0

def isoListDirLogged (read : Disc) (dir : IsoDirLoc) : Logged (Bool × List FsDirEntry) :=
  listDirLogged read dir scanFuel 0 []

/-- `iso_read_pvd_root`: sector 16 and no other. -/
def isoReadPvdRootLogged (read : Disc) : Logged (Option (IsoDirLoc × U32)) :=
  ⟨[⟨16, none⟩], some (isoReadPvdRoot read)⟩

def isoWalkLogged (read : Disc) (volumeSectors : U32) :
    CStr → IsoDirLoc → CStr → Bool → Logged (Option (IsoDirLoc × CStr × Bool))
  | [], cur, comp, haveComponent => .ret (some (cur, comp, haveComponent))
  | c :: p, cur, comp, haveComponent =>
    if c = chr '/' then
      if comp = [] then isoWalkLogged read volumeSectors p cur comp haveComponent
      else
        (isoFindChildLogged read cur comp).andThen fun found =>
          match found with
          | none => .ret none
          | some child =>
            if child.flags &&& 0x02 = 0 then .ret none
            else if !isoExtentValid child.extentLba child.size volumeSectors then .ret none
            else isoWalkLogged read volumeSectors p child [] true
    else if direntNameSize ≤ comp.length + 1 then .ret none
    else isoWalkLogged read volumeSectors p cur (comp ++ [c]) true

def readDataLogged (read : Disc) (loc : IsoDirLoc) (total : Nat) :
    Nat → Nat → Bytes → Logged (Option Bytes)
  | 0, _, buf => .ret (some buf)
  | n + 1, k, buf =>
    .after [⟨loc.extentLba + BitVec.ofNat 32 k, some loc⟩] <|
      match read (loc.extentLba + BitVec.ofNat 32 k) with
      | none => .ret none
      | some sector =>
        let chunk := min isoSectorSize (total - isoSectorSize * k)
        readDataLogged read loc total n (k + 1) (buf ++ (List.range chunk).map sector)

def isoReadFileAllocLogged (read : Disc) (heap : Heap) (isoPath : CStr) :
    Logged (Option Bytes × Heap) :=
  let p := skipSlashes isoPath
  if p = [] then .ret (none, heap)
  else
    (isoReadPvdRootLogged read).andThen fun pvd =>
      match pvd with
      | none => .ret (none, heap)
      | some (root, volumeSectors) =>
        if !isoExtentValid root.extentLba root.size volumeSectors then .ret (none, heap)
        else
          (isoWalkLogged read volumeSectors p root [] false).andThen fun walked =>
            match walked with
            | none => .ret (none, heap)
            | some (cur, comp, haveComponent) =>
              if !haveComponent ∨ comp = [] then .ret (none, heap)
              else
                (isoFindChildLogged read cur comp).andThen fun found =>
                  match found with
                  | none => .ret (none, heap)
                  | some child =>
                    if child.flags &&& 0x02 ≠ 0 then .ret (none, heap)
                    else if !isoExtentValid child.extentLba child.size volumeSectors then
                      .ret (none, heap)
                    else if isoFileMax < child.size.toNat then .ret (none, heap)
                    else
                      match kmalloc heap (child.size + 1) with
                      | none => .ret (none, heap)
                      | some (_, heap) =>
                        (readDataLogged read child child.size.toNat
                          ((child.size.toNat + 2047) / 2048) 0 []).andThen fun data =>
                            .ret (data, heap)

def isoResolvePathLogged (read : Disc) (isoPath : CStr) : Logged (Option (IsoDirLoc × Bool)) :=
  let p := skipSlashes isoPath
  (isoReadPvdRootLogged read).andThen fun pvd =>
    match pvd with
    | none => .ret none
    | some (root, volumeSectors) =>
      if !isoExtentValid root.extentLba root.size volumeSectors then .ret none
      else if p = [] then .ret (some (root, true))
      else
        (isoWalkLogged read volumeSectors p root [] false).andThen fun walked =>
          match walked with
          | none => .ret none
          | some (cur, comp, haveComponent) =>
            if !haveComponent ∨ comp = [] then .ret (some (cur, true))
            else
              (isoFindChildLogged read cur comp).andThen fun found =>
                match found with
                | none => .ret none
                | some child =>
                  if !isoExtentValid child.extentLba child.size volumeSectors then .ret none
                  else .ret (some (child, decide (child.flags &&& 0x02 ≠ 0)))

/-- `iso_list_dir` or `iso_list_dir_entries` behind `iso_resolve_path`. -/
def isoOpsListDirLogged (read : Disc) (path : CStr) : Logged (Bool × List FsDirEntry) :=
  (isoResolvePathLogged read path).andThen fun found =>
    match found with
    | none => .ret (false, [])
    | some (loc, isDir) => if isDir then isoListDirLogged read loc else .ret (false, [])

variable {read : Disc} {volumeSectors : U32} {root dir child cur : IsoDirLoc} {name comp p : CStr}
variable {path : CStr} {fuel : Nat} {offset : U32} {heap : Heap} {q : Request}

/-! ## Without the log -/

theorem out_findChildLogged (read : Disc) (dir : IsoDirLoc) (name : CStr) (fuel : Nat)
    (offset : U32) :
    (findChildLogged read dir name fuel offset).out = findChildLoop read dir name fuel offset := by
  induction fuel generalizing offset with
  | zero => rfl
  | succ fuel ih =>
      rw [findChildLoop_succ, findChildLogged, Logged.out_after]
      cases scanNext read dir offset with
      | done => rfl
      | failed => rfl
      | skip next => exact ih next
      | record r next =>
          dsimp only
          split
          · rfl
          · exact ih next

theorem out_listDirLogged (read : Disc) (dir : IsoDirLoc) (fuel : Nat) (offset : U32)
    (entries : List FsDirEntry) :
    (listDirLogged read dir fuel offset entries).out =
      listDirLoop read dir fuel offset entries := by
  induction fuel generalizing offset entries with
  | zero => rfl
  | succ fuel ih =>
      rw [listDirLoop_succ, listDirLogged, Logged.out_after]
      cases scanNext read dir offset with
      | done => rfl
      | failed => rfl
      | skip next => exact ih next entries
      | record r next => exact ih next _

theorem out_isoFindChildLogged (read : Disc) (dir : IsoDirLoc) (name : CStr) :
    (isoFindChildLogged read dir name).out = isoFindChild read dir name :=
  out_findChildLogged read dir name scanFuel 0

theorem out_isoWalkLogged (read : Disc) (volumeSectors : U32) (p : CStr) (cur : IsoDirLoc)
    (comp : CStr) (have₀ : Bool) :
    (isoWalkLogged read volumeSectors p cur comp have₀).out =
      isoWalk read volumeSectors p cur comp have₀ := by
  induction p generalizing cur comp have₀ with
  | nil => rfl
  | cons c p ih =>
      rw [isoWalkLogged, isoWalk]
      split
      · split
        · exact ih cur comp have₀
        · rw [Logged.out_andThen, out_isoFindChildLogged]
          cases isoFindChild read cur comp with
          | none => rfl
          | some found =>
              cases found with
              | none => rfl
              | some child =>
                  rw [Option.bind_some]
                  dsimp only
                  split
                  · rfl
                  split
                  · rfl
                  · exact ih child [] true
      · split
        · rfl
        · exact ih cur _ true

theorem out_readDataLogged (read : Disc) (loc : IsoDirLoc) (total n k : Nat) (buf : Bytes) :
    (readDataLogged read loc total n k buf).out =
      some (readDataLoop read loc.extentLba total n k buf) := by
  induction n generalizing k buf with
  | zero => rfl
  | succ n ih =>
      rw [readDataLogged, readDataLoop, Logged.out_after]
      cases read (loc.extentLba + BitVec.ofNat 32 k) with
      | none => rfl
      | some sector => exact ih (k + 1) _

theorem out_isoResolvePathLogged (read : Disc) (path : CStr) :
    (isoResolvePathLogged read path).out = isoResolvePath read path := by
  unfold isoResolvePathLogged isoResolvePath
  dsimp only
  rw [Logged.out_andThen, isoReadPvdRootLogged, Option.bind_some]
  cases isoReadPvdRoot read with
  | none => rfl
  | some pvd =>
      dsimp only
      split
      · rfl
      split
      · rfl
      rw [Logged.out_andThen, out_isoWalkLogged]
      match isoWalk read pvd.2 (skipSlashes path) pvd.1 [] false with
      | none => rfl
      | some none => rfl
      | some (some (cur, comp, have₁)) =>
          rw [Option.bind_some]
          dsimp only
          split
          · rfl
          rw [Logged.out_andThen, out_isoFindChildLogged]
          match isoFindChild read cur comp with
          | none => rfl
          | some none => rfl
          | some (some child) =>
              rw [Option.bind_some]
              dsimp only
              split <;> rfl

theorem out_isoReadFileAllocLogged (read : Disc) (heap : Heap) (path : CStr) :
    (isoReadFileAllocLogged read heap path).out = isoReadFileAlloc read heap path := by
  unfold isoReadFileAllocLogged isoReadFileAlloc
  dsimp only
  split
  · rfl
  rw [Logged.out_andThen, isoReadPvdRootLogged, Option.bind_some]
  cases isoReadPvdRoot read with
  | none => rfl
  | some pvd =>
      dsimp only
      split
      · rfl
      rw [Logged.out_andThen, out_isoWalkLogged]
      match isoWalk read pvd.2 (skipSlashes path) pvd.1 [] false with
      | none => rfl
      | some none => rfl
      | some (some (cur, comp, have₁)) =>
          rw [Option.bind_some]
          dsimp only
          split
          · rfl
          rw [Logged.out_andThen, out_isoFindChildLogged]
          match isoFindChild read cur comp with
          | none => rfl
          | some none => rfl
          | some (some child) =>
              rw [Option.bind_some]
              dsimp only
              split
              · rfl
              split
              · rfl
              split
              · rfl
              cases kmalloc heap (child.size + 1) with
              | none => rfl
              | some block =>
                  dsimp only
                  rw [Logged.out_andThen, out_readDataLogged]
                  rfl

theorem out_isoOpsListDirLogged (read : Disc) (path : CStr) :
    (isoOpsListDirLogged read path).out = isoOpsListDir read path := by
  unfold isoOpsListDirLogged isoOpsListDir
  rw [Logged.out_andThen, out_isoResolvePathLogged]
  match isoResolvePath read path with
  | none => rfl
  | some none => rfl
  | some (some (loc, isDir)) =>
      rw [Option.bind_some]
      dsimp only
      split
      · exact out_listDirLogged read loc scanFuel 0 []
      · rfl

/-! ## What the requests decide -/

/-- A computation that comes out the same, requests included, on every disc that answers
its requests alike: the log misses no sector that it depends on. -/
def Decided {α : Type} (f : Disc → Logged α) : Prop :=
  ∀ read read' : Disc, (∀ q ∈ (f read).reads, read' q.lba = read q.lba) → f read' = f read

section

variable {α β : Type}

theorem decided_const (m : Logged α) : Decided fun _ => m := fun _ _ _ => rfl

theorem Decided.andThen {f : Disc → Logged α} {g : Disc → α → Logged β} (hf : Decided f)
    (hg : ∀ a, Decided fun read => g read a) :
    Decided fun read => (f read).andThen (g read) := by
  intro read read' hreads
  dsimp only at hreads ⊢
  unfold Logged.andThen at hreads ⊢
  cases hout : (f read).out with
  | none =>
      rw [hout] at hreads
      rw [hf read read' hreads, hout]
  | some a =>
      rw [hout] at hreads
      have hfirst := hf read read' fun q hq => hreads q (List.mem_append_left _ hq)
      have hrest := hg a read read' fun q hq => hreads q (List.mem_append_right _ hq)
      dsimp only at hrest
      rw [hfirst, hout]
      dsimp only
      rw [hrest]

theorem decided_after {σ : Type} {log : List Request} (get : Disc → σ) (g : σ → Disc → Logged α)
    (hget : ∀ read read' : Disc, (∀ q ∈ log, read' q.lba = read q.lba) → get read' = get read)
    (hg : ∀ s, Decided (g s)) : Decided fun read => .after log (g (get read) read) := by
  intro read read' hreads
  have hsame := hget read read' fun q hq => hreads q (List.mem_append_left _ hq)
  have hrest := hg (get read) read read' fun q hq => hreads q (List.mem_append_right _ hq)
  dsimp only
  rw [hsame, hrest]

end

theorem scanNext_congr {read' : Disc}
    (h : ∀ q ∈ scanRequest dir offset, read' q.lba = read q.lba) :
    scanNext read' dir offset = scanNext read dir offset := by
  unfold scanRequest at h
  unfold scanNext
  split
  · rfl
  rename_i hend
  rw [if_neg hend] at h
  rw [h _ List.mem_cons_self]

theorem decided_findChild (dir : IsoDirLoc) (name : CStr) (fuel : Nat) (offset : U32) :
    Decided fun read => findChildLogged read dir name fuel offset := by
  induction fuel generalizing offset with
  | zero => exact decided_const _
  | succ fuel ih =>
      refine decided_after (fun read => scanNext read dir offset)
        (fun scanned read => match scanned with
          | .done => .ret none
          | .failed => .ret none
          | .skip next => findChildLogged read dir name fuel next
          | .record r next =>
            if r.answers name then .ret (some r.loc) else findChildLogged read dir name fuel next)
        (fun _ _ => scanNext_congr) fun scanned => ?_
      cases scanned with
      | done => exact decided_const _
      | failed => exact decided_const _
      | skip next => exact ih next
      | record r next =>
          dsimp only
          split
          · exact decided_const _
          · exact ih next

theorem decided_listDir (dir : IsoDirLoc) (fuel : Nat) (offset : U32) (entries : List FsDirEntry) :
    Decided fun read => listDirLogged read dir fuel offset entries := by
  induction fuel generalizing offset entries with
  | zero => exact decided_const _
  | succ fuel ih =>
      refine decided_after (fun read => scanNext read dir offset)
        (fun scanned read => match scanned with
          | .done => .ret (true, entries)
          | .failed => .ret (false, entries)
          | .skip next => listDirLogged read dir fuel next entries
          | .record r next =>
            listDirLogged read dir fuel next (if r.isDot then entries else entries ++ [r.listed]))
        (fun _ _ => scanNext_congr) fun scanned => ?_
      cases scanned with
      | done => exact decided_const _
      | failed => exact decided_const _
      | skip next => exact ih next entries
      | record r next => exact ih next _

theorem decided_pvd : Decided isoReadPvdRootLogged := by
  intro read read' hreads
  have hsector : read' 16 = read 16 := hreads ⟨16, none⟩ List.mem_cons_self
  unfold isoReadPvdRootLogged isoReadPvdRoot
  rw [hsector]

theorem decided_walk (volumeSectors : U32) (p : CStr) (cur : IsoDirLoc) (comp : CStr)
    (have₀ : Bool) : Decided fun read => isoWalkLogged read volumeSectors p cur comp have₀ := by
  induction p generalizing cur comp have₀ with
  | nil => exact decided_const _
  | cons c p ih =>
      simp only [isoWalkLogged]
      split
      · split
        · exact ih cur comp have₀
        · refine (decided_findChild cur comp scanFuel 0).andThen fun found => ?_
          cases found with
          | none => exact decided_const _
          | some child =>
              dsimp only
              split
              · exact decided_const _
              split
              · exact decided_const _
              · exact ih child [] true
      · split
        · exact decided_const _
        · exact ih cur _ true

theorem decided_readData (loc : IsoDirLoc) (total n k : Nat) (buf : Bytes) :
    Decided fun read => readDataLogged read loc total n k buf := by
  induction n generalizing k buf with
  | zero => exact decided_const _
  | succ n ih =>
      refine decided_after (fun read => read (loc.extentLba + BitVec.ofNat 32 k))
        (fun sector read => match sector with
          | none => .ret none
          | some sector =>
            readDataLogged read loc total n (k + 1)
              (buf ++ (List.range (min isoSectorSize (total - isoSectorSize * k))).map sector))
        (fun _ _ h => h _ List.mem_cons_self) fun sector => ?_
      cases sector with
      | none => exact decided_const _
      | some sector => exact ih (k + 1) _

theorem decided_resolvePath (path : CStr) :
    Decided fun read => isoResolvePathLogged read path := by
  refine decided_pvd.andThen fun pvd => ?_
  cases pvd with
  | none => exact decided_const _
  | some pvd =>
      dsimp only
      split
      · exact decided_const _
      split
      · exact decided_const _
      refine (decided_walk pvd.2 (skipSlashes path) pvd.1 [] false).andThen fun walked => ?_
      cases walked with
      | none => exact decided_const _
      | some walked =>
          dsimp only
          split
          · exact decided_const _
          refine (decided_findChild walked.1 walked.2.1 scanFuel 0).andThen fun found => ?_
          exact decided_const _

theorem decided_readFileAlloc (heap : Heap) (path : CStr) :
    Decided fun read => isoReadFileAllocLogged read heap path := by
  unfold isoReadFileAllocLogged
  dsimp only
  split
  · exact decided_const _
  refine decided_pvd.andThen fun pvd => ?_
  cases pvd with
  | none => exact decided_const _
  | some pvd =>
      dsimp only
      split
      · exact decided_const _
      refine (decided_walk pvd.2 (skipSlashes path) pvd.1 [] false).andThen fun walked => ?_
      cases walked with
      | none => exact decided_const _
      | some walked =>
          dsimp only
          split
          · exact decided_const _
          refine (decided_findChild walked.1 walked.2.1 scanFuel 0).andThen fun found => ?_
          cases found with
          | none => exact decided_const _
          | some child =>
              dsimp only
              split
              · exact decided_const _
              split
              · exact decided_const _
              split
              · exact decided_const _
              cases kmalloc heap (child.size + 1) with
              | none => exact decided_const _
              | some block =>
                  exact (decided_readData child child.size.toNat
                    ((child.size.toNat + 2047) / 2048) 0 []).andThen fun _ => decided_const _

theorem decided_opsListDir (path : CStr) :
    Decided fun read => isoOpsListDirLogged read path := by
  refine (decided_resolvePath path).andThen fun found => ?_
  cases found with
  | none => exact decided_const _
  | some found =>
      dsimp only
      split
      · exact decided_listDir found.1 scanFuel 0 []
      · exact decided_const _

/-- What the model reads of a disc is what the logs name: another disc with these sectors
gives the same results. -/
theorem requests_decide (read read' : Disc) (heap : Heap) (path : CStr) :
    ((∀ q ∈ (isoResolvePathLogged read path).reads, read' q.lba = read q.lba) →
      isoResolvePath read' path = isoResolvePath read path) ∧
    ((∀ q ∈ (isoReadFileAllocLogged read heap path).reads, read' q.lba = read q.lba) →
      isoReadFileAlloc read' heap path = isoReadFileAlloc read heap path) ∧
    ((∀ q ∈ (isoOpsListDirLogged read path).reads, read' q.lba = read q.lba) →
      isoOpsListDir read' path = isoOpsListDir read path) := by
  refine ⟨fun h => ?_, fun h => ?_, fun h => ?_⟩
  · have hsame := decided_resolvePath path read read' h
    dsimp only at hsame
    rw [← out_isoResolvePathLogged, hsame, out_isoResolvePathLogged]
  · have hsame := decided_readFileAlloc heap path read read' h
    dsimp only at hsame
    rw [← out_isoReadFileAllocLogged, hsame, out_isoReadFileAllocLogged]
  · have hsame := decided_opsListDir path read read' h
    dsimp only at hsame
    rw [← out_isoOpsListDirLogged, hsame, out_isoOpsListDirLogged]

/-! ## Extents -/

def InExtent (e : IsoDirLoc) (lba : U32) : Prop :=
  e.extentLba.toNat ≤ lba.toNat ∧ lba.toNat < e.extentLba.toNat + sectorCount e.size.toNat

def InVolume (e : IsoDirLoc) (volumeSectors : U32) : Prop :=
  e.extentLba.toNat + sectorCount e.size.toNat ≤ volumeSectors.toNat

/-- The rounded size of an extent cannot wrap, or the extent lies in the volume all the same:
a size above `scanSizeMax` stands for `2 ^ 21` sectors. -/
def Fits (e : IsoDirLoc) (volumeSectors : U32) : Prop :=
  e.size.toNat ≤ scanSizeMax ∨ e.extentLba.toNat + 2 ^ 21 ≤ volumeSectors.toNat

theorem sectors_toNat {size : U32} (hsize : size.toNat ≤ scanSizeMax) :
    ((size + 2047) / 2048).toNat = sectorCount size.toNat := by
  unfold scanSizeMax at hsize
  unfold sectorCount
  rw [toNat_div, BitVec.toNat_add]
  change (size.toNat + 2047) % 2 ^ 32 / 2048 = _
  rw [Nat.mod_eq_of_lt (by omega)]

/-- What `iso_extent_valid` decides about an extent whose size does not wrap. -/
theorem inVolume_of_valid {e : IsoDirLoc} (hsize : e.size.toNat ≤ scanSizeMax)
    (hvalid : isoExtentValid e.extentLba e.size volumeSectors = true) :
    InVolume e volumeSectors := by
  have hcount := sectors_toNat hsize
  unfold isoExtentValid at hvalid
  unfold InVolume
  rw [← hcount]
  generalize (e.size + 2047) / 2048 = sectors at hvalid
  dsimp only at hvalid
  split at hvalid
  · cases hvalid
  split at hvalid
  · cases hvalid
  rename_i hlba
  rw [BitVec.le_def, Nat.not_le] at hlba
  split at hvalid
  · rename_i hzero
    rw [hzero]
    change e.extentLba.toNat + 0 ≤ _
    omega
  split at hvalid
  · cases hvalid
  rename_i hwrap
  rw [decide_eq_true_eq, BitVec.le_def, BitVec.toNat_add] at hvalid
  rw [BitVec.lt_def, BitVec.toNat_add] at hwrap
  have ha := e.extentLba.isLt
  have hb := sectors.isLt
  omega

theorem inVolume_iff_fits {e : IsoDirLoc}
    (hvalid : isoExtentValid e.extentLba e.size volumeSectors = true) :
    InVolume e volumeSectors ↔ Fits e volumeSectors := by
  by_cases hsize : e.size.toNat ≤ scanSizeMax
  · exact ⟨fun _ => Or.inl hsize, fun _ => inVolume_of_valid hsize hvalid⟩
  · have hcount : sectorCount e.size.toNat = 2 ^ 21 := by
      have := e.size.isLt
      unfold scanSizeMax at hsize
      unfold sectorCount
      omega
    unfold InVolume Fits
    rw [hcount]
    exact ⟨Or.inr, fun h => h.resolve_left hsize⟩

theorem inExtent_of_lt {e : IsoDirLoc} (hin : InVolume e volumeSectors) {k : Nat}
    (hk : k < sectorCount e.size.toNat) : InExtent e (e.extentLba + BitVec.ofNat 32 k) := by
  have hvolume := volumeSectors.isLt
  unfold InVolume at hin
  have hsum : (e.extentLba + BitVec.ofNat 32 k).toNat = e.extentLba.toNat + k := by
    rw [BitVec.toNat_add, BitVec.toNat_ofNat, Nat.mod_eq_of_lt (b := 2 ^ 32) (by omega : k < 2 ^ 32),
      Nat.mod_eq_of_lt (by omega)]
  unfold InExtent
  rw [hsum]
  omega

/-! ## Requests -/

def ScanOf (dir : IsoDirLoc) (q : Request) : Prop :=
  q.extent = some dir ∧ ∃ offset, offset < dir.size ∧ q.lba = dir.extentLba + offset / 2048

theorem scanOf_request (h : q ∈ scanRequest dir offset) : ScanOf dir q := by
  unfold scanRequest at h
  split at h
  · cases h
  · rename_i hlt
    obtain rfl := List.mem_singleton.mp h
    exact ⟨rfl, offset, BitVec.not_le.mp hlt, rfl⟩

theorem scanOf_findChild (h : q ∈ (findChildLogged read dir name fuel offset).reads) :
    ScanOf dir q := by
  induction fuel generalizing offset with
  | zero => cases h
  | succ fuel ih =>
      rw [findChildLogged] at h
      rcases List.mem_append.mp h with h | h
      · exact scanOf_request h
      split at h
      · cases h
      · cases h
      · exact ih h
      · split at h
        · cases h
        · exact ih h

theorem scanOf_listDir {entries : List FsDirEntry}
    (h : q ∈ (listDirLogged read dir fuel offset entries).reads) : ScanOf dir q := by
  induction fuel generalizing offset entries with
  | zero => cases h
  | succ fuel ih =>
      rw [listDirLogged] at h
      rcases List.mem_append.mp h with h | h
      · exact scanOf_request h
      split at h
      · cases h
      · cases h
      · exact ih h
      · exact ih h

theorem inExtent_scanOf (hin : InVolume dir volumeSectors) (h : ScanOf dir q) :
    InExtent dir q.lba := by
  obtain ⟨-, offset, hlt, hlba⟩ := h
  have hlt' : offset.toNat < dir.size.toNat := hlt
  have hk : offset / 2048 = BitVec.ofNat 32 (offset.toNat / 2048) := by
    apply BitVec.eq_of_toNat_eq
    have := offset.isLt
    rw [toNat_div, BitVec.toNat_ofNat, Nat.mod_eq_of_lt (by omega)]
  rw [hlba, hk]
  apply inExtent_of_lt hin
  unfold sectorCount
  omega

theorem readData_requests {loc : IsoDirLoc} {total n k : Nat} {buf : Bytes}
    (h : q ∈ (readDataLogged read loc total n k buf).reads) :
    q.extent = some loc ∧ ∃ i < k + n, q.lba = loc.extentLba + BitVec.ofNat 32 i := by
  induction n generalizing k buf with
  | zero => cases h
  | succ n ih =>
      rw [readDataLogged] at h
      rcases List.mem_append.mp h with h | h
      · obtain rfl := List.mem_singleton.mp h
        exact ⟨rfl, k, by omega, rfl⟩
      split at h
      · cases h
      · obtain ⟨hextent, i, hi, hlba⟩ := ih h
        exact ⟨hextent, i, by omega, hlba⟩

theorem isoWalk_requests {have₀ : Bool} (hcur : DirOnDisc read volumeSectors cur)
    (hcomp : chr '/' ∉ comp) (hlen : comp.length < direntNameSize) :
    (∀ q ∈ (isoWalkLogged read volumeSectors p cur comp have₀).reads,
      ∃ dir, DirOnDisc read volumeSectors dir ∧ ScanOf dir q) ∧
      ∀ dir last have₁, isoWalk read volumeSectors p cur comp have₀ =
        some (some (dir, last, have₁)) →
          DirOnDisc read volumeSectors dir ∧ chr '/' ∉ last ∧ last.length < direntNameSize := by
  induction p generalizing cur comp have₀ with
  | nil =>
      refine ⟨fun q hq => absurd hq List.not_mem_nil, fun dir last have₁ h => ?_⟩
      cases h
      exact ⟨hcur, hcomp, hlen⟩
  | cons c p ih =>
      rw [isoWalkLogged, isoWalk]
      by_cases hc : c = chr '/'
      · rw [if_pos hc, if_pos hc]
        by_cases hempty : comp = []
        · rw [if_pos hempty, if_pos hempty]
          exact ih hcur hcomp hlen
        · rw [if_neg hempty, if_neg hempty]
          -- the directory one component down, and what the rest of the walk does in it
          have hdown : ∀ child, isoFindChild read cur comp = some (some child) →
              ¬child.flags &&& 0x02 = 0 →
              ¬(!isoExtentValid child.extentLba child.size volumeSectors) = true →
              DirOnDisc read volumeSectors child := by
            intro child hfind hflags hvalid
            exact .child hcur ⟨hempty, hcomp, hlen⟩ hfind hflags (by simpa using hvalid)
          refine ⟨fun q hq => ?_, fun dir last have₁ h => ?_⟩
          · rcases Logged.mem_andThen hq with hq | ⟨found, hfound, hq⟩
            · exact ⟨cur, hcur, scanOf_findChild hq⟩
            rw [out_isoFindChildLogged] at hfound
            cases found with
            | none => cases hq
            | some child =>
              simp only at hq
              split at hq
              · cases hq
              rename_i hflags
              split at hq
              · cases hq
              rename_i hvalid
              exact (ih (hdown child hfound hflags hvalid) List.not_mem_nil (by decide)).1 q hq
          · split at h
            · cases h
            · cases h
            rename_i child hfound
            split at h
            · cases h
            rename_i hflags
            split at h
            · cases h
            rename_i hvalid
            exact (ih (hdown child hfound hflags hvalid) List.not_mem_nil (by decide)).2 _ _ _ h
      · rw [if_neg hc, if_neg hc]
        split
        · refine ⟨fun q hq => absurd hq List.not_mem_nil, fun dir last have₁ h => ?_⟩
          cases h
        · rename_i hshort
          refine ih hcur ?_ (by simpa using hshort)
          rw [List.mem_append, List.mem_singleton, not_or]
          exact ⟨hcomp, Ne.symm hc⟩

/-- A request for the volume descriptor or for a directory of the disc. -/
def DirRequest (read : Disc) (q : Request) : Prop :=
  (q.extent = none ∧ q.lba = 16) ∨
    ∃ volumeSectors dir, DirOnDisc read volumeSectors dir ∧ ScanOf dir q

theorem dirRequest_pvd (h : q ∈ (isoReadPvdRootLogged read).reads) : DirRequest read q := by
  obtain rfl := List.mem_singleton.mp h
  exact Or.inl ⟨rfl, rfl⟩

theorem isoResolvePath_requests (h : q ∈ (isoResolvePathLogged read path).reads) :
    DirRequest read q := by
  unfold isoResolvePathLogged at h
  rcases Logged.mem_andThen h with h | ⟨pvd, hpvd, h⟩
  · exact dirRequest_pvd h
  obtain rfl := Option.some.inj hpvd
  split at h
  · cases h
  rename_i root volumeSectors hroot
  split at h
  · cases h
  rename_i hvalid
  have hon : DirOnDisc read volumeSectors root := .root hroot (by simpa using hvalid)
  split at h
  · cases h
  obtain ⟨hwalk, hreach⟩ := @isoWalk_requests _ _ _ _ (skipSlashes path) false hon
    List.not_mem_nil (by decide)
  rcases Logged.mem_andThen h with h | ⟨walked, hwalked, h⟩
  · exact Or.inr ⟨volumeSectors, hwalk q h⟩
  rw [out_isoWalkLogged] at hwalked
  split at h
  · cases h
  rename_i cur comp have₁
  split at h
  · cases h
  have hcur := (hreach cur comp have₁ hwalked).1
  rcases Logged.mem_andThen h with h | ⟨found, -, h⟩
  · exact Or.inr ⟨volumeSectors, cur, hcur, scanOf_findChild h⟩
  split at h
  · cases h
  · split at h <;> cases h

theorem isoReadFileAlloc_requests (h : q ∈ (isoReadFileAllocLogged read heap path).reads) :
    DirRequest read q ∨ ∃ root volumeSectors file i, isoReadPvdRoot read = some (root, volumeSectors) ∧
      file.size.toNat ≤ isoFileMax ∧
      isoExtentValid file.extentLba file.size volumeSectors = true ∧ q.extent = some file ∧
      i < sectorCount file.size.toNat ∧ q.lba = file.extentLba + BitVec.ofNat 32 i := by
  unfold isoReadFileAllocLogged at h
  dsimp only at h
  split at h
  · cases h
  rcases Logged.mem_andThen h with h | ⟨pvd, hpvd, h⟩
  · exact Or.inl (dirRequest_pvd h)
  obtain rfl := Option.some.inj hpvd
  split at h
  · cases h
  rename_i root volumeSectors hroot
  split at h
  · cases h
  rename_i hvalid
  have hon : DirOnDisc read volumeSectors root := .root hroot (by simpa using hvalid)
  obtain ⟨hwalk, hreach⟩ := @isoWalk_requests _ _ _ _ (skipSlashes path) false hon
    List.not_mem_nil (by decide)
  rcases Logged.mem_andThen h with h | ⟨walked, hwalked, h⟩
  · exact Or.inl (Or.inr ⟨volumeSectors, hwalk q h⟩)
  rw [out_isoWalkLogged] at hwalked
  split at h
  · cases h
  rename_i cur comp have₁
  split at h
  · cases h
  have hcur := (hreach cur comp have₁ hwalked).1
  rcases Logged.mem_andThen h with h | ⟨found, -, h⟩
  · exact Or.inl (Or.inr ⟨volumeSectors, cur, hcur, scanOf_findChild h⟩)
  split at h
  · cases h
  rename_i file
  split at h
  · cases h
  split at h
  · cases h
  rename_i hfile
  split at h
  · cases h
  rename_i hmax
  split at h
  · cases h
  rcases Logged.mem_andThen h with h | ⟨data, -, h⟩
  · obtain ⟨hextent, i, hi, hlba⟩ := readData_requests h
    rw [Nat.zero_add] at hi
    exact Or.inr ⟨root, volumeSectors, file, i, hroot, Nat.not_lt.mp hmax, by simpa using hfile,
      hextent, hi, hlba⟩
  · cases h

theorem isoOpsListDir_requests (h : q ∈ (isoOpsListDirLogged read path).reads) :
    DirRequest read q := by
  unfold isoOpsListDirLogged at h
  rcases Logged.mem_andThen h with h | ⟨found, hfound, h⟩
  · exact isoResolvePath_requests h
  rw [out_isoResolvePathLogged] at hfound
  split at h
  · cases h
  rename_i loc isDir
  split at h
  · rename_i htrue
    rw [htrue] at hfound
    obtain ⟨volumeSectors, hdir⟩ := dirOnDisc_of_resolve hfound
    exact Or.inr ⟨volumeSectors, loc, hdir, scanOf_listDir h⟩
  · cases h

/-! ## Every disc -/

/-- Sector 16, or a sector of the extent that is read, which lies in the volume. -/
def RequestOk (read : Disc) (q : Request) : Prop :=
  match q.extent with
  | none => q.lba = 16
  | some e => InExtent e q.lba ∧
      ∃ root volumeSectors, isoReadPvdRoot read = some (root, volumeSectors) ∧
        InVolume e volumeSectors

/-- All requests that any path leads to. -/
def ReadsInside (read : Disc) : Prop :=
  ∀ path heap q, q ∈ (isoResolvePathLogged read path).reads ∨
    q ∈ (isoReadFileAllocLogged read heap path).reads ∨
    q ∈ (isoOpsListDirLogged read path).reads → RequestOk read q

theorem volume_of_dirOnDisc (h : DirOnDisc read volumeSectors dir) :
    ∃ root, isoReadPvdRoot read = some (root, volumeSectors) := by
  obtain ⟨root, -, hroot, -⟩ := comps_of_dirOnDisc h
  exact ⟨root, hroot⟩

theorem valid_of_dirOnDisc (h : DirOnDisc read volumeSectors dir) :
    isoExtentValid dir.extentLba dir.size volumeSectors = true := by
  cases h with
  | root _ hvalid => exact hvalid
  | child _ _ _ _ hvalid => exact hvalid

theorem requestOk_dir
    (hfits : ∀ volumeSectors dir, DirOnDisc read volumeSectors dir → Fits dir volumeSectors)
    (h : DirRequest read q) : RequestOk read q := by
  unfold RequestOk
  rcases h with ⟨hnone, hlba⟩ | ⟨volumeSectors, dir, hdir, hscan⟩
  · rw [hnone]
    exact hlba
  · have hin := (inVolume_iff_fits (valid_of_dirOnDisc hdir)).mpr (hfits volumeSectors dir hdir)
    obtain ⟨root, hroot⟩ := volume_of_dirOnDisc hdir
    rw [hscan.1]
    exact ⟨inExtent_scanOf hin hscan, root, volumeSectors, hroot, hin⟩

theorem mem_isoListDir_requests (hsize : dir.size ≠ 0) :
    ∃ q ∈ (isoListDirLogged read dir).reads, q.extent = some dir := by
  have hlt : ¬dir.size ≤ 0 := by
    intro hle
    apply hsize
    apply BitVec.eq_of_toNat_eq
    exact Nat.le_zero.mp hle
  refine ⟨⟨dir.extentLba + 0 / 2048, some dir⟩, ?_, rfl⟩
  change _ ∈ (listDirLogged read dir (4294967296 + 1) 0 []).reads
  rw [listDirLogged]
  apply List.mem_append_left
  unfold scanRequest
  rw [if_neg hlt]
  exact List.mem_singleton.mpr rfl

/-- The requests of all paths lie inside exactly if every directory of the disc is small
enough for its size to be rounded up, or lies in the volume all the same. -/
theorem readsInside_iff (read : Disc) : ReadsInside read ↔
    ∀ volumeSectors dir, DirOnDisc read volumeSectors dir → Fits dir volumeSectors := by
  constructor
  · intro hall volumeSectors dir hdir
    by_cases hsize : dir.size.toNat ≤ scanSizeMax
    · exact Or.inl hsize
    have hne : dir.size ≠ 0 := by
      intro hzero
      rw [hzero] at hsize
      exact hsize (by decide)
    obtain ⟨path, hpath⟩ := isoResolvePath_of_dirOnDisc hdir
    obtain ⟨q, hq, hextent⟩ := @mem_isoListDir_requests read _ hne
    have hlisted : q ∈ (isoOpsListDirLogged read path).reads := by
      unfold isoOpsListDirLogged Logged.andThen
      rw [out_isoResolvePathLogged, hpath]
      exact List.mem_append_right _ hq
    have hok := hall path ⟨0, 0, 0, false⟩ q (Or.inr (Or.inr hlisted))
    unfold RequestOk at hok
    rw [hextent] at hok
    obtain ⟨-, root, volume, hroot, hin⟩ := hok
    obtain ⟨root', hroot'⟩ := volume_of_dirOnDisc hdir
    rw [hroot] at hroot'
    obtain ⟨-, rfl⟩ := Prod.mk.inj (Option.some.inj hroot')
    exact (inVolume_iff_fits (valid_of_dirOnDisc hdir)).mp hin
  · intro hfits path heap q hq
    rcases hq with hq | hq | hq
    · exact requestOk_dir hfits (isoResolvePath_requests hq)
    · rcases isoReadFileAlloc_requests hq with hdir | ⟨root, volumeSectors, file, i, hroot, hmax,
        hvalid, hextent, hi, hlba⟩
      · exact requestOk_dir hfits hdir
      · have hin : InVolume file volumeSectors := by
          refine inVolume_of_valid ?_ hvalid
          unfold scanSizeMax
          unfold isoFileMax at hmax
          omega
        unfold RequestOk
        rw [hextent, hlba]
        exact ⟨inExtent_of_lt hin hi, root, volumeSectors, hroot, hin⟩
    · exact requestOk_dir hfits (isoOpsListDir_requests hq)

/-- The root directory of `0xFFFFFFFF` bytes in a volume of 100 sectors. -/
theorem not_readsInside_largeRoot : ¬ReadsInside (blankDisc 0xFFFFFFFF) := by
  intro hall
  have hpvd : isoReadPvdRoot (blankDisc 0xFFFFFFFF) = some (blankRoot 0xFFFFFFFF, 100) := by
    decide +kernel
  let q : Request := ⟨20, some (blankRoot 0xFFFFFFFF)⟩
  have hscan : q ∈ (isoListDirLogged (blankDisc 0xFFFFFFFF) (blankRoot 0xFFFFFFFF)).reads := by
    change q ∈ (listDirLogged _ _ (4294967296 + 1) 0 []).reads
    rw [listDirLogged]
    exact List.mem_append_left _ List.mem_cons_self
  have hlisted : q ∈ (isoOpsListDirLogged (blankDisc 0xFFFFFFFF) []).reads := by
    have hresolve : isoResolvePath (blankDisc 0xFFFFFFFF) [] =
        some (some (blankRoot 0xFFFFFFFF, true)) := by
      unfold isoResolvePath
      rw [hpvd]
      rfl
    unfold isoOpsListDirLogged Logged.andThen
    rw [out_isoResolvePathLogged, hresolve]
    exact List.mem_append_right _ hscan
  obtain ⟨-, root, volumeSectors, hroot, hin⟩ := hall [] ⟨0, 0, 0, false⟩ q (Or.inr (Or.inr hlisted))
  rw [hpvd] at hroot
  obtain ⟨-, rfl⟩ := Prod.mk.inj (Option.some.inj hroot)
  unfold InVolume at hin
  exact absurd hin (by decide)

end SlopOS.Proofs.DiscReads
