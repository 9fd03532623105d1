import SlopOS.Kernel.Iso
import SlopOS.Kernel.Util
/-!
# `vfs.c`

The in-memory tree, the three places where a path is taken apart
(`vfsNextComponent`, `vfsSplitParent`, `vfsEnsureDirAbs`), the path printer, and
the operations, which look at the text of a path for the CD mount before they
walk the tree.  A node is an index into the tree; node 0 is the root.
Operations that may scan the CD return `none` where such a scan never ends.
-/

namespace SlopOS.Kernel

def vfsNameMax : Nat := 31
def vfsPathMax : Nat := 128

/-- `sizeof(struct vfs_node)`. -/
def vfsNodeSize : U32 := 56

inductive VfsNodeType
  | dir | file
deriving Repr, DecidableEq

structure VfsNode where
  name : CStr
  type : VfsNodeType
  parent : Option NodeId
  firstChild : Option NodeId
  nextSibling : Option NodeId
  data : Option Bytes
  size : U32
deriving Repr, DecidableEq

/-- The nodes allocated so far are those below `count`. -/
structure VfsTree where
  node : NodeId → VfsNode
  count : Nat

structure Fs where
  tree : VfsTree
  heap : Heap
  mounts : Mounts

def vfsRoot : NodeId := 0

def cdromMount : CStr := cstr "/mount/cdrom"

def binAlias : CStr := cstr "/bin"

/-! ## Mount texts -/

/-- `vfs_is_cdrom_mount_path`: the path below the mount. -/
def vfsIsCdromMountPath (path : CStr) : Option CStr :=
  if path.head? ≠ some (chr '/') then none
  else if ¬strStartswith path cdromMount then none
  else
    match path.drop 12 with
    | [] => some (cstr "/")
    | c :: rest => if c = chr '/' then some (c :: rest) else none

def vfsIsBinAliasPath (path : CStr) : Option CStr :=
  if path.head? ≠ some (chr '/') then none
  else if ¬strStartswith path binAlias then none
  else
    match path.drop 4 with
    | [] => some (cstr "/bin")
    | c :: _ => if c = chr '/' then some path else none

/-- The two tests in the order the operations make them. -/
def vfsMountSubpath (path : CStr) : Option CStr :=
  match vfsIsCdromMountPath path with
  | some subpath => some subpath
  | none => vfsIsBinAliasPath path

/-! ## The tree -/

/-- The sibling chain of `vfs_find_child`; every pointer in it goes to an older
node, so `count` turns are enough. -/
def findChildFrom (tree : VfsTree) (name : CStr) : Nat → Option NodeId → Option NodeId
  | 0, _ => none
  | _ + 1, none => none
  | fuel + 1, some child =>
    if strEq (tree.node child).name name then some child
    else findChildFrom tree name fuel (tree.node child).nextSibling

def vfsFindChild (tree : VfsTree) (dir : NodeId) (name : CStr) : Option NodeId :=
  findChildFrom tree name tree.count (tree.node dir).firstChild

/-- The children of a directory in the order of the sibling chain. -/
def childrenFrom (tree : VfsTree) : Nat → Option NodeId → List NodeId
  | 0, _ => []
  | _ + 1, none => []
  | fuel + 1, some child => child :: childrenFrom tree fuel (tree.node child).nextSibling

/-- The tree with one more node, in front of its parent's other children. -/
def VfsTree.addNode (tree : VfsTree) (name : CStr) (type : VfsNodeType)
    (parent : Option NodeId) : VfsTree :=
  let fresh : VfsNode := ⟨strCopy name (vfsNameMax + 1), type, parent, none, none, none, 0⟩
  match parent with
  | none => { node := Function.update tree.node tree.count fresh, count := tree.count + 1 }
  | some dir =>
    let fresh := { fresh with nextSibling := (tree.node dir).firstChild }
    let dirNode := { tree.node dir with firstChild := some tree.count }
    { node := Function.update (Function.update tree.node dir dirNode) tree.count fresh
      count := tree.count + 1 }

def vfsAllocNode (fs : Fs) (name : CStr) (type : VfsNodeType) (parent : Option NodeId) :
    Option (NodeId × Fs) :=
  (kcalloc fs.heap vfsNodeSize).map fun (_, heap) =>
    (fs.tree.count, { fs with tree := fs.tree.addNode name type parent, heap := heap })

/-! ## Walking -/

/-- The three results of `vfs_next_component`: 0, -1, and 1 with the component
and what follows it. -/
inductive NextComponent
  | done
  | tooLong
  | component (name rest : CStr)
deriving Repr, DecidableEq

def vfsNextComponent (path : CStr) (size : Nat) : NextComponent :=
  let p := skipSlashes path
  if p = [] then .done
  else
    let name := p.takeWhile fun c => c ≠ chr '/'
    if size ≤ name.length then .tooLong
    else .component name (p.dropWhile fun c => c ≠ chr '/')

/-- The loop of `vfs_resolve_from`; each turn uses up a character. -/
def vfsWalk (tree : VfsTree) : Nat → NodeId → CStr → Option NodeId
  | 0, _, _ => none
  | fuel + 1, node, path =>
    match vfsNextComponent path (vfsNameMax + 1) with
    | .done => some node
    | .tooLong => none
    | .component name rest =>
      if strEq name (cstr ".") then vfsWalk tree fuel node rest
      else if strEq name (cstr "..") then
        vfsWalk tree fuel ((tree.node node).parent.getD node) rest
      else
        match vfsFindChild tree node name with
        | none => none
        | some child => vfsWalk tree fuel child rest

def vfsResolveFrom (tree : VfsTree) (cwd : NodeId) (path : CStr) : Option NodeId :=
  if path = [] then some cwd
  else
    let node := if path.head? = some (chr '/') then vfsRoot else cwd
    let path := skipSlashes path
    if path = [] then some node else vfsWalk tree (path.length + 1) node path

def vfsResolve (tree : VfsTree) (path : CStr) : Option NodeId :=
  vfsResolveFrom tree vfsRoot path

/-! ## Texts of paths -/

/-- `vfs_path_join`, which is also the copying part of `make_abs_path`. -/
def vfsPathJoin (outSize : Nat) (base rel : CStr) : Option CStr :=
  if outSize = 0 ∨ outSize ≤ base.length then none
  else
    let slashed :=
      if base ≠ [] ∧ base.getLast? ≠ some (chr '/') then
        if outSize ≤ base.length + 1 then none else some (base ++ [chr '/'])
      else some base
    match slashed with
    | none => none
    | some out => if outSize ≤ out.length + rel.length then none else some (out ++ rel)

/-- `vfs_split_parent`: parent path and last name.  Without a slash in the path
the name is cut to its buffer and not looked at. -/
def vfsSplitParent (path : CStr) : Option (CStr × CStr) :=
  if path = [] then none
  else if chr '/' ∉ path then some ([], strCopy path (vfsNameMax + 1))
  else
    let name := (path.reverse.takeWhile fun c => c ≠ chr '/').reverse
    let parentPath := path.take (path.length - name.length - 1)
    if parentPath ≠ [] ∧ vfsPathMax < parentPath.length + 1 then none
    else if vfsNameMax + 1 < name.length + 1 then none
    else if name = [] ∨ strEq name (cstr ".") ∨ strEq name (cstr "..") then none
    else some (if parentPath = [] then cstr "/" else parentPath, name)

/-- The collecting loop of `vfs_get_cwd_path`: names from the node upwards. -/
def cwdParts (tree : VfsTree) : Nat → Option NodeId → List CStr
  | 0, _ => []
  | _ + 1, none => []
  | count + 1, some node =>
    if node = vfsRoot then []
    else (tree.node node).name :: cwdParts tree count (tree.node node).parent

/-- The printing loop of `vfs_get_cwd_path`, over the parts from the root down. -/
def printParts : List CStr → Nat → CStr
  | [], _ => []
  | part :: parts, remaining =>
    if remaining < strLen part + 1 then []
    else if parts = [] then part
    else part ++ chr '/' :: printParts parts (remaining - strLen part - 1)

def cwdPartsMax : Nat := 16

/-- `vfs_get_cwd_path`: what the buffer holds up to the final NUL.  When a part
just fits and a `/` follows it, that NUL is stored behind the buffer. -/
def vfsGetCwdPath (tree : VfsTree) (cwd : NodeId) (size : Nat) : CStr :=
  if size = 0 then []
  else if cwd = vfsRoot then strCopy (cstr "/") size
  else
    let parts := (cwdParts tree cwdPartsMax (some cwd)).reverse
    if 1 < size then chr '/' :: printParts parts (size - 1) else printParts parts size

/-- The text the mount tests look at: a relative path is put behind the printed
working directory if both fit. -/
def vfsCheckPath (tree : VfsTree) (cwd : NodeId) (path : CStr) : CStr :=
  if path.head? = some (chr '/') then path
  else (vfsPathJoin vfsPathMax (vfsGetCwdPath tree cwd vfsPathMax) path).getD path

/-! ## Operations -/

def ensureDirLoop : Nat → Fs → NodeId → CStr → Bool × Fs
  | 0, fs, _, _ => (false, fs)
  | fuel + 1, fs, node, p =>
    if p = [] then (true, fs)
    else
      let comp := p.takeWhile fun c => c ≠ chr '/'
      let rest := skipSlashes (p.dropWhile fun c => c ≠ chr '/')
      if vfsNameMax + 1 ≤ comp.length then (false, fs)
      else
        let found :=
          match vfsFindChild fs.tree node comp with
          | some child => some (child, fs)
          | none => vfsAllocNode fs comp .dir (some node)
        match found with
        | none => (false, fs)
        | some (child, fs) =>
          if (fs.tree.node child).type ≠ .dir then (false, fs)
          else ensureDirLoop fuel fs child rest

def vfsEnsureDirAbs (fs : Fs) (absPath : CStr) : Bool × Fs :=
  if absPath.head? ≠ some (chr '/') then (false, fs)
  else ensureDirLoop (absPath.length + 1) fs vfsRoot (skipSlashes absPath)

/-- `vfs_change_dir`: the new working directory, if the call succeeds. -/
def vfsChangeDir (mach : Machine) (fs : Fs) (cwd : NodeId) (path : CStr) :
    Option (Option NodeId × Fs) :=
  let check := if path = [] then [] else vfsCheckPath fs.tree cwd path
  let onMount :=
    match vfsMountSubpath check with
    | none => some false
    | some subpath => fsPathIsDirFromMount mach fs.mounts cdromMount subpath
  match onMount with
  | none => none
  | some true =>
    match vfsEnsureDirAbs fs check with
    | (false, fs) => some (none, fs)
    | (true, fs) =>
      match vfsResolve fs.tree check with
      | none => some (none, fs)
      | some node => some (if (fs.tree.node node).type = .dir then some node else none, fs)
  | some false =>
    match vfsResolveFrom fs.tree cwd path with
    | none => some (none, fs)
    | some node => some (if (fs.tree.node node).type = .dir then some node else none, fs)

/-- The directory and the name that `vfs_make_dir` and `vfs_touch` work on. -/
def vfsParentDir (tree : VfsTree) (cwd : NodeId) (path : CStr) : Option (NodeId × CStr) :=
  if (vfsMountSubpath (vfsCheckPath tree cwd path)).isSome then none
  else
    match vfsSplitParent path with
    | none => none
    | some (parentPath, name) =>
      match if parentPath = [] then some cwd else vfsResolveFrom tree cwd parentPath with
      | none => none
      | some parent => if (tree.node parent).type = .dir then some (parent, name) else none

def vfsMakeDir (fs : Fs) (cwd : NodeId) (path : CStr) : Bool × Fs :=
  match vfsParentDir fs.tree cwd path with
  | none => (false, fs)
  | some (parent, name) =>
    if (vfsFindChild fs.tree parent name).isSome then (false, fs)
    else
      match vfsAllocNode fs name .dir (some parent) with
      | none => (false, fs)
      | some (_, fs) => (true, fs)

def vfsTouch (fs : Fs) (cwd : NodeId) (path : CStr) : Bool × Fs :=
  match vfsParentDir fs.tree cwd path with
  | none => (false, fs)
  | some (parent, name) =>
    match vfsFindChild fs.tree parent name with
    | some node => (decide ((fs.tree.node node).type = .file), fs)
    | none =>
      match vfsAllocNode fs name .file (some parent) with
      | none => (false, fs)
      | some (_, fs) => (true, fs)

/-- `vfs_list`: the entries printed, the inner `none` for its error message. -/
def vfsList (mach : Machine) (fs : Fs) (cwd : NodeId) (path : Option CStr) :
    Option (Option (List FsDirEntry)) :=
  let path := path.getD []
  let check := if path = [] then vfsGetCwdPath fs.tree cwd vfsPathMax
    else vfsCheckPath fs.tree cwd path
  match vfsMountSubpath check with
  | some subpath =>
    (fsListDirFromMount mach fs.mounts cdromMount subpath).map fun (ok, entries) =>
      if ok then some entries else none
  | none =>
    match vfsResolveFrom fs.tree cwd path with
    | none => some none
    | some node =>
      if (fs.tree.node node).type ≠ .dir then some none
      else
        let entries := (childrenFrom fs.tree fs.tree.count (fs.tree.node node).firstChild).map
          fun child => (⟨(fs.tree.node child).name,
            decide ((fs.tree.node child).type = .dir)⟩ : FsDirEntry)
        if node = vfsRoot then
          (fsPathIsDirFromMount mach fs.mounts cdromMount (cstr "/bin")).map fun isDir =>
            if isDir && (vfsFindChild fs.tree node (cstr "bin")).isNone then
              some (entries ++ [⟨cstr "bin", true⟩])
            else some entries
        else some (some entries)

def vfsReadFile (mach : Machine) (fs : Fs) (cwd : NodeId) (path : CStr) :
    Option (Option (Option Bytes × U32) × Fs) :=
  match vfsMountSubpath (vfsCheckPath fs.tree cwd path) with
  | some subpath =>
    (fsReadFileFromMount mach fs.mounts fs.heap cdromMount subpath).map fun (data, heap) =>
      (data.map fun bs => (some bs, BitVec.ofNat 32 bs.length), { fs with heap := heap })
  | none =>
    match vfsResolveFrom fs.tree cwd path with
    | none => some (none, fs)
    | some node =>
      let n := fs.tree.node node
      some (if n.type = .file then some (n.data, n.size) else none, fs)

/-- `node->data = copy; node->size = size`. -/
def VfsTree.setData (tree : VfsTree) (node : NodeId) (data : Bytes) (size : U32) : VfsTree :=
  let fileNode := { tree.node node with data := some data, size := size }
  { tree with node := Function.update tree.node node fileNode }

/-- `vfs_write_file`; `data i` is the byte at `data + i`. -/
def vfsWriteFile (fs : Fs) (cwd : NodeId) (path : CStr) (data : Nat → U8) (size : U32) :
    Bool × Fs :=
  if (vfsMountSubpath (vfsCheckPath fs.tree cwd path)).isSome then (false, fs)
  else
    match vfsTouch fs cwd path with
    | (false, fs) => (false, fs)
    | (true, fs) =>
      match vfsResolveFrom fs.tree cwd path with
      | none => (false, fs)
      | some node =>
        match kmalloc fs.heap (size + 1) with
        | none => (false, fs)
        | some (_, heap) =>
          let copy := (List.range size.toNat).map data
          (true, { fs with tree := fs.tree.setData node copy size, heap := heap })

def modeDir : U32 := 0x4000

def modeFile : U32 := 0x8000

/-- `vfs_stat`: the bit tells success; the record is written in either case. -/
def vfsStat (mach : Machine) (fs : Fs) (cwd : NodeId) (path : CStr) :
    Option ((Bool × UserStat) × Fs) :=
  if path = [] then some ((true, ⟨modeDir, 0⟩), fs)
  else
    match vfsMountSubpath (vfsCheckPath fs.tree cwd path) with
    | some subpath =>
      match fsPathIsDirFromMount mach fs.mounts cdromMount subpath with
      | none => none
      | some true => some ((true, ⟨modeDir, 0⟩), fs)
      | some false =>
        (fsReadFileFromMount mach fs.mounts fs.heap cdromMount subpath).map fun (data, heap) =>
          match data with
          | none => ((false, ⟨0, 0⟩), { fs with heap := heap })
          | some bs => ((true, ⟨modeFile, BitVec.ofNat 32 bs.length⟩), { fs with heap := heap })
    | none =>
      match vfsResolveFrom fs.tree cwd path with
      | none => some ((false, ⟨0, 0⟩), fs)
      | some node =>
        let n := fs.tree.node node
        some (if n.type = .dir then (true, ⟨modeDir, 0⟩) else (true, ⟨modeFile, n.size⟩), fs)

/-! ## Start-up -/

def vfsWriteSeedFile (fs : Fs) (path data : CStr) : Bool × Fs :=
  match vfsTouch fs vfsRoot path with
  | (false, fs) => (false, fs)
  | (true, fs) =>
    match vfsResolve fs.tree path with
    | none => (false, fs)
    | some file =>
      let size : U32 := BitVec.ofNat 32 (strLen data)
      match kmalloc fs.heap (size + 1) with
      | none => (false, fs)
      | some (_, heap) =>
        (true, { fs with tree := fs.tree.setData file data size, heap := heap })

def emptyTree : VfsTree := ⟨fun _ => ⟨[], .dir, none, none, none, none, 0⟩, 0⟩

/-- `vfs_init`; `none` when not even the root can be allocated. -/
def vfsInit (mounts : Mounts) (heap : Heap) : Option Fs :=
  (vfsAllocNode ⟨emptyTree, heap, mounts⟩ [] .dir none).map fun (root, fs) =>
    let fs := (vfsMakeDir fs root (cstr "/bin")).2
    let fs := (vfsMakeDir fs root (cstr "/docs")).2
    let fs := (vfsMakeDir fs root (cstr "/mount")).2
    let fs := (vfsMakeDir fs root (cstr "/mount/cdrom")).2
    let fs := (vfsMakeDir fs root (cstr "/tmp")).2
    let fs := (vfsWriteSeedFile fs (cstr "/docs/readme.txt")
      (cstr "SLOP in-memory VFS\nThis is not a disk-backed filesystem yet.\n")).2
    (vfsWriteSeedFile fs (cstr "/docs/roadmap.txt")
      (cstr "Next: more memory management, a better VFS, and real userland.\n")).2

end SlopOS.Kernel
