import Sshserv.Lib.FileEdit

/-!
# System calls on a file tree

The calls of a Unix `os` package.  A call that names an entry (`lstat`,
`mkdir`, `rename`, `remove`, `symlink`) leaves the last name alone.  A call
that fails changes nothing.
-/

namespace Sshserv.Lib.FileTree

open Lib.UnixPath

inductive Errno where
  | noent
  | notDir
  | loop
  | exist
  | isDir
  | notEmpty
  | inval
  | badf
  | busy
  | other (code : Nat)
  deriving DecidableEq

def isNotExist (err : Errno) : Bool :=
  err = .noent

inductive Kind where
  | dir
  | regular
  | symlink
  deriving DecidableEq

/-- `os.FileInfo`. -/
structure FileInfo where
  name : Str
  kind : Kind
  size : Nat
  attr : Attr
  deriving DecidableEq

def FileInfo.isDir (info : FileInfo) : Bool :=
  info.kind = .dir

/-- The flags of `os.OpenFile`. -/
structure OpenFlags where
  read : Bool
  write : Bool
  append : Bool
  creat : Bool
  trunc : Bool
  excl : Bool
  deriving DecidableEq

/-- An `os.File`.  `ino` is empty for a directory. -/
structure Handle where
  name : Str
  ino : Option Nat
  writable : Bool
  append : Bool
  isOpen : Bool
  deriving DecidableEq

def Handle.closed (handle : Handle) : Handle :=
  { handle with isOpen := false }

/-- The location a walk reached, or the error it reports. -/
def Outcome.located : Outcome → Except Errno Loc
  | .found loc _ => .ok loc
  | .missing _ _ _ => .error .noent
  | .absent _ => .error .noent
  | .notDir => .error .notDir
  | .loop => .error .loop

/-- The number of links a kernel follows in one path. -/
def kernelLinkLimit : Nat := 40

/-- The number of links `filepath.EvalSymlinks` follows in one path. -/
def evalLinkLimit : Nat := 255

namespace FileSys

variable (fs : FileSys)

def resolve (path : Str) : Outcome :=
  fs.walk kernelLinkLimit [] (elems path)

/-- The location `filepath.EvalSymlinks` finds. -/
def evalLoc (path : Str) : Except Errno Loc :=
  (fs.walk evalLinkLimit [] (elems path)).located

/-- `filepath.EvalSymlinks` on a rooted path. -/
def evalSymlinks (path : Str) : Except Errno Str :=
  match fs.evalLoc path with
  | .ok loc => .ok (render loc)
  | .error err => .error err

def infoAt (loc : Loc) : Option FileInfo :=
  match fs.node loc with
  | none => none
  | some (.dir attr) => some ⟨loc.getLastD ['/'], .dir, fs.dirSize, attr⟩
  | some (.file ino) =>
    some ⟨loc.getLastD ['/'], .regular, (fs.inode ino).data.length, (fs.inode ino).attr⟩
  | some (.symlink target attr) => some ⟨loc.getLastD ['/'], .symlink, target.length, attr⟩

def statAt (loc : Loc) : Except Errno FileInfo :=
  match fs.infoAt loc with
  | some info => .ok info
  | none => .error .noent

def stat (path : Str) : Except Errno FileInfo :=
  match (fs.resolve path).located with
  | .ok loc => fs.statAt loc
  | .error err => .error err

/-- The directory and the last name of a path, the name not followed. -/
def entryOf (path : Str) : Except Errno (Loc × Str) :=
  if path = [] then .error .noent
  else
    match (elems path).getLast? with
    | some (.name text) =>
      match (fs.walk kernelLinkLimit [] (elems path).dropLast).located with
      | .ok parent => if fs.isDirAt parent then .ok (parent, text) else .error .notDir
      | .error err => .error err
    | _ => .error .busy

/-- The location of an entry, the last name not followed. -/
def entryLoc (path : Str) : Except Errno Loc :=
  match fs.entryOf path with
  | .ok (parent, text) => .ok (parent ++ [text])
  | .error .busy => (fs.resolve path).located
  | .error err => .error err

def lstat (path : Str) : Except Errno FileInfo :=
  match fs.entryLoc path with
  | .ok loc => fs.statAt loc
  | .error err => .error err

def children (loc : Loc) : Finset Loc :=
  fs.locs.filter fun child => child ≠ [] ∧ child.dropLast = loc

/-- `ioutil.ReadDir`: the entries of a directory by name. -/
def readDir (path : Str) : Except Errno (List FileInfo) :=
  match (fs.resolve path).located with
  | .ok loc =>
    if fs.isDirAt loc then
      .ok (((fs.children loc).sort (· ≤ ·)).filterMap fs.infoAt)
    else .error .notDir
  | .error err => .error err

def listed (loc : Loc) : List FileInfo :=
  ((fs.children loc).sort (· ≤ ·)).filterMap fs.infoAt

def filesBelow (loc : Loc) : Finset Loc :=
  fs.locs.filter fun below =>
    loc <+: below ∧ (fs.infoAt below).any fun info => info.kind = .regular

def sizeAt (loc : Loc) : Nat :=
  ((fs.infoAt loc).map FileInfo.size).getD 0

def mkdir (path : Str) (attr : Attr) : Except Errno FileSys :=
  match fs.entryOf path with
  | .ok (parent, text) =>
    if room : fs.CanAdd parent text then
      .ok (fs.addDir parent text attr room)
    else .error .exist
  | .error err => .error err

/-- `os.Symlink`: a new entry `path` that points to `target`. -/
def symlink (target path : Str) (attr : Attr) : Except Errno FileSys :=
  match fs.entryOf path with
  | .ok (parent, text) =>
    if room : fs.CanAdd parent text then
      .ok (fs.addLink parent text target attr room)
    else .error .exist
  | .error err => .error err

def truncated (ino : Nat) (attr : Attr) : FileSys :=
  fs.setInode ino ⟨[], { (fs.inode ino).attr with mtime := attr.mtime }⟩

def handleOf (path : Str) (ino : Nat) (flags : OpenFlags) : Handle :=
  ⟨path, some ino, flags.write, flags.append, true⟩

def openAt (path : Str) (loc : Loc) (flags : OpenFlags) (attr : Attr) :
    Except Errno (FileSys × Handle) :=
  match fs.node loc with
  | some (.file ino) =>
    if flags.creat && flags.excl then .error .exist
    else if flags.trunc then
      .ok (fs.truncated ino attr, handleOf path ino flags)
    else .ok (fs, handleOf path ino flags)
  | _ => .error .isDir

/-- Create the entry `text` of `parent` and open it. -/
def createAt (path : Str) (parent : Loc) (text : Str) (flags : OpenFlags)
    (attr : Attr) : Except Errno (FileSys × Handle) :=
  if flags.creat then
    if room : fs.CanAdd parent text then
      .ok (fs.addFile parent text ⟨[], attr⟩ room, handleOf path fs.nextIno flags)
    else .error .exist
  else .error .noent

/-- `os.OpenFile`.  With `O_EXCL` a symbolic link in the last place is not
followed. -/
def openFile (path : Str) (flags : OpenFlags) (attr : Attr) : Except Errno (FileSys × Handle) :=
  if flags.creat && flags.excl then
    match fs.entryOf path with
    | .ok (parent, text) => fs.createAt path parent text flags attr
    | .error err => .error err
  else
    match fs.resolve path with
    | .found loc _ => fs.openAt path loc flags attr
    | .missing parent text _ => fs.createAt path parent text flags attr
    | .absent _ => .error .noent
    | .notDir => .error .notDir
    | .loop => .error .loop

def createFlags : OpenFlags :=
  ⟨true, true, false, true, true, false⟩

def create (path : Str) (attr : Attr) : Except Errno (FileSys × Handle) :=
  fs.openFile path createFlags attr

def openRead (path : Str) : Except Errno Handle :=
  match (fs.resolve path).located with
  | .ok loc =>
    match fs.node loc with
    | some (.file ino) => .ok ⟨path, some ino, false, false, true⟩
    | some (.dir _) => .ok ⟨path, none, false, false, true⟩
    | _ => .error .noent
  | .error err => .error err

/-- The content after writing `bytes` at `offset`; a gap reads as zeros. -/
def writeBytes (old : List Char) (offset : Nat) (bytes : List Char) : List Char :=
  if bytes = [] then old
  else
    (old ++ List.replicate (offset - old.length) (Char.ofNat 0)).take offset ++
      bytes ++ old.drop (offset + bytes.length)

/-- `File.WriteAt` at time `now`. -/
def writeAt (handle : Handle) (bytes : List Char) (offset now : Int) : Except Errno FileSys :=
  if handle.append then .error .inval
  else if offset < 0 then .error .inval
  else
    match handle.ino, handle.isOpen && handle.writable with
    | some ino, true =>
      .ok (fs.setInode ino
        ⟨writeBytes (fs.inode ino).data offset.toNat bytes,
          { (fs.inode ino).attr with mtime := now }⟩)
    | _, _ => .error .badf

/-- `File.ReadAt`: at most `count` bytes from `offset`. -/
def readAt (handle : Handle) (count : Nat) (offset : Int) : Except Errno (List Char) :=
  if offset < 0 then .error .inval
  else
    match handle.ino, handle.isOpen with
    | some ino, true => .ok (((fs.inode ino).data.drop offset.toNat).take count)
    | none, true => .error .isDir
    | _, false => .error .badf

/-- `os.Rename`.  A directory is never a target, except for another name of
the same directory. -/
def rename (oldPath newPath : Str) : Except Errno FileSys :=
  match fs.entryOf oldPath with
  | .error err => .error err
  | .ok (oldParent, oldText) =>
    match fs.entryOf newPath with
    | .error err => .error err
    | .ok (newParent, newText) =>
      if fs.node (oldParent ++ [oldText]) = none then .error .noent
      else if oldParent ++ [oldText] = newParent ++ [newText] then
        if fs.isDirAt (newParent ++ [newText]) ∧ oldPath = newPath then
          .error .exist
        else .ok fs
      else if fs.isDirAt (newParent ++ [newText]) then .error .exist
      else if fs.isDirAt (oldParent ++ [oldText]) ∧ fs.node (newParent ++ [newText]) ≠ none then
        .error .notDir
      else if move : fs.CanMove (oldParent ++ [oldText]) newParent newText then
        .ok (fs.moveTree (oldParent ++ [oldText]) newParent newText (by simp) move)
      else .error .inval

def remove (path : Str) : Except Errno FileSys :=
  match fs.entryOf path with
  | .error err => .error err
  | .ok (parent, text) =>
    if fs.node (parent ++ [text]) = none then .error .noent
    else if fs.children (parent ++ [text]) = ∅ then
      .ok (fs.dropTree (parent ++ [text]) [] (by simp))
    else .error .notEmpty

/-- `os.RemoveAll`.  It may stop half-way; `survivors` are then objects it
did not reach.  The error, if any, comes with the tree that is left.  The root
is emptied and stays. -/
def removeAll (path : Str) (survivors : List Loc) : FileSys × Except Errno Unit :=
  match fs.entryOf path with
  | .error .noent => (fs, .ok ())
  | .error err =>
    (if path = ['/'] then fs.dropTree [] ([] :: survivors) (by simp) else fs, .error err)
  | .ok (parent, text) =>
    let left := fs.dropTree (parent ++ [text]) survivors (by simp)
    (left,
      if left.node (parent ++ [text]) = none then .ok ()
      else .error (.other 5))

def modifyAttr (path : Str) (change : Attr → Attr) : Except Errno FileSys :=
  match (fs.resolve path).located with
  | .error err => .error err
  | .ok loc =>
    match fs.node loc with
    | some (.dir attr) => .ok (fs.setDirAttr loc (change attr))
    | some (.file ino) =>
      .ok (fs.setInode ino { fs.inode ino with attr := change (fs.inode ino).attr })
    | _ => .error .noent

def chmod (path : Str) (mode : Nat) : Except Errno FileSys :=
  fs.modifyAttr path fun attr => { attr with mode := mode }

/-- The owner after a change to `id`; minus one, as the kernel reads it,
leaves the owner alone. -/
def chownTo (id old : Int) : Int :=
  if id % 2 ^ 32 = 2 ^ 32 - 1 then old else id % 2 ^ 32

def chown (path : Str) (uid gid : Int) : Except Errno FileSys :=
  fs.modifyAttr path fun attr =>
    { attr with uid := chownTo uid attr.uid, gid := chownTo gid attr.gid }

def chtimes (path : Str) (atime mtime : Int) : Except Errno FileSys :=
  fs.modifyAttr path fun attr => { attr with atime := atime, mtime := mtime }

end FileSys

end Sshserv.Lib.FileTree
