import Sshserv.Lib.UnixPath

/-!
# File trees with symbolic links

A file system maps physical locations (lists of names below the root) to
nodes.  The entry of a regular file names an inode, so that an open file
survives the renaming or the removal of its entry.  `walk` resolves a path the
way a kernel does, following links up to a fixed number.
-/

namespace Sshserv.Lib.FileTree

open Lib.UnixPath

/-- A physical location: the names from the root. -/
abbrev Loc := List Str

/-- The attributes that do not depend on the kind of the object. -/
structure Attr where
  mode : Nat
  uid : Int
  gid : Int
  atime : Int
  mtime : Int
  deriving DecidableEq

inductive Node where
  | dir (attr : Attr)
  | file (ino : Nat)
  | symlink (target : Str) (attr : Attr)
  deriving DecidableEq

/-- The object behind the entries of a regular file. -/
structure Inode where
  data : List Char
  attr : Attr
  deriving DecidableEq

namespace Node

def isDir : Node → Bool
  | .dir _ => true
  | _ => false

end Node

/-- A file system.  `dirSize` is the size it reports for directories. -/
@[ext]
structure FileSys where
  node : Loc → Option Node
  locs : Finset Loc
  inode : Nat → Inode
  nextIno : Nat
  dirSize : Nat
  mem_locs : ∀ loc, loc ∈ locs ↔ node loc ≠ none
  root_dir : (node []).any Node.isDir = true
  parent_dir : ∀ loc text, node (loc ++ [text]) ≠ none → (node loc).any Node.isDir = true
  ino_lt : ∀ loc ino, node loc = some (.file ino) → ino < nextIno
  ino_inj :
    ∀ loc other ino, node loc = some (.file ino) → node other = some (.file ino) → loc = other

/-- How a walk ends.  `left` is the number of links it could still follow.
`missing` means that only the last element does not exist, `absent` that an
earlier one does not. -/
inductive Outcome where
  | found (loc : Loc) (left : Nat)
  | missing (parent : Loc) (text : Str) (left : Nat)
  | absent (loc : Loc)
  | notDir
  | loop
  deriving DecidableEq

namespace Outcome

/-- The location whose absence ended the walk. -/
def stuckAt : Outcome → Option Loc
  | .missing parent text _ => some (parent ++ [text])
  | .absent loc => some loc
  | _ => none

end Outcome

namespace FileSys

def isDirAt (fs : FileSys) (loc : Loc) : Bool :=
  (fs.node loc).any Node.isDir

/-- The elements of a link's target, and where they are resolved from. -/
def linkStart (dest : Loc) (target : Str) : Loc :=
  if isAbs target then [] else dest

/-- The walk up to the first link; `follow` continues from there. -/
def walkFrom (fs : FileSys) (left : Nat) (follow : Loc → List Elem → Outcome) :
    Loc → List Elem → Outcome
  | dest, [] => .found dest left
  | dest, .cur :: rest => walkFrom fs left follow dest rest
  | dest, .up :: rest => walkFrom fs left follow dest.dropLast rest
  | dest, .name text :: rest =>
    match fs.node (dest ++ [text]) with
    | none =>
      if rest = [] then .missing dest text left
      else .absent (dest ++ [text])
    | some (.dir _) => walkFrom fs left follow (dest ++ [text]) rest
    | some (.file _) => if rest = [] then .found (dest ++ [text]) left else .notDir
    | some (.symlink target _) => follow (linkStart dest target) (elems target ++ rest)

/-- Resolve elements from a directory, following at most `limit` links. -/
def walk (fs : FileSys) : Nat → Loc → List Elem → Outcome
  | 0 => walkFrom fs 0 fun _ _ => .loop
  | limit + 1 => walkFrom fs (limit + 1) (walk fs limit)

/-- What `walk` does at a link when `left` links remain. -/
def follow (fs : FileSys) : Nat → Loc → List Elem → Outcome
  | 0 => fun _ _ => .loop
  | limit + 1 => walk fs limit

theorem walk_eq_walkFrom (fs : FileSys) (limit : Nat) :
    fs.walk limit = fs.walkFrom limit (fs.follow limit) := by
  cases limit with
  | zero => rfl
  | succ limit => rfl

@[simp]
theorem walk_nil (fs : FileSys) (limit : Nat) (dest : Loc) :
    fs.walk limit dest [] = .found dest limit := by
  rw [walk_eq_walkFrom]
  rfl

@[simp]
theorem walk_cur (fs : FileSys) (limit : Nat) (dest : Loc) (rest : List Elem) :
    fs.walk limit dest (.cur :: rest) = fs.walk limit dest rest := by
  rw [walk_eq_walkFrom]
  rfl

@[simp]
theorem walk_up (fs : FileSys) (limit : Nat) (dest : Loc) (rest : List Elem) :
    fs.walk limit dest (.up :: rest) = fs.walk limit dest.dropLast rest := by
  rw [walk_eq_walkFrom]
  rfl

theorem walk_name (fs : FileSys) (limit : Nat) (dest : Loc) (text : Str) (rest : List Elem) :
    fs.walk limit dest (.name text :: rest) =
      match fs.node (dest ++ [text]) with
      | none =>
        if rest = [] then .missing dest text limit
        else .absent (dest ++ [text])
      | some (.dir _) => fs.walk limit (dest ++ [text]) rest
      | some (.file _) => if rest = [] then .found (dest ++ [text]) limit else .notDir
      | some (.symlink target _) =>
        fs.follow limit (linkStart dest target) (elems target ++ rest) := by
  rw [walk_eq_walkFrom]
  rfl

/-- Induction along a walk: the elements before the first link, with the
statement for smaller budgets available at the link. -/
theorem walk_induction {motive : Nat → Loc → List Elem → Prop}
    (nil : ∀ limit dest, motive limit dest [])
    (cur : ∀ limit dest rest, motive limit dest rest → motive limit dest (.cur :: rest))
    (up : ∀ limit dest rest, motive limit dest.dropLast rest → motive limit dest (.up :: rest))
    (name :
      ∀ limit dest text rest,
        motive limit (dest ++ [text]) rest →
        (∀ smaller start path, limit = smaller + 1 → motive smaller start path) →
        motive limit dest (.name text :: rest)) :
    ∀ limit dest path, motive limit dest path := by
  intro limit
  induction limit with
  | zero =>
    intro dest path
    induction path generalizing dest with
    | nil => exact nil 0 dest
    | cons head rest inner =>
      cases head with
      | cur => exact cur 0 dest rest (inner dest)
      | up => exact up 0 dest rest (inner dest.dropLast)
      | name text =>
        exact name 0 dest text rest (inner (dest ++ [text]))
          (fun _ _ _ impossible => absurd impossible (by omega))
  | succ limit outer =>
    intro dest path
    induction path generalizing dest with
    | nil => exact nil (limit + 1) dest
    | cons head rest inner =>
      cases head with
      | cur => exact cur (limit + 1) dest rest (inner dest)
      | up => exact up (limit + 1) dest rest (inner dest.dropLast)
      | name text =>
        refine name (limit + 1) dest text rest (inner (dest ++ [text])) ?_
        intro smaller start path equal
        obtain rfl : smaller = limit := by omega
        exact outer start path

theorem isDirAt_root (fs : FileSys) : fs.isDirAt [] = true :=
  fs.root_dir

variable {fs : FileSys} {loc : Loc}

theorem isDirAt_of_child (text : Str) (present : fs.node (loc ++ [text]) ≠ none) :
    fs.isDirAt loc = true :=
  fs.parent_dir loc text present

theorem isDirAt_dropLast (directory : fs.isDirAt loc) : fs.isDirAt loc.dropLast = true := by
  rcases List.eq_nil_or_concat loc with rfl | ⟨parent, text, rfl⟩
  · exact directory
  · rw [List.concat_eq_append, List.dropLast_concat]
    apply isDirAt_of_child text
    intro absent
    simp [isDirAt, absent] at directory

theorem isDirAt_of_node_dir {attr : Attr} (entry : fs.node loc = some (.dir attr)) :
    fs.isDirAt loc = true := by
  simp [isDirAt, entry, Node.isDir]

theorem isDirAt_iff : fs.isDirAt loc = true ↔ ∃ attr, fs.node loc = some (.dir attr) := by
  constructor
  · intro directory
    unfold isDirAt at directory
    cases entry : fs.node loc with
    | none => simp [entry] at directory
    | some node =>
      cases node with
      | dir attr => exact ⟨attr, rfl⟩
      | file ino => simp [entry, Node.isDir] at directory
      | symlink target attr => simp [entry, Node.isDir] at directory
  · rintro ⟨attr, entry⟩
    exact isDirAt_of_node_dir entry

theorem isDirAt_linkStart {dest : Loc} (directory : fs.isDirAt dest) (target : Str) :
    fs.isDirAt (linkStart dest target) = true := by
  unfold linkStart
  split
  · exact fs.isDirAt_root
  · exact directory

end FileSys

end Sshserv.Lib.FileTree
