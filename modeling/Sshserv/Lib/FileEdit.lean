import Sshserv.Lib.FileTree

/-!
# Edits of a file tree

The primitive changes of a file system.  Each takes the facts it needs as
arguments, so that the result is a file system again, and comes with the
equations of the new tree.
-/

namespace Sshserv.Lib.FileTree

open Lib.UnixPath

namespace FileSys

variable (fs : FileSys)

/-- `text` can be made an entry of the directory `parent`. -/
structure CanAdd (parent : Loc) (text : Str) : Prop where
  absent : fs.node (parent ++ [text]) = none
  directory : fs.isDirAt parent = true

instance (parent : Loc) (text : Str) : Decidable (fs.CanAdd parent text) :=
  decidable_of_iff
    (fs.node (parent ++ [text]) = none ∧ fs.isDirAt parent = true)
    ⟨fun ⟨absent, directory⟩ => ⟨absent, directory⟩, fun room => ⟨room.absent, room.directory⟩⟩

private theorem parent_ne_child (parent : Loc) (text : Str) : parent ≠ parent ++ [text] := by
  intro equal
  simpa using congrArg List.length equal

variable {parent loc target source : Loc} {text : Str}

private theorem mem_insert_locs (new : Node) (loc : Loc) :
    loc ∈ insert (parent ++ [text]) fs.locs ↔
      (if loc = parent ++ [text] then some new else fs.node loc) ≠ none := by
  by_cases here : loc = parent ++ [text]
  · simp [here]
  · simp [here, fs.mem_locs]

private theorem insert_root_dir (new : Node) :
    ((if ([] : Loc) = parent ++ [text] then some new
      else fs.node []).any Node.isDir) = true := by
  rw [if_neg (by simp)]
  exact fs.root_dir

private theorem insert_parent_dir
    (room : fs.CanAdd parent text) (new : Node) (loc : Loc) (piece : Str) (present :
      (if loc ++ [piece] = parent ++ [text] then some new
        else fs.node (loc ++ [piece])) ≠ none) :
    ((if loc = parent ++ [text] then some new
      else fs.node loc).any Node.isDir) = true := by
  by_cases here : loc ++ [piece] = parent ++ [text]
  · obtain ⟨rfl, _⟩ := List.append_inj' here rfl
    rw [if_neg (parent_ne_child loc text)]
    exact room.directory
  · rw [if_neg here] at present
    have directory := fs.parent_dir loc piece present
    have different : loc ≠ parent ++ [text] := by
      rintro rfl
      simp [room.absent] at directory
    rw [if_neg different]
    exact directory

def addNode (parent : Loc) (text : Str) (new : Node)
    (room : fs.CanAdd parent text) (notFile : ∀ ino, new ≠ .file ino) :
    FileSys where
  node := fun loc => if loc = parent ++ [text] then some new else fs.node loc
  locs := insert (parent ++ [text]) fs.locs
  inode := fs.inode
  nextIno := fs.nextIno
  dirSize := fs.dirSize
  mem_locs := fs.mem_insert_locs new
  root_dir := fs.insert_root_dir new
  parent_dir := fs.insert_parent_dir room new
  ino_lt := by
    intro loc ino entry
    by_cases here : loc = parent ++ [text]
    · simp [here, notFile ino] at entry
    · exact fs.ino_lt loc ino (by simpa [here] using entry)
  ino_inj := by
    intro loc other ino entry otherEntry
    by_cases here : loc = parent ++ [text]
    · simp [here, notFile ino] at entry
    · by_cases there : other = parent ++ [text]
      · simp [there, notFile ino] at otherEntry
      · exact fs.ino_inj loc other ino
          (by simpa [here] using entry) (by simpa [there] using otherEntry)

def addDir (parent : Loc) (text : Str) (attr : Attr) (room : fs.CanAdd parent text) : FileSys :=
  fs.addNode parent text (.dir attr) room (by simp)

def addLink (parent : Loc) (text target : Str) (attr : Attr)
    (room : fs.CanAdd parent text) : FileSys :=
  fs.addNode parent text (.symlink target attr) room (by simp)

def addFile (parent : Loc) (text : Str) (new : Inode) (room : fs.CanAdd parent text) : FileSys where
  node := fun loc =>
    if loc = parent ++ [text] then some (.file fs.nextIno) else fs.node loc
  locs := insert (parent ++ [text]) fs.locs
  inode := fun ino => if ino = fs.nextIno then new else fs.inode ino
  nextIno := fs.nextIno + 1
  dirSize := fs.dirSize
  mem_locs := fs.mem_insert_locs _
  root_dir := fs.insert_root_dir _
  parent_dir := fs.insert_parent_dir room _
  ino_lt := by
    intro loc ino entry
    by_cases here : loc = parent ++ [text]
    · simp only [here, if_true, Option.some.injEq, Node.file.injEq] at entry
      omega
    · have old := fs.ino_lt loc ino (by simpa [here] using entry)
      omega
  ino_inj := by
    intro loc other ino entry otherEntry
    by_cases here : loc = parent ++ [text]
    · by_cases there : other = parent ++ [text]
      · rw [here, there]
      · simp only [here, if_true, Option.some.injEq, Node.file.injEq] at entry
        have old := fs.ino_lt other ino (by simpa [there] using otherEntry)
        omega
    · by_cases there : other = parent ++ [text]
      · simp only [there, if_true, Option.some.injEq, Node.file.injEq] at otherEntry
        have old := fs.ino_lt loc ino (by simpa [here] using entry)
        omega
      · exact fs.ino_inj loc other ino
          (by simpa [here] using entry) (by simpa [there] using otherEntry)

def setInode (ino : Nat) (new : Inode) : FileSys :=
  { fs with inode := fun other => if other = ino then new else fs.inode other }

def rootOnly (attr : Attr) (dirSize : Nat) : FileSys where
  node := fun loc => if loc = [] then some (.dir attr) else none
  locs := {[]}
  inode := fun _ => ⟨[], attr⟩
  nextIno := 0
  dirSize := dirSize
  mem_locs := by
    intro loc
    by_cases root : loc = []
    · simp [root]
    · simp [root]
  root_dir := by simp [Node.isDir]
  parent_dir := by
    intro loc text present
    simp at present
  ino_lt := by
    intro loc ino entry
    split at entry <;> cases entry
  ino_inj := by
    intro loc other ino entry
    split at entry <;> cases entry

def withDir (parent : Loc) (text : Str) (attr : Attr) : FileSys :=
  if room : fs.CanAdd parent text then
    fs.addDir parent text attr room
  else fs

def withLink (parent : Loc) (text target : Str) (attr : Attr) : FileSys :=
  if room : fs.CanAdd parent text then
    fs.addLink parent text target attr room
  else fs

def withFile (parent : Loc) (text : Str) (new : Inode) : FileSys :=
  if room : fs.CanAdd parent text then fs.addFile parent text new room
  else fs

def reattributed (attr : Attr) : Node → Node
  | .dir _ => .dir attr
  | .file ino => .file ino
  | .symlink target old => .symlink target old

theorem reattributed_isDir (attr : Attr) (node : Node) :
    (reattributed attr node).isDir = node.isDir := by
  cases node with
  | dir old => rfl
  | file ino => rfl
  | symlink target old => rfl

private theorem any_isDir_reattributed (place loc : Loc) (attr : Attr) :
    ((if loc = place then (fs.node loc).map (reattributed attr)
      else fs.node loc).any Node.isDir) = (fs.node loc).any Node.isDir := by
  by_cases here : loc = place
  · cases entry : fs.node loc with
    | none => simp [here]
    | some node => simp [here, reattributed_isDir]
  · simp [here]

private theorem reattributed_eq_file_iff (place loc : Loc) (attr : Attr) (ino : Nat) :
    (if loc = place then (fs.node loc).map (reattributed attr)
      else fs.node loc) = some (.file ino) ↔ fs.node loc = some (.file ino) := by
  by_cases here : loc = place
  · cases entry : fs.node loc with
    | none => simp [here]
    | some node => cases node <;> simp [here, reattributed]
  · simp [here]

def setDirAttr (place : Loc) (attr : Attr) : FileSys where
  node := fun loc =>
    if loc = place then (fs.node loc).map (reattributed attr) else fs.node loc
  locs := fs.locs
  inode := fs.inode
  nextIno := fs.nextIno
  dirSize := fs.dirSize
  mem_locs := by
    intro loc
    by_cases here : loc = place
    · simp [here, fs.mem_locs]
    · simp [here, fs.mem_locs]
  root_dir := by
    rw [any_isDir_reattributed]
    exact fs.root_dir
  parent_dir := by
    intro loc text present
    rw [any_isDir_reattributed]
    apply fs.parent_dir loc text
    intro absent
    simp [absent] at present
  ino_lt := by
    intro loc ino entry
    exact fs.ino_lt loc ino ((fs.reattributed_eq_file_iff place loc attr ino).mp entry)
  ino_inj := by
    intro loc other ino entry otherEntry
    exact fs.ino_inj loc other ino
      ((fs.reattributed_eq_file_iff place loc attr ino).mp entry)
      ((fs.reattributed_eq_file_iff place other attr ino).mp otherEntry)

/-- `loc` lies at or below `place` and leads to no survivor. -/
def Doomed (place : Loc) (survivors : List Loc) (loc : Loc) : Prop :=
  place <+: loc ∧ ∀ kept ∈ survivors, ¬ loc <+: kept

instance (place : Loc) (survivors : List Loc) (loc : Loc) :
    Decidable (Doomed place survivors loc) :=
  inferInstanceAs (Decidable (_ ∧ _))

theorem Doomed.child {place : Loc} {survivors : List Loc} (doomed : Doomed place survivors loc)
    (text : Str) :
    Doomed place survivors (loc ++ [text]) :=
  ⟨doomed.1.trans (List.prefix_append loc [text]),
    fun kept member below =>
      doomed.2 kept member ((List.prefix_append loc [text]).trans below)⟩

@[simp]
theorem doomed_nil {place : Loc} {survivors : List Loc} :
    Doomed place survivors [] ↔ place = [] ∧ survivors = [] := by
  simp [Doomed, List.eq_nil_iff_forall_not_mem (l := survivors)]

/-- Remove the entries below `place`, except those on the way to a survivor. -/
def dropTree (place : Loc) (survivors : List Loc) (stays : ¬ Doomed place survivors []) :
    FileSys where
  node := fun loc =>
    if Doomed place survivors loc then none else fs.node loc
  locs := fs.locs.filter fun loc => ¬ Doomed place survivors loc
  inode := fs.inode
  nextIno := fs.nextIno
  dirSize := fs.dirSize
  mem_locs := by
    intro loc
    by_cases doomed : Doomed place survivors loc
    · simp [doomed]
    · simp [doomed, fs.mem_locs]
  root_dir := by
    rw [if_neg stays]
    exact fs.root_dir
  parent_dir := by
    intro loc text present
    by_cases doomed : Doomed place survivors loc
    · rw [if_pos (doomed.child text)] at present
      exact absurd rfl present
    · rw [if_neg doomed]
      apply fs.parent_dir loc text
      intro absent
      rw [absent] at present
      split at present <;> exact absurd rfl present
  ino_lt := by
    intro loc ino entry
    split at entry
    · cases entry
    · exact fs.ino_lt loc ino entry
  ino_inj := by
    intro loc other ino entry otherEntry
    split at entry
    · cases entry
    · split at otherEntry
      · cases otherEntry
      · exact fs.ino_inj loc other ino entry otherEntry

/-- The subtree at `source` can be moved to the entry `text` of `parent`,
which is absent or not a directory. -/
structure CanMove (source parent : Loc) (text : Str) : Prop where
  directory : fs.isDirAt parent = true
  notDir : fs.isDirAt (parent ++ [text]) = false
  outside : ¬ source <+: parent ++ [text]

instance (source parent : Loc) (text : Str) : Decidable (fs.CanMove source parent text) :=
  decidable_of_iff
    (fs.isDirAt parent = true ∧ fs.isDirAt (parent ++ [text]) = false ∧
      ¬ source <+: parent ++ [text])
    ⟨fun ⟨directory, notDir, outside⟩ => ⟨directory, notDir, outside⟩,
     fun move => ⟨move.directory, move.notDir, move.outside⟩⟩

/-- The tree after a move, as a function of locations. -/
def movedNode (source target loc : Loc) : Option Node :=
  if target <+: loc then fs.node (source ++ loc.drop target.length)
  else if source <+: loc then none
  else fs.node loc

theorem node_below_notDir (notDir : fs.isDirAt loc = false) :
    ∀ rest : Loc, rest ≠ [] → fs.node (loc ++ rest) = none := by
  intro rest nonempty
  by_contra present
  induction rest using List.reverseRecOn with
  | nil => exact nonempty rfl
  | append_singleton initial text ih =>
    rw [← List.append_assoc] at present
    have directory := fs.isDirAt_of_child _ present
    by_cases empty : initial = []
    · simp [empty, notDir] at directory
    · apply ih empty
      intro absent
      simp [isDirAt, absent] at directory

private theorem drop_append_singleton (below : target <+: loc) (text : Str) :
    (loc ++ [text]).drop target.length = loc.drop target.length ++ [text] := by
  obtain ⟨rest, rfl⟩ := below
  simp [List.append_assoc]

/-- Where a node of the new tree was before the move. -/
private def movedFrom (source target loc : Loc) : Loc :=
  if target <+: loc then source ++ loc.drop target.length else loc

private theorem node_movedFrom {node : Node} (entry : fs.movedNode source target loc = some node) :
    fs.node (movedFrom source target loc) = some node := by
  unfold movedNode at entry
  unfold movedFrom
  split at entry
  · rw [if_pos ‹_›]
    exact entry
  · split at entry
    · cases entry
    · rw [if_neg ‹_›]
      exact entry

private theorem movedFrom_inj {other : Loc} (locKept : target <+: loc ∨ ¬ source <+: loc)
    (otherKept : target <+: other ∨ ¬ source <+: other)
    (equal : movedFrom source target loc = movedFrom source target other) :
    loc = other := by
  unfold movedFrom at equal
  by_cases here : target <+: loc
  · obtain ⟨rest, rfl⟩ := here
    rw [if_pos (List.prefix_append target rest)] at equal
    by_cases there : target <+: other
    · obtain ⟨otherRest, rfl⟩ := there
      rw [if_pos (List.prefix_append target otherRest)] at equal
      simpa using equal
    · rw [if_neg there] at equal
      exact absurd ⟨_, equal⟩ (otherKept.resolve_left there)
  · rw [if_neg here] at equal
    by_cases there : target <+: other
    · obtain ⟨otherRest, rfl⟩ := there
      rw [if_pos (List.prefix_append target otherRest)] at equal
      exact absurd ⟨_, equal.symm⟩ (locKept.resolve_left here)
    · rw [if_neg there] at equal
      exact equal

private theorem kept_of_movedNode
    {node : Node} (entry : fs.movedNode source target loc = some node) :
    target <+: loc ∨ ¬ source <+: loc := by
  unfold movedNode at entry
  split at entry
  · exact Or.inl ‹_›
  · split at entry
    · cases entry
    · exact Or.inr ‹_›

private theorem movedNode_parent_dir (move : fs.CanMove source parent text) (loc : Loc)
    (piece : Str) (present : fs.movedNode source (parent ++ [text]) (loc ++ [piece]) ≠ none) :
    (fs.movedNode source (parent ++ [text]) loc).any Node.isDir = true := by
  unfold movedNode at present ⊢
  by_cases below : parent ++ [text] <+: loc
  · -- inside the moved subtree
    rw [if_pos (below.trans (List.prefix_append loc [piece])),
      drop_append_singleton below, ← List.append_assoc] at present
    rw [if_pos below]
    exact fs.parent_dir _ piece present
  · rw [if_neg below]
    by_cases here : parent ++ [text] <+: loc ++ [piece]
    · -- the moved entry itself: its directory is `parent`
      have equal : parent ++ [text] = loc ++ [piece] := by
        rcases List.prefix_concat_iff.mp here with same | inside
        · exact same
        · exact absurd inside below
      obtain ⟨rfl, _⟩ := List.append_inj' equal rfl
      have outside : ¬ source <+: parent := fun inside =>
        move.outside (inside.trans (List.prefix_append parent [text]))
      rw [if_neg outside]
      exact move.directory
    · rw [if_neg here] at present
      by_cases gone : source <+: loc
      · rw [if_pos (gone.trans (List.prefix_append loc [piece]))] at present
        exact absurd rfl present
      · rw [if_neg gone]
        apply fs.parent_dir loc piece
        intro absent
        rw [absent] at present
        split at present <;> exact absurd rfl present

/-- Move a subtree onto an entry that is absent or not a directory. -/
def moveTree (source parent : Loc) (text : Str) (nonroot : source ≠ [])
    (move : fs.CanMove source parent text) : FileSys where
  node := fs.movedNode source (parent ++ [text])
  locs :=
    (fs.locs.filter fun loc =>
        ¬ parent ++ [text] <+: loc ∧ ¬ source <+: loc) ∪
      (fs.locs.filter fun loc => source <+: loc).image
        fun loc => (parent ++ [text]) ++ loc.drop source.length
  inode := fs.inode
  nextIno := fs.nextIno
  dirSize := fs.dirSize
  mem_locs := by
    intro loc
    simp only [Finset.mem_union, Finset.mem_filter, Finset.mem_image, fs.mem_locs, movedNode]
    by_cases below : parent ++ [text] <+: loc
    · obtain ⟨rest, rfl⟩ := below
      simp only [List.prefix_append, not_true_eq_false, false_and, and_false,
        false_or, if_true, List.drop_left]
      constructor
      · rintro ⟨old, ⟨present, ⟨oldRest, rfl⟩⟩, equal⟩
        simp only [List.drop_left, List.append_cancel_left_eq] at equal
        exact equal ▸ present
      · intro present
        exact ⟨source ++ rest, ⟨present, List.prefix_append source rest⟩,
          by simp⟩
    · have notMoved :
          ¬ ∃ old, (fs.node old ≠ none ∧ source <+: old) ∧
            (parent ++ [text]) ++ old.drop source.length = loc := by
        rintro ⟨old, _, rfl⟩
        exact below (List.prefix_append _ _)
      by_cases gone : source <+: loc
      · simp only [below, gone, notMoved, not_true_eq_false, and_false,
          or_false, if_false, if_true, ne_eq]
      · simp only [below, gone, notMoved, not_false_eq_true, and_true, or_false, if_false]
  root_dir := by
    have notTarget : ¬ parent ++ [text] <+: ([] : Loc) := by simp
    have notSource : ¬ source <+: ([] : Loc) := by simpa using nonroot
    rw [movedNode, if_neg notTarget, if_neg notSource]
    exact fs.root_dir
  parent_dir := fs.movedNode_parent_dir move
  ino_lt := by
    intro loc ino entry
    exact fs.ino_lt _ ino (fs.node_movedFrom entry)
  ino_inj := by
    intro loc other ino entry otherEntry
    exact movedFrom_inj
      (fs.kept_of_movedNode entry) (fs.kept_of_movedNode otherEntry)
      (fs.ino_inj _ _ ino (fs.node_movedFrom entry) (fs.node_movedFrom otherEntry))

end FileSys

end Sshserv.Lib.FileTree
