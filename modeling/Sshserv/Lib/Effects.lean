import Sshserv.Lib.Resolve

/-!
# What a system call changes

One lemma for each call: the trees before and after it, compared entry by
entry.  Attributes do not matter for resolution, so calls that change only
attributes leave every walk as it was (`SameShape`).
-/

namespace Sshserv.Lib.FileTree

open Lib.UnixPath

def Node.bare : Node → Node
  | .dir _ => .dir ⟨0, 0, 0, 0, 0⟩
  | .file ino => .file ino
  | .symlink target _ => .symlink target ⟨0, 0, 0, 0, 0⟩

namespace FileSys

section Entries

variable (fs : FileSys) {parent : Loc} {text : Str} (room : fs.CanAdd parent text)

@[simp]
theorem node_addDir (attr : Attr) (loc : Loc) :
    (fs.addDir parent text attr room).node loc =
      if loc = parent ++ [text] then some (.dir attr) else fs.node loc :=
  rfl

@[simp]
theorem node_addLink (target : Str) (attr : Attr) (loc : Loc) :
    (fs.addLink parent text target attr room).node loc =
      if loc = parent ++ [text] then some (.symlink target attr)
      else fs.node loc :=
  rfl

@[simp]
theorem node_addFile (new : Inode) (loc : Loc) :
    (fs.addFile parent text new room).node loc =
      if loc = parent ++ [text] then some (.file fs.nextIno)
      else fs.node loc :=
  rfl

@[simp]
theorem node_setInode (ino : Nat) (new : Inode) : (fs.setInode ino new).node = fs.node :=
  rfl

end Entries

/-- The same entries, up to attributes. -/
def SameShape (before after : FileSys) : Prop :=
  ∀ loc, (after.node loc).map Node.bare = (before.node loc).map Node.bare

theorem SameShape.refl (fs : FileSys) : SameShape fs fs :=
  fun _ => rfl

theorem SameShape.trans {first second third : FileSys}
    (left : SameShape first second) (right : SameShape second third) :
    SameShape first third :=
  fun loc => (right loc).trans (left loc)

variable {before after : FileSys} {path text : Str} {change : Attr → Attr}
    {loc parent : Loc} {left : Nat}

theorem sameShape_of_node (node : after.node = before.node) : SameShape before after := by
  intro loc
  rw [node]

theorem SameShape.node_none (shape : SameShape before after) (loc : Loc) :
    after.node loc = none ↔ before.node loc = none := by
  have same := shape loc
  rw [← Option.map_eq_none_iff (f := Node.bare), same, Option.map_eq_none_iff]

private theorem map_bare_eq_file_iff (entry : Option Node) (ino : Nat) :
    entry.map Node.bare = some (.file ino) ↔ entry = some (.file ino) := by
  cases entry with
  | none => simp
  | some node => cases node <;> simp [Node.bare]

theorem SameShape.node_file (shape : SameShape before after) (loc : Loc) (ino : Nat) :
    after.node loc = some (.file ino) ↔ before.node loc = some (.file ino) := by
  rw [← map_bare_eq_file_iff, shape loc, map_bare_eq_file_iff]

private theorem any_isDir_map_bare (entry : Option Node) :
    (entry.map Node.bare).any Node.isDir = entry.any Node.isDir := by
  cases entry with
  | none => rfl
  | some node => cases node <;> rfl

theorem SameShape.isDirAt (shape : SameShape before after) (loc : Loc) :
    after.isDirAt loc = before.isDirAt loc := by
  unfold FileSys.isDirAt
  rw [← any_isDir_map_bare, shape loc, any_isDir_map_bare]

theorem SameShape.walk (shape : SameShape before after) (limit : Nat) (dest : Loc)
    (path : List Elem) :
    after.walk limit dest path = before.walk limit dest path := by
  refine walk_induction
    (motive := fun limit dest path =>
      after.walk limit dest path = before.walk limit dest path)
    ?_ ?_ ?_ ?_ limit dest path
  · intro limit dest
    simp
  · intro limit dest rest tail
    simpa using tail
  · intro limit dest rest tail
    simpa using tail
  · intro limit dest text rest tail smaller
    have same := shape (dest ++ [text])
    rw [walk_name, walk_name]
    cases afterEntry : after.node (dest ++ [text]) with
    | none => rw [(shape.node_none _).mp afterEntry]
    | some node =>
      cases beforeEntry : before.node (dest ++ [text]) with
      | none =>
        rw [(shape.node_none _).mpr beforeEntry] at afterEntry
        cases afterEntry
      | some old =>
        rw [afterEntry, beforeEntry] at same
        cases node <;> cases old <;>
          simp only [Option.map_some, Node.bare, Option.some.injEq,
            reduceCtorEq, Node.symlink.injEq, and_true] at same
        · exact tail
        · rfl
        · subst same
          cases limit with
          | zero => rfl
          | succ limit => exact smaller limit _ _ rfl

theorem SameShape.resolve (shape : SameShape before after) (path : Str) :
    after.resolve path = before.resolve path :=
  shape.walk kernelLinkLimit [] (elems path)

variable {fs : FileSys}

theorem sameShape_setDirAttr (place : Loc) (attr : Attr) :
    SameShape fs (fs.setDirAttr place attr) := by
  intro loc
  by_cases here : loc = place
  · cases entry : fs.node loc with
    | none => simp [setDirAttr, here ▸ entry, here]
    | some node => cases node <;> simp [setDirAttr, here ▸ entry, here, reattributed, Node.bare]
  · simp [setDirAttr, here]

theorem sameShape_setInode (ino : Nat) (new : Inode) : SameShape fs (fs.setInode ino new) :=
  fun _ => rfl

theorem sameShape_modifyAttr (done : fs.modifyAttr path change = .ok after) :
    SameShape fs after := by
  unfold modifyAttr at done
  split at done
  · cases done
  · split at done
    · cases done
      exact sameShape_setDirAttr _ _
    · cases done
      exact sameShape_setInode _ _
    · cases done

theorem infoAt_eq_none_iff : fs.infoAt loc = none ↔ fs.node loc = none := by
  unfold infoAt
  cases fs.node loc with
  | none => simp
  | some node => cases node <;> simp

theorem node_ne_none_of_found {limit : Nat} {path : List Elem}
    (found : fs.walk limit [] path = .found loc left) :
    fs.node loc ≠ none := by
  have sound := fs.walk_sound limit [] path fs.isDirAt_root
  rw [found] at sound
  rcases sound with directory | ⟨ino, entry⟩
  · obtain ⟨attr, entry⟩ := isDirAt_iff.mp directory
    simp [entry]
  · simp [entry]

theorem stat_eq_error_iff {err : Errno} :
    fs.stat path = .error err ↔ (fs.resolve path).located = .error err := by
  unfold stat
  cases located : (fs.resolve path).located with
  | error other => simp
  | ok loc =>
    obtain ⟨left, found⟩ := located_eq_ok_iff.mp located
    have present := node_ne_none_of_found found
    cases info : fs.infoAt loc with
    | none => exact absurd (infoAt_eq_none_iff.mp info) present
    | some value => simp [statAt, info]

variable {info : FileInfo} {attr : Attr} {names place source : Loc} {oldPath newPath : Str}

theorem stat_eq_ok_iff :
    fs.stat path = .ok info ↔
      ∃ loc left, fs.resolve path = .found loc left ∧ fs.infoAt loc = some info := by
  unfold stat
  cases located : (fs.resolve path).located with
  | error other =>
    simp only [reduceCtorEq, false_iff]
    rintro ⟨loc, left, found, _⟩
    simp [found, Outcome.located] at located
  | ok loc =>
    obtain ⟨left, found⟩ := located_eq_ok_iff.mp located
    rw [found]
    unfold statAt
    cases info : fs.infoAt loc <;> simp [info]

theorem infoAt_isDir_iff (entry : fs.infoAt loc = some info) :
    info.isDir = true ↔ fs.isDirAt loc = true := by
  unfold infoAt at entry
  cases node : fs.node loc with
  | none => simp [node] at entry
  | some value =>
    cases value <;> simp only [node, Option.some.injEq] at entry <;>
      subst entry <;> simp [FileInfo.isDir, isDirAt, node, Node.isDir]

theorem stat_noent_iff :
    fs.stat path = .error .noent ↔ ∃ loc, (fs.resolve path).stuckAt = some loc := by
  rw [stat_eq_error_iff, located_eq_noent_iff]

theorem evalLoc_noent_of_stat (missing : fs.stat path = .error .noent) :
    fs.evalLoc path = .error .noent := by
  obtain ⟨loc, stuck⟩ := stat_noent_iff.mp missing
  exact located_eq_noent_iff.mpr
    ⟨loc, walk_stuck_of_le (by decide : kernelLinkLimit ≤ evalLinkLimit) stuck⟩

theorem stat_isDir_iff :
    (∃ info, fs.stat path = .ok info ∧ info.isDir = true) ↔
      ∃ loc left, fs.resolve path = .found loc left ∧ fs.isDirAt loc = true := by
  constructor
  · rintro ⟨info, stated, isDir⟩
    obtain ⟨loc, left, found, entry⟩ := stat_eq_ok_iff.mp stated
    exact ⟨loc, left, found, (infoAt_isDir_iff entry).mp isDir⟩
  · rintro ⟨loc, left, found, directory⟩
    obtain ⟨info, entry⟩ := Option.ne_none_iff_exists'.mp
      (mt infoAt_eq_none_iff.mp (node_ne_none_of_found found))
    exact ⟨info, stat_eq_ok_iff.mpr ⟨loc, left, found, entry⟩,
      (infoAt_isDir_iff entry).mpr directory⟩

theorem create_cases {handle : Handle} (done : fs.create path attr = .ok (after, handle)) :
    (∃ loc left ino,
        fs.resolve path = .found loc left ∧
          fs.node loc = some (.file ino) ∧
          after = fs.truncated ino attr ∧
          handle = handleOf path ino createFlags) ∨
      (∃ parent text left, ∃ room : fs.CanAdd parent text,
        fs.resolve path = .missing parent text left ∧
          after = fs.addFile parent text ⟨[], attr⟩ room ∧
          handle = handleOf path fs.nextIno createFlags) := by
  simp only [create, openFile, createFlags, Bool.and_false, Bool.false_eq_true, if_false] at done
  cases outcome : fs.resolve path with
  | found loc left =>
    left
    rw [outcome] at done
    cases entry : fs.node loc with
    | none => simp [openAt, entry] at done
    | some node =>
      cases node with
      | dir old => simp [openAt, entry] at done
      | symlink target old => simp [openAt, entry] at done
      | file ino =>
        simp only [openAt, entry, Bool.and_false, Bool.false_eq_true,
          if_false, if_true, Except.ok.injEq, Prod.mk.injEq] at done
        exact ⟨loc, left, ino, rfl, entry, done.1.symm, done.2.symm⟩
  | missing parent text left =>
    right
    rw [outcome] at done
    simp only [createAt, if_true] at done
    by_cases room : fs.CanAdd parent text
    · simp only [room, dif_pos, Except.ok.injEq, Prod.mk.injEq] at done
      exact ⟨parent, text, left, room, rfl, done.1.symm, done.2.symm⟩
    · simp [room] at done
  | absent loc => simp [outcome] at done
  | notDir => simp [outcome] at done
  | loop => simp [outcome] at done

/-- A path can be created: it leads to a file, or nothing but its last name
is missing. -/
def Creatable (fs : FileSys) (path : Str) : Prop :=
  (∃ loc left ino, fs.resolve path = .found loc left ∧ fs.node loc = some (.file ino)) ∨
    ∃ parent text left, fs.resolve path = .missing parent text left

theorem create_ok_iff (path : Str) (attr : Attr) :
    (∃ after handle, fs.create path attr = .ok (after, handle)) ↔ fs.Creatable path := by
  constructor
  · rintro ⟨after, handle, done⟩
    rcases create_cases done with
      ⟨loc, left, ino, found, entry, _⟩ | ⟨parent, text, left, _, stuck, _⟩
    · exact Or.inl ⟨loc, left, ino, found, entry⟩
    · exact Or.inr ⟨parent, text, left, stuck⟩
  · rintro (⟨loc, left, ino, found, entry⟩ | ⟨parent, text, left, stuck⟩)
    · refine ⟨fs.truncated ino attr, handleOf path ino createFlags, ?_⟩
      simp [create, openFile, createFlags, found, openAt, entry]
    · have sound := fs.walk_sound kernelLinkLimit [] (elems path) fs.isDirAt_root
      rw [← resolve, stuck] at sound
      have room : fs.CanAdd parent text := ⟨sound.2, sound.1⟩
      refine ⟨fs.addFile parent text ⟨[], attr⟩ room, handleOf path fs.nextIno createFlags, ?_⟩
      simp [create, openFile, createFlags, stuck, createAt, room]

theorem openFile_eq_create {flags : OpenFlags} (write : flags.write)
    (append : flags.append = false) (creat : flags.creat)
    (trunc : flags.trunc) (excl : flags.excl = false) (path : Str) (attr : Attr) :
    fs.openFile path flags attr = fs.create path attr := by
  obtain ⟨read, _, _, _, _, _⟩ := flags
  simp only at write append creat trunc excl
  subst write append creat trunc excl
  rfl

theorem mkdir_cases (done : fs.mkdir path attr = .ok after) :
    ∃ parent text, ∃ room : fs.CanAdd parent text,
      fs.entryOf path = .ok (parent, text) ∧ after = fs.addDir parent text attr room := by
  unfold mkdir at done
  split at done
  · rename_i parent text entry
    by_cases room : fs.CanAdd parent text
    · simp only [room, dif_pos, Except.ok.injEq] at done
      exact ⟨parent, text, room, entry, done.symm⟩
    · simp [room] at done
  · cases done

theorem remove_cases (done : fs.remove path = .ok after) :
    ∃ parent text, fs.entryOf path = .ok (parent, text) ∧
        fs.children (parent ++ [text]) = ∅ ∧
        after = fs.dropTree (parent ++ [text]) [] (by simp) := by
  unfold remove at done
  split at done
  · cases done
  · rename_i parent text entry
    split at done
    · cases done
    · split at done
      · rename_i empty
        cases done
        exact ⟨parent, text, entry, empty, rfl⟩
      · cases done

/-- Where `os.RemoveAll` works, and what it leaves there. -/
inductive Removal (fs : FileSys) (survivors : List Loc) : Str → Loc → List Loc → Prop
  | entry {path : Str} (parent : Loc) (text : Str) (entry : fs.entryOf path = .ok (parent, text)) :
      Removal fs survivors path (parent ++ [text]) survivors
  | root : Removal fs survivors ['/'] [] ([] :: survivors)

theorem Removal.entryLoc {survivors left : List Loc} {place : Loc}
    (removal : Removal fs survivors path place left) : fs.entryLoc path = .ok place := by
  cases removal with
  | entry parent text entry => simp [FileSys.entryLoc, entry]
  | root => rfl

theorem Removal.stays {survivors left : List Loc} {place : Loc}
    (removal : Removal fs survivors path place left) : ¬ Doomed place left [] := by
  cases removal <;> simp

theorem Removal.unique {survivors left other : List Loc} {place elsewhere : Loc}
    (removal : Removal fs survivors path place left)
    (again : Removal fs survivors path elsewhere other) : place = elsewhere ∧ left = other := by
  have same := removal.entryLoc.symm.trans again.entryLoc
  refine ⟨Except.ok.inj same, ?_⟩
  rcases removal with ⟨parent, text, entry⟩ | _
  · cases again with
    | entry => rfl
    | root => cases entry
  · rcases again with ⟨parent, text, entry⟩ | _
    · cases entry
    · rfl

theorem removeAll_cases {survivors : List Loc} {result : Except Errno Unit}
    (done : fs.removeAll path survivors = (after, result)) :
    (after = fs ∧ (result = .ok () → fs.entryOf path = .error .noent) ∧
        ∀ place left, ¬ Removal fs survivors path place left) ∨
      ∃ place left, ∃ removal : Removal fs survivors path place left,
        after = fs.dropTree place left removal.stays ∧
          (result = .ok () ↔ after.node place = none) := by
  unfold removeAll at done
  split at done
  · rename_i missing
    cases done
    refine Or.inl ⟨rfl, fun _ => missing, fun place left removal => ?_⟩
    cases removal with
    | entry parent text entry => simp [missing] at entry
    | root => cases missing
  · rename_i err _ failed
    split at done
    · rename_i root
      cases done
      subst root
      refine Or.inr ⟨[], _, .root, rfl, ?_⟩
      refine iff_of_false (by simp) fun gone => ?_
      have top := (fs.dropTree [] ([] :: survivors) (by simp)).root_dir
      simp [gone] at top
    · rename_i notRoot
      cases done
      refine Or.inl ⟨rfl, by simp, fun place left removal => ?_⟩
      cases removal with
      | entry parent text entry => simp [failed] at entry
      | root => exact notRoot rfl
  · rename_i parent text entry
    cases done
    refine Or.inr ⟨_, _, .entry parent text entry, rfl, ?_⟩
    split <;> simp_all

theorem entryOf_directory (entry : fs.entryOf path = .ok (parent, text)) :
    fs.isDirAt parent = true := by
  unfold entryOf at entry
  split at entry
  · cases entry
  split at entry
  · split at entry
    · split at entry
      · cases entry
        assumption
      · cases entry
    · cases entry
  · cases entry

theorem entryOf_of_resolve (proper : ProperNames (names ++ [text]))
    (resolved : fs.resolve (render names) = .found place left) (directory : fs.isDirAt place) :
    fs.entryOf (render (names ++ [text])) = .ok (place, text) := by
  rw [resolve, walk_elems_render _ proper.left] at resolved
  rw [entryOf_render_concat proper, resolved]
  simp [Outcome.located, directory]

theorem resolve_of_parent (proper : ProperNames (names ++ [text]))
    (resolved : fs.resolve (render names) = .found place left) (directory : fs.isDirAt place) :
    fs.resolve (render (names ++ [text])) = fs.walk left place [.name text] := by
  rw [resolve, walk_elems_render _ proper.left] at resolved
  rw [resolve, walk_elems_render _ proper, walk_names_concat, resolved]
  simp [extend, directory]

theorem movedNode_leaf {target : Loc} (sourceLeaf : fs.isDirAt source = false)
    (targetLeaf : fs.isDirAt target = false) (loc : Loc) :
    fs.movedNode source target loc =
      if loc = target then fs.node source
      else if loc = source then none
      else fs.node loc := by
  unfold movedNode
  by_cases below : target <+: loc
  · obtain ⟨rest, rfl⟩ := below
    rw [if_pos (List.prefix_append target rest), List.drop_left]
    by_cases whole : rest = []
    · simp [whole]
    · have gone := fs.node_below_notDir sourceLeaf rest whole
      rw [gone, if_neg (by simp [whole])]
      split
      · rfl
      · exact (fs.node_below_notDir targetLeaf rest whole).symm
  · have elsewhere : loc ≠ target := by
      rintro rfl
      exact below List.prefix_rfl
    rw [if_neg below, if_neg elsewhere]
    by_cases moved : source <+: loc
    · obtain ⟨rest, rfl⟩ := moved
      rw [if_pos (List.prefix_append source rest)]
      by_cases whole : rest = []
      · simp [whole]
      · rw [if_neg (by simp [whole])]
        exact (fs.node_below_notDir sourceLeaf rest whole).symm
    · have other : loc ≠ source := by
        rintro rfl
        exact moved List.prefix_rfl
      rw [if_neg moved, if_neg other]

theorem rename_leaf {oldText newText : Str} (oldEntry : fs.entryOf oldPath = .ok (parent, oldText))
    (newEntry : fs.entryOf newPath = .ok (parent, newText)) (different : oldText ≠ newText)
    (present : fs.node (parent ++ [oldText]) ≠ none)
    (oldLeaf : fs.isDirAt (parent ++ [oldText]) = false)
    (newLeaf : fs.isDirAt (parent ++ [newText]) = false) :
    ∃ after, fs.rename oldPath newPath = .ok after ∧
      (∀ loc, after.node loc =
        if loc = parent ++ [newText] then fs.node (parent ++ [oldText])
        else if loc = parent ++ [oldText] then none
        else fs.node loc) ∧
      after.inode = fs.inode ∧ after.nextIno = fs.nextIno := by
  have apart : parent ++ [oldText] ≠ parent ++ [newText] := by
    simpa using different
  have move : fs.CanMove (parent ++ [oldText]) parent newText := by
    refine ⟨entryOf_directory newEntry, newLeaf, fun below => apart ?_⟩
    exact below.eq_of_length (by simp)
  refine ⟨fs.moveTree (parent ++ [oldText]) parent newText (by simp) move,
    ?_, fun loc => movedNode_leaf oldLeaf newLeaf loc, rfl, rfl⟩
  simp only [rename, oldEntry, newEntry, present, apart, newLeaf, oldLeaf,
    if_false, Bool.false_eq_true, false_and, dif_pos move]

theorem rename_cases (done : fs.rename oldPath newPath = .ok after) :
    ∃ oldParent oldText newParent newText, fs.entryOf oldPath = .ok (oldParent, oldText) ∧
        fs.entryOf newPath = .ok (newParent, newText) ∧
        fs.node (oldParent ++ [oldText]) ≠ none ∧
        ((oldParent ++ [oldText] = newParent ++ [newText] ∧ after = fs) ∨
          (oldParent ++ [oldText] ≠ newParent ++ [newText] ∧
            ∃ move : fs.CanMove (oldParent ++ [oldText]) newParent newText,
              after = fs.moveTree (oldParent ++ [oldText]) newParent newText (by simp) move)) := by
  unfold rename at done
  cases oldEntry : fs.entryOf oldPath with
  | error err => simp [oldEntry] at done
  | ok old =>
    obtain ⟨oldParent, oldText⟩ := old
    cases newEntry : fs.entryOf newPath with
    | error err => simp [oldEntry, newEntry] at done
    | ok new =>
      obtain ⟨newParent, newText⟩ := new
      simp only [oldEntry, newEntry] at done
      refine ⟨oldParent, oldText, newParent, newText, rfl, rfl, ?_⟩
      split at done
      · cases done
      rename_i present
      refine ⟨present, ?_⟩
      split at done
      · rename_i same
        split at done
        · cases done
        · cases done
          exact Or.inl ⟨same, rfl⟩
      rename_i different
      split at done
      · cases done
      split at done
      · cases done
      split at done
      · rename_i move
        cases done
        exact Or.inr ⟨different, move, rfl⟩
      · cases done

/-- A directory never replaces anything. -/
theorem SameShape.entryOf (shape : SameShape before after) (path : Str) :
    after.entryOf path = before.entryOf path := by
  have directories : after.isDirAt = before.isDirAt := funext shape.isDirAt
  unfold FileSys.entryOf
  simp only [shape.walk, directories]

theorem SameShape.canMove
    (shape : SameShape before after) (move : before.CanMove source parent text) :
    after.CanMove source parent text :=
  ⟨(shape.isDirAt parent).trans move.directory, (shape.isDirAt _).trans move.notDir, move.outside⟩

theorem SameShape.symm (shape : SameShape before after) : SameShape after before :=
  fun loc => (shape loc).symm

theorem SameShape.rename_error_iff
    (shape : SameShape before after) (oldPath newPath : Str) (err : Errno) :
    after.rename oldPath newPath = .error err ↔ before.rename oldPath newPath = .error err := by
  have directories : after.isDirAt = before.isDirAt := funext shape.isDirAt
  have moves :
      ∀ source parent text, after.CanMove source parent text ↔
          before.CanMove source parent text := fun source parent text =>
    ⟨shape.symm.canMove, shape.canMove⟩
  unfold FileSys.rename
  rw [shape.entryOf oldPath, shape.entryOf newPath]
  cases before.entryOf oldPath with
  | error other => rfl
  | ok old =>
    simp only
    cases before.entryOf newPath with
    | error other => rfl
    | ok new =>
      simp only [shape.node_none, directories, moves, ne_eq]
      split
      · rfl
      split
      · split
        · rfl
        · simp
      split
      · rfl
      split
      · rfl
      split
      · simp
      · rfl

/-- An object without its attributes. -/
inductive View where
  | dir
  | file (data : List Char)
  | symlink (target : Str)
  deriving DecidableEq

/-- Kind, content and target of the object at a location. -/
def view (fs : FileSys) (loc : Loc) : Option View :=
  match fs.node loc with
  | none => none
  | some (.dir _) => some .dir
  | some (.file ino) => some (.file (fs.inode ino).data)
  | some (.symlink target _) => some (.symlink target)

/-- Nothing that a reader sees differs. -/
def SameView (before after : FileSys) : Prop :=
  ∀ loc, after.view loc = before.view loc

theorem view_eq_none_iff : fs.view loc = none ↔ fs.node loc = none := by
  unfold view
  cases fs.node loc with
  | none => simp
  | some node => cases node <;> simp

theorem node_of_view_file {data : List Char} (seen : fs.view loc = some (.file data)) :
    ∃ ino, fs.node loc = some (.file ino) := by
  unfold view at seen
  cases entry : fs.node loc with
  | none => simp [entry] at seen
  | some node =>
    cases node with
    | file ino => exact ⟨ino, rfl⟩
    | dir attr => simp [entry] at seen
    | symlink target attr => simp [entry] at seen

theorem SameShape.view_eq (shape : SameShape before after) (loc : Loc) (data :
      ∀ ino, before.node loc = some (.file ino) →
        (after.inode ino).data = (before.inode ino).data) :
    after.view loc = before.view loc := by
  have same := shape loc
  cases beforeEntry : before.node loc with
  | none =>
    rw [view_eq_none_iff.mpr beforeEntry, view_eq_none_iff, shape.node_none loc]
    exact beforeEntry
  | some old =>
    rw [beforeEntry] at same
    obtain ⟨node, afterEntry, equal⟩ := Option.map_eq_some_iff.mp same
    cases old <;> cases node <;>
      simp only [Node.bare, reduceCtorEq, Node.symlink.injEq, Node.file.injEq, and_true] at equal
    · simp [FileSys.view, beforeEntry, afterEntry]
    · subst equal
      simp [FileSys.view, beforeEntry, afterEntry, data _ beforeEntry]
    · simp [FileSys.view, beforeEntry, afterEntry, equal]

theorem SameShape.view (shape : SameShape before after)
    (data : ∀ ino, (after.inode ino).data = (before.inode ino).data) :
    SameView before after :=
  fun loc => shape.view_eq loc fun ino _ => data ino

theorem view_rewritten (shape : SameShape before after) {leaf : Loc} {ino : Nat}
    (entry : before.node leaf = some (.file ino)) {content : List Char}
    (own : (after.inode ino).data = content)
    (data : ∀ other, other ≠ ino → (after.inode other).data = (before.inode other).data)
    (loc : Loc) :
    after.view loc = if loc = leaf then some (.file content) else before.view loc := by
  by_cases here : loc = leaf
  · have kept := (shape.node_file leaf ino).mpr entry
    simp [here, FileSys.view, kept, own]
  · rw [if_neg here]
    refine shape.view_eq loc fun other found => data other ?_
    rintro rfl
    exact here (before.ino_inj loc leaf other found entry)

theorem data_modifyAttr (done : fs.modifyAttr path change = .ok after) (ino : Nat) :
    (after.inode ino).data = (fs.inode ino).data := by
  unfold modifyAttr at done
  split at done
  · cases done
  · split at done
    · cases done
      rfl
    · cases done
      simp only [setInode]
      split
      · rename_i here
        rw [here]
      · rfl
    · cases done

theorem modifyAttr_dir (resolved : fs.resolve path = .found loc left)
    (directory : fs.isDirAt loc) (done : fs.modifyAttr path change = .ok after) :
    after.inode = fs.inode ∧ ∀ other, other ≠ loc → after.node other = fs.node other := by
  obtain ⟨attr, entry⟩ := isDirAt_iff.mp directory
  simp only [modifyAttr, resolved, Outcome.located, entry, Except.ok.injEq] at done
  subst done
  exact ⟨rfl, fun other here => if_neg here⟩

theorem view_congr {other : Loc} (node : after.node loc = before.node other)
    (inode : after.inode = before.inode) :
    after.view loc = before.view other := by
  unfold view
  rw [node, inode]

theorem view_addFile (new : Inode) (room : fs.CanAdd parent text) (loc : Loc) :
    (fs.addFile parent text new room).view loc =
      if loc = parent ++ [text] then some (.file new.data)
      else fs.view loc := by
  by_cases here : loc = parent ++ [text]
  · simp [here, view, addFile]
  · rw [if_neg here]
    unfold view
    rw [node_addFile, if_neg here]
    cases entry : fs.node loc with
    | none => rfl
    | some node =>
      cases node with
      | dir attr => rfl
      | symlink target attr => rfl
      | file ino =>
        have old := fs.ino_lt loc ino entry
        have other : ino ≠ fs.nextIno := by omega
        simp [addFile, other]

/-- Exactly one location looks different. -/
def UpdatedAt (before after : FileSys) (loc : Loc) (new : Option View) : Prop :=
  ∀ other, after.view other = if other = loc then new else before.view other

theorem UpdatedAt.sameView {middle : FileSys} {new : Option View}
    (updated : UpdatedAt before middle loc new) (same : SameView middle after) :
    UpdatedAt before after loc new :=
  fun other => (same other).trans (updated other)

def look (fs : FileSys) (path : Str) : Option View :=
  match fs.resolve path with
  | .found loc _ => fs.view loc
  | _ => none

end FileSys

end Sshserv.Lib.FileTree
