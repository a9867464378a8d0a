import Sshserv.Lib.Effects
import Sshserv.Serv.FileHandler

/-!
# Uploads and the tree

What opening and closing an upload does to the file tree.  Moving the temporary
entry to the name of the file and back disturbs no `Slot` (`Slot.frame`),
because neither entry leads to a directory.
-/

namespace Sshserv.Serv

open Lib UnixPath FileTree FileSys DataProvider

/-- The path `p` names the entry `last` of the directory `place`; `left`
links can still be followed from there. -/
structure Slot (fs : FileSys) (p : Str) (names : Loc) (last : Str)
    (place : Loc) (left : Nat) : Prop where
  path : p = render (names ++ [last])
  proper : ProperNames (names ++ [last])
  resolved : fs.resolve (render names) = .found place left
  directory : fs.isDirAt place = true

variable {fs : FileSys} {p : Str} {names place : Loc} {last : Str} {left : Nat}

theorem slot_of_lookup (proper : ProperNames (names ++ [last])) (looked :
      (∃ loc left, fs.resolve (render (names ++ [last])) = .found loc left) ∨
      ∃ parent text left, fs.resolve (render (names ++ [last])) = .missing parent text left) :
    ∃ place left, Slot fs (render (names ++ [last])) names last place left := by
  have namesProper : ProperNames names := proper.left
  rw [FileSys.resolve, walk_elems_render _ proper, walk_names_concat] at looked
  cases outcome : fs.walk kernelLinkLimit [] (names.map .name) with
  | found place left =>
    by_cases directory : fs.isDirAt place = true
    · refine ⟨place, left, rfl, proper, ?_, directory⟩
      rw [FileSys.resolve, walk_elems_render _ namesProper, outcome]
    · simp [outcome, extend, directory] at looked
  | missing parent text left => simp [outcome, extend] at looked
  | absent loc => simp [outcome, extend] at looked
  | notDir => simp [outcome, extend] at looked
  | loop => simp [outcome, extend] at looked

theorem concat_of_notDir {comps : Loc} (path : p = render comps)
    (notDir : ∀ info, fs.stat p = .ok info → info.isDir = false) :
    ∃ names last, comps = names ++ [last] := by
  rcases List.eq_nil_or_concat comps with rfl | ⟨names, last, rfl⟩
  · have root : fs.resolve p = .found [] kernelLinkLimit := by
      rw [path, FileSys.resolve, walk_elems_render _ (by simp)]
      rfl
    obtain ⟨info, found, isDir⟩ := stat_isDir_iff.mpr ⟨[], _, root, fs.isDirAt_root⟩
    simp [notDir info found] at isDir
  · exact ⟨names, last, List.concat_eq_append⟩

theorem concat_of_missing {comps : Loc} (path : p = render comps)
    (missing : fs.stat p = .error .noent) :
    ∃ names last, comps = names ++ [last] :=
  concat_of_notDir path fun info (found : fs.stat p = .ok info) => by
    simp [missing] at found

theorem slot_of_create {attr : Attr} {result : FileSys × Handle}
    (proper : ProperNames (names ++ [last]))
    (created : fs.create (render (names ++ [last])) attr = .ok result) :
    ∃ place left, Slot fs (render (names ++ [last])) names last place left := by
  apply slot_of_lookup proper
  rcases create_cases created with
    ⟨loc, left, _, found, _⟩ | ⟨parent, text, left, _, missing, _⟩
  · exact Or.inl ⟨loc, left, found⟩
  · exact Or.inr ⟨parent, text, left, missing⟩

namespace Slot

variable (slot : Slot fs p names last place left)
include slot

theorem entryOf : fs.entryOf p = .ok (place, last) := by
  rw [slot.path]
  exact entryOf_of_resolve slot.proper slot.resolved slot.directory

theorem entryLoc : fs.entryLoc p = .ok (place ++ [last]) := by
  simp [FileSys.entryLoc, slot.entryOf]

theorem resolve : fs.resolve p = fs.walk left place [.name last] := by
  rw [slot.path]
  exact resolve_of_parent slot.proper slot.resolved slot.directory

theorem sameShape {after : FileSys} (shape : SameShape fs after) :
    Slot after p names last place left :=
  ⟨slot.path, slot.proper, (shape.resolve _).trans slot.resolved,
    (shape.isDirAt place).trans slot.directory⟩

theorem frame {after : FileSys} {changed : Loc → Prop}
    (agree : ∀ loc, ¬ changed loc → after.node loc = fs.node loc)
    (never : ∀ loc, changed loc → fs.NeverDir loc) (kept : ¬ changed place) :
    Slot after p names last place left := by
  refine ⟨slot.path, slot.proper, ?_, ?_⟩
  · exact walk_dir_of_neverDir agree never slot.resolved slot.directory
  · have same := slot.directory
    unfold isDirAt at same ⊢
    rw [agree place kept]
    exact same

theorem create_new (absent : fs.node (place ++ [last]) = none) (attr : Attr) :
    ∃ room : fs.CanAdd place last, fs.create p attr =
        .ok (fs.addFile place last ⟨[], attr⟩ room, handleOf p fs.nextIno createFlags) := by
  have stuck : fs.resolve p = .missing place last left := by
    rw [slot.resolve, walk_name, absent]
    simp
  refine ⟨⟨absent, slot.directory⟩, ?_⟩
  simp [FileSys.create, openFile, createFlags, stuck, createAt, CanAdd.mk absent slot.directory]

theorem rename {q : Str} {other : Str} (target : Slot fs q names other place left)
    (different : last ≠ other) (present : fs.node (place ++ [last]) ≠ none)
    (leaf : fs.isDirAt (place ++ [last]) = false)
    (targetLeaf : fs.isDirAt (place ++ [other]) = false) :
    ∃ after, fs.rename p q = .ok after ∧
      (∀ loc, after.node loc =
        if loc = place ++ [other] then fs.node (place ++ [last])
        else if loc = place ++ [last] then none
        else fs.node loc) ∧
      after.inode = fs.inode ∧ after.nextIno = fs.nextIno :=
  rename_leaf slot.entryOf target.entryOf different present leaf targetLeaf

end Slot

def tempName (os : Os) (last : Str) : Str :=
  uploadMark ++ os.guid ++ ['.'] ++ last

private theorem uploadMark_facts : uploadMark.length = 15 ∧ '/' ∉ uploadMark := by
  decide

private theorem tempName_length (os : Os) (last : Str) :
    (tempName os last).length = 16 + os.guid.length + last.length := by
  simp only [tempName, List.length_append, uploadMark_facts.1, List.length_singleton]
  omega

theorem tempName_proper {os : Os} (noSlash : '/' ∉ os.guid) (proper : Proper last) :
    Proper (tempName os last) := by
  have long := tempName_length os last
  refine ⟨?_, ?_, ?_, ?_⟩
  · intro equal
    rw [equal, List.length_nil] at long
    omega
  · intro equal
    rw [equal, List.length_singleton] at long
    omega
  · intro equal
    rw [equal, List.length_cons, List.length_singleton] at long
    omega
  · simp only [tempName, List.mem_append, not_or]
    exact ⟨⟨⟨uploadMark_facts.2, noSlash⟩, by decide⟩, proper.no_slash⟩

theorem tempName_ne (os : Os) (last : Str) : tempName os last ≠ last := by
  intro equal
  have long := tempName_length os last
  rw [equal] at long
  omega

theorem getUploadTempFilePath_render {os : Os} (noSlash : '/' ∉ os.guid)
    (proper : ProperNames (names ++ [last])) :
    ProperNames (names ++ [tempName os last]) ∧
      getUploadTempFilePath os (render (names ++ [last])) =
        render (names ++ [tempName os last]) := by
  have namesProper : ProperNames names := proper.left
  have lastProper : Proper last := proper last (by simp)
  have tempProper := tempName_proper noSlash lastProper
  constructor
  · exact List.forall_mem_append.mpr ⟨namesProper, List.forall_mem_singleton.mpr tempProper⟩
  · rw [getUploadTempFilePath, dir_render proper, List.dropLast_concat,
      base_render_concat names lastProper]
    exact join_render_name namesProper tempProper

theorem Slot.temp (slot : Slot fs p names last place left) {os : Os} (noSlash : '/' ∉ os.guid) :
    Slot fs (getUploadTempFilePath os p) names (tempName os last) place left := by
  obtain ⟨proper, path⟩ := getUploadTempFilePath_render noSlash slot.proper
  rw [slot.path]
  exact ⟨path, proper, slot.resolved, slot.directory⟩

theorem Slot.temp_ne (slot : Slot fs p names last place left) {os : Os} (noSlash : '/' ∉ os.guid) :
    getUploadTempFilePath os p ≠ p := by
  intro equal
  rw [(slot.temp noSlash).path, slot.path] at equal
  have same := render_injective (slot.temp noSlash).proper slot.proper equal
  exact tempName_ne os last (by simpa using same)

theorem Slot.leaf_entry (slot : Slot fs p names last place left) {leaf : Loc} {rest : Nat}
    (leads : fs.resolve p = .found leaf rest) (notDir : fs.isDirAt leaf = false) :
    fs.node (place ++ [last]) ≠ none ∧
      fs.isDirAt (place ++ [last]) = false ∧
      fs.NeverDir (place ++ [last]) := by
  rw [slot.resolve] at leads
  refine ⟨?_, ?_, ?_⟩
  · intro absent
    simp [walk_name, absent] at leads
  · by_contra directory
    obtain ⟨attr, entry⟩ := isDirAt_iff.mp (by simpa using directory)
    simp only [walk_name, entry, walk_nil, Outcome.found.injEq] at leads
    rw [← leads.1] at notDir
    exact directory notDir
  · have terminates : fs.walk left place [.name last] ≠ .loop := by
      simp [leads]
    refine neverDir_of_walk slot.directory terminates fun loc more found => ?_
    rw [leads, Outcome.found.injEq] at found
    rw [← found.1]
    exact notDir

/-- A tree in which the entry `last` has been moved to the entry `temp`. -/
structure MovedTo (fs after : FileSys) (place : Loc) (last temp : Str) : Prop where
  node :
    ∀ loc, after.node loc =
      if loc = place ++ [temp] then fs.node (place ++ [last])
      else if loc = place ++ [last] then none
      else fs.node loc
  inode : after.inode = fs.inode
  nextIno : after.nextIno = fs.nextIno

section MoveAside

variable {os : Os} {leaf : Loc} {rest : Nat} {after : FileSys}

/-- The entries that moving aside changes. -/
private def atEither (place : Loc) (last temp : Str) (loc : Loc) : Prop :=
  loc = place ++ [last] ∨ loc = place ++ [temp]

private theorem not_atEither_place (place : Loc) (last temp : Str) :
    ¬ atEither place last temp place := by
  rintro (here | here) <;> simpa using congrArg List.length here

private theorem MovedTo.agree {temp : Str} (moved : MovedTo fs after place last temp) :
    ∀ loc, ¬ atEither place last temp loc → after.node loc = fs.node loc := by
  intro loc other
  rw [moved.node, if_neg fun here => other (Or.inr here), if_neg fun here => other (Or.inl here)]

variable (slot : Slot fs p names last place left) (noSlash : '/' ∉ os.guid)
    (fresh : fs.node (place ++ [tempName os last]) = none) (leads : fs.resolve p = .found leaf rest)
    (notDir : fs.isDirAt leaf = false)

include slot fresh leads notDir

theorem Slot.after_move (moved : MovedTo fs after place last (tempName os last)) :
    Slot after p names last place left := by
  refine slot.frame moved.agree ?_ (not_atEither_place place last _)
  rintro loc (rfl | rfl)
  · exact (slot.leaf_entry leads notDir).2.2
  · exact neverDir_of_absent fresh

include noSlash

theorem Slot.move_aside :
    ∃ after, fs.rename p (getUploadTempFilePath os p) = .ok after ∧
      MovedTo fs after place last (tempName os last) := by
  obtain ⟨present, entryLeaf, _⟩ := slot.leaf_entry leads notDir
  obtain ⟨after, renamed, node, inode, nextIno⟩ :=
    slot.rename (slot.temp noSlash) (tempName_ne os last).symm present
      entryLeaf (by simp [isDirAt, fresh])
  exact ⟨after, renamed, node, inode, nextIno⟩

/-- The temporary entry leads to the same inode as the path did before. -/
theorem Slot.resolve_moved {ino : Nat} (file : fs.node leaf = some (.file ino))
    (moved : MovedTo fs after place last (tempName os last)) :
    ∃ loc more, after.resolve (getUploadTempFilePath os p) = .found loc more ∧
        after.node loc = some (.file ino) := by
  have slotAfter := (slot.after_move fresh leads notDir moved).temp noSlash
  have entryAfter : after.node (place ++ [tempName os last]) = fs.node (place ++ [last]) := by
    rw [moved.node, if_pos rfl]
  have found := leads
  rw [slot.resolve] at found
  rw [slotAfter.resolve, walk_name, entryAfter]
  cases entry : fs.node (place ++ [last]) with
  | none => exact absurd entry (slot.leaf_entry leads notDir).1
  | some node =>
    rw [walk_name, entry] at found
    cases node with
    | dir attr =>
      have leafEntry := (slot.leaf_entry leads notDir).2.1
      rw [isDirAt_of_node_dir entry] at leafEntry
      cases leafEntry
    | file number =>
      simp only [if_true, Outcome.found.injEq] at found
      rw [← found.1, entry] at file
      exact ⟨place ++ [tempName os last], left, by simp,
        by rw [entryAfter, entry]; exact file⟩
    | symlink target attr =>
      cases left with
      | zero => simp [follow] at found
      | succ less =>
        simp only [follow, List.append_nil] at found ⊢
        refine ⟨leaf, rest, ?_, ?_⟩
        · rcases walk_agree_or_visit moved.agree less (linkStart place target) (elems target) with
            same | ⟨budget, parent, text, more, bound, here, visit, _⟩
          · rw [same, found]
          · exfalso
            rw [found] at visit
            rcases here with here | here
            · -- the link would have to be followed to resolve itself
              obtain ⟨rfl, equal⟩ := List.append_inj' here rfl
              obtain rfl : text = last := by simpa using equal
              rw [slot.resolve] at leads
              exact not_found_through_itself slot.directory leads notDir (by omega) more visit.symm
            · have stuck := stuckAt_of_absent
                (here ▸ fresh : fs.node (parent ++ [text]) = none)
                budget more
              simp [← visit, Outcome.stuckAt] at stuck
        · rw [moved.node, if_neg, if_neg, file]
          · rintro rfl
            rw [entry] at file
            cases file
          · rintro rfl
            rw [fresh] at file
            cases file

/-- Moving the temporary entry back restores the tree up to attributes. -/
theorem Slot.restore (moved : MovedTo fs after place last (tempName os last)) {now : FileSys}
    (shape : SameShape after now) :
    ∃ final, now.rename (getUploadTempFilePath os p) p = .ok final ∧
      SameShape fs final ∧ final.inode = now.inode := by
  obtain ⟨present, entryLeaf, _⟩ := slot.leaf_entry leads notDir
  have slotNow := (slot.after_move fresh leads notDir moved).sameShape shape
  have tempEntry : after.node (place ++ [tempName os last]) = fs.node (place ++ [last]) := by
    rw [moved.node, if_pos rfl]
  have gone : after.node (place ++ [last]) = none := by
    rw [moved.node, if_neg (by simpa using (tempName_ne os last).symm), if_pos rfl]
  obtain ⟨final, renamed, node, inode, _⟩ :=
    (slotNow.temp noSlash).rename slotNow (tempName_ne os last)
      (by rw [Ne, shape.node_none, tempEntry]; exact present)
      (by rw [shape.isDirAt, isDirAt, tempEntry]; exact entryLeaf)
      (by rw [shape.isDirAt]; simp [isDirAt, gone])
  refine ⟨final, renamed, fun loc => ?_, inode⟩
  rw [node]
  by_cases here : loc = place ++ [last]
  · rw [if_pos here, shape, tempEntry, here]
  · rw [if_neg here]
    by_cases temporary : loc = place ++ [tempName os last]
    · rw [if_pos temporary, temporary, fresh]
    · rw [if_neg temporary, shape, moved.node, if_neg temporary, if_neg here]

end MoveAside

/-- `now` is the tree in which an opened file has been filled: it has the
shape that opening left, and perhaps another owner. -/
structure Filled (created now : FileSys) (file : Handle) (content : List Char) : Prop where
  shape : SameShape created now
  own : ∀ ino, file.ino = some ino → (now.inode ino).data = content
  others : ∀ ino, file.ino ≠ some ino → (now.inode ino).data = (created.inode ino).data

section Leftovers

variable {os : Os} {attr : Attr} {created now : FileSys} {file : Handle} {content : List Char}

theorem filled_opened (opened : fs.create p attr = .ok (created, file))
    (shape : SameShape created now)
    (data : ∀ ino, (now.inode ino).data = (created.inode ino).data) :
    Filled created now file [] := by
  refine ⟨shape, fun ino given => ?_, fun ino _ => data ino⟩
  rw [data]
  rcases create_cases opened with
    ⟨loc, left, number, _, _, rfl, rfl⟩ | ⟨parent, text, left, room, _, rfl, rfl⟩
  · obtain rfl : number = ino := by simpa [handleOf] using given
    simp [truncated, setInode]
  · obtain rfl : fs.nextIno = ino := by simpa [handleOf] using given
    simp [addFile]

variable {q : Str} {flags : OpenFlags} {ino rest : Nat} {leaf : Loc} {moved : FileSys}

theorem Filled.view_added {parent : Loc} {text : Str} {room : fs.CanAdd parent text} (filled :
      Filled (fs.addFile parent text ⟨[], attr⟩ room) now (handleOf q fs.nextIno flags) content) :
    UpdatedAt fs now (parent ++ [text]) (some (.file content)) := by
  intro loc
  have entry :
      (fs.addFile parent text ⟨[], attr⟩ room).node (parent ++ [text]) =
        some (.file fs.nextIno) := by
    simp
  rw [view_rewritten filled.shape entry
    (filled.own fs.nextIno rfl) fun other different =>
      filled.others other fun given =>
        different (by simpa [handleOf, eq_comm] using given)]
  by_cases here : loc = parent ++ [text]
  · rw [if_pos here, if_pos here]
  · rw [if_neg here, if_neg here, view_addFile, if_neg here]

theorem leftover_new (missing : fs.stat p = .error .noent)
    (opened : fs.create p attr = .ok (created, file)) (filled : Filled created now file content) :
    ∃ loc, (fs.resolve p).stuckAt = some loc ∧ fs.node loc = none ∧
      UpdatedAt fs now loc (some (.file content)) := by
  rw [stat_eq_error_iff] at missing
  rcases create_cases opened with
    ⟨loc, left, ino, found, _⟩ | ⟨parent, text, left, room, stuck, rfl, rfl⟩
  · simp [found, Outcome.located] at missing
  · exact ⟨parent ++ [text], by rw [stuck]; rfl, room.absent,
      filled.view_added⟩

/-- A new target whose content is collected in a temporary file. -/
theorem Slot.leftover_temp (slot : Slot fs p names last place left) (noSlash : '/' ∉ os.guid)
    (fresh : fs.node (place ++ [tempName os last]) = none)
    (notDir : fs.isDirAt (place ++ [last]) = false)
    (opened : fs.create (getUploadTempFilePath os p) attr = .ok (created, file))
    (filled : Filled created now file content) :
    UpdatedAt fs now (place ++ [tempName os last]) (some (.file content)) ∧
      ∃ final, now.rename (getUploadTempFilePath os p) p = .ok final ∧
        UpdatedAt fs final (place ++ [last]) (some (.file content)) := by
  obtain ⟨room, made⟩ := (slot.temp noSlash).create_new fresh attr
  rw [made] at opened
  obtain ⟨rfl, rfl⟩ : fs.addFile place (tempName os last) ⟨[], attr⟩ room =
      created ∧ _ = file := by simpa using opened
  have different := tempName_ne os last
  have shape := filled.shape
  have updated := filled.view_added
  refine ⟨updated, ?_⟩
  have slotNow : Slot now p names last place left := by
    have agree :
        ∀ loc, ¬ loc = place ++ [tempName os last] →
          (fs.addFile place (tempName os last) ⟨[], attr⟩ room).node loc = fs.node loc :=
      fun loc other => by simp [other]
    refine (slot.frame agree
      (fun loc here => here ▸ neverDir_of_absent fresh)
      (fun here => ?_)).sameShape shape
    simpa using congrArg List.length here
  have tempEntry : now.node (place ++ [tempName os last]) = some (.file fs.nextIno) := by
    rw [shape.node_file]
    simp
  have entrySame :
      (fs.addFile place (tempName os last) ⟨[], attr⟩ room).node
          (place ++ [last]) = fs.node (place ++ [last]) := by
    simp [different.symm]
  obtain ⟨final, renamed, node, inode, _⟩ :=
    (slotNow.temp noSlash).rename slotNow different
      (by simp [tempEntry])
      (by simp [isDirAt, tempEntry, Node.isDir])
      (by rw [shape.isDirAt, isDirAt, entrySame]; exact notDir)
  refine ⟨final, renamed, fun loc => ?_⟩
  by_cases here : loc = place ++ [last]
  · rw [if_pos here]
    have moved : final.view loc = now.view (place ++ [tempName os last]) :=
      view_congr (by rw [node, if_pos here]) inode
    rw [moved, updated, if_pos rfl]
  · rw [if_neg here]
    by_cases temporary : loc = place ++ [tempName os last]
    · rw [view_eq_none_iff.mpr, view_eq_none_iff.mpr]
      · rw [temporary]
        exact fresh
      · rw [node, if_neg here, if_pos temporary]
    · have kept : final.view loc = now.view loc :=
        view_congr (by rw [node, if_neg here, if_neg temporary]) inode
      rw [kept, updated, if_neg temporary]

theorem Filled.data_of_truncated
    (filled : Filled (fs.truncated ino attr) now (handleOf q ino flags) content) {other : Nat}
    (different : other ≠ ino) :
    (now.inode other).data = (fs.inode other).data := by
  have apart : (handleOf q ino flags).ino ≠ some other := by
    simpa [handleOf] using different.symm
  rw [filled.others other apart]
  simp [truncated, setInode, different]

theorem leftover_existing
    (leads : fs.resolve p = .found leaf rest) (entry : fs.node leaf = some (.file ino))
    (opened : fs.create p attr = .ok (created, file)) (filled : Filled created now file content) :
    UpdatedAt fs now leaf (some (.file content)) := by
  rcases create_cases opened with
    ⟨loc, left, number, found, numbered, rfl, rfl⟩ | ⟨_, _, _, _, stuck, _⟩
  · rw [leads, Outcome.found.injEq] at found
    obtain ⟨rfl, rfl⟩ := found
    obtain rfl : ino = number := by simpa [entry] using numbered
    exact view_rewritten
      ((sameShape_setInode ino _).trans filled.shape) entry
      (filled.own ino rfl) fun other different =>
        filled.data_of_truncated different
  · simp [leads] at stuck

theorem MovedTo.view
    {temp : Str} (move : MovedTo fs moved place last temp) (different : last ≠ temp) :
    moved.view (place ++ [last]) = none ∧
      ∀ loc, loc ≠ place ++ [last] → loc ≠ place ++ [temp] → moved.view loc = fs.view loc := by
  constructor
  · rw [view_eq_none_iff, move.node, if_neg (by simpa using different), if_pos rfl]
  · intro loc notOld notNew
    exact view_congr (by rw [move.node, if_neg notNew, if_neg notOld]) move.inode

theorem Slot.leftover_moved (slot : Slot fs p names last place left) (noSlash : '/' ∉ os.guid)
    (fresh : fs.node (place ++ [tempName os last]) = none) (leads : fs.resolve p = .found leaf rest)
    (notDir : fs.isDirAt leaf = false) (entry : fs.node leaf = some (.file ino))
    (move : MovedTo fs moved place last (tempName os last))
    (opened : moved.create (getUploadTempFilePath os p) attr = .ok (created, file))
    (filled : Filled created now file content) :
    (now.view (place ++ [last]) = none ∧
      ∀ loc, loc ≠ place ++ [last] → loc ≠ place ++ [tempName os last] →
        now.view loc = if loc = leaf then some (.file content) else fs.view loc) ∧
      ∃ final, now.rename (getUploadTempFilePath os p) p = .ok final ∧
        UpdatedAt fs final leaf (some (.file content)) := by
  obtain ⟨target, more, leadsMoved, targetEntry⟩ :=
    slot.resolve_moved noSlash fresh leads notDir entry move
  rcases create_cases opened with
    ⟨loc, left, number, found, numbered, rfl, rfl⟩ | ⟨_, _, _, _, stuck, _⟩
  swap
  · simp [leadsMoved] at stuck
  rw [leadsMoved, Outcome.found.injEq] at found
  obtain ⟨rfl, rfl⟩ := found
  obtain rfl : ino = number := by simpa [targetEntry] using numbered
  have shapeMoved : SameShape moved now := (sameShape_setInode ino _).trans filled.shape
  have own : (now.inode ino).data = content := filled.own ino rfl
  have others : ∀ other, other ≠ ino → (now.inode other).data = (fs.inode other).data := by
    intro other different
    rw [filled.data_of_truncated different, move.inode]
  have different : last ≠ tempName os last := (tempName_ne os last).symm
  constructor
  · constructor
    · rw [view_eq_none_iff, shapeMoved.node_none, move.node,
        if_neg (by simpa using different), if_pos rfl]
    · intro other notOld notNew
      have same : moved.node other = fs.node other := by
        rw [move.node, if_neg notNew, if_neg notOld]
      by_cases here : other = leaf
      · rw [if_pos here]
        have numbered : now.node other = some (.file ino) := by
          rw [shapeMoved.node_file, same, here, entry]
        simp [view, numbered, own]
      · rw [if_neg here, ← view_congr same move.inode]
        refine shapeMoved.view_eq other fun number found => ?_
        rw [move.inode]
        refine others number ?_
        rintro rfl
        rw [same] at found
        exact here (fs.ino_inj other leaf number found entry)
  · obtain ⟨final, renamed, restored, inode⟩ :=
      slot.restore noSlash fresh leads notDir move shapeMoved
    refine ⟨final, renamed, view_rewritten restored entry ?_ fun other apart => ?_⟩
    · rw [inode]
      exact own
    · rw [inode]
      exact others other apart

end Leftovers

def fileTree : FileSys :=
  namesakeTree.withFile sampleHome "f".toList ⟨"abc".toList, sampleAttr⟩

def atomicSettings : Settings := ⟨uploadModeAtomic, ⟨1, 1, 0⟩⟩

end Sshserv.Serv
