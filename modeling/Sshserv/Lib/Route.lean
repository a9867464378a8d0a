import Sshserv.Lib.Growth

/-!
# The way of a walk

`route` lists the entries that a walk looks up.  A walk to a directory ends
there again in every tree that keeps the directories and links of its route
(`walk_kept`).
-/

namespace Sshserv.Lib.FileTree

open Lib.UnixPath

namespace FileSys

/-- The entries looked up before the first link and behind it; `follow` is
the way from there. -/
def routeFrom (fs : FileSys) (follow : Loc → List Elem → List Loc) : Loc → List Elem → List Loc
  | _, [] => []
  | dest, .cur :: rest => routeFrom fs follow dest rest
  | dest, .up :: rest => routeFrom fs follow dest.dropLast rest
  | dest, .name text :: rest =>
    (dest ++ [text]) ::
      match fs.node (dest ++ [text]) with
      | some (.dir _) => routeFrom fs follow (dest ++ [text]) rest
      | some (.symlink target _) => follow (linkStart dest target) (elems target ++ rest)
      | _ => []

/-- The entries that `walk` looks up. -/
def route (fs : FileSys) : Nat → Loc → List Elem → List Loc
  | 0 => routeFrom fs fun _ _ => []
  | limit + 1 => routeFrom fs (route fs limit)

/-- What `route` lists behind a link when `left` links remain. -/
def followRoute (fs : FileSys) : Nat → Loc → List Elem → List Loc
  | 0 => fun _ _ => []
  | limit + 1 => route fs limit

section Equations

variable (fs : FileSys) (limit : Nat) (dest : Loc) (rest : List Elem)

theorem route_eq_routeFrom : fs.route limit = fs.routeFrom (fs.followRoute limit) := by
  cases limit with
  | zero => rfl
  | succ limit => rfl

theorem route_cur : fs.route limit dest (.cur :: rest) = fs.route limit dest rest := by
  rw [route_eq_routeFrom]
  rfl

theorem route_up : fs.route limit dest (.up :: rest) = fs.route limit dest.dropLast rest := by
  rw [route_eq_routeFrom]
  rfl

theorem route_name (text : Str) :
    fs.route limit dest (.name text :: rest) =
      (dest ++ [text]) ::
        match fs.node (dest ++ [text]) with
        | some (.dir _) => fs.route limit (dest ++ [text]) rest
        | some (.symlink target _) =>
          fs.followRoute limit (linkStart dest target) (elems target ++ rest)
        | _ => [] := by
  rw [route_eq_routeFrom]
  rfl

end Equations

/-- A walk goes on from every entry of its route. -/
theorem route_visits {fs : FileSys} :
    ∀ (limit : Nat) (dest : Loc) (path : List Elem) (place : Loc),
      place ∈ fs.route limit dest path →
        ∃ left parent text rest, place = parent ++ [text] ∧
          fs.walk limit dest path = fs.walk left parent (.name text :: rest) := by
  refine walk_induction ?_ ?_ ?_ ?_
  · intro limit dest place member
    rw [route_eq_routeFrom] at member
    cases member
  · intro limit dest rest tail place member
    rw [route_cur] at member
    rw [walk_cur]
    exact tail place member
  · intro limit dest rest tail place member
    rw [route_up] at member
    rw [walk_up]
    exact tail place member
  · intro limit dest text rest tail smaller place member
    rw [route_name, List.mem_cons] at member
    rcases member with here | later
    · exact ⟨limit, dest, text, rest, here, rfl⟩
    · rw [walk_name]
      cases entry : fs.node (dest ++ [text]) with
      | none => simp [entry] at later
      | some node =>
        rw [entry] at later
        cases node with
        | dir attr => exact tail place later
        | file ino => cases later
        | symlink target attr =>
          cases limit with
          | zero => cases later
          | succ limit => exact smaller limit _ _ rfl place later

theorem route_append {fs : FileSys} :
    ∀ (limit : Nat) (dest : Loc) (path : List Elem) (more : List Elem)
      (place : Loc),
      place ∈ fs.route limit dest path → place ∈ fs.route limit dest (path ++ more) := by
  refine walk_induction ?_ ?_ ?_ ?_
  · intro limit dest more place member
    rw [route_eq_routeFrom] at member
    cases member
  · intro limit dest rest tail more place member
    rw [List.cons_append, route_cur]
    rw [route_cur] at member
    exact tail more place member
  · intro limit dest rest tail more place member
    rw [List.cons_append, route_up]
    rw [route_up] at member
    exact tail more place member
  · intro limit dest text rest tail smaller more place member
    rw [List.cons_append, route_name]
    rw [route_name] at member
    rcases List.mem_cons.mp member with here | later
    · exact List.mem_cons.mpr (Or.inl here)
    apply List.mem_cons_of_mem
    cases entry : fs.node (dest ++ [text]) with
    | none => simp [entry] at later
    | some node =>
      rw [entry] at later
      cases node with
      | dir attr => exact tail more place later
      | file ino => cases later
      | symlink target attr =>
        cases limit with
        | zero => cases later
        | succ limit =>
          have longer := smaller limit _ _ rfl more place later
          rwa [List.append_assoc] at longer

theorem route_covers {fs : FileSys} :
    ∀ (limit : Nat) (dest : Loc) (path : List Elem) (loc : Loc) (left : Nat),
      fs.walk limit dest path = .found loc left →
        loc <+: dest ∨ ∃ place ∈ fs.route limit dest path, loc <+: place := by
  refine walk_induction ?_ ?_ ?_ ?_
  · intro limit dest loc left found
    rw [walk_nil, Outcome.found.injEq] at found
    rw [← found.1]
    exact Or.inl List.prefix_rfl
  · intro limit dest rest tail loc left found
    rw [walk_cur] at found
    rw [route_cur]
    exact tail loc left found
  · intro limit dest rest tail loc left found
    rw [walk_up] at found
    rw [route_up]
    exact (tail loc left found).imp_left fun above =>
      above.trans (List.dropLast_prefix dest)
  · intro limit dest text rest tail smaller loc left found
    rw [walk_name] at found
    rw [route_name]
    cases entry : fs.node (dest ++ [text]) with
    | none => by_cases last : rest = [] <;> simp [entry, last] at found
    | some node =>
      rw [entry] at found
      cases node with
      | dir attr =>
        rcases tail loc left found with above | ⟨place, member, above⟩
        · exact Or.inr ⟨_, List.mem_cons_self .., above⟩
        · exact Or.inr ⟨place, List.mem_cons_of_mem _ member, above⟩
      | file ino =>
        by_cases last : rest = []
        · simp only [last, if_true, Outcome.found.injEq] at found
          rw [← found.1]
          exact Or.inr ⟨_, List.mem_cons_self .., List.prefix_rfl⟩
        · simp [last] at found
      | symlink target attr =>
        cases limit with
        | zero => cases found
        | succ limit =>
          rcases smaller limit _ _ rfl loc left found with
            above | ⟨place, member, above⟩
          · refine Or.inl (above.trans ?_)
            unfold linkStart
            split
            · exact List.nil_prefix
            · exact List.prefix_rfl
          · exact Or.inr ⟨place, List.mem_cons_of_mem _ member, above⟩

/-- A directory at a location stays a directory, and a link stays a link to
the same target. -/
structure Keeps (before after : FileSys) (loc : Loc) : Prop where
  directory : before.isDirAt loc = true → after.isDirAt loc = true
  link :
    ∀ target attr, before.node loc = some (.symlink target attr) →
      ∃ new, after.node loc = some (.symlink target new)

section Keeping

variable {before after : FileSys}

theorem keeps_of_node {loc : Loc} (same : after.node loc = before.node loc) :
    Keeps before after loc := by
  refine ⟨fun directory => ?_, fun target attr entry => ⟨attr, ?_⟩⟩
  · rw [isDirAt, same]
    exact directory
  · rw [same]
    exact entry

theorem Grown.keeps (grown : Grown before after) (loc : Loc) : Keeps before after loc := by
  refine ⟨grown.isDirAt, fun target attr entry => ?_⟩
  have seen : before.view loc = some (.symlink target) := view_eq_symlink_iff.mpr ⟨attr, entry⟩
  rw [← view_eq_symlink_iff, grown loc (by simp [seen]), seen]

theorem SameShape.keeps (shape : SameShape before after) (loc : Loc) : Keeps before after loc := by
  refine ⟨fun directory => (shape.isDirAt loc).trans directory, fun target attr entry => ?_⟩
  have same := shape loc
  rw [entry] at same
  obtain ⟨node, found, bare⟩ := Option.map_eq_some_iff.mp same
  cases node with
  | dir attr => cases bare
  | file ino => cases bare
  | symlink other new =>
    simp only [Node.bare, Node.symlink.injEq, and_true] at bare
    exact ⟨new, bare ▸ found⟩

/-- A walk that ends in a directory ends there again when its route is
kept. -/
theorem walk_kept :
    ∀ (limit : Nat) (dest : Loc) (path : List Elem) (loc : Loc) (left : Nat),
      before.walk limit dest path = .found loc left →
        before.isDirAt loc = true →
        after.isDirAt dest = true →
        (∀ place ∈ before.route limit dest path, Keeps before after place) →
        after.walk limit dest path = .found loc left ∧ after.isDirAt loc = true := by
  refine walk_induction ?_ ?_ ?_ ?_
  · intro limit dest loc left found _ start _
    rw [walk_nil, Outcome.found.injEq] at found
    rw [walk_nil, ← found.1, ← found.2]
    exact ⟨rfl, start⟩
  · intro limit dest rest tail loc left found directory start kept
    rw [walk_cur] at found ⊢
    rw [route_cur] at kept
    exact tail loc left found directory start kept
  · intro limit dest rest tail loc left found directory start kept
    rw [walk_up] at found ⊢
    rw [route_up] at kept
    exact tail loc left found directory (isDirAt_dropLast start) kept
  · intro limit dest text rest tail smaller loc left found directory start kept
    rw [route_name] at kept
    have here : Keeps before after (dest ++ [text]) := kept _ (List.mem_cons_self ..)
    rw [walk_name] at found ⊢
    cases entry : before.node (dest ++ [text]) with
    | none =>
      rw [entry] at found
      simp only at found
      split at found <;> cases found
    | some node =>
      rw [entry] at found kept
      cases node with
      | dir attr =>
        have now := here.directory (isDirAt_of_node_dir entry)
        obtain ⟨new, same⟩ := isDirAt_iff.mp now
        rw [same]
        exact tail loc left found directory now fun place member =>
          kept place (List.mem_cons_of_mem _ member)
      | file ino =>
        -- the walk would end at this file
        simp only at found
        split at found
        · rw [Outcome.found.injEq] at found
          rw [← found.1] at directory
          simp [isDirAt, entry, Node.isDir] at directory
        · cases found
      | symlink target attr =>
        obtain ⟨new, same⟩ := here.link target attr entry
        rw [same]
        cases limit with
        | zero => cases found
        | succ limit =>
          exact smaller limit _ _ rfl loc left found directory
            (isDirAt_linkStart start target) fun place member =>
              kept place (List.mem_cons_of_mem _ member)

theorem walk_same :
    ∀ (limit : Nat) (dest : Loc) (path : List Elem), (∀ place ∈ before.route limit dest path,
        after.node place = before.node place) →
        before.isDirAt dest = true → after.isDirAt dest = true →
        after.walk limit dest path = before.walk limit dest path ∧
          ∀ loc left, before.walk limit dest path = .found loc left →
            after.isDirAt loc = before.isDirAt loc := by
  refine walk_induction ?_ ?_ ?_ ?_
  · intro limit dest _ old new
    simp only [walk_nil, Outcome.found.injEq, true_and]
    rintro loc left ⟨rfl, _⟩
    rw [old, new]
  · intro limit dest rest tail same old new
    rw [route_cur] at same
    simpa only [walk_cur] using tail same old new
  · intro limit dest rest tail same old new
    rw [route_up] at same
    simpa only [walk_up] using tail same (isDirAt_dropLast old) (isDirAt_dropLast new)
  · intro limit dest text rest tail smaller same old new
    rw [route_name] at same
    have here : after.node (dest ++ [text]) = before.node (dest ++ [text]) :=
      same _ (List.mem_cons_self ..)
    have kind : after.isDirAt (dest ++ [text]) = before.isDirAt (dest ++ [text]) := by
      rw [isDirAt, isDirAt, here]
    rw [walk_name, walk_name, here]
    cases entry : before.node (dest ++ [text]) with
    | none =>
      refine ⟨rfl, ?_⟩
      intro loc left found
      by_cases last : rest = [] <;> simp [last] at found
    | some node =>
      rw [entry] at same
      have later := fun place member =>
        same place (List.mem_cons_of_mem _ member)
      cases node with
      | dir attr =>
        have directory := isDirAt_of_node_dir entry
        exact tail later directory (kind.trans directory)
      | file ino =>
        refine ⟨rfl, ?_⟩
        intro loc left found
        by_cases last : rest = []
        · simp only [last, if_true, Outcome.found.injEq] at found
          rw [← found.1]
          exact kind
        · simp [last] at found
      | symlink target attr =>
        cases limit with
        | zero => exact ⟨rfl, fun loc left found => by cases found⟩
        | succ limit =>
          exact smaller limit _ _ rfl later
            (isDirAt_linkStart old target)
            (isDirAt_linkStart new target)

/-- A walk ends nowhere when an entry of its route is gone and the others are
the same or gone. -/
theorem walk_cut :
    ∀ (limit : Nat) (dest : Loc) (path : List Elem), (∀ place ∈ before.route limit dest path,
        after.node place = before.node place ∨ after.node place = none) →
        (∃ place ∈ before.route limit dest path, after.node place = none) →
        ∀ loc left, after.walk limit dest path ≠ .found loc left := by
  refine walk_induction ?_ ?_ ?_ ?_
  · rintro limit dest _ ⟨place, member, _⟩
    rw [route_eq_routeFrom] at member
    cases member
  · intro limit dest rest tail others gone
    rw [route_cur] at others gone
    rw [walk_cur]
    exact tail others gone
  · intro limit dest rest tail others gone
    rw [route_up] at others gone
    rw [walk_up]
    exact tail others gone
  · intro limit dest text rest tail smaller others gone loc left
    rw [route_name] at others gone
    rw [walk_name]
    rcases hereGone : after.node (dest ++ [text]) with _ | node
    · by_cases last : rest = [] <;> simp [last]
    have here : before.node (dest ++ [text]) = some node := by
      rcases others _ (List.mem_cons_self ..) with same | absent
      · rw [← same, hereGone]
      · rw [hereGone] at absent
        cases absent
    rw [here] at others gone
    have later := fun place member =>
      others place (List.mem_cons_of_mem _ member)
    obtain ⟨place, member, absent⟩ := gone
    have behind : place ≠ dest ++ [text] := by
      rintro rfl
      rw [hereGone] at absent
      cases absent
    have member := (List.mem_cons.mp member).resolve_left behind
    cases node with
    | dir attr => exact tail later ⟨place, member, absent⟩ loc left
    | file ino => cases member
    | symlink target attr =>
      cases limit with
      | zero => simp [follow]
      | succ limit => exact smaller limit _ _ rfl later ⟨place, member, absent⟩ loc left

end Keeping

/-- A path leads to the directory at a location. -/
def LeadsToDir (fs : FileSys) (path : Str) (loc : Loc) : Prop :=
  fs.evalLoc path = .ok loc ∧ fs.isDirAt loc = true

instance (fs : FileSys) (path : Str) (loc : Loc) : Decidable (fs.LeadsToDir path loc) :=
  inferInstanceAs (Decidable (_ ∧ _))

/-- The entries that the resolution of a path looks up. -/
def wayTo (fs : FileSys) (path : Str) : List Loc :=
  fs.route evalLinkLimit [] (elems path)

/-- No entry on the way of a path is at or below a location. -/
def Off (fs : FileSys) (path : Str) (loc : Loc) : Prop :=
  ∀ place ∈ fs.wayTo path, ¬ loc <+: place

instance (fs : FileSys) (path : Str) (loc : Loc) : Decidable (fs.Off path loc) :=
  inferInstanceAs (Decidable (∀ place ∈ fs.wayTo path, _))

/-- The entry that `other` names, if it names one, is off the way of
`path`. -/
def EntryOff (fs : FileSys) (path other : Str) : Prop :=
  match fs.entryLoc other with
  | .ok loc => fs.Off path loc
  | .error _ => True

instance (fs : FileSys) (path other : Str) : Decidable (fs.EntryOff path other) :=
  match found : fs.entryLoc other with
  | .ok loc => decidable_of_iff (fs.Off path loc) (by simp [EntryOff, found])
  | .error _ => isTrue (by simp [EntryOff, found])

section Directories

variable {fs after : FileSys} {path other : Str} {loc : Loc}

theorem EntryOff.of_entryOf {parent : Loc} {text : Str} (off : fs.EntryOff path other)
    (entry : fs.entryOf other = .ok (parent, text)) :
    fs.Off path (parent ++ [text]) := by
  simpa [EntryOff, entryLoc, entry] using off

namespace LeadsToDir

variable (leads : fs.LeadsToDir path loc)

include leads

theorem kept (keeps : ∀ place ∈ fs.wayTo path, Keeps fs after place) :
    after.LeadsToDir path loc := by
  obtain ⟨left, found⟩ := located_eq_ok_iff.mp leads.1
  obtain ⟨again, directory⟩ :=
    walk_kept evalLinkLimit [] (elems path) loc left found leads.2 after.isDirAt_root keeps
  exact ⟨located_eq_ok_iff.mpr ⟨left, again⟩, directory⟩

theorem grown (grows : Grown fs after) : after.LeadsToDir path loc :=
  leads.kept fun place _ => grows.keeps place

theorem sameShape (shape : SameShape fs after) : after.LeadsToDir path loc :=
  leads.kept fun place _ => shape.keeps place

theorem dropTree {top : Loc} (off : fs.Off path top)
    (survivors : List Loc) (stays : ¬ Doomed top survivors []) :
    (fs.dropTree top survivors stays).LeadsToDir path loc := by
  refine leads.kept fun place member => keeps_of_node ?_
  exact if_neg fun doomed => off place member doomed.1

theorem remove (off : fs.EntryOff path other) (done : fs.remove other = .ok after) :
    after.LeadsToDir path loc := by
  obtain ⟨parent, text, entry, _, rfl⟩ := remove_cases done
  exact leads.dropTree (off.of_entryOf entry) [] (by simp)

theorem removeAll (off : fs.EntryOff path other) (survivors : List Loc) :
    (fs.removeAll other survivors).1.LeadsToDir path loc := by
  rcases done : fs.removeAll other survivors with ⟨after, result⟩
  rcases removeAll_cases done with
    ⟨rfl, _, _⟩ | ⟨place, left, removal, rfl, _⟩
  · exact leads
  · rw [EntryOff, removal.entryLoc] at off
    exact leads.dropTree off left removal.stays

theorem rename {newPath : Str} (source : fs.EntryOff path other)
    (target : fs.EntryOff path newPath) (done : fs.rename other newPath = .ok after) :
    after.LeadsToDir path loc := by
  obtain ⟨oldParent, oldText, newParent, newText, oldEntry, newEntry, _,
    ⟨_, rfl⟩ | ⟨_, move, rfl⟩⟩ := rename_cases done
  · exact leads
  · refine leads.kept fun place member => keeps_of_node ?_
    have notTarget := target.of_entryOf newEntry place member
    have notSource := source.of_entryOf oldEntry place member
    exact (if_neg notTarget).trans (if_neg notSource)

theorem off_of_neverDir {entry : Loc}
    (never : fs.NeverDir entry) (leaf : fs.isDirAt entry = false) :
    fs.Off path entry := by
  obtain ⟨left, found⟩ := located_eq_ok_iff.mp leads.1
  have onTheWay : ∀ place ∈ fs.wayTo path, ¬ fs.NeverDir place := by
    intro place member neverHere
    obtain ⟨budget, parent, text, rest, equal, visit⟩ :=
      route_visits evalLinkLimit [] (elems path) place member
    have notDir := neverHere parent text equal budget rest loc left (visit.symm.trans found)
    rw [leads.2] at notDir
    cases notDir
  intro place member below
  obtain ⟨more, rfl⟩ := below
  by_cases here : more = []
  · exact onTheWay _ member (by simpa [here] using never)
  · exact onTheWay _ member (neverDir_of_absent (fs.node_below_notDir leaf more here))

end LeadsToDir

variable {attr : Attr} {flags : OpenFlags} {handle : Handle}

theorem mkdir_grown (done : fs.mkdir other attr = .ok after) : Grown fs after := by
  obtain ⟨parent, text, room, _, rfl⟩ := mkdir_cases done
  exact (view_addDir attr room).grown (view_eq_none_iff.mpr room.absent)

theorem symlink_grown {target : Str} (done : fs.symlink target other attr = .ok after) :
    Grown fs after := by
  unfold symlink at done
  split at done
  · rename_i parent text _
    split at done
    · rename_i room
      cases done
      intro place present
      refine view_congr ?_ rfl
      rw [node_addLink, if_neg]
      rintro rfl
      exact present (view_eq_none_iff.mpr room.absent)
    · cases done
  · cases done

private theorem createAt_grown {parent : Loc} {text : Str}
    (done : fs.createAt other parent text flags attr = .ok (after, handle)) :
    Grown fs after := by
  unfold createAt at done
  split at done
  · split at done
    · rename_i room
      cases done
      intro place present
      rw [view_addFile, if_neg]
      rintro rfl
      exact present (view_eq_none_iff.mpr room.absent)
    · cases done
  · cases done

theorem openFile_cases (done : fs.openFile other flags attr = .ok (after, handle)) :
    Grown fs after ∨ SameShape fs after := by
  unfold openFile at done
  split at done
  · split at done
    · exact Or.inl (createAt_grown done)
    · cases done
  · split at done
    · refine Or.inr ?_
      unfold openAt at done
      split at done
      · split at done
        · cases done
        · split at done
          · cases done
            exact sameShape_setInode _ _
          · cases done
            exact SameShape.refl fs
      · cases done
    · exact Or.inl (createAt_grown done)
    · cases done
    · cases done
    · cases done

theorem LeadsToDir.openFile (leads : fs.LeadsToDir path loc)
    (done : fs.openFile other flags attr = .ok (after, handle)) :
    after.LeadsToDir path loc := by
  rcases openFile_cases done with grown | shape
  · exact leads.grown grown
  · exact leads.sameShape shape

theorem writeAt_sameShape {bytes : List Char} {offset now : Int}
    (done : fs.writeAt handle bytes offset now = .ok after) :
    SameShape fs after := by
  unfold writeAt at done
  split at done
  · cases done
  · split at done
    · cases done
    · split at done
      · cases done
        exact sameShape_setInode _ _
      · cases done

end Directories

end FileSys

end Sshserv.Lib.FileTree
