import Sshserv.Lib.Effects

/-!
# Trees that only grow

A tree that got new objects and lost or changed none of the old ones.  A path
that led somewhere still leads there (`Grown.walk_found`), because a walk that
succeeds meets present objects only.
-/

namespace Sshserv.Lib.FileTree

open Lib.UnixPath

namespace FileSys

variable {fs : FileSys}

theorem view_eq_dir_iff {loc : Loc} : fs.view loc = some .dir ↔ fs.isDirAt loc = true := by
  unfold view isDirAt
  cases fs.node loc with
  | none => simp
  | some node => cases node <;> simp [Node.isDir]

theorem view_eq_symlink_iff {loc : Loc} {target : Str} :
    fs.view loc = some (.symlink target) ↔ ∃ attr, fs.node loc = some (.symlink target attr) := by
  unfold view
  cases fs.node loc with
  | none => simp
  | some node => cases node <;> simp

theorem view_addDir {parent : Loc} {text : Str} (attr : Attr) (room : fs.CanAdd parent text) :
    UpdatedAt fs (fs.addDir parent text attr room) (parent ++ [text]) (some .dir) := by
  intro loc
  by_cases here : loc = parent ++ [text]
  · simp [here, view]
  · rw [if_neg here]
    exact view_congr (by simp [here]) rfl

/-- Every object of `before` is unchanged in `after`. -/
def Grown (before after : FileSys) : Prop :=
  ∀ loc, before.view loc ≠ none → after.view loc = before.view loc

namespace Grown

variable {before middle after : FileSys}

theorem trans (left : Grown before middle) (right : Grown middle after) : Grown before after := by
  intro loc present
  have first := left loc present
  rw [right loc (first ▸ present), first]

theorem isDirAt (grown : Grown before after) {loc : Loc} (directory : before.isDirAt loc) :
    after.isDirAt loc = true := by
  have seen := view_eq_dir_iff.mpr directory
  rw [← view_eq_dir_iff, grown loc (by simp [seen]), seen]

theorem walk_found (grown : Grown before after) :
    ∀ (limit : Nat) (dest : Loc) (path : List Elem) (loc : Loc) (left : Nat),
      before.walk limit dest path = .found loc left →
        after.walk limit dest path = .found loc left := by
  refine walk_induction ?_ ?_ ?_ ?_
  · intro limit dest loc left found
    rw [walk_nil] at found ⊢
    exact found
  · intro limit dest rest tail loc left found
    rw [walk_cur] at found ⊢
    exact tail loc left found
  · intro limit dest rest tail loc left found
    rw [walk_up] at found ⊢
    exact tail loc left found
  · intro limit dest text rest tail smaller loc left found
    have same := grown (dest ++ [text])
    rw [walk_name] at found ⊢
    cases entry : before.node (dest ++ [text]) with
    | none =>
      rw [entry] at found
      simp only at found
      split at found
      · cases found
      · cases found
    | some node =>
      rw [entry] at found
      have present : before.view (dest ++ [text]) ≠ none := by
        rw [Ne, view_eq_none_iff, entry]
        simp
      have seen := same present
      cases node with
      | dir attr =>
        obtain ⟨new, kept⟩ := isDirAt_iff.mp (grown.isDirAt (isDirAt_of_node_dir entry))
        rw [kept]
        exact tail loc left found
      | file ino =>
        have old : before.view (dest ++ [text]) = some (.file (before.inode ino).data) := by
          simp [view, entry]
        rw [old] at seen
        obtain ⟨number, kept⟩ := node_of_view_file seen
        rw [kept]
        exact found
      | symlink target attr =>
        have old : before.view (dest ++ [text]) = some (.symlink target) := by
          simp [view, entry]
        rw [old] at seen
        obtain ⟨new, kept⟩ := view_eq_symlink_iff.mp seen
        rw [kept]
        cases limit with
        | zero => cases found
        | succ limit => exact smaller limit _ _ rfl loc left found

theorem resolve (grown : Grown before after) {path : Str} {loc : Loc} {left : Nat}
    (found : before.resolve path = .found loc left) :
    after.resolve path = .found loc left :=
  grown.walk_found kernelLinkLimit [] (elems path) loc left found

theorem evalLoc (grown : Grown before after) {path : Str} {loc : Loc}
    (found : before.evalLoc path = .ok loc) :
    after.evalLoc path = .ok loc := by
  obtain ⟨left, walked⟩ := located_eq_ok_iff.mp found
  exact located_eq_ok_iff.mpr ⟨left, grown.walk_found evalLinkLimit [] (elems path) loc left walked⟩

end Grown

theorem UpdatedAt.grown {before after : FileSys} {loc : Loc} {new : Option View}
    (updated : UpdatedAt before after loc new) (absent : before.view loc = none) :
    Grown before after := by
  intro other present
  rw [updated, if_neg]
  rintro rfl
  exact present absent

end FileSys

end Sshserv.Lib.FileTree
