import Sshserv.Lib.Route
import Sshserv.Lib.Tally

/-!
# Scanning a directory

A scan of a path asks where the path leads.  If that is a directory, it walks
the tree from the entry of the path, without following it, and adds up the
regular files that it meets: `scanTotal` is the tally of what it `Scans`.
-/

namespace Sshserv.Lib.FileTree

open Lib.UnixPath

namespace FileSys

/-- The entries that a system call looks up for a path. -/
def lookups (fs : FileSys) (path : Str) : List Loc :=
  fs.route kernelLinkLimit [] (elems path)

/-- Where a scan starts: at the entry of a path that leads to a directory. -/
def scanRoot (fs : FileSys) (path : Str) : Option Loc :=
  match fs.resolve path with
  | .found loc _ => if fs.isDirAt loc then (fs.entryLoc path).toOption else none
  | _ => none

/-- The number of regular files that a scan meets, and their size. -/
def scanTotal (fs : FileSys) (path : Str) : Int × Int :=
  match fs.scanRoot path with
  | some root => fs.fileTotal root
  | none => 0

/-- A scan of the path comes by the location. -/
def Scans (fs : FileSys) (path : Str) (loc : Loc) : Prop :=
  ∃ root ∈ fs.scanRoot path, root <+: loc

instance (fs : FileSys) (path : Str) (loc : Loc) : Decidable (fs.Scans path loc) :=
  inferInstanceAs (Decidable (∃ root ∈ fs.scanRoot path, _))

variable {fs before after : FileSys} {path : Str}

variable {root parent : Loc} {text : Str}

theorem scans_of_root (starts : fs.scanRoot path = some root) : fs.Scans path = (root <+: ·) := by
  funext loc
  simp [Scans, starts]

theorem scans_of_none (starts : fs.scanRoot path = none) : fs.Scans path = fun _ => False := by
  funext loc
  simp [Scans, starts]

theorem scanTotal_eq_tally (fs : FileSys) (path : Str) :
    fs.scanTotal path = fs.tally {loc | fs.Scans path loc} := by
  unfold scanTotal
  cases starts : fs.scanRoot path with
  | none =>
    rw [scans_of_none starts]
    exact fs.tally_empty.symm
  | some root =>
    rw [scans_of_root starts]
    exact (fs.tally_below root).symm

theorem entryOf_cases (entry : fs.entryOf path = .ok (parent, text)) :
    ∃ initial left, elems path = initial ++ [.name text] ∧
      fs.walk kernelLinkLimit [] initial = .found parent left := by
  unfold entryOf at entry
  split at entry
  · cases entry
  split at entry
  · rename_i last ends
    split at entry
    · rename_i place walked
      split at entry
      · cases entry
        obtain ⟨left, found⟩ := located_eq_ok_iff.mp walked
        exact ⟨_, left, (List.dropLast_append_getLast? _ ends).symm, found⟩
      · cases entry
    · cases entry
  · cases entry

theorem resolve_of_entryOf (entry : fs.entryOf path = .ok (parent, text)) :
    ∃ left, fs.resolve path = fs.walk left parent [.name text] := by
  obtain ⟨initial, left, read, found⟩ := entryOf_cases entry
  refine ⟨left, ?_⟩
  rw [resolve, read, walk_append _ _ _ _ _ fs.isDirAt_root, found]
  simp [extend, entryOf_directory entry]

theorem scanRoot_eq_some_iff :
    fs.scanRoot path = some root ↔
      ∃ loc left, fs.resolve path = .found loc left ∧
        fs.isDirAt loc = true ∧ fs.entryLoc path = .ok root := by
  unfold scanRoot
  cases resolved : fs.resolve path with
  | found loc left =>
    cases directory : fs.isDirAt loc with
    | false => simp [directory]
    | true => cases entry : fs.entryLoc path <;> simp [directory, Except.toOption]
  | missing parent text left => simp
  | absent loc => simp
  | notDir => simp
  | loop => simp

/-- A scan starts at an entry, or at a directory that has none. -/
theorem scanRoot_cases (starts : fs.scanRoot path = some root) :
    (∃ parent text, fs.entryOf path = .ok (parent, text) ∧
      root = parent ++ [text]) ∨
      ∃ left, fs.resolve path = .found root left := by
  obtain ⟨loc, left, resolved, _, entry⟩ := scanRoot_eq_some_iff.mp starts
  unfold entryLoc at entry
  split at entry
  · rename_i parent text found
    cases entry
    exact Or.inl ⟨parent, text, found, rfl⟩
  · rw [resolved] at entry
    cases entry
    exact Or.inr ⟨left, resolved⟩
  · cases entry

theorem node_scanRoot (starts : fs.scanRoot path = some root) : fs.node root ≠ none := by
  obtain ⟨loc, left, resolved, _, _⟩ := scanRoot_eq_some_iff.mp starts
  rcases scanRoot_cases starts with
    ⟨parent, text, entry, rfl⟩ | ⟨left, found⟩
  · intro absent
    obtain ⟨budget, same⟩ := resolve_of_entryOf entry
    rw [same, walk_name, absent] at resolved
    cases resolved
  · exact node_ne_none_of_found found

theorem scanTotal_of_noent (missing : fs.entryOf path = .error .noent) : fs.scanTotal path = 0 := by
  have nowhere : fs.scanRoot path = none := by
    rw [Option.eq_none_iff_forall_not_mem]
    intro root starts
    obtain ⟨_, _, _, _, located⟩ := scanRoot_eq_some_iff.mp starts
    simp [entryLoc, missing] at located
  rw [scanTotal, nowhere]

theorem scanTotal_of_entryOf (entry : fs.entryOf path = .ok (parent, text)) :
    fs.scanTotal path =
      if fs.isDirAt (parent ++ [text]) then
        fs.tally {loc | parent ++ [text] <+: loc} else 0 := by
  obtain ⟨left, resolved⟩ := resolve_of_entryOf entry
  have located : fs.entryLoc path = .ok (parent ++ [text]) := by
    simp [entryLoc, entry]
  rw [walk_name] at resolved
  rw [scanTotal_eq_tally]
  split
  · rename_i directory
    obtain ⟨attr, node⟩ := isDirAt_iff.mp directory
    rw [node] at resolved
    have starts : fs.scanRoot path = some (parent ++ [text]) :=
      scanRoot_eq_some_iff.mpr ⟨_, left, by simpa using resolved, directory, located⟩
    rw [scans_of_root starts]
  · rename_i leaf
    rw [tally_eq_zero_iff]
    rintro loc ⟨root, starts, below⟩
    -- a scan could only start here if the entry were a link
    obtain ⟨place, budget, found, directory, here⟩ := scanRoot_eq_some_iff.mp starts
    rw [located] at here
    cases here
    apply weight_view_eq_zero
    intro ino file
    obtain rfl := eq_of_leaf (by simpa using leaf) (by simp [file]) below
    rw [file] at resolved
    rw [resolved] at found
    simp only [if_true, Outcome.found.injEq] at found
    rw [← found.1] at directory
    exact leaf directory

theorem lookups_above {place : Loc} (starts : fs.scanRoot path = some root)
    (above : place <+: root) (different : place ≠ root) (nonroot : place ≠ []) :
    ∃ seen ∈ fs.lookups path, place <+: seen := by
  rcases scanRoot_cases starts with
    ⟨parent, text, entry, rfl⟩ | ⟨left, found⟩
  · obtain ⟨initial, left, read, found⟩ := entryOf_cases entry
    have higher : place <+: parent := (List.prefix_concat_iff.mp above).resolve_left different
    rcases route_covers _ _ _ _ _ found with top | ⟨seen, member, below⟩
    · exact absurd (List.prefix_nil.mp (higher.trans top)) nonroot
    · refine ⟨seen, ?_, higher.trans below⟩
      rw [lookups, read]
      exact route_append _ _ _ _ _ member
  · rcases route_covers _ _ _ _ _ found with top | ⟨seen, member, below⟩
    · exact absurd (List.prefix_nil.mp (above.trans top)) nonroot
    · exact ⟨seen, member, above.trans below⟩

theorem entryOf_same (same : ∀ place ∈ before.lookups path, after.node place = before.node place) :
    after.entryOf path = before.entryOf path := by
  unfold entryOf
  cases ends : (elems path).getLast? with
  | none => rfl
  | some last =>
    cases last with
    | cur => rfl
    | up => rfl
    | name text =>
      have shorter :
          ∀ place ∈
            before.route kernelLinkLimit [] (elems path).dropLast,
            after.node place = before.node place := by
        intro place member
        apply same place
        rw [lookups, ← List.dropLast_append_getLast? _ ends]
        exact route_append _ _ _ _ _ member
      obtain ⟨walked, kinds⟩ := walk_same _ _ _ shorter before.isDirAt_root after.isDirAt_root
      simp only [walked]
      cases located : (before.walk kernelLinkLimit [] (elems path).dropLast).located with
      | error err => rfl
      | ok parent =>
        obtain ⟨left, found⟩ := located_eq_ok_iff.mp located
        simp only [kinds parent left found]

theorem scanRoot_same (same : ∀ place ∈ before.lookups path, after.node place = before.node place) :
    after.scanRoot path = before.scanRoot path := by
  obtain ⟨walked, kinds⟩ :=
    walk_same kernelLinkLimit [] (elems path) same before.isDirAt_root after.isDirAt_root
  have resolved : after.resolve path = before.resolve path := walked
  have entry : after.entryLoc path = before.entryLoc path := by
    unfold entryLoc
    rw [entryOf_same same, resolved]
  unfold scanRoot
  rw [resolved, entry]
  cases found : before.resolve path with
  | found loc left =>
    simp only
    rw [kinds loc left found]
  | missing parent text left => rfl
  | absent loc => rfl
  | notDir => rfl
  | loop => rfl

theorem scanRoot_cut (others :
      ∀ place ∈ before.lookups path, after.node place = before.node place ∨ after.node place = none)
    (gone : ∃ place ∈ before.lookups path, after.node place = none) :
    after.scanRoot path = none := by
  rw [Option.eq_none_iff_forall_not_mem]
  intro root starts
  obtain ⟨loc, left, resolved, _⟩ := scanRoot_eq_some_iff.mp starts
  exact walk_cut kernelLinkLimit [] (elems path) others gone loc left resolved

theorem SameShape.scanTotal (shape : SameShape before after)
    (data : ∀ ino, (after.inode ino).data = (before.inode ino).data) (path : Str) :
    after.scanTotal path = before.scanTotal path := by
  have resolved : after.resolve path = before.resolve path := shape.resolve path
  have entry : after.entryLoc path = before.entryLoc path := by
    rw [entryLoc, shape.entryOf, resolved, entryLoc]
  have starts : after.scanRoot path = before.scanRoot path := by
    unfold scanRoot
    simp only [resolved, entry, shape.isDirAt]
  have same : after.Scans path = before.Scans path := by
    funext loc
    rw [Scans, starts, Scans]
  rw [scanTotal_eq_tally, scanTotal_eq_tally, same]
  apply tally_same
  intro loc _
  rw [shape.view data loc]

/-- The tree without the objects in `gone`. -/
structure Taken (gone : Set Loc) (before after : FileSys) : Prop where
  node_gone : ∀ loc ∈ gone, after.node loc = none
  node_kept : ∀ loc, loc ∉ gone → after.node loc = before.node loc
  inode : after.inode = before.inode

theorem taken_dropTree (fs : FileSys) (place : Loc) (survivors : List Loc)
    (stays : ¬ Doomed place survivors []) :
    Taken {loc | Doomed place survivors loc} fs (fs.dropTree place survivors stays) :=
  ⟨fun _ doomed => if_pos doomed, fun _ kept => if_neg kept, rfl⟩

namespace Taken

variable {gone : Set Loc} (taken : Taken gone before after)
include taken

theorem tally (region : Set Loc) :
    after.tally region = before.tally {loc | loc ∈ region ∧ loc ∉ gone} := by
  classical
  apply tally_eq_tally
  intro loc
  by_cases member : loc ∈ gone
  · simp [member, view_eq_none_iff.mpr (taken.node_gone loc member)]
  · simp [member, view_congr (taken.node_kept loc member) taken.inode]

theorem scanTotal_cut (cut : ∃ place ∈ before.lookups path, place ∈ gone) :
    after.scanTotal path = 0 := by
  have nowhere : after.scanRoot path = none := by
    apply scanRoot_cut
    · intro place _
      by_cases member : place ∈ gone
      · exact Or.inr (taken.node_gone place member)
      · exact Or.inl (taken.node_kept place member)
    · obtain ⟨place, seen, member⟩ := cut
      exact ⟨place, seen, taken.node_gone place member⟩
  rw [FileSys.scanTotal, nowhere]

theorem scanTotal (off : ∀ place ∈ before.lookups path, place ∉ gone) :
    before.scanTotal path =
      before.tally {loc | before.Scans path loc ∧ loc ∈ gone} + after.scanTotal path := by
  have starts : after.scanRoot path = before.scanRoot path :=
    scanRoot_same fun place seen => taken.node_kept place (off place seen)
  have same : after.Scans path = before.Scans path := by
    funext loc
    rw [Scans, starts, Scans]
  rw [scanTotal_eq_tally, scanTotal_eq_tally, taken.tally, same]
  exact before.tally_split _ gone

end Taken

section Moves

variable {root source target : Loc} (starts : before.scanRoot path = some root)
include starts

/-- What is below a location that the scan does not look up counts as a
whole or not at all. -/
private theorem tally_scans_below (nonroot : source ≠ [])
    (off : ∀ place ∈ before.lookups path, ¬ source <+: place) :
    before.tally {loc | root <+: loc ∧ source <+: loc} =
      if root <+: source then before.tally {loc | source <+: loc} else 0 := by
  split
  · rename_i inside
    congr 1
    ext loc
    exact and_iff_right_of_imp inside.trans
  · rename_i outside
    rw [tally_eq_zero_iff]
    rintro loc ⟨below, under⟩
    rcases List.prefix_or_prefix_of_prefix below under with down | up
    · exact absurd down outside
    · have different : source ≠ root := by
        rintro rfl
        exact outside List.prefix_rfl
      obtain ⟨seen, member, above⟩ := lookups_above starts up different nonroot
      exact absurd above (off seen member)

private theorem root_of_leaf (leaf : before.isDirAt target = false) (below : target <+: root) :
    root = target :=
  eq_of_leaf leaf (node_scanRoot starts) below

private theorem tally_scans_target
    (leaf : before.isDirAt target = false) (outside : ¬ source <+: target) :
    before.tally {loc | (root <+: loc ∧ ¬ source <+: loc) ∧
        target <+: loc} =
      if root <+: target then weight (before.view target) else 0 := by
  split
  · rename_i inside
    rw [← tally_leaf leaf]
    apply tally_congr
    intro loc file
    simp only [Set.mem_ofPred_eq, and_iff_right_iff_imp]
    intro below
    rw [eq_of_leaf leaf (node_of_weight file) below]
    exact ⟨inside, outside⟩
  · rename_i elsewhere
    rw [tally_eq_zero_iff]
    rintro loc ⟨⟨below, _⟩, under⟩
    rcases List.prefix_or_prefix_of_prefix below under with down | up
    · exact absurd down elsewhere
    · rw [root_of_leaf starts leaf up] at elsewhere
      exact absurd List.prefix_rfl elsewhere

private theorem tally_scans_arrived (leaf : before.isDirAt target = false) :
    before.tally {loc | source <+: loc ∧
        root <+: target ++ loc.drop source.length} =
      if root <+: target then before.tally {loc | source <+: loc} else 0 := by
  split
  · rename_i inside
    congr 1
    ext loc
    exact and_iff_left (inside.trans (List.prefix_append _ _))
  · rename_i elsewhere
    rw [tally_eq_zero_iff]
    rintro loc ⟨_, below⟩
    rcases List.prefix_or_prefix_of_prefix below
        (List.prefix_append target (loc.drop source.length)) with down | up
    · exact absurd down elsewhere
    · rw [root_of_leaf starts leaf up] at elsewhere
      exact absurd List.prefix_rfl elsewhere

end Moves

/-- A move that takes or replaces none of the lookups: the total loses what
was below the source and what was at the target, and gets what was below the
source if the target is scanned. -/
theorem scanTotal_moved {source target : Loc}
    (node : ∀ loc, after.node loc = before.movedNode source target loc)
    (inode : after.inode = before.inode) (nonroot : source ≠ [])
    (leaf : before.isDirAt target = false) (outside : ¬ source <+: target)
    (off : ∀ place ∈ before.lookups path, ¬ source <+: place ∧ ¬ target <+: place) :
    after.scanTotal path +
        (if before.Scans path source then
          before.tally {loc | source <+: loc} else 0) +
        (if before.Scans path target then
          weight (before.view target) else 0) =
      before.scanTotal path +
        if before.Scans path target then
          before.tally {loc | source <+: loc} else 0 := by
  have same : after.scanRoot path = before.scanRoot path := by
    apply scanRoot_same
    intro place seen
    rw [node, movedNode, if_neg (off place seen).2, if_neg (off place seen).1]
  cases starts : before.scanRoot path with
  | none =>
    rw [starts] at same
    simp [FileSys.scanTotal, same, starts, scans_of_none starts]
  | some root =>
    have others :
        before.tally {loc | (root <+: loc ∧ ¬ source <+: loc) ∧
            ¬ target <+: loc} =
          before.tally {loc | root <+: loc ∧ ¬ target <+: loc ∧
            ¬ source <+: loc} := by
      congr 1
      ext loc
      exact and_assoc.trans (and_congr_right fun _ => and_comm)
    have old :
        before.scanTotal path =
          (if root <+: source then
            before.tally {loc | source <+: loc} else 0) +
          ((if root <+: target then weight (before.view target) else 0) +
            before.tally {loc | root <+: loc ∧ ¬ target <+: loc ∧
              ¬ source <+: loc}) := by
      rw [← tally_scans_below starts nonroot fun place seen =>
          (off place seen).1,
        ← tally_scans_target starts leaf outside, ← others,
        scanTotal_eq_tally, scans_of_root starts,
        before.tally_split {loc | root <+: loc} {loc | source <+: loc}]
      congr 1
      exact before.tally_split {loc | root <+: loc ∧ ¬ source <+: loc} {loc | target <+: loc}
    have new :
        after.scanTotal path =
          (if root <+: target then
            before.tally {loc | source <+: loc} else 0) +
          before.tally {loc | root <+: loc ∧ ¬ target <+: loc ∧
            ¬ source <+: loc} := by
      rw [← tally_scans_arrived starts leaf, scanTotal_eq_tally, scans_of_root (same.trans starts)]
      exact tally_moved node inode {loc | root <+: loc}
    simp only [scans_of_root starts]
    rw [old, new]
    ring

end FileSys

end Sshserv.Lib.FileTree
