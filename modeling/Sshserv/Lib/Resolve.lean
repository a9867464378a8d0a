import Sshserv.Lib.Syscall
import Sshserv.Lib.Walk

/-!
# Resolution of paths

What the system calls of a tree see of a path that is the rendering of a list
of names, and how the resolutions with different link budgets are related.
-/

namespace Sshserv.Lib.FileTree

open Lib.UnixPath

namespace FileSys

variable {fs : FileSys}

/-- Following some number of links, `path` leads to the object at `loc`. -/
def ResolvesTo (fs : FileSys) (path : Str) (loc : Loc) : Prop :=
  ∃ limit left, fs.walk limit [] (elems path) = .found loc left

variable {names loc : Loc} {text path : Str} {left : Nat}

theorem walk_elems_render (limit : Nat) (proper : ProperNames names) :
    fs.walk limit [] (elems (render names)) = fs.walk limit [] (names.map .name) := by
  rw [elems_render proper]
  by_cases empty : names = []
  · simp [empty]
  · simp [empty]

theorem walk_names_concat (limit : Nat) (names : Loc) (text : Str) :
    fs.walk limit [] ((names ++ [text]).map .name) =
      fs.extend (fs.walk limit [] (names.map .name)) [.name text] := by
  rw [List.map_append]
  exact fs.walk_append limit [] (names.map .name) [.name text] fs.isDirAt_root

/-- The walk to a path breaks off at the first name that the directory it has
reached does not hold. -/
theorem stuckAt_render_below {base place more : Loc} (proper : ProperNames (base ++ text :: more))
    (resolved : fs.resolve (render base) = .found place left) (directory : fs.isDirAt place)
    (absent : fs.node (place ++ [text]) = none) :
    (fs.resolve (render (base ++ text :: more))).stuckAt = some (place ++ [text]) := by
  have baseProper : ProperNames base := proper.left
  rw [resolve, walk_elems_render _ baseProper] at resolved
  rw [resolve, walk_elems_render _ proper, List.map_append,
    walk_append _ _ _ _ _ fs.isDirAt_root, resolved, List.map_cons]
  simp only [extend, reduceCtorEq, if_false, directory, if_true]
  exact stuckAt_of_absent absent left _

theorem stuckAt_above {part : Loc} (proper : ProperNames names)
    (found : fs.resolve (render names) = .found loc left) (shorter : part <+: names) :
    (fs.resolve (render part)).stuckAt = none := by
  obtain ⟨rest, rfl⟩ := shorter
  have partProper : ProperNames part := proper.left
  rw [resolve, walk_elems_render _ proper, List.map_append,
    walk_append _ _ _ _ _ fs.isDirAt_root] at found
  rw [resolve, walk_elems_render _ partProper]
  cases walked : fs.walk kernelLinkLimit [] (part.map .name) with
  | missing parent text rest =>
    rw [walked] at found
    simp only [extend] at found
    split at found
    · cases found
    · cases found
  | absent loc =>
    rw [walked] at found
    simp only [extend] at found
    split at found
    · cases found
    · cases found
  | _ => rfl

theorem entryOf_render_concat (proper : ProperNames (names ++ [text])) :
    fs.entryOf (render (names ++ [text])) =
      match (fs.walk kernelLinkLimit [] (names.map .name)).located with
      | .ok parent => if fs.isDirAt parent then .ok (parent, text) else .error .notDir
      | .error err => .error err := by
  have read : elems (render (names ++ [text])) = (.cur :: names.map .name) ++ [.name text] := by
    simp [elems_render proper]
  have nonempty : render (names ++ [text]) ≠ [] := by
    intro empty
    simpa [empty, isAbs] using isAbs_render (names ++ [text])
  cases parent : (fs.walk kernelLinkLimit [] (names.map .name)).located with
  | ok loc =>
    simp only [entryOf, nonempty, if_false, read, List.getLast?_concat,
      List.dropLast_concat, walk_cur, parent]
  | error err =>
    simp only [entryOf, nonempty, if_false, read, List.getLast?_concat,
      List.dropLast_concat, walk_cur, parent]

theorem walk_physical_dir (limit : Nat) (directory : fs.isDirAt loc) :
    fs.walk limit [] (loc.map .name) = .found loc limit := by
  induction loc using List.reverseRecOn with
  | nil => simp
  | append_singleton parent text ih =>
    have parentDir : fs.isDirAt parent = true := by
      simpa using isDirAt_dropLast directory
    obtain ⟨attr, entry⟩ := isDirAt_iff.mp directory
    rw [walk_names_concat, ih parentDir]
    simp [extend, parentDir, walk_name, entry]

theorem walk_physical (limit : Nat)
    (present : fs.isDirAt loc = true ∨ ∃ ino, fs.node loc = some (.file ino)) :
    fs.walk limit [] (loc.map .name) = .found loc limit := by
  rcases present with directory | ⟨ino, entry⟩
  · exact walk_physical_dir limit directory
  rcases List.eq_nil_or_concat loc with rfl | ⟨parent, text, rfl⟩
  · simp
  · rw [List.concat_eq_append] at entry ⊢
    have parentDir : fs.isDirAt parent = true := isDirAt_of_child text (by simp [entry])
    rw [walk_names_concat, walk_physical_dir limit parentDir]
    simp [extend, parentDir, walk_name, entry]

theorem entryLoc_physical (proper : ProperNames loc) (present : fs.node loc ≠ none) :
    fs.entryLoc (render loc) = .ok loc := by
  rcases List.eq_nil_or_concat loc with rfl | ⟨parent, text, rfl⟩
  · have read : elems (render []) = [.cur, .cur] := by decide
    have nonempty : render [] ≠ [] := by decide
    simp [entryLoc, entryOf, resolve, read, nonempty, Outcome.located]
  · rw [List.concat_eq_append] at *
    have parentDir : fs.isDirAt parent = true := isDirAt_of_child text present
    rw [entryLoc, entryOf_render_concat proper, walk_physical_dir kernelLinkLimit parentDir]
    simp [Outcome.located, parentDir]

theorem located_eq_ok_iff {outcome : Outcome} :
    outcome.located = .ok loc ↔ ∃ left, outcome = .found loc left := by
  cases outcome <;> simp [Outcome.located]

theorem located_eq_noent_iff {outcome : Outcome} :
    outcome.located = .error .noent ↔ ∃ loc, outcome.stuckAt = some loc := by
  cases outcome <;> simp [Outcome.located, Outcome.stuckAt]

theorem resolvesTo_of_evalLoc (evaluated : fs.evalLoc path = .ok loc) : fs.ResolvesTo path loc := by
  obtain ⟨left, found⟩ := located_eq_ok_iff.mp evaluated
  exact ⟨evalLinkLimit, left, found⟩

theorem resolvesTo_unique {other : Loc} (first : fs.ResolvesTo path loc)
    (second : fs.ResolvesTo path other) :
    loc = other := by
  obtain ⟨_, _, found⟩ := first
  obtain ⟨_, _, otherFound⟩ := second
  exact walk_found_unique found otherFound

theorem walk_stuck_of_le {limit more : Nat} {path : List Elem} {dest : Loc} (within : limit ≤ more)
    (stuck : (fs.walk limit dest path).stuckAt = some loc) :
    (fs.walk more dest path).stuckAt = some loc := by
  have terminates : fs.walk limit dest path ≠ .loop := by
    intro loops
    simp [loops, Outcome.stuckAt] at stuck
  have grown := fs.walk_mono (more - limit) limit dest path terminates
  rw [Nat.add_sub_cancel' within] at grown
  rw [grown]
  cases outcome : fs.walk limit dest path <;> simp_all [addLeft, Outcome.stuckAt]

theorem evalLoc_of_resolve (resolved : fs.resolve path = .found loc left) :
    fs.evalLoc path = .ok loc :=
  located_eq_ok_iff.mpr (walk_found_of_le (by decide : kernelLinkLimit ≤ evalLinkLimit) resolved)

theorem evalLoc_noent_of_missing
    {parent : Loc} (stuck : fs.resolve path = .missing parent text left) :
    fs.evalLoc path = .error .noent :=
  located_eq_noent_iff.mpr
    ⟨parent ++ [text],
      walk_stuck_of_le (by decide : kernelLinkLimit ≤ evalLinkLimit)
        (by rw [← resolve, stuck]; rfl)⟩

theorem evalLoc_of_resolvesTo (resolves : fs.ResolvesTo path loc) :
    fs.evalLoc path = .ok loc ∨ fs.evalLoc path = .error .loop := by
  obtain ⟨limit, left, found⟩ := resolves
  by_cases loops : fs.walk evalLinkLimit [] (elems path) = .loop
  · exact Or.inr (by simp [evalLoc, loops, Outcome.located])
  · exact Or.inl (located_eq_ok_iff.mpr (walk_found_of_terminates loops found))

theorem resolve_render_evalLoc (evaluated : fs.evalLoc path = .ok loc) :
    fs.resolve (render loc) = .found loc kernelLinkLimit := by
  obtain ⟨left, found⟩ := located_eq_ok_iff.mp evaluated
  have proper :=
    fs.walk_proper evalLinkLimit [] (elems path) (by simp)
      fun text member => proper_of_name_mem_elems member
  have sound := fs.walk_sound evalLinkLimit [] (elems path) fs.isDirAt_root
  rw [found] at proper sound
  rw [resolve, walk_elems_render _ proper]
  exact walk_physical kernelLinkLimit sound

theorem evalLoc_present (evaluated : fs.evalLoc path = .ok loc) :
    fs.isDirAt loc = true ∨ ∃ ino, fs.node loc = some (.file ino) := by
  obtain ⟨left, found⟩ := located_eq_ok_iff.mp evaluated
  have sound := fs.walk_sound evalLinkLimit [] (elems path) fs.isDirAt_root
  rw [found] at sound
  exact sound

theorem evalLoc_proper (evaluated : fs.evalLoc path = .ok loc) : ProperNames loc := by
  obtain ⟨left, found⟩ := located_eq_ok_iff.mp evaluated
  have proper :=
    fs.walk_proper evalLinkLimit [] (elems path) (by simp)
      fun text member => proper_of_name_mem_elems member
  rw [found] at proper
  exact proper

end FileSys

end Sshserv.Lib.FileTree
