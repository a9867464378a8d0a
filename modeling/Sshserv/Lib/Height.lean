import Sshserv.Lib.Effects

/-!
# How many names a path can have

A path of plain names that leads somewhere cannot be arbitrarily long: between
two links each name goes one level deeper into the tree, and only a fixed
number of links is followed.
-/

namespace Sshserv.Lib.FileTree.FileSys

open Lib.UnixPath

variable {fs : FileSys}

def height (fs : FileSys) : Nat :=
  fs.locs.sup List.length

variable {loc : Loc} {limit left : Nat}

theorem length_le_height (present : fs.node loc ≠ none) : loc.length ≤ fs.height :=
  Finset.le_sup (f := List.length) ((fs.mem_locs loc).mpr present)

theorem left_le {dest : Loc} {path : List Elem}
    (found : fs.walk limit dest path = .found loc left) : left ≤ limit := by
  revert found
  refine walk_induction
    (motive := fun limit dest path =>
      fs.walk limit dest path = .found loc left → left ≤ limit)
    ?_ ?_ ?_ ?_ limit dest path
  · intro limit dest found
    simp only [walk_nil, Outcome.found.injEq] at found
    exact found.2.ge
  · intro limit dest rest ih found
    rw [walk_cur] at found
    exact ih found
  · intro limit dest rest ih found
    rw [walk_up] at found
    exact ih found
  · intro limit dest text rest ih smaller found
    rw [walk_name] at found
    split at found
    · split at found <;> cases found
    · exact ih found
    · split at found
      · cases found
        exact le_rfl
      · cases found
    · cases limit with
      | zero => cases found
      | succ limit => exact (smaller limit _ _ rfl found).trans (Nat.le_succ _)

/-- One name goes one level deeper, or over a link. -/
theorem walk_one_name {dest : Loc} {text : Str}
    (found : fs.walk limit dest [.name text] = .found loc left) :
    (loc = dest ++ [text] ∧ left = limit) ∨ left < limit := by
  rw [walk_name] at found
  split at found
  · simp at found
  · simp only [walk_nil, Outcome.found.injEq] at found
    exact Or.inl ⟨found.1.symm, found.2.symm⟩
  · simp only [if_true, Outcome.found.injEq] at found
    exact Or.inl ⟨found.1.symm, found.2.symm⟩
  · cases limit with
    | zero => cases found
    | succ limit => exact Or.inr (Nat.lt_succ_of_le (left_le found))

theorem names_le {names : Loc} (found : fs.walk limit [] (names.map Elem.name) = .found loc left) :
    names.length + left * (fs.height + 1) ≤ loc.length + limit * (fs.height + 1) := by
  induction names using List.reverseRecOn generalizing loc left with
  | nil =>
    simp only [List.map_nil, walk_nil, Outcome.found.injEq] at found
    obtain ⟨rfl, rfl⟩ := found
    exact le_rfl
  | append_singleton names text ih =>
    rw [List.map_append, walk_append fs limit [] _ _ fs.isDirAt_root] at found
    cases before : fs.walk limit [] (names.map Elem.name) with
    | found place remaining =>
      have deep := ih before
      have inside := length_le_height (node_ne_none_of_found before)
      simp only [before, extend, List.map_cons, List.map_nil, List.cons_ne_nil, if_false] at found
      split at found
      · rw [List.length_append, List.length_singleton]
        rcases walk_one_name found with ⟨rfl, rfl⟩ | fewer
        · rw [List.length_append, List.length_singleton]
          omega
        · -- The link is worth a way from the root to the bottom.
          have paid : (left + 1) * (fs.height + 1) ≤ remaining * (fs.height + 1) :=
            Nat.mul_le_mul_right _ fewer
          rw [Nat.add_mul, Nat.one_mul] at paid
          omega
      · cases found
    | missing parent piece remaining => simp [before, extend] at found
    | absent place => simp [before, extend] at found
    | notDir => simp [before, extend] at found
    | loop => simp [before, extend] at found

/-- More names than any path that can be resolved has. -/
def longest (fs : FileSys) : Nat :=
  fs.height + kernelLinkLimit * (fs.height + 1)

theorem names_le_longest {names : Loc} (proper : ProperNames names)
    (found : fs.resolve (render names) = .found loc left) :
    names.length ≤ fs.longest := by
  rw [resolve, walk_elems_render _ proper] at found
  have bound := names_le found
  have inside := length_le_height (node_ne_none_of_found found)
  unfold longest
  omega

end Sshserv.Lib.FileTree.FileSys
