import Sshserv.Lib.FileTree

/-!
# Properties of path resolution

Where a walk can end, how it composes, how it depends on the link budget, and
how it reacts to a change of the tree in one place.  Every proof is an instance
of `FileSys.walk_induction`.
-/

namespace Sshserv.Lib.FileTree

open Lib.UnixPath

namespace FileSys

/-- What an outcome says about the tree. -/
def Sound (fs : FileSys) : Outcome → Prop
  | .found loc _ => fs.isDirAt loc = true ∨ ∃ ino, fs.node loc = some (.file ino)
  | .missing parent text _ => fs.isDirAt parent = true ∧ fs.node (parent ++ [text]) = none
  | .absent loc => fs.node loc = none
  | .notDir => True
  | .loop => True

theorem walk_sound (fs : FileSys) (limit : Nat) (dest : Loc) (path : List Elem)
    (directory : fs.isDirAt dest) :
    fs.Sound (fs.walk limit dest path) := by
  revert directory
  refine walk_induction
    (motive := fun limit dest path =>
      fs.isDirAt dest = true → fs.Sound (fs.walk limit dest path))
    ?_ ?_ ?_ ?_ limit dest path
  · intro limit dest directory
    rw [walk_nil]
    exact Or.inl directory
  · intro limit dest rest tail directory
    rw [walk_cur]
    exact tail directory
  · intro limit dest rest tail directory
    rw [walk_up]
    exact tail (isDirAt_dropLast directory)
  · intro limit dest text rest tail smaller directory
    rw [walk_name]
    cases entry : fs.node (dest ++ [text]) with
    | none =>
      by_cases last : rest = []
      · simp only [last, if_true]
        exact ⟨directory, entry⟩
      · simp only [last, if_false]
        exact entry
    | some node =>
      cases node with
      | dir attr => exact tail (isDirAt_of_node_dir entry)
      | file ino =>
        by_cases last : rest = []
        · simp only [last, if_true]
          exact Or.inr ⟨ino, entry⟩
        · simp only [last, if_false]
          trivial
      | symlink target attr =>
        cases limit with
        | zero => trivial
        | succ limit => exact smaller limit _ _ rfl (isDirAt_linkStart directory target)

/-- Every name of the outcome comes from the path or from a link. -/
def OutcomeProper : Outcome → Prop
  | .found loc _ => ProperNames loc
  | .missing parent text _ => ProperNames parent ∧ Proper text
  | _ => True

theorem walk_proper (fs : FileSys) (limit : Nat) (dest : Loc) (path : List Elem)
    (destProper : ProperNames dest) (pathProper : ∀ text, Elem.name text ∈ path → Proper text) :
    OutcomeProper (fs.walk limit dest path) := by
  revert destProper pathProper
  refine walk_induction
    (motive := fun limit dest path =>
      ProperNames dest →
      (∀ text, Elem.name text ∈ path → Proper text) → OutcomeProper (fs.walk limit dest path))
    ?_ ?_ ?_ ?_ limit dest path
  · intro limit dest destProper _
    rw [walk_nil]
    exact destProper
  · intro limit dest rest tail destProper pathProper
    rw [walk_cur]
    exact tail destProper fun text member =>
      pathProper text (List.mem_cons_of_mem _ member)
  · intro limit dest rest tail destProper pathProper
    rw [walk_up]
    exact tail
      (fun text member => destProper text (List.mem_of_mem_dropLast member))
      fun text member => pathProper text (List.mem_cons_of_mem _ member)
  · intro limit dest text rest tail smaller destProper pathProper
    have textProper : Proper text := pathProper text List.mem_cons_self
    have restProper : ∀ piece, Elem.name piece ∈ rest → Proper piece :=
      fun piece member => pathProper piece (List.mem_cons_of_mem _ member)
    have nextProper : ProperNames (dest ++ [text]) :=
      List.forall_mem_append.mpr ⟨destProper, List.forall_mem_singleton.mpr textProper⟩
    rw [walk_name]
    cases fs.node (dest ++ [text]) with
    | none =>
      by_cases last : rest = []
      · simp only [last, if_true]
        exact ⟨destProper, textProper⟩
      · simp only [last, if_false]
        trivial
    | some node =>
      cases node with
      | dir attr => exact tail nextProper restProper
      | file ino =>
        by_cases last : rest = []
        · simp only [last, if_true]
          exact nextProper
        · simp only [last, if_false]
          trivial
      | symlink target attr =>
        cases limit with
        | zero => trivial
        | succ limit =>
          refine smaller limit _ _ rfl ?_ ?_
          · unfold linkStart
            split
            · simp
            · exact destProper
          · intro piece member
            rcases List.mem_append.mp member with inTarget | inRest
            · exact proper_of_name_mem_elems inTarget
            · exact restProper piece inRest

def extend (fs : FileSys) (outcome : Outcome) (more : List Elem) : Outcome :=
  if more = [] then outcome
  else
    match outcome with
    | .found loc left => if fs.isDirAt loc then fs.walk left loc more else .notDir
    | .missing parent text _ => .absent (parent ++ [text])
    | .absent loc => .absent loc
    | .notDir => .notDir
    | .loop => .loop

theorem walk_append (fs : FileSys) (limit : Nat) (dest : Loc) (path more : List Elem)
    (directory : fs.isDirAt dest) :
    fs.walk limit dest (path ++ more) = fs.extend (fs.walk limit dest path) more := by
  by_cases done : more = []
  · simp [done, extend]
  revert directory
  refine walk_induction
    (motive := fun limit dest path =>
      fs.isDirAt dest = true →
        fs.walk limit dest (path ++ more) = fs.extend (fs.walk limit dest path) more)
    ?_ ?_ ?_ ?_ limit dest path
  · intro limit dest directory
    simp [extend, done, directory]
  · intro limit dest rest tail directory
    simpa using tail directory
  · intro limit dest rest tail directory
    simpa using tail (isDirAt_dropLast directory)
  · intro limit dest text rest tail smaller directory
    rw [List.cons_append, walk_name, walk_name]
    have longer : rest ++ more ≠ [] := by simp [done]
    cases entry : fs.node (dest ++ [text]) with
    | none =>
      by_cases last : rest = []
      · simp [last, done, extend]
      · simp [last, longer, extend, done]
    | some node =>
      cases node with
      | dir attr => exact tail (isDirAt_of_node_dir entry)
      | file ino =>
        by_cases last : rest = []
        · have notDir : fs.isDirAt (dest ++ [text]) = false := by
            simp [isDirAt, entry, Node.isDir]
          simp [last, done, extend, notDir]
        · simp [last, longer, extend, done]
      | symlink target attr =>
        cases limit with
        | zero => simp [follow, extend, done]
        | succ limit =>
          have joined :=
            smaller limit (linkStart dest target)
              (elems target ++ rest) rfl
              (isDirAt_linkStart directory target)
          simpa [follow, List.append_assoc] using joined

def addLeft (more : Nat) : Outcome → Outcome
  | .found loc left => .found loc (left + more)
  | .missing parent text left => .missing parent text (left + more)
  | .absent loc => .absent loc
  | .notDir => .notDir
  | .loop => .loop

theorem walk_mono (fs : FileSys) (more limit : Nat) (dest : Loc) (path : List Elem)
    (terminates : fs.walk limit dest path ≠ .loop) :
    fs.walk (limit + more) dest path = addLeft more (fs.walk limit dest path) := by
  revert terminates
  refine walk_induction
    (motive := fun limit dest path =>
      fs.walk limit dest path ≠ .loop →
        fs.walk (limit + more) dest path = addLeft more (fs.walk limit dest path))
    ?_ ?_ ?_ ?_ limit dest path
  · intro limit dest _
    simp [addLeft]
  · intro limit dest rest tail terminates
    rw [walk_cur] at terminates
    simpa using tail terminates
  · intro limit dest rest tail terminates
    rw [walk_up] at terminates
    simpa using tail terminates
  · intro limit dest text rest tail smaller terminates
    rw [walk_name] at terminates
    rw [walk_name, walk_name]
    cases entry : fs.node (dest ++ [text]) with
    | none =>
      by_cases last : rest = []
      · simp [last, addLeft]
      · simp [last, addLeft]
    | some node =>
      rw [entry] at terminates
      cases node with
      | dir attr => exact tail terminates
      | file ino =>
        by_cases last : rest = []
        · simp [last, addLeft]
        · simp [last, addLeft]
      | symlink target attr =>
        cases limit with
        | zero => simp [follow] at terminates
        | succ limit =>
          have grown := smaller limit (linkStart dest target) (elems target ++ rest) rfl terminates
          simpa [follow, Nat.add_right_comm limit 1 more] using grown

variable {fs before after : FileSys} {limit more left : Nat}
    {path : List Elem} {dest loc parent : Loc} {changed : Loc → Prop} {text : Str}

theorem walk_found_of_le (within : limit ≤ more)
    (found : fs.walk limit dest path = .found loc left) :
    ∃ rest, fs.walk more dest path = .found loc rest := by
  have grown := fs.walk_mono (more - limit) limit dest path (by simp [found])
  rw [found, Nat.add_sub_cancel' within] at grown
  exact ⟨left + (more - limit), grown⟩

/-- A walk that does not give up leads wherever one with another budget
leads. -/
theorem walk_found_of_terminates {budget : Nat} (terminates : fs.walk limit dest path ≠ .loop)
    (found : fs.walk budget dest path = .found loc more) :
    ∃ left, fs.walk limit dest path = .found loc left := by
  rcases Nat.le_total budget limit with within | within
  · exact walk_found_of_le within found
  · have grown := fs.walk_mono (budget - limit) limit dest path terminates
    rw [Nat.add_sub_cancel' within, found] at grown
    cases outcome : fs.walk limit dest path with
    | found place left =>
      rw [outcome, addLeft, Outcome.found.injEq] at grown
      exact ⟨left, by rw [grown.1]⟩
    | missing place text left => simp [outcome, addLeft] at grown
    | absent place => simp [outcome, addLeft] at grown
    | notDir => simp [outcome, addLeft] at grown
    | loop => exact absurd outcome terminates

theorem walk_found_unique {other : Loc} {rest : Nat}
    (found : fs.walk limit dest path = .found loc left)
    (otherFound : fs.walk more dest path = .found other rest) :
    loc = other := by
  rcases Nat.le_total limit more with within | within
  · obtain ⟨_, same⟩ := walk_found_of_le within found
    rw [otherFound] at same
    simp only [Outcome.found.injEq] at same
    exact same.1.symm
  · obtain ⟨_, same⟩ := walk_found_of_le within otherFound
    rw [found] at same
    simp only [Outcome.found.injEq] at same
    exact same.1

/-- Two trees that agree outside of some locations resolve a path alike, or
both walks come by such a location. -/
theorem walk_agree_or_visit (agree : ∀ loc, ¬ changed loc → after.node loc = before.node loc)
    (limit : Nat) (dest : Loc) (path : List Elem) :
    after.walk limit dest path = before.walk limit dest path ∨
      ∃ left parent text rest, left ≤ limit ∧ changed (parent ++ [text]) ∧
        before.walk limit dest path = before.walk left parent (.name text :: rest) ∧
        after.walk limit dest path = after.walk left parent (.name text :: rest) := by
  refine walk_induction
    (motive := fun limit dest path =>
      after.walk limit dest path = before.walk limit dest path ∨
        ∃ left parent text rest, left ≤ limit ∧ changed (parent ++ [text]) ∧
          before.walk limit dest path = before.walk left parent (.name text :: rest) ∧
          after.walk limit dest path = after.walk left parent (.name text :: rest))
    ?_ ?_ ?_ ?_ limit dest path
  · intro limit dest
    simp
  · intro limit dest rest tail
    simpa using tail
  · intro limit dest rest tail
    simpa using tail
  · intro limit dest text rest tail smaller
    by_cases here : changed (dest ++ [text])
    · exact Or.inr ⟨limit, dest, text, rest, le_rfl, here, rfl, rfl⟩
    · rw [walk_name before, walk_name after, agree (dest ++ [text]) here]
      cases entry : before.node (dest ++ [text]) with
      | none => simp
      | some node =>
        cases node with
        | dir attr => exact tail
        | file other => simp
        | symlink target attr =>
          cases limit with
          | zero => simp [follow]
          | succ limit =>
            rcases smaller limit (linkStart dest target) (elems target ++ rest) rfl with
              same | ⟨left, parent, piece, more, bound, visit⟩
            · exact Or.inl same
            · exact Or.inr ⟨left, parent, piece, more, by omega, visit⟩

theorem stuckAt_of_absent (absent : fs.node (parent ++ [text]) = none) (limit : Nat)
    (rest : List Elem) :
    (fs.walk limit parent (.name text :: rest)).stuckAt = some (parent ++ [text]) := by
  rw [walk_name, absent]
  by_cases last : rest = []
  · simp [last, Outcome.stuckAt]
  · simp [last, Outcome.stuckAt]

theorem node_of_stuckAt (stuck : (fs.walk limit [] path).stuckAt = some loc) :
    fs.node loc = none := by
  have sound := fs.walk_sound limit [] path fs.isDirAt_root
  cases outcome : fs.walk limit [] path with
  | missing parent text left =>
    rw [outcome] at stuck sound
    cases stuck
    exact sound.2
  | absent place =>
    rw [outcome] at stuck sound
    cases stuck
    exact sound
  | found place left => simp [outcome, Outcome.stuckAt] at stuck
  | notDir => simp [outcome, Outcome.stuckAt] at stuck
  | loop => simp [outcome, Outcome.stuckAt] at stuck

theorem parent_dir_of_stuckAt (limit : Nat) (dest : Loc) (path : List Elem)
    (directory : fs.isDirAt dest) (stuck : (fs.walk limit dest path).stuckAt = some loc) :
    ∃ parent text, loc = parent ++ [text] ∧ fs.isDirAt parent = true ∧ fs.node loc = none := by
  revert directory stuck
  refine walk_induction
    (motive := fun limit dest path =>
      fs.isDirAt dest = true →
        (fs.walk limit dest path).stuckAt = some loc →
          ∃ parent text, loc = parent ++ [text] ∧ fs.isDirAt parent = true ∧ fs.node loc = none)
    ?_ ?_ ?_ ?_ limit dest path
  · intro limit dest directory stuck
    simp [Outcome.stuckAt] at stuck
  · intro limit dest rest tail directory stuck
    rw [walk_cur] at stuck
    exact tail directory stuck
  · intro limit dest rest tail directory stuck
    rw [walk_up] at stuck
    exact tail (isDirAt_dropLast directory) stuck
  · intro limit dest text rest tail smaller directory stuck
    cases entry : fs.node (dest ++ [text]) with
    | none =>
      rw [stuckAt_of_absent entry, Option.some.injEq] at stuck
      exact ⟨dest, text, stuck.symm, directory, stuck ▸ entry⟩
    | some node =>
      rw [walk_name, entry] at stuck
      cases node with
      | dir attr => exact tail (isDirAt_of_node_dir entry) stuck
      | file ino => by_cases last : rest = [] <;> simp [last, Outcome.stuckAt] at stuck
      | symlink target attr =>
        cases limit with
        | zero => simp [follow, Outcome.stuckAt] at stuck
        | succ limit =>
          exact smaller limit (linkStart dest target)
            (elems target ++ rest) rfl
            (isDirAt_linkStart directory target) stuck

theorem walk_changed_absent (agree : ∀ loc, ¬ changed loc → after.node loc = before.node loc)
    (absent : ∀ loc, changed loc → before.node loc = none) (limit : Nat)
    (dest : Loc) (path : List Elem) :
    after.walk limit dest path = before.walk limit dest path ∨
      ∃ loc, (before.walk limit dest path).stuckAt = some loc ∧ changed loc := by
  rcases walk_agree_or_visit agree limit dest path with
    same | ⟨left, parent, text, rest, _, here, visit, _⟩
  · exact Or.inl same
  · refine Or.inr ⟨parent ++ [text], ?_, here⟩
    rw [visit]
    exact stuckAt_of_absent (absent _ here) left rest

/-- No walk that comes by `loc` ends in a directory. -/
def NeverDir (fs : FileSys) (loc : Loc) : Prop :=
  ∀ parent text, loc = parent ++ [text] →
    ∀ budget rest found more,
      fs.walk budget parent (.name text :: rest) = .found found more → fs.isDirAt found = false

theorem neverDir_of_absent (absent : fs.node loc = none) : fs.NeverDir loc := by
  rintro parent text rfl budget rest found more walked
  have stuck := stuckAt_of_absent absent budget rest
  simp [walked, Outcome.stuckAt] at stuck

theorem neverDir_of_file {ino : Nat} (entry : fs.node loc = some (.file ino)) :
    fs.NeverDir loc := by
  rintro parent text rfl budget rest found more walked
  rw [walk_name, entry] at walked
  by_cases last : rest = []
  · simp only [last, if_true, Outcome.found.injEq] at walked
    rw [← walked.1]
    simp [isDirAt, entry, Node.isDir]
  · simp [last] at walked

theorem neverDir_of_walk (directory : fs.isDirAt parent)
    (terminates : fs.walk limit parent [.name text] ≠ .loop) (notDir :
      ∀ loc left, fs.walk limit parent [.name text] = .found loc left → fs.isDirAt loc = false) :
    fs.NeverDir (parent ++ [text]) := by
  intro other piece equal budget rest found more walked
  obtain ⟨rfl, same⟩ := List.append_inj' equal rfl
  obtain rfl : text = piece := by simpa using same
  have split := fs.walk_append budget parent [.name text] rest directory
  rw [List.singleton_append, walked] at split
  by_cases done : rest = []
  · subst done
    obtain ⟨left, leads⟩ := walk_found_of_terminates terminates walked
    exact notDir found left leads
  · -- more elements follow: the entry itself would have to be a directory
    cases outcome : fs.walk budget parent [.name text] with
    | found loc remaining =>
      obtain ⟨left, leads⟩ := walk_found_of_terminates terminates outcome
      simp [outcome, extend, done, notDir loc left leads] at split
    | missing place piece remaining => simp [outcome, extend, done] at split
    | absent place => simp [outcome, extend, done] at split
    | notDir => simp [outcome, extend, done] at split
    | loop => simp [outcome, extend, done] at split

theorem not_found_through_itself {leaf : Loc} {budget : Nat} (directory : fs.isDirAt parent)
    (found : fs.walk limit parent [.name text] = .found leaf left)
    (notDir : fs.isDirAt leaf = false) (smaller : budget < limit) (rest : List Elem) :
    fs.walk budget parent (.name text :: rest) ≠ .found leaf left := by
  intro again
  have split := fs.walk_append budget parent [.name text] rest directory
  rw [List.singleton_append, again] at split
  cases outcome : fs.walk budget parent [.name text] with
  | found loc remaining =>
    have grown := fs.walk_mono (limit - budget) budget parent [.name text] (by simp [outcome])
    rw [Nat.add_sub_cancel' smaller.le, found, outcome, addLeft, Outcome.found.injEq] at grown
    by_cases done : rest = []
    · simp only [outcome, extend, done, if_true, Outcome.found.injEq] at split
      omega
    · simp [outcome, extend, done, ← grown.1, notDir] at split
  | missing place piece remaining =>
    by_cases done : rest = [] <;> simp [outcome, extend, done] at split
  | absent place => by_cases done : rest = [] <;> simp [outcome, extend, done] at split
  | notDir => by_cases done : rest = [] <;> simp [outcome, extend, done] at split
  | loop => by_cases done : rest = [] <;> simp [outcome, extend, done] at split

/-- A change of entries that lead to no directory disturbs no walk to a
directory. -/
theorem walk_dir_of_neverDir (agree : ∀ loc, ¬ changed loc → after.node loc = before.node loc)
    (never : ∀ loc, changed loc → before.NeverDir loc)
    (found : before.walk limit dest path = .found loc left) (directory : before.isDirAt loc) :
    after.walk limit dest path = .found loc left := by
  rcases walk_agree_or_visit agree limit dest path with
    same | ⟨_, parent, text, rest, _, here, visit, _⟩
  · rw [same, found]
  · rw [found] at visit
    have leaf := never _ here parent text rfl _ _ _ _ visit.symm
    rw [directory] at leaf
    cases leaf

end FileSys

end Sshserv.Lib.FileTree
