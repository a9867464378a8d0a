import Sshserv.Lib.UnixPath

/-!
# Lexical containment

A path is lexically below another one when its names continue the names of
the other without a `..`.  A relative clean path has its `..` in front
(`cleanNames_shape`), so cleaning it again changes nothing.
-/

namespace Sshserv.Lib.UnixPath

/-- Proper names on top of some `..`, the innermost first. -/
def Climbed (stack : List Str) : Prop :=
  ∃ names count, stack = names ++ List.replicate count ['.', '.'] ∧ ProperNames names

variable {rooted : Bool} {names : List Str} {home : Str}

theorem cleanStep_climbed {stack : List Str} {elem : Elem} (climbed : Climbed stack)
    (elemProper : ∀ text, elem = .name text → Proper text) :
    Climbed (cleanStep rooted stack elem) := by
  obtain ⟨names, count, rfl, proper⟩ := climbed
  cases elem with
  | cur => exact ⟨names, count, rfl, proper⟩
  | name text =>
    refine ⟨text :: names, count, rfl, ?_⟩
    intro other member
    rcases List.mem_cons.mp member with rfl | before
    · exact elemProper other rfl
    · exact proper other before
  | up =>
    cases names with
    | nil =>
      cases count with
      | zero =>
        cases rooted with
        | true => exact ⟨[], 0, rfl, by simp⟩
        | false => exact ⟨[], 1, rfl, by simp⟩
      | succ count => exact ⟨[], count + 2, rfl, by simp⟩
    | cons top names =>
      have notDots := (proper top List.mem_cons_self).not_dots
      refine ⟨names, count, ?_, fun text member =>
        proper text (List.mem_cons_of_mem top member)⟩
      simp [cleanStep, notDots]

/-- The names of a clean path: first the `..`, then the proper ones. -/
theorem cleanNames_shape (rooted : Bool) (path : Str) :
    ∃ count names, cleanNames rooted path = List.replicate count ['.', '.'] ++ names ∧
      ProperNames names := by
  have loop (todo : List Elem) (stack : List Str) (climbed : Climbed stack)
      (todoProper : ∀ text, Elem.name text ∈ todo → Proper text) :
      Climbed (todo.foldl (cleanStep rooted) stack) := by
    induction todo generalizing stack with
    | nil => exact climbed
    | cons elem rest ih =>
      apply ih
      · exact cleanStep_climbed climbed fun text same =>
          todoProper text (by simp [same])
      · intro text member
        exact todoProper text (List.mem_cons_of_mem elem member)
  obtain ⟨names, count, stack, proper⟩ :=
    loop (elems path) [] ⟨[], 0, rfl, by simp⟩
      fun text member => proper_of_name_mem_elems member
  refine ⟨count, names.reverse, ?_, fun text member =>
    proper text (List.mem_reverse.mp member)⟩
  rw [cleanNames, stack, List.reverse_append, List.reverse_replicate]

private theorem foldl_cleanStep_shape (count : Nat) (proper : ProperNames names) :
    ((List.replicate count ['.', '.'] ++ names).map elemOf).foldl (cleanStep false) [] =
      (List.replicate count ['.', '.'] ++ names).reverse := by
  have dots : elemOf ['.', '.'] = .up := by decide
  have ups (n m : Nat) :
      (List.replicate n Elem.up).foldl (cleanStep false) (List.replicate m ['.', '.']) =
        List.replicate (n + m) ['.', '.'] := by
    induction n generalizing m with
    | zero => simp
    | succ n ih =>
      have step :
          cleanStep false (List.replicate m ['.', '.']) .up =
            List.replicate (m + 1) ['.', '.'] := by
        cases m with
        | zero => rfl
        | succ m => rfl
      rw [List.replicate_succ, List.foldl_cons, step, ih]
      congr 1
      omega
  have pushed (stack : List Str) :
      (names.map elemOf).foldl (cleanStep false) stack = names.reverse ++ stack := by
    clear ups
    induction names generalizing stack with
    | nil => rfl
    | cons head tail ih =>
      rw [List.map_cons, List.foldl_cons,
        elemOf_of_proper (proper head List.mem_cons_self), cleanStep,
        ih fun text member =>
          proper text (List.mem_cons_of_mem head member)]
      simp
  have climbed := ups count 0
  rw [List.replicate_zero, Nat.add_zero] at climbed
  rw [List.map_append, List.map_replicate, dots, List.foldl_append, climbed,
    pushed, List.reverse_append, List.reverse_replicate]

theorem slash_notMem_cleanNames
    {path text : Str} (member : text ∈ cleanNames rooted path) : '/' ∉ text := by
  obtain ⟨count, names, shape, proper⟩ := cleanNames_shape rooted path
  rw [shape] at member
  rcases List.mem_append.mp member with up | name
  · rw [List.eq_of_mem_replicate up]
    decide
  · exact (proper text name).no_slash

theorem ne_nil_of_mem_cleanNames
    {path text : Str} (member : text ∈ cleanNames rooted path) : text ≠ [] := by
  obtain ⟨count, names, shape, proper⟩ := cleanNames_shape rooted path
  rw [shape] at member
  rcases List.mem_append.mp member with up | name
  · rw [List.eq_of_mem_replicate up]
    decide
  · exact (proper text name).nonempty

theorem isAbs_clean (path : Str) : isAbs (clean path) = isAbs path := by
  by_cases rooted : isAbs path = true
  · rw [clean_of_isAbs rooted, isAbs_render, rooted]
  · have relative : isAbs path = false := Bool.eq_false_iff.mpr rooted
    rw [clean, if_neg rooted, relative]
    split
    · rfl
    · next nonempty =>
        cases names : cleanNames false path with
        | nil => exact absurd names nonempty
        | cons first rest =>
          have noSlash : '/' ∉ first := slash_notMem_cleanNames (names ▸ List.mem_cons_self)
          have filled : first ≠ [] := ne_nil_of_mem_cleanNames (names ▸ List.mem_cons_self)
          cases first with
          | nil => exact absurd rfl filled
          | cons char chars =>
            have different : char ≠ '/' := by
              rintro rfl
              exact noSlash List.mem_cons_self
            cases rest <;> simp [isAbs, List.intercalate, different]

theorem clean_ne_nil (path : Str) : clean path ≠ [] := by
  rw [clean]
  split
  · intro empty
    have rooted := isAbs_render (cleanNames true path)
    rw [empty] at rooted
    exact absurd rooted (by decide)
  · split
    · simp
    · next nonempty =>
        cases names : cleanNames false path with
        | nil => exact absurd names nonempty
        | cons first rest =>
          have filled : first ≠ [] := ne_nil_of_mem_cleanNames (names ▸ List.mem_cons_self)
          cases rest <;> simp [List.intercalate, filled]

theorem cleanNames_clean (path : Str) :
    cleanNames (isAbs path) (clean path) = cleanNames (isAbs path) path := by
  by_cases rooted : isAbs path = true
  · rw [clean_of_isAbs rooted, rooted, cleanNames_render (cleanNames_proper path)]
  · have relative : isAbs path = false := Bool.eq_false_iff.mpr rooted
    rw [clean, if_neg rooted, relative]
    split
    · next empty =>
        rw [empty]
        decide
    · next nonempty =>
        obtain ⟨count, names, shape, proper⟩ := cleanNames_shape false path
        have read :
            elems (['/'].intercalate (cleanNames false path)) =
              (cleanNames false path).map elemOf := by
          rw [elems, List.splitOn_intercalate _
            (fun text member => slash_notMem_cleanNames member) nonempty]
        rw [cleanNames, read, shape, foldl_cleanStep_shape count proper, List.reverse_reverse]

/-- The names continue those of a directory, without a `..`. -/
def NamesBelow (home names : List Str) : Prop :=
  home <+: names ∧ ['.', '.'] ∉ names.drop home.length

instance (home names : List Str) : Decidable (NamesBelow home names) :=
  inferInstanceAs (Decidable (_ ∧ _))

/-- A path is lexically a directory or below it.  An empty text is no
path. -/
def Below (home path : Str) : Prop :=
  path ≠ [] ∧ isAbs path = isAbs home ∧
    NamesBelow (cleanNames (isAbs home) home) (cleanNames (isAbs home) path)

instance (home path : Str) : Decidable (Below home path) :=
  inferInstanceAs (Decidable (_ ∧ _ ∧ _))

/-- The elements of a text, followed from a directory, lead to the directory
or below it. -/
def LeadsBelow (home text : Str) : Prop :=
  NamesBelow (cleanNames (isAbs home) home)
    ((elems text).foldl (cleanStep (isAbs home)) (cleanNames (isAbs home) home).reverse).reverse

theorem namesBelow_append {home : List Str} (proper : ProperNames names) :
    NamesBelow home (home ++ names) := by
  refine ⟨List.prefix_append home names, ?_⟩
  rw [List.drop_left]
  intro member
  exact (proper _ member).not_dots rfl

theorem isAbs_append (nonempty : home ≠ []) (rest : Str) : isAbs (home ++ rest) = isAbs home := by
  cases home with
  | nil => exact absurd rfl nonempty
  | cons head tail => rfl

theorem join_of_ne_nil (nonempty : home ≠ []) (text : Str) :
    join home text = clean (home ++ '/' :: text) := by
  rw [join, if_neg nonempty]

theorem below_join_iff (nonempty : home ≠ []) (text : Str) :
    Below home (join home text) ↔ LeadsBelow home text := by
  have rooted := isAbs_append nonempty ('/' :: text)
  have names := cleanNames_clean (home ++ '/' :: text)
  rw [rooted] at names
  rw [Below, join_of_ne_nil nonempty, isAbs_clean, rooted, names,
    cleanNames_append_slash, and_iff_right (clean_ne_nil _)]
  exact and_iff_right rfl

theorem below_join_render (nonempty : home ≠ []) (proper : ProperNames names) :
    Below home (join home (render names)) := by
  have rooted := isAbs_append nonempty ('/' :: render names)
  have cleaned := cleanNames_clean (home ++ '/' :: render names)
  rw [rooted, cleanNames_append_render home proper] at cleaned
  rw [Below, join_of_ne_nil nonempty, isAbs_clean, rooted, cleaned]
  exact ⟨clean_ne_nil _, rfl, namesBelow_append proper⟩

end Sshserv.Lib.UnixPath
