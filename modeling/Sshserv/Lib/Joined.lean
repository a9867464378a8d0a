import Sshserv.Lib.Lexical

/-!
# Joined paths as texts

The entries of a directory that is given by any text, relative or rooted and
as untidy as it may be, are joined to it as `stem` and the name
(`foldl_join`).  Cleaning lengthens no path beyond that (`length_join_le`).
-/

namespace Sshserv.Lib.UnixPath

def relText (names : List Str) : Str :=
  ['/'].intercalate names

def spelled (rooted : Bool) (names : List Str) : Str :=
  if rooted then render names
  else if names = [] then ['.']
  else relText names

/-- The names of a path, by its own root. -/
def namesOf (path : Str) : List Str :=
  cleanNames (isAbs path) path

/-- The text in front of the name in the path of a directory's entry. -/
def stem (path : Str) : Str :=
  if namesOf path = [] then if isAbs path then ['/'] else []
  else clean path ++ ['/']

@[simp]
theorem relText_singleton (text : Str) : relText [text] = text := by
  simp [relText, List.intercalate]

theorem relText_cons_cons (first second : Str) (rest : List Str) :
    relText (first :: second :: rest) = first ++ '/' :: relText (second :: rest) := by
  simp [relText, List.intercalate]

theorem relText_append {first second : List Str} (left : first ≠ []) (right : second ≠ []) :
    relText (first ++ second) = relText first ++ '/' :: relText second := by
  induction first with
  | nil => exact absurd rfl left
  | cons head tail ih =>
    cases tail with
    | nil =>
      obtain ⟨next, rest, rfl⟩ := List.exists_cons_of_ne_nil right
      simp [relText_cons_cons]
    | cons next rest =>
      have step := ih (by simp)
      rw [List.cons_append] at step
      rw [List.cons_append, List.cons_append, relText_cons_cons, relText_cons_cons, step]
      simp

variable {names : List Str}

theorem render_eq_relText (filled : names ≠ []) : render names = '/' :: relText names := by
  rw [render, if_neg filled]
  induction names with
  | nil => exact absurd rfl filled
  | cons head tail ih =>
    cases tail with
    | nil => simp
    | cons next rest =>
      rw [List.flatMap_cons, ih (by simp), relText_cons_cons]
      rfl

theorem clean_eq_spelled (path : Str) : clean path = spelled (isAbs path) (namesOf path) := by
  by_cases rooted : isAbs path = true
  · simp [clean, spelled, namesOf, rooted]
  · simp [clean, spelled, namesOf, relText, Bool.eq_false_iff.mpr rooted]

theorem spelled_append (path : Str) (filled : names ≠ []) :
    spelled (isAbs path) (namesOf path ++ names) = stem path ++ relText names := by
  rw [stem, clean_eq_spelled]
  by_cases empty : namesOf path = []
  · by_cases rooted : isAbs path = true
    · simp [empty, rooted, spelled, render_eq_relText filled]
    · simp [empty, rooted, spelled, filled]
  · by_cases rooted : isAbs path = true
    · simp [empty, rooted, spelled, render_eq_relText, relText_append empty filled]
    · simp [empty, rooted, spelled, relText_append empty filled]

theorem elems_relText (filled : names ≠ []) (proper : ProperNames names) :
    elems (relText names) = names.map .name := by
  rw [elems, relText, List.splitOn_intercalate _
    (fun text member => (proper text member).no_slash) filled]
  exact List.map_congr_left fun text member =>
    elemOf_of_proper (proper text member)

theorem namesOf_clean (path : Str) : namesOf (clean path) = namesOf path := by
  rw [namesOf, isAbs_clean]
  exact cleanNames_clean path

theorem join_eq_spelled {path : Str} (filled : path ≠ []) (text : Str) :
    join path text =
      spelled (isAbs path)
        ((elems text).foldl (cleanStep (isAbs path)) (namesOf path).reverse).reverse := by
  rw [join_of_ne_nil filled, clean_eq_spelled, namesOf, isAbs_append filled,
    cleanNames_append_slash]
  rfl

section Names

variable {names : List Str} (filled : names ≠ []) (proper : ProperNames names)
include filled proper

theorem isAbs_relText : isAbs (relText names) = false := by
  obtain ⟨first, rest, rfl⟩ := List.exists_cons_of_ne_nil filled
  have firstProper := proper first (by simp)
  obtain ⟨char, chars, rfl⟩ := List.exists_cons_of_ne_nil firstProper.nonempty
  have different : char ≠ '/' := by
    rintro rfl
    exact firstProper.no_slash (by simp)
  cases rest with
  | nil => simpa [isAbs] using different
  | cons next rest => simpa [isAbs, relText_cons_cons] using different

theorem foldl_cleanStep_relText (rooted : Bool) (stack : List Str) :
    ((elems (relText names)).foldl (cleanStep rooted) stack).reverse = stack.reverse ++ names := by
  rw [elems_relText filled proper, foldl_cleanStep_names]
  simp

theorem relText_ne_nil : relText names ≠ [] := by
  intro empty
  have read := elems_relText filled proper
  rw [empty] at read
  obtain ⟨first, rest, rfl⟩ := List.exists_cons_of_ne_nil filled
  simp [elems, elemOf] at read

theorem join_relText (path : Str) :
    join path (relText names) = spelled (isAbs path) (namesOf path ++ names) := by
  by_cases empty : path = []
  · subst empty
    rw [join, if_pos rfl, if_neg (relText_ne_nil filled proper), clean_eq_spelled, namesOf,
      isAbs_relText filled proper, cleanNames, foldl_cleanStep_relText filled proper]
    rfl
  · rw [join_eq_spelled empty, foldl_cleanStep_relText filled proper, List.reverse_reverse]

theorem join_relText_eq_stem (path : Str) :
    join path (relText names) = stem path ++ relText names := by
  rw [join_relText filled proper, spelled_append path filled]

theorem namesOf_join (path : Str) :
    isAbs (join path (relText names)) = isAbs path ∧
      namesOf (join path (relText names)) = namesOf path ++ names := by
  by_cases empty : path = []
  · subst empty
    rw [join, if_pos rfl, if_neg (relText_ne_nil filled proper), isAbs_clean, namesOf_clean,
      namesOf, isAbs_relText filled proper, cleanNames, foldl_cleanStep_relText filled proper]
    exact ⟨rfl, rfl⟩
  · rw [join_of_ne_nil empty, isAbs_clean, namesOf_clean, namesOf, isAbs_append empty,
      cleanNames_append_slash, foldl_cleanStep_relText filled proper, List.reverse_reverse]
    exact ⟨rfl, rfl⟩

end Names

theorem foldl_join (filled : names ≠ []) (proper : ProperNames names) (path : Str) :
    names.foldl join path = join path (relText names) := by
  induction names generalizing path with
  | nil => exact absurd rfl filled
  | cons head tail ih =>
    cases tail with
    | nil => simp
    | cons next rest =>
      have tailProper : ProperNames (next :: rest) :=
        fun text member => proper text (List.mem_cons_of_mem head member)
      have headProper : ProperNames [head] :=
        fun text member => proper text (by simp_all)
      obtain ⟨rooted, first⟩ := namesOf_join (List.cons_ne_nil head []) headProper path
      rw [relText_singleton] at rooted first
      rw [List.foldl_cons, ih (by simp) tailProper, join_relText (by simp) tailProper, rooted,
        first, join_relText filled proper]
      simp

def weight (names : List Str) : Nat :=
  (names.map fun text => text.length + 1).sum

@[simp]
theorem weight_nil : weight [] = 0 := rfl

@[simp]
theorem weight_cons (text : Str) (names : List Str) :
    weight (text :: names) = text.length + 1 + weight names := by
  simp [weight]

@[simp]
theorem weight_reverse (names : List Str) : weight names.reverse = weight names := by
  simp [weight, List.sum_reverse]

theorem length_relText (filled : names ≠ []) : (relText names).length + 1 = weight names := by
  induction names with
  | nil => exact absurd rfl filled
  | cons head tail ih =>
    cases tail with
    | nil => simp [weight]
    | cons next rest =>
      have step := ih (by simp)
      rw [weight_cons, ← step, relText_cons_cons]
      simp only [List.length_append, List.length_cons]
      omega

theorem weight_cleanStep (rooted : Bool) (stack : List Str) (piece : Str) :
    weight (cleanStep rooted stack (elemOf piece)) ≤ weight stack + piece.length + 1 := by
  unfold elemOf
  split
  · simp only [cleanStep]
    omega
  split
  · rename_i dots
    subst dots
    cases stack with
    | nil => cases rooted <;> simp [cleanStep, weight]
    | cons top below =>
      simp only [cleanStep]
      split <;> simp <;> omega
  · simp only [cleanStep, weight_cons]
    omega

/-- Reading a text adds at most its own characters and a slash. -/
theorem weight_foldl (rooted : Bool) (stack : List Str) (text : Str) :
    weight ((elems text).foldl (cleanStep rooted) stack) ≤ weight stack + text.length + 1 := by
  have pieces : text.length + 1 = weight (text.splitOn '/') := by
    rw [← length_relText (List.splitOn_ne_nil '/' text), relText, List.intercalate_splitOn]
  have loop (todo : List Str) (stack : List Str) :
      weight ((todo.map elemOf).foldl (cleanStep rooted) stack) ≤ weight stack + weight todo := by
    induction todo generalizing stack with
    | nil => simp [weight]
    | cons piece rest ih =>
      have step := weight_cleanStep rooted stack piece
      have later := ih (cleanStep rooted stack (elemOf piece))
      rw [List.map_cons, List.foldl_cons, weight_cons]
      omega
  have all := loop (text.splitOn '/') stack
  rw [elems]
  omega

theorem length_spelled (rooted : Bool) (filled : names ≠ []) :
    (spelled rooted names).length + (if rooted then 0 else 1) = weight names := by
  have length := length_relText filled
  cases rooted with
  | true => simpa [spelled, render_eq_relText filled] using length
  | false => simpa [spelled, filled] using length

theorem length_stem (path : Str) :
    (stem path).length = weight (namesOf path) + if isAbs path then 1 else 0 := by
  rw [stem, clean_eq_spelled]
  by_cases empty : namesOf path = []
  · cases isAbs path <;> simp [empty]
  · have length := length_spelled (isAbs path) empty
    rw [if_neg empty, List.length_append, List.length_singleton]
    split_ifs at length ⊢ <;> omega

theorem length_spelled_le (rooted : Bool) {bound : Nat}
    (light : weight names ≤ bound + if rooted then 0 else 1) :
    (spelled rooted names).length ≤ max bound 1 := by
  by_cases empty : names = []
  · cases rooted <;> simp [empty, spelled, render]
  · have length := length_spelled rooted empty
    split_ifs at length light <;> omega

theorem length_stem_le (path : Str) : (stem path).length ≤ path.length + 1 := by
  rw [length_stem, namesOf, cleanNames, weight_reverse]
  by_cases rooted : isAbs path = true
  · obtain ⟨rest, rfl⟩ : ∃ rest, path = '/' :: rest := by
      cases path with
      | nil => simp [isAbs] at rooted
      | cons head tail => exact ⟨tail, by simpa [isAbs] using rooted⟩
    have read : elems ('/' :: rest) = .cur :: elems rest := elems_append_slash [] rest
    have bound := weight_foldl true [] rest
    rw [rooted, read, List.foldl_cons, cleanStep, if_pos rfl, List.length_cons]
    rw [weight_nil] at bound
    omega
  · have bound := weight_foldl (isAbs path) [] path
    rw [if_neg rooted]
    rw [weight_nil] at bound
    omega

theorem length_clean_le (path : Str) : (clean path).length ≤ max path.length 1 := by
  have bound := length_stem_le path
  rw [length_stem] at bound
  rw [clean_eq_spelled]
  apply length_spelled_le
  split_ifs at bound ⊢ <;> omega

theorem length_join_le (path text : Str) :
    (join path text).length ≤ max ((stem path).length + text.length) 1 := by
  by_cases empty : path = []
  · subst empty
    rw [join, if_pos rfl]
    split
    · simp
    · have bound := length_clean_le text
      omega
  · have bound := weight_foldl (isAbs path) (namesOf path).reverse text
    rw [weight_reverse] at bound
    rw [join_eq_spelled empty, length_stem]
    apply length_spelled_le
    rw [weight_reverse]
    split_ifs <;> omega

theorem stem_cases (path : Str) : stem path = [] ∨ ∃ before, stem path = before ++ ['/'] := by
  unfold stem
  split
  · split
    · exact Or.inr ⟨[], rfl⟩
    · exact Or.inl rfl
  · exact Or.inr ⟨clean path, rfl⟩

section Parts

variable {names : List Str} (filled : names ≠ []) (proper : ProperNames names)
include filled proper

theorem join_slash_iff (target : Str) :
    join target ('/' :: relText names) = join target (relText names) ↔ target ≠ [] := by
  rw [← render_eq_relText filled]
  by_cases empty : target = []
  · subst empty
    have rendered : render names ≠ [] := by
      simp [render_eq_relText filled]
    have left : join [] (render names) = render names := by
      rw [join, if_pos rfl, if_neg rendered, clean_render proper]
    have right : join [] (relText names) = relText names := by
      rw [join_relText_eq_stem filled proper]
      rfl
    rw [left, right, render_eq_relText filled]
    simp
  · rw [join_of_ne_nil empty, clean_eq_spelled, namesOf, isAbs_append empty,
      cleanNames_append_render _ proper, join_relText filled proper]
    simp [empty, namesOf]

theorem join_ne_of_shorter (target : Str) {text : Str}
    (shorter : text.length < (relText names).length) :
    join target text ≠ join target (relText names) := by
  intro same
  have bound := length_join_le target text
  rw [same, join_relText_eq_stem filled proper, List.length_append] at bound
  -- only the empty text can be joined to something as long as one character
  obtain rfl : text = [] := List.length_eq_zero_iff.mp (by omega)
  have read := (namesOf_join filled proper target).2
  rw [← same] at read
  by_cases empty : target = []
  · subst empty
    rw [join_relText_eq_stem filled proper] at same
    exact relText_ne_nil filled proper same.symm
  · have here : elems [] = [.cur] := by decide
    rw [join_of_ne_nil empty, namesOf_clean, namesOf, isAbs_append empty,
      cleanNames_append_slash, here] at read
    exact filled (by simpa [cleanStep, namesOf] using read)

theorem join_drop_iff (path target : Str) {cut : Nat} (deep : (stem path).length ≤ cut + 1) :
    join target ((stem path ++ relText names).drop cut) = join target (relText names) ↔
      cut ≤ (stem path).length ∧ (target = [] → cut = (stem path).length) := by
  rcases Nat.lt_trichotomy cut (stem path).length with before | here | after
  · -- the part starts with the slash
    rcases stem_cases path with bare | ⟨front, last⟩
    · simp [bare] at before
    have cutAt : cut = front.length := by
      rw [last] at deep before
      simp at deep before
      omega
    have part : (stem path ++ relText names).drop cut = '/' :: relText names := by
      rw [last, cutAt]
      simp
    rw [part, join_slash_iff filled proper]
    constructor
    · intro positive
      exact ⟨before.le, fun empty => absurd empty positive⟩
    · rintro ⟨_, least⟩ empty
      exact absurd (least empty) before.ne
  · rw [here, List.drop_left]
    simp
  · constructor
    · intro same
      refine absurd same (join_ne_of_shorter filled proper target ?_)
      have positive := List.length_pos_iff.mpr (relText_ne_nil filled proper)
      rw [List.length_drop, List.length_append]
      omega
    · rintro ⟨within, _⟩
      omega

end Parts

end Sshserv.Lib.UnixPath
