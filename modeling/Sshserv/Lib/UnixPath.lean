import Mathlib

/-!
# Lexical operations on slash-separated paths

Paths are lists of characters; a byte is read as the character of its code.
`render` writes a list of names as a rooted path, and every rooted clean path
is the rendering of proper names (`clean_of_isAbs`).  A string prefix is not a
component prefix: the last name may be continued (`renderPrefix_iff`).
-/

namespace Sshserv.Lib.UnixPath

/-- A string of the modelled program. -/
abbrev Str := List Char

/-- One element of a path. -/
inductive Elem where
  | cur
  | up
  | name (text : Str)
  deriving DecidableEq

def elemOf (text : Str) : Elem :=
  if text = [] ∨ text = ['.'] then .cur
  else if text = ['.', '.'] then .up
  else .name text

def elems (path : Str) : List Elem :=
  (path.splitOn '/').map elemOf

def isAbs (path : Str) : Bool :=
  path.head? = some '/'

/-- One element of the lexical cleaning, on a stack with the innermost name
first. -/
def cleanStep (rooted : Bool) (stack : List Str) : Elem → List Str
  | .cur => stack
  | .name text => text :: stack
  | .up =>
    match stack with
    | [] => if rooted then [] else [['.', '.']]
    | top :: below => if top = ['.', '.'] then ['.', '.'] :: top :: below else below

def cleanNames (rooted : Bool) (path : Str) : List Str :=
  ((elems path).foldl (cleanStep rooted) []).reverse

def render (names : List Str) : Str :=
  if names = [] then ['/'] else names.flatMap ('/' :: ·)

def clean (path : Str) : Str :=
  if isAbs path then render (cleanNames true path)
  else if cleanNames false path = [] then ['.']
  else ['/'].intercalate (cleanNames false path)

def join (first second : Str) : Str :=
  if first = [] then
    if second = [] then [] else clean second
  else clean (first ++ '/' :: second)

def dir (path : Str) : Str :=
  clean (path.reverse.dropWhile (· ≠ '/')).reverse

def base (path : Str) : Str :=
  if path = [] then ['.']
  else if path.reverse.dropWhile (· = '/') = [] then ['/']
  else ((path.reverse.dropWhile (· = '/')).takeWhile (· ≠ '/')).reverse

def relNames : List Str → List Str → List Str
  | [], target => target
  | base, [] => base.map fun _ => ['.', '.']
  | first :: base, second :: target =>
    if first = second then relNames base target
    else ['.', '.'] :: base.map (fun _ => ['.', '.']) ++ second :: target

def rel (base target : Str) : Option Str :=
  if isAbs base && isAbs target then
    match relNames (cleanNames true base) (cleanNames true target) with
    | [] => some ['.']
    | names => some (['/'].intercalate names)
  else none

/-- A name that can be an entry of a directory. -/
structure Proper (text : Str) : Prop where
  nonempty : text ≠ []
  not_dot : text ≠ ['.']
  not_dots : text ≠ ['.', '.']
  no_slash : '/' ∉ text

@[simp]
abbrev ProperNames (names : List Str) : Prop :=
  ∀ text ∈ names, Proper text

theorem ProperNames.left {first second : List Str} (proper : ProperNames (first ++ second)) :
    ProperNames first :=
  fun text member => proper text (List.mem_append_left _ member)

instance (text : Str) : Decidable (Proper text) :=
  decidable_of_iff
    (text ≠ [] ∧ text ≠ ['.'] ∧ text ≠ ['.', '.'] ∧ '/' ∉ text)
    ⟨fun ⟨nonempty, notDot, notDots, noSlash⟩ =>
      ⟨nonempty, notDot, notDots, noSlash⟩,
     fun proper =>
      ⟨proper.nonempty, proper.not_dot, proper.not_dots, proper.no_slash⟩⟩

variable {path text : Str} {names left right : List Str}

theorem slash_notMem_of_mem_splitOn (member : text ∈ path.splitOn '/') : '/' ∉ text := by
  induction path generalizing text with
  | nil =>
    simp only [List.splitOn_nil, List.mem_singleton] at member
    subst member
    simp
  | cons first rest ih =>
    rw [List.splitOn_cons_eq_if_modifyHead] at member
    by_cases isSlash : first = '/'
    · simp only [isSlash, beq_self_eq_true, if_true, List.mem_cons] at member
      rcases member with rfl | tailMember
      · simp
      · exact ih tailMember
    · simp only [beq_eq_false_iff_ne.mpr isSlash, Bool.false_eq_true, if_false] at member
      cases split : rest.splitOn '/' with
      | nil => exact absurd split (List.splitOn_ne_nil '/' rest)
      | cons head tail =>
        rw [split] at member
        simp only [List.modifyHead_cons, List.mem_cons] at member
        rcases member with rfl | tailMember
        · have headFree : '/' ∉ head := ih (by simp [split])
          simp [Ne.symm isSlash, headFree]
        · exact ih (by simp [split, tailMember])

theorem elemOf_of_proper (proper : Proper text) : elemOf text = .name text := by
  simp [elemOf, proper.nonempty, proper.not_dot, proper.not_dots]

theorem proper_of_name_mem_elems (member : Elem.name text ∈ elems path) : Proper text := by
  simp only [elems, List.mem_map] at member
  obtain ⟨piece, pieceMember, read⟩ := member
  have noSlash := slash_notMem_of_mem_splitOn pieceMember
  unfold elemOf at read
  split at read
  · cases read
  · split at read
    · cases read
    · cases read
      rename_i notCur notUp
      exact ⟨fun empty => notCur (Or.inl empty), fun dot => notCur (Or.inr dot), notUp, noSlash⟩

theorem splitOn_flatMap_slash (names : List Str) (proper : ProperNames names) :
    (names.flatMap ('/' :: ·)).splitOn '/' = [] :: names := by
  cases names with
  | nil => simp
  | cons head tail =>
    have bracket :
        ((head :: tail).flatMap ('/' :: ·)) = ['/'].intercalate ([] :: head :: tail) := by
      clear proper
      induction tail generalizing head with
      | nil => simp [List.intercalate]
      | cons next rest ih =>
        have step := ih next
        simp only [List.flatMap_cons, List.intercalate, List.intersperse, List.flatten] at step ⊢
        simp_all
    rw [bracket, List.splitOn_intercalate]
    · intro text member
      rcases List.mem_cons.mp member with rfl | nameMember
      · simp
      · exact (proper text nameMember).no_slash
    · simp

theorem elems_render (proper : ProperNames names) :
    elems (render names) =
      if names = [] then [.cur, .cur]
      else .cur :: names.map .name := by
  by_cases empty : names = []
  · subst empty
    decide
  · simp only [elems, render, empty, if_false]
    rw [splitOn_flatMap_slash names proper]
    simp only [List.map_cons, List.cons.injEq]
    exact ⟨rfl,
      List.map_congr_left fun text member =>
        elemOf_of_proper (proper text member)⟩

@[simp]
theorem isAbs_render (names : List Str) : isAbs (render names) = true := by
  cases names with
  | nil => rfl
  | cons head tail => rfl

variable {stack : List Str} {first : Str} {rooted : Bool}

private theorem cleanStep_proper {elem : Elem} (stackProper : ProperNames stack)
    (elemProper : ∀ text, elem = .name text → Proper text) :
    ProperNames (cleanStep true stack elem) := by
  cases elem with
  | cur => exact stackProper
  | name added =>
    intro text member
    rcases List.mem_cons.mp member with rfl | stackMember
    · exact elemProper text rfl
    · exact stackProper text stackMember
  | up =>
    cases stack with
    | nil => simp [cleanStep]
    | cons top below =>
      have topProper := stackProper top List.mem_cons_self
      simp only [cleanStep, topProper.not_dots, if_false]
      intro text member
      exact stackProper text (List.mem_cons_of_mem top member)

private theorem foldl_cleanStep_proper {path : List Elem} (stackProper : ProperNames stack)
    (pathProper : ∀ text, Elem.name text ∈ path → Proper text) :
    ProperNames (path.foldl (cleanStep true) stack) := by
  induction path generalizing stack with
  | nil => exact stackProper
  | cons head tail ih =>
    apply ih
    · exact cleanStep_proper stackProper fun text equal =>
        pathProper text (by simp [equal])
    · intro text member
      exact pathProper text (List.mem_cons_of_mem head member)

theorem cleanNames_proper (path : Str) : ProperNames (cleanNames true path) := by
  intro text member
  exact foldl_cleanStep_proper (by simp)
    (fun _ nameMember => proper_of_name_mem_elems nameMember)
    text (List.mem_reverse.mp member)

theorem clean_of_isAbs (rooted : isAbs path) : clean path = render (cleanNames true path) := by
  simp [clean, rooted]

theorem foldl_cleanStep_names (rooted : Bool) (names stack : List Str) :
    (names.map Elem.name).foldl (cleanStep rooted) stack = names.reverse ++ stack := by
  induction names generalizing stack with
  | nil => rfl
  | cons head tail ih => simp [cleanStep, ih]

@[simp]
theorem cleanNames_render (proper : ProperNames names) :
    cleanNames true (render names) = names := by
  rw [cleanNames, elems_render proper]
  by_cases empty : names = []
  · subst empty
    rfl
  · simp only [empty, if_false, List.foldl_cons, cleanStep]
    rw [foldl_cleanStep_names]
    simp

@[simp]
theorem clean_render (proper : ProperNames names) : clean (render names) = render names := by
  rw [clean_of_isAbs (isAbs_render names), cleanNames_render proper]

theorem render_injective (leftProper : ProperNames left)
    (rightProper : ProperNames right) (equal : render left = render right) :
    left = right := by
  rw [← cleanNames_render leftProper, equal, cleanNames_render rightProper]

theorem join_of_isAbs (rooted : isAbs first) (second : Str) :
    join first second = render (cleanNames true (first ++ '/' :: second)) := by
  cases first with
  | nil => simp [isAbs] at rooted
  | cons head tail =>
    have longRooted : isAbs ((head :: tail) ++ '/' :: second) = true := by
      simpa [isAbs] using rooted
    rw [join, if_neg (by simp), clean_of_isAbs longRooted]

private theorem render_append_singleton (names : List Str) (text : Str) :
    render (names ++ [text]) = names.flatMap ('/' :: ·) ++ '/' :: text := by
  simp [render]

private theorem dropWhile_reverse_append (noSlash : '/' ∉ text) (before : Str) :
    ((before ++ '/' :: text).reverse.dropWhile (· ≠ '/')).reverse = before ++ ['/'] := by
  have dropped :
      (text.reverse ++ '/' :: before.reverse).dropWhile (· ≠ '/') = '/' :: before.reverse := by
    rw [List.dropWhile_append_of_pos]
    · simp
    · intro char member
      have different : char ≠ '/' := by
        rintro rfl
        exact noSlash (List.mem_reverse.mp member)
      simpa using different
  simpa using congrArg List.reverse dropped

private theorem cleanNames_trailingSlash (proper : ProperNames names) :
    cleanNames true (names.flatMap ('/' :: ·) ++ ['/']) = names := by
  have split : (names.flatMap ('/' :: ·) ++ '/' :: []).splitOn '/' = ([] :: names) ++ [[]] := by
    rw [List.splitOn_append_cons_self, splitOn_flatMap_slash names proper, List.splitOn_nil]
  have read :
      elems (names.flatMap ('/' :: ·) ++ ['/']) = .cur :: (names.map Elem.name ++ [.cur]) := by
    rw [elems, split]
    simp only [List.cons_append, List.map_cons, List.map_append, List.map_nil]
    refine congrArg₂ List.cons rfl (congrArg₂ HAppend.hAppend ?_ rfl)
    exact List.map_congr_left fun text member =>
      elemOf_of_proper (proper text member)
  rw [cleanNames, read]
  simp only [List.foldl_cons, List.foldl_append, List.foldl_nil, cleanStep, foldl_cleanStep_names]
  simp

@[simp]
theorem dir_render (proper : ProperNames names) : dir (render names) = render names.dropLast := by
  rcases List.eq_nil_or_concat names with rfl | ⟨parent, text, rfl⟩
  · decide
  · simp only [List.concat_eq_append] at proper ⊢
    have parentProper : ProperNames parent :=
      fun piece member => proper piece (List.mem_append_left _ member)
    have textProper : Proper text := proper text (by simp)
    rw [dir, render_append_singleton, dropWhile_reverse_append textProper.no_slash,
      List.dropLast_concat, clean_of_isAbs, cleanNames_trailingSlash parentProper]
    cases parent with
    | nil => rfl
    | cons head tail => rfl

theorem base_render_concat (names : List Str) (proper : Proper text) :
    base (render (names ++ [text])) = text := by
  have reversed :
      (render (names ++ [text])).reverse =
        text.reverse ++ '/' :: (names.flatMap ('/' :: ·)).reverse := by
    simp [render_append_singleton]
  obtain ⟨last, initial, shape⟩ : ∃ last initial, text.reverse = last :: initial := by
    cases flipped : text.reverse with
    | nil => exact absurd (List.reverse_eq_nil_iff.mp flipped) proper.nonempty
    | cons last initial => exact ⟨last, initial, rfl⟩
  have flippedFree : ∀ char ∈ text.reverse, char ≠ '/' := by
    rintro char member rfl
    exact proper.no_slash (List.mem_reverse.mp member)
  have lastNotSlash : last ≠ '/' := flippedFree last (by simp [shape])
  have kept :
      (render (names ++ [text])).reverse.dropWhile (· = '/') =
        text.reverse ++ '/' :: (names.flatMap ('/' :: ·)).reverse := by
    rw [reversed, shape, List.cons_append, List.dropWhile_cons_of_neg (by simpa using lastNotSlash)]
  have taken :
      (text.reverse ++ '/' :: (names.flatMap ('/' :: ·)).reverse).takeWhile
        (· ≠ '/') = text.reverse := by
    rw [List.takeWhile_append_of_pos]
    · simp
    · intro char member
      simpa using flippedFree char member
  have nonempty : render (names ++ [text]) ≠ [] := by
    simp [render_append_singleton]
  rw [base, if_neg nonempty, kept, if_neg (by simp), taken, List.reverse_reverse]

theorem elems_append_slash (first second : Str) :
    elems (first ++ '/' :: second) = elems first ++ elems second := by
  simp [elems, List.splitOn_append_cons_self]

theorem elems_of_proper (proper : Proper text) : elems text = [.name text] := by
  simp [elems, List.splitOn_eq_singleton proper.no_slash, elemOf_of_proper proper]

theorem cleanNames_append_slash (first second : Str) :
    cleanNames rooted (first ++ '/' :: second) =
      ((elems second).foldl (cleanStep rooted) (cleanNames rooted first).reverse).reverse := by
  simp [cleanNames, elems_append_slash, List.foldl_append]

theorem cleanNames_append_render (first : Str) (proper : ProperNames names) :
    cleanNames rooted (first ++ '/' :: render names) = cleanNames rooted first ++ names := by
  rw [cleanNames_append_slash, elems_render proper]
  by_cases empty : names = []
  · simp [empty, cleanStep]
  · rw [if_neg empty, List.foldl_cons, cleanStep, foldl_cleanStep_names]
    simp

theorem join_proper (rooted : isAbs path) (proper : Proper text) :
    join path text = render (cleanNames true path ++ [text]) := by
  rw [join_of_isAbs rooted, cleanNames_append_slash, elems_of_proper proper]
  simp [cleanStep]

theorem join_dots (rooted : isAbs path) :
    join path ['.', '.'] = render (cleanNames true path).dropLast := by
  have read : elems ['.', '.'] = [.up] := by decide
  rw [join_of_isAbs rooted, cleanNames_append_slash, read]
  rcases List.eq_nil_or_concat (cleanNames true path) with
    empty | ⟨parent, last, names⟩
  · simp [empty, cleanStep]
  · have proper : Proper last := cleanNames_proper path last (by simp [names])
    rw [names]
    simp [cleanStep, proper.not_dots]

theorem join_render_name (proper : ProperNames names) (textProper : Proper text) :
    join (render names) text = render (names ++ [text]) := by
  rw [join_proper (isAbs_render names) textProper, cleanNames_render proper]

private theorem foldl_cleanStep_dots (proper : ProperNames names) (outer : List Str) :
    ((names.map fun _ => ['.', '.']).map elemOf).foldl (cleanStep true) (names.reverse ++ outer) =
      outer := by
  have dots : elemOf ['.', '.'] = .up := by decide
  have ups : (names.map fun _ => ['.', '.']).map elemOf = names.reverse.map fun _ => Elem.up := by
    simp [dots]
  have notDots : ∀ text ∈ names.reverse, text ≠ ['.', '.'] :=
    fun text member => (proper text (List.mem_reverse.mp member)).not_dots
  rw [ups]
  generalize names.reverse = inner at notDots
  induction inner with
  | nil => rfl
  | cons text rest ih =>
    rw [List.map_cons, List.foldl_cons, List.cons_append, cleanStep,
      if_neg (notDots text (by simp))]
    exact ih fun other member =>
      notDots other (List.mem_cons_of_mem text member)

private theorem map_elemOf_proper (proper : ProperNames names) :
    names.map elemOf = names.map Elem.name :=
  List.map_congr_left fun text member => elemOf_of_proper (proper text member)

/-- The names of `relNames` lead from the first list to the second. -/
private theorem foldl_cleanStep_relNames (first second outer : List Str)
    (left : ProperNames first) (right : ProperNames second) :
    ((relNames first second).map elemOf).foldl (cleanStep true) (first.reverse ++ outer) =
      second.reverse ++ outer := by
  induction first, second using relNames.induct generalizing outer with
  | case1 target =>
    rw [relNames, map_elemOf_proper right, foldl_cleanStep_names]
    rfl
  | case2 base nonempty =>
    rw [relNames, foldl_cleanStep_dots left]
    · rfl
    · exact nonempty
  | case3 base shared target ih =>
    rw [relNames, if_pos rfl, List.reverse_cons, List.reverse_cons,
      List.append_assoc, List.append_assoc]
    exact ih ([shared] ++ outer)
      (fun text member => left text (List.mem_cons_of_mem _ member))
      fun text member => right text (List.mem_cons_of_mem _ member)
  | case4 first base second target different =>
    have climbed := foldl_cleanStep_dots left outer
    rw [List.map_cons] at climbed
    rw [relNames, if_neg different, List.map_append, List.foldl_append,
      climbed, map_elemOf_proper right, foldl_cleanStep_names]

private theorem slash_notMem_relNames {first second : List Str} (right : ProperNames second) :
    ∀ text ∈ relNames first second, '/' ∉ text := by
  induction first, second using relNames.induct with
  | case1 target =>
    rw [relNames]
    exact fun text member => (right text member).no_slash
  | case2 base nonempty =>
    rw [relNames]
    · simp
    · exact nonempty
  | case3 base shared target ih =>
    rw [relNames, if_pos rfl]
    exact ih fun text member =>
      right text (List.mem_cons_of_mem _ member)
  | case4 first base second target different =>
    rw [relNames, if_neg different]
    intro text member
    rcases List.mem_append.mp member with dots | name
    · rw [List.mem_cons, List.mem_map] at dots
      rcases dots with rfl | ⟨_, _, rfl⟩
      · decide
      · decide
    · exact (right text name).no_slash

/-- A path relative to `first`, joined to it, is the path again. -/
theorem cleanNames_append_rel (rooted : isAbs first) (proper : ProperNames names) :
    ∃ relative, rel first (render names) = some relative ∧
      cleanNames true (first ++ '/' :: '/' :: relative) = names := by
  have leads :=
    foldl_cleanStep_relNames (cleanNames true first) names [] (cleanNames_proper first) proper
  have slashes := @slash_notMem_relNames (cleanNames true first) names proper
  have slash : ∀ relative : Str, elems ('/' :: relative) = .cur :: elems relative :=
    fun relative => elems_append_slash [] relative
  simp only [List.append_nil] at leads
  rw [rel, rooted, isAbs_render, cleanNames_render proper]
  simp only [Bool.and_self, if_true]
  cases between : relNames (cleanNames true first) names with
  | nil =>
    rw [between] at leads
    refine ⟨['.'], rfl, ?_⟩
    have here : elems ['.'] = [.cur] := by decide
    rw [cleanNames_append_slash, slash, here]
    exact List.reverse_eq_iff.mpr leads
  | cons text rest =>
    rw [between] at leads slashes
    refine ⟨['/'].intercalate (text :: rest), rfl, ?_⟩
    have read : elems (['/'].intercalate (text :: rest)) = (text :: rest).map elemOf := by
      rw [elems, List.splitOn_intercalate _ slashes (by simp)]
    rw [cleanNames_append_slash, slash, read, List.foldl_cons, cleanStep]
    exact List.reverse_eq_iff.mpr leads

/-- `right` leaves the directory `left` although its rendering starts with
the rendering of `left`: the name in the place of `left`'s last one is longer
and starts with it. -/
def ExtendsLastName (left right : List Str) : Prop :=
  ∃ parent last extension rest,
    extension ≠ [] ∧ left = parent ++ [last] ∧ right = parent ++ (last ++ extension) :: rest

/-- Empty, or starting at a slash. -/
private def AtBoundary (text : Str) : Prop :=
  text = [] ∨ ∃ rest, text = '/' :: rest

private theorem atBoundary_flatMap (names : List Str) : AtBoundary (names.flatMap ('/' :: ·)) := by
  cases names with
  | nil => exact Or.inl rfl
  | cons head tail => exact Or.inr ⟨_, rfl⟩

private theorem append_prefix_append_iff {left right leftTail rightTail : Str}
    (leftFree : '/' ∉ left) (rightFree : '/' ∉ right) (leftBoundary : AtBoundary leftTail)
    (rightBoundary : AtBoundary rightTail) :
    left ++ leftTail <+: right ++ rightTail ↔
      (leftTail = [] ∧ left <+: right) ∨ (left = right ∧ leftTail <+: rightTail) := by
  induction left generalizing right with
  | nil =>
    rcases leftBoundary with rfl | ⟨rest, rfl⟩
    · simp
    · cases right with
      | nil => simp
      | cons first others =>
        have notSlash : '/' ≠ first := fun equal =>
          rightFree (equal ▸ List.mem_cons_self)
        simp [notSlash]
  | cons char chars ih =>
    cases right with
    | nil =>
      have notSlash : char ≠ '/' := fun equal =>
        leftFree (equal ▸ List.mem_cons_self)
      rcases rightBoundary with rfl | ⟨rest, rfl⟩
      · simp
      · simp [notSlash]
    | cons first others =>
      have step :=
        ih
          (fun member => leftFree (List.mem_cons_of_mem char member))
          (fun member => rightFree (List.mem_cons_of_mem first member))
      simp only [List.cons_append, List.cons_prefix_cons, step, List.cons.injEq]
      tauto

private theorem extendsLastName_cons_iff
    (head : Str) (leftNonempty : left ≠ []) (first : Str) (right : List Str) :
    ExtendsLastName (head :: left) (first :: right) ↔
      head = first ∧ ExtendsLastName left right := by
  constructor
  · rintro ⟨parent, last, extension, rest, nonempty, leftEq, rightEq⟩
    cases parent with
    | nil =>
      simp only [List.nil_append, List.cons.injEq] at leftEq
      exact absurd leftEq.2 leftNonempty
    | cons top below =>
      simp only [List.cons_append, List.cons.injEq] at leftEq rightEq
      exact ⟨leftEq.1.trans rightEq.1.symm,
        below, last, extension, rest, nonempty, leftEq.2, rightEq.2⟩
  · rintro ⟨rfl, parent, last, extension, rest, nonempty, rfl, rfl⟩
    exact ⟨head :: parent, last, extension, rest, nonempty, rfl, rfl⟩

private theorem extendsLastName_singleton_iff (head first : Str) (right : List Str) :
    ExtendsLastName [head] (first :: right) ↔
      ∃ extension, extension ≠ [] ∧ first = head ++ extension := by
  constructor
  · rintro ⟨parent, last, extension, rest, nonempty, leftEq, rightEq⟩
    cases parent with
    | nil =>
      simp only [List.nil_append, List.cons.injEq, and_true] at leftEq rightEq
      exact ⟨extension, nonempty, leftEq ▸ rightEq.1⟩
    | cons top below => simp at leftEq
  · rintro ⟨extension, nonempty, rfl⟩
    exact ⟨[], head, extension, right, nonempty, rfl, rfl⟩

private theorem prefix_iff_eq_or_extension (head first : Str) :
    head <+: first ↔ head = first ∨ ∃ extension, extension ≠ [] ∧ first = head ++ extension := by
  constructor
  · rintro ⟨extension, rfl⟩
    by_cases empty : extension = []
    · exact Or.inl (by simp [empty])
    · exact Or.inr ⟨extension, empty, rfl⟩
  · rintro (rfl | ⟨extension, _, rfl⟩)
    · exact List.prefix_rfl
    · exact List.prefix_append head extension

private theorem flatMap_prefix_iff (leftProper : ProperNames left)
    (rightProper : ProperNames right) :
    left.flatMap ('/' :: ·) <+: right.flatMap ('/' :: ·) ↔
      left <+: right ∨ ExtendsLastName left right := by
  induction left generalizing right with
  | nil => simp
  | cons head tail ih =>
    cases right with
    | nil => simp [ExtendsLastName]
    | cons first rest =>
      have headFree := (leftProper head List.mem_cons_self).no_slash
      have firstFree := (rightProper first List.mem_cons_self).no_slash
      have restProper : ProperNames rest :=
        fun text member =>
          rightProper text (List.mem_cons_of_mem first member)
      have step :=
        ih
          (fun text member =>
            leftProper text (List.mem_cons_of_mem head member))
          restProper
      simp only [List.flatMap_cons, List.cons_append, List.cons_prefix_cons, true_and]
      rw [append_prefix_append_iff headFree firstFree
        (atBoundary_flatMap tail) (atBoundary_flatMap rest), step]
      by_cases tailEmpty : tail = []
      · subst tailEmpty
        rw [extendsLastName_singleton_iff, prefix_iff_eq_or_extension head first]
        simp
        tauto
      · have flatNonempty : tail.flatMap ('/' :: ·) ≠ [] := by
          cases tail with
          | nil => exact absurd rfl tailEmpty
          | cons next others => simp
        rw [extendsLastName_cons_iff head tailEmpty]
        simp only [flatNonempty, false_and, false_or]
        tauto

/-- What a string prefix test between two rendered paths decides. -/
theorem renderPrefix_iff (leftProper : ProperNames left) (rightProper : ProperNames right) :
    render left <+: render right ↔ left <+: right ∨ ExtendsLastName left right := by
  by_cases leftEmpty : left = []
  · subst leftEmpty
    have rootPrefix : render [] <+: render right := by
      cases right with
      | nil => exact List.prefix_rfl
      | cons head tail => exact ⟨head ++ tail.flatMap ('/' :: ·), rfl⟩
    simp [rootPrefix]
  · by_cases rightEmpty : right = []
    · subst rightEmpty
      obtain ⟨head, tail, rfl⟩ := List.exists_cons_of_ne_nil leftEmpty
      have headNonempty := (leftProper head List.mem_cons_self).nonempty
      obtain ⟨char, chars, rfl⟩ := List.exists_cons_of_ne_nil headNonempty
      simp [render, ExtendsLastName]
    · simp only [render, leftEmpty, rightEmpty, if_false]
      exact flatMap_prefix_iff leftProper rightProper

end Sshserv.Lib.UnixPath
