import Sshserv.Lib.Search
import Sshserv.Lib.SortedMap
import Sshserv.Lib.UnixPath

/-!
# Variables of a Hadoop configuration

`_resolveVar` replaces references `${name}` in an address by values that may
hold references themselves.  It works on the whole text: a value may join with
its surroundings to a new `${`.  `Expands` is the meaning piece by piece.
-/

namespace Sshserv.Hh

open Lib UnixPath Search

/-- How a call ends. -/
inductive Ending where
  | returned (v : Str)
  /-- A slice is out of range. -/
  | outOfRange
  deriving DecidableEq

def openMark : Str := ['$', '\x7b']

def closeMark : Str := ['\x7d']

def mark (vname : Str) : Str :=
  openMark ++ vname ++ closeMark

/-- `conf[vname]`: empty if there is no such variable. -/
def valueOf (conf : SortedMap Str Str) (vname : Str) : Str :=
  (conf.get vname).getD []

/-- `_resolveVar`; `none` if it has not ended after `fuel` rounds. -/
def resolveVar (conf : SortedMap Str Str) : Nat → Str → Option Ending
  | 0, _ => none
  | fuel + 1, v =>
    match index openMark v with
    | none => some (.returned v)
    | some i =>
      match index closeMark v with
      -- `strings.Index` is -1
      | none => some .outOfRange
      | some j =>
        if j < i + 2 then some .outOfRange
        else
          let vname := (v.drop (i + 2)).take (j - (i + 2))
          resolveVar conf fuel (replaceAll v (mark vname) (valueOf conf vname))

def resolveVars (conf : SortedMap Str Str) (fuel : Nat)
    (namenodes : List Str) : List (Option Ending) :=
  namenodes.map (resolveVar conf fuel)

/-! ## The pieces of a text -/

inductive Piece where
  | lit (c : Char)
  | ref (vname : Str)
  deriving DecidableEq

/-- The name up to the closing mark, and what follows it. -/
def untilClose : List Piece → Option (Str × List Piece)
  | .lit c :: rest =>
    if c = '\x7d' then some ([], rest)
    else (untilClose rest).map fun (vname, after) => (c :: vname, after)
  | _ => none

/-- A `$` before pieces: it starts a reference if an opening brace follows and
there is no other reference up to the closing one. -/
def dollar : List Piece → List Piece
  | .lit '\x7b' :: rest =>
    match untilClose rest with
    | some (vname, after) => .ref vname :: after
    | none => .lit '$' :: .lit '\x7b' :: rest
  | rest => .lit '$' :: rest

/-- A text as literal letters and references. -/
def pieces : Str → List Piece
  | [] => []
  | c :: rest => if c = '$' then dollar (pieces rest) else .lit c :: pieces rest

def Piece.spell : Piece → Str
  | lit c => [c]
  | ref vname => mark vname

def spell (ps : List Piece) : Str :=
  ps.flatMap Piece.spell

@[simp]
theorem spell_nil : spell [] = [] :=
  rfl

@[simp]
theorem spell_cons (p : Piece) (ps : List Piece) : spell (p :: ps) = p.spell ++ spell ps :=
  rfl

theorem spell_lits (text : Str) : spell (text.map .lit) = text := by
  induction text with
  | nil => rfl
  | cons c rest ih =>
    rw [List.map_cons, spell_cons, ih]
    rfl

theorem spell_append (first second : List Piece) :
    spell (first ++ second) = spell first ++ spell second :=
  List.flatMap_append

/-- Names hold no closing mark, and no opening one. -/
def CleanName (vname : Str) : Prop :=
  '\x7d' ∉ vname ∧ ¬ openMark <:+: vname

def CleanNames (ps : List Piece) : Prop :=
  ∀ vname, .ref vname ∈ ps → CleanName vname

variable {ps after : List Piece} {vname text : Str} {k : Nat}

theorem untilClose_eq (closes : untilClose ps = some (vname, after)) :
    ps = vname.map .lit ++ .lit '\x7d' :: after ∧ '\x7d' ∉ vname := by
  induction ps generalizing vname with
  | nil => cases closes
  | cons p rest ih =>
    cases p with
    | ref other => cases closes
    | lit c =>
      simp only [untilClose] at closes
      split at closes
      · rename_i close
        cases closes
        simp [close]
      · rename_i unclosed
        obtain ⟨⟨more, left⟩, found, same⟩ := Option.map_eq_some_iff.mp closes
        cases same
        obtain ⟨rfl, free⟩ := ih found
        refine ⟨rfl, ?_⟩
        rw [List.mem_cons, not_or]
        exact ⟨fun close => unclosed close.symm, free⟩

theorem untilClose_lits (free : '\x7d' ∉ vname) (after : List Piece) :
    untilClose (vname.map .lit ++ .lit '\x7d' :: after) = some (vname, after) := by
  induction vname with
  | nil => simp [untilClose]
  | cons c rest ih =>
    rw [List.mem_cons, not_or] at free
    rw [List.map_cons, List.cons_append, untilClose,
      if_neg fun close => free.1 close.symm, ih free.2]
    rfl

/-- No reference is left among the literal letters. -/
def Read (ps : List Piece) : Prop :=
  ∀ before rest, ps = before ++ .lit '$' :: .lit '\x7b' :: rest → untilClose rest = none

variable {p : Piece} {first second other v result : Str} {j fuel : Nat} {left right : List Piece}

theorem Read.tail (read : Read (p :: ps)) : Read ps := by
  intro before rest split
  exact read (p :: before) rest (by rw [split]; rfl)

theorem Read.of_append {first second : List Piece}
    (read : Read (first ++ second)) : Read second := by
  intro before rest split
  exact read (first ++ before) rest (by rw [split, List.append_assoc])

theorem Read.cons {p : Piece} {ps : List Piece} (read : Read ps)
    (head : p = .lit '$' → ∀ rest, ps = .lit '\x7b' :: rest → untilClose rest = none) :
    Read (p :: ps) := by
  intro before rest split
  cases before with
  | nil =>
    obtain ⟨rfl, rfl⟩ := List.cons.inj split
    exact head rfl rest rfl
  | cons first more =>
    obtain ⟨rfl, rfl⟩ := List.cons.inj split
    exact read more rest rfl

theorem cleanName_of_untilClose (read : Read ps) (closes : untilClose ps = some (vname, after)) :
    CleanName vname := by
  obtain ⟨rfl, free⟩ := untilClose_eq closes
  refine ⟨free, ?_⟩
  rintro ⟨left, right, rfl⟩
  have inner : '\x7d' ∉ right := fun member =>
    free (List.mem_append_right _ member)
  have unread := read (left.map .lit) (right.map .lit ++ .lit '\x7d' :: after) (by simp [openMark])
  rw [untilClose_lits inner] at unread
  cases unread

theorem spell_dollar (ps : List Piece) : spell (dollar ps) = '$' :: spell ps := by
  unfold dollar
  split
  · rename_i rest
    cases closes : untilClose rest with
    | none => rfl
    | some found =>
      obtain ⟨vname, after⟩ := found
      obtain ⟨rfl, _⟩ := untilClose_eq closes
      simp [Piece.spell, mark, openMark, closeMark, spell_append, spell_lits]
  · rfl

theorem spell_pieces (text : Str) : spell (pieces text) = text := by
  induction text with
  | nil => rfl
  | cons c rest ih =>
    rw [pieces]
    split
    · rename_i isDollar
      rw [spell_dollar, ih, isDollar]
    · rw [spell_cons, ih]
      rfl

theorem read_dollar (read : Read ps) (clean : CleanNames ps) :
    Read (dollar ps) ∧ CleanNames (dollar ps) := by
  have cons_lit : ∀ c, CleanNames (.lit c :: ps) := fun c vname member =>
    clean vname ((List.mem_cons.mp member).resolve_left (by simp))
  unfold dollar
  split
  · rename_i rest
    cases closes : untilClose rest with
    | none =>
      refine ⟨read.cons fun _ other same => ?_, cons_lit '$'⟩
      cases same
      exact closes
    | some found =>
      obtain ⟨vname, after⟩ := found
      have named := cleanName_of_untilClose read.tail closes
      obtain ⟨rfl, _⟩ := untilClose_eq closes
      refine ⟨read.tail.of_append.tail.cons (by simp), ?_⟩
      intro other member
      rcases List.mem_cons.mp member with same | later
      · cases same
        exact named
      · exact clean other (by simp [later])
  · rename_i noBrace
    refine ⟨read.cons fun _ rest same => absurd same (noBrace rest), cons_lit '$'⟩

theorem read_pieces (text : Str) : Read (pieces text) ∧ CleanNames (pieces text) := by
  induction text with
  | nil => exact ⟨by simp [Read, pieces], by simp [CleanNames, pieces]⟩
  | cons c rest ih =>
    obtain ⟨read, clean⟩ := ih
    rw [pieces]
    split
    · exact read_dollar read clean
    · rename_i notDollar
      refine ⟨read.cons fun same => ?_, fun vname member => ?_⟩
      · cases same
        exact absurd rfl notDollar
      · exact clean vname ((List.mem_cons.mp member).resolve_left (by simp))

theorem cleanNames_pieces (text : Str) : CleanNames (pieces text) :=
  (read_pieces text).2

/-! ## What the references stand for -/

section Expansion

variable (conf : SortedMap Str Str)

def valuePieces (vname : Str) : List Piece :=
  pieces (valueOf conf vname)

/-- The text that pieces stand for when every reference is replaced by what
its value stands for, and the number of references met on the way. -/
inductive Expands : List Piece → Str → Nat → Prop where
  | nil : Expands [] [] 0
  | lit {ps : List Piece} {text : Str} {k : Nat} (c : Char) :
      Expands ps text k → Expands (.lit c :: ps) (c :: text) k
  | ref {ps : List Piece} {vname value text : Str} {j k : Nat} :
      Expands (valuePieces conf vname) value j → Expands ps text k →
        Expands (.ref vname :: ps) (value ++ text) (j + k + 1)

/-- `text` with every reference replaced by its fully expanded value. -/
def Expansion (text result : Str) : Prop :=
  ∃ k, Expands conf (pieces text) result k

def Refers (vname other : Str) : Prop :=
  .ref other ∈ valuePieces conf vname

/-- No variable refers to itself, directly or through others. -/
def Acyclic : Prop :=
  ∀ vname, ¬ Relation.TransGen (Refers conf) vname vname

/-- A reference replaced by the pieces of its value, wherever it occurs. -/
def substitute (vname : Str) (ps : List Piece) : List Piece :=
  ps.flatMap fun p => if p = .ref vname then valuePieces conf vname else [p]

end Expansion

variable {conf : SortedMap Str Str}

theorem Expands.unique (left : Expands conf ps first j) (right : Expands conf ps second k) :
    first = second ∧ j = k := by
  induction left generalizing second k with
  | nil =>
    cases right
    exact ⟨rfl, rfl⟩
  | lit c _ ih =>
    cases right with
    | lit _ rest =>
      obtain ⟨rfl, rfl⟩ := ih rest
      exact ⟨rfl, rfl⟩
  | ref _ _ valueHypothesis restHypothesis =>
    cases right with
    | ref value rest =>
      obtain ⟨rfl, rfl⟩ := valueHypothesis value
      obtain ⟨rfl, rfl⟩ := restHypothesis rest
      exact ⟨rfl, rfl⟩

theorem Expands.append
    (leftExpands : Expands conf left first j) (rightExpands : Expands conf right second k) :
    Expands conf (left ++ right) (first ++ second) (j + k) := by
  induction leftExpands with
  | nil => simpa using rightExpands
  | lit c _ ih => exact ih.lit c
  | @ref ps vname value text i l valueExpands _ _ ih =>
    have size : i + l + 1 + k = i + (l + k) + 1 := by omega
    rw [size, List.append_assoc]
    exact valueExpands.ref ih

theorem Expands.of_append (expands : Expands conf (left ++ right) text k) :
    ∃ first second i j, Expands conf left first i ∧
      Expands conf right second j ∧ text = first ++ second := by
  induction left generalizing text k with
  | nil => exact ⟨[], text, 0, k, .nil, expands, rfl⟩
  | cons p rest ih =>
    cases expands with
    | lit c more =>
      obtain ⟨first, second, i, j, head, tail, rfl⟩ := ih more
      exact ⟨_, second, i, j, head.lit c, tail, rfl⟩
    | ref value more =>
      obtain ⟨first, second, i, j, head, tail, rfl⟩ := ih more
      exact ⟨_, second, _, j, value.ref head, tail, (List.append_assoc _ _ _).symm⟩

theorem expands_lits (text : Str) : Expands conf (text.map .lit) text 0 := by
  induction text with
  | nil => exact .nil
  | cons c rest ih => exact ih.lit c

/-- Replacing references keeps what the pieces stand for, and leaves fewer of
them to be met. -/
theorem Expands.substitute (expands : Expands conf ps text k) (vname : Str) :
    ∃ j, Expands conf (Hh.substitute conf vname ps) text j ∧ j + ps.count (.ref vname) = k := by
  induction expands with
  | nil => exact ⟨0, .nil, rfl⟩
  | lit c _ ih =>
    obtain ⟨j, rest, fewer⟩ := ih
    refine ⟨j, ?_, ?_⟩
    · simpa [Hh.substitute] using rest.lit c
    · simpa using fewer
  | @ref ps other value text i k valueExpands _ _ ih =>
    obtain ⟨j, rest, fewer⟩ := ih
    by_cases same : other = vname
    · subst same
      refine ⟨i + j, ?_, ?_⟩
      · simpa [Hh.substitute] using valueExpands.append rest
      · rw [List.count_cons_self]
        omega
    · refine ⟨i + j + 1, ?_, ?_⟩
      · simpa [Hh.substitute, same] using valueExpands.ref rest
      · rw [List.count_cons_of_ne (by simpa using same)]
        omega

theorem CleanNames.substitute (clean : CleanNames ps) (vname : Str) :
    CleanNames (Hh.substitute conf vname ps) := by
  intro other member
  obtain ⟨p, held, inside⟩ := List.mem_flatMap.mp member
  split at inside
  · exact cleanNames_pieces _ other inside
  · rw [List.mem_singleton] at inside
    subst inside
    exact clean other held

/-! ## One round -/

/-- No literal `$` stands before a literal opening brace. -/
def Tidy (ps : List Piece) : Prop :=
  ∀ before rest, ps ≠ before ++ .lit '$' :: .lit '\x7b' :: rest

theorem Tidy.tail (tidy : Tidy (p :: ps)) : Tidy ps := fun before rest split =>
  tidy (p :: before) rest (by rw [split]; rfl)

theorem tidy_of_expands (expands : Expands conf ps text k) (resolved : ¬ openMark <:+: text) :
    Tidy ps := by
  rintro before rest rfl
  obtain ⟨first, second, _, _, _, tail, rfl⟩ := expands.of_append
  cases tail with
  | lit _ tail =>
    cases tail with
    | lit _ tail => exact resolved ⟨first, _, by simp [openMark]; rfl⟩

theorem not_open_of_tidy {c : Char} (tidy : Tidy (.lit c :: ps)) :
    ¬ openMark <+: c :: spell ps := by
  rw [openMark, List.cons_prefix_cons]
  rintro ⟨rfl, brace⟩
  cases ps with
  | nil => simp at brace
  | cons p rest =>
    cases p with
    | ref vname => simp [Piece.spell, mark, openMark] at brace
    | lit d =>
      simp only [spell_cons, Piece.spell, List.cons_append,
        List.nil_append, List.cons_prefix_cons] at brace
      obtain ⟨rfl, _⟩ := brace
      exact tidy [] rest rfl

theorem not_mark_of_not_open (no : ¬ openMark <+: text) (vname : Str) : ¬ mark vname <+: text := by
  have start : openMark <+: mark vname := ⟨vname ++ closeMark, by simp [mark]⟩
  exact fun starts => no (start.trans starts)

theorem replaceAll_name {inner : Str} (free : ¬ openMark <:+: inner) (rest vname value : Str) :
    replaceAll (inner ++ '\x7d' :: rest) (mark vname) value =
      inner ++ '\x7d' :: replaceAll rest (mark vname) value := by
  induction inner with
  | nil =>
    refine replaceAll_miss (not_mark_of_not_open ?_ vname) value
    simp [openMark]
  | cons c more ih =>
    rw [List.infix_cons_iff, not_or] at free
    have no : ¬ openMark <+: c :: (more ++ '\x7d' :: rest) := by
      intro starts
      rw [openMark, List.cons_prefix_cons] at starts
      obtain ⟨rfl, brace⟩ := starts
      cases more with
      | nil => simp at brace
      | cons d others =>
        rw [List.cons_append, List.cons_prefix_cons] at brace
        obtain ⟨rfl, _⟩ := brace
        exact free.1 (by simp [openMark])
    rw [List.cons_append, replaceAll_miss (not_mark_of_not_open no vname),
      ih free.2, List.cons_append]

theorem mark_prefix_iff (free : '\x7d' ∉ vname) (otherFree : '\x7d' ∉ other) (rest : Str) :
    mark vname <+: mark other ++ rest ↔ vname = other := by
  constructor
  · rintro ⟨after, same⟩
    have names : vname ++ '\x7d' :: after = other ++ '\x7d' :: rest := by
      simpa [mark, openMark, closeMark] using same
    have lengths := congrArg (index ['\x7d']) names
    rw [index_singleton free, index_singleton otherFree, Option.some.injEq] at lengths
    exact List.append_inj_left names lengths
  · rintro rfl
    exact List.prefix_append _ _

theorem replaceAll_spell (tidy : Tidy ps) (clean : CleanNames ps) (free : '\x7d' ∉ vname) :
    replaceAll (spell ps) (mark vname) (valueOf conf vname) = spell (substitute conf vname ps) := by
  induction ps with
  | nil => rfl
  | cons p rest ih =>
    have tail :=
      ih tidy.tail fun other member =>
        clean other (List.mem_cons_of_mem p member)
    cases p with
    | lit c =>
      rw [spell_cons, Piece.spell, List.singleton_append,
        replaceAll_miss (not_mark_of_not_open (not_open_of_tidy tidy) _), tail]
      simp [substitute, Piece.spell]
    | ref other =>
      obtain ⟨otherFree, inner⟩ := clean other List.mem_cons_self
      rw [spell_cons, Piece.spell]
      by_cases same : other = vname
      · subst same
        rw [replaceAll_hit (by simp [mark, openMark]), tail]
        simp [substitute, spell_append, valuePieces, spell_pieces]
      · have miss : ¬ mark vname <+: mark other ++ spell rest :=
          fun starts => same ((mark_prefix_iff free otherFree _).mp starts).symm
        have shape :
            mark other ++ spell rest = '$' :: '\x7b' :: (other ++ '\x7d' :: spell rest) := by
          simp [mark, openMark, closeMark]
        have brace : ¬ openMark <+: '\x7b' :: (other ++ '\x7d' :: spell rest) := by
          simp [openMark]
        rw [shape] at miss ⊢
        rw [replaceAll_miss miss, replaceAll_miss (not_mark_of_not_open brace vname),
          replaceAll_name inner, tail]
        simp [substitute, same, Piece.spell, mark, openMark, closeMark]

theorem index_openMark {before : Str} (tidy : Tidy (before.map .lit ++ .ref vname :: after)) :
    index openMark (spell (before.map .lit ++ .ref vname :: after)) = some before.length := by
  induction before with
  | nil =>
    rw [List.map_nil, List.nil_append, spell_cons, Piece.spell, mark,
      List.append_assoc, List.append_assoc]
    exact index_append_self (by simp [openMark]) _
  | cons c rest ih =>
    rw [List.map_cons, List.cons_append] at tidy ⊢
    rw [spell_cons, Piece.spell, List.singleton_append,
      index_cons_of_not_prefix (not_open_of_tidy tidy), ih tidy.tail]
    rfl

theorem spell_first (before vname : Str) (after : List Piece) :
    spell (before.map .lit ++ .ref vname :: after) =
      before ++ '$' :: '\x7b' :: (vname ++ '\x7d' :: spell after) := by
  simp [spell_append, spell_lits, Piece.spell, mark, openMark, closeMark]

section Round

variable {before vname : Str} {after : List Piece}
variable (tidy : Tidy (before.map .lit ++ .ref vname :: after))

include tidy

theorem resolveVar_outOfRange (closed : '\x7d' ∈ before) (fuel : Nat) :
    resolveVar conf (fuel + 1) (spell (before.map .lit ++ .ref vname :: after)) =
      some .outOfRange := by
  obtain ⟨left, right, rfl, free⟩ := List.eq_append_cons_of_mem closed
  rw [resolveVar, index_openMark tidy, spell_first, List.append_assoc,
    List.cons_append, closeMark, index_singleton free]
  simp only
  rw [if_pos]
  simp only [List.length_append, List.length_cons]
  omega

theorem resolveVar_round (clean : CleanNames (before.map .lit ++ .ref vname :: after))
    (opened : '\x7d' ∉ before) (fuel : Nat) :
    resolveVar conf (fuel + 1) (spell (before.map .lit ++ .ref vname :: after)) =
      resolveVar conf fuel
        (spell (substitute conf vname (before.map .lit ++ .ref vname :: after))) := by
  obtain ⟨free, _⟩ := clean vname (by simp)
  have close :
      index closeMark (spell (before.map .lit ++ .ref vname :: after)) =
        some (before.length + 2 + vname.length) := by
    have shape :
        spell (before.map .lit ++ .ref vname :: after) =
          (before ++ '$' :: '\x7b' :: vname) ++ '\x7d' :: spell after := by
      rw [spell_first]
      simp
    rw [shape, closeMark, index_singleton (by simp [opened, free])]
    simp only [List.length_append, List.length_cons, Option.some.injEq]
    omega
  have name :
      ((spell (before.map .lit ++ .ref vname :: after)).drop
          (before.length + 2)).take (before.length + 2 + vname.length - (before.length + 2)) =
        vname := by
    rw [spell_first, Nat.add_sub_cancel_left]
    simp
  rw [resolveVar, index_openMark tidy, close]
  simp only
  rw [if_neg (by omega), name, replaceAll_spell tidy clean free]

end Round

/-! ## All rounds -/

/-- The variable of the first reference is replaced. -/
def Round (conf : SortedMap Str Str) (ps qs : List Piece) : Prop :=
  ∃ (before vname : Str) (after : List Piece),
    ps = before.map .lit ++ .ref vname :: after ∧ qs = substitute conf vname ps

/-- No closing mark stands before the first reference. -/
def ClosedInOrder (ps : List Piece) : Prop :=
  ∀ (before vname : Str) (after : List Piece),
    ps = before.map .lit ++ .ref vname :: after → '\x7d' ∉ before

theorem lits_or_first_ref (ps : List Piece) :
    (∃ text : Str, ps = text.map .lit) ∨
      ∃ (before vname : Str) (after : List Piece), ps = before.map .lit ++ .ref vname :: after := by
  induction ps with
  | nil => exact Or.inl ⟨[], rfl⟩
  | cons p rest ih =>
    cases p with
    | ref vname => exact Or.inr ⟨[], vname, rest, rfl⟩
    | lit c =>
      obtain ⟨text, rfl⟩ | ⟨before, vname, after, rfl⟩ := ih
      · exact Or.inl ⟨c :: text, rfl⟩
      · exact Or.inr ⟨c :: before, vname, after, rfl⟩

theorem resolveVar_lits (resolved : ¬ openMark <:+: text) :
    resolveVar conf 1 text = some (.returned text) := by
  rw [resolveVar, (index_eq_none_iff (by simp [openMark]) text).mpr resolved]

theorem resolved_of_returned (returned : resolveVar conf fuel v = some (.returned result)) :
    ¬ openMark <:+: result := by
  induction fuel generalizing v with
  | zero => cases returned
  | succ fuel ih =>
    rw [resolveVar] at returned
    split at returned
    · rename_i missing
      cases returned
      exact (index_eq_none_iff (by simp [openMark]) _).mp missing
    · split at returned
      · cases returned
      · split at returned
        · cases returned
        · exact ih returned

/-- Each round leaves fewer references to be met, so the call ends. -/
theorem returns_of_closedInOrder (expands : Expands conf ps text k) (clean : CleanNames ps)
    (resolved : ¬ openMark <:+: text)
    (inOrder : ∀ qs, Relation.ReflTransGen (Round conf) ps qs → ClosedInOrder qs) :
    ∃ fuel, resolveVar conf fuel (spell ps) = some (.returned text) := by
  induction k using Nat.strong_induction_on generalizing ps with
  | _ k ih =>
    obtain ⟨lits, rfl⟩ | ⟨before, vname, after, rfl⟩ := lits_or_first_ref ps
    · obtain ⟨rfl, _⟩ := expands.unique (expands_lits lits)
      rw [spell_lits]
      exact ⟨1, resolveVar_lits resolved⟩
    · have tidy := tidy_of_expands expands resolved
      obtain ⟨j, rest, fewer⟩ := expands.substitute vname
      have first : 0 < (before.map Piece.lit ++ .ref vname :: after).count (.ref vname) :=
        List.count_pos_iff.mpr (by simp)
      have round :
          Round conf (before.map .lit ++ .ref vname :: after)
            (substitute conf vname (before.map .lit ++ .ref vname :: after)) :=
        ⟨before, vname, after, rfl, rfl⟩
      obtain ⟨fuel, returned⟩ :=
        ih j (by omega) rest (clean.substitute vname)
          fun qs steps => inOrder qs (.head round steps)
      refine ⟨fuel + 1, ?_⟩
      rw [resolveVar_round tidy clean (inOrder _ .refl _ _ _ rfl), returned]

theorem closedInOrder_of_returned
    (expands : Expands conf ps text k) (clean : CleanNames ps) (resolved : ¬ openMark <:+: text)
    (returned : resolveVar conf fuel (spell ps) = some (.returned result)) :
    ∀ qs, Relation.ReflTransGen (Round conf) ps qs → ClosedInOrder qs := by
  have tidy := tidy_of_expands expands resolved
  induction fuel generalizing ps k with
  | zero => cases returned
  | succ fuel ih =>
    have inOrder : ClosedInOrder ps := by
      rintro before vname after rfl closed
      rw [resolveVar_outOfRange tidy closed] at returned
      cases returned
    intro qs steps
    cases steps using Relation.ReflTransGen.head_induction_on with
    | refl => exact inOrder
    | head round more =>
      obtain ⟨before, vname, after, rfl, rfl⟩ := round
      obtain ⟨j, rest, _⟩ := expands.substitute vname
      rw [resolveVar_round tidy clean (inOrder _ _ _ rfl)] at returned
      exact ih rest (clean.substitute vname) returned (tidy_of_expands rest resolved) qs more

/-! ## Acyclic configurations -/

theorem Refers.defined (refers : Refers conf vname other) : vname ∈ conf.entries.map Prod.fst := by
  rw [Refers, valuePieces, valueOf] at refers
  cases found : conf.get vname with
  | none =>
    rw [found] at refers
    simp [pieces] at refers
  | some value => exact List.mem_map.mpr ⟨(vname, value), (conf.mem_entries_iff _ _).mpr found, rfl⟩

theorem acyclic_of_rank {rank : Str → Nat}
    (lower : ∀ vname other, Refers conf vname other → rank other < rank vname) :
    Acyclic conf := by
  intro vname cycle
  have below : ∀ other, Relation.TransGen (Refers conf) vname other → rank other < rank vname := by
    intro other through
    induction through with
    | single refers => exact lower _ _ refers
    | tail _ refers ih => exact (lower _ _ refers).trans ih
  exact lt_irrefl _ (below vname cycle)

theorem acc_of_acyclic (acyclic : Acyclic conf) (vname : Str) :
    Acc (fun other vname => Refers conf vname other) vname := by
  have undefined :
      ∀ vname, vname ∉ conf.entries.map Prod.fst →
        Acc (fun other vname => Refers conf vname other) vname :=
    fun vname missing =>
      ⟨_, fun _ refers => absurd refers.defined missing⟩
  let through := fun other vname =>
    Relation.TransGen (Refers conf) vname other
  have irreflexive : Std.Irrefl through := ⟨acyclic⟩
  have transitive : IsTrans Str through := ⟨fun _ _ _ first second => second.trans first⟩
  have order : IsStrictOrder Str through := {}
  have finite : (SetLike.coe (conf.entries.map Prod.fst).toFinset : Set Str).Finite :=
    Finset.finite_toSet _
  by_cases defined : vname ∈ conf.entries.map Prod.fst
  · refine finite.wellFoundedOn.induction (r := through)
      (P := Acc fun other vname => Refers conf vname other)
      (by simpa using defined) ?_
    intro name _ below
    refine ⟨_, fun other refers => ?_⟩
    by_cases known : other ∈ conf.entries.map Prod.fst
    · exact below other (by simpa using known) (.single refers)
    · exact undefined other known
  · exact undefined vname defined

theorem exists_expands {ps : List Piece}
    (values : ∀ vname, .ref vname ∈ ps → ∃ value k, Expands conf (valuePieces conf vname) value k) :
    ∃ text k, Expands conf ps text k := by
  induction ps with
  | nil => exact ⟨[], 0, .nil⟩
  | cons p rest ih =>
    obtain ⟨text, k, expands⟩ :=
      ih fun vname member =>
        values vname (List.mem_cons_of_mem p member)
    cases p with
    | lit c => exact ⟨_, _, expands.lit c⟩
    | ref vname =>
      obtain ⟨value, j, valueExpands⟩ := values vname List.mem_cons_self
      exact ⟨_, _, valueExpands.ref expands⟩

theorem exists_expansion (acyclic : Acyclic conf) (text : Str) :
    ∃ result, Expansion conf text result := by
  have values : ∀ vname, ∃ value k, Expands conf (valuePieces conf vname) value k := by
    intro vname
    induction acc_of_acyclic acyclic vname with
    | intro vname _ ih =>
      exact exists_expands fun other refers =>
        ih other refers
  obtain ⟨result, k, expands⟩ := @exists_expands conf (pieces text) fun vname _ => values vname
  exact ⟨result, k, expands⟩

/-! ## When a text is resolved -/

/-- The call ends without a slice out of range, and returns the text with
every reference replaced by its fully expanded value. -/
def Resolves (conf : SortedMap Str Str) (v : Str) : Prop :=
  ∃ fuel result, resolveVar conf fuel v = some (.returned result) ∧ Expansion conf v result

theorem resolve_exact_iff (acyclic : Acyclic conf) (v : Str) :
    Resolves conf v ↔
      (∀ result, Expansion conf v result → ¬ openMark <:+: result) ∧
        ∀ ps, Relation.ReflTransGen (Round conf) (pieces v) ps → ClosedInOrder ps := by
  have clean := cleanNames_pieces v
  constructor
  · rintro ⟨fuel, result, returned, k, expands⟩
    have resolved := resolved_of_returned returned
    rw [← spell_pieces v] at returned
    refine ⟨?_, closedInOrder_of_returned expands clean resolved returned⟩
    rintro other ⟨j, otherExpands⟩
    rw [(otherExpands.unique expands).1]
    exact resolved
  · rintro ⟨resolved, inOrder⟩
    obtain ⟨result, k, expands⟩ := exists_expansion acyclic v
    obtain ⟨fuel, returned⟩ :=
      returns_of_closedInOrder expands clean (resolved result ⟨k, expands⟩) inOrder
    rw [spell_pieces] at returned
    exact ⟨fuel, result, returned, k, expands⟩

theorem closedInOrder_of_no_close
    (text : .lit '\x7d' ∉ pieces v) (values : ∀ vname, .lit '\x7d' ∉ valuePieces conf vname)
    (steps : Relation.ReflTransGen (Round conf) (pieces v) ps) :
    ClosedInOrder ps := by
  have free : .lit '\x7d' ∉ ps := by
    induction steps with
    | refl => exact text
    | tail _ round ih =>
      obtain ⟨before, vname, after, _, rfl⟩ := round
      intro member
      obtain ⟨p, held, inside⟩ := List.mem_flatMap.mp member
      split at inside
      · exact values vname inside
      · rw [List.mem_singleton] at inside
        exact ih (inside ▸ held)
  rintro before vname after rfl closed
  exact free (List.mem_append_left _ (List.mem_map_of_mem closed))

/-- A host name that refers to a domain. -/
def sampleConf : SortedMap Str Str where
  entries := [("d".toList, "x".toList), ("h".toList, "n.$\x7bd\x7d".toList)]
  sorted := by decide

theorem sampleConf_pieces (vname : Str) :
    valuePieces sampleConf vname =
      if vname = "d".toList then [.lit 'x']
      else if vname = "h".toList then [.lit 'n', .lit '.', .ref "d".toList]
      else [] := by
  simp only [valuePieces, valueOf, sampleConf, SortedMap.get, SortedMap.lookup]
  split_ifs
  · decide
  · decide
  · rfl

theorem acyclic_sampleConf : Acyclic sampleConf := by
  refine @acyclic_of_rank _ (fun vname => if vname = "h".toList then 1 else 0)
    fun vname other refers => ?_
  rw [Refers, sampleConf_pieces] at refers
  split_ifs at refers with domain host
  · simp at refers
  · have only : other = "d".toList := by simpa using refers
    rw [only, host]
    decide
  · simp at refers

/-- `${h}:1` is `n.x:1`. -/
theorem host_resolves : Resolves sampleConf "$\x7bh\x7d:1".toList := by
  refine (resolve_exact_iff acyclic_sampleConf _).mpr ⟨?_, ?_⟩
  · have domain : Expands sampleConf (valuePieces sampleConf "d".toList) ['x'] 0 := by
      rw [sampleConf_pieces]
      exact expands_lits ['x']
    have host : Expands sampleConf (valuePieces sampleConf "h".toList) ['n', '.', 'x'] 1 := by
      rw [sampleConf_pieces]
      exact ((domain.ref .nil).lit '.').lit 'n'
    rintro result ⟨k, expands⟩
    have whole := expands.unique (host.ref (expands_lits [':', '1']))
    rw [whole.1]
    decide
  · intro ps steps
    refine closedInOrder_of_no_close (by decide) ?_ steps
    intro vname
    rw [sampleConf_pieces]
    split_ifs <;> simp

/-- Every opening mark is followed by a closing one later on. -/
def Terminated (text : Str) : Prop :=
  ∀ suffix ∈ text.tails, openMark <+: suffix → '\x7d' ∈ suffix

instance (text : Str) : Decidable (Terminated text) :=
  inferInstanceAs (Decidable (∀ suffix ∈ text.tails, _ → _))

/-- The text and the values are terminated, and no variable refers to
itself. -/
structure WellFormed (conf : SortedMap Str Str) (v : Str) : Prop where
  text : Terminated v
  values : ∀ vname, Terminated (valueOf conf vname)
  acyclic : Acyclic conf

/-- A dollar sign, and a variable whose value only seems to refer to itself
after a round. -/
def dollarConf : SortedMap Str Str where
  entries := [("a".toList, "$".toList), ("b".toList, "$\x7ba\x7d\x7bb\x7d".toList)]
  sorted := by decide

theorem dollarConf_value (vname : Str) :
    valueOf dollarConf vname =
      if vname = "a".toList then "$".toList
      else if vname = "b".toList then "$\x7ba\x7d\x7bb\x7d".toList
      else [] := by
  simp only [valueOf, dollarConf, SortedMap.get, SortedMap.lookup]
  split_ifs <;> rfl

theorem wellFormed_dollarConf : WellFormed dollarConf "$\x7bb\x7d".toList where
  text := by decide
  values := by
    intro vname
    rw [dollarConf_value]
    split_ifs <;> decide
  acyclic := by
    refine @acyclic_of_rank _
      (fun vname => if vname = "b".toList then 1 else 0)
      fun vname other refers => ?_
    rw [Refers, valuePieces, dollarConf_value] at refers
    split_ifs at refers with dollar looping
    · exact absurd refers (by simp [pieces, Hh.dollar])
    · have shape :
          pieces "$\x7ba\x7d\x7bb\x7d".toList =
            [.ref "a".toList, .lit '\x7b', .lit 'b', .lit '\x7d'] := by
        decide
      have only : other = "a".toList := by
        rw [shape] at refers
        simpa using refers
      rw [only, looping]
      decide
    · simp [pieces] at refers

/-- `}${x}` ends the process, and `${b}` is replaced again and again. -/
theorem marks_out_of_order :
    (WellFormed SortedMap.empty "\x7d$\x7bx\x7d".toList ∧
      resolveVar SortedMap.empty 1 "\x7d$\x7bx\x7d".toList = some .outOfRange ∧
      ¬ Resolves SortedMap.empty "\x7d$\x7bx\x7d".toList) ∧
      WellFormed dollarConf "$\x7bb\x7d".toList ∧
      ¬ Resolves dollarConf "$\x7bb\x7d".toList := by
  have empty : WellFormed SortedMap.empty "\x7d$\x7bx\x7d".toList :=
    ⟨by decide, fun vname => by simp [valueOf, Terminated, openMark],
      @acyclic_of_rank _ (fun _ => 0) fun vname other refers => by
        simp [Refers, valuePieces, valueOf, pieces] at refers⟩
  -- the values take turns
  have rounds : ∀ fuel,
      resolveVar dollarConf fuel "$\x7bb\x7d".toList = none ∧
        resolveVar dollarConf fuel "$\x7ba\x7d\x7bb\x7d".toList = none := by
    intro fuel
    induction fuel with
    | zero => exact ⟨rfl, rfl⟩
    | succ fuel ih => exact ⟨ih.2, ih.1⟩
  refine ⟨⟨empty, rfl, ?_⟩, wellFormed_dollarConf, ?_⟩
  · rintro ⟨fuel, result, returned, _⟩
    cases fuel with
    | zero => cases returned
    | succ fuel =>
      have ended :
          resolveVar SortedMap.empty (fuel + 1) "\x7d$\x7bx\x7d".toList = some .outOfRange := rfl
      rw [ended] at returned
      cases returned
  · rintro ⟨fuel, result, returned, _⟩
    rw [(rounds fuel).1] at returned
    cases returned

end Sshserv.Hh
