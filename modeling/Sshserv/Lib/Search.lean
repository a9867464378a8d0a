import Mathlib

/-!
# Search and replacement in texts

`strings.Index` and `strings.ReplaceAll` over lists of any letters: the first
place where a text occurs, and the replacement of its occurrences from the
left, none of which overlap.
-/

namespace Sshserv.Lib.Search

variable {α : Type} [DecidableEq α]

def index (sub : List α) : List α → Option Nat
  | [] => if sub = [] then some 0 else none
  | c :: rest =>
    if sub.isPrefixOf (c :: rest) then some 0
    else (index sub rest).map (· + 1)

variable {sub rest old : List α} {c : α}

theorem index_cons_of_not_prefix (no : ¬ sub <+: c :: rest) :
    index sub (c :: rest) = (index sub rest).map (· + 1) := by
  rw [index, if_neg (by simpa using no)]

theorem index_append_self (filled : sub ≠ []) (rest : List α) :
    index sub (sub ++ rest) = some 0 := by
  obtain ⟨c, more, rfl⟩ := List.exists_cons_of_ne_nil filled
  rw [List.cons_append, index, if_pos]
  rw [← List.cons_append, List.isPrefixOf_iff_prefix]
  exact List.prefix_append _ _

theorem index_eq_none_iff (filled : sub ≠ []) (text : List α) :
    index sub text = none ↔ ¬ sub <:+: text := by
  induction text with
  | nil => simp [index, filled]
  | cons c rest ih =>
    rw [List.infix_cons_iff, not_or, ← ih, index]
    split
    · rename_i here
      simp [List.isPrefixOf_iff_prefix.mp here]
    · rename_i notHere
      rw [List.isPrefixOf_iff_prefix] at notHere
      simp [notHere]

theorem index_singleton {before : List α} (first : c ∉ before) (after : List α) :
    index [c] (before ++ c :: after) = some before.length := by
  induction before with
  | nil => exact index_append_self (List.cons_ne_nil c []) after
  | cons d rest ih =>
    rw [List.mem_cons, not_or] at first
    rw [List.cons_append, index_cons_of_not_prefix (by simpa using first.1), ih first.2]
    rfl

/-- `skip` letters belong to an occurrence that has been replaced. -/
def replaceFrom (old new : List α) : Nat → List α → List α
  | _, [] => []
  | skip + 1, _ :: rest => replaceFrom old new skip rest
  | 0, c :: rest =>
    if old.isPrefixOf (c :: rest) then
      new ++ replaceFrom old new (old.length - 1) rest
    else c :: replaceFrom old new 0 rest

/-- All occurrences of `old`, which is not empty. -/
def replaceAll (text old new : List α) : List α :=
  replaceFrom old new 0 text

theorem replaceFrom_skip (old new skipped rest : List α) :
    replaceFrom old new skipped.length (skipped ++ rest) = replaceFrom old new 0 rest := by
  induction skipped with
  | nil => rfl
  | cons c more ih => exact ih

theorem replaceAll_hit (filled : old ≠ []) (new rest : List α) :
    replaceAll (old ++ rest) old new = new ++ replaceAll rest old new := by
  obtain ⟨c, more, rfl⟩ := List.exists_cons_of_ne_nil filled
  have here : (c :: more).isPrefixOf (c :: (more ++ rest)) = true := by
    rw [List.isPrefixOf_iff_prefix, ← List.cons_append]
    exact List.prefix_append _ _
  rw [replaceAll, List.cons_append, replaceFrom, if_pos here]
  exact congrArg (new ++ ·) (replaceFrom_skip _ new more rest)

theorem replaceAll_miss (no : ¬ old <+: c :: rest) (new : List α) :
    replaceAll (c :: rest) old new = c :: replaceAll rest old new := by
  rw [replaceAll, replaceFrom, if_neg (by simpa using no)]
  rfl

end Sshserv.Lib.Search
