import Mathlib

/-!
# Removal by swapping with the last entry

A slice forgets an entry by writing its last entry over it and dropping the
last place.  What is left is the rest of the entries (`swapRemoveAt_perm`).
-/

namespace Sshserv.Lib

variable {α : Type}

/-- The last entry takes the place of the one at index `i`. -/
def swapRemoveAt (entries : List α) (i : Nat) : List α :=
  match entries.getLast? with
  | none => []
  | some last => (entries.set i last).dropLast

def swapRemoveFirst (wanted : α → Bool) (entries : List α) : Option (List α) :=
  (entries.findIdx? wanted).map (swapRemoveAt entries)

@[simp]
theorem swapRemoveAt_concat (front : List α) (last : α) (i : Nat) :
    swapRemoveAt (front ++ [last]) i = if i < front.length then front.set i last else front := by
  by_cases inside : i < front.length
  · have written : (front ++ [last]).set i last = front.set i last ++ [last] := by
      rw [List.set_append_left _ _ inside]
    simp [swapRemoveAt, inside, written]
  · have behind : (front ++ [last]).set i last = front ++ [last] := by
      rw [List.set_append_right _ _ (Nat.le_of_not_lt inside)]
      cases i - front.length <;> rfl
    simp [swapRemoveAt, inside, behind]

theorem cons_set_perm (entries : List α) (i : Nat) (inside : i < entries.length) (new : α) :
    (entries[i] :: entries.set i new).Perm (new :: entries) := by
  induction entries generalizing i with
  | nil => simp at inside
  | cons head rest ih =>
    cases i with
    | zero => exact List.Perm.swap new head rest
    | succ i =>
      have shorter : i < rest.length := Nat.lt_of_succ_lt_succ inside
      calc rest[i] :: head :: rest.set i new
          |>.Perm (head :: rest[i] :: rest.set i new) :=
            List.Perm.swap _ _ _
        _ |>.Perm (head :: new :: rest) := (ih i shorter).cons head
        _ |>.Perm (new :: head :: rest) := List.Perm.swap _ _ _

/-- What is removed and what is left are the entries together. -/
theorem swapRemoveAt_perm (entries : List α) (i : Nat) (inside : i < entries.length) :
    entries.Perm (entries[i] :: swapRemoveAt entries i) := by
  induction entries using List.reverseRecOn with
  | nil => simp at inside
  | append_singleton front last _ =>
    rw [swapRemoveAt_concat]
    have moved : (front ++ [last]).Perm (last :: front) := List.perm_append_singleton last front
    by_cases before : i < front.length
    · rw [if_pos before, List.getElem_append_left before]
      exact moved.trans (cons_set_perm front i before last).symm
    · have atEnd : i = front.length := by
        simp at inside
        omega
      subst atEnd
      simp

theorem swapRemoveFirst_eq_none_iff {wanted : α → Bool} {entries : List α} :
    swapRemoveFirst wanted entries = none ↔ ∀ entry ∈ entries, wanted entry = false := by
  simp [swapRemoveFirst, List.findIdx?_eq_none_iff]

theorem swapRemoveFirst_perm {wanted : α → Bool} {entries rest : List α}
    (removed : swapRemoveFirst wanted entries = some rest) :
    ∃ entry, wanted entry = true ∧ entries.Perm (entry :: rest) := by
  obtain ⟨i, found, rfl⟩ := Option.map_eq_some_iff.mp removed
  obtain ⟨inside, matching, _⟩ := List.findIdx?_eq_some_iff_getElem.mp found
  exact ⟨entries[i], matching, swapRemoveAt_perm entries i inside⟩

end Sshserv.Lib
