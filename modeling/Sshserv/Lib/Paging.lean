import Mathlib

/-!
# Reading a list page by page

A loop that fetches pages one after another, in steps of their size, until it
gets an empty one.  If they are those of one list, the loop ends and they make
up the list.
-/

namespace Sshserv.Lib.Paging

variable {α ε : Type}

def pageOf (items : List α) (size i : Nat) : List α :=
  (items.drop i).take size

/-- The pages from `i` on, each with its offset.  The loop ends at an error or
at an empty page; `none` if that takes more than `fuel` calls. -/
def pages (fetch : Nat → Except ε (List α)) (size : Nat) : Nat → Nat → Option (List (Nat × List α))
  | 0, _ => none
  | fuel + 1, i =>
    match fetch i with
    | .error _ => some []
    | .ok [] => some []
    | .ok (first :: rest) => (pages fetch size fuel (i + size)).map ((i, first :: rest) :: ·)

section List

variable {fetch : Nat → Except ε (List α)} {items : List α} {size : Nat}

theorem pageOf_eq_nil_iff (positive : 0 < size) {i : Nat} :
    pageOf items size i = [] ↔ items.length ≤ i := by
  simp only [pageOf, List.take_eq_nil_iff, List.drop_eq_nil_iff]
  omega

theorem pageOf_append_drop (items : List α) (size i : Nat) :
    pageOf items size i ++ items.drop (i + size) = items.drop i := by
  rw [pageOf, ← List.drop_drop]
  exact List.take_append_drop size (items.drop i)

variable (positive : 0 < size) (fetches : ∀ i, fetch i = .ok (pageOf items size i))
include positive fetches

/-- With a call for every item the loop ends.  Its pages are the ones that are
not empty, and together they are the list. -/
theorem pages_of_list {fuel i : Nat} (enough : items.length - i < fuel) :
    ∃ found, pages fetch size fuel i = some found ∧
      (found.map Prod.snd).flatten = items.drop i ∧
      ∀ j page, (j, page) ∈ found ↔
        (∃ k, j = i + size * k) ∧ page = pageOf items size j ∧ page ≠ [] := by
  induction fuel generalizing i with
  | zero => omega
  | succ fuel ih =>
    rw [pages, fetches i]
    cases page : pageOf items size i with
    | nil =>
      have done := (pageOf_eq_nil_iff positive).mp page
      refine ⟨[], rfl, ?_, ?_⟩
      · simp [List.drop_eq_nil_of_le done]
      · intro j later
        simp only [List.not_mem_nil, false_iff, not_and]
        rintro ⟨k, rfl⟩ rfl nonempty
        exact nonempty ((pageOf_eq_nil_iff positive).mpr (by omega))
    | cons first rest =>
      have more : i < items.length := by
        by_contra done
        have none := (pageOf_eq_nil_iff positive).mpr (not_lt.mp done)
        rw [none] at page
        cases page
      obtain ⟨later, collects, whole, members⟩ :=
        ih (show items.length - (i + size) < fuel by omega)
      refine ⟨(i, first :: rest) :: later, ?_, ?_, ?_⟩
      · simp only [collects, Option.map_some]
      · rw [List.map_cons, List.flatten_cons, whole, ← page]
        exact pageOf_append_drop items size i
      · intro j other
        rw [List.mem_cons, members, Prod.mk.injEq]
        constructor
        · rintro (⟨rfl, rfl⟩ | ⟨⟨k, rfl⟩, rfl, nonempty⟩)
          · exact ⟨⟨0, rfl⟩, page.symm, by simp⟩
          · exact ⟨⟨k + 1, by ring⟩, rfl, nonempty⟩
        · rintro ⟨⟨k, rfl⟩, rfl, nonempty⟩
          cases k with
          | zero => exact Or.inl ⟨rfl, page⟩
          | succ k => exact Or.inr ⟨⟨k, by ring⟩, rfl, nonempty⟩

end List

end Sshserv.Lib.Paging
