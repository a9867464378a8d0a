import Mathlib

/-!
# Words that commute

The concatenation of a list of words does not depend on their order exactly
when every two of them commute; it is enough that each word can be postponed
past those that follow it.
-/

namespace Sshserv.Lib.Words

variable {α : Type}

def CommuteWords (first second : List α) : Prop :=
  first ++ second = second ++ first

instance [DecidableEq α] (first second : List α) : Decidable (CommuteWords first second) :=
  inferInstanceAs (Decidable (first ++ second = second ++ first))

theorem commute_ofList_iff {first second : List α} :
    Commute (FreeMonoid.ofList first) (FreeMonoid.ofList second) ↔ CommuteWords first second :=
  Iff.rfl

theorem flatten_eq_of_perm {words other : List (List α)} (perm : words.Perm other)
    (commute : words.Pairwise CommuteWords) :
    words.flatten = other.flatten := by
  have pairs : (words.map FreeMonoid.ofList).Pairwise Commute := by
    rw [List.pairwise_map]
    exact commute.imp commute_ofList_iff.mpr
  have products := (perm.map FreeMonoid.ofList).prod_eq' pairs
  rw [← FreeMonoid.ofList_flatten, ← FreeMonoid.ofList_flatten] at products
  exact FreeMonoid.ofList.injective products

theorem pairwise_of_postponed {words : List (List α)} {whole : List α} (same :
      ∀ before word between after, words = before ++ word :: between ++ after →
          (before ++ between ++ word :: after).flatten = whole) :
    words.Pairwise CommuteWords := by
  rw [List.pairwise_iff_forall_sublist]
  intro first second sub
  obtain ⟨left, right, rfl, firstMember, rest⟩ := List.cons_sublist_iff.mp sub
  obtain ⟨before, middle, rfl⟩ := List.append_of_mem firstMember
  obtain ⟨between, after, rfl⟩ := List.append_of_mem (List.singleton_sublist.mp rest)
  have upTo := same before first (middle ++ between) (second :: after) (by simp)
  have past := same before first (middle ++ between ++ [second]) after (by simp)
  have equal := upTo.trans past.symm
  simp only [List.flatten_append, List.flatten_cons, List.flatten_nil,
    List.append_assoc, List.append_nil, List.append_cancel_left_eq] at equal
  rw [← List.append_assoc, ← List.append_assoc] at equal
  exact List.append_cancel_right equal

end Sshserv.Lib.Words
