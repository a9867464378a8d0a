import Mathlib

/-!
# Maps kept in the order of their keys

A finite map as the list of its entries with strictly increasing keys: what a
B+ tree presents to a cursor.  Two maps with the same lookups are equal
(`ext_get`).
-/

namespace Sshserv.Lib

variable {κ ν : Type} [LinearOrder κ]

/-- Entries with strictly increasing keys. -/
structure SortedMap (κ ν : Type) [LinearOrder κ] where
  entries : List (κ × ν)
  sorted : entries.Pairwise fun left right => left.1 < right.1

namespace SortedMap

def empty : SortedMap κ ν where
  entries := []
  sorted := List.Pairwise.nil

def lookup (key : κ) : List (κ × ν) → Option ν
  | [] => none
  | (first, value) :: rest => if key = first then some value else lookup key rest

def get (map : SortedMap κ ν) (key : κ) : Option ν :=
  lookup key map.entries

@[simp]
theorem get_empty (key : κ) : (empty : SortedMap κ ν).get key = none :=
  rfl

variable {entries : List (κ × ν)} {μ : Type}

private theorem lookup_eq_some_iff
    (sorted : entries.Pairwise fun left right => left.1 < right.1) (key : κ) (value : ν) :
    lookup key entries = some value ↔ (key, value) ∈ entries := by
  induction entries with
  | nil => simp [lookup]
  | cons head tail ih =>
    obtain ⟨below, tailSorted⟩ := List.pairwise_cons.mp sorted
    by_cases here : key = head.1
    · have notInTail : (key, value) ∉ tail := fun member =>
        (here ▸ below (key, value) member).false
      rw [lookup, if_pos here, Option.some.injEq, List.mem_cons]
      constructor
      · rintro rfl
        exact Or.inl (by rw [here])
      · rintro (equal | member)
        · rw [← equal]
        · exact absurd member notInTail
    · rw [lookup, if_neg here, ih tailSorted, List.mem_cons]
      constructor
      · exact Or.inr
      · rintro (equal | member)
        · exact absurd (congrArg Prod.fst equal) here
        · exact member

theorem mem_entries_iff (map : SortedMap κ ν) (key : κ) (value : ν) :
    (key, value) ∈ map.entries ↔ map.get key = some value :=
  (lookup_eq_some_iff map.sorted key value).symm

private def insertEntry (key : κ) (value : ν) : List (κ × ν) → List (κ × ν)
  | [] => [(key, value)]
  | head :: tail =>
    if key < head.1 then (key, value) :: head :: tail
    else if key = head.1 then (key, value) :: tail
    else head :: insertEntry key value tail

private theorem mem_insertEntry
    {key : κ} {value : ν} {entry : κ × ν} (member : entry ∈ insertEntry key value entries) :
    entry = (key, value) ∨ entry ∈ entries := by
  induction entries with
  | nil => exact Or.inl (List.mem_singleton.mp member)
  | cons head tail ih =>
    unfold insertEntry at member
    split at member
    · exact List.mem_cons.mp member
    · split at member
      · rcases List.mem_cons.mp member with here | there
        · exact Or.inl here
        · exact Or.inr (List.mem_cons_of_mem head there)
      · rcases List.mem_cons.mp member with here | there
        · exact Or.inr (here ▸ List.mem_cons_self)
        · rcases ih there with new | old
          · exact Or.inl new
          · exact Or.inr (List.mem_cons_of_mem head old)

private theorem insertEntry_sorted
    (sorted : entries.Pairwise fun left right => left.1 < right.1) (key : κ) (value : ν) :
    (insertEntry key value entries).Pairwise fun left right => left.1 < right.1 := by
  induction entries with
  | nil => simp [insertEntry]
  | cons head tail ih =>
    obtain ⟨below, tailSorted⟩ := List.pairwise_cons.mp sorted
    unfold insertEntry
    split
    · rename_i smaller
      refine List.pairwise_cons.mpr ⟨?_, sorted⟩
      intro entry member
      rcases List.mem_cons.mp member with rfl | inTail
      · exact smaller
      · exact smaller.trans (below entry inTail)
    · split
      · rename_i equal
        exact List.pairwise_cons.mpr ⟨fun entry member => equal ▸ below entry member, tailSorted⟩
      · rename_i notSmaller notEqual
        refine List.pairwise_cons.mpr ⟨?_, ih tailSorted⟩
        intro entry member
        rcases mem_insertEntry member with rfl | old
        · exact lt_of_le_of_ne (not_lt.mp notSmaller) (Ne.symm notEqual)
        · exact below entry old

private theorem lookup_insertEntry (key other : κ) (value : ν) (entries : List (κ × ν)) :
    lookup other (insertEntry key value entries) =
      if other = key then some value else lookup other entries := by
  induction entries with
  | nil => rfl
  | cons head tail ih =>
    unfold insertEntry
    split
    · rfl
    · split
      · rename_i equal
        by_cases here : other = key
        · simp [lookup, here]
        · have notHead : other ≠ head.1 := fun same =>
            here (same.trans equal.symm)
          simp [lookup, here, notHead]
      · rename_i notEqual
        by_cases atHead : other = head.1
        · have notKey : other ≠ key := fun same =>
            notEqual (same.symm.trans atHead)
          simp [lookup, atHead, Ne.symm notEqual]
        · simp [lookup, atHead, ih]

def put (map : SortedMap κ ν) (key : κ) (value : ν) : SortedMap κ ν where
  entries := insertEntry key value map.entries
  sorted := insertEntry_sorted map.sorted key value

@[simp]
theorem get_put (map : SortedMap κ ν) (key other : κ) (value : ν) :
    (map.put key value).get other = if other = key then some value else map.get other :=
  lookup_insertEntry key other value map.entries

private theorem lookup_filter (key other : κ) (entries : List (κ × ν)) :
    lookup other (entries.filter fun entry => entry.1 ≠ key) =
      if other = key then none else lookup other entries := by
  induction entries with
  | nil => simp [lookup]
  | cons head tail ih =>
    by_cases removed : head.1 = key
    · rw [List.filter_cons_of_neg (by simpa using removed), ih]
      by_cases here : other = key
      · simp [here]
      · have notHead : other ≠ head.1 := fun same =>
          here (same.trans removed)
        simp [here, lookup, notHead]
    · rw [List.filter_cons_of_pos (by simpa using removed)]
      by_cases atHead : other = head.1
      · have notKey : other ≠ key := fun same =>
          removed (atHead.symm.trans same)
        simp [lookup, atHead, removed]
      · rw [lookup, if_neg atHead, lookup, if_neg atHead]
        exact ih

def delete (map : SortedMap κ ν) (key : κ) : SortedMap κ ν where
  entries := map.entries.filter fun entry => entry.1 ≠ key
  sorted := map.sorted.filter _

@[simp]
theorem get_delete (map : SortedMap κ ν) (key other : κ) :
    (map.delete key).get other = if other = key then none else map.get other :=
  lookup_filter key other map.entries

def mapValues {μ : Type} (map : SortedMap κ ν) (change : ν → μ) : SortedMap κ μ where
  entries := map.entries.map fun entry => (entry.1, change entry.2)
  sorted := List.pairwise_map.mpr map.sorted

@[simp]
theorem get_mapValues (map : SortedMap κ ν) (change : ν → μ) (key : κ) :
    (map.mapValues change).get key = (map.get key).map change := by
  simp only [get, mapValues]
  induction map.entries with
  | nil => rfl
  | cons head tail ih =>
    simp only [List.map_cons, lookup]
    split
    · rfl
    · exact ih

theorem values_mapValues (map : SortedMap κ ν) (change : ν → μ) :
    (map.mapValues change).entries.map Prod.snd = (map.entries.map Prod.snd).map change := by
  simp [mapValues]

def filterValues (map : SortedMap κ ν) (keep : ν → Bool) : SortedMap κ ν where
  entries := map.entries.filter fun entry => keep entry.2
  sorted := map.sorted.filter _

@[simp]
theorem get_filterValues (map : SortedMap κ ν) (keep : ν → Bool) (key : κ) :
    (map.filterValues keep).get key = (map.get key).filter keep := by
  apply Option.ext
  intro value
  rw [← mem_entries_iff, Option.filter_eq_some_iff, ← mem_entries_iff]
  simp [filterValues]

private theorem entries_ext {left right : List (κ × ν)}
    (leftSorted : left.Pairwise fun first second => first.1 < second.1)
    (rightSorted : right.Pairwise fun first second => first.1 < second.1)
    (same : ∀ entry, entry ∈ left ↔ entry ∈ right) :
    left = right := by
  induction left generalizing right with
  | nil =>
    cases right with
    | nil => rfl
    | cons head tail => exact absurd ((same head).mpr List.mem_cons_self) (by simp)
  | cons head tail ih =>
    cases right with
    | nil => exact absurd ((same head).mp List.mem_cons_self) (by simp)
    | cons first rest =>
      obtain ⟨below, tailSorted⟩ := List.pairwise_cons.mp leftSorted
      obtain ⟨above, restSorted⟩ := List.pairwise_cons.mp rightSorted
      -- the smallest keys agree, so the heads are the same entry
      have headEq : head = first := by
        rcases List.mem_cons.mp ((same head).mp List.mem_cons_self) with equal | inRest
        · exact equal
        · rcases List.mem_cons.mp ((same first).mpr List.mem_cons_self) with equal | inTail
          · exact equal.symm
          · exact absurd (above head inRest) (lt_asymm (below first inTail))
      subst headEq
      have tailSame : ∀ entry, entry ∈ tail ↔ entry ∈ rest := by
        intro entry
        constructor
        · intro member
          rcases List.mem_cons.mp
            ((same entry).mp (List.mem_cons_of_mem head member))
            with equal | inRest
          · exact absurd (equal ▸ below entry member) (lt_irrefl _)
          · exact inRest
        · intro member
          rcases List.mem_cons.mp
            ((same entry).mpr (List.mem_cons_of_mem head member))
            with equal | inTail
          · exact absurd (equal ▸ above entry member) (lt_irrefl _)
          · exact inTail
      rw [ih tailSorted restSorted tailSame]

theorem ext_get {left right : SortedMap κ ν} (same : ∀ key, left.get key = right.get key) :
    left = right := by
  have entriesEq : left.entries = right.entries := by
    apply entries_ext left.sorted right.sorted
    rintro ⟨key, value⟩
    rw [left.mem_entries_iff, right.mem_entries_iff, same key]
  cases left
  cases right
  cases entriesEq
  rfl

end SortedMap

end Sshserv.Lib
