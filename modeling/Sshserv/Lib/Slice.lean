import Mathlib

/-!
# Slices

Slices whose elements take 16 bytes each, as interface values do.  The memory
for them has fewer than `2 ^ 63` bytes, so a sum of two lengths does not
overflow a 64-bit integer.  Where an operation panics, its result is `none`.
-/

namespace Sshserv.Lib

structure Slice (α : Type) where
  elems : List α
  fits : 16 * elems.length < 2 ^ 63

namespace Slice

variable {α β : Type}

def len (s : Slice α) : Nat :=
  s.elems.length

/-- `make([]T, size)`, with the zero value of `T`. -/
def make (zero : α) (size : Int) : Option (Slice α) :=
  if fits : 0 ≤ size ∧ 16 * size.toNat < 2 ^ 63 then
    some ⟨List.replicate size.toNat zero, by
      rw [List.length_replicate]
      exact fits.2⟩
  else none

/-- `s[low:high]`.  The capacity may be larger than the length, but the spare
elements are never used here. -/
def between (s : Slice α) (low high : Int) : Option (List α) :=
  if 0 ≤ low ∧ low ≤ high ∧ high ≤ s.len then
    some ((s.elems.drop low.toNat).take (high - low).toNat)
  else none

/-- `s[i] = value`. -/
def store (s : Slice α) (i : Nat) (value : α) : Option (Slice α) :=
  if i < s.len then some ⟨s.elems.set i value, by simpa using s.fits⟩
  else none

/-- `for i, x := range window { s[i] = read x; n += 1 }`, from an index on. -/
def fill (read : α → Option β) : List α → Nat → Nat → Slice β → Option (Slice β × Nat)
  | [], _, n, s => some (s, n)
  | x :: window, i, n, s =>
    match read x with
    | none => none
    | some value =>
      match s.store i value with
      | none => none
      | some s => fill read window (i + 1) (n + 1) s

def map (f : α → β) (s : Slice α) : Slice β :=
  ⟨s.elems.map f, by simpa using s.fits⟩

@[simp]
theorem len_map (f : α → β) (s : Slice α) : (s.map f).len = s.len :=
  List.length_map f

theorem exists_make (zero : α) {size : Nat} (fits : 16 * size < 2 ^ 63) :
    ∃ s, make zero (size : Int) = some s ∧ s.len = size := by
  exact ⟨_, dif_pos ⟨Int.natCast_nonneg size, fits⟩, List.length_replicate⟩

theorem between_of_le (s : Slice α) {low high : Nat} (ordered : low ≤ high)
    (inside : high ≤ s.len) :
    s.between low high = some ((s.elems.drop low).take (high - low)) := by
  rw [between, if_pos (by omega)]
  have count : ((high : Int) - low).toNat = high - low := by omega
  rw [count, Int.toNat_natCast]

theorem between_of_neg (s : Slice α) {low : Int} (negative : low < 0) (high : Int) :
    s.between low high = none :=
  if_neg (by omega)

theorem fill_eq_some {read : α → Option β} {window : List α} {items : List β}
    (reads : window.map read = items.map some) (done : List β) {rest : List β}
    (room : items.length ≤ rest.length) {s : Slice β} (shape : s.elems = done ++ rest) (n : Nat) :
    ∃ after, fill read window done.length n s = some (after, n + items.length) ∧
      after.elems = done ++ (items ++ rest.drop items.length) := by
  induction window generalizing items done rest s n with
  | nil =>
    obtain rfl : items = [] := by simpa using reads.symm
    exact ⟨s, rfl, by simpa using shape⟩
  | cons x window ih =>
    cases items with
    | nil => simp at reads
    | cons value items =>
      cases rest with
      | nil => simp at room
      | cons old rest =>
        rw [List.map_cons, List.map_cons, List.cons.injEq] at reads
        have inside : done.length < s.len := by
          rw [len, shape]
          simp
        have written : s.elems.set done.length value = (done ++ [value]) ++ rest := by
          rw [shape]
          simp
        obtain ⟨after, filled, elems⟩ :=
          ih reads.2 (done ++ [value]) (by simpa using room)
            (s := ⟨_, by simpa using s.fits⟩) written (n + 1)
        refine ⟨after, ?_, by simpa using elems⟩
        rw [fill, reads.1]
        simp only [store, inside, if_true]
        rw [List.length_append, List.length_singleton] at filled
        rw [filled, List.length_cons, Nat.add_right_comm, Nat.add_assoc]

end Slice

end Sshserv.Lib
