import Mathlib

/-!
# Quota updates and the pool of connections

`updateQuota` of the SQL providers.  `Begin` takes a connection that the
transaction keeps, while `Prepare` and `Exec` each take one of their own.  The
SQLite provider has no transaction.
-/

namespace Sshserv.DataProvider.Pool

inductive Driver where
  | mysql
  | pgsql
  | sqlite
  deriving DecidableEq

def Driver.begins : Driver → Bool
  | mysql => true
  | pgsql => true
  | sqlite => false

/-- Where a call of `updateQuota` is. -/
inductive Phase where
  /-- Waits for the connection of the transaction. -/
  | beginning
  /-- Waits for a connection to prepare the statement on. -/
  | prepare
  | preparing
  /-- Waits for a connection to execute the statement on. -/
  | exec
  | executing
  /-- The statement is closed; what is left is to commit or to roll back. -/
  | closing
  deriving DecidableEq

def Driver.first (driver : Driver) : Phase :=
  if driver.begins then .beginning else .prepare

/-- The connections that a transaction keeps. -/
def Driver.kept (driver : Driver) : Nat :=
  if driver.begins then 1 else 0

def Driver.held (driver : Driver) : Phase → Nat
  | .beginning => 0
  | .prepare => driver.kept
  | .preparing => driver.kept + 1
  | .exec => driver.kept
  | .executing => driver.kept + 1
  | .closing => driver.kept

/-- The next phase of a call, or none when it returns.  To get a connection,
or an error from trying to open one, the pool must not be used up. -/
inductive Advance (free : Prop) : Phase → Option Phase → Prop where
  | begun (room : free) : Advance free .beginning (some .prepare)
  | beginFailed (room : free) : Advance free .beginning none
  | prepare (room : free) : Advance free .prepare (some .preparing)
  | prepareRefused (room : free) : Advance free .prepare (some .closing)
  | prepared : Advance free .preparing (some .exec)
  | prepareFailed : Advance free .preparing (some .closing)
  | exec (room : free) : Advance free .exec (some .executing)
  | execRefused (room : free) : Advance free .exec (some .closing)
  | executed : Advance free .executing (some .closing)
  | closed : Advance free .closing none

section System

variable (driver : Driver)

def taken (calls : List Phase) : Nat :=
  (calls.map driver.held).sum

/-- A pool of `size` connections with at most `most` calls at a time. -/
inductive Step (size most : Nat) : List Phase → List Phase → Prop where
  | arrive (calls : List Phase) (few : calls.length < most) :
      Step size most calls (calls ++ [driver.first])
  | advance (before after : List Phase) (phase : Phase) (next : Option Phase)
      (moves : Advance (taken driver (before ++ phase :: after) < size) phase next) :
      Step size most (before ++ phase :: after) (before ++ next.toList ++ after)

/-- There are calls, and none of them can go on. -/
def Stuck (size : Nat) (calls : List Phase) : Prop :=
  calls ≠ [] ∧ ∀ phase ∈ calls, ∀ next, ¬ Advance (taken driver calls < size) phase next

def NoDeadlock (size most : Nat) : Prop :=
  ∀ calls, Relation.ReflTransGen (Step driver size most) [] calls → ¬ Stuck driver size calls

end System

variable {driver : Driver} {size most : Nat} {calls : List Phase}

/-- Phases in which a call needs a connection to go on. -/
def Phase.waits : Phase → Bool
  | beginning => true
  | prepare => true
  | exec => true
  | _ => false

theorem advance_of_not_waits {phase : Phase} (runs : phase.waits = false) (free : Prop) :
    ∃ next, Advance free phase next := by
  cases phase with
  | beginning => cases runs
  | prepare => cases runs
  | exec => cases runs
  | preparing => exact ⟨_, .prepared⟩
  | executing => exact ⟨_, .executed⟩
  | closing => exact ⟨_, .closed⟩

theorem advance_waits_iff {phase : Phase} (waits : phase.waits) (free : Prop) :
    (∃ next, Advance free phase next) ↔ free := by
  constructor
  · intro moves
    obtain ⟨next, moves⟩ := moves
    cases moves with
    | begun room => exact room
    | beginFailed room => exact room
    | prepare room => exact room
    | prepareRefused room => exact room
    | exec room => exact room
    | execRefused room => exact room
    | prepared => cases waits
    | prepareFailed => cases waits
    | executed => cases waits
    | closed => cases waits
  · intro room
    cases phase with
    | beginning => exact ⟨_, .begun room⟩
    | prepare => exact ⟨_, .prepare room⟩
    | exec => exact ⟨_, .exec room⟩
    | preparing => cases waits
    | executing => cases waits
    | closing => cases waits

theorem stuck_iff :
    Stuck driver size calls ↔
      calls ≠ [] ∧ (∀ phase ∈ calls, phase.waits = true) ∧ size ≤ taken driver calls := by
  constructor
  · intro stuck
    obtain ⟨busy, blocked⟩ := stuck
    have allWait : ∀ phase ∈ calls, phase.waits = true := by
      intro phase member
      by_contra runs
      obtain ⟨next, moves⟩ :=
        advance_of_not_waits (Bool.eq_false_of_not_eq_true runs) (taken driver calls < size)
      exact blocked phase member next moves
    obtain ⟨phase, member⟩ := List.exists_mem_of_ne_nil calls busy
    refine ⟨busy, allWait, ?_⟩
    by_contra room
    obtain ⟨next, moves⟩ := (advance_waits_iff (allWait phase member) _).mpr (not_le.mp room)
    exact blocked phase member next moves
  · intro conditions
    obtain ⟨busy, allWait, full⟩ := conditions
    refine ⟨busy, ?_⟩
    intro phase member next moves
    have room := (advance_waits_iff (allWait phase member) _).mp ⟨next, moves⟩
    omega

theorem held_le_of_waits {phase : Phase} (waits : phase.waits) :
    driver.held phase ≤ driver.kept := by
  cases phase with
  | beginning => exact Nat.zero_le _
  | prepare => exact le_rfl
  | exec => exact le_rfl
  | preparing => cases waits
  | executing => cases waits
  | closing => cases waits

/-- Calls that wait hold nothing but their transactions. -/
theorem taken_le_of_waits (allWait : ∀ phase ∈ calls, phase.waits = true) :
    taken driver calls ≤ calls.length * driver.kept := by
  have bound : ∀ count ∈ calls.map driver.held, count ≤ driver.kept := by
    intro count member
    obtain ⟨phase, inCalls, rfl⟩ := List.mem_map.mp member
    exact held_le_of_waits (allWait phase inCalls)
  have sum := List.sum_le_card_nsmul _ _ bound
  simpa [taken] using sum

theorem length_le_of_reachable
    (reachable : Relation.ReflTransGen (Step driver size most) [] calls) :
    calls.length ≤ most := by
  induction reachable with
  | refl => exact Nat.zero_le _
  | tail _ step ih =>
    cases step with
    | arrive _ few =>
      simp only [List.length_append, List.length_singleton]
      omega
    | advance before after phase next moves =>
      have shrinks : next.toList.length ≤ 1 := by
        cases next <;> simp
      simp only [List.length_append, List.length_cons] at ih ⊢
      omega

private theorem taken_begun (begins : driver.begins) (count : Nat) :
    taken driver (List.replicate count .prepare) = count := by
  simp [taken, Driver.held, Driver.kept, begins]

/-- As many calls as the pool allows can all have begun. -/
theorem reachable_begun (begins : driver.begins) {count : Nat} (room : count ≤ size)
    (few : count ≤ most) :
    Relation.ReflTransGen (Step driver size most) [] (List.replicate count .prepare) := by
  induction count with
  | zero => exact Relation.ReflTransGen.refl
  | succ count ih =>
    have earlier := ih (by omega) (by omega)
    have begun : Driver.first driver = .beginning := by
      simp [Driver.first, begins]
    have arrived :
        Step driver size most (List.replicate count .prepare)
          (List.replicate count .prepare ++ [.beginning]) := by
      rw [← begun]
      apply Step.arrive
      rw [List.length_replicate]
      exact few
    have free : taken driver (List.replicate count .prepare ++ [.beginning]) < size := by
      have before := taken_begun begins count
      simp only [taken, List.map_append, List.sum_append] at before ⊢
      rw [before]
      exact room
    have began :
        Step driver size most
          (List.replicate count .prepare ++ [.beginning])
          (List.replicate count .prepare ++ [.prepare] ++ []) :=
      Step.advance _ [] .beginning (some .prepare) (.begun free)
    rw [List.append_nil] at began
    rw [List.replicate_succ']
    exact (earlier.tail arrived).tail began

/-- A pool of at least one connection is free of deadlocks exactly when there
are fewer calls than connections, or none of them starts a transaction. -/
theorem no_deadlock_iff (driver : Driver) (size most : Nat) (positive : 1 ≤ size) :
    NoDeadlock driver size most ↔ (driver.begins = true → most < size) := by
  constructor
  · intro noDeadlock begins
    by_contra many
    have reachable := reachable_begun begins (le_refl size) (not_lt.mp many)
    refine noDeadlock _ reachable (stuck_iff.mpr ⟨?_, ?_, ?_⟩)
    · simpa using Nat.one_le_iff_ne_zero.mp positive
    · intro phase member
      rw [List.eq_of_mem_replicate member]
      rfl
    · rw [taken_begun begins]
  · intro fewer calls reachable stuck
    obtain ⟨_, allWait, full⟩ := stuck_iff.mp stuck
    have few := length_le_of_reachable reachable
    have bound : taken driver calls ≤ calls.length * driver.kept := taken_le_of_waits allWait
    cases begins : driver.begins with
    | true =>
      have smaller := fewer begins
      simp only [Driver.kept, begins, if_true, Nat.mul_one] at bound
      omega
    | false =>
      simp only [Driver.kept, begins, Bool.false_eq_true, if_false, Nat.mul_zero] at bound
      omega

theorem no_deadlock_two_connections : NoDeadlock .mysql 2 1 :=
  (no_deadlock_iff .mysql 2 1 (by decide)).mpr (by decide)

/-- One call alone gets stuck on a pool of one connection. -/
theorem deadlock_one_connection : ¬ NoDeadlock .mysql 1 1 := by
  intro noDeadlock
  have reachable : Relation.ReflTransGen (Step .mysql 1 1) [] (List.replicate 1 .prepare) :=
    reachable_begun rfl le_rfl le_rfl
  exact noDeadlock _ reachable (stuck_iff.mpr ⟨by decide, by decide, by decide⟩)

end Sshserv.DataProvider.Pool
