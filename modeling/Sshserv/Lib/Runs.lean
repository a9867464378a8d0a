import Mathlib

/-!
# Runs of a deterministic machine

A run applies a list of events to a state.  An invariant that admissible steps
keep holds in every state that an admissible run passes through.
-/

namespace Sshserv.Lib.Runs

variable {σ ε : Type} (step : σ → ε → σ)

def run (start : σ) (events : List ε) : σ :=
  events.foldl step start

/-- Every event meets the condition in the state it is applied to. -/
def Admissible (condition : σ → ε → Prop) : σ → List ε → Prop
  | _, [] => True
  | state, event :: rest => condition state event ∧ Admissible condition (step state event) rest

/-- A state that a run passes through, its first and its last included. -/
def Visits (start : σ) (events : List ε) (state : σ) : Prop :=
  ∃ first second, events = first ++ second ∧ run step start first = state

/-- A run applies `event` to `state`. -/
def Takes (start : σ) (events : List ε) (state : σ) (event : ε) : Prop :=
  ∃ first second, events = first ++ event :: second ∧ run step start first = state

@[simp]
theorem run_nil (start : σ) : run step start [] = start :=
  rfl

@[simp]
theorem run_cons (start : σ) (event : ε) (rest : List ε) :
    run step start (event :: rest) = run step (step start event) rest :=
  rfl

theorem run_append (start : σ) (first second : List ε) :
    run step start (first ++ second) = run step (run step start first) second := by
  simp [run]

theorem visits_run (start : σ) (events : List ε) :
    Visits step start events (run step start events) :=
  ⟨events, [], by simp, rfl⟩

instance (condition : σ → ε → Prop) [∀ state event, Decidable (condition state event)] :
    ∀ state events, Decidable (Admissible step condition state events)
  | _, [] => inferInstanceAs (Decidable True)
  | state, event :: rest =>
    have := instDecidableAdmissible condition (step state event) rest
    inferInstanceAs (Decidable (_ ∧ _))

variable {step}

variable {start state : σ} {events : List ε}

variable {condition : σ → ε → Prop} {event head : ε} {rest : List ε}

theorem admissible_append_iff {first second : List ε} :
    Admissible step condition start (first ++ second) ↔
      Admissible step condition start first ∧
        Admissible step condition (run step start first) second := by
  induction first generalizing start with
  | nil => simp [Admissible]
  | cons event rest ih => simp [Admissible, ih, and_assoc]

theorem Admissible.and_forall {property : ε → Prop}
    (admissible : Admissible step condition start events) (all : ∀ event ∈ events, property event) :
    Admissible step (fun state event => condition state event ∧ property event) start events := by
  induction events generalizing start with
  | nil => trivial
  | cons event rest ih =>
    exact ⟨⟨admissible.1, all event List.mem_cons_self⟩,
      ih admissible.2 fun other member => all other (List.mem_cons_of_mem _ member)⟩

theorem admissible_of_forall {condition : ε → Prop} (all : ∀ event ∈ events, condition event)
    (start : σ) :
    Admissible step (fun _ event => condition event) start events := by
  induction events generalizing start with
  | nil => trivial
  | cons event rest ih =>
    exact ⟨all event List.mem_cons_self,
      ih (fun other member => all other (List.mem_cons_of_mem _ member)) _⟩

section Invariant

variable (condition : σ → ε → Prop) (invariant : σ → Prop) (preserved :
      ∀ state event, invariant state → condition state event → invariant (step state event))
    (initially : invariant start) (admissible : Admissible step condition start events)
include preserved initially admissible

theorem run_invariant : invariant (run step start events) := by
  induction events generalizing start with
  | nil => exact initially
  | cons event rest ih => exact ih (preserved start event initially admissible.1) admissible.2

theorem visits_invariant (visited : Visits step start events state) : invariant state := by
  obtain ⟨first, second, rfl, rfl⟩ := visited
  obtain ⟨before, _⟩ := admissible_append_iff.mp admissible
  exact run_invariant condition invariant preserved initially before

theorem takes_invariant (taken : Takes step start events state event) :
    invariant state ∧ condition state event := by
  obtain ⟨first, second, rfl, rfl⟩ := taken
  obtain ⟨before, now, _⟩ := admissible_append_iff.mp admissible
  exact ⟨run_invariant condition invariant preserved initially before, now⟩

end Invariant

theorem takes_cons_iff :
    Takes step start (head :: rest) state event ↔
      (state = start ∧ event = head) ∨ Takes step (step start head) rest state event := by
  constructor
  · intro taken
    obtain ⟨first, second, events, before⟩ := taken
    cases first with
    | nil =>
      simp only [List.nil_append, List.cons.injEq] at events
      exact Or.inl ⟨before.symm, events.1.symm⟩
    | cons other others =>
      simp only [List.cons_append, List.cons.injEq] at events
      rw [← events.1] at before
      exact Or.inr ⟨others, second, events.2, before⟩
  · intro either
    rcases either with ⟨rfl, rfl⟩ | ⟨first, second, rfl, rfl⟩
    · exact ⟨[], rest, rfl, rfl⟩
    · exact ⟨head :: first, second, rfl, rfl⟩

theorem visits_cons_iff :
    Visits step start (head :: rest) state ↔
      state = start ∨ Visits step (step start head) rest state := by
  constructor
  · intro visited
    obtain ⟨first, second, events, before⟩ := visited
    cases first with
    | nil => exact Or.inl before.symm
    | cons other others =>
      simp only [List.cons_append, List.cons.injEq] at events
      rw [← events.1] at before
      exact Or.inr ⟨others, second, events.2, before⟩
  · intro either
    rcases either with rfl | ⟨first, second, rfl, rfl⟩
    · exact ⟨[], head :: rest, rfl, rfl⟩
    · exact ⟨head :: first, second, rfl, rfl⟩

/-- If, from states that meet the invariant, the steps that go well are those
that meet the condition, then the runs in which every step goes well are the
admissible ones. -/
theorem forall_takes_iff_admissible
    (condition : σ → ε → Prop) (invariant : σ → Prop) (good : σ → ε → Prop) (preserved :
      ∀ state event, invariant state → condition state event → invariant (step state event))
    (exactly : ∀ state event, invariant state → (good state event ↔ condition state event))
    (initially : invariant start) (events : List ε) :
    (∀ state event, Takes step start events state event → good state event) ↔
      Admissible step condition start events := by
  induction events generalizing start with
  | nil => simp [Takes, Admissible]
  | cons head rest ih =>
    simp only [Admissible, takes_cons_iff]
    constructor
    · intro all
      have first := (exactly start head initially).mp (all start head (Or.inl ⟨rfl, rfl⟩))
      refine ⟨first, ?_⟩
      apply (ih (preserved start head initially first)).mp
      intro state event taken
      exact all state event (Or.inr taken)
    · intro admissible state event taken
      rcases taken with ⟨rfl, rfl⟩ | later
      · exact (exactly _ _ initially).mpr admissible.1
      · exact (ih (preserved start head initially admissible.1)).mpr admissible.2 state event later

theorem forall_visits_iff {property : σ → Prop} :
    (∀ state, Visits step start events state → property state) ↔
      property start ∧
        ∀ state event, Takes step start events state event → property (step state event) := by
  induction events generalizing start with
  | nil => simp [Visits, Takes]
  | cons head rest ih =>
    simp only [visits_cons_iff, takes_cons_iff, forall_eq_or_imp, ih]
    refine and_congr_right fun _ => ?_
    constructor
    · intro later state event taken
      rcases taken with ⟨rfl, rfl⟩ | taken
      · exact later.1
      · exact later.2 state event taken
    · intro all
      exact ⟨all start head (Or.inl ⟨rfl, rfl⟩),
        fun state event taken => all state event (Or.inr taken)⟩

end Sshserv.Lib.Runs
