import Sshserv.Api.UserStore

/-!
# Updates of users and of their used quota

A `PUT` reads a record in one transaction and writes it back in another; so
does a `DELETE`.  Here the halves of any number of requests are interleaved
with the quota updates of closing transfers.
-/

namespace Sshserv.Api

open Lib UnixPath Runs DataProvider

/-- A request between its two halves, with the record it has read. -/
inductive Pending where
  | put (id : Int) (user : User)
  | delete (user : User)
  deriving DecidableEq

/-- `applied` counts the files and bytes of the quota updates that were made
for each user; no step reads it. -/
structure Updates where
  store : BoltProvider
  pending : Nat → Option Pending
  applied : Str → Int × Int

inductive UpdateEvent where
  | putRead (request : Nat) (userID : Option Int)
  | putWrite (request : Nat) (body : Body)
  | deleteRead (request : Nat) (userID : Option Int)
  | deleteWrite (request : Nat)
  | quota (call : Call) (username : Str) (filesAdd sizeAdd : Int)

/-- Files and bytes as the `int64` numbers that the code counts with. -/
def wrapUsed (used : Int × Int) : Int × Int :=
  (wrap64 used.1, wrap64 used.2)

theorem wrapUsed_add {left right : Int × Int} (same : wrapUsed left = wrapUsed right)
    (added : Int × Int) : wrapUsed (left + added) = wrapUsed (right + added) := by
  obtain ⟨files, size⟩ := Prod.mk.inj same
  simp only [wrap64] at files size
  simp only [wrapUsed, wrap64, Prod.fst_add, Prod.snd_add, Prod.mk.injEq]
  omega

theorem wrapUsed_addQuota (user : User) (call : Call) (filesAdd sizeAdd : Int) :
    wrapUsed (user.addQuota call filesAdd sizeAdd false).usedQuota =
      wrapUsed (user.usedQuota + (filesAdd, sizeAdd)) := by
  simp only [wrapUsed, wrap64, User.addQuota, User.setQuota, User.usedQuota, Bool.false_eq_true,
    if_false, Prod.fst_add, Prod.snd_add, Prod.mk.injEq]
  omega

namespace Updates

def start (store : BoltProvider) : Updates :=
  ⟨store, fun _ => none, fun _ => (0, 0)⟩

section Steps

variable (config : Config) (credentials : Credentials)

def step (s : Updates) : UpdateEvent → Updates
  | .putRead request userID =>
    match readUser (BoltProvider.provider credentials) s.store userID with
    | .error _ => s
    | .ok (id, user) =>
      { s with
        pending := Function.update s.pending request (some (.put id user)) }
  | .putWrite request body =>
    match s.pending request with
    | some (.put id user) =>
      { s with
        store := (writeUser config (BoltProvider.provider credentials) s.store id user body).1
        pending := Function.update s.pending request none }
    | _ => s
  | .deleteRead request userID =>
    match readUser (BoltProvider.provider credentials) s.store userID with
    | .error _ => s
    | .ok (_, user) =>
      { s with
        pending := Function.update s.pending request (some (.delete user)) }
  | .deleteWrite request =>
    match s.pending request with
    | some (.delete user) =>
      { s with
        store := (removeUser config (BoltProvider.provider credentials) s.store user).1
        pending := Function.update s.pending request none }
    | _ => s
  | .quota call username filesAdd sizeAdd =>
    match s.store.updateQuota call username filesAdd sizeAdd false with
    | .error _ => s
    | .ok next =>
      { s with
        store := next
        applied := Function.update s.applied username (s.applied username + (filesAdd, sizeAdd)) }

/-- When a `PUT` that is accepted writes the record of the user, the counters
in the body, or those that were read where the body has none, are the ones
stored by then. -/
def CountersCurrent (name : Str) (s : Updates) : UpdateEvent → Prop
  | .putWrite request body =>
    ∀ id user merged old, s.pending request = some (.put id user) →
        acceptedWrite config credentials s.store id user body = some merged →
          merged.username = name → s.store.users.get name = some old →
            wrapUsed merged.usedQuota = wrapUsed old.usedQuota
  | _ => True

end Steps

/-- The counters of the user are those at the beginning and all increments
since, as `int64` numbers. -/
def Counted (store : BoltProvider) (name : Str) (s : Updates) : Prop :=
  ∀ user, s.store.users.get name = some user →
    ∃ initial, store.users.get name = some initial ∧
      wrapUsed user.usedQuota = wrapUsed (initial.usedQuota + s.applied name)

variable {config : Config} {credentials : Credentials}
variable {store : BoltProvider} {name : Str} {s : Updates}

theorem counted_start (store : BoltProvider) (name : Str) : Counted store name (start store) := by
  intro user record
  exact ⟨user, record, congrArg wrapUsed (add_zero user.usedQuota).symm⟩

theorem Counted.of_kept (counted : Counted store name s) {next : Updates}
    (kept : ∀ user, next.store.users.get name = some user → s.store.users.get name = some user)
    (applied : next.applied name = s.applied name) :
    Counted store name next := by
  intro user record
  rw [applied]
  exact counted user (kept user record)

theorem counted_deleteWrite (counted : Counted store name s) (request : Nat) :
    Counted store name (step config credentials s (.deleteWrite request)) := by
  simp only [step]
  split
  · rename_i user waiting
    refine counted.of_kept ?_ rfl
    intro found record
    simp only [removeUser] at record
    cases deleted :
        DataProvider.deleteUser config (BoltProvider.provider credentials) s.store user with
    | error err =>
      rw [deleted] at record
      exact record
    | ok next =>
      rw [deleted] at record
      simp only [DataProvider.deleteUser] at deleted
      split at deleted
      · cases deleted
      · obtain ⟨userName, _, rfl⟩ := BoltProvider.deleteUser_ok deleted
        simp only [SortedMap.get_delete] at record
        split at record
        · cases record
        · exact record
  · exact counted

theorem counted_quota (counted : Counted store name s) (call : Call) (username : Str)
    (filesAdd sizeAdd : Int) :
    Counted store name (step config credentials s (.quota call username filesAdd sizeAdd)) := by
  simp only [step]
  cases updated : s.store.updateQuota call username filesAdd sizeAdd false with
  | error err => exact counted
  | ok next =>
    obtain ⟨old, oldRecord, rfl⟩ := BoltProvider.updateQuota_ok updated
    dsimp only
    by_cases same : name = username
    · subst same
      intro user record
      simp only [SortedMap.get_put, if_true, Option.some.injEq] at record
      subst record
      obtain ⟨initial, first, sum⟩ := counted old oldRecord
      refine ⟨initial, first, ?_⟩
      dsimp only
      rw [wrapUsed_addQuota, Function.update_self, ← add_assoc]
      exact wrapUsed_add sum _
    · apply counted.of_kept
      · intro user record
        simpa [SortedMap.get_put, same] using record
      · exact Function.update_of_ne same _ _

variable {request : Nat} {body : Body} {id : Int} {user : User}

private theorem countersCurrent_waiting (waiting : s.pending request = some (.put id user)) :
    CountersCurrent config credentials name s (.putWrite request body) ↔
      ∀ merged old, acceptedWrite config credentials s.store id user body = some merged →
          merged.username = name → s.store.users.get name = some old →
            wrapUsed merged.usedQuota = wrapUsed old.usedQuota := by
  constructor
  · intro current merged old
    exact current id user merged old waiting
  · intro current otherId other merged old held
    rw [waiting] at held
    cases held
    exact current merged old

/-- The write of a `PUT` keeps the count exactly when it brings the counters
that are stored. -/
theorem counted_putWrite_iff
    (counted : Counted store name s) (waiting : s.pending request = some (.put id user)) :
    Counted store name (step config credentials s (.putWrite request body)) ↔
      CountersCurrent config credentials name s (.putWrite request body) := by
  rw [countersCurrent_waiting waiting]
  simp only [step, waiting]
  cases result : acceptedWrite config credentials s.store id user body with
  | none =>
    rw [writeUser_refused result]
    refine iff_of_true ?_ ?_
    · exact counted.of_kept (fun _ record => record) rfl
    · intro merged old accepted
      cases accepted
  | some merged =>
    obtain ⟨_, valid, old, checked, oldRecord, same⟩ := writeUser_accepted result
    have used := usedQuota_of_validateUser checked
    rw [same]
    by_cases target : merged.username = name
    · subst target
      obtain ⟨initial, first, sum⟩ := counted old oldRecord
      constructor
      · intro after again current accepted _ record
        cases accepted
        rw [oldRecord] at record
        cases record
        obtain ⟨before, present, total⟩ := after valid (by simp)
        rw [first] at present
        cases present
        rw [← used, total, sum]
      · intro current written record
        simp only [SortedMap.get_put, if_true, Option.some.injEq] at record
        subst record
        refine ⟨initial, first, ?_⟩
        rw [used, current merged old rfl rfl oldRecord, sum]
    · refine iff_of_true ?_ ?_
      · refine counted.of_kept ?_ rfl
        intro other record
        simpa [SortedMap.get_put, Ne.symm target] using record
      · intro again current accepted written
        cases accepted
        exact absurd written target

theorem counted_step_iff (counted : Counted store name s) (event : UpdateEvent) :
    Counted store name (step config credentials s event) ↔
      CountersCurrent config credentials name s event := by
  cases event with
  | putWrite request body =>
    cases waiting : s.pending request with
    | none =>
      simp only [step, CountersCurrent, waiting]
      refine iff_of_true counted ?_
      intro id user merged old held
      cases held
    | some pending =>
      cases pending with
      | put id user => exact counted_putWrite_iff counted waiting
      | delete user =>
        simp only [step, CountersCurrent, waiting]
        refine iff_of_true counted ?_
        intro id other merged old held
        cases held
  | putRead request userID =>
    refine iff_of_true ?_ trivial
    simp only [step]
    split
    · exact counted
    · exact counted.of_kept (fun _ record => record) rfl
  | deleteRead request userID =>
    refine iff_of_true ?_ trivial
    simp only [step]
    split
    · exact counted
    · exact counted.of_kept (fun _ record => record) rfl
  | deleteWrite request => exact iff_of_true (counted_deleteWrite counted request) trivial
  | quota call username filesAdd sizeAdd =>
    exact iff_of_true (counted_quota counted call username filesAdd sizeAdd) trivial

end Updates

open Updates

/-- The counters of a user are right in every state of an interleaving
exactly when every accepted `PUT` that writes the user brings the counters
stored at that time. -/
theorem used_quota_kept_iff (config : Config) (credentials : Credentials) (store : BoltProvider)
    (name : Str) (events : List UpdateEvent) :
    (∀ s, Visits (step config credentials) (start store) events s → Counted store name s) ↔
      Admissible (step config credentials)
        (CountersCurrent config credentials name) (start store) events := by
  rw [forall_visits_iff, and_iff_right (counted_start store name)]
  exact
    forall_takes_iff_admissible (CountersCurrent config credentials name)
      (Counted store name)
      (fun s event => Counted store name (step config credentials s event))
      (fun _ event counted current =>
        (counted_step_iff counted event).mpr current)
      (fun _ event counted => counted_step_iff counted event)
      (counted_start store name) events

def oneUserStore : BoltProvider :=
  UserEvent.step plainConfig plainCredentials BoltProvider.empty
    (.post plainCall (newUserBody "a".toList))

def sessionsBody : Body := fun user => .ok { user with maxSessions := 2 }

/-- A transfer is counted between the read and the write of an update. -/
def lostIncrement : List UpdateEvent :=
  [.putRead 0 (some 1), .quota plainCall "a".toList 1 10, .putWrite 0 sessionsBody]

theorem increment_lost :
    ¬ ∀ s,
      Visits (step plainConfig plainCredentials) (start oneUserStore) lostIncrement s →
        Counted oneUserStore "a".toList s := by
  intro kept
  have counted := kept _ (visits_run _ (start oneUserStore) lostIncrement)
  generalize ended :
    run (step plainConfig plainCredentials) (start oneUserStore) lostIncrement = last at counted
  have total : last.applied "a".toList = (1, 10) := by
    rw [← ended]
    decide
  have final : (last.store.users.get "a".toList).map User.usedQuota = some (0, 0) := by
    rw [← ended]
    decide
  have initially : (oneUserStore.users.get "a".toList).map User.usedQuota = some (0, 0) := by
    decide
  obtain ⟨user, record, used⟩ := Option.map_eq_some_iff.mp final
  obtain ⟨initial, first, sum⟩ := counted user record
  rw [first, Option.map_some, Option.some.injEq] at initially
  rw [used, initially, total] at sum
  exact absurd sum (by decide)

end Sshserv.Api
