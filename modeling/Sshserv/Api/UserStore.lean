import Sshserv.Api.User
import Sshserv.DataProvider.BoltIndex
import Sshserv.Lib.Runs

/-!
# REST calls over the Bolt provider

Runs of `POST`, `PUT` and `DELETE` on users and of quota updates, from an
empty store.  The only call that can part the index from the users bucket is
a `PUT` whose body names another user (`bolt_store_consistent_iff`).
-/

namespace Sshserv.Api

open Lib UnixPath Runs DataProvider

inductive UserEvent where
  | post (call : Call) (body : Body)
  | put (userID : Option Int) (body : Body)
  | delete (userID : Option Int)
  | quota (call : Call) (user : User) (filesAdd sizeAdd : Int) (reset : Bool)

section Store

variable (config : Config) (credentials : Credentials)

def UserEvent.step (s : BoltProvider) : UserEvent → BoltProvider
  | post call body => (addUser config (BoltProvider.provider credentials) s call body).1
  | put userID body => (updateUser config (BoltProvider.provider credentials) s userID body).1
  | delete userID => (deleteUser config (BoltProvider.provider credentials) s userID).1
  | quota call user filesAdd sizeAdd reset =>
    match updateUserQuota config (BoltProvider.provider credentials) s call
        user filesAdd sizeAdd reset with
    | .ok next => next
    | .error _ => s

/-- What the body of a `PUT` makes of the record that was read, if the update
is accepted. -/
def acceptedWrite (s : BoltProvider) (id : Int) (user : User) (body : Body) : Option User :=
  match body user with
  | .error _ => none
  | .ok merged =>
    if merged.id = id ∧ config.manageUsers ≠ 0 ∧
        (validateUser credentials merged).isOk ∧
        (s.users.get merged.username).isSome then
      some merged
    else none

/-- The record that a `PUT` reads and what the body makes of it, if the
update is accepted. -/
def acceptedPut (s : BoltProvider) (userID : Option Int) (body : Body) : Option (User × User) :=
  match readUser (BoltProvider.provider credentials) s userID with
  | .error _ => none
  | .ok (id, stored) =>
    (acceptedWrite config credentials s id stored body).map fun merged =>
      (stored, merged)

def KeepsName (s : BoltProvider) : UserEvent → Prop
  | .put userID body =>
    ∀ stored merged, acceptedPut config credentials s userID body = some (stored, merged) →
        merged.username = stored.username
  | _ => True

/-- A `PUT` leaves every record alone but the one that the index holds for
its id. -/
def OnlyIndexed (s : BoltProvider) : UserEvent → Prop
  | .put userID body =>
    ∀ name, (userID.bind s.usersIDIdx.get) ≠ some name →
      (UserEvent.step config credentials s (.put userID body)).users.get name = s.users.get name
  | _ => True

/-- The index and the users bucket are inverse to each other in every state
of the run, and its `PUT`s change nothing but the record they are for. -/
def StoreConsistent (events : List UserEvent) : Prop :=
  (∀ s,
    Visits (UserEvent.step config credentials) BoltProvider.empty events s → s.Inverse) ∧
    ∀ s event, Takes (UserEvent.step config credentials) BoltProvider.empty events s event →
        OnlyIndexed config credentials s event

end Store

variable {config : Config} {credentials : Credentials} {s : BoltProvider}

variable {userID : Option Int} {id : Int} {user : User} {body : Body}

theorem readUser_ok
    (read : readUser (BoltProvider.provider credentials) s userID = .ok (id, user)) :
    userID = some id ∧ s.getUserByID id = .ok user := by
  cases userID with
  | none => cases read
  | some path =>
    simp only [readUser, BoltProvider.provider] at read
    cases found : s.getUserByID path with
    | error err =>
      rw [found] at read
      cases read
    | ok stored =>
      rw [found] at read
      cases read
      exact ⟨rfl, found⟩

theorem writeUser_refused (refused : acceptedWrite config credentials s id user body = none) :
    (writeUser config (BoltProvider.provider credentials) s id user body).1 = s := by
  simp only [acceptedWrite] at refused
  simp only [writeUser]
  cases decoded : body user with
  | error err => rfl
  | ok merged =>
    rw [decoded] at refused
    simp only [ite_eq_right_iff, reduceCtorEq, imp_false] at refused
    simp only
    split
    · rfl
    · rename_i sameId
      simp only [ne_eq, not_not] at sameId
      cases updated :
          DataProvider.updateUser config (BoltProvider.provider credentials) s merged with
      | error err => rfl
      | ok next =>
        simp only [DataProvider.updateUser] at updated
        split at updated
        · cases updated
        · rename_i managed
          obtain ⟨valid, checked, present, _⟩ := BoltProvider.updateUser_ok_iff.mp updated
          rw [username_of_validateUser checked] at present
          exact absurd ⟨sameId, managed, by rw [checked]; rfl, present⟩ refused

theorem writeUser_accepted {merged : User}
    (accepted : acceptedWrite config credentials s id user body = some merged) :
    merged.id = id ∧
      ∃ valid old, validateUser credentials merged = .ok valid ∧
        s.users.get merged.username = some old ∧
        (writeUser config (BoltProvider.provider credentials) s id user body).1 =
          { s with users := s.users.put merged.username valid } := by
  simp only [acceptedWrite] at accepted
  cases decoded : body user with
  | error err =>
    rw [decoded] at accepted
    cases accepted
  | ok found =>
    rw [decoded] at accepted
    simp only [Option.ite_none_right_eq_some, Option.some.injEq] at accepted
    obtain ⟨⟨sameId, managed, checks, present⟩, rfl⟩ := accepted
    obtain ⟨old, record⟩ := Option.isSome_iff_exists.mp present
    cases checked : validateUser credentials found with
    | error err =>
      rw [checked] at checks
      cases checks
    | ok valid =>
      have sameName := username_of_validateUser checked
      have updated :
          (BoltProvider.provider credentials).updateUser s found =
            .ok { s with
              users := s.users.put found.username valid } := by
        apply BoltProvider.updateUser_ok_iff.mpr
        rw [← sameName] at present ⊢
        exact ⟨valid, checked, present, rfl⟩
      refine ⟨sameId, valid, old, rfl, record, ?_⟩
      simp only [writeUser, decoded, sameId, ne_eq, not_true_eq_false,
        if_false, DataProvider.updateUser, managed, updated]

theorem step_put_refused (refused : acceptedPut config credentials s userID body = none) :
    UserEvent.step config credentials s (.put userID body) = s := by
  simp only [acceptedPut] at refused
  simp only [UserEvent.step, updateUser]
  cases read : readUser (BoltProvider.provider credentials) s userID with
  | error response => rfl
  | ok pair =>
    rw [read] at refused
    exact writeUser_refused (Option.map_eq_none_iff.mp refused)

theorem step_put_accepted {stored merged : User}
    (accepted : acceptedPut config credentials s userID body = some (stored, merged)) :
    ∃ name valid old, userID = some merged.id ∧
      s.usersIDIdx.get merged.id = some name ∧
      s.users.get name = some stored ∧
      validateUser credentials merged = .ok valid ∧
      s.users.get merged.username = some old ∧
      UserEvent.step config credentials s (.put userID body) =
        { s with users := s.users.put merged.username valid } := by
  simp only [acceptedPut] at accepted
  cases read : readUser (BoltProvider.provider credentials) s userID with
  | error response =>
    rw [read] at accepted
    cases accepted
  | ok pair =>
    obtain ⟨id, user⟩ := pair
    rw [read] at accepted
    obtain ⟨written, accepts, equal⟩ := Option.map_eq_some_iff.mp accepted
    cases equal
    obtain ⟨rfl, valid, old, checked, record, same⟩ := writeUser_accepted accepts
    obtain ⟨path, byID⟩ := readUser_ok read
    obtain ⟨name, held, found⟩ := BoltProvider.getUserByID_ok_iff.mp byID
    refine ⟨name, valid, old, path, held, found, checked, record, ?_⟩
    simp only [UserEvent.step, updateUser, read]
    exact same

theorem indexed_post (indexed : s.Indexed) (call : Call) (body : Body) :
    (UserEvent.step config credentials s (.post call body)).Indexed := by
  simp only [UserEvent.step, addUser]
  cases body User.zero with
  | error err => exact indexed
  | ok user =>
    simp only
    cases added : DataProvider.addUser config (BoltProvider.provider credentials) s call user with
    | error err => exact indexed
    | ok next =>
      have kept : next.Indexed := by
        simp only [DataProvider.addUser] at added
        split at added
        · cases added
        · exact indexed.addUser added
      simp only
      split
      · exact kept
      · exact kept

theorem indexed_delete (indexed : s.Indexed) (userID : Option Int) :
    (UserEvent.step config credentials s (.delete userID)).Indexed := by
  simp only [UserEvent.step, deleteUser]
  cases readUser (BoltProvider.provider credentials) s userID with
  | error response => exact indexed
  | ok pair =>
    simp only [removeUser]
    cases deleted : DataProvider.deleteUser config (BoltProvider.provider credentials) s pair.2 with
    | error err => exact indexed
    | ok next =>
      simp only [DataProvider.deleteUser] at deleted
      split at deleted
      · cases deleted
      · exact indexed.deleteUser deleted

theorem indexed_quota (indexed : s.Indexed) (call : Call) (user : User)
    (filesAdd sizeAdd : Int) (reset : Bool) :
    (UserEvent.step config credentials s (.quota call user filesAdd sizeAdd reset)).Indexed := by
  simp only [UserEvent.step]
  cases updated :
      updateUserQuota config (BoltProvider.provider credentials) s call user
        filesAdd sizeAdd reset with
  | error err => exact indexed
  | ok next =>
    simp only [updateUserQuota] at updated
    split at updated
    · cases updated
    · split at updated
      · cases updated
        exact indexed
      · exact indexed.updateQuota updated

theorem indexed_put (indexed : s.Indexed)
    (keeps : KeepsName config credentials s (.put userID body)) :
    (UserEvent.step config credentials s (.put userID body)).Indexed ∧
      OnlyIndexed config credentials s (.put userID body) := by
  cases result : acceptedPut config credentials s userID body with
  | none =>
    have same := step_put_refused result
    constructor
    · rw [same]
      exact indexed
    · intro name _
      rw [same]
  | some pair =>
    obtain ⟨stored, merged⟩ := pair
    obtain ⟨name, valid, _, rfl, held, record, checked, _, same⟩ := step_put_accepted result
    have keptName : merged.username = name := by
      rw [keeps stored merged result]
      exact indexed.named name stored record
    have storedId : stored.id = merged.id := by
      obtain ⟨again, found, foundId⟩ := (indexed.inverse merged.id name).mp held
      rw [record] at found
      cases found
      exact foundId
    rw [keptName] at same
    constructor
    · rw [same]
      apply indexed.overwrite record
      · rw [username_of_validateUser checked, keptName]
      · rw [id_of_validateUser checked, storedId]
    · intro other different
      have notName : other ≠ name := by
        intro equal
        rw [Option.bind_some, held, equal] at different
        exact different rfl
      rw [same]
      simp [notName]

theorem keepsName_of_onlyIndexed (indexed : s.Indexed)
    (only : OnlyIndexed config credentials s (.put userID body)) :
    KeepsName config credentials s (.put userID body) := by
  intro stored merged accepted
  obtain ⟨name, valid, other, rfl, held, record, checked, otherRecord,
    same⟩ := step_put_accepted accepted
  have ownName := indexed.named name stored record
  rw [ownName]
  by_contra different
  have unchanged := only merged.username (by
    rw [Option.bind_some, held]
    intro equal
    exact different (Option.some.inj equal).symm)
  rw [same, otherRecord] at unchanged
  simp only [SortedMap.get_put, if_true, Option.some.injEq] at unchanged
  -- the record now stored under the other name has the id of the first user
  have otherId : other.id = merged.id := by
    rw [← unchanged, id_of_validateUser checked]
  have otherHeld := (indexed.inverse merged.id merged.username).mpr ⟨other, otherRecord, otherId⟩
  rw [held] at otherHeld
  exact different (Option.some.inj otherHeld).symm

theorem indexed_step (indexed : s.Indexed) {event : UserEvent}
    (keeps : KeepsName config credentials s event) :
    (UserEvent.step config credentials s event).Indexed ∧
      OnlyIndexed config credentials s event := by
  cases event with
  | post call body => exact ⟨indexed_post indexed call body, trivial⟩
  | put userID body => exact indexed_put indexed keeps
  | delete userID => exact ⟨indexed_delete indexed userID, trivial⟩
  | quota call user filesAdd sizeAdd reset =>
    exact ⟨indexed_quota indexed call user filesAdd sizeAdd reset, trivial⟩

/-- The store stays consistent in exactly those runs in which every accepted
`PUT` keeps the name of the user. -/
theorem bolt_store_consistent_iff (config : Config) (credentials : Credentials)
    (events : List UserEvent) :
    StoreConsistent config credentials events ↔
      Admissible (UserEvent.step config credentials)
        (KeepsName config credentials) BoltProvider.empty events := by
  have exactly :=
    forall_takes_iff_admissible (KeepsName config credentials) BoltProvider.Indexed
      (fun s event =>
        (UserEvent.step config credentials s event).Inverse ∧
          OnlyIndexed config credentials s event)
      (fun s event indexed keeps => (indexed_step indexed keeps).1)
      (fun s event indexed => by
        constructor
        · intro good
          cases event with
          | put userID body => exact keepsName_of_onlyIndexed indexed good.2
          | _ => trivial
        · intro keeps
          have kept := indexed_step indexed keeps
          exact ⟨kept.1.inverse, kept.2⟩)
      BoltProvider.indexed_empty events
  rw [← exactly, StoreConsistent, forall_visits_iff]
  constructor
  · intro consistent s event taken
    exact ⟨consistent.1.2 s event taken, consistent.2 s event taken⟩
  · intro good
    exact ⟨⟨BoltProvider.indexed_empty.inverse,
      fun s event taken => (good s event taken).1⟩,
      fun s event taken => (good s event taken).2⟩

def newUserBody (username : Str) : Body := fun user =>
  .ok { user with
    username := username
    password := "secret".toList
    homeDir := "/srv".toList
    permissions := [permAny] }

def renameBody (username : Str) : Body := fun user =>
  .ok { user with username := username }

/-- Two users are added, and the first is given the name of the second. -/
def takeover : List UserEvent :=
  [.post plainCall (newUserBody "a".toList),
    .post plainCall (newUserBody "b".toList),
    .put (some 1) (renameBody "b".toList)]

theorem takeover_inconsistent : ¬ StoreConsistent plainConfig plainCredentials takeover := by
  intro consistent
  have inverse := consistent.1 _ (visits_run _ BoltProvider.empty takeover) 1 "b".toList
  have held :
      (run (UserEvent.step plainConfig plainCredentials) BoltProvider.empty
        takeover).usersIDIdx.get 1 = some "b".toList := by
    rw [inverse]
    exact ⟨_, rfl, rfl⟩
  exact absurd held (by decide)

end Sshserv.Api
