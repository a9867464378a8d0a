import Sshserv.DataProvider.Bolt

/-!
# The index of the Bolt provider

What each method does to the two buckets when it succeeds, and which of them
keep the index and the users bucket inverse to each other.
-/

namespace Sshserv.DataProvider

open Lib Lib.UnixPath

namespace BoltProvider

variable {s next : BoltProvider}

variable {user : User} {credentials : Credentials}

theorem getUserByID_ok_iff {id : Int} :
    s.getUserByID id = .ok user ↔
      ∃ name, s.usersIDIdx.get id = some name ∧ s.users.get name = some user := by
  simp only [getUserByID]
  cases held : s.usersIDIdx.get id with
  | none => simp
  | some name =>
    cases record : s.users.get name with
    | none => simp [record]
    | some stored => simp [record]

variable {call : Call} {username : Str} {filesAdd sizeAdd : Int} {reset : Bool}

theorem updateQuota_ok (updated : s.updateQuota call username filesAdd sizeAdd reset = .ok next) :
    ∃ user, s.users.get username = some user ∧
      next =
        { s with
          users := s.users.put username (user.addQuota call filesAdd sizeAdd reset) } := by
  simp only [updateQuota] at updated
  cases record : s.users.get username with
  | none =>
    rw [record] at updated
    cases updated
  | some user =>
    rw [record] at updated
    cases updated
    exact ⟨user, rfl, rfl⟩

theorem addUser_ok (added : s.addUser credentials user = .ok next) :
    ∃ valid, validateUser credentials user = .ok valid ∧
      s.users.get valid.username = none ∧
      utf8Length valid.username ≤ maxKeySize ∧
      next =
        { users :=
            s.users.put valid.username { valid with id := (s.sequence + 1 : Nat) }
          usersIDIdx := s.usersIDIdx.put (s.sequence + 1 : Nat) valid.username
          sequence := s.sequence + 1 } := by
  simp only [addUser] at added
  cases checked : validateUser credentials user with
  | error err =>
    rw [checked] at added
    cases added
  | ok valid =>
    rw [checked] at added
    simp only at added
    split at added
    · cases added
    · rename_i missing
      split at added
      · cases added
      · rename_i short
        cases added
        exact ⟨valid, rfl, by simpa using missing, not_lt.mp short, rfl⟩

theorem updateUser_ok_iff :
    s.updateUser credentials user = .ok next ↔
      ∃ valid, validateUser credentials user = .ok valid ∧
        (s.users.get valid.username).isSome ∧
        next = { s with users := s.users.put valid.username valid } := by
  simp only [updateUser]
  cases checked : validateUser credentials user with
  | error err => simp
  | ok valid =>
    cases record : s.users.get valid.username with
    | none => simp [record]
    | some stored =>
      simp only [Except.ok.injEq, exists_eq_left', record, Option.isSome_some, true_and]
      exact eq_comm

theorem deleteUser_ok (deleted : s.deleteUser user = .ok next) :
    ∃ userName, s.usersIDIdx.get user.id = some userName ∧
      next =
        { s with
          users := s.users.delete userName
          usersIDIdx := s.usersIDIdx.delete user.id } := by
  simp only [deleteUser] at deleted
  cases held : s.usersIDIdx.get user.id with
  | none =>
    rw [held] at deleted
    cases deleted
  | some userName =>
    rw [held] at deleted
    cases deleted
    exact ⟨userName, rfl, rfl⟩

theorem cursorLoop_eq {limit offset itNum : Int} {users rest : List User}
    (room : users.length < limit) :
    cursorLoop limit offset itNum users rest =
      users ++
        ((rest.drop (offset - itNum).toNat).take
          (limit - users.length).toNat).map User.noCredentials := by
  induction rest generalizing itNum users with
  | nil => simp [cursorLoop]
  | cons user rest ih =>
    simp only [cursorLoop, List.length_append, List.length_singleton]
    split
    · have skips : (offset - itNum).toNat = (offset - (itNum + 1)).toNat + 1 := by
        omega
      rw [ih room, skips, List.drop_succ_cons]
    · have noSkip : (offset - itNum).toNat = 0 := by omega
      have noSkipNext : (offset - (itNum + 1)).toNat = 0 := by omega
      rw [noSkip, List.drop_zero]
      split
      · have last : (limit - users.length).toNat = 1 := by
          push_cast at *
          omega
        simp [last]
      · have more :
            (limit - users.length).toNat = (limit - (users.length + 1 : Nat)).toNat + 1 := by
          push_cast at *
          omega
        have roomNext : ((users ++ [user.noCredentials]).length : Int) < limit := by
          simp only [List.length_append, List.length_singleton]
          omega
        rw [ih roomNext, noSkipNext, List.drop_zero, more, List.take_succ_cons]
        simp

/-- The index maps an id to a name exactly when a record of that name has
that id. -/
def Inverse (s : BoltProvider) : Prop :=
  ∀ id name, s.usersIDIdx.get id = some name ↔ ∃ user, s.users.get name = some user ∧ user.id = id

/-- The index is inverse to the users, records are stored under their own
names, and the ids still to be given out are not in use. -/
structure Indexed (s : BoltProvider) : Prop where
  inverse : s.Inverse
  named : ∀ name user, s.users.get name = some user → user.username = name
  counted : ∀ name user, s.users.get name = some user → user.id ≤ s.sequence

theorem indexed_empty : Indexed empty where
  inverse := by simp [Inverse, empty]
  named := by simp [empty]
  counted := by simp [empty]

theorem Indexed.overwrite (indexed : Indexed s) {name : Str} {old : User}
    (record : s.users.get name = some old) (sameName : user.username = name)
    (sameId : user.id = old.id) :
    Indexed { s with users := s.users.put name user } where
  inverse := by
    intro id other
    rw [SortedMap.get_put]
    by_cases same : other = name
    · subst same
      rw [if_pos rfl, indexed.inverse id other, record]
      simp [sameId]
    · rw [if_neg same]
      exact indexed.inverse id other
  named := by
    intro other stored found
    rw [SortedMap.get_put] at found
    split at found
    · rename_i same
      cases found
      rw [sameName, same]
    · exact indexed.named other stored found
  counted := by
    intro other stored found
    rw [SortedMap.get_put] at found
    split at found
    · cases found
      rw [sameId]
      exact indexed.counted name old record
    · exact indexed.counted other stored found

theorem Indexed.updateQuota (indexed : Indexed s)
    (updated : s.updateQuota call username filesAdd sizeAdd reset = .ok next) :
    Indexed next := by
  obtain ⟨user, record, rfl⟩ := updateQuota_ok updated
  apply indexed.overwrite record
  · rw [← indexed.named username user record]
    cases reset <;> rfl
  · cases reset <;> rfl

theorem Indexed.addUser (indexed : Indexed s) (added : s.addUser credentials user = .ok next) :
    Indexed next := by
  obtain ⟨valid, _, missing, _, rfl⟩ := addUser_ok added
  have unused : ∀ name, s.usersIDIdx.get (s.sequence + 1 : Nat) ≠ some name := by
    intro name held
    obtain ⟨old, record, sameId⟩ := (indexed.inverse _ _).mp held
    have bound := indexed.counted name old record
    omega
  constructor
  · intro id name
    simp only [SortedMap.get_put]
    by_cases newName : name = valid.username
    · by_cases newId : id = (s.sequence + 1 : Nat)
      · simp [newName, newId]
      · have notIndexed : s.usersIDIdx.get id ≠ some valid.username := by
          intro held
          obtain ⟨old, record, _⟩ := (indexed.inverse _ _).mp held
          rw [missing] at record
          cases record
        simp only [newName, newId, if_true, if_false, notIndexed,
          Option.some.injEq, exists_eq_left', false_iff]
        exact fun same => newId same.symm
    · by_cases newId : id = (s.sequence + 1 : Nat)
      · have fresh := unused name
        rw [← newId, Ne, indexed.inverse id name] at fresh
        simp only [newId, if_true, Option.some.injEq, newName, if_false]
        rw [newId] at fresh
        exact iff_of_false (fun same => newName same.symm) fresh
      · simp only [newName, newId, if_false]
        exact indexed.inverse id name
  · intro name stored found
    simp only [SortedMap.get_put] at found
    split at found
    · rename_i same
      cases found
      exact same.symm
    · exact indexed.named name stored found
  · intro name stored found
    simp only [SortedMap.get_put] at found
    split at found
    · cases found
      exact le_rfl
    · have bound := indexed.counted name stored found
      push_cast
      omega

theorem Indexed.deleteUser (indexed : Indexed s) (deleted : s.deleteUser user = .ok next) :
    Indexed next := by
  obtain ⟨userName, held, rfl⟩ := deleteUser_ok deleted
  obtain ⟨old, record, oldId⟩ := (indexed.inverse _ _).mp held
  constructor
  · intro id name
    simp only [SortedMap.get_delete]
    by_cases sameName : name = userName
    · by_cases sameId : id = user.id
      · simp [sameName, sameId]
      · have notIndexed : s.usersIDIdx.get id ≠ some userName := by
          intro other
          obtain ⟨again, found, foundId⟩ := (indexed.inverse _ _).mp other
          rw [record] at found
          cases found
          exact sameId (foundId.symm.trans oldId)
        simp [sameName, sameId, notIndexed]
    · by_cases sameId : id = user.id
      · have other : s.usersIDIdx.get id ≠ some name := by
          rw [sameId, held]
          intro same
          cases same
          exact sameName rfl
        rw [Ne, indexed.inverse id name] at other
        simp only [sameId, if_true, sameName, if_false]
        rw [sameId] at other
        exact iff_of_false nofun other
      · simp only [sameName, sameId, if_false]
        exact indexed.inverse id name
  · intro name stored found
    simp only [SortedMap.get_delete] at found
    split at found
    · cases found
    · exact indexed.named name stored found
  · intro name stored found
    simp only [SortedMap.get_delete] at found
    split at found
    · cases found
    · exact indexed.counted name stored found

theorem Indexed.name_unique (indexed : Indexed s) {first second : Str} {left right : User}
    (leftRecord : s.users.get first = some left) (rightRecord : s.users.get second = some right)
    (sameId : left.id = right.id) :
    first = second := by
  have leftHeld := (indexed.inverse left.id first).mpr ⟨left, leftRecord, rfl⟩
  have rightHeld := (indexed.inverse left.id second).mpr ⟨right, rightRecord, sameId.symm⟩
  rw [leftHeld] at rightHeld
  exact Option.some.inj rightHeld

end BoltProvider

end Sshserv.DataProvider
