import Sshserv.Api.UserStore
import Sshserv.DataProvider.Login
import Sshserv.DataProvider.SqlKeys

/-!
# Updates without credentials

A `PUT` whose body sets neither the password nor the public keys nor the name
of a user leaves its credentials alone.  The whole record is written back, so
this rests on what is stored: hashes are not hashed again.
-/

namespace Sshserv.Api

open Lib UnixPath Runs DataProvider

variable {σ : Type}

def UserEvent.apply (config : Config) (p : Provider σ) (s : σ) : UserEvent → σ
  | post call body => (addUser config p s call body).1
  | put userID body => (updateUser config p s userID body).1
  | delete userID => (deleteUser config p s userID).1
  | quota call user filesAdd sizeAdd reset =>
    match updateUserQuota config p s call user filesAdd sizeAdd reset with
    | .ok next => next
    | .error _ => s

theorem step_eq_apply (config : Config) (credentials : Credentials) :
    UserEvent.step config credentials =
      UserEvent.apply config (BoltProvider.provider credentials) := by
  funext s event
  cases event with
  | post call body => rfl
  | put userID body => rfl
  | delete userID => rfl
  | quota call user filesAdd sizeAdd reset =>
    simp only [UserEvent.step, UserEvent.apply]
    cases updateUserQuota config (BoltProvider.provider credentials) s call
        user filesAdd sizeAdd reset with
    | ok next => rfl
    | error err => rfl

/-- The body leaves the credentials and the name alone. -/
def OmitsCredentials (body : Body) : Prop :=
  ∀ user merged, body user = .ok merged →
    merged.login = user.login ∧ merged.username = user.username

/-- The credentials of every user are those of before, and so are the answers
to every login. -/
structure LoginsKept (credentials : Credentials) (verifiers : Verifiers)
    (p : Provider σ) (records : σ → SortedMap Str User) (s after : σ) :
    Prop where
  stored :
    ∀ username,
      ((records after).get username).map User.login = ((records s).get username).map User.login
  passwords :
    ∀ username password, verdict (validateUserAndPass verifiers p after username password) =
        verdict (validateUserAndPass verifiers p s username password)
  keys :
    ∀ username pubKey, verdict (validateUserAndPubKey credentials p after username pubKey) =
        verdict (validateUserAndPubKey credentials p s username pubKey)

/-- A provider with the records behind its stores, and what its methods keep.
An update is for the record that was read: it writes the same name. -/
structure Accounts (σ : Type) where
  provider : Provider σ
  records : σ → SortedMap Str User
  missing : ProviderError
  finds : ∀ s username,
    provider.userExists s username = ((records s).get username).elim (.error missing) .ok
  Sound : σ → Prop
  adds : ∀ {s call user next}, Sound s → provider.addUser s call user = .ok next → Sound next
  updates : ∀ {s user next}, Sound s → provider.updateUser s user = .ok next → Sound next
  deletes : ∀ {s user next}, Sound s → provider.deleteUser s user = .ok next → Sound next
  counts : ∀ {s call username filesAdd sizeAdd reset next}, Sound s →
    provider.updateQuota s call username filesAdd sizeAdd reset = .ok next → Sound next
  keeps : ∀ {s id stored merged next}, Sound s →
    provider.getUserByID s id = .ok stored → merged.id = id →
    merged.username = stored.username → merged.login = stored.login →
    provider.updateUser s merged = .ok next →
      ∀ name, ((records next).get name).map User.login = ((records s).get name).map User.login

namespace Accounts

variable {config : Config} (accounts : Accounts σ) {s : σ}

theorem sound_post (sound : accounts.Sound s) (call : Call) (body : Body) :
    accounts.Sound (addUser config accounts.provider s call body).1 := by
  unfold addUser
  cases body User.zero with
  | error err => exact sound
  | ok user =>
    simp only
    cases added : DataProvider.addUser config accounts.provider s call user with
    | error err => exact sound
    | ok next =>
      have kept : accounts.Sound next := by
        unfold DataProvider.addUser at added
        split at added
        · cases added
        · exact accounts.adds sound added
      simp only
      split
      · exact kept
      · exact kept

theorem put_cases (config : Config) (s : σ) (userID : Option Int) (body : Body) :
    (updateUser config accounts.provider s userID body).1 = s ∨
      ∃ id stored merged next,
        accounts.provider.getUserByID s id = .ok stored ∧
        body stored = .ok merged ∧ merged.id = id ∧
        accounts.provider.updateUser s merged = .ok next ∧
        (updateUser config accounts.provider s userID body).1 = next := by
  unfold updateUser readUser
  cases userID with
  | none => exact Or.inl rfl
  | some id =>
    simp only
    cases found : accounts.provider.getUserByID s id with
    | error err => exact Or.inl rfl
    | ok stored =>
      simp only [writeUser]
      cases decoded : body stored with
      | error err => exact Or.inl rfl
      | ok merged =>
        simp only
        split
        · exact Or.inl rfl
        · rename_i sameId
          by_cases disabled : config.manageUsers = 0
          · left
            simp only [DataProvider.updateUser, if_pos disabled]
          · simp only [DataProvider.updateUser, if_neg disabled]
            cases updated : accounts.provider.updateUser s merged with
            | error err => exact Or.inl rfl
            | ok next =>
              exact Or.inr ⟨id, stored, merged, next, found, decoded,
                not_not.mp sameId, updated, rfl⟩

theorem sound_delete (sound : accounts.Sound s) (userID : Option Int) :
    accounts.Sound (deleteUser config accounts.provider s userID).1 := by
  unfold deleteUser
  cases readUser accounts.provider s userID with
  | error response => exact sound
  | ok pair =>
    by_cases disabled : config.manageUsers = 0
    · simp only [removeUser, DataProvider.deleteUser, if_pos disabled]
      exact sound
    · simp only [removeUser, DataProvider.deleteUser, if_neg disabled]
      cases deleted : accounts.provider.deleteUser s pair.2 with
      | error err => exact sound
      | ok next => exact accounts.deletes sound deleted

theorem sound_apply (sound : accounts.Sound s) (event : UserEvent) :
    accounts.Sound (event.apply config accounts.provider s) := by
  cases event with
  | post call body => exact accounts.sound_post sound call body
  | put userID body =>
    rw [UserEvent.apply]
    rcases accounts.put_cases config s userID body with
      same | ⟨_, _, _, next, _, _, _, updated, result⟩
    · rw [same]
      exact sound
    · rw [result]
      exact accounts.updates sound updated
  | delete userID => exact accounts.sound_delete sound userID
  | quota call user filesAdd sizeAdd reset =>
    simp only [UserEvent.apply, updateUserQuota]
    split_ifs
    · exact sound
    · exact sound
    · cases counted : accounts.provider.updateQuota s call user.username filesAdd sizeAdd reset with
      | error err => exact sound
      | ok next => exact accounts.counts sound counted

theorem login_put (sound : accounts.Sound s) (userID : Option Int)
    {body : Body} (omits : OmitsCredentials body) (name : Str) :
    ((accounts.records
        (updateUser config accounts.provider s userID body).1).get name).map User.login =
      ((accounts.records s).get name).map User.login := by
  rcases accounts.put_cases config s userID body with
    same | ⟨id, stored, merged, next, found, decoded, sameId, updated, result⟩
  · rw [same]
  · obtain ⟨login, username⟩ := omits stored merged decoded
    rw [result]
    exact accounts.keeps sound found sameId username login updated name

theorem sound_run (sound : accounts.Sound s) (events : List UserEvent) :
    accounts.Sound (run (UserEvent.apply config accounts.provider) s events) := by
  induction events generalizing s with
  | nil => exact sound
  | cons event rest ih => exact ih (accounts.sound_apply sound event)

theorem login_puts (sound : accounts.Sound s) {puts : List (Option Int × Body)}
    (omits : ∀ put ∈ puts, OmitsCredentials put.2) (name : Str) :
    ((accounts.records
        (run (UserEvent.apply config accounts.provider) s
          (puts.map fun put => .put put.1 put.2))).get name).map User.login =
      ((accounts.records s).get name).map User.login := by
  induction puts generalizing s with
  | nil => rfl
  | cons put rest ih =>
    rw [List.map_cons, run_cons,
      ih (accounts.sound_apply sound _) fun other member =>
        omits other (List.mem_cons_of_mem put member)]
    exact accounts.login_put sound put.1 (omits put List.mem_cons_self) name

theorem loginsKept (credentials : Credentials) (verifiers : Verifiers) {after : σ} (stored :
      ∀ name, ((accounts.records after).get name).map User.login =
          ((accounts.records s).get name).map User.login) :
    LoginsKept credentials verifiers accounts.provider accounts.records s after := by
  have found :
      ∀ username, (accounts.provider.userExists after username = .error accounts.missing ∧
          accounts.provider.userExists s username = .error accounts.missing) ∨
        ∃ new old : User, accounts.provider.userExists after username = .ok new ∧
            accounts.provider.userExists s username = .ok old ∧
            new.login = old.login := by
    intro username
    rw [accounts.finds, accounts.finds]
    have same := stored username
    cases before : (accounts.records s).get username with
    | none =>
      rw [before] at same
      rw [Option.map_eq_none_iff.mp same]
      exact Or.inl ⟨rfl, rfl⟩
    | some old =>
      rw [before] at same
      obtain ⟨new, present, login⟩ := Option.map_eq_some_iff.mp same
      rw [present]
      exact Or.inr ⟨new, old, rfl, rfl, login⟩
  refine ⟨stored, fun username password => ?_, fun username pubKey => ?_⟩
  · unfold validateUserAndPass
    obtain ⟨afterNone, beforeNone⟩ | ⟨new, old, afterSome, beforeSome, login⟩ := found username
    · rw [afterNone, beforeNone]
    · rw [afterSome, beforeSome]
      split
      · rfl
      · exact verdict_checkUserAndPass login verifiers password
  · unfold validateUserAndPubKey
    obtain ⟨afterNone, beforeNone⟩ | ⟨new, old, afterSome, beforeSome, login⟩ := found username
    · rw [afterNone, beforeNone]
    · rw [afterSome, beforeSome]
      split
      · rfl
      · exact verdict_checkUserAndPubKey login credentials pubKey

end Accounts

/-- Records are stored under their own names. -/
def Named (records : SortedMap Str User) : Prop :=
  ∀ name record, records.get name = some record → record.username = name

/-- Every stored password is none or a hash. -/
def Hashed (records : SortedMap Str User) : Prop :=
  ∀ name record, records.get name = some record → Settled record.password

section Providers

variable {credentials : Credentials} (argon : Argon2id credentials)

include argon in
theorem settled_of_validateUser {user valid : User}
    (checked : validateUser credentials user = .ok valid) :
    Settled valid.password := by
  obtain ⟨_, pwd, hashed, rfl⟩ := validateUser_ok checked
  exact settled_of_hashPassword argon hashed

theorem login_of_validateUser {stored merged valid : User} (settled : Settled stored.password)
    (login : merged.login = stored.login) (checked : validateUser credentials merged = .ok valid) :
    valid.login = stored.login := by
  obtain ⟨_, pwd, hashed, rfl⟩ := validateUser_ok checked
  have samePassword : merged.password = stored.password := congrArg Prod.fst login
  rw [samePassword, hashPassword_of_settled settled] at hashed
  cases hashed
  have sameKeys : merged.publicKeys = stored.publicKeys := congrArg Prod.snd login
  exact Prod.ext rfl sameKeys

theorem Named.put {records : SortedMap Str User} (named : Named records)
    (record : User) : Named (records.put record.username record) := by
  intro other found held
  rw [SortedMap.get_put] at held
  split at held
  · rename_i same
    cases held
    exact same.symm
  · exact named other found held

theorem Hashed.put {records : SortedMap Str User} (hashed : Hashed records)
    {name : Str} {record : User} (settled : Settled record.password) :
    Hashed (records.put name record) := by
  intro other found held
  rw [SortedMap.get_put] at held
  split at held
  · cases held
    exact settled
  · exact hashed other found held

theorem Hashed.mapValues {records : SortedMap Str User}
    (hashed : Hashed records) {change : User → User}
    (settled : ∀ record, Settled record.password → Settled (change record).password) :
    Hashed (records.mapValues change) := by
  intro name found held
  rw [SortedMap.get_mapValues] at held
  obtain ⟨record, before, rfl⟩ := Option.map_eq_some_iff.mp held
  exact settled record (hashed name record before)

theorem password_addQuota (user : User) (call : Call) (filesAdd sizeAdd : Int) (reset : Bool) :
    (user.addQuota call filesAdd sizeAdd reset).password = user.password := by
  cases reset <;> rfl

def boltAccounts : Accounts BoltProvider where
  provider := BoltProvider.provider credentials
  records := BoltProvider.users
  missing := .recordNotFound "username  does not exist".toList
  finds := by
    intro s username
    show s.userExists username = _
    unfold BoltProvider.userExists
    cases s.users.get username <;> rfl
  Sound := fun s => Named s.users ∧ Hashed s.users
  adds := by
    rintro s call user next ⟨named, hashed⟩ added
    obtain ⟨valid, checked, _, _, rfl⟩ := BoltProvider.addUser_ok added
    have settled : Settled valid.password := settled_of_validateUser argon checked
    exact ⟨named.put { valid with id := (s.sequence + 1 : Nat) }, hashed.put settled⟩
  updates := by
    rintro s user next ⟨named, hashed⟩ updated
    obtain ⟨valid, checked, _, rfl⟩ := BoltProvider.updateUser_ok_iff.mp updated
    exact ⟨named.put valid, hashed.put (settled_of_validateUser argon checked)⟩
  deletes := by
    rintro s user next ⟨named, hashed⟩ deleted
    obtain ⟨userName, _, rfl⟩ := BoltProvider.deleteUser_ok deleted
    have before :
        ∀ {name record}, (s.users.delete userName).get name = some record →
          s.users.get name = some record := by
      intro name record held
      rw [SortedMap.get_delete, Option.ite_none_left_eq_some] at held
      exact held.2
    exact ⟨fun name record held => named name record (before held),
      fun name record held => hashed name record (before held)⟩
  counts := by
    rintro s call username filesAdd sizeAdd reset next ⟨named, hashed⟩ counted
    obtain ⟨user, found, rfl⟩ := BoltProvider.updateQuota_ok counted
    have settled := hashed username user found
    rw [← password_addQuota user call filesAdd sizeAdd reset] at settled
    have ownName : (user.addQuota call filesAdd sizeAdd reset).username = username := by
      rw [← named username user found]
      cases reset <;> rfl
    have kept := named.put (user.addQuota call filesAdd sizeAdd reset)
    rw [ownName] at kept
    exact ⟨kept, hashed.put settled⟩
  keeps := by
    rintro s id stored merged next ⟨named, hashed⟩ found _ sameName login updated name
    obtain ⟨own, _, present⟩ := BoltProvider.getUserByID_ok_iff.mp found
    obtain ⟨valid, checked, _, rfl⟩ := BoltProvider.updateUser_ok_iff.mp updated
    have validName : valid.username = own := by
      rw [username_of_validateUser checked, sameName, named own stored present]
    rw [SortedMap.get_put, validName]
    split
    · rename_i isOwn
      rw [isOwn, present, Option.map_some, Option.map_some,
        login_of_validateUser (hashed own stored present) login checked]
    · rfl

def sqlAccounts (db : Database) : Accounts SqlTable where
  provider := SqlTable.provider db credentials
  records := SqlTable.rows
  missing := .recordNotFound errNoRows
  finds := by
    intro t username
    show t.userExists username = _
    unfold SqlTable.userExists
    cases t.rows.get username <;> rfl
  Sound := fun t => t.Keyed ∧ Hashed t.rows
  adds := by
    rintro t call user next ⟨keyed, hashed⟩ added
    have kept := keyed.addUser added
    obtain ⟨valid, checked, _, rfl⟩ := SqlTable.addUser_ok added
    have settled : Settled valid.password := settled_of_validateUser argon checked
    exact ⟨kept, hashed.put settled⟩
  updates := by
    rintro t user next ⟨keyed, hashed⟩ updated
    have kept := keyed.updateUser updated
    obtain ⟨valid, checked, rfl⟩ := SqlTable.updateUser_ok updated
    refine ⟨kept, hashed.mapValues fun row settled => ?_⟩
    split
    · have own : Settled valid.password := settled_of_validateUser argon checked
      exact own
    · exact settled
  deletes := by
    rintro t user next ⟨keyed, hashed⟩ deleted
    have kept := keyed.deleteUser deleted
    cases deleted
    refine ⟨kept, fun name record held => hashed name record ?_⟩
    rw [SortedMap.get_filterValues, Option.filter_eq_some_iff] at held
    exact held.1
  counts := by
    rintro t call username filesAdd sizeAdd reset next ⟨keyed, hashed⟩ counted
    have kept := keyed.updateQuota counted
    obtain ⟨rfl, _⟩ := SqlTable.commit_ok counted
    refine ⟨kept, hashed.mapValues fun row settled => ?_⟩
    split
    · cases reset <;> exact settled
    · exact settled
  keeps := by
    rintro t id stored merged next ⟨keyed, hashed⟩ found sameId _ login updated name
    obtain ⟨own, present, storedId⟩ := SqlTable.getUserByID_ok found
    obtain ⟨valid, checked, rfl⟩ := SqlTable.updateUser_ok updated
    have validId : valid.id = stored.id := by
      rw [id_of_validateUser checked, sameId, storedId]
    rw [SortedMap.get_mapValues, Option.map_map]
    cases held : t.rows.get name with
    | none => rfl
    | some row =>
      simp only [Option.map_some, Function.comp_apply]
      split
      · rename_i isStored
        have isOwn := keyed.distinct name own row stored held present (isStored.trans validId)
        rw [isOwn, present] at held
        cases held
        have kept := login_of_validateUser (hashed own stored present) login checked
        exact congrArg some kept
      · rfl

end Providers

/-- After any calls, updates that omit the credentials leave all logins as
they are, with the Bolt provider and with the SQL ones. -/
theorem updates_keep_logins (config : Config) (credentials : Credentials)
    (argon : Argon2id credentials) (verifiers : Verifiers) (db : Database)
    (history : List UserEvent) (puts : List (Option Int × Body))
    (omits : ∀ put ∈ puts, OmitsCredentials put.2) :
    (let step := UserEvent.step config credentials
      let s := run step BoltProvider.empty history
      LoginsKept credentials verifiers (BoltProvider.provider credentials)
        BoltProvider.users s
        (run step s (puts.map fun put => .put put.1 put.2))) ∧
      let step := UserEvent.apply config (SqlTable.provider db credentials)
      let t := run step SqlTable.empty history
      LoginsKept credentials verifiers (SqlTable.provider db credentials)
        SqlTable.rows t
        (run step t (puts.map fun put => .put put.1 put.2)) := by
  rw [step_eq_apply]
  constructor
  · let accounts := boltAccounts argon
    have empty : accounts.Sound BoltProvider.empty :=
      ⟨by simp [Named, BoltProvider.empty], by simp [Hashed, BoltProvider.empty]⟩
    exact accounts.loginsKept credentials verifiers
      (accounts.login_puts (accounts.sound_run empty history) omits)
  · let accounts := sqlAccounts argon db
    have empty : accounts.Sound SqlTable.empty :=
      ⟨SqlTable.keyed_empty, by simp [Hashed, SqlTable.empty]⟩
    exact accounts.loginsKept credentials verifiers
      (accounts.login_puts (accounts.sound_run empty history) omits)

/-- A user is added, and gets a new home directory twice. -/
def movedHome : List UserEvent :=
  [.post plainCall (newUserBody "a".toList)]

def homeBody (homeDir : Str) : Body := fun user =>
  .ok { user with homeDir := homeDir }

def plainVerifiers : Verifiers where
  argon2id := fun password hash => .ok (argonPwdPrefix ++ password = hash)
  bcrypt := fun _ _ => none
  atoi := fun _ => .ok 1
  pbkdf2 := fun _ password _ _ => password

/-- The updates are made, and the user can still log in. -/
theorem moved_user_logs_in :
    let puts : List (Option Int × Body) :=
      [(some 1, homeBody "/srv/b".toList), (some 1, homeBody "/srv/c".toList)]
    let step := UserEvent.step plainConfig plainCredentials
    let s := run step BoltProvider.empty movedHome
    let after := run step s (puts.map fun put => .put put.1 put.2)
    (after.users.get "a".toList).map User.homeDir = some "/srv/c".toList ∧
      (validateUserAndPass plainVerifiers
        (BoltProvider.provider plainCredentials) after "a".toList "secret".toList).isOk ∧
      LoginsKept plainCredentials plainVerifiers
        (BoltProvider.provider plainCredentials) BoltProvider.users s
        after := by
  have omits : ∀ homeDir, OmitsCredentials (homeBody homeDir) := by
    intro homeDir user merged decoded
    cases decoded
    exact ⟨rfl, rfl⟩
  have argon : Argon2id plainCredentials := by
    intro password hash made
    cases made
    exact List.prefix_append _ _
  refine ⟨by decide +kernel, by decide +kernel, ?_⟩
  exact (updates_keep_logins plainConfig plainCredentials argon plainVerifiers
    ⟨.sqlite, id, [], []⟩ movedHome
    [(some 1, homeBody "/srv/b".toList), (some 1, homeBody "/srv/c".toList)]
    (by simp [omits])).1

end Sshserv.Api
