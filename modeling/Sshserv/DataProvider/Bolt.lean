import Sshserv.DataProvider.Provider
import Sshserv.Lib.SortedMap

/-!
# The Bolt provider

Users are records in one bucket, under their name; a second bucket maps the id
of each user to the name.  A bucket presents its keys in the order of their
bytes, which is the order of the names as lists of code points.
-/

namespace Sshserv.DataProvider

open Lib Lib.UnixPath

/-- `sequence` is the counter of the users bucket. -/
structure BoltProvider where
  users : SortedMap Str User
  usersIDIdx : SortedMap Int Str
  sequence : Nat

/-- Both forms of `getUserNoCredentials`. -/
def User.noCredentials (user : User) : User :=
  { user with password := [], publicKeys := [] }

/-- The new counters of `updateQuota`, which adds `int64` numbers. -/
def User.addQuota (user : User) (call : Call) (filesAdd sizeAdd : Int) (reset : Bool) : User :=
  if reset then user.setQuota call filesAdd sizeAdd
  else
    user.setQuota call (wrap64 (user.usedQuotaFiles + filesAdd))
      (wrap64 (user.usedQuotaSize + sizeAdd))

/-- The longest key of a bucket, in bytes. -/
def maxKeySize : Nat := 32768

def utf8Length (text : Str) : Nat :=
  (text.map fun c => c.utf8Size).sum

namespace BoltProvider

variable (s : BoltProvider)

def empty : BoltProvider where
  users := SortedMap.empty
  usersIDIdx := SortedMap.empty
  sequence := 0

def getUserByID (id : Int) : Except ProviderError User :=
  match s.usersIDIdx.get id with
  | none =>
    .error (.recordNotFound ("user with ID ".toList ++ intText id ++ " does not exist".toList))
  | some username =>
    match s.users.get username with
    | none =>
      .error (.recordNotFound
        ("username ".toList ++ username ++ " and ID: ".toList ++
          intText id ++ " does not exist".toList))
    | some user => .ok user

def updateQuota (call : Call) (username : Str) (filesAdd sizeAdd : Int)
    (reset : Bool) : Except ProviderError BoltProvider :=
  match s.users.get username with
  | none =>
    .error (.recordNotFound
      ("username ".toList ++ username ++ " does not exist, unable to update quota".toList))
  | some user =>
    .ok { s with
      users := s.users.put username (user.addQuota call filesAdd sizeAdd reset) }

/-- The text of the error prints the name of an empty record. -/
def userExists (username : Str) : Except ProviderError User :=
  match s.users.get username with
  | none => .error (.recordNotFound "username  does not exist".toList)
  | some user => .ok user

def getUsedQuota (username : Str) : Except ProviderError (Int × Int) :=
  match s.userExists username with
  | .error err => .error err
  | .ok user => .ok (user.usedQuotaFiles, user.usedQuotaSize)

def addUser (credentials : Credentials) (user : User) : Except ProviderError BoltProvider :=
  match validateUser credentials user with
  | .error err => .error err
  | .ok user =>
    if (s.users.get user.username).isSome then
      .error (.other ("username '".toList ++ user.username ++ "' already exists".toList))
    else
      let id : Nat := s.sequence + 1
      if utf8Length user.username > maxKeySize then
        .error (.other "key too large".toList)
      else
        .ok
          { users := s.users.put user.username { user with id := id }
            usersIDIdx := s.usersIDIdx.put id user.username
            sequence := id }

def updateUser (credentials : Credentials) (user : User) : Except ProviderError BoltProvider :=
  match validateUser credentials user with
  | .error err => .error err
  | .ok user =>
    match s.users.get user.username with
    | none =>
      .error (.recordNotFound ("username '".toList ++ user.username ++ "' does not exist".toList))
    | some _ => .ok { s with users := s.users.put user.username user }

def deleteUser (user : User) : Except ProviderError BoltProvider :=
  match s.usersIDIdx.get user.id with
  | none =>
    .error (.recordNotFound ("user with id ".toList ++ intText user.id ++ " does not exist".toList))
  | some userName =>
    .ok { s with
      users := s.users.delete userName
      usersIDIdx := s.usersIDIdx.delete user.id }

/-- The loop of `getUsers` over the records that the cursor has not met. -/
def cursorLoop (limit offset : Int) : Int → List User → List User → List User
  | _, users, [] => users
  | itNum, users, user :: rest =>
    if itNum + 1 ≤ offset then cursorLoop limit offset (itNum + 1) users rest
    else if limit ≤ (users ++ [user.noCredentials]).length then
      users ++ [user.noCredentials]
    else
      cursorLoop limit offset (itNum + 1) (users ++ [user.noCredentials]) rest

def getUsers (limit offset : Int) (order username : Str) : Except ProviderError (List User) :=
  if username ≠ [] then
    if offset = 0 then
      match s.userExists username with
      | .error _ => .ok []
      | .ok user => .ok [user.noCredentials]
    else .ok []
  else if limit ≤ 0 then .ok []
  else if order = "ASC".toList then
    .ok (cursorLoop limit offset 0 [] (s.users.entries.map Prod.snd))
  else
    .ok (cursorLoop limit offset 0 [] (s.users.entries.map Prod.snd).reverse)

def provider (credentials : Credentials) : Provider BoltProvider where
  updateQuota := updateQuota
  getUsedQuota := getUsedQuota
  userExists := userExists
  addUser := fun s _ user => s.addUser credentials user
  updateUser := fun s user => s.updateUser credentials user
  deleteUser := deleteUser
  getUsers := getUsers
  getUserByID := getUserByID

end BoltProvider

end Sshserv.DataProvider
