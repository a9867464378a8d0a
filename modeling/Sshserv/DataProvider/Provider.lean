import Sshserv.DataProvider.User

/-!
# Data providers

The interface that every store of users implements, and the functions through
which the rest of the program reaches it.  A method that fails leaves the
store as it was.
-/

namespace Sshserv.DataProvider

open Lib.UnixPath

variable {σ : Type}

/-- What a call finds around it: the time, in seconds and in milliseconds, and
how many ids an SQL sequence has skipped since the last one it gave out. -/
structure Call where
  now : Int
  millis : Int
  skipped : Nat
  deriving DecidableEq

/-- The methods of `Provider` over a store of type `σ`. -/
structure Provider (σ : Type) where
  updateQuota : σ → Call → Str → Int → Int → Bool → Except ProviderError σ
  getUsedQuota : σ → Str → Except ProviderError (Int × Int)
  userExists : σ → Str → Except ProviderError User
  addUser : σ → Call → User → Except ProviderError σ
  updateUser : σ → User → Except ProviderError σ
  deleteUser : σ → User → Except ProviderError σ
  getUsers : σ → Int → Int → Str → Str → Except ProviderError (List User)
  getUserByID : σ → Int → Except ProviderError User

def User.setQuota (user : User) (call : Call) (files size : Int) : User :=
  { user with
    usedQuotaSize := size
    usedQuotaFiles := files
    lastQuotaUpdate := call.millis }

namespace ProviderError

def text : ProviderError → Str
  | validation err => "Validation error: ".toList ++ err
  | methodDisabled err => "Method disabled error: ".toList ++ err
  | recordNotFound err => "Not found: ".toList ++ err
  | other err => err

end ProviderError

def manageUsersDisabledError : Str :=
  "please set manage_users to 1 in sftpgo.conf to enable this method".toList

def trackQuotaDisabledError : Str :=
  "please enable track_quota in sftpgo.conf to use this method".toList

def updateUserQuota (config : Config) (p : Provider σ) (s : σ) (call : Call)
    (user : User) (filesAdd sizeAdd : Int) (reset : Bool) :
    Except ProviderError σ :=
  if config.trackQuota = 0 then
    .error (.methodDisabled trackQuotaDisabledError)
  else if config.trackQuota = 2 ∧ ¬ reset ∧ ¬ user.hasQuotaRestrictions then
    .ok s
  else p.updateQuota s call user.username filesAdd sizeAdd reset

def getUsedQuota (config : Config) (p : Provider σ) (s : σ) (username : Str) :
    Except ProviderError (Int × Int) :=
  if config.trackQuota = 0 then
    .error (.methodDisabled trackQuotaDisabledError)
  else p.getUsedQuota s username

def addUser (config : Config) (p : Provider σ) (s : σ) (call : Call)
    (user : User) : Except ProviderError σ :=
  if config.manageUsers = 0 then
    .error (.methodDisabled manageUsersDisabledError)
  else
    p.addUser s call
      { user with
        permissions := expirePermissions config call.now user.permissions }

def updateUser (config : Config) (p : Provider σ) (s : σ) (user : User) : Except ProviderError σ :=
  if config.manageUsers = 0 then
    .error (.methodDisabled manageUsersDisabledError)
  else p.updateUser s user

def deleteUser (config : Config) (p : Provider σ) (s : σ) (user : User) : Except ProviderError σ :=
  if config.manageUsers = 0 then
    .error (.methodDisabled manageUsersDisabledError)
  else p.deleteUser s user

def plainConfig : Config := ⟨1, 1, 0⟩

def plainCredentials : Credentials where
  createHash := fun password => .ok (argonPwdPrefix ++ password)
  parseAuthorizedKey := fun key => .ok key

def plainCall : Call := ⟨0, 0, 0⟩

end Sshserv.DataProvider
