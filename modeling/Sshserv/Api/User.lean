import Sshserv.DataProvider.Provider

/-!
# The REST handlers for users

`addUser`, `updateUser` and `deleteUser` of package `api`, over any provider.
The decoding of a request body is third-party code: a body is what it makes of
the record it is decoded into.
-/

namespace Sshserv.Api

open Lib.UnixPath DataProvider

variable {σ : Type}

/-- `render.DecodeJSON` of a request body: fields that the body does not set
keep their value. -/
abbrev Body := User → Except Str User

structure ApiResponse where
  error : Str
  message : Str
  status : Nat
  deriving DecidableEq

inductive Response where
  | user (user : User)
  | api (response : ApiResponse)
  deriving DecidableEq

def sendAPIResponse (err : Option Str) (message : Str) (code : Nat) : Response :=
  .api ⟨err.getD [], message, code⟩

def getRespStatus : ProviderError → Nat
  | .validation _ => 400
  | .methodDisabled _ => 403
  | _ => 500

def getStatus : ProviderError → Nat
  | .recordNotFound _ => 404
  | _ => 500

section Handlers

variable (config : Config) (p : Provider σ) (s : σ)

def addUser (call : Call) (body : Body) : σ × Response :=
  match body User.zero with
  | .error err => (s, sendAPIResponse err [] 400)
  | .ok user =>
    match DataProvider.addUser config p s call user with
    | .error err => (s, sendAPIResponse err.text [] (getRespStatus err))
    | .ok next =>
      match p.userExists next user.username with
      | .ok stored => (next, .user { stored with password := [], publicKeys := [] })
      | .error err => (next, sendAPIResponse err.text [] 500)

/-- The user that `updateUser` and `deleteUser` work on.  The id is the one in
the path, if it is a number. -/
def readUser (userID : Option Int) : Except Response (Int × User) :=
  match userID with
  | none => .error (sendAPIResponse "Invalid userID".toList [] 400)
  | some id =>
    match p.getUserByID s id with
    | .error err => .error (sendAPIResponse err.text [] (getStatus err))
    | .ok user => .ok (id, user)

/-- The second half of `updateUser`, for the record read in the first. -/
def writeUser (id : Int) (user : User) (body : Body) : σ × Response :=
  match body user with
  | .error err => (s, sendAPIResponse err [] 400)
  | .ok user =>
    if user.id ≠ id then
      (s, sendAPIResponse none
        ("user ID in request body does not match user ID in path " ++ "parameter").toList 400)
    else
      match DataProvider.updateUser config p s user with
      | .error err => (s, sendAPIResponse err.text [] (getRespStatus err))
      | .ok next => (next, sendAPIResponse none "User updated".toList 200)

def updateUser (userID : Option Int) (body : Body) : σ × Response :=
  match readUser p s userID with
  | .error response => (s, response)
  | .ok (id, user) => writeUser config p s id user body

def removeUser (user : User) : σ × Response :=
  match DataProvider.deleteUser config p s user with
  | .error err => (s, sendAPIResponse err.text [] 500)
  | .ok next => (next, sendAPIResponse none "User deleted".toList 200)

def deleteUser (userID : Option Int) : σ × Response :=
  match readUser p s userID with
  | .error response => (s, response)
  | .ok (_, user) => removeUser config p s user

end Handlers

end Sshserv.Api
