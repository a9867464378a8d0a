import Sshserv.DataProvider.Provider
import Sshserv.Lib.Runs

/-!
# Exchanging one provider for another

When two providers can stand in for each other: they succeed on the same
calls, and after every call they know the same users, up to a renaming of
ids and to timestamps.
-/

namespace Sshserv.DataProvider

open Lib UnixPath Runs

variable {σ τ : Type}

/-- A call that may change the store. -/
inductive ProviderCall where
  | addUser (call : Call) (user : User)
  | updateUser (user : User)
  | deleteUser (user : User)
  | updateUserQuota (call : Call) (user : User) (filesAdd sizeAdd : Int)
      (reset : Bool)

def ProviderCall.exec (config : Config) (p : Provider σ) (s : σ) :
    ProviderCall → Except ProviderError σ
  | addUser call user => DataProvider.addUser config p s call user
  | updateUser user => DataProvider.updateUser config p s user
  | deleteUser user => DataProvider.deleteUser config p s user
  | updateUserQuota call user filesAdd sizeAdd reset =>
    DataProvider.updateUserQuota config p s call user filesAdd sizeAdd reset

/-- The same call for a provider that has the user under another id. -/
def ProviderCall.withId (id : Int) : ProviderCall → ProviderCall
  | addUser call user => addUser call user
  | updateUser user => updateUser { user with id := id }
  | deleteUser user => deleteUser { user with id := id }
  | updateUserQuota call user filesAdd sizeAdd reset =>
    updateUserQuota call user filesAdd sizeAdd reset

def settle (s : σ) : Except ProviderError σ → σ
  | .ok next => next
  | .error _ => s

/-- A call on both providers, and the id of its user in the second. -/
def bothStep (config : Config) (p : Provider σ) (q : Provider τ)
    (s : σ × τ) (event : ProviderCall × Int) : σ × τ :=
  (settle s.1 (event.1.exec config p s.1), settle s.2 ((event.1.withId event.2).exec config q s.2))

def User.renamed (rename : Int → Int) (user : User) : User :=
  { user with id := rename user.id, lastQuotaUpdate := 0 }

/-- The arguments of `getUsers`. -/
structure Query where
  limit : Int
  offset : Int
  order : Str
  username : Str
  deriving DecidableEq

/-- A query that means the same to every provider. -/
def Query.Plain (query : Query) : Prop :=
  0 ≤ query.offset ∧
    (query.order = "ASC".toList ∨ query.order = "DESC".toList) ∧
    (if query.username = [] then 0 ≤ query.limit else 1 ≤ query.limit)

def Agree (config : Config) (p : Provider σ) (q : Provider τ) (s : σ) (t : τ) : Prop :=
  ∃ rename : Int → Int, (∀ name other user found,
      p.userExists s name = .ok user → p.userExists s other = .ok found →
        rename user.id = rename found.id → user.id = found.id) ∧
    (∀ name,
      (p.userExists s name).toOption.map (User.renamed rename) =
        (q.userExists t name).toOption.map (User.renamed id)) ∧
    (∀ name, (getUsedQuota config p s name).toOption = (getUsedQuota config q t name).toOption) ∧
    ∀ query : Query, query.Plain →
      (p.getUsers s query.limit query.offset query.order
          query.username).toOption.map (List.map (User.renamed rename)) =
        (q.getUsers t query.limit query.offset query.order
          query.username).toOption.map (List.map (User.renamed id))

/-- Both providers succeed on the same calls of the run and answer alike in
every state of it. -/
def Interchangeable (config : Config) (p : Provider σ) (q : Provider τ)
    (start : σ × τ) (events : List (ProviderCall × Int)) : Prop :=
  (∀ s event, Takes (bothStep config p q) start events s event →
    (event.1.exec config p s.1).isOk = ((event.1.withId event.2).exec config q s.2).isOk) ∧
    ∀ s, Visits (bothStep config p q) start events s → Agree config p q s.1 s.2

end Sshserv.DataProvider
