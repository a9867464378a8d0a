import Sshserv.DataProvider.Provider

/-!
# Authentication

`CheckUserAndPass` and `CheckUserAndPubKey` over any provider.  The comparison
of a password with a hash is third-party code (`Verifiers`); which comparison
is made depends on how the stored password starts.
-/

namespace Sshserv.DataProvider

open Lib.UnixPath

variable {σ : Type}

inductive HashFunc where
  | sha1
  | sha256
  | sha512
  deriving DecidableEq

/-- Third-party code behind the comparison of passwords.  `pbkdf2` is the
derived key in base 64, with the size of the hash function. -/
structure Verifiers where
  argon2id : Str → Str → Except Str Bool
  bcrypt : Str → Str → Option Str
  atoi : Str → Except Str Int
  pbkdf2 : HashFunc → Str → Str → Int → Str

def bcryptPwdPrefix : Str := "$2a$".toList
def pbkdf2SHA1Prefix : Str := "$pbkdf2-sha1$".toList
def pbkdf2SHA256Prefix : Str := "$pbkdf2-sha256$".toList
def pbkdf2SHA512Prefix : Str := "$pbkdf2-sha512$".toList

def pbkdfPwdPrefixes : List Str :=
  [pbkdf2SHA1Prefix, pbkdf2SHA256Prefix, pbkdf2SHA512Prefix]

def pbkdf2HashFunc (hashedPassword : Str) : Option HashFunc :=
  if pbkdf2SHA256Prefix.isPrefixOf hashedPassword then some .sha256
  else if pbkdf2SHA512Prefix.isPrefixOf hashedPassword then some .sha512
  else if pbkdf2SHA1Prefix.isPrefixOf hashedPassword then some .sha1
  else none

def comparePbkdf2PasswordAndHash (verifiers : Verifiers)
    (password hashedPassword : Str) : Except Str Bool :=
  match hashedPassword.splitOn '$' with
  | [_, format, rounds, salt, expected] =>
    match pbkdf2HashFunc hashedPassword with
    | none => .error ("pbkdf2: invalid or unsupported hash format ".toList ++ format)
    | some hashFunc =>
      match verifiers.atoi rounds with
      | .error err => .error err
      | .ok iterations => .ok (verifiers.pbkdf2 hashFunc password salt iterations = expected)
  | _ => .error "pbkdf2: hash is not in the correct format".toList

def invalidCredentials : Str := "Invalid credentials".toList

def emptyCredentials : Str := "Credentials cannot be null or empty".toList

def passwordMatches (verifiers : Verifiers) (stored password : Str) : Except Str Bool :=
  if argonPwdPrefix.isPrefixOf stored then
    verifiers.argon2id password stored
  else if bcryptPwdPrefix.isPrefixOf stored then
    match verifiers.bcrypt stored password with
    | some err => .error err
    | none => .ok true
  else if isStringPrefixInSlice stored pbkdfPwdPrefixes then
    comparePbkdf2PasswordAndHash verifiers password stored
  else .ok false

def checkUserAndPass (verifiers : Verifiers) (user : User) (password : Str) : Except Str User :=
  if user.password = [] then .error emptyCredentials
  else
    match passwordMatches verifiers user.password password with
    | .error err => .error err
    | .ok true => .ok user
    | .ok false => .error invalidCredentials

/-- The loop over the stored keys: the error that it returns, if any. -/
def searchKeys (credentials : Credentials) (pubKey : Str) : List Str → Option Str
  | [] => some invalidCredentials
  | k :: rest =>
    match credentials.parseAuthorizedKey k with
    | .error err => some err
    | .ok storedPubKey =>
      if storedPubKey = pubKey then none
      else searchKeys credentials pubKey rest

def checkUserAndPubKey (credentials : Credentials) (user : User) (pubKey : Str) : Except Str User :=
  match searchKeys credentials pubKey user.publicKeys with
  | some err => .error err
  | none => .ok user

def validateUserAndPass (verifiers : Verifiers) (p : Provider σ) (s : σ)
    (username password : Str) : Except Str User :=
  if password = [] then .error emptyCredentials
  else
    match p.userExists s username with
    | .error err => .error err.text
    | .ok user => checkUserAndPass verifiers user password

def validateUserAndPubKey (credentials : Credentials) (p : Provider σ)
    (s : σ) (username pubKey : Str) : Except Str User :=
  if pubKey = [] then .error emptyCredentials
  else
    match p.userExists s username with
    | .error err => .error err.text
    | .ok user => checkUserAndPubKey credentials user pubKey

/-- The fields that the checks read. -/
def User.login (user : User) : Str × List Str :=
  (user.password, user.publicKeys)

def verdict (answer : Except Str User) : Except Str Unit :=
  answer.map fun _ => ()

section Verdict

variable {first second : User} (same : first.login = second.login)

include same

theorem verdict_checkUserAndPass (verifiers : Verifiers) (password : Str) :
    verdict (checkUserAndPass verifiers first password) =
      verdict (checkUserAndPass verifiers second password) := by
  have samePassword : first.password = second.password := congrArg Prod.fst same
  unfold checkUserAndPass
  rw [samePassword]
  split
  · rfl
  · rcases passwordMatches verifiers second.password password with err | _ | _
    · rfl
    · rfl
    · rfl

theorem verdict_checkUserAndPubKey (credentials : Credentials) (pubKey : Str) :
    verdict (checkUserAndPubKey credentials first pubKey) =
      verdict (checkUserAndPubKey credentials second pubKey) := by
  have sameKeys : first.publicKeys = second.publicKeys := congrArg Prod.snd same
  unfold checkUserAndPubKey
  rw [sameKeys]
  cases searchKeys credentials pubKey second.publicKeys with
  | none => rfl
  | some err => rfl

end Verdict

/-- The passwords that `validateUser` stores: none, or a hash. -/
def Settled (password : Str) : Prop :=
  password = [] ∨ isStringPrefixInSlice password hashPwdPrefixes = true

theorem hashPassword_of_settled {password : Str} (settled : Settled password)
    (credentials : Credentials) :
    hashPassword credentials password = .ok password := by
  rw [hashPassword, if_neg]
  rintro ⟨nonempty, notHash⟩
  rcases settled with empty | hash
  · exact nonempty empty
  · exact notHash hash

/-- New hashes of passwords start with the prefix of `argon2id`. -/
def Argon2id (credentials : Credentials) : Prop :=
  ∀ password hash, credentials.createHash password = .ok hash → argonPwdPrefix <+: hash

theorem settled_of_hashPassword {credentials : Credentials} (argon : Argon2id credentials)
    {password stored : Str} (hashed : hashPassword credentials password = .ok stored) :
    Settled stored := by
  unfold hashPassword at hashed
  split at hashed
  · have start := argon password stored hashed
    refine Or.inr ?_
    simp only [isStringPrefixInSlice, List.any_eq_true]
    exact ⟨argonPwdPrefix, List.mem_cons_self, List.isPrefixOf_iff_prefix.mpr start⟩
  · rename_i plain
    cases hashed
    rw [not_and_or, not_not, not_not] at plain
    exact plain

end Sshserv.DataProvider
