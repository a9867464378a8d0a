import Sshserv.Lib.UnixPath

/-!
# Users

The `User` record of package `dataprovider` and the checks and rewrites every
provider makes before a user is stored.  Password hashing and the parsing of
public keys are third-party code and stay parameters (`Credentials`).
-/

namespace Sshserv.DataProvider

open Lib.UnixPath

/-- Errors of the package.  The text is the one the code formats. -/
inductive ProviderError where
  | validation (text : Str)
  | methodDisabled (text : Str)
  | recordNotFound (text : Str)
  | other (text : Str)
  deriving DecidableEq

/-- The configuration values the modelled functions read. -/
structure Config where
  manageUsers : Int
  trackQuota : Int
  defaultUserExpire : Int
  deriving DecidableEq

structure User where
  id : Int
  username : Str
  password : Str
  publicKeys : List Str
  homeDir : Str
  uid : Int
  gid : Int
  maxSessions : Int
  quotaSize : Int
  quotaFiles : Int
  permissions : List Str
  usedQuotaSize : Int
  usedQuotaFiles : Int
  lastQuotaUpdate : Int
  uploadBandwidth : Int
  downloadBandwidth : Int
  deriving DecidableEq

def User.zero : User :=
  ⟨0, [], [], [], [], 0, 0, 0, 0, 0, [], 0, 0, 0, 0, 0⟩

/-- Third-party code behind the credentials of a user: `argon2id.CreateHash`
and `ssh.ParseAuthorizedKey`. -/
structure Credentials where
  createHash : Str → Except Str Str
  parseAuthorizedKey : Str → Except Str Str

def isStringInSlice (obj : Str) (list : List Str) : Bool :=
  list.any fun v => v = obj

def isStringPrefixInSlice (obj : Str) (list : List Str) : Bool :=
  list.any fun v => v.isPrefixOf obj

def permAny : Str := "*".toList
def permListItems : Str := "list".toList
def permDownload : Str := "download".toList
def permUpload : Str := "upload".toList
def permDelete : Str := "delete".toList
def permRename : Str := "rename".toList
def permCreateDirs : Str := "create_dirs".toList
def permCreateSymlinks : Str := "create_symlinks".toList

def validPerms : List Str :=
  [permAny, permListItems, permDownload, permUpload, permDelete, permRename,
    permCreateDirs, permCreateSymlinks, "shell".toList, "_expire:".toList]

namespace User

def hasPerm (user : User) (permission : Str) : Bool :=
  if isStringInSlice permAny user.permissions then true
  else isStringInSlice permission user.permissions

/-- The id handed to `os.Chown`; `-1` leaves the owner alone. -/
def chownID (id : Int) : Int :=
  if id ≤ 0 ∨ id > 65535 then -1 else id

def getUID (user : User) : Int :=
  chownID user.uid

def getGID (user : User) : Int :=
  chownID user.gid

def getHomeDir (user : User) : Str :=
  clean user.homeDir

def usedQuota (user : User) : Int × Int :=
  (user.usedQuotaFiles, user.usedQuotaSize)

def hasQuotaRestrictions (user : User) : Bool :=
  user.quotaFiles > 0 || user.quotaSize > 0

end User

theorem isStringInSlice_iff (obj : Str) (list : List Str) :
    isStringInSlice obj list = true ↔ obj ∈ list := by
  simp [isStringInSlice]

theorem User.hasPerm_iff (user : User) (permission : Str) :
    user.hasPerm permission = true ↔
      permAny ∈ user.permissions ∨ permission ∈ user.permissions := by
  unfold User.hasPerm
  by_cases any : isStringInSlice permAny user.permissions = true
  · simp [any, (isStringInSlice_iff _ _).mp any]
  · have notAny : permAny ∉ user.permissions := fun member =>
      any ((isStringInSlice_iff _ _).mpr member)
    simp [any, notAny, isStringInSlice_iff]

/-- What `validateUser` compares with the valid permissions: everything up to
and including the first colon, unless the colon comes first. -/
def permissionName (p : Str) : Str :=
  match p.findIdx? (· = ':') with
  | some px => if px > 0 then p.take (px + 1) else p
  | none => p

def argonPwdPrefix : Str := "$argon2id$".toList

def hashPwdPrefixes : List Str :=
  [argonPwdPrefix, "$2a$".toList, "$pbkdf2-sha1$".toList,
    "$pbkdf2-sha256$".toList, "$pbkdf2-sha512$".toList]

/-- The loop over the permissions: the first invalid one is reported. -/
def checkPermissions : List Str → Option ProviderError
  | [] => none
  | p :: rest =>
    if isStringInSlice (permissionName p) validPerms then
      checkPermissions rest
    else
      some (.validation ("Invalid permission: ".toList ++ permissionName p))

/-- The loop over the public keys, from index `i` on. -/
def checkPublicKeys (credentials : Credentials) : Nat → List Str → Option ProviderError
  | _, [] => none
  | i, k :: rest =>
    match credentials.parseAuthorizedKey k with
    | .ok _ => checkPublicKeys credentials (i + 1) rest
    | .error err =>
      some (.validation
        ("Could not parse key nr. ".toList ++ (toString i).toList ++ ": ".toList ++ err))

/-- The password as it is stored: hashed unless it already is a hash. -/
def hashPassword (credentials : Credentials) (password : Str) : Except Str Str :=
  if password ≠ [] ∧ ¬ isStringPrefixInSlice password hashPwdPrefixes then
    credentials.createHash password
  else .ok password

def validateUser (credentials : Credentials) (user : User) : Except ProviderError User :=
  if user.username = [] ∨ user.homeDir = [] then
    .error (.validation "Mandatory parameters missing".toList)
  else if user.password = [] ∧ user.publicKeys = [] then
    .error (.validation "Please set password or at least a public_key".toList)
  else if user.permissions = [] then
    .error (.validation "Please grant some permissions to this user".toList)
  else if ¬ isAbs user.homeDir then
    .error (.validation
      ("home_dir must be an absolute path, actual value: [".toList ++
        user.homeDir ++ "]--".toList))
  else
    match checkPermissions user.permissions with
    | some err => .error err
    | none =>
      match hashPassword credentials user.password with
      | .error err => .error (.other err)
      | .ok pwd =>
        match checkPublicKeys credentials 0 user.publicKeys with
        | some err => .error err
        | none => .ok { user with password := pwd }

/-- A validated user differs from the given one in the password only. -/
theorem validateUser_ok {credentials : Credentials} {user valid : User}
    (accepted : validateUser credentials user = .ok valid) :
    user.username ≠ [] ∧
      ∃ pwd, hashPassword credentials user.password = .ok pwd ∧
        valid = { user with password := pwd } := by
  unfold validateUser at accepted
  split at accepted
  · cases accepted
  rename_i mandatory
  refine ⟨fun empty => mandatory (Or.inl empty), ?_⟩
  split at accepted
  · cases accepted
  split at accepted
  · cases accepted
  split at accepted
  · cases accepted
  split at accepted
  · cases accepted
  split at accepted
  · cases accepted
  rename_i pwd hashed
  split at accepted
  · cases accepted
  · cases accepted
    exact ⟨pwd, hashed, rfl⟩

section Validated

variable {credentials : Credentials} {user valid : User}
variable (accepted : validateUser credentials user = .ok valid)

include accepted

theorem username_of_validateUser : valid.username = user.username := by
  obtain ⟨_, pwd, _, rfl⟩ := validateUser_ok accepted
  rfl

theorem id_of_validateUser : valid.id = user.id := by
  obtain ⟨_, pwd, _, rfl⟩ := validateUser_ok accepted
  rfl

theorem usedQuota_of_validateUser : valid.usedQuota = user.usedQuota := by
  obtain ⟨_, pwd, _, rfl⟩ := validateUser_ok accepted
  rfl

end Validated

def expirePrefix : Str := "_expire:".toList

def wrap64 (n : Int) : Int :=
  (n + 2 ^ 63) % 2 ^ 64 - 2 ^ 63

theorem wrap64_of_bounds {n : Int} (low : -2 ^ 63 ≤ n) (high : n < 2 ^ 63) : wrap64 n = n := by
  unfold wrap64
  omega

def isDigit (c : Char) : Bool :=
  '0' ≤ c ∧ c ≤ '9'

def digitsValue (digits : Str) : Nat :=
  digits.foldl (fun acc c => 10 * acc + (c.toNat - '0'.toNat)) 0

/-- Blanks that `fmt.Sscanf` skips before a number, from its table of white
space; a newline is an error. -/
def isScanSpace (c : Char) : Bool :=
  c = ' ' || c = '\t' || c = '\r' || c.toNat = 11 || c.toNat = 12 ||
    c.toNat = 133 || c.toNat = 160 || c.toNat = 0x1680 ||
    (0x2000 ≤ c.toNat && c.toNat ≤ 0x200a) || c.toNat = 0x2028 ||
    c.toNat = 0x2029 || c.toNat = 0x202f || c.toNat = 0x205f ||
    c.toNat = 0x3000

/-- The value `fmt.Sscanf(text, "%d", ..)` stores in an `int64`, if any. -/
def scanInt (text : Str) : Option Int :=
  let unsigned (negative : Bool) (body : Str) : Option Int :=
    if body.takeWhile isDigit = [] then none
    else
      let value : Int := digitsValue (body.takeWhile isDigit)
      let signed := if negative then -value else value
      if -2 ^ 63 ≤ signed ∧ signed < 2 ^ 63 then some signed else none
  match text.dropWhile isScanSpace with
  | '-' :: body => unsigned true body
  | '+' :: body => unsigned false body
  | body => unsigned false body

def intText (n : Int) : Str :=
  (toString n).toList

theorem intText_ofNat (n : Nat) : intText (n : Int) = Nat.toDigits 10 n := by
  have text : toString (n : Int) = toString n := rfl
  rw [intText, text, Nat.toString_eq_ofList_toDigits]
  simp

theorem isDigit_of_mem_intText {n : Nat} {c : Char}
    (member : c ∈ intText (n : Int)) : isDigit c = true := by
  rw [intText_ofNat] at member
  have digit := Nat.isDigit_of_mem_toDigits (by omega) (by omega) member
  simpa [isDigit, Char.isDigit, Char.le_def] using digit

theorem digitsValue_intText (n : Nat) : digitsValue (intText (n : Int)) = n := by
  have back : Nat.ofDigitChars 10 (Nat.toDigits 10 n) 0 = n := Nat.ofDigitChars_ten_toDigits
  rw [Nat.ofDigitChars_eq_foldl] at back
  rw [intText_ofNat]
  exact back

theorem intText_ne_nil (n : Nat) : intText (n : Int) ≠ [] := by
  rw [intText_ofNat]
  exact Nat.toDigits_ne_nil

theorem isScanSpace_of_isDigit {c : Char} (digit : isDigit c) : isScanSpace c = false := by
  have bounds : 48 ≤ c.toNat ∧ c.toNat ≤ 57 := by
    simpa [isDigit, Char.le_def, UInt32.le_iff_toNat_le] using digit
  obtain ⟨least, greatest⟩ := bounds
  rw [← Char.ofNat_toNat c]
  generalize c.toNat = code at least greatest
  interval_cases code <;> decide

theorem scanInt_digits {text : Str} (filled : text ≠ []) (digits : text.all isDigit)
    (small : digitsValue text < 2 ^ 63) :
    scanInt text = some (digitsValue text : Int) := by
  obtain ⟨first, rest, rfl⟩ := List.exists_cons_of_ne_nil filled
  have head : isDigit first = true := by
    rw [List.all_cons, Bool.and_eq_true] at digits
    exact digits.1
  have solid := isScanSpace_of_isDigit head
  have notMinus : first ≠ '-' := by
    rintro rfl
    simp [isDigit] at head
  have notPlus : first ≠ '+' := by
    rintro rfl
    simp [isDigit] at head
  have whole : (first :: rest).takeWhile isDigit = first :: rest :=
    List.takeWhile_eq_self_iff.mpr fun c member =>
      List.all_eq_true.mp digits c member
  have start : (first :: rest).dropWhile isScanSpace = first :: rest := by
    simp [List.dropWhile, solid]
  unfold scanInt
  rw [start]
  split
  · rename_i body same
    exact absurd (List.cons.inj same).1 notMinus
  · rename_i body same
    exact absurd (List.cons.inj same).1 notPlus
  · simp only [whole]
    rw [if_neg (by simp), if_pos (by
      constructor
      · simp
      · simp
        omega)]
    simp

theorem scanInt_intText {n : Nat} (small : n < 2 ^ 63) :
    scanInt (intText (n : Int)) = some (n : Int) := by
  have digits : (intText (n : Int)).all isDigit = true :=
    List.all_eq_true.mpr fun c member => isDigit_of_mem_intText member
  have value := digitsValue_intText n
  have read := scanInt_digits (intText_ne_nil n) digits (by rw [value]; exact small)
  rw [value] at read
  exact read

/-- The loop of `AddUser` over the permissions.  `minutes` keeps the value of
the last entry that could be read.  The second component says whether an
expiry entry was met. -/
def rewriteExpire (now : Int) : Int → List Str → List Str × Bool
  | _, [] => ([], false)
  | minutes, p :: rest =>
    if p.length < 9 ∨ p.take 8 ≠ expirePrefix then
      let (tail, custom) := rewriteExpire now minutes rest
      (p :: tail, custom)
    else
      let minutes := (scanInt (p.drop 8)).getD minutes
      let (tail, _) := rewriteExpire now minutes rest
      ((expirePrefix ++ intText (wrap64 (now + minutes * 60))) :: tail, true)

/-- The permissions that `AddUser` hands to the provider. -/
def expirePermissions (config : Config) (now : Int) (permissions : List Str) : List Str :=
  let (rewritten, custom) := rewriteExpire now 0 permissions
  if ¬ custom ∧ config.defaultUserExpire > 0 then
    rewritten ++ [expirePrefix ++ intText (wrap64 (now + config.defaultUserExpire * 60))]
  else rewritten

end Sshserv.DataProvider
