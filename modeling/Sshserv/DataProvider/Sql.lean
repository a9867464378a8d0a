import Sshserv.DataProvider.Bolt
import Sshserv.DataProvider.Pool

/-!
# The SQL providers

The functions of `sqlcommon.go` over a table of users, whose key is the unique
column `username`; ids come from a sequence that never repeats a number.  A
statement that would leave a row that its columns cannot hold fails, as in the
strict mode of MySQL; SQLite keeps a sum beyond 64 bits as a float, which no
later read accepts.
-/

namespace Sshserv.DataProvider

open Lib Lib.UnixPath

/-- `lastId` is the last id that was given out. -/
structure SqlTable where
  rows : SortedMap Str User
  lastId : Int

/-- The database behind a provider: its driver and the texts of its errors. -/
structure Database where
  driver : Pool.Driver
  uniqueViolation : Str → Str
  invalidQuery : Str
  outOfRange : Str

def errNoRows : Str := "sql: no rows in result set".toList

/-- What a column `varchar(255)` holds; SQLite ignores the length. -/
def TextFits : Pool.Driver → Str → Prop
  | .mysql, text => text.length ≤ 255
  | .pgsql, text => text.length ≤ 255 ∧ Char.ofNat 0 ∉ text
  | .sqlite, _ => True

/-- The bits of a column `integer`. -/
def integerBits : Pool.Driver → Nat
  | .sqlite => 64
  | _ => 32

def InBits (bits : Nat) (n : Int) : Prop :=
  -2 ^ (bits - 1) ≤ n ∧ n < 2 ^ (bits - 1)

/-- The columns of the table of users can hold the row. -/
structure RowFits (driver : Pool.Driver) (row : User) : Prop where
  texts : ∀ text ∈ [row.username, row.password, row.homeDir], TextFits driver text
  integers :
    ∀ n ∈ [row.id, row.uid, row.gid, row.maxSessions, row.quotaFiles, row.usedQuotaFiles,
      row.uploadBandwidth, row.downloadBandwidth], InBits (integerBits driver) n
  bigints : ∀ n ∈ [row.quotaSize, row.usedQuotaSize, row.lastQuotaUpdate], InBits 64 n

instance (driver : Pool.Driver) : DecidablePred (TextFits driver) := fun text =>
  match driver with
  | .mysql => inferInstanceAs (Decidable (text.length ≤ 255))
  | .pgsql => inferInstanceAs (Decidable (text.length ≤ 255 ∧ Char.ofNat 0 ∉ text))
  | .sqlite => inferInstanceAs (Decidable True)

instance (bits : Nat) : DecidablePred (InBits bits) := fun n =>
  inferInstanceAs (Decidable (-2 ^ (bits - 1) ≤ n ∧ n < 2 ^ (bits - 1)))

instance (driver : Pool.Driver) : DecidablePred (RowFits driver) := fun row =>
  decidable_of_iff
    ((∀ text ∈ [row.username, row.password, row.homeDir], TextFits driver text) ∧
      (∀ n ∈ [row.id, row.uid, row.gid, row.maxSessions, row.quotaFiles, row.usedQuotaFiles,
        row.uploadBandwidth, row.downloadBandwidth], InBits (integerBits driver) n) ∧
      ∀ n ∈ [row.quotaSize, row.usedQuotaSize, row.lastQuotaUpdate], InBits 64 n)
    ⟨fun fits => ⟨fits.1, fits.2.1, fits.2.2⟩, fun fits => ⟨fits.1, fits.2, fits.3⟩⟩

namespace SqlTable

variable (t : SqlTable)

/-- The end of a statement that writes rows. -/
def commit (db : Database) : Except ProviderError SqlTable :=
  if ∀ entry ∈ t.rows.entries, RowFits db.driver entry.2 then .ok t
  else .error (.other db.outOfRange)

def empty : SqlTable where
  rows := SortedMap.empty
  lastId := 0

def getUserByID (id : Int) : Except ProviderError User :=
  match (t.rows.filterValues fun row => row.id = id).entries with
  | [] => .error (.recordNotFound errNoRows)
  | (_, row) :: _ => .ok row

/-- What the query of `getUpdateQuotaQuery` makes of a row. -/
def chargeRow (row : User) (call : Call) (filesAdd sizeAdd : Int) (reset : Bool) : User :=
  if reset then row.setQuota call filesAdd sizeAdd
  else row.setQuota call (row.usedQuotaFiles + filesAdd) (row.usedQuotaSize + sizeAdd)

/-- `sqlCommonUpdateQuota`: an update of no row is no error. -/
def updateQuota (db : Database) (call : Call) (username : Str) (filesAdd sizeAdd : Int)
    (reset : Bool) : Except ProviderError SqlTable :=
  commit
    { t with
      rows := t.rows.mapValues fun row =>
        if row.username = username then chargeRow row call filesAdd sizeAdd reset else row }
    db

def userExists (username : Str) : Except ProviderError User :=
  match t.rows.get username with
  | none => .error (.recordNotFound errNoRows)
  | some row => .ok row

/-- `sqlCommonGetUsedQuota`: the error is that of the query. -/
def getUsedQuota (username : Str) : Except ProviderError (Int × Int) :=
  match t.rows.get username with
  | none => .error (.other errNoRows)
  | some row => .ok (row.usedQuotaFiles, row.usedQuotaSize)

/-- The row that the query of `getAddUserQuery` inserts, with zeros for the
used quota. -/
def newRow (call : Call) (user : User) : User :=
  { user with
    id := t.lastId + 1 + call.skipped
    usedQuotaSize := 0
    usedQuotaFiles := 0
    lastQuotaUpdate := 0 }

def addUser (db : Database) (credentials : Credentials) (call : Call)
    (user : User) : Except ProviderError SqlTable :=
  match validateUser credentials user with
  | .error err => .error err
  | .ok user =>
    if (t.rows.get user.username).isSome then
      .error (.other (db.uniqueViolation user.username))
    else
      commit
        { rows := t.rows.put user.username (t.newRow call user)
          lastId := t.lastId + 1 + call.skipped }
        db

/-- The columns that the query of `sqlCommonUpdateUser` sets. -/
def updateRow (row user : User) : User :=
  { row with
    password := user.password
    publicKeys := user.publicKeys
    homeDir := user.homeDir
    uid := user.uid
    gid := user.gid
    maxSessions := user.maxSessions
    quotaSize := user.quotaSize
    quotaFiles := user.quotaFiles
    permissions := user.permissions
    uploadBandwidth := user.uploadBandwidth
    downloadBandwidth := user.downloadBandwidth }

def updateUser (db : Database) (credentials : Credentials) (user : User) :
    Except ProviderError SqlTable :=
  match validateUser credentials user with
  | .error err => .error err
  | .ok user =>
    commit
      { t with
        rows := t.rows.mapValues fun row =>
          if row.id = user.id then updateRow row user else row }
      db

def deleteUser (user : User) : Except ProviderError SqlTable :=
  .ok { t with rows := t.rows.filterValues fun row => row.id ≠ user.id }

/-- What may follow `ORDER BY username`: whether the order is ascending.  Any
other text is taken as an error of the query. -/
def parseOrder (order : Str) : Option Bool :=
  let word := order.map Char.toUpper
  if word = [] ∨ word = "ASC".toList then some true
  else if word = "DESC".toList then some false
  else none

/-- `LIMIT` and `OFFSET`: SQLite takes a negative limit for none and a
negative offset for zero, the others refuse them. -/
def window (driver : Pool.Driver) (limit offset : Int) (rows : List User) : Option (List User) :=
  if 0 ≤ limit ∧ 0 ≤ offset then
    some ((rows.drop offset.toNat).take limit.toNat)
  else
    match driver with
    | .sqlite =>
      if limit < 0 then some (rows.drop offset.toNat)
      else some ((rows.drop offset.toNat).take limit.toNat)
    | _ => none

/-- The rows that the query of `sqlCommonGetUsers` selects, in order. -/
def selected (rows : SortedMap Str User) (username : Str) (ascending : Bool) : List User :=
  let found :=
    if username ≠ [] then (rows.get username).toList
    else rows.entries.map Prod.snd
  if ascending then found else found.reverse

def getUsers (db : Database) (limit offset : Int) (order username : Str) :
    Except ProviderError (List User) :=
  match parseOrder order with
  | none => .error (.other db.invalidQuery)
  | some ascending =>
    match window db.driver limit offset
        (selected t.rows username ascending) with
    | none => .error (.other db.invalidQuery)
    | some rows => .ok (rows.map User.noCredentials)

def provider (db : Database) (credentials : Credentials) : Provider SqlTable where
  updateQuota := fun t => t.updateQuota db
  getUsedQuota := getUsedQuota
  userExists := userExists
  addUser := fun t call user => t.addUser db credentials call user
  updateUser := fun t user => t.updateUser db credentials user
  deleteUser := deleteUser
  getUsers := fun t => t.getUsers db
  getUserByID := getUserByID

end SqlTable

end Sshserv.DataProvider
