import Sshserv.DataProvider.User
import Sshserv.Lib.Syscall

/-!
# The world of a server process

What the handlers of package `serv` read and change.  A request runs against
an `Os`: what the operating system and the provider decide by themselves.
Every system call made by name has a fault of its own there.
-/

namespace Sshserv.Serv

open Lib UnixPath FileTree DataProvider

def uploadModeAtomic : Int := 1

/-- The settings of the process. -/
structure Settings where
  uploadMode : Int
  provider : Config
  deriving DecidableEq

/-- Uploads go to a temporary file, which `Close` renames. -/
abbrev Settings.Atomic (settings : Settings) : Prop := settings.uploadMode = uploadModeAtomic

/-- The fields of a `Connection` that its handlers read. -/
structure Connection where
  id : Str
  user : User
  protocol : Str
  deriving DecidableEq

/-- What one request finds outside the state.  A fault is the code of an
error that replaces the result of the call it is named after; `writeAt` and
`readAt` are indexed by the number of calls made before. -/
structure Os where
  stat : Option Nat
  statDir : Option Nat
  statDest : Option Nat
  lstat : Option Nat
  mkdir : Str → Option Nat
  chown : Str → Option Nat
  rename : Option Nat
  openFile : Option Nat
  /-- `some (count, err)`: only `count` bytes are written, and `err` is
  returned. -/
  writeAt : Nat → Option (Nat × Errno)
  /-- `some (count, err)`: at most `count` bytes are read, and `err` is
  returned. -/
  readAt : Nat → Option (Nat × Errno)
  closeFile : Option Errno
  closeRename : Option Nat
  readDir : Option Nat
  scan : Option Nat
  remove : Option Nat
  /-- Objects that `os.RemoveAll` does not reach. -/
  survivors : List Loc
  setstat : Option Nat
  symlink : Option Nat
  getUsedQuota : Option ProviderError
  updateQuota : Option ProviderError
  closeQuota : Option ProviderError
  /-- The attributes of a new object. -/
  attr : Attr
  /-- `xid.New().String()`. -/
  guid : Str
  now : Int
  /-- The order in which `File.Readdir` returns the entries. -/
  entryOrder : List FileInfo → List FileInfo
  /-- The text of an error. -/
  message : Errno → Str
  /-- `strconv.Quote`. -/
  quote : Str → Str

def Os.quiet (attr : Attr) (guid : Str) (now : Int) : Os :=
  ⟨none, none, none, none, fun _ => none, fun _ => none, none, none, fun _ => none,
    fun _ => none, none, none, none, none, none, [], none, none, none, none,
    none, attr, guid, now, id, fun _ => [], id⟩

/-- The result of a call that the operating system may refuse for a reason
that the tree does not show, such as a missing right or a full disk. -/
def orFault {α : Type} (fault : Option Nat) (result : Except Errno α) : Except Errno α :=
  match fault with
  | some code => .error (.other code)
  | none => result

theorem orFault_eq_ok {α : Type} {fault : Option Nat} {result : Except Errno α} {value : α} :
    orFault fault result = .ok value ↔ fault = none ∧ result = .ok value := by
  cases fault <;> simp [orFault]

theorem orFault_eq_noent {α : Type} {fault : Option Nat} {result : Except Errno α} :
    orFault fault result = .error .noent ↔ fault = none ∧ result = .error .noent := by
  cases fault <;> simp [orFault]

inductive TransferType where
  | upload
  | download
  deriving DecidableEq

structure Transfer where
  file : Handle
  path : Str
  start : Int
  bytesSent : Int
  bytesReceived : Int
  user : User
  connectionID : Str
  transferType : TransferType
  lastActivity : Int
  isNewFile : Bool
  protocol : Str
  deriving DecidableEq

/-- The state of the process.  `moments` records every tree that a system call
has left behind and `closes` every transfer that has been closed, the latest
first; no function reads them.  Transfers are referred to by their number, as
the code refers to them by pointer. -/
structure World where
  fs : FileSys
  moments : List FileSys
  quota : Str → Option (Int × Int)
  transfers : Nat → Option Transfer
  nextTransfer : Nat
  activeTransfers : List Nat
  closes : List Nat

namespace World

def start (fs : FileSys) (quota : Str → Option (Int × Int)) : World :=
  ⟨fs, [fs], quota, fun _ => none, 0, [], []⟩

def setFs (w : World) (fs : FileSys) : World :=
  { w with fs := fs, moments := fs :: w.moments }

section setFs

variable (w : World) (fs : FileSys)

@[simp]
theorem setFs_fs : (w.setFs fs).fs = fs := rfl

@[simp]
theorem setFs_moments : (w.setFs fs).moments = fs :: w.moments := rfl

@[simp]
theorem setFs_quota : (w.setFs fs).quota = w.quota := rfl

@[simp]
theorem setFs_transfers : (w.setFs fs).transfers = w.transfers := rfl

end setFs

/-- `&Transfer{..}` followed by `addTransfer`. -/
def addTransfer (w : World) (transfer : Transfer) : World × Nat :=
  ({ w with
      transfers := fun ref =>
        if ref = w.nextTransfer then some transfer else w.transfers ref
      nextTransfer := w.nextTransfer + 1
      activeTransfers := w.activeTransfers ++ [w.nextTransfer] },
    w.nextTransfer)

/-- The last entry takes the place of the one that is removed. -/
def swapRemove (refs : List Nat) (ref : Nat) : List Nat :=
  match refs.findIdx? (· = ref) with
  | none => refs
  | some i => (refs.set i (refs.getLastD 0)).dropLast

def removeTransfer (w : World) (ref : Nat) : World :=
  { w with activeTransfers := swapRemove w.activeTransfers ref }

def addClose (w : World) (ref : Nat) : World :=
  { w with closes := ref :: w.closes }

def setTransfer (w : World) (ref : Nat) (transfer : Transfer) : World :=
  { w with
    transfers := fun other =>
      if other = ref then some transfer else w.transfers other }

/-- `updateQuota` of a provider, with `reset` false.  A missing user and a
failed call leave the table alone. -/
def addUsed (w : World) (fault : Option ProviderError) (username : Str)
    (filesAdd sizeAdd : Int) : World :=
  match fault, w.quota username with
  | none, some (files, size) =>
    { w with
      quota := fun name =>
        if name = username then some (files + filesAdd, size + sizeAdd)
        else w.quota name }
  | _, _ => w

/-- Whether `UpdateUserQuota`, with `reset` false, calls the provider. -/
def tracked (settings : Settings) (user : User) : Bool :=
  settings.provider.trackQuota ≠ 0 &&
    !(settings.provider.trackQuota = 2 && !user.hasQuotaRestrictions)

/-- `dataprovider.UpdateUserQuota` with `reset` false.  No handler looks at
its error. -/
def updateUserQuota (w : World) (settings : Settings) (fault : Option ProviderError)
    (user : User) (filesAdd sizeAdd : Int) : World :=
  if tracked settings user then w.addUsed fault user.username filesAdd sizeAdd
  else w

def getUsedQuota (w : World) (settings : Settings) (fault : Option ProviderError)
    (username : Str) : Except ProviderError (Int × Int) :=
  if settings.provider.trackQuota = 0 then
    .error (.methodDisabled ("please enable track_quota in sftpgo.conf to use this method").toList)
  else
    match fault, w.quota username with
    | some err, _ => .error err
    | none, none => .error (.recordNotFound username)
    | none, some used => .ok used

section Frame

variable (w : World) (settings : Settings) (fault : Option ProviderError)
    (user : User) (filesAdd sizeAdd : Int)

theorem updateUserQuota_frame :
    ∃ quota,
      w.updateUserQuota settings fault user filesAdd sizeAdd = { w with quota := quota } := by
  unfold updateUserQuota addUsed
  split
  · split
    · exact ⟨_, rfl⟩
    · exact ⟨w.quota, rfl⟩
  · exact ⟨w.quota, rfl⟩

theorem updateUserQuota_own :
    (w.updateUserQuota settings fault user filesAdd sizeAdd).quota user.username =
      (w.quota user.username).map fun used =>
        if tracked settings user = true ∧ fault = none then
          (used.1 + filesAdd, used.2 + sizeAdd)
        else used := by
  unfold updateUserQuota addUsed
  by_cases tracks : tracked settings user = true
  · cases fault with
    | some err => cases entry : w.quota user.username <;> simp [tracks, entry]
    | none => cases entry : w.quota user.username <;> simp [tracks, entry]
  · cases entry : w.quota user.username <;> simp [tracks, entry]

@[simp]
theorem updateUserQuota_fs :
    (w.updateUserQuota settings fault user filesAdd sizeAdd).fs = w.fs := by
  obtain ⟨quota, equal⟩ := w.updateUserQuota_frame settings fault user filesAdd sizeAdd
  rw [equal]

@[simp]
theorem updateUserQuota_moments :
    (w.updateUserQuota settings fault user filesAdd sizeAdd).moments = w.moments := by
  obtain ⟨quota, equal⟩ := w.updateUserQuota_frame settings fault user filesAdd sizeAdd
  rw [equal]

@[simp]
theorem updateUserQuota_transfers :
    (w.updateUserQuota settings fault user filesAdd sizeAdd).transfers = w.transfers := by
  obtain ⟨quota, equal⟩ := w.updateUserQuota_frame settings fault user filesAdd sizeAdd
  rw [equal]

@[simp]
theorem updateUserQuota_nextTransfer :
    (w.updateUserQuota settings fault user filesAdd sizeAdd).nextTransfer = w.nextTransfer := by
  obtain ⟨quota, equal⟩ := w.updateUserQuota_frame settings fault user filesAdd sizeAdd
  rw [equal]

end Frame

/-- `utils.SetPathPermissions`: a failed `os.Chown` is only logged. -/
def setPathPermissions (w : World) (os : Os) (path : Str) (uid gid : Int) : World :=
  match orFault (os.chown path) (w.fs.chown path uid gid) with
  | .ok fs => w.setFs fs
  | .error _ => w

end World

namespace Connection

def hasSpace (c : Connection) (settings : Settings) (os : Os) (w : World)
    (checkFiles : Bool) : Bool :=
  if (checkFiles && c.user.quotaFiles > 0) || c.user.quotaSize > 0 then
    match w.getUsedQuota settings os.getUsedQuota c.user.username with
    | .error (.methodDisabled _) => true
    | .error _ => false
    | .ok (numFile, size) =>
      if (checkFiles && c.user.quotaFiles > 0 &&
            numFile ≥ c.user.quotaFiles) ||
          (c.user.quotaSize > 0 && size ≥ c.user.quotaSize) then false
      else true
  else true

end Connection

end Sshserv.Serv
