import Sshserv.Lib.Runs
import Sshserv.Serv.ScpCommand

/-!
# Read-only users

A session is a sequence of requests: the four SFTP handlers with any method
and attributes, reads, writes and ends of the transfers they return, and whole
SCP commands.  `handleSFTPSetstat` asks for no permission.
-/

namespace Sshserv.Serv

open Lib UnixPath FileTree DataProvider
open Lib.Runs

/-- None of the permissions that let a user change files. -/
structure ReadOnly (user : User) : Prop where
  any : permAny ∉ user.permissions
  upload : permUpload ∉ user.permissions
  delete : permDelete ∉ user.permissions
  rename : permRename ∉ user.permissions
  createDirs : permCreateDirs ∉ user.permissions
  createSymlinks : permCreateSymlinks ∉ user.permissions

instance (user : User) : Decidable (ReadOnly user) :=
  decidable_of_iff
    (permAny ∉ user.permissions ∧ permUpload ∉ user.permissions ∧
      permDelete ∉ user.permissions ∧ permRename ∉ user.permissions ∧
      permCreateDirs ∉ user.permissions ∧
      permCreateSymlinks ∉ user.permissions)
    ⟨fun ⟨any, upload, delete, rename, createDirs, createSymlinks⟩ =>
        ⟨any, upload, delete, rename, createDirs, createSymlinks⟩,
      fun readOnly =>
        ⟨readOnly.any, readOnly.upload, readOnly.delete, readOnly.rename,
          readOnly.createDirs, readOnly.createSymlinks⟩⟩

inductive SessionEvent where
  | fileread (c : Connection) (os : Os) (request : Request)
  | filewrite (c : Connection) (os : Os) (request : Request)
  | filelist (c : Connection) (os : Os) (request : Request)
  | filecmd (c : Connection) (os : Os) (request : Request)
  | readAt (os : Os) (index ref count : Nat) (off : Int)
  | writeAt (os : Os) (index ref : Nat) (bytes : List Char) (off : Int)
  | close (os : Os) (ref : Nat)
  | scp (cmd : ScpCommand) (env : ScpCommand.ScpEnv) (ch : Channel)

def sessionStep (settings : Settings) (w : World) : SessionEvent → World
  | .fileread c os request => (c.fileread os w request).1
  | .filewrite c os request => (c.filewrite settings os w request).1
  | .filelist _ _ _ => w
  | .filecmd c os request => (c.filecmd settings os w request).1
  | .readAt os index ref count off => (Transfer.readAt os index w ref count off).1
  | .writeAt os index ref bytes off => (Transfer.writeAt os index w ref bytes off).1
  | .close os ref => (Transfer.close settings os w ref).1
  | .scp cmd env ch => (cmd.handle settings env w ch).world

namespace SessionEvent

def user : SessionEvent → Option User
  | .fileread c _ _ => some c.user
  | .filewrite c _ _ => some c.user
  | .filelist c _ _ => some c.user
  | .filecmd c _ _ => some c.user
  | .scp cmd _ _ => some cmd.connection.user
  | _ => none

def ByReadOnly (event : SessionEvent) : Prop :=
  ∀ user, event.user = some user → ReadOnly user

/-- A `Setstat` request that asks for new permissions, owners or times. -/
def SetsAttributes : SessionEvent → Prop
  | .filecmd _ _ request =>
    request.method = .setstat ∧
      (request.attrFlags.permissions = true ∨
        request.attrFlags.uidGid = true ∨
        request.attrFlags.acmodtime = true)
  | _ => False

end SessionEvent

/-- Every transfer is a download from a file opened for reading. -/
def OnlyDownloads (w : World) : Prop :=
  ∀ ref t, w.transfers ref = some t → t.transferType = .download ∧ t.file.writable = false

/-- No system call has changed the tree. -/
structure Untouched (before after : World) : Prop where
  fs : after.fs = before.fs
  moments : after.moments = before.moments
  downloads : OnlyDownloads before → OnlyDownloads after

theorem Untouched.refl (w : World) : Untouched w w :=
  ⟨rfl, rfl, id⟩

theorem Untouched.trans {first second third : World}
    (left : Untouched first second) (right : Untouched second third) :
    Untouched first third :=
  ⟨right.fs.trans left.fs, right.moments.trans left.moments,
    fun downloads => right.downloads (left.downloads downloads)⟩

section Permissions

variable {user : User} (readOnly : ReadOnly user)
include readOnly

private theorem hasPerm_eq_false {permission : Str} (absent : permission ∉ user.permissions) :
    user.hasPerm permission = false := by
  rw [Bool.eq_false_iff]
  intro granted
  rcases (User.hasPerm_iff user permission).mp granted with any | listed
  · exact readOnly.any any
  · exact absent listed

theorem ReadOnly.noUpload : user.hasPerm permUpload = false :=
  hasPerm_eq_false readOnly readOnly.upload

theorem ReadOnly.noDelete : user.hasPerm permDelete = false :=
  hasPerm_eq_false readOnly readOnly.delete

theorem ReadOnly.noRename : user.hasPerm permRename = false :=
  hasPerm_eq_false readOnly readOnly.rename

theorem ReadOnly.noCreateDirs : user.hasPerm permCreateDirs = false :=
  hasPerm_eq_false readOnly readOnly.createDirs

theorem ReadOnly.noCreateSymlinks : user.hasPerm permCreateSymlinks = false :=
  hasPerm_eq_false readOnly readOnly.createSymlinks

end Permissions

theorem untouched_addTransfer (w : World) (t : Transfer)
    (download : t.transferType = .download ∧ t.file.writable = false) :
    Untouched w (w.addTransfer t).1 := by
  refine ⟨rfl, rfl, fun downloads ref other entry => ?_⟩
  by_cases here : ref = w.nextTransfer
  · simp only [World.addTransfer, here, if_true, Option.some.injEq] at entry
    exact entry ▸ download
  · simp only [World.addTransfer, here, if_false] at entry
    exact downloads ref other entry

variable {w : World} {c : Connection} {request : Request}

theorem untouched_setTransfer {ref : Nat} {t new : Transfer} (entry : w.transfers ref = some t)
    (sameType : new.transferType = t.transferType)
    (sameAccess : new.file.writable = t.file.writable) :
    Untouched w (w.setTransfer ref new) := by
  refine ⟨rfl, rfl, fun downloads other found foundEntry => ?_⟩
  by_cases here : other = ref
  · simp only [World.setTransfer, here, if_true, Option.some.injEq] at foundEntry
    obtain ⟨download, readOnly⟩ := downloads ref t entry
    rw [← foundEntry, sameType, sameAccess]
    exact ⟨download, readOnly⟩
  · simp only [World.setTransfer, here, if_false] at foundEntry
    exact downloads other found foundEntry

theorem untouched_readAt (os : Os) (index : Nat) (w : World) (ref count : Nat) (off : Int) :
    Untouched w (Transfer.readAt os index w ref count off).1 := by
  unfold Transfer.readAt
  split
  · exact Untouched.refl w
  · rename_i t entry
    split
    · exact untouched_setTransfer entry rfl rfl
    · exact untouched_setTransfer entry rfl rfl

theorem untouched_writeAt (os : Os) (index : Nat) (downloads : OnlyDownloads w) (ref : Nat)
    (bytes : List Char) (off : Int) :
    Untouched w (Transfer.writeAt os index w ref bytes off).1 := by
  unfold Transfer.writeAt
  split
  · exact Untouched.refl w
  · rename_i t entry
    have closed : t.file.writable = false := (downloads ref t entry).2
    have refused : ∃ err, w.fs.writeAt t.file (os.written index bytes) off os.now = .error err := by
      unfold FileSys.writeAt
      split
      · exact ⟨_, rfl⟩
      · split
        · exact ⟨_, rfl⟩
        · simp [closed]
    obtain ⟨err, failed⟩ := refused
    rw [failed]
    exact untouched_setTransfer entry rfl rfl

theorem untouched_close (settings : Settings) (os : Os) (downloads : OnlyDownloads w) (ref : Nat) :
    Untouched w (Transfer.close settings os w ref).1 := by
  unfold Transfer.close
  split
  · exact Untouched.refl w
  · rename_i t entry
    have download : t.transferType = .download := (downloads ref t entry).1
    have marked : Untouched w (w.setTransfer ref { t with file := t.file.closed }) :=
      untouched_setTransfer entry rfl rfl
    simp only [Transfer.settle, Transfer.account, download, reduceCtorEq, false_and, if_false]
    exact ⟨rfl, rfl, fun given => download ▸ marked.downloads given⟩

private theorem openRead_not_writable {fs : FileSys} {path : Str} {file : Handle}
    (opened : fs.openRead path = .ok file) :
    file.writable = false := by
  unfold FileSys.openRead at opened
  split at opened
  · split at opened <;> cases opened <;> rfl
  · cases opened

theorem untouched_fileread (c : Connection) (os : Os) (w : World) (request : Request) :
    Untouched w (c.fileread os w request).1 := by
  unfold Connection.fileread
  split
  · exact Untouched.refl w
  split
  · exact Untouched.refl w
  split
  · exact Untouched.refl w
  split
  · exact Untouched.refl w
  rename_i file opened
  split
  · exact Untouched.refl w
  · exact untouched_addTransfer w _ ⟨rfl, openRead_not_writable (orFault_eq_ok.mp opened).2⟩

theorem untouched_filewrite
    (readOnly : ReadOnly c.user) (settings : Settings) (os : Os) (w : World) (request : Request) :
    Untouched w (c.filewrite settings os w request).1 := by
  simp only [Connection.filewrite, readOnly.noUpload, Bool.false_eq_true,
    not_false_eq_true, if_true]
  exact Untouched.refl w

/-- Without a flag that asks for a change `Setstat` does nothing. -/
private theorem setstat_idle (os : Os) (w : World) (path : Str) (idle :
      ¬ (request.attrFlags.permissions = true ∨
        request.attrFlags.uidGid = true ∨
        request.attrFlags.acmodtime = true)) :
    (Connection.handleSFTPSetstat os w path request).1 = w := by
  unfold Connection.handleSFTPSetstat
  rw [if_neg fun set => idle (Or.inl set),
    if_neg fun set => idle (Or.inr (Or.inl set)),
    if_neg fun set => idle (Or.inr (Or.inr set))]

theorem untouched_filecmd (readOnly : ReadOnly c.user) (settings : Settings) (os : Os) (w : World)
    (noChange : ¬ (SessionEvent.filecmd c os request).SetsAttributes) :
    Untouched w (c.filecmd settings os w request).1 := by
  unfold Connection.filecmd
  split
  · exact Untouched.refl w
  split
  · exact Untouched.refl w
  rename_i target _
  split
  · rename_i method
    rw [setstat_idle os w _ fun set => noChange ⟨method, set⟩]
    exact Untouched.refl w
  · simp only [Connection.handleSFTPRename, readOnly.noRename,
      Bool.false_eq_true, not_false_eq_true, if_true, Connection.finishCmd]
    exact Untouched.refl w
  · simp only [Connection.handleSFTPRmdir, readOnly.noDelete,
      Bool.false_eq_true, not_false_eq_true, if_true]
    exact Untouched.refl w
  · simp only [Connection.handleSFTPMkdir, readOnly.noCreateDirs,
      Bool.false_eq_true, not_false_eq_true, if_true, Connection.finishCmd]
    exact Untouched.refl w
  · simp only [Connection.handleSFTPSymlink, readOnly.noCreateSymlinks,
      Bool.false_eq_true, not_false_eq_true, if_true, Connection.finishCmd]
    exact Untouched.refl w
  · simp only [Connection.handleSFTPRemove, readOnly.noDelete,
      Bool.false_eq_true, not_false_eq_true, if_true]
    exact Untouched.refl w
  · exact Untouched.refl w

section Scp

variable {cmd : ScpCommand} (readOnly : ReadOnly cmd.connection.user) (settings : Settings)

include readOnly in
theorem handleUpload_refused (os : Os) (w : World) (ch : Channel) (rawPath : Str) (size : Int) :
    cmd.handleUpload settings os w ch rawPath size =
      ⟨refuse w ch "Permission denied".toList, 0⟩ := by
  simp [ScpCommand.handleUpload, readOnly.noUpload]

include readOnly in
theorem handleCreateDir_refused (os : Os) (w : World) (ch : Channel) (dirPath : Str) :
    cmd.handleCreateDir os w ch dirPath = refuse w ch "Permission denied".toList := by
  simp [ScpCommand.handleCreateDir, readOnly.noCreateDirs]

include readOnly in
theorem sink_world (os : Nat → Os) (fuel : Nat) :
    ∀ (index : Nat) (numDirs : Int) (destPath : Str) (w : World)
      (ch : Channel),
      (cmd.sink settings os fuel index numDirs destPath w ch).world = w := by
  induction fuel with
  | zero =>
    intro index numDirs destPath w ch
    rfl
  | succ fuel ih =>
    intro index numDirs destPath w ch
    rw [ScpCommand.sink]
    split
    · rfl
    split
    · rfl
    split
    · split
      · split <;> rfl
      · exact ih _ _ _ _ _
    split
    · rfl
    · simp [handleCreateDir_refused readOnly, handleUpload_refused readOnly settings, refuse]

variable {w : World} {download : World → Channel → Str → ScpState}

theorem untouched_downloadFile
    (os : Os) (downloads : OnlyDownloads w) (ch : Channel) (p : Str) (stat : FileInfo) :
    Untouched w (cmd.downloadFile settings os w ch p stat).world := by
  unfold ScpCommand.downloadFile
  split
  · exact Untouched.refl w
  rename_i file opened
  have added :=
    untouched_addTransfer w
      (cmd.connection.newTransfer os file p .download false)
      ⟨rfl, openRead_not_writable (orFault_eq_ok.mp opened).2⟩
  generalize w.addTransfer (cmd.connection.newTransfer os file p .download false) = registered at *
  obtain ⟨opening, ref⟩ := registered
  have sent : Untouched opening (cmd.sendDownloadFileData os opening ch p stat ref).1 :=
    sendDownloadFileData_keeps
      (fun index off now before =>
        before.trans (untouched_readAt os index now ref 32768 off))
      cmd (Untouched.refl opening) ch p stat
  have closed := fun now (only : OnlyDownloads now) =>
    untouched_close settings os only ref
  simp only
  split
  · rename_i now _ _ result
    rw [result] at sent
    have reached := added.trans sent
    exact reached.trans (closed now (reached.downloads downloads))
  · rename_i now _ result
    rw [result] at sent
    have reached := added.trans sent
    have ended := closed now (reached.downloads downloads)
    split
    · rename_i last _ closing
      rw [closing] at ended
      exact reached.trans ended
    · rename_i last closing
      rw [closing] at ended
      exact reached.trans ended

theorem untouched_downloadEach
    (each : ∀ w ch path, OnlyDownloads w → Untouched w (download w ch path).world)
    (paths : List Str) :
    ∀ (w : World) (ch : Channel), OnlyDownloads w →
      Untouched w (ScpCommand.downloadEach download paths w ch).world := by
  induction paths with
  | nil =>
    intro w ch _
    exact Untouched.refl w
  | cons path rest ih =>
    intro w ch downloads
    have one := each w ch path downloads
    unfold ScpCommand.downloadEach
    simp only
    split
    · exact one.trans (ih _ _ (one.downloads downloads))
    · exact one

theorem reportLoop_world (state : ScpState) :
    (ScpCommand.reportLoop state).world = state.world := by
  unfold ScpCommand.reportLoop
  split <;> rfl

theorem untouched_handleRecursiveDownload
    (each : ∀ w ch path, OnlyDownloads w → Untouched w (download w ch path).world) (os : Os)
    (downloads : OnlyDownloads w) (ch : Channel) (dirPath : Str) (stat : FileInfo) :
    Untouched w (cmd.handleRecursiveDownload download os w ch dirPath stat).world := by
  unfold ScpCommand.handleRecursiveDownload
  split
  · exact Untouched.refl w
  split
  · exact Untouched.refl w
  split
  · exact Untouched.refl w
  rename_i files _
  have sentFiles := fun paths channel =>
    untouched_downloadEach each paths w channel downloads
  simp only
  split
  · rw [reportLoop_world]
    exact sentFiles _ _
  · have sentDirs := fun paths channel start (begun : Untouched w start) =>
      begun.trans (untouched_downloadEach each paths start channel (begun.downloads downloads))
    split
    · rw [reportLoop_world]
      exact sentDirs _ _ _ (sentFiles _ _)
    · split
      · exact sentDirs _ _ _ (sentFiles _ _)
      · exact sentDirs _ _ _ (sentFiles _ _)

theorem untouched_handleDownload (os : Str → Os) (fuel : Nat) :
    ∀ (w : World) (ch : Channel) (filePath : Str), OnlyDownloads w →
      Untouched w (cmd.handleDownload settings os fuel w ch filePath).world := by
  induction fuel with
  | zero =>
    intro w ch filePath _
    exact Untouched.refl w
  | succ fuel ih =>
    intro w ch filePath downloads
    unfold ScpCommand.handleDownload
    split
    · exact Untouched.refl w
    split
    · exact Untouched.refl w
    split
    · exact Untouched.refl w
    · exact Untouched.refl w
    split
    · exact untouched_handleRecursiveDownload ih _ downloads _ _ _
    · exact untouched_downloadFile settings _ downloads _ _ _

include readOnly in
theorem untouched_handle (env : ScpCommand.ScpEnv) (downloads : OnlyDownloads w) (ch : Channel) :
    Untouched w (cmd.handle settings env w ch).world := by
  have uploaded : (cmd.handleRecursiveUpload settings w ch env.sink).world = w := by
    unfold ScpCommand.handleRecursiveUpload
    split
    · rfl
    · exact sink_world readOnly settings env.sink _ _ _ _ w ch
  have downloaded :
      ∀ channel path,
        Untouched w (cmd.handleDownload settings env.source env.depth w channel path).world :=
    fun channel path =>
      untouched_handleDownload settings env.source env.depth w channel path downloads
  unfold ScpCommand.handle
  split
  · split
    · simp only
      split
      · rw [uploaded]
        exact Untouched.refl w
      · rw [uploaded]
        exact Untouched.refl w
    split
    · split
      · exact Untouched.refl w
      · simp only
        split
        · exact downloaded _ _
        · exact downloaded _ _
    · exact Untouched.refl w
  · exact Untouched.refl w

end Scp

/-- Names, contents, link targets, modes, owners and times at and below
`home` are the same. -/
def SameTree (home : Loc) (before after : FileSys) : Prop :=
  ∀ loc, home <+: loc →
    after.node loc = before.node loc ∧
      ∀ ino, before.node loc = some (.file ino) → after.inode ino = before.inode ino

/-- The tree at and below `home` is the same in every state of the session. -/
def HomeUnchanged (settings : Settings) (w : World)
    (events : List SessionEvent) (home : Loc) : Prop :=
  ∀ state, Visits (sessionStep settings) w events state → SameTree home w.fs state.fs

theorem untouched_sessionStep (settings : Settings) (downloads : OnlyDownloads w)
    {event : SessionEvent} (byReadOnly : event.ByReadOnly) (noChange : ¬ event.SetsAttributes) :
    Untouched w (sessionStep settings w event) := by
  cases event with
  | fileread c os request => exact untouched_fileread c os w request
  | filewrite c os request => exact untouched_filewrite (byReadOnly _ rfl) settings os w request
  | filelist c os request => exact Untouched.refl w
  | filecmd c os request => exact untouched_filecmd (byReadOnly _ rfl) settings os w noChange
  | readAt os index ref count off => exact untouched_readAt os index w ref count off
  | writeAt os index ref bytes off => exact untouched_writeAt os index downloads ref bytes off
  | close os ref => exact untouched_close settings os downloads ref
  | scp cmd env ch => exact untouched_handle (byReadOnly _ rfl) settings env downloads ch

/-- A session in which read-only users ask for anything but new attributes
leaves every tree unchanged, in each of its states. -/
theorem readOnly_session_unchanged (settings : Settings) (fs : FileSys)
    (quota : Str → Option (Int × Int)) (events : List SessionEvent)
    (byReadOnly : ∀ event ∈ events, event.ByReadOnly)
    (noChange : ∀ event ∈ events, ¬ event.SetsAttributes) (home : Loc) :
    HomeUnchanged settings (World.start fs quota) events home := by
  intro state visited
  have reached : Untouched (World.start fs quota) state ∧ OnlyDownloads state :=
    visits_invariant
      (fun _ event => event.ByReadOnly ∧ ¬ event.SetsAttributes)
      (fun state =>
        Untouched (World.start fs quota) state ∧ OnlyDownloads state)
      (fun now event known condition =>
        have next := untouched_sessionStep settings known.2 condition.1 condition.2
        ⟨known.1.trans next, next.downloads known.2⟩)
      ⟨Untouched.refl _, fun ref t entry => by cases entry⟩
      (admissible_of_forall
        (fun event member =>
          ⟨byReadOnly event member, noChange event member⟩) _)
      visited
  intro loc _
  rw [reached.1.fs]
  exact ⟨rfl, fun _ _ => rfl⟩

def readOnlyConnection : Connection :=
  ⟨"c".toList,
    { sampleUser with
      permissions := [permListItems, permDownload] },
    "SFTP".toList⟩

def chmodHome : Request :=
  ⟨.setstat, "/".toList, [], 4, ⟨0, 0, 0, 0, 0, 0⟩⟩

/-- A read-only user changes the mode of the home directory. -/
theorem setstat_changes_mode :
    (∀ event ∈ [SessionEvent.filecmd readOnlyConnection sampleOs chmodHome], event.ByReadOnly) ∧
      ¬ HomeUnchanged defaultSettings (World.start namesakeTree fun _ => none)
        [.filecmd readOnlyConnection sampleOs chmodHome]
        sampleHome := by
  constructor
  · intro event member user given
    rw [List.mem_singleton.mp member] at given
    cases given
    decide
  · intro unchanged
    have same := (unchanged _ (visits_run _ _ _) sampleHome List.prefix_rfl).1
    revert same
    decide

/-- The same user's upload and download requests change nothing. -/
theorem readOnly_session_refused :
    HomeUnchanged defaultSettings (World.start namesakeTree fun _ => none)
      [.filewrite readOnlyConnection sampleOs
          ⟨.other "Put".toList, "/new".toList, [], 26, ⟨0, 0, 0, 0, 0, 0⟩⟩,
        .fileread readOnlyConnection sampleOs
          ⟨.other "Get".toList, "/".toList, [], 1, ⟨0, 0, 0, 0, 0, 0⟩⟩]
      sampleHome := by
  refine readOnly_session_unchanged _ _ _ _ ?_ ?_ _
  · intro event member user given
    simp only [List.mem_cons, List.not_mem_nil, or_false] at member
    rcases member with rfl | rfl <;> cases given <;> decide
  · intro event member
    simp only [List.mem_cons, List.not_mem_nil, or_false] at member
    rcases member with rfl | rfl <;> exact not_false

end Sshserv.Serv
