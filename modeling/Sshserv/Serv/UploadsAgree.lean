import Sshserv.Serv.StoredUpload

/-!
# The same upload over both protocols

SCP and SFTP coincide for a new file.  For an existing one SCP releases the
size of the old file before it looks for space, looks at the number of files
too, and counts the file as a new one.
-/

namespace Sshserv.Serv

open Lib UnixPath FileTree DataProvider

namespace Transfer

/-- Consecutive `WriteAt` calls, up to the first that fails. -/
def putAll (os : Os) (ref : Nat) : Nat → Int → List (List Char) → World → World × Bool
  | _, _, [], w => (w, true)
  | index, off, p :: rest, w =>
    match writeAt os index w ref p off with
    | (w, _, some _) => (w, false)
    | (w, _, none) => putAll os ref (index + 1) (off + p.length) rest w

end Transfer

theorem putAll_eq_writeAll {os : Os} (quiet : ∀ index, os.writeAt index = none) {ref ino : Nat}
    (chunks : List (List Char)) :
    ∀ (index : Nat) {w : World} {t : Transfer},
      w.transfers ref = some t → WritesIno t.file ino →
      Transfer.putAll os ref index (w.fs.inode ino).data.length chunks w =
        (Transfer.writeAll os ref index (w.fs.inode ino).data.length chunks w, true) := by
  induction chunks with
  | nil =>
    intro index w t entry writes
    rfl
  | cons p rest ih =>
    intro index w t entry writes
    obtain ⟨data, own, fine⟩ := writeAt_behind (quiet index) entry writes p
    have behind :
        ((w.fs.inode ino).data.length : Int) + p.length =
          ((Transfer.writeAt os index w ref p
            (w.fs.inode ino).data.length).1.fs.inode ino).data.length := by
      rw [data, List.length_append]
      push_cast
      rfl
    have later := ih (index + 1) own writes
    rw [← behind] at later
    rw [Transfer.putAll, Transfer.writeAll]
    rcases written : Transfer.writeAt os index w ref p (w.fs.inode ino).data.length with
      ⟨after, count, _ | err⟩
    · rw [written] at later
      exact later
    · rw [written] at fine
      cases fine

namespace Connection

/-- An upload over SFTP: the file is opened, written from the beginning in
the given chunks, and closed. -/
def sftpUpload (c : Connection) (settings : Settings) (os : Os) (w : World)
    (request : Request) (chunks : List (List Char)) : World × Reply Unit :=
  match c.filewrite settings os w request with
  | (w, .refused code) => (w, .refused code)
  | (w, .crash) => (w, .crash)
  | (w, .done ref) =>
    let put := Transfer.putAll os ref 0 0 chunks w
    let ended := Transfer.close settings os put.1 ref
    if put.2 ∧ ended.2 = none then (ended.1, .done ())
    else (ended.1, .refused .failure)

end Connection

section Sftp

variable {c : Connection} {settings : Settings} {os : Os} {w : World} {request : Request}

theorem filewrite_ne_crash (c : Connection) (settings : Settings) (os : Os)
    (w : World) (request : Request) :
    (c.filewrite settings os w request).2 ≠ .crash := by
  unfold Connection.filewrite Connection.handleSFTPUploadToNewFile
    Connection.handleSFTPUploadToExistingFile
  repeat' split
  all_goals simp

theorem sftpUpload_refused (refused : (c.filewrite settings os w request).2.number = none)
    (chunks : List (List Char)) :
    ∃ code, (c.sftpUpload settings os w request chunks).2 = .refused code := by
  have never := filewrite_ne_crash c settings os w request
  unfold Connection.sftpUpload
  rcases done : c.filewrite settings os w request with
    ⟨after, ref | code | _⟩
  · rw [done] at refused
    cases refused
  · exact ⟨code, rfl⟩
  · rw [done] at never
    exact absurd rfl never

theorem sftpUpload_leaves {before base : FileSys} {p : Str} {isNewFile : Bool}
    {used : Option (Int × Int)} {opened : World} {ref : Nat} (quiet : os.Quiet)
    (requested : numbered (c.filewrite settings os w request) = (opened, some ref))
    (opens : OpenedIn c settings os base p isNewFile used opened ref)
    (stores : StoresAll settings os before p opened ref) (chunks : List (List Char)) :
    (c.sftpUpload settings os w request chunks).2 = .done () ∧
      Leaves settings c.user before p chunks.flatten isNewFile used
        (c.sftpUpload settings os w request chunks).1 := by
  have leaves := opens.leaves quiet stores chunks
  obtain ⟨_, created, file, upload⟩ := opens
  obtain ⟨_, ino, writes, empty⟩ := create_writesIno upload.made
  have start : ((opened.fs.inode ino).data.length : Int) = 0 := by
    rw [upload.data, empty]
    rfl
  have put := putAll_eq_writeAll quiet.writeAt chunks 0 upload.entry writes
  rw [start] at put
  have closed := (stores chunks).1
  unfold Connection.sftpUpload
  rcases done : c.filewrite settings os w request with
    ⟨after, number | code | _⟩
  · rw [done] at requested
    simp only [Reply.number, Prod.mk.injEq, Option.some.injEq] at requested
    obtain ⟨rfl, rfl⟩ := requested
    simp only [put, closed, and_self, if_true]
    exact ⟨trivial, leaves⟩
  · rw [done] at requested
    cases (Prod.ext_iff.mp requested).2
  · rw [done] at requested
    cases (Prod.ext_iff.mp requested).2

end Sftp

variable {settings : Settings} {user : User}

theorem handleUpload_unopened {cmd : ScpCommand} {os : Os} {w : World} {rawPath p : Str}
    (accepted : cmd.connection.buildPath w.fs rawPath = .ok p)
    (looked : ∀ err, orFault os.stat (w.fs.stat p) = .error err → err = .noent)
    (refused : (cmd.connection.scpOpen settings os w rawPath).2 = none)
    (ch : Channel) (sizeToRead : Int) :
    ∃ text, (cmd.handleUpload settings os w ch rawPath sizeToRead).result = .failed text := by
  have continues := handleUpload_continues cmd settings os ch sizeToRead w rawPath
  obtain ⟨fueled, crashes⟩ := handleUpload_result cmd settings os w ch rawPath sizeToRead
  rcases requested : cmd.connection.scpOpen settings os w rawPath with
    ⟨after, _ | ref⟩
  · rw [requested] at continues
    have failed := continues.2
    cases ends : (cmd.handleUpload settings os w ch rawPath sizeToRead).result with
    | ok => exact absurd ends failed
    | failed text => exact ⟨text, rfl⟩
    | outOfFuel => exact absurd ends fueled
    | crash =>
      obtain ⟨_, q, err, again, stopped, other⟩ := crashes.mp ends
      rw [accepted] at again
      cases again
      exact absurd (looked err stopped) other
  · rw [requested] at refused
    cases refused

/-- Both uploads are refused, or both succeed and leave the same files and the
same counters. -/
def UploadsAgree (user : User) (scp : UploadState) (sftp : World × Reply Unit) : Prop :=
  ((∃ text, scp.result = .failed text) ∧ ∃ code, sftp.2 = .refused code) ∨
    (scp.result = .ok ∧ sftp.2 = .done () ∧
      FileSys.SameView sftp.1.fs scp.world.fs ∧
      scp.world.quota user.username = sftp.1.quota user.username)

/-- The counters `used` before the upload, the limits and the size of the
existing file make the protocols differ: the update is tracked, and the two
do not both refuse the upload. -/
def ReplacesDifferently (settings : Settings) (user : User)
    (used : Option (Int × Int)) (size : Int) : Prop :=
  World.tracked settings user = true ∧
    match used with
    | none => user.quotaFiles > 0 ∧ ¬ user.quotaSize > 0
    | some (files, bytes) =>
      ¬ (user.quotaSize > 0 ∧ bytes ≥ user.quotaSize ∧
        ((user.quotaFiles > 0 ∧ files ≥ user.quotaFiles) ∨ bytes - size ≥ user.quotaSize))

/-- The inputs for which the protocols differ: a path that `os.Stat` cannot
look up although it was accepted, or an existing file. -/
def UploadsDiffer (c : Connection) (settings : Settings) (w : World) (rawPath : Str) : Prop :=
  c.user.hasPerm permUpload = true ∧
    ∃ p, c.buildPath w.fs rawPath = .ok p ∧
      match w.fs.stat p with
      | .error err => err ≠ .noent
      | .ok info =>
        info.isDir = false ∧ ReplacesDifferently settings c.user (w.quota c.user.username) info.size

theorem room_of_untracked (untracked : World.tracked settings user ≠ true) (checkFiles : Bool)
    (used : Option (Int × Int)) :
    settings.provider.trackQuota = 0 ∨ Room user checkFiles used := by
  simp only [World.tracked, User.hasQuotaRestrictions, ne_eq,
    Bool.and_eq_true, decide_eq_true_eq, Bool.not_eq_true', not_and,
    Bool.not_eq_false, Bool.or_eq_false_iff, decide_eq_false_iff_not] at untracked
  by_cases off : settings.provider.trackQuota = 0
  · exact Or.inl off
  · right
    obtain ⟨_, noFiles, noSize⟩ := untracked off
    cases used with
    | none =>
      rintro (files | size)
      · exact noFiles files.2
      · exact noSize size
    | some counters => exact ⟨fun files => noFiles files.2.1, fun size => noSize size.1⟩

/-- For an existing file: when both protocols refuse it, and when they leave
the same counters. -/
theorem not_replacesDifferently_iff {w : World} {size : Int} :
    ¬ ReplacesDifferently settings user (w.quota user.username) size ↔
      (¬ (settings.provider.trackQuota = 0 ∨ Room user false (w.quota user.username)) ∧
          ¬ (settings.provider.trackQuota = 0 ∨ Room user true (released settings user w size))) ∨
        ((settings.provider.trackQuota = 0 ∨ Room user false (w.quota user.username)) ∧
          (settings.provider.trackQuota = 0 ∨ Room user true (released settings user w size)) ∧
          (World.tracked settings user = true → w.quota user.username = none)) := by
  by_cases tracks : World.tracked settings user = true
  · have on : settings.provider.trackQuota ≠ 0 := by
      intro off
      simp [World.tracked, off] at tracks
    rw [released, World.updateUserQuota_own]
    simp only [ReplacesDifferently, tracks, on, true_and, and_self, if_true, false_or, forall_const]
    cases w.quota user.username with
    | none =>
      simp only [Room, Option.map_none]
      by_cases size : user.quotaSize > 0
      · simp [size]
      · simp [size]
    | some used =>
      simp only [Room, Option.map_some, Bool.false_eq_true, false_and,
        not_false_eq_true, true_and, reduceCtorEq, and_false, or_false]
      have less : used.2 + -size = used.2 - size := by omega
      rw [less, Int.add_zero]
      tauto
  · have roomBefore := room_of_untracked tracks false (w.quota user.username)
    have roomAfter := room_of_untracked tracks true (released settings user w size)
    simp [ReplacesDifferently, tracks, roomBefore, roomAfter]

theorem Leaves.sameView {before : FileSys} {p : Str} {content : List Char}
    {isNewFile otherNew : Bool} {used otherUsed : Option (Int × Int)} {first second : World}
    (left : Leaves settings user before p content isNewFile used first)
    (right : Leaves settings user before p content otherNew otherUsed second) :
    FileSys.SameView second.fs first.fs := by
  obtain ⟨⟨loc, lands, updated⟩, _⟩ := left
  obtain ⟨⟨other, otherLands, otherUpdated⟩, _⟩ := right
  rw [lands] at otherLands
  cases otherLands
  intro seen
  rw [updated, otherUpdated]

section Agreement

variable {cmd : ScpCommand} {c : Connection} {settings : Settings}
    {scpOs sftpOs : Os} {w : World} {rawPath p : Str} {request : Request}
    {content rest : List Char} {chunks : List (List Char)} {ch : Channel}

theorem buildPath_of_user (sameUser : c.user = cmd.connection.user) (fs : FileSys) (rawPath : Str) :
    cmd.connection.buildPath fs rawPath = c.buildPath fs rawPath := by
  obtain ⟨⟨_, user, _⟩, _⟩ := cmd
  obtain ⟨_, _, _⟩ := c
  cases sameUser
  rfl

variable (sameUser : c.user = cmd.connection.user) (rooted : isAbs c.user.homeDir)
    (scpQuiet : scpOs.Quiet) (sftpQuiet : sftpOs.Quiet) (scpFresh : TempFresh settings scpOs w.fs p)
    (sftpFresh : TempFresh settings sftpOs w.fs p) (permitted : c.user.hasPerm permUpload)
    (accepted : c.buildPath w.fs rawPath = .ok p) (parent : ParentExists w.fs p)
    (named : request.filepath = rawPath) (pieces : chunks.flatten = content) (live : ch.Live)
    (bytes : ch.bytes = (content ++ okMsg) ++ rest)
include sameUser rooted scpQuiet sftpQuiet scpFresh sftpFresh permitted
  accepted parent named pieces live bytes

theorem uploads_agree_new (missing : w.fs.stat p = .error .noent) :
    UploadsAgree c.user
      (cmd.handleUpload settings scpOs w ch rawPath content.length)
      (c.sftpUpload settings sftpOs w request chunks) := by
  have acceptedScp := (buildPath_of_user sameUser w.fs rawPath).trans accepted
  obtain ⟨names, last, place, left, slot⟩ :=
    slot_of_accepted rooted accepted parent (by simp [missing])
  have scp :=
    @scpOpen_new cmd.connection settings scpOs w p rawPath names place last
      left scpQuiet (sameUser ▸ permitted) acceptedScp missing slot
  have sftp :=
    @filewrite_new c settings sftpOs w p rawPath names place last left
      sftpQuiet permitted accepted missing slot rooted request named
  rw [hasSpace_iff scpQuiet.getUsedQuota, ← sameUser,
    creatable_uploadFilePath_iff scpFresh slot] at scp
  rw [hasSpace_iff sftpQuiet.getUsedQuota, creatable_uploadFilePath_iff sftpFresh slot] at sftp
  by_cases allowed :
      (settings.provider.trackQuota = 0 ∨ Room c.user true (w.quota c.user.username)) ∧
        (settings.Atomic ∨ w.fs.Creatable p)
  · right
    obtain ⟨scpOpened, scpRef, scpRequested, scpOpens⟩ := scp.opens allowed
    obtain ⟨sftpOpened, sftpRef, sftpRequested, sftpOpens⟩ := sftp.opens allowed
    have scpStores := scpOpens.stored_new scpQuiet scpFresh slot missing
    have sftpStores := sftpOpens.stored_new sftpQuiet sftpFresh slot missing
    obtain ⟨after, answered, _, done, leaves⟩ :=
      handleUpload_leaves live bytes scpQuiet scpRequested scpOpens scpStores
    obtain ⟨put, leavesToo⟩ := sftpUpload_leaves sftpQuiet sftpRequested sftpOpens sftpStores chunks
    rw [pieces] at leavesToo
    rw [← sameUser] at leaves
    rw [done]
    exact ⟨rfl, put, leaves.sameView leavesToo, leaves.2.trans leavesToo.2.symm⟩
  · left
    refine ⟨handleUpload_unopened acceptedScp ?_ (scp.refuses allowed) ch _,
      sftpUpload_refused (sftp.refuses allowed) chunks⟩
    intro err looked
    rw [scpQuiet.stat, orFault_none, missing] at looked
    cases looked
    rfl

theorem uploads_agree_existing_iff (overwrites : Overwrites request.pflags) {info : FileInfo}
    (found : w.fs.stat p = .ok info) (regular : info.isDir = false) :
    UploadsAgree c.user
        (cmd.handleUpload settings scpOs w ch rawPath content.length)
        (c.sftpUpload settings sftpOs w request chunks) ↔
      ¬ ReplacesDifferently settings c.user (w.quota c.user.username) info.size := by
  have acceptedScp := (buildPath_of_user sameUser w.fs rawPath).trans accepted
  obtain ⟨names, last, place, left, slot⟩ :=
    slot_of_accepted rooted accepted parent fun other again => by
      rw [found] at again
      cases again
      exact regular
  obtain ⟨leaf, more, ino, target, _⟩ := target_of_stat found regular
  obtain ⟨scpMoved, scpMoves, scpKept, scpSlot, scpCreatable⟩ :=
    moveAside_quiet scpQuiet scpFresh slot target
  obtain ⟨sftpMoved, sftpMoves, sftpKept, _, sftpCreatable⟩ :=
    moveAside_quiet sftpQuiet sftpFresh slot target
  have scp :=
    scpOpen_existing scpQuiet (sameUser ▸ permitted) acceptedScp found
      regular scpMoves scpKept scpCreatable scpSlot
  have sftp :=
    filewrite_existing sftpQuiet permitted accepted found regular sftpMoves
      sftpKept sftpCreatable named overwrites
  rw [← sameUser] at scp
  rw [not_replacesDifferently_iff]
  have looked : ∀ err, orFault scpOs.stat (w.fs.stat p) = .error err → err = .noent := by
    intro err failed
    rw [scpQuiet.stat, orFault_none, found] at failed
    cases failed
  -- What each protocol does with and without room.
  have scpStored :
      (settings.provider.trackQuota = 0 ∨ Room c.user true (released settings c.user w info.size)) →
        (cmd.handleUpload settings scpOs w ch rawPath content.length).result = .ok ∧
          Leaves settings c.user w.fs p content true
            (released settings c.user w info.size)
            (cmd.handleUpload settings scpOs w ch rawPath content.length).world := by
    intro allowed
    obtain ⟨opened, ref, requested, opens⟩ := scp.opens allowed
    have stores := opens.stored_existing scpQuiet scpFresh slot target scpMoves
    obtain ⟨after, answered, _, done, leaves⟩ :=
      handleUpload_leaves live bytes scpQuiet requested opens stores
    rw [done]
    rw [← sameUser] at leaves
    exact ⟨rfl, leaves⟩
  have sftpStored :
      (settings.provider.trackQuota = 0 ∨ Room c.user false (w.quota c.user.username)) →
        (c.sftpUpload settings sftpOs w request chunks).2 = .done () ∧
          Leaves settings c.user w.fs p content false
            (released settings c.user w info.size)
            (c.sftpUpload settings sftpOs w request chunks).1 := by
    intro allowed
    obtain ⟨opened, ref, requested, opens⟩ := sftp.opens allowed
    have stores := opens.stored_existing sftpQuiet sftpFresh slot target sftpMoves
    rw [← pieces]
    exact sftpUpload_leaves sftpQuiet requested opens stores chunks
  by_cases roomScp :
      settings.provider.trackQuota = 0 ∨ Room c.user true (released settings c.user w info.size)
  · obtain ⟨stored, leaves⟩ := scpStored roomScp
    by_cases roomSftp :
        settings.provider.trackQuota = 0 ∨ Room c.user false (w.quota c.user.username)
    · obtain ⟨put, leavesToo⟩ := sftpStored roomSftp
      have counters :
          (cmd.handleUpload settings scpOs w ch rawPath
              content.length).world.quota c.user.username =
              (c.sftpUpload settings sftpOs w request chunks).1.quota c.user.username ↔
            (World.tracked settings c.user = true → w.quota c.user.username = none) := by
        rw [leaves.2, leavesToo.2, released, World.updateUserQuota_own]
        cases w.quota c.user.username with
        | none => simp
        | some used =>
          cases World.tracked settings c.user with
          | false => simp
          | true => simp
      simp only [UploadsAgree, stored, put, leaves.sameView leavesToo, counters, roomScp,
        roomSftp, reduceCtorEq, exists_false, and_self, false_or, true_and, not_true_eq_false]
    · obtain ⟨code, refused⟩ := sftpUpload_refused (sftp.refuses roomSftp) chunks
      simp [UploadsAgree, stored, refused, roomScp, roomSftp]
  · obtain ⟨text, failed⟩ :=
      handleUpload_unopened acceptedScp looked (scp.refuses roomScp) ch content.length
    by_cases roomSftp :
        settings.provider.trackQuota = 0 ∨ Room c.user false (w.quota c.user.username)
    · obtain ⟨put, _⟩ := sftpStored roomSftp
      simp [UploadsAgree, failed, put, roomScp, roomSftp]
    · obtain ⟨code, refused⟩ := sftpUpload_refused (sftp.refuses roomSftp) chunks
      simp [UploadsAgree, failed, refused, roomScp, roomSftp]

end Agreement

/-- The same content sent to the same path, whose directory exists, over both
protocols: the uploads agree exactly outside `UploadsDiffer`. -/
theorem uploads_agree_iff {cmd : ScpCommand} {c : Connection} {settings : Settings}
    {scpOs sftpOs : Os} {w : World} {rawPath : Str} {request : Request} {content rest : List Char}
    {chunks : List (List Char)} {ch : Channel} (sameUser : c.user = cmd.connection.user)
    (rooted : isAbs c.user.homeDir) (scpQuiet : scpOs.Quiet) (sftpQuiet : sftpOs.Quiet)
    (scpFresh : TempFresh settings scpOs w.fs (c.requested rawPath))
    (sftpFresh : TempFresh settings sftpOs w.fs (c.requested rawPath))
    (parent : ParentExists w.fs (c.requested rawPath)) (named : request.filepath = rawPath)
    (overwrites : Overwrites request.pflags) (pieces : chunks.flatten = content) (live : ch.Live)
    (bytes : ch.bytes = (content ++ okMsg) ++ rest) :
    UploadsAgree c.user
        (cmd.handleUpload settings scpOs w ch rawPath content.length)
        (c.sftpUpload settings sftpOs w request chunks) ↔
      ¬ UploadsDiffer c settings w rawPath := by
  by_cases permitted : c.user.hasPerm permUpload = true
  swap
  · have permittedScp : ¬ cmd.connection.user.hasPerm permUpload = true := sameUser ▸ permitted
    simp [UploadsAgree, UploadsDiffer, permitted, permittedScp, ScpCommand.handleUpload, refuse,
      Connection.sftpUpload, Connection.filewrite]
  have permittedScp : cmd.connection.user.hasPerm permUpload = true := sameUser ▸ permitted
  have sameBuild := buildPath_of_user sameUser w.fs rawPath
  cases accepted : c.buildPath w.fs rawPath with
  | error err =>
    rw [accepted] at sameBuild
    simp [UploadsAgree, UploadsDiffer, permitted, permittedScp, accepted, sameBuild, named,
      ScpCommand.handleUpload, refuse, Connection.sftpUpload, Connection.filewrite]
  | ok p =>
    rw [accepted] at sameBuild
    rw [← (buildPath_eq_ok_iff.mp accepted).1] at scpFresh sftpFresh parent
    simp only [UploadsDiffer, permitted, accepted, true_and, Except.ok.injEq, exists_eq_left']
    cases looked : w.fs.stat p with
    | error err =>
      by_cases absent : err = .noent
      · subst absent
        simp only [ne_eq, not_true_eq_false, not_false_eq_true, iff_true]
        exact uploads_agree_new sameUser rooted scpQuiet sftpQuiet
          scpFresh sftpFresh permitted accepted parent named pieces live
          bytes looked
      · -- SCP dereferences an error that is nil.
        have crashes :
            (cmd.handleUpload settings scpOs w ch rawPath content.length).result = .crash := by
          refine (handleUpload_result cmd settings scpOs w ch rawPath
            content.length).2.mpr ⟨permittedScp, p, err, sameBuild, ?_, absent⟩
          rw [scpQuiet.stat, orFault_none, looked]
        simp [UploadsAgree, crashes, absent]
    | ok info =>
      cases isDir : info.isDir with
      | true =>
        simp [UploadsAgree, permitted, permittedScp, accepted, sameBuild, named, looked,
          isDir, scpQuiet.stat, sftpQuiet.stat, ScpCommand.handleUpload, refuse,
          Connection.sftpUpload, Connection.filewrite]
      | false =>
        have agree :=
          uploads_agree_existing_iff sameUser rooted scpQuiet sftpQuiet
            scpFresh sftpFresh permitted accepted parent named pieces
            live bytes overwrites looked isDir
        simpa [isDir] using agree

/-- Five bytes for the new file `g`. -/
theorem new_file_agrees :
    UploadsAgree sampleUser
      (sinkCommand.handleUpload defaultSettings sampleOs fullWorld
        (clientSends ["hello\x00"]) "/g".toList 5)
      (sampleConnection.sftpUpload defaultSettings sampleOs
        fullWorld (putRequest "/g") ["he".toList, "llo".toList]) := by
  have overwrites : Overwrites (putRequest "/g").pflags :=
    ⟨by decide, by decide, by decide, by decide, by decide⟩
  have fresh :
      TempFresh defaultSettings sampleOs fullWorld.fs (sampleConnection.requested "/g".toList) :=
    fun atomic => absurd atomic (by decide)
  refine (@uploads_agree_iff sinkCommand sampleConnection
    defaultSettings sampleOs sampleOs fullWorld "/g".toList
    (putRequest "/g") "hello".toList [] ["he".toList, "llo".toList]
    (clientSends ["hello\x00"]) rfl (by decide)
    (Os.quiet_quiet _ _ _) (Os.quiet_quiet _ _ _) fresh fresh
    ⟨⟨"u".toList, .dir, 4096, sampleAttr⟩, by decide +kernel, by decide⟩ rfl
    overwrites (by decide) ⟨rfl, by decide⟩ (by decide)).mpr ?_
  rintro ⟨_, p, accepted, differ⟩
  have known :
      sampleConnection.buildPath fullWorld.fs
        "/g".toList = .ok "/srv/u/g".toList := by decide +kernel
  rw [known] at accepted
  cases accepted
  have absent : fullWorld.fs.stat "/srv/u/g".toList = .error .noent := by
    decide +kernel
  rw [absent] at differ
  exact differ rfl

/-- Five bytes for the existing file `f`, which is counted already: SCP counts
a second file. -/
theorem replaced_file_disagrees :
    ¬ UploadsAgree sampleUser
      (sinkCommand.handleUpload defaultSettings sampleOs fullWorld
        (clientSends ["hello\x00"]) "/f".toList 5)
      (sampleConnection.sftpUpload defaultSettings sampleOs
        fullWorld (putRequest "/f") ["he".toList, "llo".toList]) := by
  rintro (⟨⟨text, failed⟩, _⟩ | ⟨_, _, _, same⟩)
  · have stored :
        (sinkCommand.handleUpload defaultSettings sampleOs fullWorld
          (clientSends ["hello\x00"]) "/f".toList 5).result = .ok := by
      decide +kernel
    rw [stored] at failed
    cases failed
  · exact absurd same (by decide +kernel)

end Sshserv.Serv
