import Sshserv.Serv.ScpAtomicity
import Sshserv.Serv.ScpSession

/-!
# Uploads that nothing disturbs

An upload that is opened, written from the beginning and closed, with no
failing call in between.  Both protocols end up here once the file is open
(`UploadOpened`), so what is said of the end of an upload is said once.
-/

namespace Sshserv.Serv

open Lib UnixPath FileTree FileSys DataProvider

/-- No call fails.  Changes of owner may, since their errors are only
logged. -/
structure Os.Quiet (os : Os) : Prop where
  stat : os.stat = none
  statDir : os.statDir = none
  statDest : os.statDest = none
  mkdir : ∀ path, os.mkdir path = none
  rename : os.rename = none
  openFile : os.openFile = none
  writeAt : ∀ index, os.writeAt index = none
  readAt : ∀ index, os.readAt index = none
  closeFile : os.closeFile = none
  closeRename : os.closeRename = none
  readDir : os.readDir = none
  getUsedQuota : os.getUsedQuota = none
  updateQuota : os.updateQuota = none
  closeQuota : os.closeQuota = none

theorem Os.quiet_quiet (attr : Attr) (guid : Str) (now : Int) : (Os.quiet attr guid now).Quiet where
  stat := rfl
  statDir := rfl
  statDest := rfl
  mkdir := fun _ => rfl
  rename := rfl
  openFile := rfl
  writeAt := fun _ => rfl
  readAt := fun _ => rfl
  closeFile := rfl
  closeRename := rfl
  readDir := rfl
  getUsedQuota := rfl
  updateQuota := rfl
  closeQuota := rfl

@[simp]
theorem orFault_none {α : Type} (result : Except Errno α) : orFault none result = result := rfl

/-! ## An open upload -/

/-- An upload to `p` has been opened: its file was created in the tree
`base`, and nothing has been written. -/
structure UploadOpened (c : Connection) (settings : Settings) (os : Os) (base : FileSys) (p : Str)
    (isNewFile : Bool) (created : FileSys) (file : Handle) (opened : World) (ref : Nat) : Prop where
  made : base.create (uploadFilePath settings os p) os.attr = .ok (created, file)
  entry : opened.transfers ref = some (c.newTransfer os file p .upload isNewFile)
  shape : SameShape created opened.fs
  data : ∀ ino, (opened.fs.inode ino).data = (created.inode ino).data

variable {settings : Settings} {p : Str} {fs : FileSys}

/-- The last steps of every open request: the owner is set and the transfer
is entered. -/
theorem uploadOpened_of_create {c : Connection} {os : Os} {base : FileSys} (w : World)
    {file : Handle} (made : base.create (uploadFilePath settings os p) os.attr = .ok (w.fs, file))
    (isNewFile : Bool) :
    UploadOpened c settings os base p isNewFile w.fs file
      ((w.setPathPermissions os (uploadFilePath settings os p) c.user.getUID
        c.user.getGID).addTransfer (c.newTransfer os file p .upload isNewFile)).1
      ((w.setPathPermissions os (uploadFilePath settings os p) c.user.getUID
        c.user.getGID).addTransfer (c.newTransfer os file p .upload isNewFile)).2 := by
  obtain ⟨shape, data⟩ :=
    setPathPermissions_tree w os (uploadFilePath settings os p) c.user.getUID c.user.getGID
  exact ⟨made, if_pos rfl, shape, data⟩

theorem setPathPermissions_quota (w : World) (os : Os) (path : Str) (uid gid : Int) :
    (w.setPathPermissions os path uid gid).quota = w.quota := by
  unfold World.setPathPermissions
  split <;> rfl

theorem create_writesIno {created : FileSys} {path : Str} {attr : Attr} {file : Handle}
    (made : fs.create path attr = .ok (created, file)) :
    file.name = path ∧ ∃ ino, WritesIno file ino ∧ (created.inode ino).data = [] := by
  rcases create_cases made with
    ⟨_, _, ino, _, _, rfl, rfl⟩ | ⟨_, _, _, room, _, rfl, rfl⟩
  · refine ⟨rfl, ino, ⟨rfl, rfl, rfl, rfl⟩, ?_⟩
    simp [truncated, setInode]
  · refine ⟨rfl, fs.nextIno, ⟨rfl, rfl, rfl, rfl⟩, ?_⟩
    simp [addFile]

section Stored

variable {c : Connection} {settings : Settings} {os : Os} {base : FileSys}
    {p : Str} {isNewFile : Bool} {created : FileSys} {file : Handle} {opened : World} {ref : Nat}

theorem UploadOpened.filled
    (upload : UploadOpened c settings os base p isNewFile created file opened ref)
    (quiet : os.Quiet) (chunks : List (List Char)) :
    Filled created (Transfer.writeAll os ref 0 0 chunks opened).fs file chunks.flatten ∧
      ∃ activity, (Transfer.writeAll os ref 0 0 chunks opened).transfers ref =
          some { c.newTransfer os file p .upload isNewFile with
            lastActivity := activity
            bytesReceived := chunks.flatten.length } := by
  obtain ⟨_, ino, writes, empty⟩ := create_writesIno upload.made
  have start : ((opened.fs.inode ino).data.length : Int) = 0 := by
    rw [upload.data, empty]
    rfl
  obtain ⟨content, activity, entry⟩ := writeAll_content quiet.writeAt chunks 0 upload.entry writes
  rw [start] at content entry
  rw [upload.data, empty, List.nil_append] at content
  have wrote := wrote_writeAll os ref chunks 0 0 opened
  refine ⟨⟨?_, ?_, ?_⟩, activity, ?_⟩
  · exact upload.shape.trans (sameShape_of_node wrote.node)
  · intro number given
    obtain rfl : ino = number := by
      rw [writes.ino] at given
      simpa using given
    exact content
  · intro number other
    rw [(wrote.own _ upload.entry).2 number other]
    exact upload.data number
  · rw [entry]
    simp [Connection.newTransfer]

theorem UploadOpened.closed
    (upload : UploadOpened c settings os base p isNewFile created file opened ref)
    (quiet : os.Quiet) (chunks : List (List Char)) (final : FileSys) (settles :
      Transfer.settledTree os (Transfer.writeAll os ref 0 0 chunks opened).fs
          (uploadFilePath settings os p) p = final ∧
        (uploadFilePath settings os p ≠ p →
          (Transfer.writeAll os ref 0 0 chunks opened).fs.rename
            (uploadFilePath settings os p) p = .ok final)) :
    (Transfer.close settings os (Transfer.writeAll os ref 0 0 chunks opened) ref).2 = none ∧
      (Transfer.close settings os
        (Transfer.writeAll os ref 0 0 chunks opened) ref).1.fs = final := by
  obtain ⟨name, _⟩ := create_writesIno upload.made
  obtain ⟨_, activity, entry⟩ := upload.filled quiet chunks
  constructor
  · simp only [Transfer.close, entry, Transfer.settle, Connection.newTransfer, name, true_and]
    by_cases renames : uploadFilePath settings os p ≠ p
    · rw [if_pos renames, quiet.closeRename]
      simp only [World.setTransfer, orFault_none, settles.2 renames]
    · rw [if_neg renames]
      exact quiet.closeFile
  · rw [Transfer.close_upload_fs entry rfl]
    simp only [Connection.newTransfer, name]
    exact settles.1

theorem UploadOpened.counted
    (upload : UploadOpened c settings os base p isNewFile created file opened ref)
    (quiet : os.Quiet) (chunks : List (List Char)) :
    (Transfer.close settings os
        (Transfer.writeAll os ref 0 0 chunks opened) ref).1.quota c.user.username =
      (opened.quota c.user.username).map fun (used : Int × Int) =>
        if World.tracked settings c.user = true then
          (used.1 + (if isNewFile then 1 else 0), used.2 + chunks.flatten.length)
        else used := by
  obtain ⟨_, activity, entry⟩ := upload.filled quiet chunks
  have counted :
      (Transfer.close settings os
          (Transfer.writeAll os ref 0 0 chunks opened) ref).1.quota c.user.username =
        ((Transfer.writeAll os ref 0 0 chunks opened).updateUserQuota settings
          os.closeQuota c.user (if isNewFile then 1 else 0)
          chunks.flatten.length).quota c.user.username :=
    Transfer.close_upload_quota entry rfl
  rw [counted, World.updateUserQuota_own, quiet.closeQuota,
    (wrote_writeAll os ref chunks 0 0 opened).quota]
  simp only [and_true]

end Stored

/-! ## Where the content ends up -/

/-- The location of the content of a finished upload: the file that the path
leads to, or for a new one its entry in atomic mode, and in place the location
that a dangling link leads to. -/
def landing (settings : Settings) (fs : FileSys) (p : Str) : Option Loc :=
  match fs.resolve p with
  | .found loc _ => some loc
  | outcome =>
    if settings.Atomic then (fs.entryLoc p).toOption
    else outcome.stuckAt

theorem landing_found {loc : Loc} {left : Nat} (leads : fs.resolve p = .found loc left) :
    landing settings fs p = some loc := by
  simp [landing, leads]

theorem landing_new (missing : fs.stat p = .error .noent) :
    landing settings fs p =
      if settings.Atomic then (fs.entryLoc p).toOption
      else (fs.resolve p).stuckAt := by
  rw [stat_eq_error_iff] at missing
  unfold landing
  cases outcome : fs.resolve p with
  | found loc left => simp [outcome, Outcome.located] at missing
  | missing parent text left => rfl
  | absent loc => rfl
  | notDir => rfl
  | loop => rfl

/-- The upload has ended well: the content is at its place, and nothing else
looks different. -/
def Stores (settings : Settings) (before : FileSys) (p : Str)
    (content : List Char) (ended : World × Option Errno) : Prop :=
  ended.2 = none ∧
    ∃ loc, landing settings before p = some loc ∧
      UpdatedAt before ended.1.fs loc (some (.file content))

section Landing

variable {c : Connection} {settings : Settings} {os : Os} {fs : FileSys}
    {p : Str} {isNewFile : Bool} {created : FileSys} {file : Handle}
    {opened : World} {ref : Nat} {names place : Loc} {last : Str} {left : Nat}

theorem UploadOpened.stored_new
    (upload : UploadOpened c settings os fs p isNewFile created file opened ref)
    (quiet : os.Quiet) (fresh : TempFresh settings os fs p) (slot : Slot fs p names last place left)
    (missing : fs.stat p = .error .noent) (chunks : List (List Char)) :
    Stores settings fs p chunks.flatten
      (Transfer.close settings os (Transfer.writeAll os ref 0 0 chunks opened) ref) := by
  obtain ⟨filled, _⟩ := upload.filled quiet chunks
  have made := upload.made
  have closed := upload.closed quiet chunks
  unfold Stores
  rw [landing_new missing]
  unfold uploadFilePath at made closed
  by_cases atomic : settings.Atomic
  · simp only [Settings.Atomic, atomic, if_true] at made closed ⊢
    obtain ⟨noSlash, absent⟩ := fresh atomic
    have gone := absent _ (slot.temp noSlash).entryLoc
    have leaf : fs.isDirAt (place ++ [last]) = false := by
      by_contra directory
      exact slot.ne_entry_of_missing missing (Or.inl (by simpa using directory)) rfl
    obtain ⟨_, final, renamed, moved⟩ := slot.leftover_temp noSlash gone leaf made filled
    have settled := @settledTree_renamed os p _ _ _ (slot.temp_ne noSlash) renamed
    rw [if_pos quiet.closeRename] at settled
    obtain ⟨ok, tree⟩ := closed final ⟨settled, fun _ => renamed⟩
    rw [tree, slot.entryLoc]
    exact ⟨ok, place ++ [last], rfl, moved⟩
  · simp only [atomic, if_false] at made closed ⊢
    obtain ⟨loc, stuck, _, updated⟩ := leftover_new missing made filled
    obtain ⟨ok, tree⟩ := closed _ ⟨settledTree_self, fun different => absurd rfl different⟩
    rw [tree, stuck]
    exact ⟨ok, loc, rfl, updated⟩

theorem UploadOpened.stored_existing {w moved : World} {leaf : Loc} {rest ino : Nat}
    (upload : UploadOpened c settings os moved.fs p isNewFile created file opened ref)
    (quiet : os.Quiet) (fresh : TempFresh settings os w.fs p)
    (slot : Slot w.fs p names last place left) (target : Target w.fs p leaf rest ino)
    (moves : Connection.moveAside settings os w p (uploadFilePath settings os p) = .ok moved)
    (chunks : List (List Char)) :
    Stores settings w.fs p chunks.flatten
      (Transfer.close settings os (Transfer.writeAll os ref 0 0 chunks opened) ref) := by
  obtain ⟨filled, _⟩ := upload.filled quiet chunks
  have made := upload.made
  have closed := upload.closed quiet chunks
  unfold Stores
  rw [landing_found target.leads]
  rcases moveAside_cases moves with ⟨atomic, after, renamed, rfl⟩ | ⟨standard, rfl⟩
  · unfold uploadFilePath at made closed renamed
    simp only [atomic, if_true] at made closed renamed
    obtain ⟨noSlash, absent⟩ := fresh atomic
    have gone := absent _ (slot.temp noSlash).entryLoc
    obtain ⟨same, again, move⟩ := slot.move_aside noSlash gone target.leads target.notDir
    rw [renamed] at again
    cases again
    obtain ⟨_, final, back, updated⟩ :=
      slot.leftover_moved noSlash gone target.leads target.notDir target.entry move made filled
    have settled := @settledTree_renamed os p _ _ _ (slot.temp_ne noSlash) back
    rw [if_pos quiet.closeRename] at settled
    obtain ⟨ok, tree⟩ := closed final ⟨settled, fun _ => back⟩
    rw [tree]
    exact ⟨ok, leaf, rfl, updated⟩
  · unfold uploadFilePath at made closed
    simp only [standard, if_false] at made closed
    have updated := leftover_existing target.leads target.entry made filled
    obtain ⟨ok, tree⟩ := closed _ ⟨settledTree_self, fun different => absurd rfl different⟩
    rw [tree]
    exact ⟨ok, leaf, rfl, updated⟩

end Landing

/-! ## Room for an upload -/

/-- The used quota leaves room: if there is a limit, the used quota is known
and below it. -/
def Room (user : User) (checkFiles : Bool) : Option (Int × Int) → Prop
  | none => ¬ ((checkFiles = true ∧ user.quotaFiles > 0) ∨ user.quotaSize > 0)
  | some used =>
    ¬ (checkFiles = true ∧ user.quotaFiles > 0 ∧ used.1 ≥ user.quotaFiles) ∧
      ¬ (user.quotaSize > 0 ∧ used.2 ≥ user.quotaSize)

instance (user : User) (checkFiles : Bool) : ∀ used, Decidable (Room user checkFiles used)
  | none => inferInstanceAs (Decidable (¬ _))
  | some _ => inferInstanceAs (Decidable (¬ _ ∧ ¬ _))

theorem hasSpace_iff {c : Connection} {os : Os} {w : World} (quiet : os.getUsedQuota = none)
    (checkFiles : Bool) :
    c.hasSpace settings os w checkFiles = true ↔
      settings.provider.trackQuota = 0 ∨ Room c.user checkFiles (w.quota c.user.username) := by
  unfold Connection.hasSpace World.getUsedQuota
  rw [quiet]
  by_cases off : settings.provider.trackQuota = 0
  · simp [off]
  · have limits :
        (checkFiles && decide (c.user.quotaFiles > 0)) = true ↔
          checkFiles = true ∧ c.user.quotaFiles > 0 := by
      simp
    by_cases files : checkFiles = true ∧ c.user.quotaFiles > 0
    · cases used : w.quota c.user.username with
      | none => simp [off, Room, files]
      | some counters =>
        by_cases size : c.user.quotaSize > 0
        · simp [off, Room, files, size]
        · simp [off, Room, files, size]
    · have unchecked := mt limits.mp files
      cases used : w.quota c.user.username with
      | none => simp [off, Room, files, unchecked]
      | some counters =>
        have free :
            ¬ (checkFiles = true ∧ c.user.quotaFiles > 0 ∧ counters.1 ≥ c.user.quotaFiles) :=
          fun all => files ⟨all.1, all.2.1⟩
        by_cases size : c.user.quotaSize > 0
        · simp [off, Room, free, size, unchecked]
        · simp [off, Room, free, size, unchecked]

/-! ## Opening -/

/-- An open request succeeds exactly under a condition. -/
structure OpensWhen (allowed : Prop) (good : World → Nat → Prop)
    (result : World × Option Nat) : Prop where
  opens :
    allowed → ∃ opened ref, result = (opened, some ref) ∧ good opened ref
  refuses : ¬ allowed → result.2 = none

theorem OpensWhen.good_of_opened {allowed : Prop} {good : World → Nat → Prop} {opened : World}
    {ref : Nat} (opening : OpensWhen allowed good (opened, some ref)) :
    good opened ref := by
  by_cases holds : allowed
  · obtain ⟨_, _, same, opens⟩ := opening.opens holds
    cases same
    exact opens
  · cases opening.refuses holds

/-- What an open request to `p` leaves when it creates the file in `base`. -/
def OpenedIn (c : Connection) (settings : Settings) (os : Os) (base : FileSys) (p : Str)
    (isNewFile : Bool) (used : Option (Int × Int)) (opened : World) (ref : Nat) : Prop :=
  opened.quota c.user.username = used ∧
    ∃ created file, UploadOpened c settings os base p isNewFile created file opened ref

section Opening

variable {c : Connection} {settings : Settings} {os : Os} {w : World} {p : Str}

theorem scpOpenFile_opensWhen (quiet : os.Quiet) (parent : w.fs.stat (dir p) ≠ .error .noent) :
    OpensWhen
      (c.hasSpace settings os w true = true ∧ w.fs.Creatable (uploadFilePath settings os p))
      (OpenedIn c settings os w.fs p true (w.quota c.user.username))
      (c.scpOpenFile settings os w p (uploadFilePath settings os p)) := by
  unfold Connection.scpOpenFile
  rw [quiet.statDir, quiet.openFile, orFault_none, orFault_none]
  constructor
  · rintro ⟨space, creatable⟩
    obtain ⟨created, file, made⟩ := (create_ok_iff _ os.attr).mpr creatable
    rw [if_neg (by simp [space]), if_neg fun both => parent both.1, made]
    refine ⟨_, _, rfl, ?_, created, file, uploadOpened_of_create (w.setFs created) made true⟩
    exact congrFun (setPathPermissions_quota _ os _ _ _) c.user.username
  · intro refused
    by_cases space : c.hasSpace settings os w true = true
    · rw [if_neg (by simp [space]), if_neg fun both => parent both.1]
      cases made : w.fs.create (uploadFilePath settings os p) os.attr with
      | error err => rfl
      | ok result =>
        exact absurd ⟨space, (create_ok_iff _ os.attr).mp ⟨result.1, result.2, made⟩⟩ refused
    · rw [if_pos (by simp [space])]

/-- Where no directory is missing, both handlers create a file alike. -/
theorem handleSFTPUploadToNewFile_eq {filePath : Str}
    (dirs : c.createMissingDirs os w p = (w, .ok ())) :
    numbered (c.handleSFTPUploadToNewFile settings os w p filePath) =
      c.scpOpenFile settings os w p filePath := by
  unfold Connection.handleSFTPUploadToNewFile Connection.scpOpenFile
  rw [dirs]
  split
  · rfl
  split
  · rfl
  dsimp only
  cases orFault os.openFile (w.fs.create filePath os.attr) <;> rfl

/-- Write, create and truncate, with or without read. -/
structure Overwrites (flags : OpenFlags) : Prop where
  write : flags.write = true
  append : flags.append = false
  creat : flags.creat = true
  trunc : flags.trunc = true
  excl : flags.excl = false

theorem handleSFTPUploadToExistingFile_opensWhen
    (quiet : os.Quiet) {pflags : OpenFlags} (overwrites : Overwrites pflags) {moved : World}
    (moves : Connection.moveAside settings os w p (uploadFilePath settings os p) = .ok moved)
    (creatable : moved.fs.Creatable (uploadFilePath settings os p)) (fileSize : Int) :
    OpensWhen (c.hasSpace settings os w false = true)
      (OpenedIn c settings os moved.fs p false
        ((moved.updateUserQuota settings none c.user 0 (-fileSize)).quota c.user.username))
      (numbered (c.handleSFTPUploadToExistingFile settings os w pflags p
        (uploadFilePath settings os p) fileSize)) := by
  obtain ⟨created, file, made⟩ := (create_ok_iff _ os.attr).mpr creatable
  have opened :
      moved.fs.openFile (uploadFilePath settings os p)
        (getOSOpenFlags pflags) os.attr = .ok (created, file) := by
    rw [← made]
    exact openFile_eq_create overwrites.write overwrites.append
      overwrites.creat overwrites.trunc overwrites.excl _ _
  have truncates : (getOSOpenFlags pflags).trunc = true := overwrites.trunc
  unfold Connection.handleSFTPUploadToExistingFile
  rw [quiet.openFile, quiet.updateQuota, moves]
  simp only [truncates, not_true_eq_false, if_false, orFault_none, opened]
  constructor
  · intro space
    rw [if_neg (by simp [space])]
    have base :
        moved.fs.create (uploadFilePath settings os p) os.attr =
          .ok (((moved.setFs created).updateUserQuota settings none c.user 0
            (-fileSize)).fs, file) := by
      rw [World.updateUserQuota_fs, made]
      rfl
    refine ⟨_, _, rfl, ?_, _, file, uploadOpened_of_create _ base false⟩
    have kept :=
      congrFun
        (setPathPermissions_quota
          ((moved.setFs created).updateUserQuota settings none c.user 0
            (-fileSize)) os (uploadFilePath settings os p) c.user.getUID
          c.user.getGID) c.user.username
    refine kept.trans ?_
    rw [World.updateUserQuota_own, World.updateUserQuota_own]
    rfl
  · intro refused
    rw [if_pos (by simp [refused])]
    rfl

/-! ## Paths whose directory exists -/

def ParentExists (fs : FileSys) (p : Str) : Prop :=
  ∃ info, fs.stat (dir p) = .ok info ∧ info.isDir = true

theorem slot_of_parent {fs : FileSys} {names : Loc} {last : Str}
    (path : p = render (names ++ [last])) (proper : ProperNames (names ++ [last]))
    (parent : ParentExists fs p) :
    ∃ place left, Slot fs p names last place left := by
  obtain ⟨info, found, isDir⟩ := parent
  rw [path, dir_render proper, List.dropLast_concat] at found
  obtain ⟨place, left, resolved, entry⟩ := stat_eq_ok_iff.mp found
  exact ⟨place, left, path, proper, resolved, (infoAt_isDir_iff entry).mp isDir⟩

theorem slot_of_accepted {fs : FileSys} {rawPath : Str} (rooted : isAbs c.user.homeDir)
    (accepted : c.buildPath fs rawPath = .ok p) (parent : ParentExists fs p)
    (noDir : ∀ info, fs.stat p = .ok info → info.isDir = false) :
    ∃ names last place left, Slot fs p names last place left := by
  obtain ⟨comps, proper, path⟩ := requested_eq_render rooted rawPath
  rw [← (buildPath_eq_ok_iff.mp accepted).1] at path
  rcases List.eq_nil_or_concat comps with rfl | ⟨names, last, rfl⟩
  · -- the root is its own parent
    obtain ⟨info, found, isDir⟩ := parent
    have same : dir p = p := by
      rw [path]
      rfl
    rw [same] at found
    rw [noDir info found] at isDir
    cases isDir
  · rw [List.concat_eq_append] at path proper
    obtain ⟨place, left, slot⟩ := slot_of_parent path proper parent
    exact ⟨names, last, place, left, slot⟩

theorem Slot.parent_present {fs : FileSys} {names place : Loc} {last : Str} {left : Nat}
    (slot : Slot fs p names last place left) :
    fs.stat (dir p) ≠ .error .noent := by
  rw [slot.path, dir_render slot.proper, List.dropLast_concat, Ne, stat_eq_error_iff, slot.resolved]
  simp [Outcome.located]

variable {rawPath : Str} {names place : Loc} {last : Str} {left : Nat}

theorem createMissingDirs_of_slot (rooted : isAbs c.user.homeDir)
    (accepted : c.buildPath w.fs rawPath = .ok p) (missing : w.fs.stat p = .error .noent)
    (slot : Slot w.fs p names last place left) (os : Os) :
    c.createMissingDirs os w p = (w, .ok ()) := by
  obtain ⟨_, text, base, above, directory, known⟩ :=
    missingPath_of_accepted rooted (evalLoc_noent_of_stat missing) accepted
  have alone : above = [] := by
    by_contra filled
    have gone := known.parentMissing filled
    have up : dir p = render (base ++ above) := by
      rw [known.path, dir_render known.proper, List.dropLast_concat]
    rw [← up] at gone
    exact slot.parent_present gone
  rw [known.dirs os w rfl, alone]
  rfl

/-- Whether the file of a new upload can be created does not depend on the
name of the temporary file. -/
theorem creatable_uploadFilePath_iff {fs : FileSys} (fresh : TempFresh settings os fs p)
    (slot : Slot fs p names last place left) :
    fs.Creatable (uploadFilePath settings os p) ↔ settings.Atomic ∨ fs.Creatable p := by
  unfold uploadFilePath
  by_cases atomic : settings.Atomic
  · obtain ⟨noSlash, absent⟩ := fresh atomic
    have temp := slot.temp noSlash
    have gone := absent _ temp.entryLoc
    simp only [Settings.Atomic, atomic, if_true, true_or, iff_true]
    refine Or.inr ⟨place, tempName os last, left, ?_⟩
    rw [temp.resolve, walk_name, gone]
    simp
  · simp [atomic]

/-! ## Requests for a new file -/

section New

variable (quiet : os.Quiet) (permitted : c.user.hasPerm permUpload)
    (accepted : c.buildPath w.fs rawPath = .ok p) (missing : w.fs.stat p = .error .noent)
    (slot : Slot w.fs p names last place left)
include quiet permitted accepted missing slot

theorem scpOpen_new :
    OpensWhen
      (c.hasSpace settings os w true = true ∧ w.fs.Creatable (uploadFilePath settings os p))
      (OpenedIn c settings os w.fs p true (w.quota c.user.username))
      (c.scpOpen settings os w rawPath) := by
  have opens := @scpOpenFile_opensWhen c settings os w p quiet slot.parent_present
  unfold Connection.scpOpen
  simp only [permitted, not_true_eq_false, if_false, accepted, quiet.stat, orFault_none, missing]
  exact opens

theorem filewrite_new (rooted : isAbs c.user.homeDir) {request : Request}
    (named : request.filepath = rawPath) :
    OpensWhen
      (c.hasSpace settings os w true = true ∧ w.fs.Creatable (uploadFilePath settings os p))
      (OpenedIn c settings os w.fs p true (w.quota c.user.username))
      (numbered (c.filewrite settings os w request)) := by
  have opens := @scpOpenFile_opensWhen c settings os w p quiet slot.parent_present
  rw [← handleSFTPUploadToNewFile_eq (createMissingDirs_of_slot rooted accepted missing slot os)]
    at opens
  unfold Connection.filewrite
  simp only [permitted, not_true_eq_false, if_false, named, accepted,
    quiet.stat, orFault_none, missing]
  exact opens

end New

/-! ## Requests for an existing file -/

theorem moveAside_quiet (quiet : os.Quiet) (fresh : TempFresh settings os w.fs p)
    (slot : Slot w.fs p names last place left)
    {leaf : Loc} {rest ino : Nat} (target : Target w.fs p leaf rest ino) :
    ∃ moved, Connection.moveAside settings os w p (uploadFilePath settings os p) = .ok moved ∧
        moved.quota = w.quota ∧ Slot moved.fs p names last place left ∧
        moved.fs.Creatable (uploadFilePath settings os p) := by
  unfold Connection.moveAside uploadFilePath
  rw [quiet.rename]
  by_cases atomic : settings.Atomic
  · simp only [atomic, if_true, orFault_none]
    obtain ⟨noSlash, absent⟩ := fresh atomic
    have gone := absent _ (slot.temp noSlash).entryLoc
    obtain ⟨after, renamed, move⟩ := slot.move_aside noSlash gone target.leads target.notDir
    obtain ⟨loc, more, leads, entry⟩ :=
      slot.resolve_moved noSlash gone target.leads target.notDir target.entry move
    rw [renamed]
    exact ⟨w.setFs after, rfl, rfl, slot.after_move gone target.leads target.notDir move,
      Or.inl ⟨loc, more, ino, leads, entry⟩⟩
  · simp only [atomic, if_false]
    exact ⟨w, rfl, rfl, slot, Or.inl ⟨leaf, rest, ino, target.leads, target.entry⟩⟩

/-- The counters of the user once the size of the old file is released. -/
def released (settings : Settings) (user : User) (w : World) (size : Int) : Option (Int × Int) :=
  (w.updateUserQuota settings none user 0 (-size)).quota user.username

section Existing

variable (quiet : os.Quiet) (permitted : c.user.hasPerm permUpload)
    (accepted : c.buildPath w.fs rawPath = .ok p) {info : FileInfo}
    (found : w.fs.stat p = .ok info) (regular : info.isDir = false) {moved : World}
    (moves : Connection.moveAside settings os w p (uploadFilePath settings os p) = .ok moved)
    (kept : moved.quota = w.quota) (creatable : moved.fs.Creatable (uploadFilePath settings os p))
include quiet permitted accepted found regular moves kept creatable

theorem scpOpen_existing (slot : Slot moved.fs p names last place left) :
    OpensWhen
      (settings.provider.trackQuota = 0 ∨ Room c.user true (released settings c.user w info.size))
      (OpenedIn c settings os moved.fs p true (released settings c.user w info.size))
      (c.scpOpen settings os w rawPath) := by
  have sameUsed :
      (moved.updateUserQuota settings none c.user 0 (-info.size)).quota
          c.user.username = released settings c.user w info.size := by
    rw [released, World.updateUserQuota_own, World.updateUserQuota_own, kept]
  have opens :=
    @scpOpenFile_opensWhen c settings os
      (moved.updateUserQuota settings none c.user 0 (-info.size)) p quiet
      (by rw [World.updateUserQuota_fs]; exact slot.parent_present)
  rw [hasSpace_iff quiet.getUsedQuota, World.updateUserQuota_fs, sameUsed] at opens
  unfold Connection.scpOpen
  simp only [permitted, not_true_eq_false, if_false, accepted, quiet.stat, orFault_none, found,
    regular, Bool.false_eq_true, moves, quiet.updateQuota]
  refine ⟨fun allowed => opens.opens ⟨allowed, creatable⟩, fun refused => ?_⟩
  exact opens.refuses fun both => refused both.1

theorem filewrite_existing {request : Request} (named : request.filepath = rawPath)
    (overwrites : Overwrites request.pflags) :
    OpensWhen
      (settings.provider.trackQuota = 0 ∨ Room c.user false (w.quota c.user.username))
      (OpenedIn c settings os moved.fs p false (released settings c.user w info.size))
      (numbered (c.filewrite settings os w request)) := by
  have opens :=
    @handleSFTPUploadToExistingFile_opensWhen c settings os w p quiet
      request.pflags overwrites moved moves creatable info.size
  have sameUsed :
      (moved.updateUserQuota settings none c.user 0 (-info.size)).quota
          c.user.username = released settings c.user w info.size := by
    rw [released, World.updateUserQuota_own, World.updateUserQuota_own, kept]
  rw [hasSpace_iff quiet.getUsedQuota, sameUsed] at opens
  unfold Connection.filewrite
  simp only [permitted, not_true_eq_false, if_false, named, accepted,
    quiet.stat, orFault_none, found, regular, Bool.false_eq_true]
  exact opens

end Existing

end Opening

/-! ## Whole uploads -/

/-- What a successful upload leaves: the content at its place, and the
counters of the user, which were `used` when the data arrived. -/
def Leaves (settings : Settings) (user : User) (before : FileSys) (p : Str)
    (content : List Char) (isNewFile : Bool) (used : Option (Int × Int)) (after : World) : Prop :=
  (∃ loc, landing settings before p = some loc ∧
      UpdatedAt before after.fs loc (some (.file content))) ∧
    after.quota user.username =
      used.map fun (counters : Int × Int) =>
        if World.tracked settings user = true then
          (counters.1 + (if isNewFile then 1 else 0), counters.2 + content.length)
        else counters

section Whole

variable {c : Connection} {settings : Settings} {os : Os} {before base : FileSys} {p : Str}
    {isNewFile : Bool} {used : Option (Int × Int)} {opened : World} {ref : Nat}

/-- However the content is cut into chunks, closing stores it. -/
def StoresAll (settings : Settings) (os : Os) (before : FileSys) (p : Str)
    (opened : World) (ref : Nat) : Prop :=
  ∀ chunks, Stores settings before p chunks.flatten
      (Transfer.close settings os (Transfer.writeAll os ref 0 0 chunks opened) ref)

variable {names place : Loc} {last : Str} {left : Nat} {w : World}

theorem OpenedIn.stored_new (opens : OpenedIn c settings os before p isNewFile used opened ref)
    (quiet : os.Quiet) (fresh : TempFresh settings os before p)
    (slot : Slot before p names last place left) (missing : before.stat p = .error .noent) :
    StoresAll settings os before p opened ref := by
  obtain ⟨_, created, file, upload⟩ := opens
  exact upload.stored_new quiet fresh slot missing

theorem OpenedIn.stored_existing {moved : World} {leaf : Loc} {rest ino : Nat}
    (opens : OpenedIn c settings os moved.fs p isNewFile used opened ref)
    (quiet : os.Quiet) (fresh : TempFresh settings os w.fs p)
    (slot : Slot w.fs p names last place left) (target : Target w.fs p leaf rest ino)
    (moves : Connection.moveAside settings os w p (uploadFilePath settings os p) = .ok moved) :
    StoresAll settings os w.fs p opened ref := by
  obtain ⟨_, created, file, upload⟩ := opens
  exact upload.stored_existing quiet fresh slot target moves

theorem OpenedIn.leaves (opens : OpenedIn c settings os base p isNewFile used opened ref)
    (quiet : os.Quiet) (stores : StoresAll settings os before p opened ref)
    (chunks : List (List Char)) :
    Leaves settings c.user before p chunks.flatten isNewFile used
      (Transfer.close settings os (Transfer.writeAll os ref 0 0 chunks opened) ref).1 := by
  obtain ⟨kept, created, file, upload⟩ := opens
  refine ⟨(stores chunks).2, ?_⟩
  rw [upload.counted quiet chunks, kept]

/-- An SCP request that has opened a file found a free path or a file there,
and closing stores what is sent. -/
theorem scpOpen_stored {rawPath : Str} (quiet : os.Quiet) (fresh : TempFresh settings os w.fs p)
    (slot : Slot w.fs p names last place left) (accepted : c.buildPath w.fs rawPath = .ok p)
    (requested : c.scpOpen settings os w rawPath = (opened, some ref)) :
    (∃ base used, OpenedIn c settings os base p true used opened ref) ∧
      StoresAll settings os w.fs p opened ref ∧
      (w.fs.stat p = .error .noent ∨ ∃ leaf rest ino, Target w.fs p leaf rest ino) := by
  have permitted : c.user.hasPerm permUpload = true := by
    by_contra denied
    simp [Connection.scpOpen, denied] at requested
  cases looked : w.fs.stat p with
  | error err =>
    by_cases missing : err = .noent
    · subst missing
      have opening := @scpOpen_new c settings os w _ _ _ _ _ _ quiet permitted accepted looked slot
      rw [requested] at opening
      have opens := opening.good_of_opened
      exact ⟨⟨_, _, opens⟩, opens.stored_new quiet fresh slot looked, Or.inl rfl⟩
    · simp [Connection.scpOpen, permitted, accepted, quiet.stat, orFault_none, looked] at requested
  | ok info =>
    cases isDir : info.isDir with
    | true =>
      simp [Connection.scpOpen, permitted, accepted, quiet.stat,
        orFault_none, looked, isDir] at requested
    | false =>
      obtain ⟨leaf, rest, ino, target, _⟩ := target_of_stat looked isDir
      obtain ⟨moved, moves, kept, movedSlot, creatable⟩ := moveAside_quiet quiet fresh slot target
      have opening :=
        scpOpen_existing quiet permitted accepted looked isDir moves kept creatable movedSlot
      rw [requested] at opening
      have opens := opening.good_of_opened
      exact ⟨⟨_, _, opens⟩, opens.stored_existing quiet fresh slot target moves,
        Or.inr ⟨leaf, rest, ino, target⟩⟩

theorem handleUpload_leaves {cmd : ScpCommand} {rawPath : Str} {content rest : List Char}
    {ch : Channel} (live : ch.Live)
    (bytes : ch.bytes = (content ++ okMsg) ++ rest) (quiet : os.Quiet)
    (requested : cmd.connection.scpOpen settings os w rawPath = (opened, some ref))
    (opens : OpenedIn cmd.connection settings os base p isNewFile used opened ref)
    (stores : StoresAll settings os before p opened ref) :
    ∃ after answered, Channel.Talks ch answered (content ++ okMsg) [Char.ofNat 0, Char.ofNat 0] ∧
        cmd.handleUpload settings os w ch rawPath content.length =
          ⟨⟨after, answered, .ok⟩, content.length⟩ ∧
        Leaves settings cmd.connection.user before p content isNewFile used after := by
  have continues := handleUpload_continues cmd settings os ch content.length w rawPath
  rw [requested] at continues
  obtain ⟨chunks, answered, flat, talks, upto⟩ := getUploadFileData_upto settings os ref live bytes
  have left := talks.pending
  have closed := (stores chunks).1
  have whole := (upto ch.pending opened (by omega)).1 _ (Prod.ext rfl closed)
  rw [Channel.cut_of_pending_le le_rfl, Channel.cut_of_pending_le (by omega)] at whole
  refine ⟨_, answered, talks, continues.2.trans whole, ?_⟩
  rw [← flat]
  exact opens.leaves quiet stores chunks

end Whole

end Sshserv.Serv
