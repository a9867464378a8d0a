import Sshserv.Serv.FileHandler

/-!
# The steps of a request

`Filewrite` and the upload of SCP open a file in much the same way.
`OpenSteps` says what a request can have done when it returns, and every
property of open requests is proved along its cases.  `filecmd_keeps` is the
rule for what commands keep.
-/

namespace Sshserv.Serv

open Lib UnixPath FileTree DataProvider

def Reply.number : Reply Nat → Option Nat
  | .done ref => some ref
  | .refused _ => none
  | .crash => none

/-- The number of the transfer that an open request has started. -/
abbrev numbered (result : World × Reply Nat) : World × Option Nat :=
  (result.1, result.2.number)

namespace Connection

variable (c : Connection) (settings : Settings) (os : Os) (w : World)

/-- `handleUploadFile` up to the data phase. -/
def scpOpenFile (requestPath filePath : Str) : World × Option Nat :=
  if ¬ c.hasSpace settings os w true then (w, none)
  else if
      orFault os.statDir (w.fs.stat (dir requestPath)) = .error .noent ∧
        ¬ c.user.hasPerm permCreateDirs then
    (w, none)
  else
    match orFault os.openFile (w.fs.create filePath os.attr) with
    | .error _ => (w, none)
    | .ok (fs, file) =>
      let (w, ref) :=
        ((w.setFs fs).setPathPermissions os filePath c.user.getUID
          c.user.getGID).addTransfer (c.newTransfer os file requestPath .upload true)
      (w, some ref)

/-- `handleUpload` up to the data phase. -/
def scpOpen (rawPath : Str) : World × Option Nat :=
  if ¬ c.user.hasPerm permUpload then (w, none)
  else
    match c.buildPath w.fs rawPath with
    | .error _ => (w, none)
    | .ok p =>
      match orFault os.stat (w.fs.stat p) with
      | .error .noent => c.scpOpenFile settings os w p (uploadFilePath settings os p)
      | .error _ => (w, none)
      | .ok stat =>
        if stat.isDir then (w, none)
        else
          match
            moveAside settings os w p (uploadFilePath settings os p) with
          | .error _ => (w, none)
          | .ok w =>
            c.scpOpenFile settings os
              (w.updateUserQuota settings os.updateQuota c.user 0
                (-stat.size)) p (uploadFilePath settings os p)

/-- The last steps of every open request. -/
def launch (file : Handle) (requestPath filePath : Str) (isNewFile : Bool) : World × Option Nat :=
  let launched :=
    (w.setPathPermissions os filePath c.user.getUID
      c.user.getGID).addTransfer (c.newTransfer os file requestPath .upload isNewFile)
  (launched.1, some launched.2)

end Connection

section Steps

variable (c : Connection) (settings : Settings) (os : Os) (w : World)

/-- An existing file that an upload to `p` replaces has been moved aside. -/
structure SetAside (p : Str) (info : FileInfo) (moved : World) : Prop where
  found : w.fs.stat p = .ok info
  regular : info.isDir = false
  aside : Connection.moveAside settings os w p (uploadFilePath settings os p) = .ok moved

/-- The world in which the file of an upload to `p` is created.  An SFTP
request comes with its flags; SCP has none. -/
inductive CreateReady (p : Str) : Option OpenFlags → World → Prop
  | absent (missing : w.fs.stat p = .error .noent)
      (space : c.hasSpace settings os w true) : CreateReady p none w
  | prepared {flags : OpenFlags} {middle : World}
      (missing : w.fs.stat p = .error .noent)
      (space : c.hasSpace settings os w true)
      (dirs : c.createMissingDirs os w p = (middle, .ok ())) :
      CreateReady p (some flags) middle
  | released {info : FileInfo} {moved : World}
      (old : SetAside settings os w p info moved)
      (space :
        c.hasSpace settings os
          (moved.updateUserQuota settings os.updateQuota c.user 0 (-info.size)) true) :
      CreateReady p none (moved.updateUserQuota settings os.updateQuota c.user 0 (-info.size))

/-- What an open request for the path `p` ends with. -/
inductive OpenSteps (p : Str) : Option OpenFlags → World × Option Nat → Prop
  | refused (via : Option OpenFlags) : OpenSteps p via (w, none)
  | prepared (flags : OpenFlags) (missing : w.fs.stat p = .error .noent) :
      OpenSteps p (some flags) ((c.createMissingDirs os w p).1, none)
  | moved {flags : OpenFlags} {info : FileInfo} {moved : World}
      (old : SetAside settings os w p info moved)
      (space : c.hasSpace settings os w false)
      (truncates : flags.trunc) :
      OpenSteps p (some flags) (moved, none)
  | released {info : FileInfo} {moved : World}
      (old : SetAside settings os w p info moved) :
      OpenSteps p none (moved.updateUserQuota settings os.updateQuota c.user 0 (-info.size), none)
  | created {via : Option OpenFlags} {middle : World} {fs : FileSys}
      {file : Handle} (ready : CreateReady c settings os w p via middle)
      (made : middle.fs.create (uploadFilePath settings os p) os.attr = .ok (fs, file)) :
      OpenSteps p via (c.launch os (middle.setFs fs) file p (uploadFilePath settings os p) true)
  | reopened {flags : OpenFlags} {info : FileInfo} {moved : World}
      {fs : FileSys} {file : Handle}
      (old : SetAside settings os w p info moved)
      (space : c.hasSpace settings os w false)
      (truncates : flags.trunc)
      (opened :
        moved.fs.openFile (uploadFilePath settings os p)
          (getOSOpenFlags flags) os.attr = .ok (fs, file)) :
      OpenSteps p (some flags)
        (c.launch os
          ((moved.setFs fs).updateUserQuota settings os.updateQuota c.user 0
            (-info.size)) file p (uploadFilePath settings os p) false)

/-- An open request is refused at once, or its path has been accepted. -/
def OpenEnds (rawPath : Str) (via : Option OpenFlags) (result : World × Option Nat) : Prop :=
  result = (w, none) ∨
    c.user.hasPerm permUpload = true ∧
      ∃ p, c.buildPath w.fs rawPath = .ok p ∧ OpenSteps c settings os w p via result

variable {c settings os w}

variable {p : Str} {info : FileInfo}

theorem SetAside.notDir {moved : World} (old : SetAside settings os w p info moved)
    (other : FileInfo) (found : w.fs.stat p = .ok other) : other.isDir = false := by
  rw [old.found] at found
  cases found
  exact old.regular

theorem newFile_steps (flags : OpenFlags) (missing : w.fs.stat p = .error .noent) :
    OpenSteps c settings os w p (some flags)
      (numbered (c.handleSFTPUploadToNewFile settings os w p (uploadFilePath settings os p))) := by
  have prepared : OpenSteps c settings os w p (some flags) _ := .prepared flags missing
  unfold Connection.handleSFTPUploadToNewFile
  split
  · exact .refused _
  rename_i space
  split
  · exact .refused _
  split
  · rename_i dirs
    rw [dirs] at prepared
    exact prepared
  rename_i middle dirs
  rw [dirs] at prepared
  split
  · exact prepared
  rename_i fs file opened
  exact .created (.prepared missing (not_not.mp space) dirs) (orFault_eq_ok.mp opened).2

theorem existingFile_steps
    (flags : OpenFlags) (found : w.fs.stat p = .ok info) (regular : info.isDir = false) :
    OpenSteps c settings os w p (some flags)
      (numbered (c.handleSFTPUploadToExistingFile settings os w flags p
        (uploadFilePath settings os p) info.size)) := by
  unfold Connection.handleSFTPUploadToExistingFile
  split
  · exact .refused _
  rename_i space
  split
  · exact .refused _
  rename_i truncates
  split
  · exact .refused _
  rename_i moved aside
  have old : SetAside settings os w p info moved := ⟨found, regular, aside⟩
  split
  · exact .moved old (not_not.mp space) (not_not.mp truncates)
  rename_i fs file opened
  exact .reopened old (not_not.mp space) (not_not.mp truncates) (orFault_eq_ok.mp opened).2

theorem filewrite_ends (request : Request) :
    OpenEnds c settings os w request.filepath (some request.pflags)
      (numbered (c.filewrite settings os w request)) := by
  unfold Connection.filewrite
  split
  · exact Or.inl rfl
  rename_i allowed
  split
  · exact Or.inl rfl
  rename_i p accepted
  refine Or.inr ⟨not_not.mp allowed, p, accepted, ?_⟩
  split
  · rename_i missing
    exact newFile_steps _ (orFault_eq_noent.mp missing).2
  · exact .refused _
  · rename_i info found
    split
    · exact .refused _
    · rename_i regular
      exact existingFile_steps _ (orFault_eq_ok.mp found).2 (by simpa using regular)

/-- `stopped` is what a request has done before it can create the file. -/
theorem scpOpenFile_steps
    {before : World} (stopped : OpenSteps c settings os w p none (before, none)) (ready :
      c.hasSpace settings os before true = true → CreateReady c settings os w p none before) :
    OpenSteps c settings os w p none
      (c.scpOpenFile settings os before p (uploadFilePath settings os p)) := by
  unfold Connection.scpOpenFile
  split
  · exact stopped
  rename_i space
  split
  · exact stopped
  split
  · exact stopped
  rename_i fs file opened
  exact .created (ready (not_not.mp space)) (orFault_eq_ok.mp opened).2

theorem scpOpen_ends (rawPath : Str) :
    OpenEnds c settings os w rawPath none (c.scpOpen settings os w rawPath) := by
  unfold Connection.scpOpen
  split
  · exact Or.inl rfl
  rename_i allowed
  split
  · exact Or.inl rfl
  rename_i p accepted
  refine Or.inr ⟨not_not.mp allowed, p, accepted, ?_⟩
  split
  · rename_i missing
    exact scpOpenFile_steps (.refused _) (.absent (orFault_eq_noent.mp missing).2)
  · exact .refused _
  · rename_i info found
    split
    · exact .refused _
    rename_i regular
    split
    · exact .refused _
    rename_i moved aside
    have old : SetAside settings os w p info moved :=
      ⟨(orFault_eq_ok.mp found).2, by simpa using regular, aside⟩
    exact scpOpenFile_steps (.released old) (.released old)

end Steps

/-- What a command makes of a tree, apart from the directories of a
`Mkdir`. -/
inductive CommandEdit (os : Os) (fs : FileSys) (p target : Str) : Method → FileSys → Prop
  | setstat {change : Attr → Attr} {after : FileSys} (done : fs.modifyAttr p change = .ok after) :
      CommandEdit os fs p target .setstat after
  | rename {after : FileSys} (done : fs.rename p target = .ok after) :
      CommandEdit os fs p target .rename after
  | rmdir : CommandEdit os fs p target .rmdir (fs.removeAll p os.survivors).1
  | symlink {after : FileSys} (done : fs.symlink p target os.attr = .ok after) :
      CommandEdit os fs p target .symlink after
  | remove {after : FileSys} (done : fs.remove p = .ok after) :
      CommandEdit os fs p target .remove after

section Commands

variable {keeps : World → Prop} {c : Connection} {settings : Settings} {os : Os} {w : World}
  {p target : Str} (before : keeps w)

include before

theorem applyCall_keeps {fault : Option Nat} {result : Except Errno FileSys}
    (edited : ∀ after, result = .ok after → keeps (w.setFs after)) :
    keeps (Connection.applyCall w (orFault fault result)).1 := by
  cases done : orFault fault result with
  | error err => exact before
  | ok after => exact edited after (orFault_eq_ok.mp done).2

theorem handleSFTPSetstat_keeps {request : Request}
    (edited : ∀ after, CommandEdit os w.fs p target .setstat after → keeps (w.setFs after)) :
    keeps (Connection.handleSFTPSetstat os w p request).1 := by
  unfold Connection.handleSFTPSetstat
  split
  · exact applyCall_keeps before fun after done => edited after (.setstat done)
  · split
    · exact applyCall_keeps before fun after done => edited after (.setstat done)
    · split
      · exact applyCall_keeps before fun after done => edited after (.setstat done)
      · exact before

theorem handleSFTPRename_keeps
    (edited : ∀ after, CommandEdit os w.fs p target .rename after → keeps (w.setFs after)) :
    keeps (c.handleSFTPRename os w p target).1 := by
  unfold Connection.handleSFTPRename
  split
  · exact before
  · exact applyCall_keeps before fun after done => edited after (.rename done)

theorem handleSFTPSymlink_keeps
    (edited : ∀ after, CommandEdit os w.fs p target .symlink after → keeps (w.setFs after)) :
    keeps (c.handleSFTPSymlink os w p target).1 := by
  unfold Connection.handleSFTPSymlink
  split
  · exact before
  · exact applyCall_keeps before fun after done => edited after (.symlink done)

theorem handleSFTPRmdir_keeps
    (charged : ∀ w files size, keeps w →
      keeps (w.updateUserQuota settings os.updateQuota c.user files size))
    (edited : ∀ after, CommandEdit os w.fs p target .rmdir after → keeps (w.setFs after)) :
    keeps (c.handleSFTPRmdir settings os w p).1 := by
  have removed := edited _ .rmdir
  unfold Connection.handleSFTPRmdir
  split
  · exact before
  · split
    · exact before
    · split
      · next result =>
        rw [result] at removed
        exact removed
      · next result =>
        rw [result] at removed
        exact charged _ _ _ removed

theorem handleSFTPRemove_keeps
    (charged : ∀ w files size, keeps w →
      keeps (w.updateUserQuota settings os.updateQuota c.user files size))
    (edited : ∀ after, CommandEdit os w.fs p target .remove after → keeps (w.setFs after)) :
    keeps (c.handleSFTPRemove settings os w p).1 := by
  unfold Connection.handleSFTPRemove
  split
  · exact before
  · split
    · exact before
    · split
      · exact before
      · next after done =>
        have removed := edited after (.remove (orFault_eq_ok.mp done).2)
        split
        · exact charged _ _ _ removed
        · exact removed

theorem handleSFTPMkdir_keeps
    (made : ∀ w d fs, keeps w → w.fs.mkdir d os.attr = .ok fs → keeps (w.setFs fs))
    (owned : ∀ w path uid gid, keeps w → keeps (w.setPathPermissions os path uid gid)) :
    keeps (c.handleSFTPMkdir os w p).1 := by
  have created := createMissingDirs_keeps c os made owned (join p "testfile".toList) before
  unfold Connection.handleSFTPMkdir
  split
  · exact before
  · split
    · next result =>
      rw [result] at created
      exact created
    · next result =>
      rw [result] at created
      exact created

/-- The rule of the invariant for `Filecmd`. -/
theorem filecmd_keeps {request : Request}
    (made : ∀ w d fs, keeps w → w.fs.mkdir d os.attr = .ok fs → keeps (w.setFs fs))
    (owned : ∀ w path uid gid, keeps w → keeps (w.setPathPermissions os path uid gid))
    (charged : ∀ w files size, keeps w →
      keeps (w.updateUserQuota settings os.updateQuota c.user files size))
    (edited : ∀ p target after, c.buildPath w.fs request.filepath = .ok p →
      c.getSFTPCmdTargetPath w.fs request.target = .ok target →
      CommandEdit os w.fs p target request.method after → keeps (w.setFs after)) :
    keeps (c.filecmd settings os w request).1 := by
  have finish : ∀ (p target : Str) {result : World × Option FxCode}, keeps result.1 →
      keeps (c.finishCmd os p target result).1 := by
    intro p target result kept
    obtain ⟨next, code⟩ := result
    cases code with
    | some code => exact kept
    | none => exact owned _ _ _ _ kept
  unfold Connection.filecmd
  cases accepted : c.buildPath w.fs request.filepath with
  | error err => exact before
  | ok p =>
    cases aimed : c.getSFTPCmdTargetPath w.fs request.target with
    | error code => exact before
    | ok target =>
      have edited := fun after => edited p target after accepted aimed
      cases method : request.method with
      | setstat => exact handleSFTPSetstat_keeps before (method ▸ edited)
      | rename => exact finish p target (handleSFTPRename_keeps before (method ▸ edited))
      | rmdir => exact handleSFTPRmdir_keeps before charged (method ▸ edited)
      | mkdir => exact finish p target (handleSFTPMkdir_keeps before made owned)
      | symlink => exact finish p target (handleSFTPSymlink_keeps before (method ▸ edited))
      | remove => exact handleSFTPRemove_keeps before charged (method ▸ edited)
      | _ => exact before

end Commands

end Sshserv.Serv
