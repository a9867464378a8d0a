import Sshserv.Serv.HomePath
import Sshserv.Serv.Transfer

/-!
# The SFTP handlers

`Connection.Fileread`, `Filewrite`, `Filelist` and `Filecmd`, with the handler
of every method.  A handler that would dereference a nil `FileInfo` ends in
`crash`.
-/

namespace Sshserv.Serv

open Lib UnixPath FileTree DataProvider

/-- The status codes the handlers answer with. -/
inductive FxCode where
  | ok
  | noSuchFile
  | permissionDenied
  | failure
  | opUnsupported
  deriving DecidableEq

inductive Reply (α : Type) where
  | done (value : α)
  | refused (code : FxCode)
  | crash
  deriving DecidableEq

inductive Method where
  | setstat
  | rename
  | rmdir
  | mkdir
  | symlink
  | remove
  | list
  | stat
  | other (name : Str)
  deriving DecidableEq

/-- The decoded attributes of a request. -/
structure FileStat where
  size : Nat
  mode : Nat
  mtime : Nat
  atime : Nat
  uid : Nat
  gid : Nat
  deriving DecidableEq

structure Request where
  method : Method
  filepath : Str
  target : Str
  flags : Nat
  attributes : FileStat
  deriving DecidableEq

structure FileAttrFlags where
  size : Bool
  uidGid : Bool
  permissions : Bool
  acmodtime : Bool
  deriving DecidableEq

namespace Request

def pflags (request : Request) : OpenFlags where
  read := request.flags.testBit 0
  write := request.flags.testBit 1
  append := request.flags.testBit 2
  creat := request.flags.testBit 3
  trunc := request.flags.testBit 4
  excl := request.flags.testBit 5

def attrFlags (request : Request) : FileAttrFlags where
  size := request.flags.testBit 0
  uidGid := request.flags.testBit 1
  permissions := request.flags.testBit 2
  acmodtime := request.flags.testBit 3

end Request

/-- A request that the SFTP server hands to its handlers. -/
inductive FileCall where
  | fileread (request : Request)
  | filewrite (request : Request)
  | filecmd (request : Request)
  | filelist (request : Request)

/-- The mode that `os.Chmod` hands to the kernel for an `os.FileMode`. -/
def syscallMode (mode : Nat) : Nat :=
  mode % 512 + (if mode.testBit 23 then 2048 else 0) +
    (if mode.testBit 22 then 1024 else 0) +
    (if mode.testBit 20 then 512 else 0)

/-- `getOSOpenFlags`: only a write flag makes the file writable. -/
def getOSOpenFlags (requestFlags : OpenFlags) : OpenFlags where
  read := !requestFlags.write || requestFlags.read
  write := requestFlags.write
  append := requestFlags.append
  creat := requestFlags.creat
  trunc := requestFlags.trunc
  excl := requestFlags.excl

/-- What the names of temporary files start with. -/
def uploadMark : Str := ".sftpgo-upload.".toList

def getUploadTempFilePath (os : Os) (path : Str) : Str :=
  join (dir path) (uploadMark ++ os.guid ++ ['.'] ++ base path)

def uploadFilePath (settings : Settings) (os : Os) (p : Str) : Str :=
  if settings.uploadMode = uploadModeAtomic then getUploadTempFilePath os p
  else p

/-- `utils.ScanDirContents`: the number of regular files below a directory
and their size. -/
def scanDirContents (os : Os) (fs : FileSys) (path : Str) : Except Errno (Int × Int) :=
  match fs.stat path with
  | .error err => .error err
  | .ok fileInfo =>
    if fileInfo.isDir then
      match orFault os.scan (fs.entryLoc path) with
      | .error err => .error err
      | .ok loc =>
        .ok ((fs.filesBelow loc).card, ∑ file ∈ fs.filesBelow loc, (fs.sizeAt file : Int))
    else .ok (0, 0)

namespace Connection

variable (c : Connection) (settings : Settings) (os : Os) (w : World)

def newTransfer (file : Handle) (path : Str) (transferType : TransferType)
    (isNewFile : Bool) : Transfer where
  file := file
  path := path
  start := os.now
  bytesSent := 0
  bytesReceived := 0
  user := c.user
  connectionID := c.id
  transferType := transferType
  lastActivity := os.now
  isNewFile := isNewFile
  protocol := c.protocol

def fileread (request : Request) : World × Reply Nat :=
  if ¬ c.user.hasPerm permDownload then (w, .refused .permissionDenied)
  else
    match c.buildPath w.fs request.filepath with
    | .error _ => (w, .refused .noSuchFile)
    | .ok p =>
      match orFault os.stat (w.fs.stat p) with
      | .error .noent => (w, .refused .noSuchFile)
      | statResult =>
        match orFault os.openFile (w.fs.openRead p) with
        | .error _ => (w, .refused .failure)
        | .ok file =>
          match statResult with
          | .error _ => (w, .crash)
          | .ok _ =>
            let (w, ref) :=
              w.addTransfer (c.newTransfer os file p .download false)
            (w, .done ref)

def handleSFTPUploadToNewFile (requestPath filePath : Str) : World × Reply Nat :=
  if ¬ c.hasSpace settings os w true then (w, .refused .failure)
  else if
      orFault os.statDir (w.fs.stat (dir requestPath)) = .error .noent ∧
        ¬ c.user.hasPerm permCreateDirs then
    (w, .refused .permissionDenied)
  else
    match c.createMissingDirs os w requestPath with
    | (w, .error _) => (w, .refused .failure)
    | (w, .ok ()) =>
      match orFault os.openFile (w.fs.create filePath os.attr) with
      | .error _ => (w, .refused .failure)
      | .ok (fs, file) =>
        let (w, ref) :=
          ((w.setFs fs).setPathPermissions os filePath c.user.getUID
            c.user.getGID).addTransfer (c.newTransfer os file requestPath .upload true)
        (w, .done ref)

/-- In atomic mode the existing file is first renamed to the temporary name. -/
def moveAside (requestPath filePath : Str) : Except Errno World :=
  if settings.uploadMode = uploadModeAtomic then
    match orFault os.rename (w.fs.rename requestPath filePath) with
    | .error err => .error err
    | .ok fs => .ok (w.setFs fs)
  else .ok w

def handleSFTPUploadToExistingFile
    (pflags : OpenFlags) (requestPath filePath : Str) (fileSize : Int) :
    World × Reply Nat :=
  if ¬ c.hasSpace settings os w false then (w, .refused .failure)
  else if ¬ (getOSOpenFlags pflags).trunc then (w, .refused .opUnsupported)
  else
    match moveAside settings os w requestPath filePath with
    | .error _ => (w, .refused .failure)
    | .ok w =>
      match
        orFault os.openFile (w.fs.openFile filePath (getOSOpenFlags pflags) os.attr) with
      | .error _ => (w, .refused .failure)
      | .ok (fs, file) =>
        let (w, ref) :=
          (((w.setFs fs).updateUserQuota settings os.updateQuota c.user
            0 (-fileSize)).setPathPermissions os filePath c.user.getUID
              c.user.getGID).addTransfer (c.newTransfer os file requestPath .upload false)
        (w, .done ref)

def filewrite (request : Request) : World × Reply Nat :=
  if ¬ c.user.hasPerm permUpload then (w, .refused .permissionDenied)
  else
    match c.buildPath w.fs request.filepath with
    | .error _ => (w, .refused .noSuchFile)
    | .ok p =>
      match orFault os.stat (w.fs.stat p) with
      | .error .noent => c.handleSFTPUploadToNewFile settings os w p (uploadFilePath settings os p)
      | .error _ => (w, .refused .failure)
      | .ok stat =>
        if stat.isDir then (w, .refused .opUnsupported)
        else
          c.handleSFTPUploadToExistingFile settings os w request.pflags p
            (uploadFilePath settings os p) stat.size

/-- Make a change of the tree whose failure is reported as `failure`. -/
def applyCall (result : Except Errno FileSys) : World × Option FxCode :=
  match result with
  | .error _ => (w, some .failure)
  | .ok fs => (w.setFs fs, none)

def handleSFTPSetstat (filePath : Str) (request : Request) : World × Option FxCode :=
  if request.attrFlags.permissions then
    applyCall w (orFault os.setstat (w.fs.chmod filePath (syscallMode request.attributes.mode)))
  else if request.attrFlags.uidGid then
    applyCall w (orFault os.setstat
      (w.fs.chown filePath request.attributes.uid request.attributes.gid))
  else if request.attrFlags.acmodtime then
    applyCall w (orFault os.setstat
      (w.fs.chtimes filePath request.attributes.atime request.attributes.mtime))
  else (w, none)

def handleSFTPRename (sourcePath targetPath : Str) : World × Option FxCode :=
  if ¬ c.user.hasPerm permRename then (w, some .permissionDenied)
  else applyCall w (orFault os.rename (w.fs.rename sourcePath targetPath))

def handleSFTPRmdir (path : Str) : World × Option FxCode :=
  if ¬ c.user.hasPerm permDelete then (w, some .permissionDenied)
  else
    match scanDirContents os w.fs path with
    | .error _ => (w, some .failure)
    | .ok (numFiles, size) =>
      match w.fs.removeAll path os.survivors with
      | (fs, .error _) => (w.setFs fs, some .failure)
      | (fs, .ok ()) =>
        ((w.setFs fs).updateUserQuota settings os.updateQuota c.user (-numFiles) (-size), some .ok)

def handleSFTPSymlink (sourcePath targetPath : Str) : World × Option FxCode :=
  if ¬ c.user.hasPerm permCreateSymlinks then (w, some .permissionDenied)
  else
    applyCall w (orFault os.symlink (w.fs.symlink sourcePath targetPath os.attr))

def handleSFTPMkdir (path : Str) : World × Option FxCode :=
  if ¬ c.user.hasPerm permCreateDirs then (w, some .permissionDenied)
  else
    match c.createMissingDirs os w (join path "testfile".toList) with
    | (w, .error _) => (w, some .failure)
    | (w, .ok ()) => (w, none)

def handleSFTPRemove (path : Str) : World × Option FxCode :=
  if ¬ c.user.hasPerm permDelete then (w, some .permissionDenied)
  else
    match orFault os.lstat (w.fs.lstat path) with
    | .error _ => (w, some .failure)
    | .ok fi =>
      match orFault os.remove (w.fs.remove path) with
      | .error _ => (w, some .failure)
      | .ok fs =>
        if fi.kind ≠ .symlink then
          ((w.setFs fs).updateUserQuota settings os.updateQuota c.user (-1) (-fi.size), some .ok)
        else (w.setFs fs, some .ok)

def getSFTPCmdTargetPath (fs : FileSys) (requestTarget : Str) : Except FxCode Str :=
  if requestTarget ≠ [] then
    match c.buildPath fs requestTarget with
    | .error _ => .error .opUnsupported
    | .ok target => .ok target
  else .ok []

/-- The end of `Filecmd` after a method that does not return at once: a nil
error is followed by a change of owner. -/
def finishCmd (p target : Str) : World × Option FxCode → World × Option FxCode
  | (w, some code) => (w, some code)
  | (w, none) =>
    (w.setPathPermissions os (if target ≠ [] then target else p)
      c.user.getUID c.user.getGID, some .ok)

def filecmd (request : Request) : World × Option FxCode :=
  match c.buildPath w.fs request.filepath with
  | .error _ => (w, some .noSuchFile)
  | .ok p =>
    match c.getSFTPCmdTargetPath w.fs request.target with
    | .error _ => (w, some .opUnsupported)
    | .ok target =>
      match request.method with
      | .setstat => handleSFTPSetstat os w p request
      | .rename => c.finishCmd os p target (c.handleSFTPRename os w p target)
      | .rmdir => c.handleSFTPRmdir settings os w p
      | .mkdir => c.finishCmd os p target (c.handleSFTPMkdir os w p)
      | .symlink => c.finishCmd os p target (c.handleSFTPSymlink os w p target)
      | .remove => c.handleSFTPRemove settings os w p
      | _ => (w, some .opUnsupported)

def filelist (request : Request) : Reply (List FileInfo) :=
  match c.buildPath w.fs request.filepath with
  | .error _ => .refused .noSuchFile
  | .ok p =>
    match request.method with
    | .list =>
      if ¬ c.user.hasPerm permListItems then .refused .permissionDenied
      else
        match orFault os.readDir (w.fs.readDir p) with
        | .error _ => .refused .failure
        | .ok files => .done files
    | .stat =>
      if ¬ c.user.hasPerm permListItems then .refused .permissionDenied
      else
        match orFault os.stat (w.fs.stat p) with
        | .error .noent => .refused .noSuchFile
        | .error _ => .refused .failure
        | .ok s => .done [s]
    | _ => .refused .opUnsupported

end Connection

end Sshserv.Serv
