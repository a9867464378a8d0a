import Sshserv.Lib.Search
import Sshserv.Serv.ScpUpload

/-!
# The copying client

`FileTran` copies a file or a tree between the local disk and SFTP servers.
Each of its calls may fail.  A directory that cannot be read is not entered:
`filepath.Walk` reports it once with an error, the walker of the SFTP client a
second time.
-/

namespace Sshserv.Cli

open Lib UnixPath FileTree

/-- The entries of a directory in the order in which it is read.  A leaf is
what `Lstat` does not call a directory; links are leaves. -/
inductive Entries where
  | nil
  | leaf (name : Str) (regular : Bool) (rest : Entries)
  | dir (name : Str) (below rest : Entries)
  deriving DecidableEq

/-- What is at the source path.  A directory may be there by a symbolic link,
which `Stat` follows and `Lstat` does not. -/
inductive Source where
  | missing
  | leaf (regular : Bool)
  | dir (link : Bool) (entries : Entries)
  deriving DecidableEq

/-- Where a path is. -/
inductive Place where
  | disk
  | server
  deriving DecidableEq

/-- The answers to the calls of one run.  Those about the source depend on
the path; those made for the copy of one file on how many files were begun
before. -/
structure Calls where
  /-- Whether `Connect` reaches a server, by host, port and key file. -/
  connect : Str → Int → Str → Bool
  /-- `Stat` of a source that exists. -/
  statSrc : Option Errno
  lstat : Str → Option Errno
  readDir : Str → Option Errno
  openSrc : Str → Option Errno
  /-- `Stat` of the destination: whether it is a directory. -/
  statDst : Except Errno Bool
  /-- `os.Stat` of the directory of the new file. -/
  parent : Nat → Except Errno Bool
  create : Nat → Option Errno
  copy : Nat → Option Errno

inductive TranError where
  | sys (err : Errno)
  | message (text : Str)
  /-- The error of `strconv.Atoi`. -/
  | port (text : Str) (outOfRange : Bool)
  deriving DecidableEq

/-- How a call ends: it returns, or the process ends by `log.Fatal` or by a
panic. -/
inductive Ending where
  | returned (err : Option TranError)
  | fatal
  | panic
  deriving DecidableEq

/-- A copy that was begun. -/
structure Copy where
  source : Str
  target : Str
  complete : Bool
  deriving DecidableEq

abbrev Run := List Copy × Ending

/-- A path and `IsDir` of what the walk knows about it, if it knows
anything. -/
structure Visit where
  path : Str
  isDir : Option Bool
  deriving DecidableEq

namespace Place

variable (place : Place) (calls : Calls)

/-- `filepath.Walk` calls `Lstat` for every entry; the walker takes the
listing's word. -/
def info (path : Str) (isDir : Bool) : Option Bool :=
  match place with
  | .disk => if (calls.lstat path).isSome then none else some isDir
  | .server => some isDir

/-- What follows the visit of a directory that cannot be read. -/
def again (path : Str) : List Visit :=
  match place with
  | .disk => []
  | .server => [⟨path, some true⟩]

def visits (parent : Str) : Entries → List Visit
  | .nil => []
  | .leaf name _ rest =>
    ⟨join parent name, place.info calls (join parent name) false⟩ :: visits parent rest
  | .dir name below rest =>
    match place.info calls (join parent name) true with
    | none => ⟨join parent name, none⟩ :: visits parent rest
    | some _ =>
      ⟨join parent name, some true⟩ ::
        ((if (calls.readDir (join parent name)).isSome then
            place.again (join parent name)
          else visits (join parent name) below) ++
          visits parent rest)

/-- The whole walk from a root, whose path is not cleaned. -/
def walk (root : Str) (link : Bool) (entries : Entries) : List Visit :=
  if (calls.lstat root).isSome then [⟨root, none⟩]
  else if link then [⟨root, some false⟩]
  else
    ⟨root, some true⟩ ::
      if (calls.readDir root).isSome then place.again root
      else place.visits calls root entries

end Place

namespace Calls

variable (calls : Calls)

/-- `Create`, whose failure ends the process, and `io.Copy`. -/
def createAndCopy (number : Nat) : Ending :=
  match calls.create number with
  | some _ => .fatal
  | none => .returned ((calls.copy number).map .sys)

/-- What `MkdirAll` answers is ignored. -/
def toRemote (number : Nat) (_remoteFile : Str) : Ending :=
  calls.createAndCopy number

def toLocal (number : Nat) (remoteFile : Str) : Ending :=
  if '/' ∈ remoteFile ∧ calls.parent number = .ok false then
    .returned (some (.message "dst file is a folder".toList))
  else calls.createAndCopy number

def toPlace : Place → Nat → Str → Ending
  | .disk => calls.toLocal
  | .server => calls.toRemote

/-- The results of `checkDstPath`. -/
inductive DstStat where
  | notFound
  | dir
  | file
  | failed
  deriving DecidableEq

def checkDstPath : DstStat :=
  match calls.statDst with
  | .ok true => .dir
  | .ok false => .file
  | .error err => if isNotExist err then .notFound else .failed

/-- The failure of opening a source file: `fromLocal` returns it, `fromRemote`
ends the process. -/
def openFailed (place : Place) (err : Errno) : Ending :=
  match place with
  | .disk => .returned (some (.sys err))
  | .server => .fatal

def copyFile (src dst : Place) (srcPath dstPath : Str) (log : List Copy) : Run :=
  match calls.openSrc srcPath with
  | some err => (log, openFailed src err)
  | none =>
    match calls.toPlace dst log.length dstPath with
    | .returned none => (log ++ [⟨srcPath, dstPath, true⟩], .returned none)
    | ending => (log ++ [⟨srcPath, dstPath, false⟩], ending)

/-- The walk function over what is visited; `cut` is the length of the source
path. -/
def copyEach (src dst : Place) (cut : Nat) (dstPath : Str) : List Visit → List Copy → Run
  | [], log => (log, .returned none)
  | visit :: rest, log =>
    -- `path[plen:]` is out of range
    if visit.path.length < cut then (log, .panic)
    else
      match visit.isDir with
      -- `IsDir` of a nil `FileInfo`
      | none => (log, .panic)
      | some true => copyEach src dst cut dstPath rest log
      | some false =>
        match
          calls.copyFile src dst visit.path (join dstPath (visit.path.drop cut)) log
        with
        | (log, .returned none) => copyEach src dst cut dstPath rest log
        | run => run

def dstInvalid : Run :=
  ([], .returned (some (.message "dst path invalid".toList)))

/-- The common body of `fromLocal` and `fromRemote`.  If the source cannot be
found nothing is done and nothing reported. -/
def copyFrom (src dst : Place) (source : Source) (srcPath dstPath : Str) : Run :=
  if calls.statSrc.isSome then ([], .returned none)
  else
    match source with
    | .missing => ([], .returned none)
    | .dir link entries =>
      match calls.checkDstPath with
      | .notFound =>
        calls.copyEach src dst srcPath.length dstPath (src.walk calls srcPath link entries) []
      | .dir =>
        calls.copyEach src dst srcPath.length
          (join dstPath (base srcPath))
          (src.walk calls srcPath link entries) []
      | _ => dstInvalid
    | .leaf _ =>
      match calls.checkDstPath with
      | .file => calls.copyFile src dst srcPath dstPath []
      | .notFound => calls.copyFile src dst srcPath dstPath []
      | .dir => calls.copyFile src dst srcPath (join dstPath (base srcPath)) []
      | .failed => dstInvalid

def fromLocal (dst : Place) (source : Source) (srcPath dstPath : Str) : Run :=
  calls.copyFrom .disk dst source srcPath dstPath

/-- The results of `connectRemote`. -/
inductive Dial where
  | connected (path : Str)
  | failed (err : TranError)
  | ended (ending : Ending)
  deriving DecidableEq

/-- `host:port@path`.  `Connect` ends the process itself when it fails. -/
def connectRemote (connstr keyFile : Str) : Dial :=
  let addr := connstr.takeWhile (· ≠ '@')
  if ':' ∉ addr then .failed (.message "invalid addr format".toList)
  else
    let port := (addr.dropWhile (· ≠ ':')).tail
    match Serv.ScpCommand.parseInt port with
    | .error outOfRange => .failed (.port port outOfRange)
    | .ok number =>
      if ¬ calls.connect (addr.takeWhile (· ≠ ':')) number keyFile then
        .ended .fatal
      else if '@' ∉ connstr then .ended .panic
      else .connected (connstr.dropWhile (· ≠ '@')).tail

def fromRemote (dst : Place) (source : Source) (path dstPath keyFile : Str) : Run :=
  match calls.connectRemote path keyFile with
  | .failed _ => ([], .returned (some (.message "failed connect to from sftp".toList)))
  | .ended ending => ([], ending)
  | .connected srcPath => calls.copyFrom .server dst source srcPath dstPath

def hasAddr (text : Str) : Bool :=
  match Lib.Search.index ['@'] text with
  | some place => 0 < place
  | none => false

/-- The result of the inner call is assigned to a variable of the block and
lost. -/
def shadowed : Run → Run
  | (log, .returned _) => (log, .returned none)
  | run => run

def fileTran (source : Source) (src dst keyFile : Str) : Run :=
  if hasAddr src ∧ hasAddr dst then
    match calls.connectRemote dst keyFile with
    | .failed err => ([], .returned (some err))
    | .ended ending => ([], ending)
    | .connected dstPath => shadowed (calls.fromRemote .server source src dstPath keyFile)
  else if hasAddr src then
    calls.fromRemote .disk source src dst keyFile
  else if hasAddr dst then
    match calls.connectRemote dst keyFile with
    | .failed err => ([], .returned (some err))
    | .ended ending => ([], ending)
    | .connected dstPath => shadowed (calls.fromLocal .server source src dstPath)
  else calls.fromLocal .disk source src dst

end Calls

end Sshserv.Cli
