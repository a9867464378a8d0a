import Sshserv.Lib.SortedMap
import Sshserv.Lib.SwapRemove
import Sshserv.Serv.AtomicUpload

/-!
# The registry of open connections

`openConnections` of package `serv`, the login that reads it and the idle
check that walks it, in a `Server` with the accepted SSH connections, their
handlers and transfers, and a clock.  Handlers of one connection share an id.
-/

namespace Sshserv.Serv

open Lib UnixPath FileTree Runs
open DataProvider

/-- A `Connection` with the field that the idle check reads. -/
structure OpenConnection where
  connection : Connection
  lastActivity : Int
  deriving DecidableEq

namespace OpenConnection

def id (c : OpenConnection) : Str :=
  c.connection.id

def username (c : OpenConnection) : Str :=
  c.connection.user.username

end OpenConnection

/-- `map[string]Connection`. -/
abbrev OpenConnections := SortedMap Str OpenConnection

namespace OpenConnections

def addConnection (table : OpenConnections) (conn : OpenConnection) : OpenConnections :=
  table.put conn.id conn

def removeConnection (table : OpenConnections) (id : Str) : OpenConnections :=
  table.delete id

def updateConnectionActivity (table : OpenConnections) (id : Str) (now : Int) : OpenConnections :=
  match table.get id with
  | none => table
  | some c => table.put id { c with lastActivity := now }

def getActiveSessions (table : OpenConnections) (username : Str) : Nat :=
  (table.entries.filter fun entry => entry.2.username = username).length

end OpenConnections

open OpenConnections

/-- `loginUser`, without the creation of a missing home directory. -/
def loginUser (message : Int → Str) (table : OpenConnections) (user : User) : Except Str User :=
  if ¬ isAbs user.homeDir then
    .error ("Cannot login user with invalid home dir: ".toList ++ user.homeDir)
  else if 0 < user.maxSessions ∧ user.maxSessions ≤ table.getActiveSessions user.username then
    .error ("Too many open sessions: ".toList ++ message (table.getActiveSessions user.username))
  else .ok user

/-- The idle time of a connection after one turn of the loop over the active
transfers. -/
def idleAfter (w : World) (now : Int) (c : OpenConnection) (idle : Int) (ref : Nat) : Int :=
  match w.transfers ref with
  | none => idle
  | some t =>
    if t.connectionID = c.id ∧ now - t.lastActivity < idle then
      now - t.lastActivity
    else idle

def idleTime (w : World) (now : Int) (c : OpenConnection) : Int :=
  w.activeTransfers.foldl (idleAfter w now c) (now - c.lastActivity)

/-- The connections that `CheckIdleConnections` closes. -/
def checkIdleConnections (idleTimeout : Int) (table : OpenConnections)
    (w : World) (now : Int) : List Str :=
  (table.entries.filter fun entry =>
    idleTimeout < idleTime w now entry.2).map fun entry => entry.2.id

/-- What serves a channel. -/
inductive Service where
  /-- An SFTP subsystem on the local file system. -/
  | sftp
  /-- An SFTP subsystem on HDFS. -/
  | hdfs
  | scp
  deriving DecidableEq

structure Handler where
  conn : OpenConnection
  service : Service
  deriving DecidableEq

/-- `accepted` holds the SSH connections that have logged in and are not gone,
as `AcceptInboundConnection` keeps them; `handlers` the goroutines between
`addConnection` and `removeConnection`.  `served` is the time of the last
request of each connection; no function reads it. -/
structure Server where
  world : World
  clock : Int
  openConnections : OpenConnections
  accepted : List OpenConnection
  handlers : List Handler
  served : Str → Option Int

def Server.start (world : World) : Server :=
  ⟨world, 0, SortedMap.empty, [], [], fun _ => none⟩

/-- What the local handlers make of the process. -/
def FileCall.world (settings : Settings) (os : Os) (w : World) (c : Connection) : FileCall → World
  | fileread request => (c.fileread os w request).1
  | filewrite request => (c.filewrite settings os w request).1
  | filecmd request => (c.filecmd settings os w request).1
  | filelist _ => w

/-- A step of an SCP command that begins with `updateConnectionActivity`, up
to the data phase. -/
inductive ScpCall where
  | upload (rawPath : Str)
  | download (rawPath : Str)
  | createDir (ch : Channel) (dirPath : Str)

/-- `handleDownload` up to the data phase of a file. -/
def Connection.scpOpenRead (c : Connection) (os : Os) (w : World) (rawPath : Str) : World :=
  if ¬ c.user.hasPerm permDownload then w
  else
    match c.buildPath w.fs rawPath with
    | .error _ => w
    | .ok p =>
      match orFault os.stat (w.fs.stat p) with
      -- an error other than a missing file ends the process here
      | .error _ => w
      | .ok stat =>
        if stat.isDir then w
        else
          match orFault os.openFile (w.fs.openRead p) with
          | .error _ => w
          | .ok file => (w.addTransfer (c.newTransfer os file p .download false)).1

def ScpCall.world (settings : Settings) (os : Os) (w : World) (c : Connection) : ScpCall → World
  | upload rawPath => (c.scpOpen settings os w rawPath).1
  | download rawPath => c.scpOpenRead os w rawPath
  -- the command's arguments play no part here
  | createDir ch dirPath => (ScpCommand.handleCreateDir ⟨c, []⟩ os w ch dirPath).world

inductive ServerEvent where
  | tick (elapsed : Nat)
  /-- A client authenticates; the id is that of its SSH connection. -/
  | login (id : Str) (user : User)
  /-- A client authenticates with the base key, which names its user. -/
  | baseKey (id : Str) (user : User)
  /-- An SSH connection without handlers goes away. -/
  | gone (id : Str)
  /-- A channel asks for a service. -/
  | start (id : Str) (service : Service) (protocol : Str)
  /-- The handler at this place ends. -/
  | finish (i : Nat)
  /-- The SFTP handler at this place gets a request. -/
  | request (i : Nat) (os : Os) (call : FileCall)
  /-- The SCP handler at this place goes on to a file or a directory. -/
  | scp (i : Nat) (os : Os) (call : ScpCall)
  | readAt (os : Os) (index ref count : Nat) (off : Int)
  | writeAt (os : Os) (index ref : Nat) (bytes : List Char) (off : Int)
  | close (os : Os) (ref : Nat)
  /-- A transfer of the HDFS handler at this place reads or writes. -/
  | hdfsTransfer (i : Nat)

namespace Server

def find (s : Server) (id : Str) : Option OpenConnection :=
  s.accepted.find? fun conn => conn.id = id

/-- A connection that has just logged in.  Two connections never have the
same session id. -/
def accept (s : Server) (id : Str) (user : User) : Server :=
  match s.find id with
  | some _ => s
  | none =>
    { s with
      accepted := s.accepted ++ [⟨⟨id, user, []⟩, s.clock⟩] }

/-- The start of `handleSftpConnection` and of `scpCommand.handle`. -/
def startHandler (s : Server) (conn : OpenConnection) (service : Service) : Server :=
  { s with
    openConnections := s.openConnections.addConnection conn
    handlers := s.handlers ++ [⟨conn, service⟩] }

def endHandler (s : Server) (i : Nat) (handler : Handler) : Server :=
  { s with
    openConnections := s.openConnections.removeConnection handler.conn.id
    handlers := s.handlers.eraseIdx i }

/-- A request of a connection is handled now. -/
def serve (s : Server) (id : Str) : Server :=
  { s with served := Function.update s.served id (some s.clock) }

/-- The registry after `updateConnectionActivity`. -/
def touch (s : Server) (id : Str) : Server :=
  { s with
    openConnections :=
      s.openConnections.updateConnectionActivity id s.clock }

/-- A transfer that is still open reads or writes. -/
def onTransfer (s : Server) (ref : Nat) (after : World) : Server :=
  match s.world.transfers ref with
  | none => s
  | some t =>
    if ref ∈ s.world.activeTransfers then
      { s with world := after }.serve t.connectionID
    else s

end Server

/-- The decisions of the operating system at a time. -/
def Os.at (os : Os) (now : Int) : Os :=
  { os with now := now }

open Server

def ServerEvent.step (settings : Settings) (message : Int → Str) (s : Server) : ServerEvent → Server
  | tick elapsed => { s with clock := s.clock + elapsed }
  | login id user =>
    match loginUser message s.openConnections user with
    | .error _ => s
    | .ok user => s.accept id user
  | baseKey id user => s.accept id user
  | gone id =>
    if s.handlers.any fun handler => handler.conn.id = id then s
    else { s with accepted := s.accepted.filter fun conn => conn.id ≠ id }
  | start id service protocol =>
    match s.find id with
    | none => s
    | some conn =>
      s.startHandler
        { conn with
          connection := { conn.connection with protocol := protocol } }
        service
  | finish i =>
    match s.handlers[i]? with
    | none => s
    | some handler => s.endHandler i handler
  | request i os call =>
    match s.handlers[i]? with
    | none => s
    | some handler =>
      match handler.service with
      | .sftp =>
        { (s.touch handler.conn.id).serve handler.conn.id with
          world := call.world settings (os.at s.clock) s.world handler.conn.connection }
      -- `ActiveTime` sets a field of its receiver, which is a copy
      | .hdfs => s.serve handler.conn.id
      | .scp => s
  | scp i os call =>
    match s.handlers[i]? with
    | none => s
    | some handler =>
      match handler.service with
      | .scp =>
        { s.touch handler.conn.id with
          world := call.world settings (os.at s.clock) s.world handler.conn.connection }
      | _ => s
  | readAt os index ref count off =>
    s.onTransfer ref (Transfer.readAt (os.at s.clock) index s.world ref count off).1
  | writeAt os index ref bytes off =>
    s.onTransfer ref (Transfer.writeAt (os.at s.clock) index s.world ref bytes off).1
  | close os ref =>
    if ref ∈ s.world.activeTransfers then
      { s with
        world := (Transfer.close settings (os.at s.clock) s.world ref).1 }
    else s
  | hdfsTransfer i =>
    match s.handlers[i]? with
    | none => s
    | some handler =>
      match handler.service with
      | .hdfs => s.serve handler.conn.id
      | _ => s

end Sshserv.Serv
