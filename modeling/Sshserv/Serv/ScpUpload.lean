import Sshserv.Serv.Channel
import Sshserv.Serv.FileHandler

/-!
# SCP uploads

`scpCommand.handleRecursiveUpload` and everything below it.  Loops follow the
client's bytes and are bounded by the number of bytes still to come.  A crash
is a nil dereference or an index out of range.
-/

namespace Sshserv.Serv

open Lib UnixPath FileTree DataProvider

structure ScpCommand where
  connection : Connection
  args : List Str
  deriving DecidableEq

inductive ScpResult where
  | ok
  | failed (text : Str)
  | crash
  | outOfFuel
  deriving DecidableEq

/-- The state and the result of a step of the command. -/
structure ScpState where
  world : World
  channel : Channel
  result : ScpResult

def PathError.text (os : Os) : PathError → Str
  | .os err => os.message err
  | .notInside sub parent => "dir ".toList ++ sub ++ " is not inside: ".toList ++ parent
  | .notDir path => "resolved path is not a dir: ".toList ++ path

def refuse (w : World) (ch : Channel) (text : Str) : ScpState :=
  ⟨w, ch.sendErrorMessage text, .failed text⟩

/-- What the data phase leaves; `dataRead` counts the bytes of file data that
were read. -/
structure Received where
  world : World
  channel : Channel
  dataRead : Nat
  ok : Bool

/-- The read loop of `getUploadFileData`.  A failed read ends the transfer. -/
def receive (settings : Settings) (os : Os) (ref : Nat) (sizeToRead : Int) :
    Nat → Nat → Int → Nat → World → Channel → Received
  | 0, _, _, _, w, ch =>
    ⟨(Transfer.close settings os w ref).1, ch.sendErrorMessage eofText, 0, false⟩
  | fuel + 1, index, remaining, bufLen, w, ch =>
    match ch.read bufLen with
    | none => ⟨(Transfer.close settings os w ref).1, ch.sendErrorMessage eofText, 0, false⟩
    | some (buf, ch) =>
      let w :=
        (Transfer.writeAt os index w ref buf (sizeToRead - remaining)).1
      let left := remaining - buf.length
      if left ≤ 0 then ⟨w, ch, buf.length, true⟩
      else
        let more :=
          receive settings os ref sizeToRead fuel (index + 1) left
            (if left < bufLen then left.toNat else bufLen) w ch
        { more with dataRead := buf.length + more.dataRead }

/-- An upload and the number of data bytes it has read. -/
structure UploadState extends ScpState where
  dataRead : Nat

/-- What `getUploadFileData` does after the data: the client's status, the end
of the transfer, and the answer. -/
def finishUpload (settings : Settings) (os : Os) (w : World) (ch : Channel)
    (ref : Nat) : ScpState :=
  match ch.readConfirmationMessage with
  | (ch, some err) => ⟨(Transfer.close settings os w ref).1, ch, .failed err⟩
  | (ch, none) =>
    match Transfer.close settings os w ref with
    | (w, some err) => refuse w ch (os.message err)
    | (w, none) =>
      match ch.sendConfirmationMessage with
      | (ch, true) => ⟨w, ch, .ok⟩
      | (ch, false) => ⟨w, ch, .failed eofText⟩

theorem finishUpload_world (settings : Settings) (os : Os) (w : World) (ch : Channel) (ref : Nat) :
    (finishUpload settings os w ch ref).world = (Transfer.close settings os w ref).1 := by
  unfold finishUpload
  split
  · rfl
  · cases Transfer.close settings os w ref with
    | mk after err =>
      cases err with
      | some code => rfl
      | none =>
        simp only
        split
        · rfl
        · rfl

def getUploadFileData (settings : Settings) (os : Os) (w : World)
    (ch : Channel) (sizeToRead : Int) (ref : Nat) : UploadState :=
  match ch.sendConfirmationMessage with
  | (ch, false) => ⟨⟨(Transfer.close settings os w ref).1, ch, .failed eofText⟩, 0⟩
  | (ch, true) =>
    let received : Received :=
      if sizeToRead > 0 then
        receive settings os ref sizeToRead (ch.pending + 1) 0 sizeToRead
          (min 32768 sizeToRead.toNat) w ch
      else ⟨w, ch, 0, true⟩
    if received.ok then
      ⟨finishUpload settings os received.world received.channel ref, received.dataRead⟩
    else
      ⟨⟨received.world, received.channel, .failed eofText⟩, received.dataRead⟩

namespace ScpCommand

variable (cmd : ScpCommand) (settings : Settings) (os : Os) (w : World) (ch : Channel)

def handleUploadFile (requestPath filePath : Str) (sizeToRead : Int) : UploadState :=
  if ¬ cmd.connection.hasSpace settings os w true then
    ⟨refuse w ch "denying file write due to space limit".toList, 0⟩
  else if
      orFault os.statDir (w.fs.stat (dir requestPath)) = .error .noent ∧
        ¬ cmd.connection.user.hasPerm permCreateDirs then
    ⟨refuse w ch "Permission denied".toList, 0⟩
  else
    match orFault os.openFile (w.fs.create filePath os.attr) with
    | .error err => ⟨refuse w ch (os.message err), 0⟩
    | .ok (fs, file) =>
      let (w, ref) :=
        ((w.setFs fs).setPathPermissions os filePath
          cmd.connection.user.getUID
          cmd.connection.user.getGID).addTransfer
            (cmd.connection.newTransfer os file requestPath .upload true)
      getUploadFileData settings os w ch sizeToRead ref

def handleUpload (rawPath : Str) (sizeToRead : Int) : UploadState :=
  if ¬ cmd.connection.user.hasPerm permUpload then
    ⟨refuse w ch "Permission denied".toList, 0⟩
  else
    match cmd.connection.buildPath w.fs rawPath with
    | .error err => ⟨refuse w ch (err.text os), 0⟩
    | .ok p =>
      match orFault os.stat (w.fs.stat p) with
      | .error .noent =>
        cmd.handleUploadFile settings os w ch p (uploadFilePath settings os p) sizeToRead
      | .error _ => ⟨⟨w, ch, .crash⟩, 0⟩
      | .ok stat =>
        if stat.isDir then
          ⟨refuse w ch ("Attempted to open a directory for writing: ".toList ++ p), 0⟩
        else
          match
            Connection.moveAside settings os w p (uploadFilePath settings os p) with
          | .error err => ⟨refuse w ch (os.message err), 0⟩
          | .ok w =>
            cmd.handleUploadFile settings os
              (w.updateUserQuota settings os.updateQuota cmd.connection.user 0 (-stat.size))
              ch p (uploadFilePath settings os p) sizeToRead

def createDir (dirPath : Str) : ScpState :=
  match orFault (os.mkdir dirPath) (w.fs.mkdir dirPath os.attr) with
  | .error err => refuse w ch (os.message err)
  | .ok fs =>
    ⟨(w.setFs fs).setPathPermissions os dirPath cmd.connection.user.getUID
      cmd.connection.user.getGID, ch, .ok⟩

def handleCreateDir (dirPath : Str) : ScpState :=
  if ¬ cmd.connection.user.hasPerm permCreateDirs then
    refuse w ch "Permission denied".toList
  else
    match cmd.connection.buildPath w.fs dirPath with
    | .error err => refuse w ch (err.text os)
    | .ok p => cmd.createDir os w ch p

/-- `getDestPath`; an empty or a lone quote argument crashes. -/
def getDestPath : Option Str :=
  match cmd.args.getLast? with
  | none => none
  | some [] => none
  | some (first :: rest) =>
    let unquoted : Option Str :=
      if first = '\'' ∨ first = '"' then
        if rest = [] then none else some rest.dropLast
      else some (first :: rest)
    unquoted.map fun destPath =>
      if isAbs destPath then destPath else '/' :: destPath

def getCommandType : Option Str :=
  if cmd.args.length < 2 then none
  else cmd.args[cmd.args.length - 2]?

def sendFileTime : Bool :=
  isStringInSlice "-p".toList cmd.args

def isRecursive : Bool :=
  isStringInSlice "-r".toList cmd.args

/-- `strconv.ParseInt(text, 10, 64)`: the value, or whether it was out of
range. -/
def parseInt (text : Str) : Except Bool Int :=
  let unsigned (negative : Bool) (digits : Str) : Except Bool Int :=
    if digits = [] ∨ ¬ digits.all isDigit then .error false
    else
      let value : Int := digitsValue digits
      let signed := if negative then -value else value
      if -2 ^ 63 ≤ signed ∧ signed < 2 ^ 63 then .ok signed else .error true
  match text with
  | '-' :: digits => unsigned true digits
  | '+' :: digits => unsigned false digits
  | digits => unsigned false digits

def parseIntText (text : Str) (outOfRange : Bool) : Str :=
  "strconv.ParseInt: parsing ".toList ++ os.quote text ++
    (if outOfRange then ": value out of range".toList
      else ": invalid syntax".toList)

/-- `parseUploadMessage`: the size and the name, or the error and the text
that is sent to the client. -/
def parseUploadMessage (command : Str) : Except (Str × Str) (Int × Str) :=
  if ¬ ['C'] <+: command ∧ ¬ ['D'] <+: command then
    let err :=
      "unknown or invalid upload message: ".toList ++ command ++
        " args: [".toList ++ [' '].intercalate cmd.args ++ "] user: ".toList ++
        cmd.connection.user.username
    .error (err, err)
  else
    match command.splitOn ' ' with
    | [_, size, name] =>
      match parseInt size with
      | .error outOfRange =>
        let err := parseIntText os size outOfRange
        .error (err, "Error getting size: ".toList ++ err)
      | .ok value =>
        if name = [] then
          let err :=
            ("error getting name from upload message, " ++ "cannot be empty").toList
          .error (err, err)
        else .ok (value, name)
    | _ =>
      let err := "Error splitting upload message: ".toList ++ command
      .error (err, err)

def getFileUploadDestPath (scpDestPath fileName : Str) : Str :=
  if ¬ cmd.isRecursive ∧ scpDestPath.getLast? ≠ some '/' then
    match cmd.connection.buildPath w.fs scpDestPath with
    | .error _ => scpDestPath
    | .ok p =>
      match orFault os.statDest (w.fs.stat p) with
      | .error _ => scpDestPath
      | .ok stat => if stat.isDir then join scpDestPath fileName else scpDestPath
  else join scpDestPath fileName

/-- `handleUpload` for a file that a message names. -/
abbrev uploadNamed (destPath name : Str) (sizeToRead : Int) : UploadState :=
  cmd.handleUpload settings os w ch (cmd.getFileUploadDestPath os w destPath name) sizeToRead

/-- The loop of `handleRecursiveUpload`; `os` is indexed by the messages. -/
def sink (os : Nat → Os) : Nat → Nat → Int → Str → World → Channel → ScpState
  | 0, _, _, _, w, ch => ⟨w, ch, .outOfFuel⟩
  | fuel + 1, index, numDirs, destPath, w, ch =>
    match ch.sendConfirmationMessage with
    | (ch, false) => ⟨w, ch, .failed eofText⟩
    | (ch, true) =>
      match ch.getNextUploadProtocolMessage with
      | (ch, .error err) => ⟨w, ch, .failed err⟩
      | (ch, .ok command) =>
        if ['E'] <+: command then
          if numDirs - 1 = 0 then
            match ch.sendConfirmationMessage with
            | (ch, false) => ⟨w, ch, .failed eofText⟩
            | (ch, true) => ⟨w, ch, .ok⟩
          else
            sink os fuel (index + 1) (numDirs - 1) (join destPath "..".toList) w ch
        else
          match cmd.parseUploadMessage (os index) command with
          | .error (err, text) => ⟨w, ch.sendErrorMessage text, .failed err⟩
          | .ok (sizeToRead, name) =>
            if ['D'] <+: command then
              let made :=
                cmd.handleCreateDir (os index) w ch (join destPath name)
              if made.result = .ok then
                if numDirs + 1 = 0 then
                  ⟨made.world, made.channel, .ok⟩
                else
                  sink os fuel (index + 1) (numDirs + 1)
                    (join destPath name) made.world made.channel
              else made
            else
              let upload :=
                cmd.handleUpload settings (os index) w ch
                  (cmd.getFileUploadDestPath (os index) w destPath name)
                  sizeToRead
              if upload.result = .ok then
                if numDirs = 0 then
                  ⟨upload.world, upload.channel, .ok⟩
                else
                  sink os fuel (index + 1) numDirs destPath upload.world upload.channel
              else upload.toScpState

def handleRecursiveUpload (os : Nat → Os) : ScpState :=
  match cmd.getDestPath with
  | none => ⟨w, ch, .crash⟩
  | some destPath => cmd.sink settings os (ch.pending + 1) 0 0 destPath w ch

end ScpCommand

end Sshserv.Serv
