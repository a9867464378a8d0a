import Sshserv.Serv.ScpUpload

/-!
# SCP downloads and the command itself

`scpCommand.handleDownload` with its recursion over directories, and
`scpCommand.handle`.  The recursion follows symbolic links, which may form
cycles, so it takes its depth as fuel.
-/

namespace Sshserv.Serv

open Lib UnixPath FileTree DataProvider

def getRelativePath (user : User) (path : Str) : Str :=
  match rel user.getHomeDir path with
  | none => []
  | some relative => '/' :: relative

def modeDigit (mode shift : Nat) : Str :=
  (toString (mode / 2 ^ shift % 8)).toList

/-- `getFileModeAsString`.  The special bits are weighed as the code does. -/
def getFileModeAsString (info : FileInfo) : Str :=
  if info.kind = .regular ∧ info.attr.mode = 0 then "0644".toList
  else
    let special : Nat :=
      (if info.attr.mode.testBit 9 then 1 else 0) +
        (if info.attr.mode.testBit 11 then 2 else 0) +
        (if info.attr.mode.testBit 10 then 4 else 0)
    (toString special).toList ++ modeDigit info.attr.mode 6 ++
      modeDigit info.attr.mode 3 ++ modeDigit info.attr.mode 0

def getDirContents (os : Os) (fs : FileSys) (path : Str) : Except Errno (List FileInfo) :=
  match orFault os.readDir (fs.readDir path) with
  | .error err => .error err
  | .ok files => .ok (os.entryOrder files)

/-- Send a message and wait for the client's status. -/
def exchange (ch : Channel) (message : Str) : Channel × Option Str :=
  match ch.sendProtocolMessage message with
  | (ch, false) => (ch, some eofText)
  | (ch, true) => ch.readConfirmationMessage

/-- The `T` line of a file or a directory. -/
def timeLine (stat : FileInfo) : Str :=
  "T".toList ++ intText stat.attr.mtime ++ " 0 ".toList ++ intText stat.attr.mtime ++ " 0\n".toList

def World.contentOf (w : World) (ref : Nat) : List Char :=
  match w.transfers ref with
  | none => []
  | some t =>
    match t.file.ino with
    | none => []
    | some ino => (w.fs.inode ino).data

/-- The loop of `sendDownloadFileData`.  It ends at the first error of a read
or a write, and the error is forgotten. -/
def sendData (os : Os) (ref : Nat) : Nat → Nat → Int → World → Channel → World × Channel
  | 0, _, _, w, ch => (w, ch)
  | fuel + 1, index, readed, w, ch =>
    match Transfer.readAt os index w ref 32768 readed with
    | (w, _, some _) => (w, ch)
    | (w, buf, none) =>
      if buf = [] then (w, ch)
      else
        match ch.write buf with
        | (ch, false) => (w, ch)
        | (ch, true) => sendData os ref fuel (index + 1) (readed + buf.length) w ch

namespace ScpCommand

variable (cmd : ScpCommand) (settings : Settings)

def sendTime (ch : Channel) (stat : FileInfo) : Channel × Option Str :=
  if cmd.sendFileTime then exchange ch (timeLine stat) else (ch, none)

def sendDownloadProtocolMessages (ch : Channel) (dirPath : Str)
    (stat : FileInfo) : Channel × Option Str :=
  match cmd.sendTime ch stat with
  | (ch, some err) => (ch, some err)
  | (ch, none) =>
    exchange ch ("D".toList ++ getFileModeAsString stat ++ " 0 ".toList ++ base dirPath ++ newLine)

def sendDownloadFileData (os : Os) (w : World) (ch : Channel) (filePath : Str)
    (stat : FileInfo) (ref : Nat) : World × Channel × Option Str :=
  match cmd.sendTime ch stat with
  | (ch, some err) => (w, ch, some err)
  | (ch, none) =>
    match
      exchange ch
        ("C".toList ++ getFileModeAsString stat ++ " ".toList ++
          intText stat.size ++ " ".toList ++ base filePath ++ newLine) with
    | (ch, some err) => (w, ch, some err)
    | (ch, none) =>
      let (w, ch) :=
        sendData os ref ((w.contentOf ref).length + 2) 0 0 w ch
      let (ch, err) := exchange ch okMsg
      (w, ch, err)

def downloadFile (os : Os) (w : World) (ch : Channel) (p : Str) (stat : FileInfo) : ScpState :=
  match orFault os.openFile (w.fs.openRead p) with
  | .error err => refuse w ch (os.message err)
  | .ok file =>
    let (w, ref) :=
      w.addTransfer (cmd.connection.newTransfer os file p .download false)
    match cmd.sendDownloadFileData os w ch p stat ref with
    | (w, ch, some err) => ⟨(Transfer.close settings os w ref).1, ch, .failed err⟩
    | (w, ch, none) =>
      match Transfer.close settings os w ref with
      | (w, some err) => ⟨w, ch, .failed (os.message err)⟩
      | (w, none) => ⟨w, ch, .ok⟩

/-- Run `download` on paths one after the other, up to the first failure. -/
def downloadEach (download : World → Channel → Str → ScpState) :
    List Str → World → Channel → ScpState
  | [], w, ch => ⟨w, ch, .ok⟩
  | path :: rest, w, ch =>
    let one := download w ch path
    if one.result = .ok then
      downloadEach download rest one.world one.channel
    else one

/-- The error of a loop over entries is sent to the client once more. -/
def reportLoop (state : ScpState) : ScpState :=
  match state.result with
  | .failed err => refuse state.world state.channel err
  | _ => state

/-- `handleRecursiveDownload`, with the download of one path as argument:
files and links first, then directories. -/
def handleRecursiveDownload (download : World → Channel → Str → ScpState) (os : Os) (w : World)
    (ch : Channel) (dirPath : Str) (stat : FileInfo) : ScpState :=
  if ¬ cmd.isRecursive then
    refuse w ch "Unable to send directory for non recursive copy".toList
  else
    match cmd.sendDownloadProtocolMessages ch dirPath stat with
    | (ch, some err) => ⟨w, ch, .failed err⟩
    | (ch, none) =>
      match getDirContents os w.fs dirPath with
      | .error err => refuse w ch (os.message err)
      | .ok files =>
        let pathOf (file : FileInfo) : Str :=
          getRelativePath cmd.connection.user (join dirPath file.name)
        let sentFiles :=
          downloadEach download ((files.filter fun file => file.kind ≠ .dir).map pathOf) w ch
        if sentFiles.result ≠ .ok then reportLoop sentFiles
        else
          let sentDirs :=
            downloadEach download
              ((files.filter fun file => file.kind = .dir).map pathOf)
              sentFiles.world sentFiles.channel
          if sentDirs.result ≠ .ok then reportLoop sentDirs
          else
            match exchange sentDirs.channel "E\n".toList with
            | (ch, some err) => ⟨sentDirs.world, ch, .failed err⟩
            | (ch, none) => ⟨sentDirs.world, ch, .ok⟩

/-- `handleDownload`; `os` is indexed by the path. -/
def handleDownload (os : Str → Os) : Nat → World → Channel → Str → ScpState
  | 0, w, ch, _ => ⟨w, ch, .outOfFuel⟩
  | fuel + 1, w, ch, filePath =>
    if ¬ cmd.connection.user.hasPerm permDownload then
      refuse w ch "Permission denied".toList
    else
      match cmd.connection.buildPath w.fs filePath with
      | .error _ => refuse w ch "Invalid file path".toList
      | .ok p =>
        match orFault (os filePath).stat (w.fs.stat p) with
        | .error .noent => refuse w ch ((os filePath).message .noent)
        | .error _ => ⟨w, ch, .crash⟩
        | .ok stat =>
          if stat.isDir then
            cmd.handleRecursiveDownload (handleDownload os fuel) (os filePath) w ch p stat
          else cmd.downloadFile settings (os filePath) w ch p stat

/-- What one command meets outside: a sink sees one `Os` for each message, a
source one for each path; `depth` bounds the recursion of the source. -/
structure ScpEnv where
  sink : Nat → Os
  source : Str → Os
  depth : Nat

def handle (env : ScpEnv) (w : World) (ch : Channel) : ScpState :=
  match cmd.getDestPath, cmd.getCommandType with
  | some destPath, some commandType =>
    if commandType = "-t".toList ∨ commandType = "-pt".toList then
      let state := cmd.handleRecursiveUpload settings w ch env.sink
      if state.result = .ok then
        { state with channel := state.channel.sendExitStatus false }
      else state
    else if commandType = "-f".toList ∨ commandType = "-pf".toList then
      match ch.readConfirmationMessage with
      | (ch, some err) => ⟨w, ch, .failed err⟩
      | (ch, none) =>
        let state :=
          cmd.handleDownload settings env.source env.depth w ch destPath
        if state.result = .ok then
          { state with channel := state.channel.sendExitStatus false }
        else state
    else
      ⟨w, ch.sendExitStatus true,
        .failed
          ("scp command not supported, args: [".toList ++ [' '].intercalate cmd.args ++ "]".toList)⟩
  | _, _ => ⟨w, ch, .crash⟩

end ScpCommand

section Keeping

variable {os : Os} {ref : Nat}

/-- What the reads and the writes of the loop keep, the loop keeps. -/
theorem sendData_keeps {kept : World → Channel → Prop}
    (reads : ∀ index off w ch, kept w ch → kept (Transfer.readAt os index w ref 32768 off).1 ch)
    (writes : ∀ w ch buf, kept w ch → kept w (ch.write buf).1)
    (fuel index : Nat) (readed : Int) {w : World} {ch : Channel} (start : kept w ch) :
    kept (sendData os ref fuel index readed w ch).1 (sendData os ref fuel index readed w ch).2 := by
  induction fuel generalizing index readed w ch with
  | zero => exact start
  | succ fuel ih =>
    have read := reads index readed w ch start
    rw [sendData]
    rcases call : Transfer.readAt os index w ref 32768 readed with
      ⟨now, buf, _ | err⟩
    · rw [call] at read
      have written := writes now ch buf read
      dsimp only
      split
      · exact read
      · rcases sent : ch.write buf with ⟨next, _ | _⟩
        · rw [sent] at written
          exact written
        · rw [sent] at written
          exact ih _ _ written
    · rw [call] at read
      exact read

theorem sendDownloadFileData_keeps {kept : World → Prop}
    (reads : ∀ index off w, kept w → kept (Transfer.readAt os index w ref 32768 off).1)
    (cmd : ScpCommand) {w : World} (start : kept w) (ch : Channel)
    (filePath : Str) (stat : FileInfo) :
    kept (cmd.sendDownloadFileData os w ch filePath stat ref).1 := by
  unfold ScpCommand.sendDownloadFileData
  split
  · exact start
  split
  · exact start
  · exact @sendData_keeps os ref (fun now _ => kept now)
      (fun index off now _ => reads index off now) (fun _ _ _ same => same)
      _ _ _ w _ start

end Keeping

end Sshserv.Serv
