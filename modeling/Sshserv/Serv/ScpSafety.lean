import Sshserv.Serv.ScpCommand
import Sshserv.Serv.ScpSink

/-!
# Crashes of an SCP command

An index out of range or a nil dereference in the goroutine of a command stops
the server.  The last argument is taken apart without looking at its length,
and both directions of a transfer go on after some errors of `os.Stat`.
-/

namespace Sshserv.Serv

open Lib UnixPath FileTree DataProvider

def statFails (result : Except Errno FileInfo) : Bool :=
  match result with
  | .ok _ => false
  | .error err => !isNotExist err

theorem statFails_iff (result : Except Errno FileInfo) :
    statFails result = true ↔ ∃ err, result = .error err ∧ err ≠ .noent := by
  cases result with
  | ok info => simp [statFails]
  | error err => simp [statFails, isNotExist]

/-- The next message names a file whose `os.Stat` fails. -/
def uploadStatFails (cmd : ScpCommand) (os : Nat → Os) (s : SinkState) : Bool :=
  match cmd.nextMessage os s with
  | some (.file _ name) =>
    match cmd.connection.buildPath s.world.fs
        (cmd.getFileUploadDestPath (os s.index) s.world s.destPath name) with
    | .ok p =>
      cmd.connection.user.hasPerm permUpload &&
        statFails (orFault (os s.index).stat (s.world.fs.stat p))
    | .error _ => false
  | _ => false

section Upload

variable {cmd : ScpCommand} {settings : Settings} {os : Nat → Os}

theorem handleUpload_crash_iff (settings : Settings) {s : SinkState} {ch : Channel} {size : Int}
    {name : Str} (got : cmd.received os s = (ch, .ok (.file size name))) :
    (cmd.uploadNamed settings (os s.index) s.world ch s.destPath name size).result = .crash ↔
      uploadStatFails cmd os s = true := by
  rw [(handleUpload_result cmd settings (os s.index) s.world ch _ size).2,
    uploadStatFails, nextMessage_of_received got]
  cases built : cmd.connection.buildPath s.world.fs
      (cmd.getFileUploadDestPath (os s.index) s.world s.destPath name) with
  | error err => simp [built]
  | ok p => simp [built, statFails_iff]

/-- A turn crashes exactly if the file it is about cannot be looked at. -/
theorem turn_crash_iff (cmd : ScpCommand) (settings : Settings) (os : Nat → Os) (s : SinkState) :
    (∃ state, cmd.turn settings os s = .stop state ∧ state.result = .crash) ↔
      uploadStatFails cmd os s = true := by
  constructor
  · intro crashes
    obtain ⟨state, stops, crash⟩ := crashes
    rcases turn_stop_result stops with
      (done | ⟨text, failed⟩) | ⟨ch, size, name, got, rfl⟩
    · rw [done] at crash
      cases crash
    · rw [failed] at crash
      cases crash
    · exact (handleUpload_crash_iff settings got).mp crash
  · intro fails
    rcases got : cmd.received os s with ⟨ch, err | message⟩
    · simp [uploadStatFails, ScpCommand.nextMessage, got, Except.toOption] at fails
    cases message with
    | endDir => simp [uploadStatFails, nextMessage_of_received got] at fails
    | dir name => simp [uploadStatFails, nextMessage_of_received got] at fails
    | invalid err text => simp [uploadStatFails, nextMessage_of_received got] at fails
    | file size name =>
      have crash := (handleUpload_crash_iff settings got).mpr fails
      refine ⟨(cmd.uploadNamed settings (os s.index) s.world ch s.destPath name size).toScpState,
        ?_, crash⟩
      simp only [ScpCommand.turn, got, ScpCommand.handleMessage, crash]
      rfl

theorem sinkFrom_crash_iff (cmd : ScpCommand) (settings : Settings) (os : Nat → Os) (fuel : Nat)
    (names : List Str) (s : SinkState) :
    (cmd.sinkFrom settings os fuel s).result = .crash ↔
      ∃ x ∈ cmd.statesFrom settings os fuel names s, uploadStatFails cmd os x.2 = true := by
  induction fuel generalizing names s with
  | zero => simp [ScpCommand.sinkFrom, ScpCommand.sink, ScpCommand.statesFrom]
  | succ fuel ih =>
    have here := turn_crash_iff cmd settings os s
    rw [ScpCommand.sinkFrom_succ, ScpCommand.statesFrom]
    simp only [List.mem_cons, exists_eq_or_imp]
    cases next : cmd.turn settings os s with
    | stop state =>
      rw [next] at here
      simp only [Turn.stop.injEq, exists_eq_left'] at here
      rw [← here]
      rcases cmd.received os s with ⟨ch, err | message⟩
      · simp
      · simp
    | next after =>
      rw [next] at here
      have fine : ¬ uploadStatFails cmd os s = true := by
        rw [← here]
        simp
      obtain ⟨ch, message, got, _⟩ := turn_next_cases next
      rw [got, ih (message.track names) after]
      simp [fine]

end Upload

namespace ScpCommand

theorem downloadEach_append (download : World → Channel → Str → ScpState) (first second : List Str)
    (w : World) (ch : Channel) :
    downloadEach download (first ++ second) w ch =
      if (downloadEach download first w ch).result = .ok then
        downloadEach download second (downloadEach download first w ch).world
          (downloadEach download first w ch).channel
      else downloadEach download first w ch := by
  induction first generalizing w ch with
  | nil => simp [downloadEach]
  | cons path rest ih =>
    simp only [List.cons_append, downloadEach]
    split
    · exact ih _ _
    · rfl

variable (cmd : ScpCommand) (settings : Settings)

/-- The paths that the download of a directory goes through, files and links
first, and the channel from which it does so. -/
def entriesOf (os : Os) (w : World) (ch : Channel) (dirPath : Str)
    (stat : FileInfo) : Option (Channel × List Str) :=
  if ¬ cmd.isRecursive then none
  else
    match cmd.sendDownloadProtocolMessages ch dirPath stat with
    | (_, some _) => none
    | (ch, none) =>
      match getDirContents os w.fs dirPath with
      | .error _ => none
      | .ok files =>
        let pathOf (file : FileInfo) : Str :=
          getRelativePath cmd.connection.user (join dirPath file.name)
        some (ch,
          (files.filter fun file => file.kind ≠ .dir).map pathOf ++
            (files.filter fun file => file.kind = .dir).map pathOf)

/-- What the download of a directory does after its entries. -/
def endDirectory (sent : ScpState) : ScpState :=
  if sent.result ≠ .ok then reportLoop sent
  else
    match exchange sent.channel "E\n".toList with
    | (ch, some err) => ⟨sent.world, ch, .failed err⟩
    | (ch, none) => ⟨sent.world, ch, .ok⟩

/-- The calls of `handleDownload` for paths one after the other, given those
for one path. -/
def callsEach (download : World → Channel → Str → ScpState)
    (calls : World → Channel → Str → List (World × Channel × Str)) :
    List Str → World → Channel → List (World × Channel × Str)
  | [], _, _ => []
  | path :: rest, w, ch =>
    calls w ch path ++
      if (download w ch path).result = .ok then
        callsEach download calls rest (download w ch path).world (download w ch path).channel
      else []

/-- The calls of `handleDownload` that a download makes, itself first. -/
def callsOf (os : Str → Os) : Nat → World → Channel → Str → List (World × Channel × Str)
  | 0, _, _, _ => []
  | fuel + 1, w, ch, filePath =>
    (w, ch, filePath) ::
      match cmd.connection.buildPath w.fs filePath with
      | .error _ => []
      | .ok p =>
        match orFault (os filePath).stat (w.fs.stat p) with
        | .error _ => []
        | .ok stat =>
          if cmd.connection.user.hasPerm permDownload ∧ stat.isDir then
            match cmd.entriesOf (os filePath) w ch p stat with
            | none => []
            | some (ch, paths) =>
              callsEach (cmd.handleDownload settings os fuel) (callsOf os fuel) paths w ch
          else []

end ScpCommand

/-- A call of `handleDownload` whose `os.Stat` fails. -/
def downloadStatFails (cmd : ScpCommand) (os : Str → Os) (call : World × Channel × Str) : Bool :=
  match cmd.connection.buildPath call.1.fs call.2.2 with
  | .ok p =>
    cmd.connection.user.hasPerm permDownload &&
      statFails (orFault (os call.2.2).stat (call.1.fs.stat p))
  | .error _ => false

section Download

variable {cmd : ScpCommand} {settings : Settings} {os : Str → Os}

theorem downloadEach_crash_iff {download : World → Channel → Str → ScpState}
    {calls : World → Channel → Str → List (World × Channel × Str)}
    {bad : World × Channel × Str → Prop}
    (one : ∀ w ch path, (download w ch path).result = .crash ↔ ∃ call ∈ calls w ch path, bad call)
    (paths : List Str) (w : World) (ch : Channel) :
    (ScpCommand.downloadEach download paths w ch).result = .crash ↔
      ∃ call ∈ ScpCommand.callsEach download calls paths w ch, bad call := by
  induction paths generalizing w ch with
  | nil => simp [ScpCommand.downloadEach, ScpCommand.callsEach]
  | cons path rest ih =>
    have first := one w ch path
    simp only [ScpCommand.downloadEach, ScpCommand.callsEach,
      List.mem_append, or_and_right, exists_or]
    by_cases done : (download w ch path).result = .ok
    · rw [if_pos done, if_pos done, ih, ← first, done]
      simp
    · rw [if_neg done, if_neg done, ← first]
      simp

theorem handleRecursiveDownload_none (download : World → Channel → Str → ScpState) {os : Os}
    {w : World} {ch : Channel} {dirPath : Str} {stat : FileInfo}
    (refused : cmd.entriesOf os w ch dirPath stat = none) :
    ∃ text, (cmd.handleRecursiveDownload download os w ch dirPath stat).result = .failed text := by
  unfold ScpCommand.entriesOf at refused
  unfold ScpCommand.handleRecursiveDownload
  split
  · exact ⟨_, rfl⟩
  rename_i recursive
  rw [if_neg recursive] at refused
  rcases sent : cmd.sendDownloadProtocolMessages ch dirPath stat with
    ⟨next, _ | err⟩
  · rw [sent] at refused
    simp only at refused ⊢
    cases listed : getDirContents os w.fs dirPath with
    | error err => exact ⟨_, rfl⟩
    | ok files => simp [listed] at refused
  · exact ⟨err, rfl⟩

theorem handleRecursiveDownload_some {download : World → Channel → Str → ScpState} {os : Os}
    {w : World} {ch next : Channel} {dirPath : Str} {stat : FileInfo} {paths : List Str}
    (entries : cmd.entriesOf os w ch dirPath stat = some (next, paths)) :
    cmd.handleRecursiveDownload download os w ch dirPath stat =
      ScpCommand.endDirectory (ScpCommand.downloadEach download paths w next) := by
  unfold ScpCommand.entriesOf at entries
  unfold ScpCommand.handleRecursiveDownload
  split at entries
  · cases entries
  rename_i recursive
  rw [if_neg recursive]
  rcases sent : cmd.sendDownloadProtocolMessages ch dirPath stat with
    ⟨after, _ | err⟩
  swap
  · simp [sent] at entries
  rw [sent] at entries
  simp only at entries ⊢
  cases listed : getDirContents os w.fs dirPath with
  | error err => simp [listed] at entries
  | ok files =>
    rw [listed] at entries
    simp only [Option.some.injEq, Prod.mk.injEq] at entries
    obtain ⟨rfl, rfl⟩ := entries
    rw [ScpCommand.downloadEach_append]
    dsimp only
    generalize
      (files.filter fun file => file.kind ≠ .dir).map (fun file =>
        getRelativePath cmd.connection.user (join dirPath file.name)) = first
    generalize
      (files.filter fun file => file.kind = .dir).map (fun file =>
        getRelativePath cmd.connection.user (join dirPath file.name)) = second
    generalize equal : ScpCommand.downloadEach download first w after = sent
    by_cases done : sent.result = .ok
    · have more :
          (if sent.result = .ok then
            ScpCommand.downloadEach download second sent.world sent.channel
          else sent) = ScpCommand.downloadEach download second sent.world sent.channel :=
        if_pos done
      exact (if_neg (not_not_intro done)).trans (congrArg ScpCommand.endDirectory more).symm
    · have nothing :
          (if sent.result = .ok then
            ScpCommand.downloadEach download second sent.world sent.channel
          else sent) = sent :=
        if_neg done
      have failed : ScpCommand.endDirectory sent = ScpCommand.reportLoop sent := if_pos done
      exact (if_pos done).trans ((congrArg ScpCommand.endDirectory nothing).trans failed).symm

theorem handleRecursiveDownload_crash_iff
    (cmd : ScpCommand) (download : World → Channel → Str → ScpState) (os : Os)
    (w : World) (ch : Channel) (dirPath : Str) (stat : FileInfo) :
    (cmd.handleRecursiveDownload download os w ch dirPath stat).result = .crash ↔
      ∃ next paths, cmd.entriesOf os w ch dirPath stat = some (next, paths) ∧
        (ScpCommand.downloadEach download paths w next).result = .crash := by
  cases entries : cmd.entriesOf os w ch dirPath stat with
  | none =>
    obtain ⟨text, failed⟩ := handleRecursiveDownload_none download entries
    simp [failed]
  | some pair =>
    obtain ⟨next, paths⟩ := pair
    rw [handleRecursiveDownload_some entries]
    simp only [Option.some.injEq, Prod.mk.injEq, and_assoc, exists_eq_left', exists_and_left]
    generalize ScpCommand.downloadEach download paths w next = sent
    unfold ScpCommand.endDirectory
    by_cases done : sent.result = .ok
    · rw [if_neg (by simp [done]), done]
      rcases exchange sent.channel "E\n".toList with ⟨last, _ | err⟩
      · simp
      · simp
    · rw [if_pos done]
      unfold ScpCommand.reportLoop
      cases result : sent.result with
      | ok => exact absurd result done
      | failed err => simp [refuse]
      | crash => simp [result]
      | outOfFuel => simp [result]

theorem downloadFile_result (cmd : ScpCommand) (settings : Settings) (os : Os) (w : World)
    (ch : Channel) (p : Str) (stat : FileInfo) :
    (cmd.downloadFile settings os w ch p stat).result ≠ .crash := by
  unfold ScpCommand.downloadFile
  cases orFault os.openFile (w.fs.openRead p) with
  | error err => simp [refuse]
  | ok file =>
    simp only
    rcases cmd.sendDownloadFileData os _ ch p stat _ with ⟨after, next, _ | err⟩
    · simp only
      rcases Transfer.close settings os after _ with ⟨last, _ | err⟩
      · simp
      · simp
    · simp

theorem handleDownload_crash_iff
    (cmd : ScpCommand) (settings : Settings) (os : Str → Os) (fuel : Nat) :
    ∀ (w : World) (ch : Channel) (filePath : Str),
      (cmd.handleDownload settings os fuel w ch filePath).result = .crash ↔
        ∃ call ∈ cmd.callsOf settings os fuel w ch filePath,
          downloadStatFails cmd os call = true := by
  induction fuel with
  | zero =>
    intro w ch filePath
    simp [ScpCommand.handleDownload, ScpCommand.callsOf]
  | succ fuel ih =>
    intro w ch filePath
    rw [ScpCommand.handleDownload, ScpCommand.callsOf]
    simp only [List.mem_cons, exists_eq_or_imp]
    by_cases permitted : cmd.connection.user.hasPerm permDownload = true
    swap
    · have never : ∀ call, downloadStatFails cmd os call = false := by
        intro call
        unfold downloadStatFails
        split <;> simp [permitted]
      simp [permitted, refuse, never]
    rw [if_neg (not_not_intro permitted)]
    have here :
        downloadStatFails cmd os (w, ch, filePath) =
          match cmd.connection.buildPath w.fs filePath with
          | .ok p => statFails (orFault (os filePath).stat (w.fs.stat p))
          | .error _ => false := by
      simp [downloadStatFails, permitted]
    rw [here]
    cases cmd.connection.buildPath w.fs filePath with
    | error err => simp [refuse]
    | ok p =>
      simp only
      cases orFault (os filePath).stat (w.fs.stat p) with
      | error err =>
        by_cases absent : err = .noent
        · subst absent
          simp [refuse, statFails, isNotExist]
        · have crash : statFails (.error err) = true := (statFails_iff _).mpr ⟨err, rfl, absent⟩
          cases err <;> simp_all
      | ok stat =>
        simp only [statFails, Bool.false_eq_true, false_or, permitted, true_and]
        by_cases directory : stat.isDir = true
        · rw [if_pos directory, if_pos directory, handleRecursiveDownload_crash_iff]
          cases cmd.entriesOf (os filePath) w ch p stat with
          | none => simp
          | some pair =>
            obtain ⟨next, paths⟩ := pair
            have loop := downloadEach_crash_iff ih paths w next
            constructor
            · intro crashes
              obtain ⟨_, _, same, crash⟩ := crashes
              cases same
              exact loop.mp crash
            · intro bad
              exact ⟨next, paths, rfl, loop.mpr bad⟩
        · rw [if_neg directory, if_neg directory]
          simp [downloadFile_result]

end Download

namespace ScpCommand

variable (cmd : ScpCommand) (settings : Settings)

def isUpload : Bool :=
  cmd.getCommandType = some "-t".toList || cmd.getCommandType = some "-pt".toList

def isDownload : Bool :=
  cmd.getCommandType = some "-f".toList || cmd.getCommandType = some "-pf".toList

/-- The calls of `handleDownload` that a download command makes. -/
def sourceCalls (env : ScpEnv) (w : World) (ch : Channel) : List (World × Channel × Str) :=
  match cmd.getDestPath, ch.readConfirmationMessage with
  | some destPath, (ch, none) => cmd.callsOf settings env.source env.depth w ch destPath
  | _, _ => []

/-- The last argument has a character besides an opening quote. -/
def destGiven : Bool :=
  cmd.args.getLast?.all fun last =>
    last ≠ [] && last ≠ ['\''] && last ≠ ['"']

end ScpCommand

theorem getDestPath_isSome_iff {cmd : ScpCommand} (given : cmd.args ≠ []) :
    cmd.getDestPath.isSome = true ↔ cmd.destGiven = true := by
  unfold ScpCommand.getDestPath ScpCommand.destGiven
  cases last : cmd.args.getLast? with
  | none => exact absurd (List.getLast?_eq_none_iff.mp last) given
  | some text =>
    cases text with
    | nil => simp
    | cons first rest =>
      by_cases quoted : first = '\'' ∨ first = '"'
      · by_cases lone : rest = []
        · rcases quoted with rfl | rfl
          · simp [lone]
          · simp [lone]
        · simp [quoted, lone]
      · have plain := not_or.mp quoted
        simp [plain]

theorem getCommandType_isSome {cmd : ScpCommand} (enough : 2 ≤ cmd.args.length) :
    ∃ commandType, cmd.getCommandType = some commandType := by
  have inside : cmd.args.length - 2 < cmd.args.length := by omega
  refine ⟨cmd.args[cmd.args.length - 2], ?_⟩
  unfold ScpCommand.getCommandType
  rw [if_neg (by omega), List.getElem?_eq_getElem inside]

private theorem exitStatus_crash_iff (state : ScpState) :
    (if state.result = .ok then
        { state with channel := state.channel.sendExitStatus false }
      else state).result = .crash ↔
      state.result = .crash := by
  by_cases done : state.result = .ok
  · simp [done]
  · simp [done]

/-- A command does not crash the server exactly if its last argument can be
taken apart and no `os.Stat` of a file that is sent or asked for fails with
another error than that the file is missing. -/
theorem scp_safe_iff (cmd : ScpCommand) (enough : 2 ≤ cmd.args.length) (settings : Settings)
    (env : ScpCommand.ScpEnv) (w : World) (ch : Channel) :
    (cmd.handle settings env w ch).result ≠ .crash ↔
      cmd.destGiven = true ∧
        (cmd.isUpload = true →
          ∀ x ∈ cmd.uploadStates settings w ch env.sink, uploadStatFails cmd env.sink x.2 = false) ∧
        (cmd.isDownload = true →
          ∀ call ∈ cmd.sourceCalls settings env w ch,
            downloadStatFails cmd env.source call = false) := by
  have given : cmd.args ≠ [] := by
    intro empty
    rw [empty] at enough
    simp at enough
  obtain ⟨commandType, type⟩ := getCommandType_isSome enough
  rw [← getDestPath_isSome_iff given]
  unfold ScpCommand.handle
  cases dest : cmd.getDestPath with
  | none => simp
  | some destPath =>
    rw [type]
    simp only [Option.isSome_some, true_and]
    by_cases upload : commandType = "-t".toList ∨ commandType = "-pt".toList
    · have uploads : cmd.isUpload = true := by
        simpa [ScpCommand.isUpload, type] using upload
      have notDownload : cmd.isDownload = false := by
        rcases upload with rfl | rfl
        · simp [ScpCommand.isDownload, type]
        · simp [ScpCommand.isDownload, type]
      have loop :=
        sinkFrom_crash_iff cmd settings env.sink (ch.pending + 1) [] ⟨0, 0, destPath, w, ch⟩
      have states :
          cmd.uploadStates settings w ch env.sink =
            cmd.statesFrom settings env.sink (ch.pending + 1) [] ⟨0, 0, destPath, w, ch⟩ := by
        simp [ScpCommand.uploadStates, dest]
      have same :
          cmd.handleRecursiveUpload settings w ch env.sink =
            cmd.sinkFrom settings env.sink (ch.pending + 1) ⟨0, 0, destPath, w, ch⟩ := by
        simp [ScpCommand.handleRecursiveUpload, dest, ScpCommand.sinkFrom]
      rw [if_pos upload, Ne, exitStatus_crash_iff, same, loop, states]
      simp [uploads, notDownload]
    have notUpload : cmd.isUpload = false := by
      simpa [ScpCommand.isUpload, type] using upload
    rw [if_neg upload]
    by_cases download : commandType = "-f".toList ∨ commandType = "-pf".toList
    · have downloads : cmd.isDownload = true := by
        simpa [ScpCommand.isDownload, type] using download
      rw [if_pos download]
      rcases status : ch.readConfirmationMessage with ⟨next, _ | err⟩
      · have calls :
            cmd.sourceCalls settings env w ch =
              cmd.callsOf settings env.source env.depth w next destPath := by
          simp [ScpCommand.sourceCalls, dest, status]
        simp only [Ne, exitStatus_crash_iff, handleDownload_crash_iff, calls]
        simp [notUpload, downloads]
      · simp [notUpload, ScpCommand.sourceCalls, dest, status]
    · have notDownload : cmd.isDownload = false := by
        simpa [ScpCommand.isDownload, type] using download
      rw [if_neg download]
      simp [notUpload, notDownload]

def quietEnv : ScpCommand.ScpEnv :=
  ⟨fun _ => sampleOs, fun _ => sampleOs, 8⟩

/-- A directory with a file of three bytes. -/
theorem tree_upload_safe :
    (sinkCommand.handle defaultSettings quietEnv sampleWorld
      (clientSends ["D0755 0 d\n", "C0644 3 f\n", "abc", "\x00", "E\n"])).result ≠
      .crash :=
  (scp_safe_iff _ (by decide) _ _ _ _).mpr
    ⟨by decide, fun _ => by decide +kernel, fun _ => by decide +kernel⟩

/-- `scp -t ''`. -/
theorem empty_argument_crashes :
    (ScpCommand.handle
      ⟨sinkCommand.connection, ["-t".toList, [] ]⟩ defaultSettings quietEnv
        sampleWorld (clientSends [])).result = .crash := by
  decide

end Sshserv.Serv
