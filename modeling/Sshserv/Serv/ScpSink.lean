import Sshserv.Serv.ScpRuns

/-!
# The sink loop, turn by turn

One turn of `handleRecursiveUpload`: the confirmation, one message and what is
done about it.  `statesFrom` lists the states in which the turns begin, each
with the directories that are open according to the messages so far.
-/

namespace Sshserv.Serv

open Lib UnixPath FileTree DataProvider

/-- What a protocol message asks for. -/
inductive Message where
  | endDir
  | dir (name : Str)
  | file (size : Int) (name : Str)
  | invalid (err text : Str)
  deriving DecidableEq

/-- The variables of the loop. -/
structure SinkState where
  index : Nat
  numDirs : Int
  destPath : Str
  world : World
  channel : Channel

/-- One turn ends the loop or goes on to the next one. -/
inductive Turn where
  | stop (state : ScpState)
  | next (state : SinkState)

namespace ScpCommand

variable (cmd : ScpCommand) (settings : Settings)

def decode (os : Os) (command : Str) : Message :=
  if ['E'] <+: command then .endDir
  else
    match cmd.parseUploadMessage os command with
    | .error (err, text) => .invalid err text
    | .ok (size, name) => if ['D'] <+: command then .dir name else .file size name

/-- The message that a turn reads, or the error that ends the loop. -/
def received (os : Nat → Os) (s : SinkState) : Channel × Except Str Message :=
  match s.channel.sendConfirmationMessage with
  | (ch, false) => (ch, .error eofText)
  | (ch, true) =>
    match ch.getNextUploadProtocolMessage with
    | (ch, .error err) => (ch, .error err)
    | (ch, .ok command) => (ch, .ok (cmd.decode (os s.index) command))

/-- What a turn does about a message that has been read from the channel. -/
def handleMessage (os : Os) (s : SinkState) : Message → Turn
  | .endDir =>
    if s.numDirs - 1 = 0 then
      match s.channel.sendConfirmationMessage with
      | (ch, false) => .stop ⟨s.world, ch, .failed eofText⟩
      | (ch, true) => .stop ⟨s.world, ch, .ok⟩
    else
      .next ⟨s.index + 1, s.numDirs - 1, join s.destPath "..".toList, s.world, s.channel⟩
  | .invalid err text => .stop ⟨s.world, s.channel.sendErrorMessage text, .failed err⟩
  | .dir name =>
    let made :=
      cmd.handleCreateDir os s.world s.channel (join s.destPath name)
    if made.result = .ok then
      if s.numDirs + 1 = 0 then .stop ⟨made.world, made.channel, .ok⟩
      else
        .next ⟨s.index + 1, s.numDirs + 1, join s.destPath name, made.world, made.channel⟩
    else .stop made
  | .file size name =>
    let upload :=
      cmd.handleUpload settings os s.world s.channel
        (cmd.getFileUploadDestPath os s.world s.destPath name) size
    if upload.result = .ok then
      if s.numDirs = 0 then .stop ⟨upload.world, upload.channel, .ok⟩
      else
        .next ⟨s.index + 1, s.numDirs, s.destPath, upload.world, upload.channel⟩
    else .stop upload.toScpState

def turn (os : Nat → Os) (s : SinkState) : Turn :=
  match cmd.received os s with
  | (ch, .error err) => .stop ⟨s.world, ch, .failed err⟩
  | (ch, .ok message) => cmd.handleMessage settings (os s.index) { s with channel := ch } message

def sinkFrom (os : Nat → Os) (fuel : Nat) (s : SinkState) : ScpState :=
  cmd.sink settings os fuel s.index s.numDirs s.destPath s.world s.channel

theorem sinkFrom_succ (os : Nat → Os) (fuel : Nat) (s : SinkState) :
    cmd.sinkFrom settings os (fuel + 1) s =
      match cmd.turn settings os s with
      | .stop state => state
      | .next after => cmd.sinkFrom settings os fuel after := by
  unfold sinkFrom turn received
  rw [sink]
  rcases s.channel.sendConfirmationMessage with ⟨ch, _ | _⟩
  · rfl
  simp only
  rcases ch.getNextUploadProtocolMessage with ⟨next, err | command⟩
  · rfl
  simp only [decode]
  by_cases ends : ['E'] <+: command
  · simp only [ends, if_true, handleMessage]
    split
    · rcases next.sendConfirmationMessage with ⟨last, _ | _⟩
      · rfl
      · rfl
    · rfl
  · simp only [ends, if_false]
    rcases cmd.parseUploadMessage (os s.index) command with
      ⟨err, text⟩ | ⟨size, name⟩
    · rfl
    · by_cases opens : ['D'] <+: command
      · simp only [opens, if_true, handleMessage]
        split
        · split
          · rfl
          · rfl
        · rfl
      · simp only [opens, if_false, handleMessage]
        split
        · split
          · rfl
          · rfl
        · rfl

end ScpCommand

/-! ## The loop ends -/

section Pending

variable (settings : Settings) (os : Os)

theorem receive_pending (ref : Nat) (sizeToRead : Int) (fuel index : Nat) (remaining : Int)
    (bufLen : Nat) (w : World) (ch : Channel) :
    (receive settings os ref sizeToRead fuel index remaining bufLen w
      ch).channel.pending ≤ ch.pending := by
  induction fuel generalizing index remaining bufLen w ch with
  | zero => exact (ch.sendErrorMessage_pending eofText).le
  | succ fuel ih =>
    rw [receive]
    cases read : ch.read bufLen with
    | none => exact (ch.sendErrorMessage_pending eofText).le
    | some result =>
      obtain ⟨buf, next⟩ := result
      have shorter : next.pending ≤ ch.pending := Channel.read_pending read
      simp only
      split
      · exact shorter
      · exact (ih _ _ _ _ _).trans shorter

theorem finishUpload_pending (w : World) (ch : Channel) (ref : Nat) :
    (finishUpload settings os w ch ref).channel.pending ≤ ch.pending := by
  have shorter := ch.readConfirmationMessage_pending
  unfold finishUpload
  rcases status : ch.readConfirmationMessage with ⟨next, _ | err⟩
  · rw [status] at shorter
    simp only
    rcases Transfer.close settings os w ref with ⟨after, _ | err⟩
    · have kept := next.sendConfirmationMessage_pending
      rcases answer : next.sendConfirmationMessage with ⟨last, _ | _⟩
      · rw [answer] at kept
        exact kept.le.trans shorter
      · rw [answer] at kept
        exact kept.le.trans shorter
    · exact (next.sendErrorMessage_pending _).le.trans shorter
  · rw [status] at shorter
    exact shorter

theorem getUploadFileData_pending (w : World) (ch : Channel) (sizeToRead : Int) (ref : Nat) :
    (getUploadFileData settings os w ch sizeToRead ref).channel.pending ≤ ch.pending := by
  have kept := ch.sendConfirmationMessage_pending
  unfold getUploadFileData
  rcases sent : ch.sendConfirmationMessage with ⟨next, _ | _⟩
  · rw [sent] at kept
    exact kept.le
  · rw [sent] at kept
    simp only at kept ⊢
    rw [← kept]
    by_cases data : sizeToRead > 0
    · simp only [data, if_true]
      have read :=
        receive_pending settings os ref sizeToRead (next.pending + 1) 0
          sizeToRead (min 32768 sizeToRead.toNat) w next
      generalize
        receive settings os ref sizeToRead (next.pending + 1) 0 sizeToRead
          (min 32768 sizeToRead.toNat) w next = taken at read ⊢
      split
      · exact (finishUpload_pending settings os _ _ _).trans read
      · exact read
    · simp only [data, if_false, if_true]
      exact finishUpload_pending settings os _ _ _

end Pending

section Turns

variable {cmd : ScpCommand} {settings : Settings}

variable {ch : Channel} {os : Nat → Os} {s : SinkState}

theorem handleUpload_pending {os : Os} {w : World} {rawPath : Str} {sizeToRead : Int}
    (done : (cmd.handleUpload settings os w ch rawPath sizeToRead).result = .ok) :
    (cmd.handleUpload settings os w ch rawPath sizeToRead).channel.pending ≤ ch.pending := by
  have continues := handleUpload_continues cmd settings os ch sizeToRead w rawPath
  rcases opened : cmd.connection.scpOpen settings os w rawPath with
    ⟨after, _ | ref⟩
  · rw [opened] at continues
    exact absurd done continues.2
  · rw [opened] at continues
    rw [continues.2]
    exact getUploadFileData_pending settings os after ch sizeToRead ref

theorem handleCreateDir_ok {os : Os} {w : World} {dirPath : Str}
    (done : (cmd.handleCreateDir os w ch dirPath).result = .ok) :
    cmd.connection.user.hasPerm permCreateDirs = true ∧
      ∃ p fs, cmd.connection.buildPath w.fs dirPath = .ok p ∧
        orFault (os.mkdir p) (w.fs.mkdir p os.attr) = .ok fs ∧
        cmd.handleCreateDir os w ch dirPath =
          ⟨(w.setFs fs).setPathPermissions os p cmd.connection.user.getUID
            cmd.connection.user.getGID, ch, .ok⟩ := by
  unfold ScpCommand.handleCreateDir at done ⊢
  by_cases permitted : cmd.connection.user.hasPerm permCreateDirs = true
  swap
  · rw [if_pos permitted] at done
    cases done
  rw [if_neg (not_not_intro permitted)] at done ⊢
  refine ⟨permitted, ?_⟩
  cases built : cmd.connection.buildPath w.fs dirPath with
  | error err =>
    rw [built] at done
    cases done
  | ok p =>
    rw [built] at done
    simp only [ScpCommand.createDir] at done ⊢
    cases made : orFault (os.mkdir p) (w.fs.mkdir p os.attr) with
    | error err =>
      rw [made] at done
      cases done
    | ok fs => exact ⟨p, fs, rfl, made, rfl⟩

/-- What can have happened in a turn after which the loop goes on. -/
theorem turn_next_cases {after : SinkState} (next : cmd.turn settings os s = .next after) :
    ∃ ch message, cmd.received os s = (ch, .ok message) ∧
      ((message = .endDir ∧ s.numDirs - 1 ≠ 0 ∧
          after = ⟨s.index + 1, s.numDirs - 1, join s.destPath "..".toList, s.world, ch⟩) ∨
        (∃ name, message = .dir name ∧ s.numDirs + 1 ≠ 0 ∧
          (cmd.handleCreateDir (os s.index) s.world ch (join s.destPath name)).result = .ok ∧
          after =
            ⟨s.index + 1, s.numDirs + 1, join s.destPath name,
              (cmd.handleCreateDir (os s.index) s.world ch (join s.destPath name)).world, ch⟩) ∨
        ∃ size name, message = .file size name ∧ s.numDirs ≠ 0 ∧
          (cmd.uploadNamed settings (os s.index) s.world ch s.destPath name size).result = .ok ∧
          after = ⟨s.index + 1, s.numDirs, s.destPath,
            (cmd.uploadNamed settings (os s.index) s.world ch s.destPath name size).world,
            (cmd.uploadNamed settings (os s.index) s.world ch s.destPath name size).channel⟩) := by
  unfold ScpCommand.turn at next
  rcases got : cmd.received os s with ⟨ch, err | message⟩
  · rw [got] at next
    cases next
  rw [got] at next
  refine ⟨ch, message, rfl, ?_⟩
  cases message with
  | endDir =>
    left
    simp only [ScpCommand.handleMessage] at next
    by_cases last : s.numDirs - 1 = 0
    · rw [if_pos last] at next
      rcases sent : ch.sendConfirmationMessage with ⟨answered, _ | _⟩
      · rw [sent] at next
        cases next
      · rw [sent] at next
        cases next
    · rw [if_neg last] at next
      cases next
      exact ⟨rfl, last, rfl⟩
  | invalid err text => cases next
  | dir name =>
    right
    left
    simp only [ScpCommand.handleMessage] at next
    split at next
    · rename_i made
      obtain ⟨_, p, fs, _, _, equal⟩ := handleCreateDir_ok made
      by_cases last : s.numDirs + 1 = 0
      · rw [if_pos last] at next
        cases next
      · rw [if_neg last] at next
        cases next
        refine ⟨name, rfl, last, made, ?_⟩
        rw [equal]
    · cases next
  | file size name =>
    right
    right
    simp only [ScpCommand.handleMessage] at next
    split at next
    · rename_i stored
      by_cases last : s.numDirs = 0
      · rw [if_pos last] at next
        cases next
      · rw [if_neg last] at next
        cases next
        exact ⟨size, name, rfl, last, stored, rfl⟩
    · cases next

theorem received_pending {message : Message} (got : cmd.received os s = (ch, .ok message)) :
    ch.pending < s.channel.pending := by
  have kept := s.channel.sendConfirmationMessage_pending
  unfold ScpCommand.received at got
  rcases sent : s.channel.sendConfirmationMessage with ⟨answered, _ | _⟩
  · simp [sent] at got
  rw [sent] at kept got
  simp only at kept got
  rcases read : answered.getNextUploadProtocolMessage with
    ⟨next, err | command⟩
  · simp [read] at got
  have shorter := Channel.getNextUploadProtocolMessage_pending read
  simp only [read, Prod.mk.injEq] at got
  rw [← got.1]
  omega

theorem turn_pending {after : SinkState} (next : cmd.turn settings os s = .next after) :
    after.channel.pending < s.channel.pending := by
  obtain ⟨ch, message, got, outcome⟩ := turn_next_cases next
  have shorter := received_pending got
  rcases outcome with ⟨_, _, rfl⟩ | ⟨_, _, _, _, rfl⟩ | ⟨size, name, _, _, stored, rfl⟩
  · exact shorter
  · exact shorter
  · exact (handleUpload_pending stored).trans_lt shorter

theorem getUploadFileData_result (settings : Settings) (os : Os) (w : World) (ch : Channel)
    (sizeToRead : Int) (ref : Nat) :
    (getUploadFileData settings os w ch sizeToRead ref).result = .ok ∨
      ∃ text, (getUploadFileData settings os w ch sizeToRead ref).result = .failed text := by
  unfold getUploadFileData
  rcases ch.sendConfirmationMessage with ⟨next, _ | _⟩
  · exact Or.inr ⟨eofText, rfl⟩
  simp only
  generalize
    (if sizeToRead > 0 then
      receive settings os ref sizeToRead (next.pending + 1) 0 sizeToRead
        (min 32768 sizeToRead.toNat) w next
    else ⟨w, next, 0, true⟩) = taken
  split
  · unfold finishUpload
    rcases taken.channel.readConfirmationMessage with ⟨read, _ | err⟩
    · simp only
      rcases Transfer.close settings os taken.world ref with ⟨after, _ | err⟩
      · simp only
        rcases read.sendConfirmationMessage with ⟨last, _ | _⟩
        · exact Or.inr ⟨eofText, rfl⟩
        · exact Or.inl rfl
      · exact Or.inr ⟨_, rfl⟩
    · exact Or.inr ⟨err, rfl⟩
  · exact Or.inr ⟨eofText, rfl⟩

theorem handleUploadFile_result (cmd : ScpCommand) (settings : Settings) (os : Os) (w : World)
    (ch : Channel) (requestPath filePath : Str) (sizeToRead : Int) :
    (cmd.handleUploadFile settings os w ch requestPath filePath sizeToRead).result = .ok ∨
      ∃ text, (cmd.handleUploadFile settings os w ch requestPath filePath
          sizeToRead).result = .failed text := by
  unfold ScpCommand.handleUploadFile
  split
  · exact Or.inr ⟨_, rfl⟩
  split
  · exact Or.inr ⟨_, rfl⟩
  cases orFault os.openFile (w.fs.create filePath os.attr) with
  | error err => exact Or.inr ⟨_, rfl⟩
  | ok pair => exact getUploadFileData_result settings os _ ch sizeToRead _

/-- An upload crashes only where `os.Stat` fails with another error than that
the file does not exist. -/
theorem handleUpload_result (cmd : ScpCommand) (settings : Settings) (os : Os) (w : World)
    (ch : Channel) (rawPath : Str) (sizeToRead : Int) :
    (cmd.handleUpload settings os w ch rawPath sizeToRead).result ≠ .outOfFuel ∧
      ((cmd.handleUpload settings os w ch rawPath sizeToRead).result = .crash ↔
        cmd.connection.user.hasPerm permUpload = true ∧
          ∃ p err, cmd.connection.buildPath w.fs rawPath = .ok p ∧
            orFault os.stat (w.fs.stat p) = .error err ∧ err ≠ .noent) := by
  have settled :
      ∀ {result : ScpResult}, (result = .ok ∨ ∃ text, result = .failed text) →
        result ≠ .outOfFuel ∧ result ≠ .crash := by
    intro result either
    rcases either with rfl | ⟨text, rfl⟩
    · exact ⟨by decide, by decide⟩
    · exact ⟨by simp, by simp⟩
  unfold ScpCommand.handleUpload
  by_cases permitted : cmd.connection.user.hasPerm permUpload = true
  swap
  · simp [permitted, refuse]
  rw [if_neg (not_not_intro permitted)]
  cases built : cmd.connection.buildPath w.fs rawPath with
  | error err => simp [refuse]
  | ok p =>
    simp only [permitted, true_and, Except.ok.injEq, exists_and_left, exists_eq_left']
    cases looked : orFault os.stat (w.fs.stat p) with
    | error err =>
      by_cases absent : err = .noent
      · subst absent
        have ends :=
          settled (handleUploadFile_result cmd settings os w ch p
            (uploadFilePath settings os p) sizeToRead)
        simpa [looked] using ends
      · cases err <;> simp_all
    | ok info =>
      have never :
          ∀ upload : UploadState,
            (upload.result = .ok ∨ ∃ text, upload.result = .failed text) →
            upload.result ≠ .outOfFuel ∧
              (upload.result = .crash ↔
                ∃ err, (.ok info : Except Errno FileInfo) = .error err ∧ err ≠ .noent) := by
        intro upload either
        have ends := settled either
        simp [ends.1, ends.2]
      apply never
      simp only
      split
      · exact Or.inr ⟨_, rfl⟩
      cases Connection.moveAside settings os w p (uploadFilePath settings os p) with
      | error err => exact Or.inr ⟨_, rfl⟩
      | ok moved => exact handleUploadFile_result cmd settings os _ ch p _ _

theorem handleCreateDir_result
    (cmd : ScpCommand) (os : Os) (w : World) (ch : Channel) (dirPath : Str) :
    (cmd.handleCreateDir os w ch dirPath).result = .ok ∨
      ∃ text, (cmd.handleCreateDir os w ch dirPath).result = .failed text := by
  unfold ScpCommand.handleCreateDir
  split
  · exact Or.inr ⟨_, rfl⟩
  cases cmd.connection.buildPath w.fs dirPath with
  | error err => exact Or.inr ⟨_, rfl⟩
  | ok p =>
    simp only [ScpCommand.createDir]
    cases orFault (os.mkdir p) (w.fs.mkdir p os.attr) with
    | error err => exact Or.inr ⟨_, rfl⟩
    | ok fs => exact Or.inl rfl

theorem turn_stop_result {state : ScpState} (stops : cmd.turn settings os s = .stop state) :
    (state.result = .ok ∨ ∃ text, state.result = .failed text) ∨
      ∃ ch size name, cmd.received os s = (ch, .ok (.file size name)) ∧
        state =
          (cmd.uploadNamed settings (os s.index) s.world ch s.destPath name size).toScpState := by
  unfold ScpCommand.turn at stops
  rcases got : cmd.received os s with ⟨ch, err | message⟩
  · rw [got] at stops
    cases stops
    exact Or.inl (Or.inr ⟨err, rfl⟩)
  rw [got] at stops
  cases message with
  | endDir =>
    left
    simp only [ScpCommand.handleMessage] at stops
    split at stops
    · rcases sent : ch.sendConfirmationMessage with ⟨answered, _ | _⟩
      · rw [sent] at stops
        cases stops
        exact Or.inr ⟨eofText, rfl⟩
      · rw [sent] at stops
        cases stops
        exact Or.inl rfl
    · cases stops
  | invalid err text =>
    cases stops
    exact Or.inl (Or.inr ⟨err, rfl⟩)
  | dir name =>
    left
    simp only [ScpCommand.handleMessage] at stops
    split at stops
    · split at stops
      · cases stops
        exact Or.inl rfl
      · cases stops
    · cases stops
      exact handleCreateDir_result cmd (os s.index) s.world ch _
  | file size name =>
    simp only [ScpCommand.handleMessage] at stops
    split at stops
    · split at stops
      · cases stops
        exact Or.inl (Or.inl rfl)
      · cases stops
    · cases stops
      exact Or.inr ⟨ch, size, name, rfl, rfl⟩

/-- The loop comes to an end before its fuel does. -/
theorem sinkFrom_result {fuel : Nat} (enough : s.channel.pending < fuel) :
    (cmd.sinkFrom settings os fuel s).result ≠ .outOfFuel := by
  induction fuel generalizing s with
  | zero => omega
  | succ fuel ih =>
    rw [ScpCommand.sinkFrom_succ]
    cases next : cmd.turn settings os s with
    | next after =>
      have shorter := turn_pending next
      exact ih (by omega)
    | stop state =>
      rcases turn_stop_result next with
        (done | ⟨text, failed⟩) | ⟨ch, size, name, _, rfl⟩
      · simp [done]
      · simp [failed]
      · exact (handleUpload_result cmd settings _ _ _ _ _).1

/-- However the client behaves, an upload session ends. -/
theorem handleRecursiveUpload_total
    (cmd : ScpCommand) (settings : Settings) (w : World) (ch : Channel) (os : Nat → Os) :
    (cmd.handleRecursiveUpload settings w ch os).result ≠ .outOfFuel := by
  unfold ScpCommand.handleRecursiveUpload
  cases cmd.getDestPath with
  | none => simp
  | some destPath =>
    have ends :
        (cmd.sinkFrom settings os (ch.pending + 1) ⟨0, 0, destPath, w, ch⟩).result ≠ .outOfFuel :=
      sinkFrom_result (Nat.lt_succ_self _)
    exact ends

end Turns

/-! ## The directory stack -/

/-- The names of the open directories after a message. -/
def Message.track (names : List Str) : Message → List Str
  | .endDir => names.dropLast
  | .dir name => names ++ [name]
  | .file _ _ => names
  | .invalid _ _ => names

namespace ScpCommand

variable (cmd : ScpCommand) (settings : Settings)

/-- The states in which the turns of the loop begin, each with the names of
the open directories. -/
def statesFrom (os : Nat → Os) : Nat → List Str → SinkState → List (List Str × SinkState)
  | 0, _, _ => []
  | fuel + 1, names, s =>
    (names, s) ::
      match cmd.received os s, cmd.turn settings os s with
      | (_, .ok message), .next after => statesFrom os fuel (message.track names) after
      | _, _ => []

def uploadStates (w : World) (ch : Channel) (os : Nat → Os) : List (List Str × SinkState) :=
  match cmd.getDestPath with
  | none => []
  | some destPath => cmd.statesFrom settings os (ch.pending + 1) [] ⟨0, 0, destPath, w, ch⟩

end ScpCommand

/-- A message that closes a directory closes an open one. -/
def Message.Closes (names : List Str) (message : Message) : Prop :=
  message = .endDir → names ≠ []

/-- A message that opens a directory gives it a single name. -/
def Message.Single (message : Message) : Prop :=
  ∀ name, message = .dir name → Proper name

instance (names : List Str) (message : Message) : Decidable (message.Closes names) :=
  inferInstanceAs (Decidable (_ → _))

instance : ∀ message : Message, Decidable message.Single
  | .endDir => .isTrue (by simp [Message.Single])
  | .dir name => decidable_of_iff (Proper name) (by simp [Message.Single])
  | .file _ _ => .isTrue (by simp [Message.Single])
  | .invalid _ _ => .isTrue (by simp [Message.Single])

def ScpCommand.nextMessage (cmd : ScpCommand) (os : Nat → Os) (s : SinkState) : Option Message :=
  (cmd.received os s).2.toOption

variable {cmd : ScpCommand} {destPath : Str} {names : List Str}

theorem nextMessage_of_received {os : Nat → Os} {s : SinkState} {ch : Channel} {message : Message}
    (got : cmd.received os s = (ch, .ok message)) :
    cmd.nextMessage os s = some message := by
  simp [ScpCommand.nextMessage, got, Except.toOption]

/-- The variables of the loop follow the open directories. -/
structure StackKept (destPath : Str) (names : List Str) (s : SinkState) : Prop where
  place : s.destPath = names.foldl join destPath
  depth : s.numDirs = names.length

/-- With no open directory, a message that closes one ends the loop with an
error. -/
def EndRejected (cmd : ScpCommand) (settings : Settings) (os : Nat → Os)
    (names : List Str) (s : SinkState) : Prop :=
  names = [] → cmd.nextMessage os s = some .endDir →
    ∃ state text, cmd.turn settings os s = .stop state ∧ state.result = .failed text

theorem isAbs_getDestPath (given : cmd.getDestPath = some destPath) : isAbs destPath = true := by
  unfold ScpCommand.getDestPath at given
  split at given
  · cases given
  · cases given
  · obtain ⟨text, _, rfl⟩ := Option.map_eq_some_iff.mp given
    split
    · assumption
    · rfl

theorem foldl_join_render
    (rooted : isAbs destPath) (proper : ProperNames names) (filled : names ≠ []) :
    names.foldl join destPath = render (cleanNames true destPath ++ names) := by
  induction names using List.reverseRecOn with
  | nil => exact absurd rfl filled
  | append_singleton names name ih =>
    have nameProper : Proper name := proper name (by simp)
    have namesProper : ProperNames names := proper.left
    rw [List.foldl_append, List.foldl_cons, List.foldl_nil]
    by_cases first : names = []
    · subst first
      simpa using join_proper rooted nameProper
    · have allProper : ProperNames (cleanNames true destPath ++ names) :=
        List.forall_mem_append.mpr ⟨cleanNames_proper destPath, namesProper⟩
      rw [ih namesProper first, join_render_name allProper nameProper, List.append_assoc]

theorem foldl_join_dots (rooted : isAbs destPath) (proper : ProperNames names)
    (two : 2 ≤ names.length) :
    join (names.foldl join destPath) "..".toList = names.dropLast.foldl join destPath := by
  have filled : names ≠ [] := by
    rintro rfl
    simp at two
  have outerSome : names.dropLast ≠ [] := by
    intro empty
    have length := congrArg List.length empty
    rw [List.length_dropLast, List.length_nil] at length
    omega
  have outerProper : ProperNames names.dropLast :=
    fun name member => proper name (List.mem_of_mem_dropLast member)
  have allProper : ProperNames (cleanNames true destPath ++ names) :=
    List.forall_mem_append.mpr ⟨cleanNames_proper destPath, proper⟩
  have up := join_dots (isAbs_render (cleanNames true destPath ++ names))
  rw [cleanNames_render allProper, List.dropLast_append_of_ne_nil filled] at up
  rw [foldl_join_render rooted proper filled, foldl_join_render rooted outerProper outerSome]
  exact up

/-- Unless the message closes the outermost directory, closing goes back to
where the directory was opened. -/
def Message.Cancels (destPath : Str) (names : List Str) (message : Message) : Prop :=
  message = .endDir → 2 ≤ names.length →
    join (names.foldl join destPath) "..".toList = names.dropLast.foldl join destPath

section Stack

variable {cmd : ScpCommand} {settings : Settings} {os : Nat → Os} {destPath : Str}

variable {s after : SinkState} {ch : Channel} {message : Message}

theorem stackKept_turn {names : List Str} (kept : StackKept destPath names s)
    (got : cmd.received os s = (ch, .ok message)) (closes : message.Closes names)
    (cancels : message.Cancels destPath names) (next : cmd.turn settings os s = .next after) :
    StackKept destPath (message.track names) after := by
  obtain ⟨channel, same, gotSame, outcome⟩ := turn_next_cases next
  rw [got] at gotSame
  cases gotSame
  have depth := kept.depth
  rcases outcome with ⟨rfl, deeper, rfl⟩ | ⟨name, rfl, _, _, rfl⟩ | ⟨size, name, rfl, _, _, rfl⟩
  · have positive : 0 < names.length := List.length_pos_iff.mpr (closes rfl)
    have popped := cancels rfl (by omega)
    refine ⟨?_, ?_⟩
    · simp only [Message.track]
      rw [kept.place, popped]
    · simp only [Message.track, List.length_dropLast]
      omega
  · refine ⟨?_, ?_⟩
    · simp [Message.track, kept.place]
    · simp only [Message.track, List.length_append, List.length_singleton]
      omega
  · exact ⟨kept.place, depth⟩

/-- Along the loop, as long as every message is allowed. -/
theorem stackKept_states (fuel : Nat) :
    ∀ {names : List Str} {s : SinkState}, StackKept destPath names s →
      (∀ x ∈ cmd.statesFrom settings os fuel names s,
        ∀ message ∈ cmd.nextMessage os x.2, message.Closes x.1 ∧ message.Cancels destPath x.1) →
      ∀ x ∈ cmd.statesFrom settings os fuel names s, StackKept destPath x.1 x.2 := by
  induction fuel with
  | zero =>
    intro names s _ _ x member
    simp [ScpCommand.statesFrom] at member
  | succ fuel ih =>
    intro names s kept allowed x member
    rw [ScpCommand.statesFrom] at member allowed
    rcases List.mem_cons.mp member with rfl | later
    · exact kept
    have here := allowed (names, s) List.mem_cons_self
    rcases got : cmd.received os s with ⟨ch, err | message⟩
    · simp [got] at later
    cases next : cmd.turn settings os s with
    | stop state => simp [got, next] at later
    | next after =>
      rw [got, next] at later allowed
      obtain ⟨closes, cancels⟩ := here message (nextMessage_of_received got)
      exact ih
        (stackKept_turn kept got closes cancels next)
        (fun y inRest => allowed y (List.mem_cons_of_mem _ inRest)) x later

theorem turn_endDir
    (settings : Settings) (more : s.numDirs - 1 ≠ 0) (got : cmd.nextMessage os s = some .endDir) :
    ∃ ch, cmd.received os s = (ch, .ok .endDir) ∧
      cmd.turn settings os s =
        .next ⟨s.index + 1, s.numDirs - 1, join s.destPath "..".toList, s.world, ch⟩ := by
  unfold ScpCommand.nextMessage at got
  rcases whole : cmd.received os s with ⟨ch, err | message⟩
  · simp [whole, Except.toOption] at got
  rw [whole] at got
  simp only [Except.toOption, Option.some.injEq] at got
  subst got
  refine ⟨ch, rfl, ?_⟩
  simp only [ScpCommand.turn, whole, ScpCommand.handleMessage, if_neg more]

theorem statesFrom_next (fuel : Nat) :
    ∀ {names : List Str} {s : SinkState}, s.channel.pending < fuel →
      ∀ x ∈ cmd.statesFrom settings os fuel names s,
        ∀ {ch : Channel} {message : Message} {after : SinkState},
          cmd.received os x.2 = (ch, .ok message) →
          cmd.turn settings os x.2 = .next after →
          (message.track x.1, after) ∈ cmd.statesFrom settings os fuel names s := by
  induction fuel with
  | zero =>
    intro names s enough
    omega
  | succ fuel ih =>
    intro names s enough x member ch message after got next
    rw [ScpCommand.statesFrom] at member ⊢
    apply List.mem_cons_of_mem
    rcases List.mem_cons.mp member with rfl | later
    · have shorter : after.channel.pending < s.channel.pending := turn_pending next
      obtain ⟨less, rfl⟩ : ∃ less, fuel = less + 1 := ⟨fuel - 1, by omega⟩
      rw [got, next]
      exact List.mem_cons_self
    · rcases first : cmd.received os s with ⟨start, err | opening⟩
      · simp [first] at later
      cases turned : cmd.turn settings os s with
      | stop state => simp [first, turned] at later
      | next second =>
        rw [first, turned] at later
        have shorter := turn_pending turned
        exact ih (by omega) x later got next

theorem uploadStates_next {w : World} {last : Channel} {x : List Str × SinkState}
    (member : x ∈ cmd.uploadStates settings w ch os)
    (got : cmd.received os x.2 = (last, .ok message))
    (next : cmd.turn settings os x.2 = .next after) :
    (message.track x.1, after) ∈ cmd.uploadStates settings w ch os := by
  unfold ScpCommand.uploadStates at member ⊢
  cases given : cmd.getDestPath with
  | none =>
    rw [given] at member
    cases member
  | some destPath =>
    rw [given] at member
    exact statesFrom_next _ (Nat.lt_succ_self _) x member got next

end Stack

section Discipline

variable (cmd : ScpCommand) (settings : Settings) (w : World) (ch : Channel) (os : Nat → Os)

/-- In every turn of the loop the destination is the requested one with the
names of the open directories, the counter is their number, and a message that
closes none of them is rejected. -/
def StackDiscipline : Prop :=
  ∀ destPath ∈ cmd.getDestPath, ∀ x ∈ cmd.uploadStates settings w ch os,
    StackKept destPath x.1 x.2 ∧ EndRejected cmd settings os x.1 x.2

/-- The client closes only directories that it has opened. -/
def ClosesOpenDirs : Prop :=
  ∀ x ∈ cmd.uploadStates settings w ch os, ∀ message ∈ cmd.nextMessage os x.2, message.Closes x.1

/-- Unless the client closes the outermost directory, closing goes back to
where the directory was opened. -/
def NamesCancel : Prop :=
  ∀ destPath ∈ cmd.getDestPath, ∀ x ∈ cmd.uploadStates settings w ch os,
    ∀ message ∈ cmd.nextMessage os x.2, message.Cancels destPath x.1

/-- The client gives every directory a single name. -/
def SendsSingleNames : Prop :=
  ∀ x ∈ cmd.uploadStates settings w ch os, ∀ message ∈ cmd.nextMessage os x.2, message.Single

variable {cmd settings w ch os}

theorem namesCancel_of_single (single : SendsSingleNames cmd settings w ch os) :
    NamesCancel cmd settings w ch os := by
  intro destPath given
  have rooted := isAbs_getDestPath given
  have proper :
      ∀ (fuel : Nat) {names : List Str} {s : SinkState},
        ProperNames names →
        (∀ x ∈ cmd.statesFrom settings os fuel names s,
          ∀ message ∈ cmd.nextMessage os x.2, message.Single) →
        ∀ x ∈ cmd.statesFrom settings os fuel names s, ProperNames x.1 := by
    intro fuel
    induction fuel with
    | zero =>
      intro names s _ _ x member
      simp [ScpCommand.statesFrom] at member
    | succ fuel ih =>
      intro names s proper allowed x member
      rw [ScpCommand.statesFrom] at member allowed
      rcases List.mem_cons.mp member with rfl | later
      · exact proper
      have here := allowed (names, s) List.mem_cons_self
      rcases got : cmd.received os s with ⟨next, err | message⟩
      · simp [got] at later
      cases turned : cmd.turn settings os s with
      | stop state => simp [got, turned] at later
      | next after =>
        rw [got, turned] at later allowed
        have one := here message (nextMessage_of_received got)
        refine ih ?_ (fun y inRest => allowed y (List.mem_cons_of_mem _ inRest)) x later
        intro name inTrack
        cases message with
        | endDir => exact proper name (List.mem_of_mem_dropLast inTrack)
        | dir opened =>
          rcases List.mem_append.mp inTrack with old | new
          · exact proper name old
          · rw [List.mem_singleton.mp new]
            exact one opened rfl
        | file size other => exact proper name inTrack
        | invalid err text => exact proper name inTrack
  unfold SendsSingleNames ScpCommand.uploadStates at single
  unfold ScpCommand.uploadStates
  rw [given] at single ⊢
  intro x member message _ _ two
  exact foldl_join_dots rooted (proper _ (by simp) single x member) two

theorem stackDiscipline_of_cancel (closes : ClosesOpenDirs cmd settings w ch os)
    (cancels : NamesCancel cmd settings w ch os) : StackDiscipline cmd settings w ch os := by
  intro destPath given x member
  refine ⟨?_, ?_⟩
  · have both :
        ∀ y ∈ cmd.uploadStates settings w ch os,
          ∀ message ∈ cmd.nextMessage os y.2, message.Closes y.1 ∧ message.Cancels destPath y.1 :=
      fun y inStates message got =>
        ⟨closes y inStates message got, cancels destPath given y inStates message got⟩
    unfold ScpCommand.uploadStates at both member
    rw [given] at both member
    exact stackKept_states _ ⟨rfl, rfl⟩ both x member
  · intro empty got
    exact absurd empty (closes x member .endDir got rfl)

/-- A client that gives every directory a single name and closes only what it
has opened is followed by the loop, in every turn. -/
theorem stackDiscipline_of_single (closes : ClosesOpenDirs cmd settings w ch os)
    (single : SendsSingleNames cmd settings w ch os) : StackDiscipline cmd settings w ch os :=
  stackDiscipline_of_cancel closes (namesCancel_of_single single)

end Discipline

/-- The loop keeps the stack exactly if the client closes only what it has
opened, and closing goes back to where the directory was opened. -/
theorem directory_stack_kept_iff (cmd : ScpCommand) (settings : Settings) (w : World) (ch : Channel)
    (os : Nat → Os) :
    StackDiscipline cmd settings w ch os ↔
      ClosesOpenDirs cmd settings w ch os ∧ NamesCancel cmd settings w ch os := by
  constructor
  · intro holds
    refine ⟨?_, ?_⟩
    · intro x member message got isEnd empty
      subst isEnd
      cases given : cmd.getDestPath with
      | none => simp [ScpCommand.uploadStates, given] at member
      | some destPath =>
        obtain ⟨kept, rejected⟩ := holds destPath given x member
        have depth := kept.depth
        rw [empty, List.length_nil] at depth
        obtain ⟨_, _, next⟩ := turn_endDir settings (by omega) got
        obtain ⟨state, text, stops, _⟩ := rejected empty got
        rw [next] at stops
        cases stops
    · intro destPath given x member message got isEnd two
      subst isEnd
      have kept := (holds destPath given x member).1
      have depth := kept.depth
      obtain ⟨last, received, next⟩ := turn_endDir settings (show x.2.numDirs - 1 ≠ 0 by omega) got
      have reached := uploadStates_next member received next
      have place := (holds destPath given _ reached).1.place
      rw [← kept.place]
      exact place
  · rintro ⟨closes, cancels⟩
    exact stackDiscipline_of_cancel closes cancels

/-! ## Samples -/

def sinkCommand : ScpCommand :=
  ⟨⟨"c".toList, sampleUser, "SCP".toList⟩, ["-r".toList, "-t".toList, "/".toList]⟩

def clientSends (chunks : List String) : Channel :=
  ⟨chunks.map String.toList, [], [], false, none⟩

def sampleWorld : World :=
  World.start namesakeTree fun _ => some (0, 0)

theorem nested_dirs_followed :
    StackDiscipline sinkCommand defaultSettings sampleWorld
      (clientSends ["D0755 0 a\n", "D0755 0 b\n", "E\n", "E\n"]) (fun _ => sampleOs) :=
  stackDiscipline_of_single (by unfold ClosesOpenDirs; decide +kernel)
    (by unfold SendsSingleNames; decide +kernel)

/-- A session that starts by closing a directory. -/
theorem early_end_not_rejected :
    ¬ StackDiscipline sinkCommand defaultSettings sampleWorld
      (clientSends ["E\n"]) (fun _ => sampleOs) := by
  intro holds
  have got :
      sinkCommand.nextMessage (fun _ => sampleOs)
          ⟨0, 0, "/".toList, sampleWorld, clientSends ["E\n"]⟩ =
        some .endDir := by decide +kernel
  obtain ⟨_, rejected⟩ :=
    holds "/".toList (by decide)
      ([], ⟨0, 0, "/".toList, sampleWorld, clientSends ["E\n"]⟩)
      List.mem_cons_self
  obtain ⟨_, _, next⟩ := turn_endDir defaultSettings (by decide) got
  obtain ⟨state, text, stops, _⟩ := rejected rfl got
  rw [next] at stops
  cases stops

end Sshserv.Serv
