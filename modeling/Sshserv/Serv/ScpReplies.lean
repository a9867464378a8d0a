import Sshserv.Serv.ScpSession

/-!
# Replies of the sink

How often the sink has written its OK byte when a part of a session has
arrived: once for every step, exactly if the session is one item without a
file inside a directory (`replies_in_step_iff`).
-/

namespace Sshserv.Serv

open Lib UnixPath FileTree DataProvider

/-- The number of OK bytes that the sink has written after the first steps of
some messages, `depth` being the nesting counter before them. -/
def oksAfter : Int → List Sent → Nat → Nat
  | _, [], _ => 1
  | depth, .dir times _ _ :: rest, count =>
    if count ≤ times.length then count + 1
    else if depth + 1 = 0 then times.length + 1
    else
      times.length + 1 + oksAfter (depth + 1) rest (count - (times.length + 1))
  | depth, .endDir times :: rest, count =>
    if count ≤ times.length then count + 1
    else if depth - 1 = 0 then times.length + 2
    else
      times.length + 1 + oksAfter (depth - 1) rest (count - (times.length + 1))
  | depth, .file times _ _ _ :: rest, count =>
    if count ≤ times.length + 1 then count + 1
    else if depth = 0 then times.length + 3
    else times.length + 3 + oksAfter depth rest (count - (times.length + 2))

/-- The time messages of a message, and its line, are answered as they
come. -/
theorem oksAfter_of_le (depth : Int) (m : Sent) (rest : List Sent) {count : Nat}
    (few : count ≤ m.times.length) :
    oksAfter depth (m :: rest) count = count + 1 := by
  cases m with
  | dir times mode name =>
    rw [oksAfter]
    exact if_pos few
  | endDir times =>
    rw [oksAfter]
    exact if_pos few
  | file times mode name content =>
    rw [oksAfter]
    exact if_pos (Nat.le_succ_of_le few)

section PastLine

variable (depth : Int) (times : List Str) (mode name : Str)
    (content : List Char) (rest : List Sent) (count : Nat)

theorem oksAfter_dir :
    oksAfter depth (.dir times mode name :: rest) (times.length + 1 + count) =
      if depth + 1 = 0 then times.length + 1
      else times.length + 1 + oksAfter (depth + 1) rest count := by
  rw [oksAfter, if_neg (by omega), Nat.add_sub_cancel_left]

theorem oksAfter_endDir :
    oksAfter depth (.endDir times :: rest) (times.length + 1 + count) =
      if depth - 1 = 0 then times.length + 2
      else times.length + 1 + oksAfter (depth - 1) rest count := by
  rw [oksAfter, if_neg (by omega), Nat.add_sub_cancel_left]

theorem oksAfter_file_line :
    oksAfter depth (.file times mode name content :: rest)
        (times.length + 1) = times.length + 2 := by
  rw [oksAfter, if_pos (by omega)]

theorem oksAfter_file :
    oksAfter depth (.file times mode name content :: rest) (times.length + 2 + count) =
      if depth = 0 then times.length + 3
      else times.length + 3 + oksAfter depth rest count := by
  rw [oksAfter, if_neg (by omega), Nat.add_sub_cancel_left]

end PastLine

section Answers

variable (cmd : ScpCommand) (settings : Settings) (os : Nat → Os)

def ScpCommand.proceed (fuel : Nat) : Turn → ScpState
  | .stop state => state
  | .next after => cmd.sinkFrom settings os fuel after

theorem sinkFrom_eq_proceed (fuel : Nat) (s : SinkState) :
    cmd.sinkFrom settings os (fuel + 1) s =
      cmd.proceed settings os fuel (cmd.turn settings os s) := by
  rw [ScpCommand.sinkFrom_succ]
  cases cmd.turn settings os s with
  | stop state => rfl
  | next after => rfl

/-- A client that has sent some bytes of the messages has got `oksAfter`
answers, if the whole of them does not lead to an error. -/
def AnswersCounted (messages : List Sent) : Prop :=
  ∀ (fuel fuelCut limit : Nat) (s : SinkState), s.channel.Live →
    s.channel.bytes = (stepsOf messages).flatten →
    (cmd.sinkFrom settings os fuel s).result = .ok →
    min limit s.channel.pending < fuelCut →
    (cmd.sinkFrom settings os fuelCut { s with channel := s.channel.cut limit }).channel.oks =
      s.channel.oks + oksAfter s.numDirs messages (Channel.arrivedParts (stepsOf messages) limit)

variable {cmd settings os} {messages : List Sent}

theorem answersCounted_nil : AnswersCounted cmd settings os [] := by
  intro fuel fuelCut limit s live bytes done _
  obtain ⟨next, failed⟩ := received_empty cmd os live bytes
  cases fuel with
  | zero => cases done
  | succ fuel =>
    rw [sinkFrom_eq_proceed] at done
    simp [ScpCommand.turn, failed, ScpCommand.proceed] at done

/-! After the line of a message has been read, the turn does what the message
asks for and the other messages follow. -/

section Handled

variable (counted : AnswersCounted cmd settings os messages) {fuel fuelCut limit : Nat}
    {s : SinkState} (live : s.channel.Live) (enough : min limit s.channel.pending < fuelCut)

include counted live enough

theorem oks_dir {name : Str} (bytes : s.channel.bytes = (stepsOf messages).flatten) (done :
      (cmd.proceed settings os fuel
        (cmd.handleMessage settings (os s.index) s (.dir name))).result =
        .ok) :
    (cmd.proceed settings os fuelCut
        (cmd.handleMessage settings (os s.index)
          { s with channel := s.channel.cut limit } (.dir name))).channel.oks =
      s.channel.oks +
        if s.numDirs + 1 = 0 then 0
        else
          oksAfter (s.numDirs + 1) messages (Channel.arrivedParts (stepsOf messages) limit) := by
  simp only [ScpCommand.handleMessage] at done ⊢
  by_cases made :
      (cmd.handleCreateDir (os s.index) s.world s.channel (join s.destPath name)).result = .ok
  swap
  · rw [if_neg made] at done
    exact absurd done made
  rw [if_pos made, handleCreateDir_channel made s.channel] at done
  rw [handleCreateDir_channel made]
  simp only [if_true] at done ⊢
  by_cases last : s.numDirs + 1 = 0
  · rw [if_pos last, if_pos last]
    rfl
  · rw [if_neg last] at done
    rw [if_neg last, if_neg last]
    exact counted fuel fuelCut limit
      ⟨s.index + 1, s.numDirs + 1, join s.destPath name, _, s.channel⟩ live
      bytes done enough

theorem oks_endDir (bytes : s.channel.bytes = (stepsOf messages).flatten) (done :
      (cmd.proceed settings os fuel
        (cmd.handleMessage settings (os s.index) s .endDir)).result = .ok) :
    (cmd.proceed settings os fuelCut
        (cmd.handleMessage settings (os s.index)
          { s with channel := s.channel.cut limit } .endDir)).channel.oks =
      s.channel.oks +
        if s.numDirs - 1 = 0 then 1
        else
          oksAfter (s.numDirs - 1) messages (Channel.arrivedParts (stepsOf messages) limit) := by
  simp only [ScpCommand.handleMessage] at done ⊢
  by_cases last : s.numDirs - 1 = 0
  · obtain ⟨answered, answer⟩ := Channel.sendConfirmationMessage_dialogue live
    rw [if_pos last, if_pos last, answer.upto limit (by simp)]
    exact answer.talks.oks
  · rw [if_neg last] at done
    rw [if_neg last, if_neg last]
    exact counted fuel fuelCut limit
      ⟨s.index + 1, s.numDirs - 1, join s.destPath "..".toList, s.world,
        s.channel⟩ live bytes done enough

theorem oks_file {name : Str} {content : List Char}
    (bytes : s.channel.bytes = (content ++ okMsg) ++ (stepsOf messages).flatten) (done :
      (cmd.proceed settings os fuel
        (cmd.handleMessage settings (os s.index) s (.file content.length name))).result = .ok) :
    (cmd.proceed settings os fuelCut
        (cmd.handleMessage settings (os s.index)
          { s with channel := s.channel.cut limit }
          (.file content.length name))).channel.oks =
      s.channel.oks +
        if (content ++ okMsg).length ≤ limit then
          2 +
            if s.numDirs = 0 then 0
            else
              oksAfter s.numDirs messages
                (Channel.arrivedParts (stepsOf messages) (limit - (content ++ okMsg).length))
        else 1 := by
  simp only [ScpCommand.handleMessage] at done ⊢
  generalize cmd.getFileUploadDestPath (os s.index) s.world s.destPath name = target at *
  by_cases stored :
      (cmd.handleUpload settings (os s.index) s.world s.channel target content.length).result = .ok
  swap
  · rw [if_neg stored] at done
    exact absurd done stored
  rw [if_pos stored] at done
  obtain ⟨opened, ref, _, upload⟩ := handleUpload_channel stored
  rw [upload] at stored done
  rw [upload]
  by_cases data : (content ++ okMsg).length ≤ limit
  swap
  · obtain ⟨failed, dataOks⟩ :=
      getUploadFileData_short settings (os s.index) ref live bytes (Nat.lt_of_not_le data) opened
    rw [if_neg data, if_neg failed]
    exact dataOks
  obtain ⟨after, answered, talks, whole, upto⟩ :=
    getUploadFileData_stored settings (os s.index) ref live bytes stored
  have answeredOks : answered.oks = s.channel.oks + 2 := talks.oks
  have left := talks.pending
  rw [whole] at done
  rw [if_pos data, upto _ data]
  simp only [if_true] at done ⊢
  by_cases last : s.numDirs = 0
  · rw [if_pos last, if_pos last]
    exact answeredOks
  · rw [if_neg last] at done
    rw [if_neg last, if_neg last, ← Nat.add_assoc, ← answeredOks]
    exact counted fuel fuelCut (limit - (content ++ okMsg).length)
      ⟨s.index + 1, s.numDirs, s.destPath, after, answered⟩ talks.live
      (talks.bytes bytes) done (by simp only; omega)

end Handled

theorem answersCounted_cons (counted : AnswersCounted cmd settings os messages) {m : Sent}
    (wellFormed : m.WellFormed) :
    AnswersCounted cmd settings os (m :: messages) := by
  intro fuel fuelCut limit s live bytes done enough
  have steps :
      stepsOf (m :: messages) =
        Channel.messageParts m.times m.line ++ (m.data ++ stepsOf messages) := by
    simp [stepsOf, Sent.steps]
  have count : (Channel.messageParts m.times m.line).length = m.times.length + 1 := by
    simp [Channel.messageParts]
  rw [steps, List.flatten_append] at bytes
  obtain ⟨next, dialogue⟩ := received_dialogue cmd os wellFormed live bytes
  have nextBytes := dialogue.talks.bytes bytes
  have consumed := dialogue.talks.pending
  have nextOks : next.oks = s.channel.oks + (m.times.length + 1) := by
    simpa using dialogue.talks.oks
  have long := Channel.length_lt_messageParts m.times m.line
  obtain ⟨less, rfl⟩ : ∃ less, fuelCut = less + 1 := ⟨fuelCut - 1, by omega⟩
  cases fuel with
  | zero => cases done
  | succ fuel =>
  rw [sinkFrom_eq_proceed, turn_whole dialogue] at done
  rw [sinkFrom_eq_proceed, steps, Channel.arrivedParts_append, count]
  by_cases arrived : (Channel.messageParts m.times m.line).flatten.length ≤ limit
  swap
  · obtain ⟨last, failed, lastOks⟩ :=
      received_short cmd os wellFormed live bytes (Nat.lt_of_not_le arrived)
    have fewer := Channel.arrivedParts_lt (Nat.lt_of_not_le arrived)
    rw [count] at fewer
    rw [if_neg arrived, oksAfter_of_le _ _ _ (by omega)]
    simp only [ScpCommand.turn, failed, ScpCommand.proceed]
    omega
  rw [if_pos arrived, turn_upto dialogue arrived]
  have nextLive : ({ s with channel := next } : SinkState).channel.Live := dialogue.talks.live
  clear dialogue bytes steps count live
  generalize (Channel.messageParts m.times m.line).flatten.length = head at *
  have nextEnough : min (limit - head) next.pending < less := by omega
  cases m with
  | dir times mode name =>
    have handled := oks_dir counted nextLive nextEnough nextBytes done
    simp only [Sent.message, Sent.times, Sent.data, List.nil_append] at handled nextOks ⊢
    rw [handled, nextOks, oksAfter_dir]
    split
    · rfl
    · exact Nat.add_assoc _ _ _
  | endDir times =>
    have handled := oks_endDir counted nextLive nextEnough nextBytes done
    simp only [Sent.message, Sent.times, Sent.data, List.nil_append] at handled nextOks ⊢
    rw [handled, nextOks, oksAfter_endDir]
    split
    · rfl
    · exact Nat.add_assoc _ _ _
  | file times mode name content =>
    have handled := oks_file counted nextLive nextEnough nextBytes done
    simp only [Sent.message, Sent.times, Sent.data, List.cons_append,
      List.nil_append, Channel.arrivedParts] at handled nextOks ⊢
    rw [handled, nextOks]
    by_cases data : (content ++ okMsg).length ≤ limit - head
    · have past : ∀ more, times.length + 1 + (more + 1) = times.length + 2 + more := by
        intro more
        omega
      rw [if_pos data, if_pos data, past, oksAfter_file]
      by_cases last : s.numDirs = 0
      · rw [if_pos last, if_pos last]
        rfl
      · rw [if_neg last, if_neg last]
        omega
    · rw [if_neg data, if_neg data, Nat.add_zero, oksAfter_file_line]
      rfl

theorem sinkFrom_oks {messages : List Sent} (wellFormed : ∀ m ∈ messages, m.WellFormed) :
    AnswersCounted cmd settings os messages := by
  induction messages with
  | nil => exact answersCounted_nil
  | cons m messages ih =>
    have ok : m.WellFormed := wellFormed m List.mem_cons_self
    have later : ∀ other ∈ messages, other.WellFormed :=
      fun other member => wellFormed other (List.mem_cons_of_mem _ member)
    exact answersCounted_cons (ih later) ok

end Answers

/-- Every step that the sink can see is answered once. -/
def Paced (depth : Int) (messages : List Sent) : Prop :=
  ∀ count ≤ (stepsOf messages).length, oksAfter depth messages count = count + 1

section Paced

variable {messages : List Sent} {m : Sent} {depth after : Int}

theorem length_stepsOf_cons (m : Sent) (messages : List Sent) :
    (stepsOf (m :: messages)).length = m.steps.length + (stepsOf messages).length := by
  have whole : stepsOf (m :: messages) = m.steps ++ stepsOf messages := rfl
  rw [whole, List.length_append]

theorem length_steps (m : Sent) : m.steps.length = m.times.length + 1 + m.data.length := by
  simp only [Sent.steps, Channel.messageParts, List.length_append,
    List.length_map, List.length_singleton]

theorem length_stepsOf_eq_zero : (stepsOf messages).length = 0 ↔ messages = [] := by
  cases messages with
  | nil => exact ⟨fun _ => rfl, fun _ => rfl⟩
  | cons m messages =>
    have positive := length_steps m
    rw [length_stepsOf_cons]
    simp only [reduceCtorEq, iff_false]
    omega

theorem paced_nil (depth : Int) : Paced depth [] := by
  intro count few
  have zero : count = 0 := Nat.le_zero.mp few
  rw [zero, oksAfter]

theorem paced_cons_iff
    (head : ∀ count < m.steps.length, oksAfter depth (m :: messages) count = count + 1) (past :
      ∀ count, oksAfter depth (m :: messages) (m.steps.length + count) =
          m.steps.length + oksAfter after messages count) :
    Paced depth (m :: messages) ↔ Paced after messages := by
  have total := length_stepsOf_cons m messages
  constructor
  · intro paced count few
    have here := paced (m.steps.length + count) (by omega)
    rw [past] at here
    omega
  · intro paced count few
    by_cases inside : count < m.steps.length
    · exact head count inside
    · obtain ⟨more, rfl⟩ : ∃ more, count = m.steps.length + more :=
        ⟨count - m.steps.length, by omega⟩
      rw [past, paced more (by omega)]
      omega

/-- A message that ends the loop: nothing after it is read. -/
theorem paced_last_iff
    (head : ∀ count < m.steps.length, oksAfter depth (m :: messages) count = count + 1)
    (past : ∀ count, oksAfter depth (m :: messages) (m.steps.length + count) = m.steps.length + 1) :
    Paced depth (m :: messages) ↔ messages = [] := by
  have total := length_stepsOf_cons m messages
  rw [← length_stepsOf_eq_zero]
  constructor
  · intro paced
    have here := paced (m.steps.length + (stepsOf messages).length) (by omega)
    rw [past] at here
    omega
  · intro zero count few
    by_cases inside : count < m.steps.length
    · exact head count inside
    · have whole : count = m.steps.length + 0 := by omega
      rw [whole, past]

variable {times : List Str} {mode name : Str} {content : List Char}

theorem paced_dir (deeper : depth + 1 ≠ 0) :
    Paced depth (.dir times mode name :: messages) ↔ Paced (depth + 1) messages := by
  have size := length_steps (.dir times mode name)
  simp only [Sent.times, Sent.data, List.length_nil, Nat.add_zero] at size
  apply paced_cons_iff
  · intro count inside
    apply oksAfter_of_le
    simp only [Sent.times]
    omega
  · intro count
    rw [size, oksAfter_dir, if_neg deeper]

theorem paced_endDir (deeper : depth - 1 ≠ 0) :
    Paced depth (.endDir times :: messages) ↔ Paced (depth - 1) messages := by
  have size := length_steps (.endDir times)
  simp only [Sent.times, Sent.data, List.length_nil, Nat.add_zero] at size
  apply paced_cons_iff
  · intro count inside
    apply oksAfter_of_le
    simp only [Sent.times]
    omega
  · intro count
    rw [size, oksAfter_endDir, if_neg deeper]

theorem paced_last_endDir : Paced 1 (.endDir times :: messages) ↔ messages = [] := by
  have size := length_steps (.endDir times)
  simp only [Sent.times, Sent.data, List.length_nil, Nat.add_zero] at size
  apply paced_last_iff
  · intro count inside
    apply oksAfter_of_le
    simp only [Sent.times]
    omega
  · intro count
    rw [size, oksAfter_endDir, if_pos (by omega)]

theorem paced_file : Paced 0 (.file times mode name content :: messages) ↔ messages = [] := by
  have size := length_steps (.file times mode name content)
  simp only [Sent.times, Sent.data, List.length_singleton] at size
  apply paced_last_iff
  · intro count inside
    rw [oksAfter, if_pos (by omega)]
  · intro count
    rw [size, oksAfter_file, if_pos rfl]

/-- A file inside a directory is answered once too often. -/
theorem not_paced_file (inside : depth ≠ 0) :
    ¬ Paced depth (.file times mode name content :: messages) := by
  have total := length_stepsOf_cons (.file times mode name content) messages
  have size := length_steps (.file times mode name content)
  simp only [Sent.times, Sent.data, List.length_singleton] at size
  intro paced
  have here := paced (times.length + 2 + 0) (by omega)
  rw [oksAfter_file, if_neg inside] at here
  have more : 0 < oksAfter depth messages 0 := by
    cases messages with
    | nil => exact Nat.one_pos
    | cons m messages =>
      rw [oksAfter_of_le _ _ _ (Nat.zero_le _)]
      omega
  omega

end Paced

namespace Items

/-- Directories only, at every depth. -/
def FileFree : Items → Prop
  | .nil => True
  | .file _ _ _ _ _ => False
  | .dir _ _ _ items _ rest => items.FileFree ∧ rest.FileFree

/-- At most one item, and no file inside a directory. -/
def InPace : Items → Prop
  | .nil => True
  | .file _ _ _ _ rest => rest = .nil
  | .dir _ _ _ items _ rest => items.FileFree ∧ rest = .nil

theorem sent_eq_nil {items : Items} : items.sent = [] ↔ items = .nil := by
  cases items with
  | nil => exact ⟨fun _ => rfl, fun _ => rfl⟩
  | file times mode name content rest => simp [sent]
  | dir times mode name items closing rest => simp [sent]

theorem paced_append (items : Items) :
    ∀ {depth : Int} {messages : List Sent}, 0 < depth →
      (Paced depth (items.sent ++ messages) ↔ items.FileFree ∧ Paced depth messages) := by
  induction items with
  | nil =>
    intro depth messages _
    simp [sent, FileFree]
  | file times mode name content rest _ =>
    intro depth messages inside
    have never := @not_paced_file (rest.sent ++ messages) depth times mode name content (by omega)
    simp [sent, FileFree, never]
  | dir times mode name items closing rest itemsHypothesis restHypothesis =>
    intro depth messages inside
    have back : depth + 1 - 1 = depth := by omega
    simp only [sent, FileFree, List.cons_append, List.append_assoc]
    rw [paced_dir (by omega), itemsHypothesis (by omega),
      paced_endDir (by omega), back, restHypothesis inside, and_assoc]

theorem paced_sent (items : Items) : Paced 0 items.sent ↔ items.InPace := by
  cases items with
  | nil => simp [sent, InPace, paced_nil]
  | file times mode name content rest => rw [sent, paced_file, sent_eq_nil, InPace]
  | dir times mode name items closing rest =>
    rw [sent, paced_dir (by omega), Int.zero_add,
      paced_append items (by omega), paced_last_endDir, sent_eq_nil, InPace]

end Items

/-- The sink answers every step once, and only after it: whatever part of the
session has arrived, the sink has written one OK byte at the start and one for
each complete step. -/
def RepliesInStep (cmd : ScpCommand) (settings : Settings) (w : World)
    (client : Channel) (os : Nat → Os) (session : Items) : Prop :=
  ∀ limit, (cmd.handleRecursiveUpload settings w (client.cut limit) os).channel.oks =
      Channel.arrivedParts (stepsOf session.sent) limit + 1

theorem stepsOf_ne_nil (messages : List Sent) : ∀ step ∈ stepsOf messages, step ≠ [] := by
  intro step member
  obtain ⟨m, _, inSteps⟩ := List.mem_flatMap.mp member
  rcases List.mem_append.mp inSteps with inLines | inData
  · simp only [Channel.messageParts, List.mem_append, List.mem_map, List.mem_singleton] at inLines
    rcases inLines with ⟨time, _, rfl⟩ | rfl
    · simp [newLine]
    · simp [newLine]
  · cases m with
    | file times mode name content =>
      rw [List.mem_singleton.mp inData]
      simp [okMsg]
    | dir times mode name => cases inData
    | endDir times => cases inData

/-- In a session without errors the sink answers in step exactly if the session
has one item, and no file inside a directory. -/
theorem replies_in_step_iff (cmd : ScpCommand) (settings : Settings) (w : World) (os : Nat → Os)
    {session : Items} (wellFormed : session.WellFormed) {client : Channel}
    (live : client.Live) (fresh : client.output = []) (sends : client.bytes = session.wire)
    (noError : (cmd.handleRecursiveUpload settings w client os).result = .ok) :
    RepliesInStep cmd settings w client os session ↔ session.InPace := by
  rw [← session.paced_sent]
  unfold ScpCommand.handleRecursiveUpload at noError
  cases given : cmd.getDestPath with
  | none =>
    rw [given] at noError
    cases noError
  | some destPath =>
    rw [given] at noError
    have counted : ∀ limit,
        (cmd.handleRecursiveUpload settings w (client.cut limit) os).channel.oks =
          oksAfter 0 session.sent (Channel.arrivedParts (stepsOf session.sent) limit) := by
      intro limit
      have cut :=
        sinkFrom_oks wellFormed (client.pending + 1) ((client.cut limit).pending + 1) limit
          ⟨0, 0, destPath, w, client⟩ live sends noError
          (by rw [Channel.pending_cut]; exact Nat.lt_succ_self _)
      have zero : client.oks = 0 := by
        simp [Channel.oks, fresh]
      simp only [zero, Nat.zero_add] at cut
      simp only [ScpCommand.handleRecursiveUpload, given]
      exact cut
    constructor
    · intro inStep count few
      have here := inStep ((stepsOf session.sent).take count).flatten.length
      rw [counted, Channel.arrivedParts_take (stepsOf_ne_nil _) few] at here
      exact here
    · intro paced limit
      rw [counted]
      exact paced _ (Channel.arrivedParts_le _ _)

def fileSession : Items :=
  .file ["T1 0 1 0".toList] "0644".toList "f".toList "x".toList .nil

def treeSession : Items :=
  .dir [] "0755".toList "d".toList (.file [] "0644".toList "f".toList "x".toList .nil) [] .nil

def clientOf (session : Items) : Channel :=
  ⟨[session.wire], [], [], false, none⟩

theorem file_session_in_step :
    RepliesInStep sinkCommand defaultSettings sampleWorld
      (clientOf fileSession) (fun _ => sampleOs) fileSession :=
  (replies_in_step_iff _ _ _ _ (by decide) ⟨rfl, by simp [clientOf]⟩ rfl
    (by decide +kernel) (by decide +kernel)).mpr rfl

/-- A session of four steps is answered six times. -/
theorem tree_session_not_in_step :
    ¬ RepliesInStep sinkCommand defaultSettings sampleWorld
      (clientOf treeSession) (fun _ => sampleOs) treeSession := by
  intro inStep
  have six :
      (sinkCommand.handleRecursiveUpload defaultSettings sampleWorld
        ((clientOf treeSession).cut 30) (fun _ => sampleOs)).channel.oks =
        6 := by
    decide +kernel
  have five : Channel.arrivedParts (stepsOf treeSession.sent) 30 + 1 = 5 := by
    decide +kernel
  have here := inStep 30
  rw [six, five] at here
  omega

end Sshserv.Serv
