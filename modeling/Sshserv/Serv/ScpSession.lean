import Sshserv.Serv.Dialogue
import Sshserv.Serv.ScpSink
import Sshserv.Serv.Writing

/-!
# Upload sessions of a source

What an SCP source sends: files and directories nested to any depth, each
message after any time messages.  A message is one or two steps: the line, and
for a file the data with the status byte.
-/

namespace Sshserv.Serv

open Lib UnixPath FileTree DataProvider

theorem parseInt_intText {n : Nat} (small : n < 2 ^ 63) :
    ScpCommand.parseInt (intText (n : Int)) = .ok n := by
  have digits : (intText (n : Int)).all isDigit = true :=
    List.all_eq_true.mpr fun c member => isDigit_of_mem_intText member
  have value := digitsValue_intText n
  have filled := intText_ne_nil n
  rcases text : intText (n : Int) with _ | ⟨first, rest⟩
  · exact absurd text filled
  have head : isDigit first = true := isDigit_of_mem_intText (n := n) (by simp [text])
  have notMinus : first ≠ '-' := by
    rintro rfl
    simp [isDigit] at head
  have notPlus : first ≠ '+' := by
    rintro rfl
    simp [isDigit] at head
  rw [text] at digits value
  unfold ScpCommand.parseInt
  split
  · simp_all
  · simp_all
  · simp only [digits, not_true_eq_false, reduceCtorEq, or_self, if_false,
      Bool.false_eq_true, value]
    rw [if_pos ⟨by omega, by omega⟩]

/-- A message of a source, after its time messages. -/
inductive Sent where
  | dir (times : List Str) (mode name : Str)
  | file (times : List Str) (mode name : Str) (content : List Char)
  | endDir (times : List Str)
  deriving DecidableEq

namespace Sent

def times : Sent → List Str
  | .dir times _ _ => times
  | .file times _ _ _ => times
  | .endDir times => times

def line : Sent → Str
  | .dir _ mode name => ['D'] ++ mode ++ [' ', '0', ' '] ++ name
  | .file _ mode name content => ['C'] ++ mode ++ [' '] ++ intText content.length ++ [' '] ++ name
  | .endDir _ => ['E']

def message : Sent → Message
  | .dir _ _ name => .dir name
  | .file _ _ name content => .file content.length name
  | .endDir _ => .endDir

/-- The data of a file, with the status of the source. -/
def data : Sent → List (List Char)
  | .file _ _ _ content => [content ++ okMsg]
  | _ => []

/-- The steps of a message: the source waits for an answer after each one. -/
def steps (m : Sent) : List (List Char) :=
  Channel.messageParts m.times m.line ++ m.data

/-- A text without blanks and newlines. -/
def Word (text : Str) : Prop :=
  ' ' ∉ text ∧ '\n' ∉ text

instance (text : Str) : Decidable (Word text) :=
  inferInstanceAs (Decidable (_ ∧ _))

/-- The message can be read back: its fields are words, the name is not empty
and the size fits in 64 bits. -/
def WellFormed : Sent → Prop
  | .dir times mode name =>
    (∀ time ∈ times, Channel.TimeMessage time) ∧ Word mode ∧ Word name ∧ name ≠ []
  | .file times mode name content =>
    (∀ time ∈ times, Channel.TimeMessage time) ∧ Word mode ∧ Word name ∧
      name ≠ [] ∧ content.length < 2 ^ 63
  | .endDir times => ∀ time ∈ times, Channel.TimeMessage time

instance : ∀ m : Sent, Decidable m.WellFormed
  | .dir _ _ _ => inferInstanceAs (Decidable (_ ∧ _))
  | .file _ _ _ _ => inferInstanceAs (Decidable (_ ∧ _))
  | .endDir times => inferInstanceAs (Decidable (∀ time ∈ times, Channel.TimeMessage time))

variable {m : Sent}

theorem WellFormed.timed (wellFormed : m.WellFormed) :
    ∀ time ∈ m.times, Channel.TimeMessage time := by
  cases m with
  | dir times mode name => exact wellFormed.1
  | file times mode name content => exact wellFormed.1
  | endDir times => exact wellFormed

theorem not_time_line (m : Sent) : ¬ ['T'] <+: m.line := by
  cases m with
  | dir times mode name => simp [line]
  | file times mode name content => simp [line]
  | endDir times => simp [line]

theorem WellFormed.newline_not_mem (wellFormed : m.WellFormed) : '\n' ∉ m.line := by
  cases m with
  | dir times mode name =>
    obtain ⟨_, ⟨_, modeLine⟩, ⟨_, nameLine⟩, _⟩ := wellFormed
    simp [line, modeLine, nameLine]
  | file times mode name content =>
    obtain ⟨_, ⟨_, modeLine⟩, ⟨_, nameLine⟩, _⟩ := wellFormed
    have digits : '\n' ∉ intText (content.length : Int) := by
      intro member
      have digit := isDigit_of_mem_intText member
      simp [isDigit] at digit
    simp [line, modeLine, nameLine, digits]
  | endDir times => simp [line]

private theorem splitOn_words
    {first second third : Str} (left : ' ' ∉ first) (middle : ' ' ∉ second) (right : ' ' ∉ third) :
    (first ++ [' '] ++ second ++ [' '] ++ third).splitOn ' ' = [first, second, third] := by
  have whole :
      first ++ [' '] ++ second ++ [' '] ++ third = [' '].intercalate [first, second, third] := by
    simp [List.intercalate, List.intersperse]
  rw [whole]
  apply List.splitOn_intercalate
  · simp only [List.mem_cons, List.not_mem_nil, or_false, forall_eq_or_imp, forall_eq]
    exact ⟨left, middle, right⟩
  · simp

theorem decode_line (wellFormed : m.WellFormed) (cmd : ScpCommand) (os : Os) :
    cmd.decode os m.line = m.message := by
  cases m with
  | endDir times => simp [ScpCommand.decode, line, message]
  | dir times mode name =>
    obtain ⟨_, ⟨modeWord, _⟩, ⟨nameWord, _⟩, filled⟩ := wellFormed
    have shape :
        (Sent.dir times mode name).line = ('D' :: mode) ++ [' '] ++ ['0'] ++ [' '] ++ name := by
      simp [line]
    have words : (Sent.dir times mode name).line.splitOn ' ' = ['D' :: mode, ['0'], name] := by
      rw [shape]
      exact splitOn_words (by simp [modeWord]) (by simp) nameWord
    have zero : ScpCommand.parseInt ['0'] = .ok 0 := by decide
    have starts : ['D'] <+: (Sent.dir times mode name).line := by
      simp [line]
    have notEnd : ¬ ['E'] <+: (Sent.dir times mode name).line := by
      simp [line]
    simp [ScpCommand.decode, ScpCommand.parseUploadMessage, words, zero,
      filled, starts, notEnd, message]
  | file times mode name content =>
    obtain ⟨_, ⟨modeWord, _⟩, ⟨nameWord, _⟩, filled, small⟩ := wellFormed
    have digits : ' ' ∉ intText (content.length : Int) := by
      intro member
      have digit := isDigit_of_mem_intText member
      simp [isDigit] at digit
    have shape :
        (Sent.file times mode name content).line =
          ('C' :: mode) ++ [' '] ++ intText content.length ++ [' '] ++ name := by
      simp [line]
    have words :
        (Sent.file times mode name content).line.splitOn ' ' =
          ['C' :: mode, intText content.length, name] := by
      rw [shape]
      exact splitOn_words (by simp [modeWord]) digits nameWord
    have starts : ['C'] <+: (Sent.file times mode name content).line := by
      simp [line]
    have notDir : ¬ ['D'] <+: (Sent.file times mode name content).line := by
      simp [line]
    have notEnd : ¬ ['E'] <+: (Sent.file times mode name content).line := by
      simp [line]
    simp [ScpCommand.decode, ScpCommand.parseUploadMessage, words,
      parseInt_intText small, filled, starts, notDir, notEnd, message]

end Sent

def stepsOf (messages : List Sent) : List (List Char) :=
  messages.flatMap Sent.steps

/-- Items that a source sends one after the other.  Each line has its time
messages; so has the message that closes a directory. -/
inductive Items where
  | nil
  | file (times : List Str) (mode name : Str) (content : List Char)
      (rest : Items)
  | dir (times : List Str) (mode name : Str) (items : Items)
      (closing : List Str) (rest : Items)
  deriving DecidableEq

namespace Items

def sent : Items → List Sent
  | .nil => []
  | .file times mode name content rest => .file times mode name content :: rest.sent
  | .dir times mode name items closing rest =>
    .dir times mode name :: (items.sent ++ .endDir closing :: rest.sent)

def wire (items : Items) : List Char :=
  (stepsOf items.sent).flatten

def WellFormed (items : Items) : Prop :=
  ∀ m ∈ items.sent, m.WellFormed

instance (items : Items) : Decidable items.WellFormed :=
  inferInstanceAs (Decidable (∀ m ∈ items.sent, m.WellFormed))

end Items

section Received

variable (cmd : ScpCommand) (os : Nat → Os) {m : Sent} {s : SinkState} {rest : List Char}

theorem received_dialogue (wellFormed : m.WellFormed) (live : s.channel.Live)
    (bytes : s.channel.bytes = (Channel.messageParts m.times m.line).flatten ++ rest) :
    ∃ next, Channel.Dialogue (fun ch => cmd.received os { s with channel := ch })
        s.channel next (.ok m.message)
        (Channel.messageParts m.times m.line).flatten
        (List.replicate (m.times.length + 1) (Char.ofNat 0)) := by
  obtain ⟨answered, answer⟩ := Channel.sendConfirmationMessage_dialogue live
  obtain ⟨next, read⟩ :=
    Channel.getNextUploadProtocolMessage_dialogue answer.talks.live
      wellFormed.timed m.not_time_line wellFormed.newline_not_mem
      (answer.talks.bytes bytes)
  refine ⟨next, answer.talks.trans read.talks, fun limit arrived => ?_⟩
  have first := answer.upto limit (by simp)
  simp only [ScpCommand.received, first, List.length_nil, Nat.sub_zero,
    read.upto limit arrived, m.decode_line wellFormed]

/-- Before the message has arrived, its time messages are answered. -/
theorem received_short (wellFormed : m.WellFormed) (live : s.channel.Live)
    (bytes : s.channel.bytes = (Channel.messageParts m.times m.line).flatten ++ rest) {limit : Nat}
    (short : limit < (Channel.messageParts m.times m.line).flatten.length) :
    ∃ next, cmd.received os { s with channel := s.channel.cut limit } = (next, .error eofText) ∧
        next.oks =
          s.channel.oks + 1 + Channel.arrivedParts (Channel.messageParts m.times m.line) limit := by
  obtain ⟨answered, answer⟩ := Channel.sendConfirmationMessage_dialogue live
  obtain ⟨next, failed, output⟩ :=
    Channel.getNextUploadProtocolMessage_short answer.talks.live
      wellFormed.timed wellFormed.newline_not_mem (answer.talks.bytes bytes)
      short
  have first := answer.upto limit (by simp)
  refine ⟨next, ?_, ?_⟩
  · simp only [ScpCommand.received, first, List.length_nil, Nat.sub_zero, failed]
  · have before := answer.talks.oks
    unfold Channel.oks at before ⊢
    rw [output, List.count_append, before]
    simp [okMsg]

theorem received_empty (live : s.channel.Live) (empty : s.channel.bytes = []) :
    ∃ next, cmd.received os s = (next, .error eofText) := by
  obtain ⟨answered, answer⟩ := Channel.sendConfirmationMessage_dialogue live
  have unended : '\n' ∉ answered.bytes := by
    have left := answer.talks.rest
    rw [empty, List.nil_append] at left
    simp [← left]
  obtain ⟨next, failed, _⟩ := Channel.readProtocolMessage_unended unended
  refine ⟨next, ?_⟩
  simp only [ScpCommand.received, answer.whole,
    Channel.getNextUploadProtocolMessage, Channel.skipTimes, failed]

end Received

section Data

variable (settings : Settings) (os : Os) (ref : Nat)

theorem receive_upto (sizeToRead : Int) :
    ∀ (length : Nat) {content rest : List Char} {bufLen : Nat} {ch : Channel},
      content.length = length → ch.Live → ch.bytes = content ++ rest →
      0 < bufLen → bufLen ≤ length →
      ∃ chunks next, chunks.flatten = content ∧
        Channel.Talks ch next content [] ∧
        ∀ fuel limit index w, length ≤ fuel → length ≤ limit →
          receive settings os ref sizeToRead fuel index length bufLen w (ch.cut limit) =
            ⟨Transfer.writeAll os ref index (sizeToRead - length) chunks w,
              next.cut (limit - length), length, true⟩ := by
  intro length
  induction length using Nat.strong_induction_on with
  | _ length ih =>
    intro content rest bufLen ch size live bytes room small
    have filled : ch.bytes ≠ [] := by
      rw [bytes]
      intro empty
      have gone := (List.append_eq_nil_iff.mp empty).1
      rw [gone, List.length_nil] at size
      omega
    obtain ⟨taken, after, read, takenSome⟩ := Channel.read_of_bytes ch room filled
    obtain ⟨reads, short⟩ := Channel.read_eq_some read
    have positive : 0 < taken.length := List.length_pos_iff.mpr takenSome
    -- A buffer is never longer than the data that is left.
    obtain ⟨left, split⟩ : ∃ left, content = taken ++ left := by
      have whole := reads.rest
      rw [bytes] at whole
      rcases List.append_eq_append_iff.mp whole with
        ⟨extra, same, _⟩ | ⟨left, same, _⟩
      · have lengths := congrArg List.length same
        rw [List.length_append] at lengths
        have nothing : extra = [] := List.length_eq_zero_iff.mp (by omega)
        rw [nothing, List.append_nil] at same
        exact ⟨[], by rw [same, List.append_nil]⟩
      · exact ⟨left, same⟩
    have lengths := congrArg List.length split
    rw [List.length_append] at lengths
    have talks := reads.talks live
    have remaining : after.bytes = left ++ rest :=
      talks.bytes (by rw [bytes, split, List.append_assoc])
    by_cases done : left = []
    · subst done
      rw [List.append_nil] at split
      subst split
      refine ⟨[content], after, by simp, talks, ?_⟩
      intro fuel limit index w fueled arrived
      obtain ⟨less, rfl⟩ : ∃ less, fuel = less + 1 := ⟨fuel - 1, by omega⟩
      have readCut := Channel.read_cut read (size ▸ arrived) takenSome
      have finished : (length : Int) - (content.length : Int) ≤ 0 := by
        omega
      simp only [receive, readCut, if_pos finished]
      simp only [Transfer.writeAll, size]
    · have leftSome : 0 < left.length := List.length_pos_iff.mpr done
      obtain ⟨chunks, next, flat, more, run⟩ :=
        @ih left.length (by omega) left rest
          (if (length : Int) - taken.length < bufLen then
            ((length : Int) - taken.length).toNat
          else bufLen)
          after rfl talks.live remaining (by split <;> omega)
          (by split <;> omega)
      refine ⟨taken :: chunks, next, by simp [flat, split], ?_, ?_⟩
      · rw [split]
        exact talks.trans more
      · intro fuel limit index w fueled arrived
        obtain ⟨less, rfl⟩ : ∃ less, fuel = less + 1 := ⟨fuel - 1, by omega⟩
        have readCut :=
          Channel.read_cut read (show taken.length ≤ limit by omega)
            takenSome
        have unfinished : ¬ (length : Int) - (taken.length : Int) ≤ 0 := by
          omega
        have leftInt : (length : Int) - (taken.length : Int) = left.length := by
          omega
        have later :=
          run less (limit - taken.length) (index + 1)
            (Transfer.writeAt os index w ref taken (sizeToRead - length)).1 (by omega) (by omega)
        rw [leftInt] at later unfinished
        simp only [receive, readCut, leftInt, unfinished, if_false, later, Transfer.writeAll]
        have offset :
            sizeToRead - (length : Int) + (taken.length : Int) = sizeToRead - left.length := by
          omega
        have cutLeft : limit - taken.length - left.length = limit - length := by
          omega
        have read' : taken.length + left.length = length := by omega
        rw [offset, cutLeft, read']

theorem receive_short (sizeToRead : Int) (fuel : Nat) :
    ∀ {index : Nat} {remaining : Int} {bufLen : Nat} {w : World}
      {ch : Channel}, (ch.pending : Int) < remaining →
      (receive settings os ref sizeToRead fuel index remaining bufLen w ch).ok = false ∧
        (receive settings os ref sizeToRead fuel index remaining bufLen w
          ch).channel.oks = ch.oks := by
  have quiet : Char.ofNat 0 ∉ eofText := by decide
  induction fuel with
  | zero =>
    intro index remaining bufLen w ch short
    exact ⟨rfl, ch.oks_sendErrorMessage quiet⟩
  | succ fuel ih =>
    intro index remaining bufLen w ch short
    rw [receive]
    cases read : ch.read bufLen with
    | none => exact ⟨rfl, ch.oks_sendErrorMessage quiet⟩
    | some result =>
      obtain ⟨taken, after⟩ := result
      have reads := (Channel.read_eq_some read).1
      have lengths := congrArg List.length reads.rest
      rw [List.length_append, ← Channel.pending_eq_length, ← Channel.pending_eq_length] at lengths
      have unfinished : ¬ remaining - (taken.length : Int) ≤ 0 := by omega
      simp only [unfinished, if_false]
      have later : (after.pending : Int) < remaining - (taken.length : Int) := by
        omega
      have same : after.oks = ch.oks := by
        unfold Channel.oks
        rw [reads.output]
      rw [← same]
      exact ih later

variable {content rest : List Char} {ch : Channel}

theorem receiveData_upto (live : ch.Live) (bytes : ch.bytes = content ++ rest) :
    ∃ chunks next, chunks.flatten = content ∧
      Channel.Talks ch next content [] ∧
      ∀ limit w, content.length ≤ limit →
        (if (content.length : Int) > 0 then
            receive settings os ref content.length
              ((ch.cut limit).pending + 1) 0 content.length
              (min 32768 (content.length : Int).toNat) w (ch.cut limit)
          else ⟨w, ch.cut limit, 0, true⟩) =
          (⟨Transfer.writeAll os ref 0 0 chunks w,
            next.cut (limit - content.length), content.length,
            true⟩ : Received) := by
  by_cases empty : content = []
  · subst empty
    exact ⟨[], ch, rfl, Channel.Talks.refl live, fun limit w _ => rfl⟩
  · have positive : 0 < content.length := List.length_pos_iff.mpr empty
    obtain ⟨chunks, next, flat, data, run⟩ :=
      @receive_upto settings os ref content.length content.length content rest
        (min 32768 (content.length : Int).toNat) ch rfl live bytes (by omega)
        (by omega)
    refine ⟨chunks, next, flat, data, fun limit w arrived => ?_⟩
    rw [if_pos (by omega), run _ limit 0 w ?_ arrived, Int.sub_self]
    rw [Channel.pending_cut, Channel.pending_eq_length, bytes, List.length_append]
    omega

theorem getUploadFileData_upto (live : ch.Live) (bytes : ch.bytes = (content ++ okMsg) ++ rest) :
    ∃ chunks answered, chunks.flatten = content ∧
      Channel.Talks ch answered (content ++ okMsg) [Char.ofNat 0, Char.ofNat 0] ∧
      ∀ limit w, (content ++ okMsg).length ≤ limit →
        (∀ after,
          Transfer.close settings os (Transfer.writeAll os ref 0 0 chunks w) ref = (after, none) →
            getUploadFileData settings os w (ch.cut limit) content.length ref =
              ⟨⟨after, answered.cut (limit - (content ++ okMsg).length), .ok⟩, content.length⟩) ∧
        ((getUploadFileData settings os w (ch.cut limit) content.length ref).result = .ok →
          (Transfer.close settings os (Transfer.writeAll os ref 0 0 chunks w) ref).2 = none) := by
  obtain ⟨ready, first⟩ := Channel.sendConfirmationMessage_dialogue live
  have readyBytes : ready.bytes = content ++ (okMsg ++ rest) :=
    first.talks.bytes (by simpa using bytes)
  obtain ⟨chunks, filled, flat, data, loop⟩ :=
    receiveData_upto settings os ref first.talks.live readyBytes
  obtain ⟨confirmed, status⟩ :=
    Channel.readConfirmationMessage_dialogue data.live (data.bytes readyBytes)
  obtain ⟨answered, answer⟩ := Channel.sendConfirmationMessage_dialogue status.talks.live
  have whole := ((first.talks.trans data).trans status.talks).trans answer.talks
  refine ⟨chunks, answered, flat, by simpa [okMsg] using whole, ?_⟩
  intro limit w arrived
  rw [List.length_append] at arrived ⊢
  have dataArrived : content.length ≤ limit := by omega
  have firstCut := first.upto limit (by simp)
  have statusCut := status.upto (limit - content.length) (by omega)
  have answerCut := answer.upto (limit - content.length - okMsg.length) (by simp)
  simp only [List.length_nil, Nat.sub_zero] at firstCut answerCut
  simp only [getUploadFileData, firstCut, loop limit w dataArrived, if_true,
    finishUpload, statusCut, answerCut, ← Nat.sub_sub]
  refine ⟨fun after closed => by rw [closed], ?_⟩
  rcases Transfer.close settings os (Transfer.writeAll os ref 0 0 chunks w)
    ref with ⟨after, _ | err⟩
  · exact fun _ => rfl
  · intro done
    cases done

theorem getUploadFileData_stored (live : ch.Live) (bytes : ch.bytes = (content ++ okMsg) ++ rest)
    {w : World} (stored : (getUploadFileData settings os w ch content.length ref).result = .ok) :
    ∃ after answered,
      Channel.Talks ch answered (content ++ okMsg) [Char.ofNat 0, Char.ofNat 0] ∧
      getUploadFileData settings os w ch content.length ref =
        ⟨⟨after, answered, .ok⟩, content.length⟩ ∧
      ∀ limit, (content ++ okMsg).length ≤ limit →
        getUploadFileData settings os w (ch.cut limit) content.length ref =
          ⟨⟨after, answered.cut (limit - (content ++ okMsg).length), .ok⟩, content.length⟩ := by
  obtain ⟨chunks, answered, _, talks, upto⟩ := getUploadFileData_upto settings os ref live bytes
  have left := talks.pending
  have all : ch.cut ch.pending = ch := Channel.cut_of_pending_le le_rfl
  have closes := (upto ch.pending w (by omega)).2
  rw [all] at closes
  obtain ⟨after, closed⟩ :
      ∃ after,
        Transfer.close settings os (Transfer.writeAll os ref 0 0 chunks w) ref = (after, none) :=
    ⟨_, Prod.ext rfl (closes stored)⟩
  have whole := (upto ch.pending w (by omega)).1 after closed
  rw [all, Channel.cut_of_pending_le (by omega)] at whole
  exact ⟨after, answered, talks, whole, fun limit arrived => (upto limit w arrived).1 after closed⟩

theorem getUploadFileData_short (live : ch.Live) (bytes : ch.bytes = (content ++ okMsg) ++ rest)
    {limit : Nat} (short : limit < (content ++ okMsg).length) (w : World) :
    (getUploadFileData settings os w (ch.cut limit) content.length ref).result ≠ .ok ∧
      (getUploadFileData settings os w (ch.cut limit) content.length
        ref).channel.oks = ch.oks + 1 := by
  obtain ⟨ready, first⟩ := Channel.sendConfirmationMessage_dialogue live
  have readyBytes : ready.bytes = content ++ (okMsg ++ rest) :=
    first.talks.bytes (by simpa using bytes)
  have readyOks : ready.oks = ch.oks + 1 := first.talks.oks
  have firstCut := first.upto limit (by simp)
  simp only [List.length_nil, Nat.sub_zero] at firstCut
  simp only [getUploadFileData, firstCut]
  by_cases data : content.length ≤ limit
  · -- The data is complete and the status is missing.
    have exactly : limit = content.length := by
      simp [okMsg] at short
      omega
    obtain ⟨chunks, filled, _, talks, loop⟩ :=
      receiveData_upto settings os ref first.talks.live readyBytes
    have empty : (filled.cut (limit - content.length)).bytes = [] := by
      simp [exactly]
    simp only [loop limit w data, if_true, finishUpload,
      Channel.readConfirmationMessage_empty empty]
    have kept : filled.oks = ready.oks := talks.oks
    refine ⟨by simp, ?_⟩
    rw [← readyOks, ← kept]
    rfl
  · have positive : (content.length : Int) > 0 := by omega
    rw [if_pos positive]
    obtain ⟨failed, same⟩ :=
      @receive_short settings os ref content.length
        ((ready.cut limit).pending + 1) 0 content.length
        (min 32768 (content.length : Int).toNat) w (ready.cut limit)
        (by rw [Channel.pending_cut]; omega)
    simp only [failed, Bool.false_eq_true, if_false]
    exact ⟨by simp, by rw [same, Channel.oks_cut, readyOks]⟩

end Data

section Handling

variable {cmd : ScpCommand} {settings : Settings}

variable {w : World} {ch : Channel} {taken sent : List Char}

theorem handleCreateDir_channel {os : Os} {dirPath : Str}
    (done : (cmd.handleCreateDir os w ch dirPath).result = .ok) (other : Channel) :
    cmd.handleCreateDir os w other dirPath =
      ⟨(cmd.handleCreateDir os w ch dirPath).world, other, .ok⟩ := by
  obtain ⟨permitted, p, fs, built, made, equal⟩ := handleCreateDir_ok done
  rw [equal]
  simp only [ScpCommand.handleCreateDir, permitted, not_true_eq_false,
    if_false, built, ScpCommand.createDir, made]

/-- An upload that succeeds on some channel is its data phase on every
channel. -/
theorem handleUpload_channel {os : Os} {rawPath : Str} {sizeToRead : Int}
    (done : (cmd.handleUpload settings os w ch rawPath sizeToRead).result = .ok) :
    ∃ opened ref, cmd.connection.scpOpen settings os w rawPath = (opened, some ref) ∧
      ∀ other, cmd.handleUpload settings os w other rawPath sizeToRead =
          getUploadFileData settings os opened other sizeToRead ref := by
  have continues := handleUpload_continues cmd settings os ch sizeToRead w rawPath
  rcases same : cmd.connection.scpOpen settings os w rawPath with
    ⟨opened, _ | ref⟩
  · rw [same] at continues
    exact absurd done continues.2
  · refine ⟨opened, ref, rfl, fun other => ?_⟩
    have again := handleUpload_continues cmd settings os other sizeToRead w rawPath
    rw [same] at again
    exact again.2

variable {os : Nat → Os} {m : Sent} {s : SinkState} {next : Channel}

theorem turn_upto (dialogue :
      Channel.Dialogue (fun ch => cmd.received os { s with channel := ch })
        s.channel next (.ok m.message) taken sent)
    {limit : Nat} (arrived : taken.length ≤ limit) :
    cmd.turn settings os { s with channel := s.channel.cut limit } =
      cmd.handleMessage settings (os s.index)
        { s with channel := next.cut (limit - taken.length) } m.message := by
  have got := dialogue.upto limit arrived
  simp only [ScpCommand.turn, got]

theorem turn_whole (dialogue :
      Channel.Dialogue (fun ch => cmd.received os { s with channel := ch })
        s.channel next (.ok m.message) taken sent) :
    cmd.turn settings os s =
      cmd.handleMessage settings (os s.index) { s with channel := next } m.message := by
  have got : cmd.received os s = (next, .ok m.message) := dialogue.whole
  simp only [ScpCommand.turn, got]

end Handling

end Sshserv.Serv
