import Sshserv.Serv.Channel

/-!
# Dialogues on a channel that works

What the functions of a channel read and write if the channel is open and no
write fails.  A client may stop sending after any byte: `cut` is the channel
that delivers only the first bytes, in the same chunks.
-/

namespace Sshserv.Serv

open Lib.UnixPath

namespace Channel

/-- The channel is open and none of its writes fails. -/
def Live (ch : Channel) : Prop :=
  ch.closed = false ∧ ∀ ok ∈ ch.writeOks, ok = true

/-- `next` is a working channel after `taken` has been read from it and `sent`
has been written to it. -/
structure Talks (ch next : Channel) (taken sent : List Char) : Prop where
  rest : ch.bytes = taken ++ next.bytes
  output : next.output = ch.output ++ sent
  live : next.Live

namespace Talks

variable {first second third : Channel} {taken more sent answer : List Char}

theorem refl {ch : Channel} (live : ch.Live) : Talks ch ch [] [] :=
  ⟨rfl, by simp, live⟩

theorem trans (left : Talks first second taken sent) (right : Talks second third more answer) :
    Talks first third (taken ++ more) (sent ++ answer) := by
  refine ⟨?_, ?_, right.live⟩
  · rw [left.rest, right.rest, List.append_assoc]
  · rw [right.output, left.output, List.append_assoc]

theorem bytes (talks : Talks first second taken sent) {rest : List Char}
    (whole : first.bytes = taken ++ rest) :
    second.bytes = rest := by
  have same := talks.rest
  rw [whole] at same
  exact (List.append_cancel_left same).symm

theorem pending (talks : Talks first second taken sent) :
    first.pending = taken.length + second.pending := by
  rw [pending_eq_length, pending_eq_length, talks.rest, List.length_append]

end Talks

variable {ch next : Channel} {taken rest : List Char} {count : Nat}

theorem Reads.talks (reads : Reads ch next taken) (live : ch.Live) : Talks ch next taken [] := by
  refine ⟨reads.rest, ?_, ?_⟩
  · rw [reads.output, List.append_nil]
  · unfold Live
    rw [reads.closed, reads.writeOks]
    exact live

/-- The first bytes of some chunks. -/
def cutChunks : Nat → List (List Char) → List (List Char)
  | _, [] => []
  | count, chunk :: rest => chunk.take count :: cutChunks (count - chunk.length) rest

/-- The channel of a client that sends only the first bytes. -/
def cut (ch : Channel) (count : Nat) : Channel :=
  { ch with input := cutChunks count ch.input }

theorem flatten_cutChunks (chunks : List (List Char)) :
    ∀ count, (cutChunks count chunks).flatten = chunks.flatten.take count := by
  induction chunks with
  | nil =>
    intro count
    simp [cutChunks]
  | cons chunk rest ih =>
    intro count
    rw [cutChunks, List.flatten_cons, List.flatten_cons, List.take_append, ih]

@[simp]
theorem bytes_cut (ch : Channel) (count : Nat) : (ch.cut count).bytes = ch.bytes.take count :=
  flatten_cutChunks ch.input count

@[simp]
theorem output_cut (ch : Channel) (count : Nat) : (ch.cut count).output = ch.output := rfl

theorem cutChunks_of_length_le (chunks : List (List Char)) :
    ∀ count, chunks.flatten.length ≤ count → cutChunks count chunks = chunks := by
  induction chunks with
  | nil =>
    intro count _
    rfl
  | cons chunk rest ih =>
    intro count enough
    rw [List.flatten_cons, List.length_append] at enough
    rw [cutChunks, List.take_of_length_le (by omega), ih _ (by omega)]

theorem cut_of_pending_le (enough : ch.pending ≤ count) : ch.cut count = ch := by
  rw [pending_eq_length] at enough
  unfold cut
  rw [cutChunks_of_length_le ch.input count enough]

variable {limit : Nat} {sent line : List Char} {times : List Str} {parts : List (List Char)}

private theorem dropWhile_cutChunks (input : List (List Char)) {head : List Char}
    {tail : List (List Char)} (skipped : input.dropWhile List.isEmpty = head :: tail)
    (arrived : (head.take count).length ≤ limit) (filled : head.take count ≠ []) :
    ∃ start rest, (cutChunks limit input).dropWhile List.isEmpty = start :: rest ∧
        start.take count = head.take count ∧
        start.drop count :: rest =
          cutChunks (limit - (head.take count).length) (head.drop count :: tail) := by
  induction input with
  | nil => simp at skipped
  | cons chunk others ih =>
    cases chunk with
    | nil =>
      have later : others.dropWhile List.isEmpty = head :: tail := by
        simpa using skipped
      simp only [cutChunks, List.take_nil, List.length_nil, Nat.sub_zero,
        List.dropWhile_cons, List.isEmpty_nil, if_true]
      exact ih later
    | cons byte bytes =>
      have same : byte :: bytes = head ∧ others = tail := by
        simpa using skipped
      obtain ⟨rfl, rfl⟩ := same
      have positive : 0 < ((byte :: bytes).take count).length := List.length_pos_iff.mpr filled
      obtain ⟨less, rfl⟩ : ∃ less, limit = less + 1 := ⟨limit - 1, by omega⟩
      rw [List.length_take] at arrived
      refine ⟨(byte :: bytes).take (less + 1),
        cutChunks (less + 1 - (byte :: bytes).length) others, ?_, ?_, ?_⟩
      · simp [cutChunks]
      · rw [List.take_take]
        by_cases inside : count ≤ less + 1
        · rw [Nat.min_eq_left inside]
        · rw [List.take_of_length_le, List.take_of_length_le]
          · omega
          · omega
      · rw [cutChunks, List.drop_take, List.length_take, List.length_drop]
        congr 1
        · by_cases inside : count ≤ (byte :: bytes).length
          · rw [Nat.min_eq_left inside]
          · rw [List.drop_of_length_le (by omega)]
            simp
        · congr 1
          omega

/-- Reading from the first bytes what would have been read from all of
them. -/
theorem read_cut (read : ch.read count = some (taken, next)) (arrived : taken.length ≤ limit)
    (filled : taken ≠ []) :
    (ch.cut limit).read count = some (taken, next.cut (limit - taken.length)) := by
  unfold Channel.read at read ⊢
  split at read
  · cases read
  · rename_i head tail skipped
    simp only [Option.some.injEq, Prod.mk.injEq] at read
    obtain ⟨rfl, rfl⟩ := read
    obtain ⟨start, rest, found, taken, left⟩ := dropWhile_cutChunks ch.input skipped arrived filled
    simp only [cut, found, taken, left]

theorem write_cut (ch : Channel) (message : List Char) (limit : Nat) :
    (ch.cut limit).write message = ((ch.write message).1.cut limit, (ch.write message).2) := by
  unfold write
  by_cases closed : ch.closed = true
  · simp [cut, closed]
  · rcases outcomes : ch.writeOks with _ | ⟨_ | _, rest⟩
    · simp [cut, closed, outcomes]
    · simp [cut, closed, outcomes]
    · simp [cut, closed, outcomes]

/-- `f` reads `taken`, writes `sent` and returns `value` as soon as `taken` has
arrived. -/
structure Dialogue {α : Type} (f : Channel → Channel × α) (ch next : Channel)
    (value : α) (taken sent : List Char) : Prop where
  talks : Talks ch next taken sent
  upto : ∀ limit, taken.length ≤ limit → f (ch.cut limit) = (next.cut (limit - taken.length), value)

theorem Dialogue.whole {α : Type} {f : Channel → Channel × α} {value : α}
    (dialogue : Dialogue f ch next value taken sent) :
    f ch = (next, value) := by
  have consumed := dialogue.talks.pending
  have same := dialogue.upto ch.pending (by omega)
  rw [cut_of_pending_le le_rfl, cut_of_pending_le (by omega)] at same
  exact same

theorem pending_cut (ch : Channel) (limit : Nat) :
    (ch.cut limit).pending = min limit ch.pending := by
  rw [pending_eq_length, pending_eq_length, bytes_cut, List.length_take]

theorem write_live (live : ch.Live) (message : List Char) :
    ∃ next, ch.write message = (next, true) ∧ Talks ch next [] message := by
  obtain ⟨opened, oks⟩ := live
  unfold write
  rw [if_neg (by simp [opened])]
  rcases outcomes : ch.writeOks with _ | ⟨ok, rest⟩
  · exact ⟨_, rfl, rfl, rfl, opened, by simp⟩
  · have good : ok = true := oks ok (by simp [outcomes])
    subst good
    refine ⟨_, rfl, rfl, rfl, opened, fun other member => ?_⟩
    have later : other ∈ rest := member
    exact oks other (by simp [outcomes, later])

theorem sendProtocolMessage_dialogue (live : ch.Live) (message : List Char) :
    ∃ next, Dialogue (fun ch => ch.sendProtocolMessage message) ch next true [] message := by
  obtain ⟨next, written, talks⟩ := write_live live message
  refine ⟨next, talks, fun limit _ => ?_⟩
  simp [sendProtocolMessage, write_cut, written]

theorem sendConfirmationMessage_dialogue (live : ch.Live) :
    ∃ next, Dialogue sendConfirmationMessage ch next true [] okMsg :=
  sendProtocolMessage_dialogue live okMsg

theorem readLine_upto (single : '\n' ∉ line) :
    ∀ {ch : Channel}, ch.bytes = line ++ '\n' :: rest →
      ∃ next, Reads ch next (line ++ newLine) ∧
        ∀ fuel limit, line.length < fuel → line.length < limit →
          readLine fuel (ch.cut limit) = (line, next.cut (limit - (line.length + 1)), true) := by
  induction line with
  | nil =>
    intro ch bytes
    obtain ⟨next, read, reads⟩ := read_one bytes
    refine ⟨next, reads, fun fuel limit fueled arrived => ?_⟩
    obtain ⟨less, rfl⟩ : ∃ less, fuel = less + 1 := ⟨fuel - 1, by omega⟩
    have short := read_cut read (show 1 ≤ limit from arrived) (by simp)
    simp [readLine, short, newLine]
  | cons first line ih =>
    intro ch bytes
    obtain ⟨after, read, reads⟩ := read_one bytes
    have other : first ≠ '\n' := by
      rintro rfl
      exact single List.mem_cons_self
    have remaining : after.bytes = line ++ '\n' :: rest := by
      have whole := reads.rest
      rw [bytes] at whole
      simpa using whole.symm
    obtain ⟨next, moreReads, more⟩ :=
      ih (fun member => single (List.mem_cons_of_mem _ member)) remaining
    refine ⟨next, reads.trans moreReads, fun fuel limit fueled arrived => ?_⟩
    rw [List.length_cons] at fueled arrived
    obtain ⟨less, rfl⟩ : ∃ less, fuel = less + 1 := ⟨fuel - 1, by omega⟩
    have one : [first].length ≤ limit := by
      rw [List.length_singleton]
      omega
    have short := read_cut read one (by simp)
    rw [List.length_singleton] at short
    have tail := more less (limit - 1) (by omega) (by omega)
    simp only [readLine, short, newLine, List.cons.injEq, other, and_true, if_false, tail,
      List.singleton_append, List.length_cons, Prod.mk.injEq, true_and]
    congr 1
    omega

theorem readProtocolMessage_dialogue
    (live : ch.Live) (single : '\n' ∉ line) (bytes : ch.bytes = line ++ '\n' :: rest) :
    ∃ next, Dialogue readProtocolMessage ch next (.ok line) (line ++ newLine) [] := by
  obtain ⟨next, reads, lines⟩ := readLine_upto single bytes
  refine ⟨next, reads.talks live, fun limit arrived => ?_⟩
  have length : (line ++ newLine).length = line.length + 1 := by
    simp [newLine]
  have pending : line.length < ch.pending := by
    rw [pending_eq_length, bytes, List.length_append, List.length_cons]
    omega
  rw [length] at arrived ⊢
  have read := lines ((ch.cut limit).pending + 1) limit (by rw [pending_cut]; omega) (by omega)
  simp [readProtocolMessage, read]

theorem readProtocolMessage_unended (noEnd : '\n' ∉ ch.bytes) :
    ∃ next, ch.readProtocolMessage = (next, .error eofText) ∧ next.output = ch.output := by
  have unended := readLine_unended (ch.pending + 1) noEnd
  rcases read : readLine (ch.pending + 1) ch with ⟨line, next, ended⟩
  rw [read] at unended
  simp only at unended
  subst unended
  have reads := readLine_reads read
  exact ⟨next.close, by simp [readProtocolMessage, read], reads.output⟩

theorem readConfirmationMessage_dialogue (live : ch.Live) (bytes : ch.bytes = okMsg ++ rest) :
    ∃ next, Dialogue readConfirmationMessage ch next none okMsg [] := by
  obtain ⟨next, read, reads⟩ := read_one bytes
  refine ⟨next, reads.talks live, fun limit arrived => ?_⟩
  have plain : ¬ ([Char.ofNat 0] = warnMsg ∨ [Char.ofNat 0] = errMsg) := by
    decide
  have short := read_cut read arrived (by simp)
  simp only [readConfirmationMessage, short, if_neg plain]
  rfl

theorem readConfirmationMessage_empty (empty : ch.bytes = []) :
    ch.readConfirmationMessage = (ch.close, some eofText) := by
  simp [readConfirmationMessage, read_eq_none_iff.mpr empty]

/-- What a client sends for one message after some time messages: each message
with its newline. -/
def messageParts (times : List Str) (line : Str) : List (List Char) :=
  times.map (· ++ newLine) ++ [line ++ newLine]

theorem length_lt_messageParts (times : List Str) (line : Str) :
    times.length < (messageParts times line).flatten.length := by
  induction times with
  | nil => simp [messageParts, newLine]
  | cons time times ih =>
    simp only [messageParts, List.map_cons, List.cons_append, List.flatten_cons,
      List.length_append, List.length_cons, newLine] at ih ⊢
    omega

def TimeMessage (line : Str) : Prop :=
  ['T'] <+: line ∧ '\n' ∉ line

instance (line : Str) : Decidable (TimeMessage line) :=
  inferInstanceAs (Decidable (_ ∧ _))

/-- A time line that has arrived is answered, and the reading goes on after it. -/
theorem skipTimes_time (live : ch.Live) {time : Str} (timed : TimeMessage time)
    (bytes : ch.bytes = time ++ newLine ++ rest) :
    ∃ answered, Talks ch answered (time ++ newLine) okMsg ∧ answered.bytes = rest ∧
        ∀ fuel limit, (time ++ newLine).length ≤ limit →
          skipTimes (fuel + 1) (ch.cut limit) =
            skipTimes fuel (answered.cut (limit - (time ++ newLine).length)) := by
  have head : ch.bytes = time ++ '\n' :: rest := by
    simpa [newLine] using bytes
  obtain ⟨after, read⟩ := readProtocolMessage_dialogue live timed.2 head
  obtain ⟨answered, answer⟩ := sendConfirmationMessage_dialogue read.talks.live
  have step := read.talks.trans answer.talks
  rw [List.append_nil, List.nil_append] at step
  refine ⟨answered, step, step.bytes bytes, fun fuel limit arrived => ?_⟩
  have second := answer.upto (limit - (time ++ newLine).length) (by simp)
  simp only [skipTimes, read.upto limit arrived, if_pos timed.1, second,
    List.length_nil, Nat.sub_zero]

theorem skipTimes_upto (timed : ∀ time ∈ times, TimeMessage time) {line : Str}
    (plain : ¬ ['T'] <+: line) (single : '\n' ∉ line) :
    ∀ {ch : Channel}, ch.Live →
      ch.bytes = (messageParts times line).flatten ++ rest →
      ∃ next, Talks ch next (messageParts times line).flatten
            (List.replicate times.length (Char.ofNat 0)) ∧
          ∀ fuel limit, times.length < fuel →
            (messageParts times line).flatten.length ≤ limit →
            skipTimes fuel (ch.cut limit) =
              (next.cut (limit - (messageParts times line).flatten.length), .ok line) := by
  induction times with
  | nil =>
    intro ch live bytes
    have head : ch.bytes = line ++ '\n' :: rest := by
      simpa [messageParts, newLine] using bytes
    obtain ⟨next, read⟩ := readProtocolMessage_dialogue live single head
    have parts : (messageParts [] line).flatten = line ++ newLine := by
      simp [messageParts]
    rw [parts]
    refine ⟨next, read.talks, fun fuel limit fueled arrived => ?_⟩
    obtain ⟨less, rfl⟩ : ∃ less, fuel = less + 1 := ⟨fuel - 1, by omega⟩
    simp only [skipTimes, read.upto limit arrived, if_neg plain]
  | cons time times ih =>
    intro ch live bytes
    have parts :
        (messageParts (time :: times) line).flatten =
          (time ++ newLine) ++ (messageParts times line).flatten := by
      simp [messageParts]
    rw [parts] at bytes ⊢
    rw [List.append_assoc] at bytes
    obtain ⟨answered, step, remaining, first⟩ :=
      skipTimes_time live (timed time List.mem_cons_self) bytes
    obtain ⟨next, talks, more⟩ :=
      ih (fun other member => timed other (List.mem_cons_of_mem _ member)) step.live remaining
    refine ⟨next, step.trans talks, fun fuel limit fueled arrived => ?_⟩
    rw [List.length_cons] at fueled
    rw [List.length_append] at arrived
    obtain ⟨less, rfl⟩ : ∃ less, fuel = less + 1 := ⟨fuel - 1, by omega⟩
    rw [first less limit (by omega), more less _ (by omega) (by omega),
      Nat.sub_sub, ← List.length_append]

/-- How many of the parts lie within the first bytes. -/
def arrivedParts : List (List Char) → Nat → Nat
  | [], _ => 0
  | part :: rest, limit =>
    if part.length ≤ limit then
      arrivedParts rest (limit - part.length) + 1
    else 0

theorem skipTimes_short
    (timed : ∀ time ∈ times, TimeMessage time) {line : Str} (single : '\n' ∉ line) :
    ∀ {ch : Channel}, ch.Live →
      ch.bytes = (messageParts times line).flatten ++ rest →
      ∀ fuel limit, limit < fuel →
        limit < (messageParts times line).flatten.length →
        ∃ next, skipTimes fuel (ch.cut limit) = (next, .error eofText) ∧
          next.output =
            ch.output ++
              List.replicate (arrivedParts (messageParts times line) limit) (Char.ofNat 0) := by
  -- A cut inside a line leaves it without its newline.
  have unended :
      ∀ {ch : Channel} {line rest : List Char} {limit : Nat},
        '\n' ∉ line → ch.bytes = line ++ newLine ++ rest →
        limit < (line ++ newLine).length → '\n' ∉ (ch.cut limit).bytes := by
    intro ch line rest limit single bytes short member
    rw [List.length_append] at short
    have inside : limit ≤ line.length := by
      simpa [newLine, Nat.lt_succ_iff] using short
    rw [bytes_cut, bytes, List.append_assoc, List.take_append_of_le_length inside] at member
    exact single (List.mem_of_mem_take member)
  induction times with
  | nil =>
    intro ch live bytes fuel limit fueled short
    have parts : (messageParts [] line).flatten = line ++ newLine := by
      simp [messageParts]
    rw [parts] at bytes short
    obtain ⟨less, rfl⟩ : ∃ less, fuel = less + 1 := ⟨fuel - 1, by omega⟩
    obtain ⟨next, failed, output⟩ := readProtocolMessage_unended (unended single bytes short)
    refine ⟨next, by simp only [skipTimes, failed], ?_⟩
    have late : arrivedParts (messageParts [] line) limit = 0 := if_neg (Nat.not_le.mpr short)
    rw [late, output]
    simp
  | cons time times ih =>
    intro ch live bytes fuel limit fueled short
    have parts :
        messageParts (time :: times) line = (time ++ newLine) :: messageParts times line := rfl
    have isTime := timed time List.mem_cons_self
    rw [parts, List.flatten_cons, List.append_assoc] at bytes
    rw [parts, List.flatten_cons, List.length_append] at short
    have newline : 0 < (time ++ newLine).length := by simp [newLine]
    obtain ⟨less, rfl⟩ : ∃ less, fuel = less + 1 := ⟨fuel - 1, by omega⟩
    rw [parts, arrivedParts]
    by_cases first : (time ++ newLine).length ≤ limit
    · obtain ⟨answered, step, remaining, same⟩ := skipTimes_time live isTime bytes
      obtain ⟨next, failed, output⟩ :=
        ih
          (fun other member => timed other (List.mem_cons_of_mem _ member))
          step.live remaining less (limit - (time ++ newLine).length)
          (by omega) (by omega)
      refine ⟨next, (same less limit first).trans failed, ?_⟩
      rw [output, step.output, if_pos first, List.replicate_succ]
      simp [okMsg]
    · obtain ⟨next, failed, output⟩ :=
        readProtocolMessage_unended (unended isTime.2 bytes (Nat.lt_of_not_le first))
      refine ⟨next, by simp only [skipTimes, failed], ?_⟩
      rw [if_neg first, output]
      simp

section NextMessage

variable {ch : Channel} {times : List Str} {line rest : List Char}

theorem getNextUploadProtocolMessage_dialogue (live : ch.Live)
    (timed : ∀ time ∈ times, TimeMessage time) (plain : ¬ ['T'] <+: line) (single : '\n' ∉ line)
    (bytes : ch.bytes = (messageParts times line).flatten ++ rest) :
    ∃ next, Dialogue getNextUploadProtocolMessage ch next (.ok line)
        (messageParts times line).flatten
        (List.replicate times.length (Char.ofNat 0)) := by
  obtain ⟨next, talks, upto⟩ := skipTimes_upto timed plain single live bytes
  refine ⟨next, talks, fun limit arrived => upto _ limit ?_ arrived⟩
  have newlines := length_lt_messageParts times line
  have consumed := talks.pending
  rw [pending_cut]
  omega

theorem getNextUploadProtocolMessage_short
    (live : ch.Live) (timed : ∀ time ∈ times, TimeMessage time) (single : '\n' ∉ line)
    (bytes : ch.bytes = (messageParts times line).flatten ++ rest)
    {limit : Nat} (short : limit < (messageParts times line).flatten.length) :
    ∃ next, (ch.cut limit).getNextUploadProtocolMessage = (next, .error eofText) ∧
        next.output =
          ch.output ++
            List.replicate (arrivedParts (messageParts times line) limit) (Char.ofNat 0) := by
  apply skipTimes_short timed single live bytes _ limit _ short
  rw [pending_cut, pending_eq_length, bytes, List.length_append]
  omega

end NextMessage

def oks (ch : Channel) : Nat :=
  ch.output.count (Char.ofNat 0)

@[simp]
theorem oks_cut (ch : Channel) (limit : Nat) : (ch.cut limit).oks = ch.oks :=
  rfl

theorem Talks.oks (talks : Talks ch next taken sent) :
    next.oks = ch.oks + sent.count (Char.ofNat 0) := by
  unfold Channel.oks
  rw [talks.output, List.count_append]

/-- A text without OK bytes adds none, even if its write fails. -/
theorem oks_write (ch : Channel) {message : List Char} (noZero : Char.ofNat 0 ∉ message) :
    (ch.write message).1.oks = ch.oks := by
  have zero : message.count (Char.ofNat 0) = 0 := List.count_eq_zero.mpr noZero
  unfold write
  split
  · rfl
  · split
    · rfl
    · simp [oks, zero]
    · simp [oks, zero]

theorem oks_sendErrorMessage (ch : Channel) {text : Str} (noZero : Char.ofNat 0 ∉ text) :
    (ch.sendErrorMessage text).oks = ch.oks := by
  have closing : ∀ other : Channel, other.close.oks = other.oks :=
    fun _ => rfl
  unfold sendErrorMessage
  rw [closing, oks_write _ (by decide), oks_write _ noZero, oks_write _ (by decide)]

theorem arrivedParts_append (left right : List (List Char)) :
    ∀ limit, arrivedParts (left ++ right) limit =
        if left.flatten.length ≤ limit then
          left.length + arrivedParts right (limit - left.flatten.length)
        else arrivedParts left limit := by
  induction left with
  | nil =>
    intro limit
    simp
  | cons part left ih =>
    intro limit
    simp only [List.cons_append, arrivedParts, ih,
      List.flatten_cons, List.length_append, List.length_cons]
    by_cases first : part.length ≤ limit
    · rw [if_pos first]
      by_cases all : left.flatten.length ≤ limit - part.length
      · rw [if_pos all, if_pos (by omega), ← Nat.sub_sub]
        omega
      · rw [if_neg all, if_neg (by omega), if_pos first]
    · rw [if_neg first, if_neg (by omega), if_neg first]

theorem arrivedParts_lt :
    ∀ {limit : Nat}, limit < parts.flatten.length → arrivedParts parts limit < parts.length := by
  induction parts with
  | nil =>
    intro limit short
    simp at short
  | cons part parts ih =>
    intro limit short
    rw [List.flatten_cons, List.length_append] at short
    rw [arrivedParts, List.length_cons]
    by_cases first : part.length ≤ limit
    · rw [if_pos first]
      have later := @ih (limit - part.length) (by omega)
      omega
    · rw [if_neg first]
      omega

theorem arrivedParts_le (parts : List (List Char)) :
    ∀ limit, arrivedParts parts limit ≤ parts.length := by
  induction parts with
  | nil =>
    intro limit
    exact le_rfl
  | cons part parts ih =>
    intro limit
    have later := ih (limit - part.length)
    rw [arrivedParts, List.length_cons]
    split
    · omega
    · omega

theorem arrivedParts_take (filled : ∀ part ∈ parts, part ≠ []) :
    ∀ {count : Nat}, count ≤ parts.length →
      arrivedParts parts (parts.take count).flatten.length = count := by
  induction parts with
  | nil =>
    intro count few
    rw [List.length_nil] at few
    rw [arrivedParts]
    omega
  | cons part parts ih =>
    intro count few
    have positive : 0 < part.length := List.length_pos_iff.mpr (filled part List.mem_cons_self)
    rw [List.length_cons] at few
    cases count with
    | zero =>
      rw [arrivedParts, List.take_zero, List.flatten_nil, List.length_nil, if_neg (by omega)]
    | succ count =>
      have later :=
        ih
          (fun other member => filled other (List.mem_cons_of_mem _ member))
          (show count ≤ parts.length by omega)
      rw [arrivedParts, List.take_succ_cons, List.flatten_cons, List.length_append,
        if_pos (by omega), Nat.add_sub_cancel_left, later]

end Channel

end Sshserv.Serv
