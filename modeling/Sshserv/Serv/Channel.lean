import Sshserv.Lib.UnixPath

/-!
# The byte channel of an SCP session

The client's bytes arrive in chunks, as the transport delivers them; after the
last one every read fails.  Each coming write may fail as well.  A channel
that has been closed accepts no more output.
-/

namespace Sshserv.Serv

open Lib.UnixPath

structure Channel where
  input : List (List Char)
  /-- The outcomes of the coming writes; later ones succeed. -/
  writeOks : List Bool
  output : List Char
  closed : Bool
  exitStatus : Option Nat
  deriving DecidableEq

namespace Channel

def pending (ch : Channel) : Nat :=
  (ch.input.map List.length).sum

/-- `Read` into a buffer of `count` bytes. -/
def read (ch : Channel) (count : Nat) : Option (List Char × Channel) :=
  match ch.input.dropWhile List.isEmpty with
  | [] => none
  | chunk :: rest => some (chunk.take count, { ch with input := chunk.drop count :: rest })

/-- `Write`; the second component says whether it succeeded. -/
def write (ch : Channel) (bytes : List Char) : Channel × Bool :=
  if ch.closed then (ch, false)
  else
    match ch.writeOks with
    | false :: rest => ({ ch with writeOks := rest }, false)
    | true :: rest => ({ ch with writeOks := rest, output := ch.output ++ bytes }, true)
    | [] => ({ ch with output := ch.output ++ bytes }, true)

def close (ch : Channel) : Channel :=
  { ch with closed := true }

end Channel

def okMsg : List Char := [Char.ofNat 0]
def warnMsg : List Char := [Char.ofNat 1]
def errMsg : List Char := [Char.ofNat 2]
def newLine : List Char := ['\n']

/-- The text of `io.EOF`, the error of a read or a write that fails. -/
def eofText : Str := "EOF".toList

namespace Channel

def sendErrorMessage (ch : Channel) (text : Str) : Channel :=
  ((((ch.write errMsg).1.write text).1).write newLine).1.close

/-- `sendProtocolMessage`: the channel is closed if the write fails. -/
def sendProtocolMessage (ch : Channel) (message : List Char) : Channel × Bool :=
  match ch.write message with
  | (ch, true) => (ch, true)
  | (ch, false) => (ch.close, false)

def sendConfirmationMessage (ch : Channel) : Channel × Bool :=
  ch.sendProtocolMessage okMsg

/-- Bytes up to a newline; the last component is false if a read failed
before. -/
def readLine : Nat → Channel → List Char × Channel × Bool
  | 0, ch => ([], ch, false)
  | fuel + 1, ch =>
    match ch.read 1 with
    | none => ([], ch, false)
    | some (bytes, ch) =>
      if bytes = newLine then ([], ch, true)
      else
        let (line, ch, ended) := readLine fuel ch
        (bytes ++ line, ch, ended)

def readProtocolMessage (ch : Channel) : Channel × Except Str Str :=
  match readLine (ch.pending + 1) ch with
  | (line, ch, true) => (ch, .ok line)
  | (_, ch, false) => (ch.close, .error eofText)

/-- `readConfirmationMessage`: the error, if any. -/
def readConfirmationMessage (ch : Channel) : Channel × Option Str :=
  match ch.read 1 with
  | none => (ch.close, some eofText)
  | some (buf, ch) =>
    if buf = warnMsg ∨ buf = errMsg then
      let (msg, ch, _) := readLine (ch.pending + 1) ch
      (ch.close, some msg)
    else (ch, none)

/-- The loop of `getNextUploadProtocolMessage`, which answers `T` messages. -/
def skipTimes : Nat → Channel → Channel × Except Str Str
  | 0, ch => (ch, .error eofText)
  | fuel + 1, ch =>
    match ch.readProtocolMessage with
    | (ch, .error err) => (ch, .error err)
    | (ch, .ok command) =>
      if ['T'] <+: command then
        match ch.sendConfirmationMessage with
        | (ch, false) => (ch, .error eofText)
        | (ch, true) => skipTimes fuel ch
      else (ch, .ok command)

def getNextUploadProtocolMessage (ch : Channel) : Channel × Except Str Str :=
  skipTimes (ch.pending + 1) ch

def sendExitStatus (ch : Channel) (failed : Bool) : Channel :=
  { ch with
    exitStatus := some (if failed then 1 else 0)
    closed := true }

/-- The bytes still to come, however they are cut into chunks. -/
def bytes (ch : Channel) : List Char :=
  ch.input.flatten

theorem pending_eq_length (ch : Channel) : ch.pending = ch.bytes.length := by
  simp [pending, bytes, List.length_flatten]

/-- `next` is the channel after `taken` has been read from it. -/
structure Reads (ch next : Channel) (taken : List Char) : Prop where
  rest : ch.bytes = taken ++ next.bytes
  same : next = { ch with input := next.input }

namespace Reads

theorem refl (ch : Channel) : Reads ch ch [] :=
  ⟨rfl, rfl⟩

theorem trans {first second third : Channel} {left right : List Char}
    (before : Reads first second left) (after : Reads second third right) :
    Reads first third (left ++ right) := by
  refine ⟨?_, ?_⟩
  · rw [before.rest, after.rest, List.append_assoc]
  · rw [after.same, before.same]

variable {ch next : Channel} {taken : List Char}

theorem output (reads : Reads ch next taken) : next.output = ch.output := by
  rw [reads.same]

theorem closed (reads : Reads ch next taken) : next.closed = ch.closed := by
  rw [reads.same]

theorem writeOks (reads : Reads ch next taken) : next.writeOks = ch.writeOks := by
  rw [reads.same]

end Reads

private theorem flatten_dropWhile_isEmpty (chunks : List (List Char)) :
    (chunks.dropWhile List.isEmpty).flatten = chunks.flatten := by
  induction chunks with
  | nil => rfl
  | cons chunk rest ih =>
    cases chunk with
    | nil => simpa using ih
    | cons head tail => rfl

variable {ch next : Channel} {count : Nat}

variable {taken : List Char} {fuel : Nat} {command : Str}

theorem read_eq_some (read : ch.read count = some (taken, next)) :
    Reads ch next taken ∧ taken.length ≤ count := by
  unfold Channel.read at read
  split at read
  · cases read
  · rename_i chunk rest skipped
    simp only [Option.some.injEq, Prod.mk.injEq] at read
    obtain ⟨rfl, rfl⟩ := read
    have whole := flatten_dropWhile_isEmpty ch.input
    rw [skipped] at whole
    refine ⟨⟨?_, rfl⟩, List.length_take_le _ _⟩
    rw [bytes, bytes, ← whole, List.flatten_cons, List.flatten_cons,
      ← List.append_assoc, List.take_append_drop]

theorem read_eq_none_iff : ch.read count = none ↔ ch.bytes = [] := by
  have whole := flatten_dropWhile_isEmpty ch.input
  unfold Channel.read bytes
  cases skipped : ch.input.dropWhile List.isEmpty with
  | nil =>
    rw [skipped] at whole
    simp [← whole]
  | cons chunk rest =>
    have nonempty : chunk ≠ [] := by
      have head := List.head?_dropWhile_not List.isEmpty ch.input
      rw [skipped] at head
      simpa using head
    rw [skipped, List.flatten_cons] at whole
    simp only [reduceCtorEq, false_iff]
    rw [← whole]
    simp [nonempty]

theorem read_nonempty (positive : 0 < count) (read : ch.read count = some (taken, next)) :
    taken ≠ [] := by
  unfold Channel.read at read
  split at read
  · cases read
  · rename_i chunk rest skipped
    simp only [Option.some.injEq, Prod.mk.injEq] at read
    have nonempty : chunk ≠ [] := by
      have head := List.head?_dropWhile_not List.isEmpty ch.input
      rw [skipped] at head
      simpa using head
    rw [← read.1]
    simp [positive.ne', nonempty]

theorem read_of_bytes (ch : Channel) (positive : 0 < count) (filled : ch.bytes ≠ []) :
    ∃ taken next, ch.read count = some (taken, next) ∧ taken ≠ [] := by
  cases read : ch.read count with
  | none => exact absurd (read_eq_none_iff.mp read) filled
  | some result => exact ⟨result.1, result.2, rfl, read_nonempty positive read⟩

theorem read_one {first : Char} {rest : List Char} (bytes : ch.bytes = first :: rest) :
    ∃ next, ch.read 1 = some ([first], next) ∧ Reads ch next [first] := by
  obtain ⟨taken, next, read, filled⟩ := read_of_bytes ch Nat.one_pos (by simp [bytes])
  obtain ⟨reads, short⟩ := read_eq_some read
  obtain ⟨one, single⟩ : ∃ one, taken = [one] := by
    cases taken with
    | nil => exact absurd rfl filled
    | cons one more =>
      have nothing : more = [] := by
        simpa using short
      exact ⟨one, by rw [nothing]⟩
  subst single
  have same : one = first := by
    have head := reads.rest
    rw [bytes, List.singleton_append, List.cons.injEq] at head
    exact head.1.symm
  exact ⟨next, same ▸ read, same ▸ reads⟩

theorem readLine_reads
    {line : List Char} {ended : Bool} (read : readLine fuel ch = (line, next, ended)) :
    Reads ch next (if ended then line ++ newLine else line) := by
  induction fuel generalizing ch next line ended with
  | zero =>
    simp only [readLine, Prod.mk.injEq] at read
    obtain ⟨rfl, rfl, rfl⟩ := read
    exact Reads.refl _
  | succ fuel ih =>
    rw [readLine] at read
    cases one : ch.read 1 with
    | none =>
      rw [one] at read
      simp only [Prod.mk.injEq] at read
      obtain ⟨rfl, rfl, rfl⟩ := read
      exact Reads.refl _
    | some result =>
      obtain ⟨taken, after⟩ := result
      rw [one] at read
      have first := (read_eq_some one).1
      simp only at read
      split at read
      · rename_i newline
        simp only [Prod.mk.injEq] at read
        obtain ⟨rfl, rfl, rfl⟩ := read
        rw [newline] at first
        exact first
      · rcases more : readLine fuel after with ⟨tail, last, done⟩
        rw [more] at read
        simp only [Prod.mk.injEq] at read
        obtain ⟨rfl, rfl, rfl⟩ := read
        have both := first.trans (ih more)
        cases done with
        | true => simpa using both
        | false => exact both

theorem readLine_unended (fuel : Nat) (unended : '\n' ∉ ch.bytes) :
    (readLine fuel ch).2.2 = false := by
  cases read : readLine fuel ch with
  | mk line result =>
    obtain ⟨next, ended⟩ := result
    cases ended with
    | false => rfl
    | true =>
      have reads := readLine_reads read
      rw [reads.rest] at unended
      simp [newLine] at unended

@[simp]
theorem write_input (ch : Channel) (message : List Char) :
    (ch.write message).1.input = ch.input := by
  unfold Channel.write
  split
  · rfl
  · split <;> rfl

@[simp]
theorem sendProtocolMessage_input (ch : Channel) (message : List Char) :
    (ch.sendProtocolMessage message).1.input = ch.input := by
  have same := ch.write_input message
  unfold sendProtocolMessage
  rcases written : ch.write message with ⟨next, ok⟩
  rw [written] at same
  cases ok with
  | true => exact same
  | false => exact same

@[simp]
theorem sendConfirmationMessage_input (ch : Channel) :
    ch.sendConfirmationMessage.1.input = ch.input :=
  ch.sendProtocolMessage_input okMsg

theorem sendConfirmationMessage_pending (ch : Channel) :
    ch.sendConfirmationMessage.1.pending = ch.pending := by
  unfold pending
  rw [ch.sendConfirmationMessage_input]

theorem sendErrorMessage_pending (ch : Channel) (text : Str) :
    (ch.sendErrorMessage text).pending = ch.pending := by
  simp [sendErrorMessage, close, pending]

theorem read_pending (read : ch.read count = some (taken, next)) : next.pending ≤ ch.pending := by
  have lengths := congrArg List.length (read_eq_some read).1.rest
  rw [List.length_append] at lengths
  rw [pending_eq_length, pending_eq_length]
  omega

theorem readProtocolMessage_reads {line : Str} (read : ch.readProtocolMessage = (next, .ok line)) :
    Reads ch next (line ++ newLine) := by
  unfold readProtocolMessage at read
  rcases one : readLine (ch.pending + 1) ch with ⟨text, after, ended⟩
  rw [one] at read
  cases ended with
  | false => simp at read
  | true =>
    simp only [Prod.mk.injEq, Except.ok.injEq] at read
    obtain ⟨rfl, rfl⟩ := read
    exact readLine_reads one

/-- Reading a message consumes at least its newline. -/
theorem skipTimes_pending (read : skipTimes fuel ch = (next, .ok command)) :
    next.pending < ch.pending := by
  induction fuel generalizing ch with
  | zero => simp [skipTimes] at read
  | succ fuel ih =>
    rw [skipTimes] at read
    rcases one : ch.readProtocolMessage with ⟨after, result⟩
    rw [one] at read
    cases result with
    | error err => simp at read
    | ok line =>
      have reads := readProtocolMessage_reads one
      have shorter : after.pending < ch.pending := by
        have lengths := congrArg List.length reads.rest
        rw [pending_eq_length, pending_eq_length]
        simp only [List.length_append, newLine, List.length_singleton] at lengths
        omega
      simp only at read
      split at read
      · have kept := after.sendConfirmationMessage_pending
        rcases sent : after.sendConfirmationMessage with ⟨answered, ok⟩
        rw [sent] at read kept
        cases ok with
        | false => simp at read
        | true =>
          have more := ih read
          simp only at kept
          omega
      · simp only [Prod.mk.injEq] at read
        rw [← read.1]
        exact shorter

theorem getNextUploadProtocolMessage_pending
    (read : ch.getNextUploadProtocolMessage = (next, .ok command)) :
    next.pending < ch.pending :=
  skipTimes_pending read

theorem write_output (ch : Channel) (message : List Char) :
    ch.output <+: (ch.write message).1.output := by
  unfold write
  split
  · exact List.prefix_rfl
  · split
    · exact List.prefix_rfl
    · exact List.prefix_append _ _
    · exact List.prefix_append _ _

theorem sendProtocolMessage_output (ch : Channel) (message : List Char) :
    ch.output <+: (ch.sendProtocolMessage message).1.output := by
  have grown := ch.write_output message
  unfold sendProtocolMessage
  rcases written : ch.write message with ⟨next, _ | _⟩
  · rw [written] at grown
    exact grown
  · rw [written] at grown
    exact grown

@[simp]
theorem readConfirmationMessage_output (ch : Channel) :
    ch.readConfirmationMessage.1.output = ch.output := by
  unfold readConfirmationMessage
  cases read : ch.read 1 with
  | none => rfl
  | some result =>
    obtain ⟨buf, after⟩ := result
    have first : after.output = ch.output := (read_eq_some read).1.output
    simp only
    split
    · rcases line : readLine (after.pending + 1) after with ⟨msg, last, ended⟩
      exact ((readLine_reads line).output).trans first
    · exact first

theorem readConfirmationMessage_pending (ch : Channel) :
    ch.readConfirmationMessage.1.pending ≤ ch.pending := by
  unfold readConfirmationMessage
  cases read : ch.read 1 with
  | none => exact Nat.le_refl _
  | some result =>
    obtain ⟨buf, after⟩ := result
    have first : after.pending ≤ ch.pending := read_pending read
    simp only
    split
    · rcases line : readLine (after.pending + 1) after with ⟨msg, last, ended⟩
      have lengths := congrArg List.length (readLine_reads line).rest
      rw [List.length_append] at lengths
      have second : last.pending ≤ after.pending := by
        rw [pending_eq_length, pending_eq_length]
        omega
      exact second.trans first
    · exact first

end Channel

end Sshserv.Serv
