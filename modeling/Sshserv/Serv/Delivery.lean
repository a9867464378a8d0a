import Sshserv.Serv.ScpHeader

/-!
# The data of a download

`sendDownloadFileData` with the results of its `ReadAt` calls as an argument:
the file may change while it is sent, and any call may fail.  However the loop
ends, the OK byte follows, since the error of the loop is a variable of its
own.
-/

namespace Sshserv.Serv

open Lib UnixPath FileTree DataProvider

/-- What a `ReadAt` call into the buffer of 32768 bytes returns. -/
inductive ReadOutcome where
  /-- All the bytes and no error. -/
  | full
  /-- Fewer bytes and `io.EOF`. -/
  | short (count : Nat)
  /-- Some bytes and another error. -/
  | failed (count : Nat) (err : Errno)
  deriving DecidableEq

namespace ReadOutcome

def count : ReadOutcome → Nat
  | .full => 32768
  | .short count => count
  | .failed count _ => count

/-- There are bytes to send and the error is nil or `io.EOF`. -/
def passes : ReadOutcome → Bool
  | .full => true
  | .short count => count ≠ 0
  | .failed _ _ => false

/-- The outcome of a call that meets no error but the end of the file. -/
def ofLength (length : Nat) : ReadOutcome :=
  if length = 32768 then .full else .short length

theorem count_ofLength (length : Nat) : (ofLength length).count = length := by
  unfold ofLength
  split
  · rename_i whole
    rw [whole]
    rfl
  · rfl

theorem passes_ofLength (length : Nat) : (ofLength length).passes = true ↔ length ≠ 0 := by
  unfold ofLength
  split
  · rename_i whole
    simp [whole, passes]
  · simp [passes]

end ReadOutcome

/-- The bytes of a file from an offset on. -/
def bytesAt (file : Nat → Char) (offset count : Nat) : List Char :=
  (List.range count).map fun i => file (offset + i)

theorem bytesAt_add (file : Nat → Char) (offset first second : Nat) :
    bytesAt file offset (first + second) =
      bytesAt file offset first ++ bytesAt file (offset + first) second := by
  simp only [bytesAt, List.range_add, List.map_append, List.map_map,
    Function.comp_def, Nat.add_assoc]

@[simp]
theorem length_bytesAt (file : Nat → Char) (offset count : Nat) :
    (bytesAt file offset count).length = count := by
  simp [bytesAt]

/-- The loop of `sendDownloadFileData`.  After the last outcome the file is at
its end. -/
def copyData (file : Nat → Char) : List ReadOutcome → Nat → Channel → Channel
  | [], _, ch => ch
  | r :: rest, readed, ch =>
    if r.passes then
      match ch.write (bytesAt file readed r.count) with
      | (ch, true) => copyData file rest (readed + r.count) ch
      | (ch, false) => ch
    else ch

namespace ScpCommand

def sendHeader (cmd : ScpCommand) (ch : Channel) (filePath : Str)
    (stat : FileInfo) : Channel × Option Str :=
  match cmd.sendTime ch stat with
  | (ch, some err) => (ch, some err)
  | (ch, none) => exchange ch (fileLine filePath stat ++ newLine)

/-- `sendDownloadFileData` of a file whose reads have the given outcomes. -/
def sendFileData (cmd : ScpCommand) (ch : Channel) (filePath : Str)
    (stat : FileInfo) (file : Nat → Char) (reads : List ReadOutcome) :
    Channel × Option Str :=
  match cmd.sendHeader ch filePath stat with
  | (ch, some err) => (ch, some err)
  | (ch, none) => exchange (copyData file reads 0 ch) okMsg

end ScpCommand

/-- The outcomes of the reads of a content from an offset on. -/
def readsOf (os : Os) (content : List Char) : Nat → Nat → Nat → List ReadOutcome
  | 0, _, _ => []
  | fuel + 1, index, offset =>
    let bytes := (content.drop offset).take 32768
    match os.readAt index with
    | some (count, err) => [.failed (bytes.take count).length err]
    | none => .ofLength bytes.length :: readsOf os content fuel (index + 1) (offset + bytes.length)

/-- The outcomes of the reads through a handle. -/
def handleReads (os : Os) (fs : FileSys) (handle : Handle) : List ReadOutcome :=
  match handle.ino, handle.isOpen with
  | some ino, true => readsOf os (fs.inode ino).data ((fs.inode ino).data.length + 2) 0 0
  | none, true => [.failed 0 .isDir]
  | _, false => [.failed 0 .badf]

section Unchanged

variable {os : Os} {ref ino : Nat}

theorem bytesAt_content (content : List Char) (offset : Nat) :
    bytesAt (fun i => content.getD i (Char.ofNat 0)) offset
        ((content.drop offset).take 32768).length =
      (content.drop offset).take 32768 := by
  apply List.ext_getElem
  · simp
  · intro i inside again
    simp only [bytesAt, List.getElem_map, List.getElem_range, List.getElem_take, List.getElem_drop]
    rw [List.getD_eq_getElem]

theorem sendData_eq (fuel : Nat) :
    ∀ (index offset : Nat) (w : World) (ch : Channel) (t : Transfer),
      w.transfers ref = some t → t.file.ino = some ino → t.file.isOpen = true →
      (sendData os ref fuel index offset w ch).2 =
        copyData (fun i => (w.fs.inode ino).data.getD i (Char.ofNat 0))
          (readsOf os (w.fs.inode ino).data fuel index offset) offset ch := by
  induction fuel with
  | zero =>
    intro index offset w ch t entry file opened
    rfl
  | succ fuel ih =>
    intro index offset w ch t entry file opened
    have read :
        w.fs.readAt t.file 32768 offset = .ok (((w.fs.inode ino).data.drop offset).take 32768) := by
      simp [FileSys.readAt, file, opened]
    rw [sendData, readsOf]
    simp only [Transfer.readAt, entry, read, Os.readed]
    rcases fault : os.readAt index with _ | ⟨count, err⟩
    · have whole := bytesAt_content (w.fs.inode ino).data offset
      have later := fun next =>
        ih (index + 1)
          (offset + (((w.fs.inode ino).data.drop offset).take 32768).length)
          (w.setTransfer ref
            { t with
              lastActivity := os.now
              bytesSent := t.bytesSent + (((w.fs.inode ino).data.drop offset).take 32768).length })
          next _ (if_pos rfl) file opened
      simp only [Option.map_none, copyData, ReadOutcome.passes_ofLength,
        ReadOutcome.count_ofLength, whole, ne_eq, List.length_eq_zero_iff, ite_not]
      split
      · rfl
      · rcases ch.write (((w.fs.inode ino).data.drop offset).take 32768) with
          ⟨next, _ | _⟩
        · rfl
        · have same := later next
          rw [Nat.cast_add] at same
          exact same
    · simp [copyData, ReadOutcome.passes]

theorem sendDownloadFileData_eq
    (cmd : ScpCommand) (os : Os) {w : World} (ch : Channel) (filePath : Str)
    (stat : FileInfo) {ref : Nat} {t : Transfer} (entry : w.transfers ref = some t) :
    (cmd.sendDownloadFileData os w ch filePath stat ref).2 =
      cmd.sendFileData ch filePath stat
        (fun i => (w.contentOf ref).getD i (Char.ofNat 0))
        (handleReads os w.fs t.file) := by
  simp only [ScpCommand.sendDownloadFileData, ScpCommand.sendFileData,
    ScpCommand.sendHeader, ← fileLine.eq_1]
  rcases cmd.sendTime ch stat with ⟨timed, _ | err⟩
  · dsimp only
    rcases exchange timed (fileLine filePath stat ++ newLine) with
      ⟨begun, _ | err⟩
    · dsimp only
      have loop :
          (sendData os ref ((w.contentOf ref).length + 2) 0 0 w begun).2 =
            copyData (fun i => (w.contentOf ref).getD i (Char.ofNat 0))
              (handleReads os w.fs t.file) 0 begun := by
        cases opened : t.file.isOpen with
        | false =>
          simp [sendData, Transfer.readAt, entry, FileSys.readAt, opened,
            handleReads, copyData, ReadOutcome.passes]
        | true =>
          cases file : t.file.ino with
          | none =>
            simp [sendData, Transfer.readAt, entry, FileSys.readAt, opened,
              file, handleReads, copyData, ReadOutcome.passes]
          | some ino =>
            have behind : w.contentOf ref = (w.fs.inode ino).data := by
              simp [World.contentOf, entry, file]
            rw [behind]
            have same :=
              @sendData_eq os ref ino ((w.fs.inode ino).data.length + 2) 0 0
                w begun t entry file opened
            simp only [handleReads, file, opened]
            exact same
      rw [← loop]
    · rfl
  · rfl

end Unchanged

/-- With these outcomes of the reads and of the writes, the loop sends the
bytes of `sent`: these reads pass and are written, and the next one does not
pass or is not written. -/
structure SendsJust (reads : List ReadOutcome) (oks : List Bool)
    (sent rest : List ReadOutcome) : Prop where
  split : reads = sent ++ rest
  passed : ∀ r ∈ sent, r.passes = true
  written : ∀ ok ∈ oks.take sent.length, ok = true
  stopped : ∀ r ∈ rest.head?, r.passes = true → oks[sent.length]? = some false

def writesMade (sent rest : List ReadOutcome) : Nat :=
  sent.length + if rest.head?.any ReadOutcome.passes then 1 else 0

/-- The reads up to the declared size are sent and nothing more, or the write
of the OK byte fails. -/
def Vouched (reads : List ReadOutcome) (oks : List Bool) (size : Nat) : Prop :=
  ∃ sent rest, SendsJust reads oks sent rest ∧
    ((sent.map ReadOutcome.count).sum = size ∨ oks[writesMade sent rest]? = some false)

theorem exists_sendsJust (reads : List ReadOutcome) :
    ∀ oks, ∃ sent rest, SendsJust reads oks sent rest := by
  induction reads with
  | nil =>
    intro oks
    exact ⟨[], [], rfl, by simp, by simp, by simp⟩
  | cons r more ih =>
    intro oks
    by_cases stops : r.passes = true → oks[0]? = some false
    · exact ⟨[], r :: more, rfl, by simp, by simp, by simpa using stops⟩
    · simp only [Classical.not_imp] at stops
      obtain ⟨passes, good⟩ := stops
      obtain ⟨sent, rest, split, passed, written, stopped⟩ := ih oks.tail
      refine ⟨r :: sent, rest, by rw [split]; rfl, ?_, ?_, ?_⟩
      · simpa [passes] using passed
      · rcases oks with _ | ⟨ok, later⟩
        · simp
        · have first : ok = true := by simpa using good
          simpa [first] using written
      · intro next member pass
        have failed := stopped next member pass
        rcases oks with _ | ⟨ok, later⟩
        · simp at failed
        · simpa using failed

theorem copyData_sendsJust (file : Nat → Char) (sent : List ReadOutcome) :
    ∀ {reads rest : List ReadOutcome} {ch : Channel} (offset : Nat),
      SendsJust reads ch.writeOks sent rest → ch.closed = false →
      copyData file reads offset ch =
        { ch with
          output := ch.output ++ bytesAt file offset (sent.map ReadOutcome.count).sum
          writeOks := ch.writeOks.drop (writesMade sent rest) } := by
  induction sent with
  | nil =>
    intro reads rest ch offset just opened
    obtain ⟨split, _, _, stopped⟩ := just
    rw [List.nil_append] at split
    subst split
    rcases reads with _ | ⟨r, more⟩
    · simp [copyData, writesMade, bytesAt]
    · by_cases passes : r.passes = true
      · have failed := stopped r rfl passes
        rcases oks : ch.writeOks with _ | ⟨ok, later⟩
        · simp [oks] at failed
        · have bad : ok = false := by simpa [oks] using failed
          subst bad
          simp [copyData, passes, Channel.write, opened, oks, writesMade, bytesAt]
      · simp [copyData, passes, writesMade, bytesAt]
  | cons r more ih =>
    intro reads rest ch offset just opened
    obtain ⟨rfl, passed, written, stopped⟩ := just
    have passes := passed r (by simp)
    have after :
        ∃ next, ch.write (bytesAt file offset r.count) = (next, true) ∧
          next =
            { ch with
              output := ch.output ++ bytesAt file offset r.count
              writeOks := ch.writeOks.tail } := by
      refine ⟨_, ?_, rfl⟩
      rcases oks : ch.writeOks with _ | ⟨ok, later⟩
      · simp [Channel.write, opened, oks]
      · have good : ok = true := written ok (by simp [oks])
        subst good
        simp [Channel.write, opened, oks]
    obtain ⟨next, wrote, rfl⟩ := after
    have again : SendsJust (more ++ rest) ch.writeOks.tail more rest := by
      refine ⟨rfl, fun other member => passed other (by simp [member]), ?_, ?_⟩
      · intro ok member
        apply written ok
        rcases oks : ch.writeOks with _ | ⟨first, later⟩
        · simp [oks] at member
        · simp only [oks, List.tail_cons] at member
          simp [member]
      · intro other member pass
        have failed := stopped other member pass
        rcases oks : ch.writeOks with _ | ⟨first, later⟩
        · simp [oks] at failed
        · simpa [oks] using failed
    have made : writesMade (r :: more) rest = 1 + writesMade more rest := by
      simp only [writesMade, List.length_cons]
      omega
    rw [List.cons_append, copyData, if_pos passes, wrote]
    simp only
    rw [@ih (more ++ rest) rest
      { ch with
        output := ch.output ++ bytesAt file offset r.count
        writeOks := ch.writeOks.tail } (offset + r.count) again opened, made,
      List.map_cons, List.sum_cons, bytesAt_add, ← List.drop_drop,
      List.drop_one, List.append_assoc]

/-- The OK byte follows the whole file, as declared; without it an error is
reported. -/
structure Intact (cmd : ScpCommand) (ch : Channel) (filePath : Str)
    (stat : FileInfo) (file : Nat → Char) (reads : List ReadOutcome) :
    Prop where
  vouched :
    ∀ begun, cmd.sendHeader ch filePath stat = (begun, none) →
      ((copyData file reads 0 begun).write okMsg).2 = true →
        (copyData file reads 0 begun).output = begun.output ++ bytesAt file 0 stat.size
  reported :
    (∀ begun, cmd.sendHeader ch filePath stat = (begun, none) →
      ((copyData file reads 0 begun).write okMsg).2 = false) →
        (cmd.sendFileData ch filePath stat file reads).2 ≠ none

section Vouching

variable {cmd : ScpCommand} {ch : Channel} {filePath : Str} {stat : FileInfo}
    {file : Nat → Char} {reads : List ReadOutcome}

theorem write_ok_iff {ch : Channel} (opened : ch.closed = false) (message : List Char) :
    (ch.write message).2 = true ↔ ch.writeOks.head? ≠ some false := by
  rcases oks : ch.writeOks with _ | ⟨_ | _, rest⟩
  · simp [Channel.write, opened, oks]
  · simp [Channel.write, opened, oks]
  · simp [Channel.write, opened, oks]

theorem exchange_open {ch next : Channel} {message : Str}
    (answered : exchange ch message = (next, none)) : next.closed = false := by
  unfold exchange at answered
  split at answered
  · simp at answered
  · rename_i sent told
    have opened : sent.closed = false := by
      unfold Channel.sendProtocolMessage Channel.write at told
      by_cases closed : ch.closed = true
      · simp [closed] at told
      · rcases oks : ch.writeOks with _ | ⟨_ | _, rest⟩
        · simp only [closed, oks, Bool.false_eq_true, if_false, Prod.mk.injEq, and_true] at told
          rw [← told]
        · simp [closed, oks] at told
        · simp only [closed, oks, Bool.false_eq_true, if_false, Prod.mk.injEq, and_true] at told
          rw [← told]
    unfold Channel.readConfirmationMessage at answered
    split at answered
    · simp at answered
    · rename_i buf after read
      split at answered
      · simp at answered
      · simp only [Prod.mk.injEq, and_true] at answered
        rw [← answered, (Channel.read_eq_some read).1.closed]
        exact opened

theorem sendHeader_open {begun : Channel}
    (header : cmd.sendHeader ch filePath stat = (begun, none)) :
    begun.closed = false := by
  unfold ScpCommand.sendHeader at header
  split at header
  · simp at header
  · exact exchange_open header

/-- Without the OK byte there is always an error. -/
theorem sendFileData_reported (lost :
      ∀ begun, cmd.sendHeader ch filePath stat = (begun, none) →
        ((copyData file reads 0 begun).write okMsg).2 = false) :
    (cmd.sendFileData ch filePath stat file reads).2 ≠ none := by
  unfold ScpCommand.sendFileData
  rcases header : cmd.sendHeader ch filePath stat with ⟨begun, _ | err⟩
  · have failed := lost begun header
    rcases written : (copyData file reads 0 begun).write okMsg with ⟨next, ok⟩
    rw [written] at failed
    obtain rfl : ok = false := failed
    simp [exchange, Channel.sendProtocolMessage, written]
  · simp

theorem vouched_iff {begun : Channel} (header : cmd.sendHeader ch filePath stat = (begun, none)) :
    (((copyData file reads 0 begun).write okMsg).2 = true →
        (copyData file reads 0 begun).output = begun.output ++ bytesAt file 0 stat.size) ↔
      Vouched reads begun.writeOks stat.size := by
  have opened := sendHeader_open header
  have known :
      ∀ sent rest, SendsJust reads begun.writeOks sent rest →
        ((((copyData file reads 0 begun).write okMsg).2 = true →
            (copyData file reads 0 begun).output = begun.output ++ bytesAt file 0 stat.size) ↔
          ((sent.map ReadOutcome.count).sum = stat.size ∨
            begun.writeOks[writesMade sent rest]? = some false)) := by
    intro sent rest just
    rw [copyData_sendsJust file sent 0 just opened, write_ok_iff (by exact opened), List.head?_drop]
    simp only [List.append_cancel_left_eq]
    have sizes :
        bytesAt file 0 (sent.map ReadOutcome.count).sum = bytesAt file 0 stat.size ↔
          (sent.map ReadOutcome.count).sum = stat.size := by
      constructor
      · intro same
        simpa using congrArg List.length same
      · intro same
        rw [same]
    rw [sizes]
    tauto
  constructor
  · intro vouched
    obtain ⟨sent, rest, just⟩ := exists_sendsJust reads begun.writeOks
    exact ⟨sent, rest, just, (known sent rest just).mp vouched⟩
  · rintro ⟨sent, rest, just, complete⟩
    exact (known sent rest just).mpr complete

end Vouching

/-- For every file, declared size and channel and every sequence of outcomes
of the reads. -/
theorem download_intact_iff (cmd : ScpCommand) (ch : Channel) (filePath : Str) (stat : FileInfo)
    (file : Nat → Char) (reads : List ReadOutcome) :
    Intact cmd ch filePath stat file reads ↔
      ∀ begun, cmd.sendHeader ch filePath stat = (begun, none) →
        Vouched reads begun.writeOks stat.size := by
  constructor
  · intro intact begun header
    exact (vouched_iff header).mp (intact.vouched begun header)
  · intro vouched
    exact ⟨fun begun header => (vouched_iff header).mpr (vouched begun header),
      sendFileData_reported⟩

/-- The first read of a file of 6 bytes fails, and the OK byte is sent all the
same. -/
theorem failed_read_vouched :
    ¬ Intact sinkCommand (clientSends ["\x00\x00"]) "/srv/u/file".toList
      sampleInfo (fun i => "abcdef".toList.getD i (Char.ofNat 0))
      [.failed 0 (.other 5)] := by
  intro intact
  have sent :=
    intact.vouched
      (sinkCommand.sendHeader (clientSends ["\x00\x00"]) "/srv/u/file".toList sampleInfo).1
      (by decide +kernel) (by decide +kernel)
  revert sent
  decide +kernel

end Sshserv.Serv
