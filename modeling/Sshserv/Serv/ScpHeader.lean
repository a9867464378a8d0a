import Sshserv.Serv.ScpRoundTrip

/-!
# The lines of a source read back

The `C` and `D` lines of a source, read at the other end with
`readProtocolMessage` and `parseUploadMessage`.  The parser splits a line at
every blank and asks for three parts.
-/

namespace Sshserv.Serv

open Lib UnixPath FileTree DataProvider

theorem exchange_output (ch : Channel) (message : Str) :
    ch.output <+: (exchange ch message).1.output := by
  have grown := ch.sendProtocolMessage_output message
  unfold exchange
  rcases sent : ch.sendProtocolMessage message with ⟨next, _ | _⟩
  · rw [sent] at grown
    exact grown
  · rw [sent] at grown
    simpa using grown

theorem exchange_live_output {ch : Channel} (live : ch.Live) (message : Str) :
    (exchange ch message).1.output = ch.output ++ message := by
  obtain ⟨next, sent⟩ := Channel.sendProtocolMessage_dialogue live message
  have whole : ch.sendProtocolMessage message = (next, true) := sent.whole
  simp only [exchange, whole, Channel.readConfirmationMessage_output]
  exact sent.talks.output

theorem sendData_output (os : Os) (ref fuel index : Nat) (readed : Int) (w : World) (ch : Channel) :
    ch.output <+: (sendData os ref fuel index readed w ch).2.output :=
  @sendData_keeps os ref (fun _ next => ch.output <+: next.output)
    (fun _ _ _ _ grown => grown)
    (fun _ next buf grown => grown.trans (next.write_output buf)) fuel index
    readed w ch List.prefix_rfl

def dirLine (path : Str) (stat : FileInfo) : Str :=
  "D".toList ++ getFileModeAsString stat ++ " 0 ".toList ++ base path

def fileLine (path : Str) (stat : FileInfo) : Str :=
  "C".toList ++ getFileModeAsString stat ++ " ".toList ++
    intText stat.size ++ " ".toList ++ base path

section Sending

variable {cmd : ScpCommand} {ch ready : Channel} (path : Str)
    {stat : FileInfo} (timed : cmd.sendTime ch stat = (ready, none)) (live : ready.Live)
include timed live

theorem sendDownloadProtocolMessages_output :
    (cmd.sendDownloadProtocolMessages ch path stat).1.output =
      ready.output ++ (dirLine path stat ++ newLine) := by
  simp only [ScpCommand.sendDownloadProtocolMessages, timed]
  exact exchange_live_output live _

theorem sendDownloadFileData_output (os : Os) (w : World) (ref : Nat) :
    ∃ rest, (cmd.sendDownloadFileData os w ch path stat ref).2.1.output =
        ready.output ++ (fileLine path stat ++ '\n' :: rest) := by
  have header :
      (exchange ready (fileLine path stat ++ newLine)).1.output =
        ready.output ++ (fileLine path stat ++ newLine) :=
    exchange_live_output live _
  suffices grown :
      (exchange ready (fileLine path stat ++ newLine)).1.output <+:
        (cmd.sendDownloadFileData os w ch path stat ref).2.1.output by
    obtain ⟨rest, whole⟩ := grown
    refine ⟨rest, ?_⟩
    rw [← whole, header]
    simp [newLine]
  simp only [ScpCommand.sendDownloadFileData, timed, ← fileLine.eq_1]
  rcases exchange ready (fileLine path stat ++ newLine) with
    ⟨begun, _ | err⟩
  · exact (sendData_output os ref _ 0 0 w begun).trans (exchange_output _ _)
  · exact List.prefix_rfl

end Sending

theorem splitOn_cut (before after : Str) :
    (before ++ ' ' :: after).splitOn ' ' = before.splitOn ' ' ++ after.splitOn ' ' :=
  List.splitOnP_append_cons before after (by simp)

theorem splitOn_word {word : Str} (absent : ' ' ∉ word) : word.splitOn ' ' = [word] := by
  have one :=
    @List.splitOn_intercalate _ [word] _ _ ' ' (by simpa using absent)
      (by simp)
  simpa using one

theorem splitOn_header {first second : Str} (left : ' ' ∉ first) (middle : ' ' ∉ second)
    (third : Str) :
    (first ++ [' '] ++ second ++ [' '] ++ third).splitOn ' ' =
      first :: second :: third.splitOn ' ' := by
  simp only [List.append_assoc, List.cons_append, List.nil_append]
  rw [splitOn_cut, splitOn_cut, splitOn_word left, splitOn_word middle]
  rfl

theorem splitOn_name_iff (name : Str) : (∃ word, name.splitOn ' ' = [word]) ↔ ' ' ∉ name := by
  constructor
  · rintro ⟨word, alone⟩ member
    obtain ⟨before, after, rfl⟩ := List.append_of_mem member
    have lengths := congrArg List.length ((splitOn_cut before after).symm.trans alone)
    have left : 0 < (before.splitOn ' ').length :=
      List.length_pos_iff.mpr (List.splitOn_ne_nil ' ' before)
    have right : 0 < (after.splitOn ' ').length :=
      List.length_pos_iff.mpr (List.splitOn_ne_nil ' ' after)
    rw [List.length_append, List.length_singleton] at lengths
    omega
  · intro absent
    exact ⟨name, splitOn_word absent⟩

section Parsing

variable (cmd : ScpCommand) (os : Os) {kind : Char} {mode size name : Str} {value : Int}

/-- A line with a size comes back exactly if its name has no blank. -/
theorem parseUploadMessage_iff (known : kind = 'C' ∨ kind = 'D') (modeWord : ' ' ∉ mode)
    (sizeWord : ' ' ∉ size) (number : ScpCommand.parseInt size = .ok value) (nonempty : name ≠ []) :
    cmd.parseUploadMessage os (kind :: mode ++ [' '] ++ size ++ [' '] ++ name) = .ok (value, name) ↔
      ' ' ∉ name := by
  have notSpace : ' ' ∉ kind :: mode := by
    rcases known with rfl | rfl
    · simp [modeWord]
    · simp [modeWord]
  have words := splitOn_header notSpace sizeWord name
  have starts :
      ¬ (¬ ['C'] <+: kind :: mode ++ [' '] ++ size ++ [' '] ++ name ∧
        ¬ ['D'] <+: kind :: mode ++ [' '] ++ size ++ [' '] ++ name) := by
    rcases known with rfl | rfl
    · simp
    · simp
  rw [← splitOn_name_iff]
  unfold ScpCommand.parseUploadMessage
  rw [if_neg starts, words]
  constructor
  · intro parsed
    rcases parts : name.splitOn ' ' with _ | ⟨word, _ | ⟨more, rest⟩⟩
    · exact absurd parts (List.splitOn_ne_nil ' ' name)
    · exact ⟨word, rfl⟩
    · rw [parts] at parsed
      cases parsed
  · rintro ⟨word, alone⟩
    have same := @List.intercalate_splitOn _ name _ _ ' '
    rw [alone, List.intercalate_singleton] at same
    subst same
    simp only [alone, number, if_neg nonempty]

end Parsing

/-- The other end reads the first line of what has been sent to it and finds
this size and this name in it. -/
def ReadsHeader (receiver : ScpCommand) (os : Os) (sent : List Char)
    (size : Int) (name : Str) : Prop :=
  ∀ peer : Channel, peer.bytes = sent →
    ∃ rest text, peer.readProtocolMessage = (rest, .ok text) ∧
      receiver.parseUploadMessage os text = .ok (size, name)

theorem readsHeader_iff {receiver : ScpCommand} {os : Os} {line rest : Str} {size : Int}
    {name : Str} (single : '\n' ∉ line) :
    ReadsHeader receiver os (line ++ '\n' :: rest) size name ↔
      receiver.parseUploadMessage os line = .ok (size, name) := by
  have reads :
      ∀ peer : Channel, peer.bytes = line ++ '\n' :: rest →
        ∃ next, peer.readProtocolMessage = (next, .ok line) := by
    intro peer bytes
    obtain ⟨next, taken, upto⟩ := Channel.readLine_upto single bytes
    have long : line.length < peer.pending := by
      rw [Channel.pending_eq_length, bytes]
      simp
    have read := upto (peer.pending + 1) peer.pending (by omega) long
    rw [Channel.cut_of_pending_le le_rfl] at read
    exact ⟨_, by rw [Channel.readProtocolMessage, read]⟩
  constructor
  · intro header
    obtain ⟨next, text, read, parsed⟩ :=
      header ⟨[line ++ '\n' :: rest], [], [], false, none⟩ (by
        simp [Channel.bytes])
    obtain ⟨after, known⟩ :=
      reads ⟨[line ++ '\n' :: rest], [], [], false, none⟩ (by
        simp [Channel.bytes])
    rw [known, Prod.mk.injEq, Except.ok.injEq] at read
    rw [read.2]
    exact parsed
  · intro parsed peer bytes
    obtain ⟨next, read⟩ := reads peer bytes
    exact ⟨next, line, read, parsed⟩

/-- What `sender` sends for the object behind `path`, as a directory or as a
file, once its time message has been answered: `receiver` finds the size and
the name in the line. -/
structure HeaderRoundTrip (sender receiver : ScpCommand) (os : Os)
    (path : Str) (stat : FileInfo) : Prop where
  dir :
    ∀ (ch ready : Channel) (sent : List Char),
      sender.sendTime ch stat = (ready, none) → ready.Live →
      (sender.sendDownloadProtocolMessages ch path stat).1.output = ready.output ++ sent →
      ReadsHeader receiver os sent 0 (base path)
  file :
    ∀ (ch ready : Channel) (sent : List Char) (fileOs : Os) (w : World)
      (ref : Nat),
      sender.sendTime ch stat = (ready, none) → ready.Live →
      (sender.sendDownloadFileData fileOs w ch path stat ref).2.1.output = ready.output ++ sent →
      ReadsHeader receiver os sent stat.size (base path)

section RoundTrip

variable (sender receiver : ScpCommand) (os : Os) {path : Str} {stat : FileInfo}

theorem base_ne_nil (path : Str) : base path ≠ [] := by
  unfold base
  split
  · simp
  · split
    · simp
    · rename_i nonempty
      rcases kept : path.reverse.dropWhile (· = '/') with _ | ⟨last, rest⟩
      · exact absurd kept nonempty
      · have head := List.head?_dropWhile_not (· = '/') path.reverse
        rw [kept] at head
        have different : last ≠ '/' := by simpa using head
        simp [different]

theorem readsHeader_dirLine_iff (single : '\n' ∉ base path) (rest : List Char) :
    ReadsHeader receiver os (dirLine path stat ++ '\n' :: rest) 0
        (base path) ↔ ' ' ∉ base path := by
  obtain ⟨modeWord, modeLine⟩ := word_getFileModeAsString stat
  rw [readsHeader_iff (by simp [dirLine, modeLine, single])]
  have shape :
      dirLine path stat =
        'D' :: getFileModeAsString stat ++ [' '] ++ ['0'] ++ [' '] ++ base path := by
    simp [dirLine]
  rw [shape]
  exact parseUploadMessage_iff receiver os (Or.inr rfl) modeWord (by simp)
    (by decide) (base_ne_nil path)

theorem readsHeader_fileLine_iff (single : '\n' ∉ base path) (small : stat.size < 2 ^ 63)
    (rest : List Char) :
    ReadsHeader receiver os (fileLine path stat ++ '\n' :: rest) stat.size
        (base path) ↔ ' ' ∉ base path := by
  obtain ⟨modeWord, modeLine⟩ := word_getFileModeAsString stat
  obtain ⟨sizeWord, sizeLine⟩ :=
    word_of_digits fun c member => isDigit_of_mem_intText (n := stat.size) member
  rw [readsHeader_iff (by simp [fileLine, modeLine, sizeLine, single])]
  have shape :
      fileLine path stat =
        'C' :: getFileModeAsString stat ++ [' '] ++ intText stat.size ++ [' '] ++ base path := by
    simp [fileLine]
  rw [shape]
  exact parseUploadMessage_iff receiver os (Or.inl rfl) modeWord sizeWord
    (parseInt_intText small) (base_ne_nil path)

theorem exists_timed (stat : FileInfo) :
    ∃ ch ready, sender.sendTime ch stat = (ready, none) ∧ ready.Live := by
  have willing :
      Channel.Willing
        ⟨[List.replicate (sender.timesOf stat).length (Char.ofNat 0)], [], [], false, none⟩
        (sender.timesOf stat).length :=
    ⟨⟨rfl, by simp⟩, by simp [Channel.bytes]⟩
  obtain ⟨ready, timed, sends⟩ := sendTime_sends willing
  exact ⟨_, ready, timed, sends.live⟩

theorem HeaderRoundTrip.blank_notMem (single : '\n' ∉ base path)
    (trip : HeaderRoundTrip sender receiver os path stat) :
    ' ' ∉ base path := by
  obtain ⟨ch, ready, timed, live⟩ := exists_timed sender stat
  have sent := sendDownloadProtocolMessages_output path timed live
  exact (readsHeader_dirLine_iff receiver os single []).mp (trip.dir ch ready _ timed live sent)

/-- For every path whose last name has no newline, every size below `2 ^ 63`
and every mode: the lines come back exactly if the name has no blank. -/
theorem header_round_trip_iff (single : '\n' ∉ base path) (small : stat.size < 2 ^ 63) :
    HeaderRoundTrip sender receiver os path stat ↔ ' ' ∉ base path := by
  refine ⟨HeaderRoundTrip.blank_notMem sender receiver os single, ?_⟩
  intro word
  refine ⟨?_, ?_⟩
  · intro ch ready sent timed live output
    rw [sendDownloadProtocolMessages_output path timed live] at output
    rw [← List.append_cancel_left output]
    exact (readsHeader_dirLine_iff receiver os single []).mpr word
  · intro ch ready sent fileOs w ref timed live output
    obtain ⟨rest, whole⟩ := sendDownloadFileData_output path timed live fileOs w ref
    rw [whole] at output
    rw [← List.append_cancel_left output]
    exact (readsHeader_fileLine_iff receiver os single small rest).mpr word

end RoundTrip

def sampleInfo : FileInfo :=
  ⟨"file".toList, .regular, 6, ⟨0o644, 0, 0, 0, 0⟩⟩

theorem plain_name_comes_back :
    HeaderRoundTrip sinkCommand sinkCommand sampleOs "/srv/u/testfile".toList sampleInfo :=
  (header_round_trip_iff sinkCommand sinkCommand sampleOs (by decide)
    (by decide)).mpr (by decide)

/-- The name `my file`. -/
theorem name_with_blank_lost :
    ¬ HeaderRoundTrip sinkCommand sinkCommand sampleOs "/srv/u/my file".toList
      sampleInfo := fun trip =>
  absurd (trip.blank_notMem sinkCommand sinkCommand sampleOs (by decide))
    (by decide)

end Sshserv.Serv
