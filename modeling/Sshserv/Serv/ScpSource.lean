import Sshserv.Lib.Listing
import Sshserv.Serv.Destination
import Sshserv.Serv.ScpSafety

/-!
# What a source sends

`handleDownload` of a tree of directories and regular files, to a client that
answers every step with an OK.  `sentFor` lists the messages: for a directory
the files first and then the directories.
-/

namespace Sshserv.Serv

open Lib UnixPath FileTree FileSys DataProvider

/-! ## A client that agrees -/

namespace Channel

/-- A working channel on which that many OKs arrive. -/
def Willing (ch : Channel) (count : Nat) : Prop :=
  ch.Live ∧ List.replicate count (Char.ofNat 0) <+: ch.bytes

/-- The steps have been sent and each one has been answered with an OK. -/
def Sends (ch next : Channel) (steps : List (List Char)) : Prop :=
  Talks ch next (List.replicate steps.length (Char.ofNat 0)) steps.flatten

variable {ch next : Channel} {steps : List (List Char)} {count : Nat}

theorem Sends.refl (live : ch.Live) : Sends ch ch [] :=
  Talks.refl live

theorem Sends.trans {first second third : Channel} {more : List (List Char)}
    (left : Sends first second steps) (right : Sends second third more) :
    Sends first third (steps ++ more) := by
  have both := Talks.trans left right
  rw [← List.replicate_add, ← List.length_append, ← List.flatten_append] at both
  exact both

theorem Willing.mono {fewer : Nat} (willing : ch.Willing count) (less : fewer ≤ count) :
    ch.Willing fewer := by
  refine ⟨willing.1, List.IsPrefix.trans ?_ willing.2⟩
  obtain ⟨more, rfl⟩ := Nat.exists_eq_add_of_le less
  rw [List.replicate_add]
  exact List.prefix_append _ _

theorem Willing.after (willing : ch.Willing (steps.length + count))
    (sends : Sends ch next steps) : next.Willing count := by
  obtain ⟨_, rest, bytes⟩ := willing
  rw [List.replicate_add, List.append_assoc] at bytes
  exact ⟨sends.live, rest, (sends.bytes bytes.symm).symm⟩

theorem Willing.written
    {sent : List Char} (willing : ch.Willing count) (talks : Talks ch next [] sent) :
    next.Willing count := by
  refine ⟨talks.live, ?_⟩
  rw [talks.bytes (List.nil_append _).symm]
  exact willing.2

end Channel

theorem exchange_sends {ch : Channel} (willing : ch.Willing 1) (message : Str) :
    ∃ next, exchange ch message = (next, none) ∧ Channel.Sends ch next [message] := by
  obtain ⟨live, rest, bytes⟩ := willing
  obtain ⟨written, sent⟩ := Channel.sendProtocolMessage_dialogue live message
  have waiting : written.bytes = okMsg ++ rest := sent.talks.bytes bytes.symm
  obtain ⟨next, read⟩ := Channel.readConfirmationMessage_dialogue sent.talks.live waiting
  refine ⟨next, ?_, ?_⟩
  · have whole : ch.sendProtocolMessage message = (written, true) := sent.whole
    simp only [exchange, whole, read.whole]
  · have both := sent.talks.trans read.talks
    simpa [Channel.Sends, okMsg] using both

/-- In the tree `fs` the call sends the steps, and the tree stays as it is. -/
def Delivers (fs : FileSys) (call : World → Channel → ScpState) (steps : List (List Char)) : Prop :=
  ∀ (w : World) (ch : Channel), w.fs = fs → ch.Willing steps.length →
    ∃ after next, call w ch = ⟨after, next, .ok⟩ ∧ after.fs = fs ∧ Channel.Sends ch next steps

variable {fs : FileSys} {os : Os} {ref ino : Nat}

theorem downloadEach_delivers {α : Type} {download : World → Channel → Str → ScpState}
    (pathOf : α → Str) (stepsFor : α → List (List Char)) (entries : List α) (each :
      ∀ entry ∈ entries, Delivers fs (fun w ch => download w ch (pathOf entry)) (stepsFor entry)) :
    Delivers fs (ScpCommand.downloadEach download (entries.map pathOf))
      (entries.flatMap stepsFor) := by
  induction entries with
  | nil =>
    intro w ch same willing
    exact ⟨w, ch, rfl, same, Channel.Sends.refl willing.1⟩
  | cons entry rest ih =>
    intro w ch same willing
    rw [List.flatMap_cons, List.length_append] at willing
    obtain ⟨middle, between, one, kept, first⟩ :=
      each entry (by simp) w ch same (willing.mono (by omega))
    obtain ⟨after, next, others, last, second⟩ :=
      ih
        (fun other member => each other (List.mem_cons_of_mem _ member))
        middle between kept (willing.after first)
    refine ⟨after, next, ?_, last, ?_⟩
    · rw [List.map_cons, ScpCommand.downloadEach]
      simp only [one, if_true, others]
    · rw [List.flatMap_cons]
      exact first.trans second

/-! ## Files -/

/-- The transfer reads the file `ino`. -/
def Reading (w : World) (ref ino : Nat) : Prop :=
  ∃ t, w.transfers ref = some t ∧ t.transferType = .download ∧
    t.file.ino = some ino ∧ t.file.isOpen = true

theorem readAt_reading {w : World} (quiet : os.Quiet) (reading : Reading w ref ino)
    (index count offset : Nat) :
    ∃ after, Transfer.readAt os index w ref count offset =
          (after, ((w.fs.inode ino).data.drop offset).take count, none) ∧
        after.fs = w.fs ∧ Reading after ref ino := by
  obtain ⟨t, entry, download, same, opened⟩ := reading
  have read :
      w.fs.readAt t.file count offset = .ok (((w.fs.inode ino).data.drop offset).take count) := by
    simp [FileSys.readAt, same, opened]
  simp only [Transfer.readAt, entry, read, Os.readed, quiet.readAt, Option.map_none]
  exact ⟨_, rfl, rfl, _, if_pos rfl, download, same, opened⟩

theorem close_reading {w : World} (settings : Settings) (quiet : os.Quiet)
    (reading : Reading w ref ino) :
    ∃ after, Transfer.close settings os w ref = (after, none) ∧ after.fs = w.fs := by
  obtain ⟨t, entry, download, _⟩ := reading
  simp only [Transfer.close, entry, Transfer.settle, Transfer.account,
    download, reduceCtorEq, false_and, if_false, quiet.closeFile]
  exact ⟨_, rfl, rfl⟩

theorem sendData_sends (quiet : os.Quiet) (fuel : Nat) :
    ∀ (index offset : Nat) (w : World) (ch : Channel),
      Reading w ref ino → ch.Live →
      (w.fs.inode ino).data.length < offset + fuel →
      ∃ after next, sendData os ref fuel index offset w ch = (after, next) ∧
          after.fs = w.fs ∧ Reading after ref ino ∧
          Channel.Talks ch next [] ((w.fs.inode ino).data.drop offset) := by
  induction fuel with
  | zero =>
    intro index offset w ch reading live long
    refine ⟨w, ch, rfl, rfl, reading, ?_⟩
    rw [List.drop_eq_nil_of_le (by omega)]
    exact Channel.Talks.refl live
  | succ fuel ih =>
    intro index offset w ch reading live long
    obtain ⟨middle, read, kept, still⟩ := readAt_reading quiet reading index 32768 offset
    unfold sendData
    rw [read]
    simp only
    by_cases ended : ((w.fs.inode ino).data.drop offset).take 32768 = []
    · rw [if_pos ended]
      have all : (w.fs.inode ino).data.drop offset = [] := by
        simpa using ended
      refine ⟨middle, ch, rfl, kept, still, ?_⟩
      rw [all]
      exact Channel.Talks.refl live
    · rw [if_neg ended]
      obtain ⟨between, written, talks⟩ :=
        Channel.write_live live (((w.fs.inode ino).data.drop offset).take 32768)
      have positive : 0 < (((w.fs.inode ino).data.drop offset).take 32768).length :=
        List.length_pos_iff.mpr ended
      obtain ⟨after, next, sent, last, done, rest⟩ :=
        ih (index + 1)
          (offset + (((w.fs.inode ino).data.drop offset).take 32768).length)
          middle between still talks.live (by rw [kept]; omega)
      refine ⟨after, next, ?_, last.trans kept, done, ?_⟩
      · rw [written]
        simpa using sent
      · have both := talks.trans rest
        rw [kept] at both
        have whole :=
          List.prefix_iff_eq_append.mp (List.take_prefix 32768 ((w.fs.inode ino).data.drop offset))
        rw [List.drop_drop] at whole
        rw [whole] at both
        exact both

def timeMessage (info : FileInfo) : Str :=
  "T".toList ++ intText info.attr.mtime ++ " 0 ".toList ++ intText info.attr.mtime ++ " 0".toList

/-- The time messages before an object: one with `-p`. -/
def ScpCommand.timesOf (cmd : ScpCommand) (info : FileInfo) : List Str :=
  if cmd.sendFileTime then [timeMessage info] else []

section Messages

variable {cmd : ScpCommand} {settings : Settings} {os : Os} {ch : Channel} {info : FileInfo}

theorem sendTime_sends (willing : ch.Willing (cmd.timesOf info).length) :
    ∃ next, cmd.sendTime ch info = (next, none) ∧
      Channel.Sends ch next ((cmd.timesOf info).map (· ++ newLine)) := by
  unfold ScpCommand.sendTime
  unfold ScpCommand.timesOf at willing ⊢
  split
  · rename_i timed
    rw [if_pos timed] at willing
    have line : timeLine info = timeMessage info ++ newLine := by
      simp [timeLine, timeMessage, newLine]
    rw [line]
    exact exchange_sends willing _
  · exact ⟨ch, rfl, Channel.Sends.refl willing.1⟩

theorem header_sends {line : Str}
    (willing : ch.Willing (Channel.messageParts (cmd.timesOf info) line).length) :
    ∃ timed next, cmd.sendTime ch info = (timed, none) ∧
        exchange timed (line ++ newLine) = (next, none) ∧
        Channel.Sends ch next (Channel.messageParts (cmd.timesOf info) line) := by
  rw [Channel.messageParts, List.length_append, List.length_map] at willing
  obtain ⟨timed, first, times⟩ := sendTime_sends (willing.mono (Nat.le_add_right _ _))
  have waiting : timed.Willing 1 := by
    refine Channel.Willing.after ?_ times
    rw [List.length_map]
    exact willing
  obtain ⟨next, second, lines⟩ := exchange_sends waiting (line ++ newLine)
  exact ⟨timed, next, first, second, times.trans lines⟩

theorem sendDownloadProtocolMessages_sends {dirPath name : Str} (named : base dirPath = name)
    (willing :
      ch.Willing (Sent.dir (cmd.timesOf info) (getFileModeAsString info) name).steps.length) :
    ∃ next, cmd.sendDownloadProtocolMessages ch dirPath info = (next, none) ∧
        Channel.Sends ch next
          (Sent.dir (cmd.timesOf info) (getFileModeAsString info) name).steps := by
  simp only [Sent.steps, Sent.data, List.append_nil, Sent.times] at willing ⊢
  obtain ⟨timed, next, first, second, sends⟩ := header_sends willing
  refine ⟨next, ?_, sends⟩
  simp only [Sent.line] at second
  simp only [ScpCommand.sendDownloadProtocolMessages, first, named]
  exact second

theorem sendDownloadFileData_sends
    {w : World} {ref ino : Nat} {filePath name : Str} (quiet : os.Quiet)
    (reading : Reading w ref ino) (named : base filePath = name)
    (size : info.size = (w.fs.inode ino).data.length) (willing :
      ch.Willing
        (Sent.file (cmd.timesOf info) (getFileModeAsString info) name
          (w.fs.inode ino).data).steps.length) :
    ∃ after next, cmd.sendDownloadFileData os w ch filePath info ref = (after, next, none) ∧
        after.fs = w.fs ∧ Reading after ref ino ∧
        Channel.Sends ch next
          (Sent.file (cmd.timesOf info) (getFileModeAsString info) name
            (w.fs.inode ino).data).steps := by
  rw [Sent.steps, List.length_append] at willing
  obtain ⟨timed, begun, first, second, header⟩ := header_sends (willing.mono (Nat.le_add_right _ _))
  have waiting : begun.Willing 1 := willing.after header
  have behind : w.contentOf ref = (w.fs.inode ino).data := by
    obtain ⟨t, entry, _, same, _⟩ := reading
    simp [World.contentOf, entry, same]
  obtain ⟨after, sent, looped, kept, still, content⟩ :=
    sendData_sends quiet ((w.contentOf ref).length + 2) 0 0 w begun reading
      waiting.1 (by rw [behind]; omega)
  obtain ⟨next, third, status⟩ := exchange_sends (waiting.written content) okMsg
  refine ⟨after, next, ?_, kept, still, ?_⟩
  · have line :
        exchange timed
            ("C".toList ++ getFileModeAsString info ++ " ".toList ++
              intText info.size ++ " ".toList ++ base filePath ++ newLine) =
          (begun, none) := by
      rw [size, named]
      exact second
    rw [Nat.cast_zero] at looped
    simp only [ScpCommand.sendDownloadFileData, first, line, looped, third]
  · have data : Channel.Sends begun next [(w.fs.inode ino).data ++ okMsg] := by
      have both := content.trans status
      simpa [Channel.Sends] using both
    exact header.trans data

/-- A file is opened, sent and closed. -/
theorem downloadFile_delivers {fs : FileSys} {p name : Str} {handle : Handle} {ino : Nat}
    (quiet : os.Quiet) (opens : fs.openRead p = .ok handle)
    (file : handle.ino = some ino) (isOpen : handle.isOpen)
    (named : base p = name) (size : info.size = (fs.inode ino).data.length) :
    Delivers fs (fun w ch => cmd.downloadFile settings os w ch p info)
      (Sent.file (cmd.timesOf info) (getFileModeAsString info) name (fs.inode ino).data).steps := by
  rintro w ch rfl willing
  have reading :
      Reading
        (w.addTransfer (cmd.connection.newTransfer os handle p .download false)).1
        (w.addTransfer (cmd.connection.newTransfer os handle p .download false)).2 ino :=
    ⟨_, if_pos rfl, rfl, file, isOpen⟩
  obtain ⟨sent, next, sends, kept, still, all⟩ :=
    @sendDownloadFileData_sends cmd os ch info _ _ _ p name quiet reading named size willing
  obtain ⟨after, closes, same⟩ := close_reading settings quiet still
  refine ⟨after, next, ?_, same.trans kept, all⟩
  simp only [ScpCommand.downloadFile, quiet.openFile, orFault_none, opens, sends, closes]

end Messages

/-! ## Places in the tree of a source -/

/-- The path with the given names leads to `place`, which the checks of
`buildPath` accept. -/
structure SourceAt (c : Connection) (fs : FileSys) (names place : Loc) : Prop where
  proper : ProperNames names
  resolved : ∃ left, fs.resolve (render names) = .found place left
  accepted : c.isSubDir fs (render place) = .ok ()

/-- A tree of directories and regular files.  Names are words, and sizes fit
in 64 bits. -/
structure PlainTree (fs : FileSys) (root : Loc) : Prop where
  noLinks : ∀ path target, fs.view (root ++ path) ≠ some (.symlink target)
  names : ∀ path text, fs.node (root ++ path ++ [text]) ≠ none → Proper text ∧ Sent.Word text
  sizes : ∀ path data, fs.view (root ++ path) = some (.file data) → data.length < 2 ^ 63

/-- No path below `root` is as long as `depth`. -/
def Shallow (fs : FileSys) (root : Loc) (depth : Nat) : Prop :=
  ∀ path, fs.node (root ++ path) ≠ none → path.length < depth

/-- What `PlainTree` asks of an object. -/
def plainView : View → Bool
  | .dir => true
  | .file data => data.length < 2 ^ 63
  | .symlink _ => false

/-- The conditions can be checked at the locations that exist. -/
theorem plainTree_iff {root : Loc} :
    PlainTree fs root ↔
      ∀ loc ∈ fs.locs, root <+: loc →
        (loc = root ∨ Proper (loc.getLastD []) ∧ Sent.Word (loc.getLastD [])) ∧
          (fs.view loc).all plainView = true := by
  constructor
  · rintro plain loc member ⟨path, rfl⟩
    have present := (fs.mem_locs _).mp member
    constructor
    · rcases List.eq_nil_or_concat path with rfl | ⟨inner, last, rfl⟩
      · exact Or.inl (List.append_nil root)
      · right
        rw [List.concat_eq_append, ← List.append_assoc] at present ⊢
        simpa using plain.names inner last present
    · cases seen : fs.view (root ++ path) with
      | none => rfl
      | some view =>
        cases view with
        | dir => rfl
        | file data => simpa [plainView] using plain.sizes path data seen
        | symlink target => exact absurd seen (plain.noLinks path target)
  · intro each
    have good : ∀ path view, fs.view (root ++ path) = some view → plainView view = true := by
      intro path view seen
      have present : fs.node (root ++ path) ≠ none := by
        intro absent
        rw [view_eq_none_iff.mpr absent] at seen
        cases seen
      have checked := (each _ ((fs.mem_locs _).mpr present) (List.prefix_append _ _)).2
      rw [seen] at checked
      exact checked
    refine ⟨fun path target seen => ?_, fun path text present => ?_, fun path data seen => ?_⟩
    · exact Bool.false_ne_true (good path _ seen)
    · rw [List.append_assoc] at present
      have checked := (each _ ((fs.mem_locs _).mpr present) (List.prefix_append _ _)).1
      simpa using checked
    · simpa [plainView] using good path _ seen

instance (fs : FileSys) (root : Loc) : Decidable (PlainTree fs root) :=
  decidable_of_iff _ plainTree_iff.symm

theorem shallow_iff {root : Loc} {depth : Nat} :
    Shallow fs root depth ↔ ∀ loc ∈ fs.locs, root <+: loc → loc.length < root.length + depth := by
  constructor
  · rintro shallow loc member ⟨path, rfl⟩
    have short := shallow path ((fs.mem_locs _).mp member)
    rw [List.length_append]
    omega
  · intro each path present
    have short := each _ ((fs.mem_locs _).mpr present) (List.prefix_append root path)
    rw [List.length_append] at short
    omega

instance (fs : FileSys) (root : Loc) (depth : Nat) : Decidable (Shallow fs root depth) :=
  decidable_of_iff _ shallow_iff.symm

/-- Every tree is of some depth, so the recursion of a source ends. -/
theorem exists_shallow (fs : FileSys) (root : Loc) : ∃ depth, Shallow fs root depth := by
  refine ⟨fs.locs.sup List.length + 1, shallow_iff.mpr ?_⟩
  intro loc member _
  have long : loc.length ≤ fs.locs.sup List.length := Finset.le_sup (f := List.length) member
  omega

section Places

variable {c : Connection} {fs : FileSys} {names place : Loc} {text : Str}

theorem PlainTree.below (plain : PlainTree fs place) (text : Str) :
    PlainTree fs (place ++ [text]) := by
  refine ⟨fun path target => ?_, fun path last => ?_, fun path data => ?_⟩
  · rw [List.append_assoc]
    exact plain.noLinks _ _
  · rw [List.append_assoc place]
    exact plain.names _ _
  · rw [List.append_assoc]
    exact plain.sizes _ _

theorem Shallow.below {depth : Nat} (shallow : Shallow fs place (depth + 1)) (text : Str) :
    Shallow fs (place ++ [text]) depth := by
  intro path present
  rw [List.append_assoc] at present
  have short := shallow _ present
  simpa using short

theorem PlainTree.view_cases (plain : PlainTree fs place) (present : fs.node place ≠ none) :
    fs.view place = some .dir ∨ ∃ data, fs.view place = some (.file data) := by
  have noLink := plain.noLinks []
  rw [List.append_nil] at noLink
  cases seen : fs.view place with
  | none => exact absurd (view_eq_none_iff.mp seen) present
  | some view =>
    cases view with
    | dir => exact Or.inl rfl
    | file data => exact Or.inr ⟨data, rfl⟩
    | symlink target => exact absurd seen (noLink target)

theorem SourceAt.present (source : SourceAt c fs names place) : fs.node place ≠ none := by
  obtain ⟨_, resolved⟩ := source.resolved
  exact node_ne_none_of_found resolved

theorem SourceAt.stat (source : SourceAt c fs names place) :
    ∃ info, fs.infoAt place = some info ∧ fs.stat (render names) = .ok info := by
  obtain ⟨left, resolved⟩ := source.resolved
  obtain ⟨info, entry⟩ := Option.ne_none_iff_exists'.mp (mt infoAt_eq_none_iff.mp source.present)
  exact ⟨info, entry, stat_eq_ok_iff.mpr ⟨place, left, resolved, entry⟩⟩

theorem SourceAt.base_eq (source : SourceAt c fs names place) (nonempty : names ≠ []) :
    base (render names) = names.getLastD [] := by
  rcases List.eq_nil_or_concat names with rfl | ⟨parent, last, rfl⟩
  · exact absurd rfl nonempty
  · rw [List.concat_eq_append, base_render_concat parent (source.proper last (by simp))]
    simp

/-- An entry of an accepted directory that is not a link is accepted. -/
theorem SourceAt.entry (source : SourceAt c fs names place) (properText : Proper text)
    (present : fs.node (place ++ [text]) ≠ none)
    (noLink : ∀ target, fs.view (place ++ [text]) ≠ some (.symlink target)) :
    SourceAt c fs (names ++ [text]) (place ++ [text]) := by
  obtain ⟨left, resolved⟩ := source.resolved
  have directory : fs.isDirAt place = true := fs.parent_dir place text present
  have proper : ProperNames (names ++ [text]) :=
    List.forall_mem_append.mpr ⟨source.proper, List.forall_mem_singleton.mpr properText⟩
  refine ⟨proper, ⟨left, ?_⟩, isSubDir_below source.accepted [text]⟩
  rw [resolve_of_parent proper resolved directory, walk_name]
  cases entry : fs.node (place ++ [text]) with
  | none => exact absurd entry present
  | some object =>
    cases object with
    | dir attr => simp
    | file ino => simp
    | symlink target attr => exact absurd (view_eq_symlink_iff.mpr ⟨attr, entry⟩) (noLink target)

theorem SourceAt.child (source : SourceAt c fs names place) (plain : PlainTree fs place)
    (present : fs.node (place ++ [text]) ≠ none) :
    SourceAt c fs (names ++ [text]) (place ++ [text]) :=
  source.entry (plain.names [] text (by simpa)).1 present
    (plain.noLinks [text])

theorem SourceAt.buildPath (source : SourceAt c fs names place) {filePath : Str}
    (asked : c.requested filePath = render names) :
    c.buildPath fs filePath = .ok (render names) := by
  obtain ⟨left, resolved⟩ := source.resolved
  exact buildPath_eq_ok_iff.mpr ⟨asked.symm, Or.inl
    ⟨place, evalLoc_of_resolve resolved, source.accepted⟩⟩

theorem clean_join_getRelativePath {user : User} (rooted : isAbs user.homeDir)
    (proper : ProperNames names) :
    clean (join user.homeDir (getRelativePath user (render names))) = render names := by
  have home : isAbs user.getHomeDir = true := by
    rw [User.getHomeDir, clean_of_isAbs rooted]
    exact isAbs_render _
  have sameHome : cleanNames true user.getHomeDir = cleanNames true user.homeDir := by
    rw [User.getHomeDir, clean_of_isAbs rooted, cleanNames_render (cleanNames_proper _)]
  obtain ⟨relative, known, back⟩ := cleanNames_append_rel home proper
  rw [cleanNames_append_slash, sameHome, ← cleanNames_append_slash] at back
  rw [getRelativePath, known, join_of_isAbs rooted, back, clean_render proper]

theorem requested_getRelativePath (rooted : isAbs c.user.homeDir)
    (proper : ProperNames (names ++ [text])) :
    c.requested (getRelativePath c.user (join (render names) text)) = render (names ++ [text]) := by
  rw [join_render_name proper.left (proper text (by simp))]
  exact clean_join_getRelativePath rooted proper

end Places

/-! ## Directories -/

/-- Files and links first, then directories. -/
def filesFirst (entries : List FileInfo) : List FileInfo :=
  (entries.filter fun entry => entry.kind ≠ .dir) ++ entries.filter fun entry => entry.kind = .dir

theorem filesFirst_perm (entries : List FileInfo) : (filesFirst entries).Perm entries := by
  have split := List.filter_append_perm (fun entry => entry.kind ≠ .dir) entries
  simpa [filesFirst] using split

/-- The entries of a directory in the order in which a source sends them. -/
def sourceEntries (os : Os) (fs : FileSys) (place : Loc) : List FileInfo :=
  filesFirst (os.entryOrder (fs.listed place))

/-- The path by which the source asks for an entry of a directory. -/
def ScpCommand.entryPath (cmd : ScpCommand) (names : Loc) (text : Str) : Str :=
  getRelativePath cmd.connection.user (join (render names) text)

/-- What a source sends for the object at `place`, which it knows by the path
`filePath` and on disk by `names`, before `rest`. -/
def ScpCommand.sentFor (cmd : ScpCommand) (os : Str → Os) (fs : FileSys) :
    Nat → Str → Loc → Loc → Items → Items
  | 0, _, _, _, rest => rest
  | fuel + 1, filePath, names, place, rest =>
    match fs.infoAt place, fs.view place with
    | some info, some (.file data) =>
      .file (cmd.timesOf info) (getFileModeAsString info) (names.getLastD []) data rest
    | some info, some .dir =>
      .dir (cmd.timesOf info) (getFileModeAsString info)
        (names.getLastD [])
        ((sourceEntries (os filePath) fs place).foldr
          (fun entry later =>
            sentFor cmd os fs fuel (cmd.entryPath names entry.name)
              (names ++ [entry.name]) (place ++ [entry.name]) later)
          .nil)
        [] rest
    | _, _ => rest

/-- A source that is allowed to send, and no call of which fails. -/
structure Unhindered (cmd : ScpCommand) (os : Str → Os) : Prop where
  home : isAbs cmd.connection.user.homeDir = true
  recursive : cmd.isRecursive = true
  download : cmd.connection.user.hasPerm permDownload = true
  quiet : ∀ path, (os path).Quiet
  order : ∀ path files, ((os path).entryOrder files).Perm files

theorem Unhindered.entries {cmd : ScpCommand} {os : Str → Os} (env : Unhindered cmd os)
    (fs : FileSys) (path : Str) (place : Loc) :
    (sourceEntries (os path) fs place).Perm (fs.listed place) :=
  (filesFirst_perm _).trans (env.order path _)

section Directories

variable {cmd : ScpCommand} {settings : Settings} {os : Str → Os} {fs : FileSys}

theorem sent_sentFor (fuel : Nat) (filePath : Str) (names place : Loc) (rest : Items) :
    (cmd.sentFor os fs fuel filePath names place rest).sent =
      (cmd.sentFor os fs fuel filePath names place .nil).sent ++ rest.sent := by
  cases fuel with
  | zero => rfl
  | succ fuel =>
    simp only [ScpCommand.sentFor]
    split
    · rfl
    · simp [Items.sent]
    · rfl

theorem stepsOf_foldr {α : Type} (entries : List α) (item : α → Items → Items)
    (before : ∀ entry rest, (item entry rest).sent = (item entry .nil).sent ++ rest.sent) :
    stepsOf (entries.foldr item .nil).sent =
      entries.flatMap fun entry => stepsOf (item entry .nil).sent := by
  induction entries with
  | nil => rfl
  | cons entry rest ih =>
    rw [List.foldr_cons, before, List.flatMap_cons, ← ih]
    simp [stepsOf]

/-- A directory: its message, its entries, and the message that ends it. -/
theorem handleRecursiveDownload_delivers
    {download : World → Channel → Str → ScpState} {os : Os} {info : FileInfo}
    {names place : Loc} {name : Str} {left : Nat} {stepsFor : FileInfo → List (List Char)}
    (quiet : os.Quiet) (recursive : cmd.isRecursive)
    (resolved : fs.resolve (render names) = .found place left)
    (directory : fs.isDirAt place) (named : base (render names) = name) (each :
      ∀ entry ∈ sourceEntries os fs place, Delivers fs
          (fun w ch => download w ch (cmd.entryPath names entry.name))
          (stepsFor entry)) :
    Delivers fs
      (fun w ch =>
        cmd.handleRecursiveDownload download os w ch (render names) info)
      ((Sent.dir (cmd.timesOf info) (getFileModeAsString info) name).steps ++
        ((sourceEntries os fs place).flatMap stepsFor ++ (Sent.endDir []).steps)) := by
  rintro w ch rfl willing
  rw [List.length_append] at willing
  obtain ⟨begun, header, opening⟩ :=
    sendDownloadProtocolMessages_sends named (willing.mono (Nat.le_add_right _ _))
  have waiting := willing.after opening
  rw [List.length_append] at waiting
  have listing :
      getDirContents os w.fs (render names) = .ok (os.entryOrder (w.fs.listed place)) := by
    simp [getDirContents, quiet.readDir, orFault_none, readDir_of_resolve resolved directory]
  have entries :
      cmd.entriesOf os w ch (render names) info =
        some (begun,
          (sourceEntries os w.fs place).map fun entry =>
            cmd.entryPath names entry.name) := by
    simp [ScpCommand.entriesOf, recursive, header, listing, sourceEntries,
      filesFirst, ScpCommand.entryPath]
  obtain ⟨after, sent, downloaded, kept, inner⟩ :=
    downloadEach_delivers _ stepsFor _ each w begun rfl (waiting.mono (Nat.le_add_right _ _))
  obtain ⟨next, ended, closing⟩ := exchange_sends (waiting.after inner) "E\n".toList
  refine ⟨after, next, ?_, kept, opening.trans (inner.trans closing)⟩
  have whole := @handleRecursiveDownload_some cmd download _ _ _ _ _ _ _ entries
  simp only [downloaded, ScpCommand.endDirectory, ended, ne_eq,
    not_true_eq_false, if_false] at whole
  exact whole

section Object

variable {filePath : Str} {names place : Loc} (env : Unhindered cmd os)
    (source : SourceAt cmd.connection fs names place) (nonempty : names ≠ [])
    (asked : cmd.connection.requested filePath = render names)
include env source nonempty asked

theorem handleDownload_file {data : List Char} (isFile : fs.view place = some (.file data))
    (fuel : Nat) :
    Delivers fs
      (fun w ch => cmd.handleDownload settings os (fuel + 1) w ch filePath)
      (stepsOf (cmd.sentFor os fs (fuel + 1) filePath names place .nil).sent) := by
  obtain ⟨left, resolved⟩ := source.resolved
  obtain ⟨info, entry, stated⟩ := source.stat
  obtain ⟨ino, node⟩ := node_of_view_file isFile
  have accepted := source.buildPath asked
  have notDir : info.isDir = false := by
    rw [Bool.eq_false_iff, ne_eq, infoAt_isDir_iff entry]
    simp [isDirAt, node, Node.isDir]
  have content : data = (fs.inode ino).data := by
    simpa [view, node] using isFile.symm
  have size : info.size = (fs.inode ino).data.length := by
    simp only [infoAt, node, Option.some.injEq] at entry
    rw [← entry]
  have opens : fs.openRead (render names) = .ok ⟨render names, some ino, false, false, true⟩ := by
    simp [openRead, resolved, Outcome.located, node]
  have sent :
      stepsOf (cmd.sentFor os fs (fuel + 1) filePath names place .nil).sent =
        (Sent.file (cmd.timesOf info) (getFileModeAsString info)
          (names.getLastD []) (fs.inode ino).data).steps := by
    simp [ScpCommand.sentFor, entry, isFile, Items.sent, stepsOf, content]
  intro w ch same willing
  rw [sent] at willing ⊢
  obtain ⟨after, next, done, kept, sends⟩ :=
    @downloadFile_delivers cmd settings (os filePath) info fs
      (render names) _ _ ino (env.quiet filePath) opens rfl rfl
      (source.base_eq nonempty) size w ch same willing
  refine ⟨after, next, ?_, kept, sends⟩
  subst same
  simp only [ScpCommand.handleDownload, env.download, accepted, (env.quiet filePath).stat,
    orFault_none, stated, notDir, not_true_eq_false, Bool.false_eq_true, if_false]
  exact done

theorem handleDownload_dir (isDir : fs.view place = some .dir) {fuel : Nat} (each :
      ∀ child ∈ sourceEntries (os filePath) fs place, Delivers fs
          (fun w ch =>
            cmd.handleDownload settings os fuel w ch (cmd.entryPath names child.name))
          (stepsOf
            (cmd.sentFor os fs fuel (cmd.entryPath names child.name)
              (names ++ [child.name]) (place ++ [child.name]) .nil).sent)) :
    Delivers fs
      (fun w ch => cmd.handleDownload settings os (fuel + 1) w ch filePath)
      (stepsOf (cmd.sentFor os fs (fuel + 1) filePath names place .nil).sent) := by
  obtain ⟨left, resolved⟩ := source.resolved
  obtain ⟨info, entry, stated⟩ := source.stat
  have accepted := source.buildPath asked
  have directory := view_eq_dir_iff.mp isDir
  have infoDir := (infoAt_isDir_iff entry).mpr directory
  have sent :
      stepsOf (cmd.sentFor os fs (fuel + 1) filePath names place .nil).sent =
        (Sent.dir (cmd.timesOf info) (getFileModeAsString info) (names.getLastD [])).steps ++
          ((sourceEntries (os filePath) fs place).flatMap
              (fun child =>
                stepsOf
                  (cmd.sentFor os fs fuel (cmd.entryPath names child.name)
                    (names ++ [child.name]) (place ++ [child.name])
                    .nil).sent) ++
            (Sent.endDir []).steps) := by
    simp only [ScpCommand.sentFor, entry, isDir, Items.sent]
    rw [← stepsOf_foldr _ _ fun child rest => sent_sentFor _ _ _ _ _]
    simp [stepsOf]
  intro w ch same willing
  rw [sent] at willing ⊢
  obtain ⟨after, next, done, kept, sends⟩ :=
    handleRecursiveDownload_delivers (env.quiet filePath) env.recursive
      resolved directory (source.base_eq nonempty) each w ch same willing
  refine ⟨after, next, ?_, kept, sends⟩
  subst same
  simp only [ScpCommand.handleDownload, env.download, accepted, (env.quiet filePath).stat,
    orFault_none, stated, infoDir, not_true_eq_false, if_false, if_true]
  exact done

end Object

/-- The source sends what `sentFor` lists. -/
theorem handleDownload_delivers (env : Unhindered cmd os) (fuel : Nat) :
    ∀ (filePath : Str) (names place : Loc), names ≠ [] →
      SourceAt cmd.connection fs names place → PlainTree fs place →
      Shallow fs place fuel →
      cmd.connection.requested filePath = render names →
      Delivers fs
        (fun w ch => cmd.handleDownload settings os fuel w ch filePath)
        (stepsOf (cmd.sentFor os fs fuel filePath names place .nil).sent) := by
  induction fuel with
  | zero =>
    intro filePath names place _ source _ shallow _
    have deep := shallow [] (by simpa using source.present)
    omega
  | succ fuel ih =>
    intro filePath names place nonempty source plain shallow asked
    rcases plain.view_cases source.present with isDir | ⟨data, isFile⟩
    · apply handleDownload_dir env source nonempty asked isDir
      intro child member
      have present : fs.node (place ++ [child.name]) ≠ none :=
        mem_listed_names_iff.mp
          (List.mem_map_of_mem ((env.entries fs filePath place).mem_iff.mp member))
      have below := source.child plain present
      exact ih _ _ _ (by simp) below
        (plain.below child.name) (shallow.below child.name)
        (requested_getRelativePath env.home below.proper)
    · exact handleDownload_file env source nonempty asked isFile fuel

end Directories

end Sshserv.Serv
