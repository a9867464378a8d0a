import Sshserv.Serv.DataPhase
import Sshserv.Serv.Delivery
import Sshserv.Serv.IdleCheck
import Sshserv.Serv.ReadOnly

/-!
# What an SCP command leaves behind

Every transfer that a command registers is closed once and has left the list
of active transfers when the command is over.  Whoever meets an error closes
the channel, except the download of a single file whose `Close` fails.
-/

namespace Sshserv.Serv

open Lib UnixPath FileTree
open DataProvider

/-! ## Transfers -/

/-- The transfers registered between two worlds have been closed, each one
once, and the list of active transfers is as it was. -/
structure Cleaned (w after : World) : Prop where
  next : w.nextTransfer ≤ after.nextTransfer
  active : after.activeTransfers = w.activeTransfers
  closes :
    after.closes =
      (List.range' w.nextTransfer (after.nextTransfer - w.nextTransfer)).reverse ++ w.closes

namespace Cleaned

variable {w between after : World}

theorem of_kept (kept : TransfersKept w after) : Cleaned w after where
  next := kept.next.ge
  active := kept.active
  closes := by
    rw [kept.next, kept.closes]
    simp

theorem refl (w : World) : Cleaned w w :=
  of_kept (TransfersKept.refl w)

theorem trans (first : Cleaned w between) (second : Cleaned between after) : Cleaned w after where
  next := first.next.trans second.next
  active := second.active.trans first.active
  closes := by
    have total :
        after.nextTransfer - w.nextTransfer =
          (between.nextTransfer - w.nextTransfer) +
            (after.nextTransfer - between.nextTransfer) := by
      have left := first.next
      have right := second.next
      omega
    have start :
        w.nextTransfer + (between.nextTransfer - w.nextTransfer) =
          between.nextTransfer := Nat.add_sub_of_le first.next
    rw [second.closes, first.closes, total, ← List.range'_append_1, start,
      List.reverse_append, List.append_assoc]

theorem tracked (cleaned : Cleaned w after) (tracked : w.Tracked) : after.Tracked := by
  intro ref active
  rw [cleaned.active] at active
  exact (tracked ref active).trans_le cleaned.next

theorem closed_once (cleaned : Cleaned w after) (tracked : w.Tracked) {ref : Nat}
    (new : w.nextTransfer ≤ ref) (known : ref < after.nextTransfer) :
    after.closes.count ref = w.closes.count ref + 1 ∧ ref ∉ after.activeTransfers := by
  constructor
  · have once : (List.range' w.nextTransfer (after.nextTransfer - w.nextTransfer)).count ref = 1 :=
      List.count_eq_one_of_mem List.nodup_range' (List.mem_range'_1.mpr (by omega))
    rw [cleaned.closes, List.count_append, List.count_reverse, once, Nat.add_comm]
  · intro active
    rw [cleaned.active] at active
    exact absurd (tracked ref active) (by omega)

end Cleaned

variable {ref : Nat} {state : ScpState} {ch next : Channel} {err : Str}

theorem swapRemove_added {refs : List Nat} (fresh : ref ∉ refs) :
    World.swapRemove (refs ++ [ref]) ref = refs := by
  have first : (refs ++ [ref]).findIdx? (fun other => decide (other = ref)) = some refs.length := by
    rw [List.findIdx?_append, List.findIdx?_eq_none_iff.mpr]
    · simp
    · intro other member
      simp only [decide_eq_false_iff_not]
      exact fun same => fresh (same ▸ member)
  simp [World.swapRemove, first]

/-- A transfer of some type is still registered, and no other one has come or
gone. -/
structure Held (w after : World) (ref : Nat) (type : TransferType) : Prop where
  next : after.nextTransfer = w.nextTransfer
  active : after.activeTransfers = w.activeTransfers
  closes : after.closes = w.closes
  entry : ∃ t, after.transfers ref = some t ∧ t.transferType = type

namespace Held

variable {w between after : World} {ref : Nat} {type : TransferType}

theorem refl {t : Transfer} (entry : w.transfers ref = some t) : Held w w ref t.transferType :=
  ⟨rfl, rfl, rfl, t, entry, rfl⟩

theorem set (held : Held w between ref type) (kept : TransfersKept between after)
    (t : Transfer) (same : t.transferType = type) :
    Held w (after.setTransfer ref t) ref type where
  next := kept.next.trans held.next
  active := kept.active.trans held.active
  closes := kept.closes.trans held.closes
  entry := ⟨t, by simp [World.setTransfer], same⟩

theorem readAt (held : Held w between ref type) (os : Os) (index count : Nat) (off : Int) :
    Held w (Transfer.readAt os index between ref count off).1 ref type := by
  obtain ⟨t, entry, same⟩ := held.entry
  simp only [Transfer.readAt, entry]
  split
  · exact held.set (TransfersKept.refl _) _ same
  · exact held.set (TransfersKept.refl _) _ same

theorem writeAt (held : Held w between ref type) (os : Os) (index : Nat) (p : List Char)
    (off : Int) :
    Held w (Transfer.writeAt os index between ref p off).1 ref type := by
  obtain ⟨t, entry, same⟩ := held.entry
  simp only [Transfer.writeAt, entry]
  split
  · exact held.set (TransfersKept.refl _) _ same
  · exact held.set (TransfersKept.setFs _ _) _ same

theorem writeAll (held : Held w between ref type) (os : Os) (index : Nat) (off : Int)
    (pieces : List (List Char)) :
    Held w (Transfer.writeAll os ref index off pieces between) ref type := by
  induction pieces generalizing between index off with
  | nil => exact held
  | cons p rest ih => exact ih (held.writeAt os index p off) _ _

end Held

theorem Held.close {w middle added now : World} {type : TransferType} {t : Transfer}
    (settings : Settings) (os : Os) (kept : TransfersKept w middle) (tracked : w.Tracked)
    (adds : middle.addTransfer t = (added, ref)) (held : Held added now ref type) :
    Cleaned w (Transfer.close settings os now ref).1 := by
  simp only [World.addTransfer, Prod.mk.injEq] at adds
  obtain ⟨rfl, rfl⟩ := adds
  obtain ⟨entry, found, _⟩ := held.entry
  have ended := @close_transfers now settings os middle.nextTransfer entry found
  have fresh : middle.nextTransfer ∉ middle.activeTransfers := fun member =>
    (kept.tracked tracked middle.nextTransfer member).false
  have step : Cleaned middle (Transfer.close settings os now middle.nextTransfer).1 := by
    constructor
    · rw [ended.next]
      simp [World.removeTransfer, World.addClose, World.setTransfer, held.next]
    · rw [ended.active]
      simp only [World.removeTransfer, World.addClose, World.setTransfer, held.active]
      exact swapRemove_added fresh
    · rw [ended.closes, ended.next]
      simp [World.removeTransfer, World.addClose, World.setTransfer, held.next, held.closes]
  exact (Cleaned.of_kept kept).trans step

/-! ## Channels -/

/-- An error that is returned has closed the channel. -/
def Reports (state : ScpState) : Prop :=
  ∀ text, state.result = .failed text → state.channel.closed = true

theorem reports_of_result (other : ∀ text, state.result ≠ .failed text) : Reports state :=
  fun text failed => absurd failed (other text)

theorem reports_ok (w : World) (ch : Channel) : Reports ⟨w, ch, .ok⟩ :=
  reports_of_result (by simp)

theorem reports_refuse (w : World) (ch : Channel) (text : Str) : Reports (refuse w ch text) :=
  fun _ _ => rfl

theorem reports_of_closed (closed : state.result ≠ .ok → state.channel.closed = true) :
    Reports state := by
  intro text failed
  apply closed
  simp [failed]

theorem exchange_failed {message : Str} (failed : exchange ch message = (next, some err)) :
    next.closed = true := by
  unfold exchange at failed
  rcases told : ch.sendProtocolMessage message with ⟨sent, _ | _⟩
  · rw [told] at failed
    simp only [Prod.mk.injEq] at failed
    exact failed.1 ▸ sendProtocolMessage_failed told
  · rw [told] at failed
    exact readConfirmationMessage_failed failed

theorem sendTime_failed
    {cmd : ScpCommand} {stat : FileInfo} (failed : cmd.sendTime ch stat = (next, some err)) :
    next.closed = true := by
  unfold ScpCommand.sendTime at failed
  split at failed
  · exact exchange_failed failed
  · simp at failed

theorem skipTimes_failed {fuel : Nat} (enough : ch.pending < fuel)
    (failed : Channel.skipTimes fuel ch = (next, .error err)) :
    next.closed = true := by
  induction fuel generalizing ch with
  | zero => omega
  | succ fuel ih =>
    rw [Channel.skipTimes] at failed
    rcases one : ch.readProtocolMessage with ⟨after, err | line⟩
    · rw [one] at failed
      simp only [Prod.mk.injEq] at failed
      rw [← failed.1]
      unfold Channel.readProtocolMessage at one
      split at one
      · simp at one
      · simp only [Prod.mk.injEq] at one
        exact one.1 ▸ rfl
    · rw [one] at failed
      dsimp only at failed
      split at failed
      · rcases told : after.sendConfirmationMessage with ⟨answered, _ | _⟩
        · rw [told] at failed
          simp only [Prod.mk.injEq] at failed
          exact failed.1 ▸ sendProtocolMessage_failed told
        · rw [told] at failed
          refine ih ?_ failed
          have kept := after.sendConfirmationMessage_pending
          rw [told] at kept
          have lengths := congrArg List.length (Channel.readProtocolMessage_reads one).rest
          rw [Channel.pending_eq_length] at enough
          rw [kept, Channel.pending_eq_length]
          simp only [List.length_append, newLine, List.length_singleton] at lengths
          omega
      · simp at failed

/-! ## The sink -/

section Sink

variable {cmd : ScpCommand} {settings : Settings}

variable {os : Nat → Os} {s : SinkState}

theorem received_failed {next : Channel} {err : Str}
    (failed : cmd.received os s = (next, .error err)) :
    next.closed = true := by
  unfold ScpCommand.received at failed
  rcases told : s.channel.sendConfirmationMessage with ⟨answered, _ | _⟩
  · rw [told] at failed
    simp only [Prod.mk.injEq] at failed
    exact failed.1 ▸ sendProtocolMessage_failed told
  · rw [told] at failed
    dsimp only at failed
    rcases got : answered.getNextUploadProtocolMessage with ⟨read, _ | command⟩
    · rw [got] at failed
      simp only [Prod.mk.injEq] at failed
      exact failed.1 ▸ skipTimes_failed (Nat.lt_succ_self _) got
    · rw [got] at failed
      simp at failed

theorem getUploadFileData_world (settings : Settings) (os : Os) (w : World) (ch : Channel)
    (sizeToRead : Int) (ref : Nat) :
    ∃ pieces, (getUploadFileData settings os w ch sizeToRead ref).world =
        (Transfer.close settings os (Transfer.writeAll os ref 0 0 pieces w) ref).1 := by
  rcases told : ch.sendConfirmationMessage with ⟨ready, _ | _⟩
  · rw [getUploadFileData_untold settings os w ref sizeToRead told]
    exact ⟨[], rfl⟩
  · rw [getUploadFileData_eq settings os ref w sizeToRead told]
    rcases uploadPieces ready sizeToRead with ⟨pieces, next, _ | _⟩
    · exact ⟨pieces, rfl⟩
    · exact ⟨pieces, finishUpload_world settings os _ next ref⟩

variable (cmd settings) in
theorem handleUpload_cleaned (os : Os) {w : World} (tracked : w.Tracked) (ch : Channel)
    (rawPath : Str) (sizeToRead : Int) :
    Cleaned w (cmd.handleUpload settings os w ch rawPath sizeToRead).world := by
  have continues := handleUpload_continues cmd settings os ch sizeToRead w rawPath
  have launches : Launches _ w (cmd.connection.scpOpen settings os w rawPath) :=
    (scpOpen_ends rawPath).launches
  rcases opened : cmd.connection.scpOpen settings os w rawPath with
    ⟨added, _ | ref⟩
  · rw [opened] at continues launches
    rw [continues.1]
    exact Cleaned.of_kept launches
  · rw [opened] at continues launches
    obtain ⟨⟨_, entry⟩, same⟩ := continues
    obtain ⟨t, middle, kept, adds, _⟩ := launches
    obtain ⟨pieces, world⟩ := getUploadFileData_world settings os added ch sizeToRead ref
    rw [same, world]
    exact Held.close settings os kept tracked adds ((Held.refl entry).writeAll os 0 0 pieces)

theorem handleUploadFile_reports (os : Os) (w : World) (ch : Channel) (requestPath filePath : Str)
    (sizeToRead : Int) :
    Reports (cmd.handleUploadFile settings os w ch requestPath filePath sizeToRead).toScpState := by
  unfold ScpCommand.handleUploadFile
  split
  · exact reports_refuse _ _ _
  split
  · exact reports_refuse _ _ _
  cases orFault os.openFile (w.fs.create filePath os.attr) with
  | error err => exact reports_refuse _ _ _
  | ok pair => exact reports_of_closed getUploadFileData_closed

theorem handleUpload_reports
    (os : Os) (w : World) (ch : Channel) (rawPath : Str) (sizeToRead : Int) :
    Reports (cmd.handleUpload settings os w ch rawPath sizeToRead).toScpState := by
  unfold ScpCommand.handleUpload
  split
  · exact reports_refuse _ _ _
  cases cmd.connection.buildPath w.fs rawPath with
  | error err => exact reports_refuse _ _ _
  | ok p =>
    dsimp only
    split
    · exact handleUploadFile_reports _ _ _ _ _ _
    · -- The code dereferences a nil error here.
      exact reports_of_result (by simp)
    · split
      · exact reports_refuse _ _ _
      · split
        · exact reports_refuse _ _ _
        · exact handleUploadFile_reports _ _ _ _ _ _

variable (cmd) in
theorem handleCreateDir_reports (os : Os) (w : World) (ch : Channel) (dirPath : Str) :
    Reports (cmd.handleCreateDir os w ch dirPath) := by
  unfold ScpCommand.handleCreateDir
  split
  · exact reports_refuse _ _ _
  cases cmd.connection.buildPath w.fs dirPath with
  | error err => exact reports_refuse _ _ _
  | ok p =>
    dsimp only [ScpCommand.createDir]
    split
    · exact reports_refuse _ _ _
    · exact reports_ok _ _

theorem turn_next_cleaned {after : SinkState} (tracked : s.world.Tracked)
    (next : cmd.turn settings os s = .next after) :
    Cleaned s.world after.world := by
  obtain ⟨ch, message, _, outcome⟩ := turn_next_cases next
  rcases outcome with ⟨_, _, rfl⟩ | ⟨name, _, _, _, rfl⟩ | ⟨size, name, _, _, _, rfl⟩
  · exact Cleaned.refl _
  · exact Cleaned.of_kept (handleCreateDir_kept _ _ _ _ _)
  · exact handleUpload_cleaned _ _ _ tracked _ _ _

theorem turn_stop_tidy {state : ScpState} (tracked : s.world.Tracked)
    (stops : cmd.turn settings os s = .stop state) :
    Cleaned s.world state.world ∧ Reports state := by
  unfold ScpCommand.turn at stops
  rcases got : cmd.received os s with ⟨ch, err | message⟩
  · rw [got] at stops
    cases stops
    exact ⟨Cleaned.refl _, fun _ _ => received_failed got⟩
  rw [got] at stops
  cases message with
  | endDir =>
    simp only [ScpCommand.handleMessage] at stops
    split at stops
    · rcases told : ch.sendConfirmationMessage with ⟨answered, _ | _⟩
      · rw [told] at stops
        cases stops
        exact ⟨Cleaned.refl _, fun _ _ => sendProtocolMessage_failed told⟩
      · rw [told] at stops
        cases stops
        exact ⟨Cleaned.refl _, reports_ok _ _⟩
    · cases stops
  | invalid err text =>
    cases stops
    exact ⟨Cleaned.refl _, fun _ _ => rfl⟩
  | dir name =>
    have made : Cleaned s.world _ := Cleaned.of_kept
      (handleCreateDir_kept (os s.index) s.world cmd ch (join s.destPath name))
    simp only [ScpCommand.handleMessage] at stops
    split at stops
    · split at stops
      · cases stops
        exact ⟨made, reports_ok _ _⟩
      · cases stops
    · cases stops
      exact ⟨made, handleCreateDir_reports _ _ _ _ _⟩
  | file size name =>
    have cleaned := fun path =>
      handleUpload_cleaned cmd settings (os s.index) tracked ch path size
    simp only [ScpCommand.handleMessage] at stops
    split at stops
    · split at stops
      · cases stops
        exact ⟨cleaned _, reports_ok _ _⟩
      · cases stops
    · cases stops
      exact ⟨cleaned _, handleUpload_reports _ _ _ _ _⟩

theorem sinkFrom_tidy {fuel : Nat} (tracked : s.world.Tracked) :
    Cleaned s.world (cmd.sinkFrom settings os fuel s).world ∧
      Reports (cmd.sinkFrom settings os fuel s) := by
  induction fuel generalizing s with
  | zero => exact ⟨Cleaned.refl _, nofun⟩
  | succ fuel ih =>
    rw [ScpCommand.sinkFrom_succ]
    cases next : cmd.turn settings os s with
    | next after =>
      have step := turn_next_cleaned tracked next
      obtain ⟨cleaned, reports⟩ := ih (step.tracked tracked)
      exact ⟨step.trans cleaned, reports⟩
    | stop state => exact turn_stop_tidy tracked next

variable (cmd settings) in
theorem handleRecursiveUpload_tidy
    (os : Nat → Os) {w : World} (tracked : w.Tracked) (ch : Channel) :
    Cleaned w (cmd.handleRecursiveUpload settings w ch os).world ∧
      Reports (cmd.handleRecursiveUpload settings w ch os) := by
  unfold ScpCommand.handleRecursiveUpload
  cases cmd.getDestPath with
  | none => exact ⟨Cleaned.refl w, nofun⟩
  | some destPath => exact sinkFrom_tidy (s := ⟨0, 0, destPath, w, ch⟩) tracked

end Sink

/-! ## The source -/

section Source

variable {cmd : ScpCommand} {settings : Settings}

variable {w : World} {ref : Nat} {os : Os}

theorem sendDownloadFileData_held {added : World} {type : TransferType}
    (held : Held w added ref type) (os : Os) (ch : Channel) (filePath : Str) (stat : FileInfo) :
    Held w (cmd.sendDownloadFileData os added ch filePath stat ref).1 ref type :=
  @sendDownloadFileData_keeps os ref (fun now => Held w now ref type)
    (fun index off _ before => before.readAt os index 32768 off) cmd added
    held ch filePath stat

theorem sendDownloadFileData_failed
    {after : World} {ch next : Channel} {filePath : Str} {stat : FileInfo} {err : Str}
    (failed : cmd.sendDownloadFileData os w ch filePath stat ref = (after, next, some err)) :
    next.closed = true := by
  unfold ScpCommand.sendDownloadFileData at failed
  rcases timed : cmd.sendTime ch stat with ⟨ready, _ | late⟩
  · rw [timed] at failed
    dsimp only at failed
    split at failed
    · rename_i sent _ header
      simp only [Prod.mk.injEq] at failed
      exact failed.2.1 ▸ exchange_failed header
    · simp only [Prod.mk.injEq] at failed
      obtain ⟨_, rfl, status⟩ := failed
      exact exchange_failed (Prod.ext rfl status)
  · rw [timed] at failed
    simp only [Prod.mk.injEq] at failed
    exact failed.2.1 ▸ sendTime_failed timed

theorem Held.close_download {now : World} (held : Held w now ref .download) (settings : Settings)
    (os : Os) :
    (Transfer.close settings os now ref).2 = os.closeFile := by
  obtain ⟨t, entry, download⟩ := held.entry
  simp [Transfer.close, entry, Transfer.settle, download]

variable (cmd settings) in
theorem downloadFile_opened (ch : Channel) {p : Str} (stat : FileInfo) {file : Handle}
    (opened : orFault os.openFile (w.fs.openRead p) = .ok file) :
    ∃ added ref,
      w.addTransfer (cmd.connection.newTransfer os file p .download false) = (added, ref) ∧
      Held added (cmd.sendDownloadFileData os added ch p stat ref).1 ref .download ∧
      cmd.downloadFile settings os w ch p stat =
        let sent := cmd.sendDownloadFileData os added ch p stat ref
        ⟨(Transfer.close settings os sent.1 ref).1, sent.2.1,
          match sent.2.2, os.closeFile with
          | some err, _ => .failed err
          | none, some err => .failed (os.message err)
          | none, none => .ok⟩ := by
  rcases adds : w.addTransfer
    (cmd.connection.newTransfer os file p .download false) with ⟨added, ref⟩
  have entry :
      added.transfers ref = some (cmd.connection.newTransfer os file p .download false) := by
    simp only [World.addTransfer, Prod.mk.injEq] at adds
    obtain ⟨rfl, rfl⟩ := adds
    exact if_pos rfl
  have held : Held added (cmd.sendDownloadFileData os added ch p stat ref).1 ref .download :=
    sendDownloadFileData_held (Held.refl entry) os ch p stat
  refine ⟨added, ref, rfl, held, ?_⟩
  simp only [ScpCommand.downloadFile, opened, adds]
  rcases sent : cmd.sendDownloadFileData os added ch p stat ref with
    ⟨now, next, _ | err⟩
  · rw [sent] at held
    have ends := held.close_download settings os
    dsimp only at ends ⊢
    rcases ending : Transfer.close settings os now ref with ⟨after, _ | err⟩
    · rw [ending] at ends
      rw [← ends]
    · rw [ending] at ends
      rw [← ends]
  · rfl

variable (cmd settings) in
theorem downloadFile_cleaned (os : Os) (tracked : w.Tracked) (ch : Channel) (p : Str)
    (stat : FileInfo) :
    Cleaned w (cmd.downloadFile settings os w ch p stat).world := by
  rcases opened : orFault os.openFile (w.fs.openRead p) with err | file
  · simp only [ScpCommand.downloadFile, opened]
    exact Cleaned.refl w
  · obtain ⟨added, ref, adds, held, whole⟩ := downloadFile_opened cmd settings ch stat opened
    rw [whole]
    exact Held.close settings os (TransfersKept.refl w) tracked adds held

/-- The download of a file that can be closed reports every error. -/
theorem downloadFile_reports (closes : os.closeFile = none) (w : World) (ch : Channel) (p : Str)
    (stat : FileInfo) :
    Reports (cmd.downloadFile settings os w ch p stat) := by
  rcases opened : orFault os.openFile (w.fs.openRead p) with err | file
  · simp only [ScpCommand.downloadFile, opened]
    exact reports_refuse _ _ _
  · obtain ⟨added, ref, adds, held, whole⟩ := downloadFile_opened cmd settings ch stat opened
    rw [whole]
    rcases sent : cmd.sendDownloadFileData os added ch p stat ref with
      ⟨now, next, _ | err⟩
    · simp only [closes]
      exact reports_ok _ _
    · exact fun _ _ => sendDownloadFileData_failed sent

theorem reports_reportLoop (state : ScpState) : Reports (ScpCommand.reportLoop state) := by
  unfold ScpCommand.reportLoop
  split
  · exact reports_refuse _ _ _
  · rename_i other
    exact fun text failed => absurd failed (other text)

variable {download : World → Channel → Str → ScpState}

theorem downloadEach_cleaned (each : ∀ w ch path, w.Tracked → Cleaned w (download w ch path).world)
    (paths : List Str) (tracked : w.Tracked) (ch : Channel) :
    Cleaned w (ScpCommand.downloadEach download paths w ch).world := by
  induction paths generalizing w ch with
  | nil => exact Cleaned.refl w
  | cons path rest ih =>
    have one := each w ch path tracked
    simp only [ScpCommand.downloadEach]
    split
    · exact one.trans (ih (one.tracked tracked) _)
    · exact one

/-- Whatever the download of one path does, a directory reports its
errors. -/
theorem handleRecursiveDownload_reports (download : World → Channel → Str → ScpState) (os : Os)
    (w : World) (ch : Channel) (dirPath : Str) (stat : FileInfo) :
    Reports (cmd.handleRecursiveDownload download os w ch dirPath stat) := by
  unfold ScpCommand.handleRecursiveDownload
  split
  · exact reports_refuse _ _ _
  rcases header : cmd.sendDownloadProtocolMessages ch dirPath stat with
    ⟨next, _ | err⟩
  · dsimp only
    split
    · exact reports_refuse _ _ _
    split
    · exact reports_reportLoop _
    split
    · exact reports_reportLoop _
    split
    · rename_i ended
      exact fun _ _ => exchange_failed ended
    · exact reports_ok _ _
  · intro _ _
    unfold ScpCommand.sendDownloadProtocolMessages at header
    rcases timed : cmd.sendTime ch stat with ⟨ready, _ | late⟩
    · rw [timed] at header
      exact exchange_failed header
    · rw [timed] at header
      simp only [Prod.mk.injEq] at header
      exact header.1 ▸ sendTime_failed timed

theorem handleRecursiveDownload_cleaned
    (each : ∀ w ch path, w.Tracked → Cleaned w (download w ch path).world) (os : Os)
    (tracked : w.Tracked) (ch : Channel) (dirPath : Str) (stat : FileInfo) :
    Cleaned w (cmd.handleRecursiveDownload download os w ch dirPath stat).world := by
  unfold ScpCommand.handleRecursiveDownload
  split
  · exact Cleaned.refl w
  split
  · exact Cleaned.refl w
  split
  · exact Cleaned.refl w
  have sentFiles := fun paths channel =>
    downloadEach_cleaned each paths tracked channel
  dsimp only
  split
  · rw [reportLoop_world]
    exact sentFiles _ _
  · have sentDirs := fun paths channel start (begun : Cleaned w start) =>
      begun.trans (downloadEach_cleaned each paths (begun.tracked tracked) channel)
    split
    · rw [reportLoop_world]
      exact sentDirs _ _ _ (sentFiles _ _)
    · split
      · exact sentDirs _ _ _ (sentFiles _ _)
      · exact sentDirs _ _ _ (sentFiles _ _)

theorem handleDownload_cleaned (os : Str → Os) (fuel : Nat) (tracked : w.Tracked) (ch : Channel)
    (filePath : Str) :
    Cleaned w (cmd.handleDownload settings os fuel w ch filePath).world := by
  induction fuel generalizing w ch filePath with
  | zero => exact Cleaned.refl w
  | succ fuel ih =>
    unfold ScpCommand.handleDownload
    split
    · exact Cleaned.refl w
    split
    · exact Cleaned.refl w
    split
    · exact Cleaned.refl w
    · exact Cleaned.refl w
    split
    · exact handleRecursiveDownload_cleaned
        (fun w ch path tracked => ih tracked ch path) _
        tracked _ _ _
    · exact downloadFile_cleaned cmd settings _ tracked _ _ _

end Source

/-! ## The command -/

/-- The command downloads a single file, which it can open and not close. -/
def CloseFails (cmd : ScpCommand) (os : Str → Os) (w : World) : Prop :=
  ∃ destPath commandType p stat file err, cmd.getDestPath = some destPath ∧
      cmd.getCommandType = some commandType ∧
      (commandType = "-f".toList ∨ commandType = "-pf".toList) ∧
      cmd.connection.user.hasPerm permDownload = true ∧
      cmd.connection.buildPath w.fs destPath = .ok p ∧
      orFault (os destPath).stat (w.fs.stat p) = .ok stat ∧
      stat.isDir = false ∧
      orFault (os destPath).openFile (w.fs.openRead p) = .ok file ∧
      (os destPath).closeFile = some err

/-- For every client: when the command returns, its channel is closed, and
every transfer it has registered has been closed once and is not active. -/
def CleansUp (cmd : ScpCommand) (settings : Settings) (sink : Nat → Os)
    (source : Str → Os) (w : World) : Prop :=
  ∀ (ch : Channel) (depth : Nat),
    let after := cmd.handle settings ⟨sink, source, depth⟩ w ch
    (after.result = .ok ∨ ∃ text, after.result = .failed text) →
      after.channel.closed = true ∧
        ∀ ref, w.nextTransfer ≤ ref → ref < after.world.nextTransfer →
          after.world.closes.count ref = w.closes.count ref + 1 ∧ ref ∉ after.world.activeTransfers

section Command

variable {cmd : ScpCommand} {settings : Settings} {sink : Nat → Os} {source : Str → Os} {w : World}

theorem handle_cleaned (tracked : w.Tracked) (env : ScpCommand.ScpEnv) (ch : Channel) :
    Cleaned w (cmd.handle settings env w ch).world := by
  unfold ScpCommand.handle
  split
  · split
    · have uploaded := (handleRecursiveUpload_tidy cmd settings env.sink tracked ch).1
      dsimp only
      split
      · exact uploaded
      · exact uploaded
    split
    · split
      · exact Cleaned.refl w
      · dsimp only
        split
        · exact handleDownload_cleaned _ _ tracked _ _
        · exact handleDownload_cleaned _ _ tracked _ _
    · exact Cleaned.refl w
  · exact Cleaned.refl w

theorem handleDownload_reports {destPath commandType : Str} (dest : cmd.getDestPath = some destPath)
    (type : cmd.getCommandType = some commandType)
    (download : commandType = "-f".toList ∨ commandType = "-pf".toList)
    (closes : ¬ CloseFails cmd source w) (depth : Nat) (ch : Channel) :
    Reports (cmd.handleDownload settings source depth w ch destPath) := by
  cases depth with
  | zero => exact reports_of_result (by simp [ScpCommand.handleDownload])
  | succ depth =>
    unfold ScpCommand.handleDownload
    split
    · exact reports_refuse _ _ _
    rename_i permitted
    split
    · exact reports_refuse _ _ _
    rename_i p built
    split
    · exact reports_refuse _ _ _
    · exact reports_of_result (by simp)
    rename_i stat found
    split
    · exact handleRecursiveDownload_reports _ _ _ _ _ _
    rename_i plain
    rcases opened : orFault (source destPath).openFile (w.fs.openRead p) with err | file
    · simp only [ScpCommand.downloadFile, opened]
      exact reports_refuse _ _ _
    · rcases closing : (source destPath).closeFile with _ | err
      · exact downloadFile_reports closing _ _ _ _
      · exact absurd
          ⟨destPath, commandType, p, stat, file, err, dest, type, download,
            by simpa using permitted, built, found, by simpa using plain,
            opened, closing⟩
          closes

/-- After success the exit status closes the channel, after an error whoever
met it. -/
theorem exitStatus_closed {state after : ScpState} (reports : Reports state) (whole :
      after =
        if state.result = .ok then
          { state with channel := state.channel.sendExitStatus false }
        else state)
    (returns : after.result = .ok ∨ ∃ text, after.result = .failed text) :
    after.channel.closed = true := by
  split at whole
  · rw [whole]
    rfl
  · rename_i failed
    subst whole
    obtain ⟨text, error⟩ := returns.resolve_left failed
    exact reports text error

theorem handle_closed (tracked : w.Tracked) (closes : ¬ CloseFails cmd source w) (depth : Nat)
    {ch : Channel} (returns :
      (cmd.handle settings ⟨sink, source, depth⟩ w ch).result = .ok ∨
        ∃ text, (cmd.handle settings ⟨sink, source, depth⟩ w ch).result = .failed text) :
    (cmd.handle settings ⟨sink, source, depth⟩ w ch).channel.closed = true := by
  unfold ScpCommand.handle at returns ⊢
  split at returns
  · rename_i destPath commandType dest type
    split at returns
    · rename_i upload
      rw [if_pos upload]
      exact exitStatus_closed
        (handleRecursiveUpload_tidy cmd settings sink tracked ch).2 rfl
        returns
    · rename_i upload
      rw [if_neg upload]
      split at returns
      · rename_i download
        rw [if_pos download]
        rcases status : ch.readConfirmationMessage with ⟨next, _ | err⟩
        · rw [status] at returns
          exact exitStatus_closed
            (handleDownload_reports dest type download closes depth next)
            rfl returns
        · exact readConfirmationMessage_failed status
      · rename_i download
        rw [if_neg download]
        rfl
  · simp at returns

/-! ### A file that cannot be closed -/

def agreeing (count : Nat) : Channel :=
  ⟨[List.replicate count (Char.ofNat 0)], [], [], false, none⟩

theorem willing_agreeing (count : Nat) : (agreeing count).Willing count := by
  refine ⟨⟨rfl, nofun⟩, ?_⟩
  simp [agreeing, Channel.bytes]

theorem sendData_talks (os : Os) (ref fuel index : Nat) (readed : Int) (w : World) {ch : Channel}
    (live : ch.Live) :
    ∃ sent, Channel.Talks ch (sendData os ref fuel index readed w ch).2 [] sent := by
  refine @sendData_keeps os ref
    (fun _ next => ∃ sent, Channel.Talks ch next [] sent)
    (fun _ _ _ _ talked => talked) ?_ fuel index readed w ch
    ⟨[], Channel.Talks.refl live⟩
  rintro _ next buf ⟨sent, talked⟩
  obtain ⟨after, written, talks⟩ := Channel.write_live talked.live buf
  rw [written]
  exact ⟨sent ++ buf, talked.trans talks⟩

theorem sendDownloadFileData_agrees (cmd : ScpCommand) (os : Os) (w : World) {ch : Channel}
    (filePath : Str) (stat : FileInfo) (ref : Nat) (willing : ch.Willing 3) :
    ∃ after next,
      cmd.sendDownloadFileData os w ch filePath stat ref = (after, next, none) ∧ next.Live := by
  have few : (cmd.timesOf stat).length ≤ 1 := by
    unfold ScpCommand.timesOf
    split <;> simp
  obtain ⟨timed, first, times⟩ :=
    sendTime_sends
      (show ch.Willing (cmd.timesOf stat).length from
        willing.mono (by omega))
  have waiting : timed.Willing 2 := by
    refine Channel.Willing.after (willing.mono ?_) times
    rw [List.length_map]
    omega
  obtain ⟨begun, second, line⟩ :=
    exchange_sends (waiting.mono (by omega))
      ("C".toList ++ getFileModeAsString stat ++ " ".toList ++
        intText stat.size ++ " ".toList ++ base filePath ++ newLine)
  have ready : begun.Willing 1 := Channel.Willing.after waiting line
  obtain ⟨sent, talks⟩ := sendData_talks os ref ((w.contentOf ref).length + 2) 0 0 w ready.1
  obtain ⟨next, third, status⟩ := exchange_sends (ready.written talks) okMsg
  refine ⟨(sendData os ref ((w.contentOf ref).length + 2) 0 0 w begun).1, next, ?_, status.live⟩
  simp only [ScpCommand.sendDownloadFileData, first, second, third]

theorem closeFails_open (fails : CloseFails cmd source w) (settings : Settings) (sink : Nat → Os) :
    ∃ ch text, (cmd.handle settings ⟨sink, source, 1⟩ w ch).result = .failed text ∧
        (cmd.handle settings ⟨sink, source, 1⟩ w ch).channel.closed = false := by
  obtain ⟨destPath, commandType, p, stat, file, err, dest, type, download,
    permitted, built, found, plain, opened, closing⟩ := fails
  obtain ⟨live, rest, bytes⟩ := willing_agreeing 4
  obtain ⟨ready, status⟩ :=
    Channel.readConfirmationMessage_dialogue live
      (bytes.symm.trans (List.append_assoc okMsg _ rest))
  have waiting : ready.Willing 3 :=
    ⟨status.talks.live, rest,
      (status.talks.bytes (bytes.symm.trans (List.append_assoc okMsg _ rest))).symm⟩
  obtain ⟨added, ref, adds, held, whole⟩ := downloadFile_opened cmd settings ready stat opened
  obtain ⟨after, next, sent, done⟩ :=
    sendDownloadFileData_agrees cmd (source destPath) added p stat ref waiting
  have notUpload : ¬ (commandType = "-t".toList ∨ commandType = "-pt".toList) := by
    rcases download with rfl | rfl <;> decide
  have result :
      cmd.handle settings ⟨sink, source, 1⟩ w (agreeing 4) =
        ⟨(Transfer.close settings (source destPath) after ref).1, next,
          .failed ((source destPath).message err)⟩ := by
    simp only [ScpCommand.handle, dest, type, if_neg notUpload, if_pos download, status.whole,
      ScpCommand.handleDownload, permitted, built, found, plain, whole, sent, closing, not_true,
      if_false, Bool.false_eq_true, reduceCtorEq]
  refine ⟨agreeing 4, (source destPath).message err, ?_, ?_⟩
  · rw [result]
  · rw [result]
    exact done.1

end Command

/-- An SCP command cleans up after itself for every client, unless it is the
download of a file that cannot be closed. -/
theorem scp_cleans_up_iff (cmd : ScpCommand) (settings : Settings) (sink : Nat → Os)
    (source : Str → Os) {w : World} (tracked : w.Tracked) :
    CleansUp cmd settings sink source w ↔ ¬ CloseFails cmd source w := by
  constructor
  · intro cleans fails
    obtain ⟨ch, text, failed, opened⟩ := closeFails_open fails settings sink
    have closed := (cleans ch 1 (Or.inr ⟨text, failed⟩)).1
    rw [opened] at closed
    cases closed
  · intro closes ch depth after returns
    refine ⟨handle_closed tracked closes depth returns, ?_⟩
    intro ref new known
    exact (handle_cleaned tracked _ ch).closed_once tracked new known

/-! ## Samples -/

theorem home_download_cleans_up :
    CleansUp sourceCommand defaultSettings (fun _ => sampleOs) (fun _ => sampleOs) fullWorld := by
  refine (scp_cleans_up_iff sourceCommand defaultSettings (fun _ => sampleOs)
    (fun _ => sampleOs) (w := fullWorld) nofun).mpr ?_
  rintro ⟨_, _, _, _, _, err, _, _, _, _, _, _, _, _, closing⟩
  cases closing

def fileCommand : ScpCommand :=
  ⟨⟨"c".toList, sampleUser, "SCP".toList⟩, ["-f".toList, "/f".toList]⟩

/-- The file is sent whole, then `Close` fails, and the client waits on an
open channel. -/
theorem unclosed_file_leaves_channel :
    ¬ CleansUp fileCommand defaultSettings (fun _ => sampleOs)
      (fun _ => { sampleOs with closeFile := some (.other 5) }) fullWorld := by
  intro cleans
  have closed := (cleans (agreeing 4) 1 (Or.inr ⟨[], by decide +kernel⟩)).1
  revert closed
  decide +kernel

end Sshserv.Serv
