import Sshserv.Lib.Height
import Sshserv.Serv.ScpCleanup

/-!
# Recursive downloads come to an end

`handleDownload` follows links, so it may meet the same directories again and
again, each time by a longer path.  No path that `os.Stat` resolves has more
than `longest` names, which bounds the recursion.
-/

namespace Sshserv.Serv

open Lib UnixPath FileTree FileSys
open DataProvider

namespace Channel

/-- The client sends OKs and nothing else. -/
def Agrees (ch : Channel) : Prop :=
  ∀ byte ∈ ch.bytes, byte = Char.ofNat 0

/-- At most `count` bytes of the client have been read. -/
def Uses (ch next : Channel) (count : Nat) : Prop :=
  ∃ taken, ch.bytes = taken ++ next.bytes ∧ taken.length ≤ count

variable {ch next last : Channel} {count more : Nat}

theorem Uses.refl (ch : Channel) : ch.Uses ch 0 :=
  ⟨[], rfl, le_rfl⟩

theorem Uses.of_input (same : next.input = ch.input) : ch.Uses next 0 :=
  ⟨[], by rw [bytes, bytes, same, List.nil_append], le_rfl⟩

theorem Uses.trans (first : ch.Uses next count) (second : next.Uses last more) :
    ch.Uses last (count + more) := by
  obtain ⟨taken, start, few⟩ := first
  obtain ⟨others, rest, fewMore⟩ := second
  refine ⟨taken ++ others, by rw [start, rest, List.append_assoc], ?_⟩
  rw [List.length_append]
  exact Nat.add_le_add few fewMore

theorem Uses.mono (uses : ch.Uses next count) (within : count ≤ more) : ch.Uses next more := by
  obtain ⟨taken, start, few⟩ := uses
  exact ⟨taken, start, few.trans within⟩

theorem Uses.agrees (uses : ch.Uses next count) (agrees : ch.Agrees) : next.Agrees := by
  obtain ⟨taken, start, _⟩ := uses
  intro byte member
  apply agrees
  rw [start]
  exact List.mem_append_right _ member

theorem uses_sendErrorMessage (ch : Channel) (text : Str) :
    ch.Uses (ch.sendErrorMessage text) 0 := by
  apply Uses.of_input
  simp [sendErrorMessage, close]

theorem uses_readConfirmationMessage (agrees : ch.Agrees) :
    ch.Uses ch.readConfirmationMessage.1 1 := by
  unfold readConfirmationMessage
  rcases read : ch.read 1 with _ | ⟨buf, next⟩
  · exact (Uses.of_input rfl).mono (Nat.zero_le _)
  · obtain ⟨reads, short⟩ := read_eq_some read
    have plain : ¬ (buf = warnMsg ∨ buf = errMsg) := by
      have taken : ∀ byte ∈ buf, byte = Char.ofNat 0 := by
        intro byte member
        apply agrees
        rw [reads.rest]
        exact List.mem_append_left _ member
      rintro (rfl | rfl)
      · exact absurd (taken (Char.ofNat 1) (by simp [warnMsg])) (by decide)
      · exact absurd (taken (Char.ofNat 2) (by simp [errMsg])) (by decide)
    simp only [if_neg plain]
    exact ⟨buf, reads.rest, short⟩

end Channel

open Channel

section Messages

theorem uses_sendData (os : Os) (ref fuel index : Nat) (readed : Int) (w : World) (ch : Channel) :
    ch.Uses (sendData os ref fuel index readed w ch).2 0 :=
  @sendData_keeps os ref (fun _ next => ch.Uses next 0)
    (fun _ _ _ _ used => used)
    (fun _ next buf used =>
      used.trans (Uses.of_input (next.write_input buf)))
    fuel index readed w ch (Uses.refl ch)

variable {cmd : ScpCommand} {ch : Channel} (agrees : ch.Agrees)
include agrees

theorem uses_exchange (message : Str) : ch.Uses (exchange ch message).1 1 := by
  have sent : ch.Uses (ch.sendProtocolMessage message).1 0 :=
    Uses.of_input (ch.sendProtocolMessage_input message)
  unfold exchange
  rcases told : ch.sendProtocolMessage message with ⟨next, _ | _⟩
  · rw [told] at sent
    exact sent.mono (Nat.zero_le _)
  · rw [told] at sent
    have answered := uses_readConfirmationMessage (sent.agrees agrees)
    exact (sent.trans answered).mono (by omega)

variable (cmd) in
theorem uses_sendTime (stat : FileInfo) : ch.Uses (cmd.sendTime ch stat).1 1 := by
  unfold ScpCommand.sendTime
  split
  · exact uses_exchange agrees _
  · exact (Uses.refl ch).mono (Nat.zero_le _)

theorem uses_header {timed : Channel} {stat : FileInfo} {late : Option Str}
    (time : cmd.sendTime ch stat = (timed, late)) (message : Str) :
    ch.Uses (exchange timed message).1 2 := by
  have first := uses_sendTime cmd agrees stat
  rw [time] at first
  exact first.trans (uses_exchange (first.agrees agrees) message)

variable (cmd) in
theorem uses_sendDownloadProtocolMessages (dirPath : Str) (stat : FileInfo) :
    ch.Uses (cmd.sendDownloadProtocolMessages ch dirPath stat).1 2 := by
  unfold ScpCommand.sendDownloadProtocolMessages
  rcases time : cmd.sendTime ch stat with ⟨timed, _ | err⟩
  · exact uses_header agrees time _
  · have first := uses_sendTime cmd agrees stat
    rw [time] at first
    exact first.mono (by omega)

theorem uses_sendDownloadFileData
    (os : Os) (w : World) (filePath : Str) (stat : FileInfo) (ref : Nat) :
    ch.Uses (cmd.sendDownloadFileData os w ch filePath stat ref).2.1 3 := by
  unfold ScpCommand.sendDownloadFileData
  rcases time : cmd.sendTime ch stat with ⟨timed, _ | err⟩
  · have header := uses_header agrees time
      ("C".toList ++ getFileModeAsString stat ++ " ".toList ++
        intText stat.size ++ " ".toList ++ base filePath ++ newLine)
    dsimp only
    rcases line : exchange timed
        ("C".toList ++ getFileModeAsString stat ++ " ".toList ++
          intText stat.size ++ " ".toList ++ base filePath ++ newLine) with
      ⟨begun, _ | err⟩
    · rw [line] at header
      have data := uses_sendData os ref ((w.contentOf ref).length + 2) 0 0 w begun
      have reached := header.trans data
      exact reached.trans (uses_exchange (reached.agrees agrees) okMsg)
    · rw [line] at header
      exact header.mono (by omega)
  · have first := uses_sendTime cmd agrees stat
    rw [time] at first
    exact first.mono (by omega)

end Messages

/-- A call that has come to an end: it is the same as another one, it has read
at most `answers` bytes of the client, and the tree is as it was. -/
structure Ended (fs : FileSys) (answers : Nat) (ch : Channel) (state other : ScpState) : Prop where
  same : state = other
  fueled : state.result ≠ .outOfFuel
  tree : state.world.fs = fs
  uses : ch.Uses state.channel answers

/-- On the tree `fs` the two calls come to the same end. -/
def Ends (fs : FileSys) (answers : Nat) (call other : World → Channel → ScpState) : Prop :=
  ∀ w ch, w.fs = fs → ch.Agrees → Ended fs answers ch (call w ch) (other w ch)

theorem Ended.mono {fs : FileSys} {answers more : Nat} {ch : Channel}
    {state other : ScpState} (ended : Ended fs answers ch state other)
    (within : answers ≤ more) : Ended fs more ch state other :=
  ⟨ended.same, ended.fueled, ended.tree, ended.uses.mono within⟩

theorem Ended.after {fs : FileSys} {before answers : Nat} {ch next : Channel}
    {state other : ScpState} (uses : ch.Uses next before)
    (ended : Ended fs answers next state other) :
    Ended fs (before + answers) ch state other :=
  ⟨ended.same, ended.fueled, ended.tree, uses.trans ended.uses⟩

theorem ended_refuse (w : World) (ch : Channel) (text : Str) :
    Ended w.fs 0 ch (refuse w ch text) (refuse w ch text) :=
  ⟨rfl, by simp [refuse], rfl, uses_sendErrorMessage ch text⟩

section Each

variable {fs : FileSys} {answers : Nat} {download other : World → Channel → Str → ScpState}

theorem downloadEach_ends {paths : List Str} (each :
      ∀ path ∈ paths,
        Ends fs answers (fun w ch => download w ch path) (fun w ch => other w ch path)) :
    Ends fs (paths.length * answers)
      (ScpCommand.downloadEach download paths)
      (ScpCommand.downloadEach other paths) := by
  induction paths with
  | nil =>
    rintro w ch rfl _
    exact ⟨rfl, by simp [ScpCommand.downloadEach], rfl,
      (Uses.refl ch).mono (Nat.zero_le _)⟩
  | cons path rest ih =>
    intro w ch tree agrees
    have one := each path (by simp) w ch tree agrees
    have more := ih (fun later member => each later (List.mem_cons_of_mem _ member))
    have total : (path :: rest).length * answers = answers + rest.length * answers := by
      rw [List.length_cons, Nat.add_mul, Nat.one_mul, Nat.add_comm]
    simp only [ScpCommand.downloadEach, ← one.same, total]
    split
    · exact (more _ _ one.tree (one.uses.agrees agrees)).after one.uses
    · exact ⟨rfl, one.fueled, one.tree, one.uses.mono (Nat.le_add_right _ _)⟩

theorem endDirectory_ended {ch : Channel} {state same : ScpState} (agrees : ch.Agrees)
    (ended : Ended fs answers ch state same) :
    Ended fs (answers + 1) ch (ScpCommand.endDirectory state) (ScpCommand.endDirectory same) := by
  obtain ⟨rfl, fueled, tree, uses⟩ := ended
  unfold ScpCommand.endDirectory
  split
  · -- The loop over the entries has stopped early.
    unfold ScpCommand.reportLoop
    split
    · rw [← tree]
      exact ((ended_refuse _ _ _).after uses).mono (Nat.le_succ _)
    · exact ⟨rfl, fueled, tree, uses.mono (Nat.le_succ _)⟩
  · have answered := uses_exchange (uses.agrees agrees) "E\n".toList
    rcases last : exchange state.channel "E\n".toList with ⟨next, _ | err⟩
    · rw [last] at answered
      exact ⟨rfl, by simp, tree, uses.trans answered⟩
    · rw [last] at answered
      exact ⟨rfl, by simp, tree, uses.trans answered⟩

end Each

section Directory

variable {cmd : ScpCommand} {os : Os} {w : World} {ch : Channel} {dirPath : Str} {stat : FileInfo}

theorem handleRecursiveDownload_fails
    (agrees : ch.Agrees) (refused : cmd.entriesOf os w ch dirPath stat = none) :
    ∃ next text, ch.Uses next 2 ∧
      ∀ download,
        cmd.handleRecursiveDownload download os w ch dirPath stat = ⟨w, next, .failed text⟩ := by
  have header := uses_sendDownloadProtocolMessages cmd agrees dirPath stat
  unfold ScpCommand.entriesOf at refused
  by_cases recursive : ¬ cmd.isRecursive = true
  · refine ⟨_, "Unable to send directory for non recursive copy".toList,
      (uses_sendErrorMessage ch
        "Unable to send directory for non recursive copy".toList).mono
        (Nat.zero_le _), fun download => ?_⟩
    rw [ScpCommand.handleRecursiveDownload, if_pos recursive]
    rfl
  · rw [if_neg recursive] at refused
    rcases sent : cmd.sendDownloadProtocolMessages ch dirPath stat with
      ⟨next, _ | err⟩
    · rw [sent] at refused header
      rcases listed : getDirContents os w.fs dirPath with err | files
      · refine ⟨_, os.message err,
          header.trans (uses_sendErrorMessage next (os.message err)),
          fun download => ?_⟩
        simp only [ScpCommand.handleRecursiveDownload, if_neg recursive, sent, listed]
        rfl
      · simp [listed] at refused
    · rw [sent] at header
      refine ⟨next, err, header, fun download => ?_⟩
      simp only [ScpCommand.handleRecursiveDownload, if_neg recursive, sent]

theorem entriesOf_eq_some {next : Channel} {paths : List Str}
    (entries : cmd.entriesOf os w ch dirPath stat = some (next, paths)) :
    (cmd.sendDownloadProtocolMessages ch dirPath stat).1 = next ∧
      ∃ files, getDirContents os w.fs dirPath = .ok files ∧
        paths = (filesFirst files).map fun file =>
          getRelativePath cmd.connection.user (join dirPath file.name) := by
  unfold ScpCommand.entriesOf at entries
  split at entries
  · cases entries
  rcases sent : cmd.sendDownloadProtocolMessages ch dirPath stat with
    ⟨after, _ | err⟩
  · rw [sent] at entries
    dsimp only at entries
    rcases listed : getDirContents os w.fs dirPath with err | files
    · simp [listed] at entries
    · rw [listed] at entries
      simp only [Option.some.injEq, Prod.mk.injEq] at entries
      obtain ⟨rfl, rfl⟩ := entries
      exact ⟨rfl, files, rfl, List.map_append.symm⟩
  · simp [sent] at entries

end Directory

section File

variable {cmd : ScpCommand} {settings : Settings}

theorem readAt_fs (os : Os) (index count : Nat) (off : Int) (w : World) (ref : Nat) :
    (Transfer.readAt os index w ref count off).1.fs = w.fs := by
  unfold Transfer.readAt
  split
  · rfl
  · split <;> rfl

theorem sendDownloadFileData_fs
    (os : Os) (w : World) (ch : Channel) (filePath : Str) (stat : FileInfo) (ref : Nat) :
    (cmd.sendDownloadFileData os w ch filePath stat ref).1.fs = w.fs :=
  @sendDownloadFileData_keeps os ref (fun now => now.fs = w.fs)
    (fun index off now same => (readAt_fs os index 32768 off now ref).trans same)
    cmd w rfl ch filePath stat

theorem Held.close_download_fs {w now : World} {ref : Nat} (held : Held w now ref .download)
    (settings : Settings) (os : Os) :
    (Transfer.close settings os now ref).1.fs = now.fs := by
  obtain ⟨t, entry, download⟩ := held.entry
  simp [Transfer.close, entry, Transfer.settle, Transfer.account, download,
    World.removeTransfer, World.addClose, World.setTransfer]

theorem downloadFile_ended (os : Os) (w : World) {ch : Channel} (agrees : ch.Agrees) (p : Str)
    (stat : FileInfo) :
    Ended w.fs 3 ch (cmd.downloadFile settings os w ch p stat)
      (cmd.downloadFile settings os w ch p stat) := by
  rcases opened : orFault os.openFile (w.fs.openRead p) with err | file
  · simp only [ScpCommand.downloadFile, opened]
    exact (ended_refuse w ch _).mono (Nat.zero_le _)
  · obtain ⟨added, ref, adds, held, whole⟩ := downloadFile_opened cmd settings ch stat opened
    have sameTree : w.fs = added.fs := congrArg (fun pair => pair.1.fs) adds
    rw [whole]
    refine ⟨rfl, ?_, ?_, uses_sendDownloadFileData agrees os added p stat ref⟩
    · dsimp only
      split <;> simp
    · exact (held.close_download_fs settings os).trans
        ((sendDownloadFileData_fs os added ch p stat ref).trans sameTree.symm)

end File

section Recursion

variable {cmd : ScpCommand} {settings : Settings} {os : Str → Os} {fs : FileSys}

/-- A bound on the answers that a download needs at a depth. -/
def answersFor (fs : FileSys) : Nat → Nat
  | 0 => 0
  | depth + 1 => 3 + fs.locs.card * answersFor fs depth

theorem length_listed_le (fs : FileSys) (loc : Loc) : (fs.listed loc).length ≤ fs.locs.card := by
  calc
    (fs.listed loc).length ≤ ((fs.children loc).sort (· ≤ ·)).length := List.length_filterMap_le _ _
    _ = (fs.children loc).card := Finset.length_sort _
    _ ≤ fs.locs.card := Finset.card_filter_le _ _

variable {path : Str} {names : Loc} {answers fuel : Nat}

theorem getDirContents_ok {os : Os} (order : ∀ files, (os.entryOrder files).Perm files)
    {files : List FileInfo} (listed : getDirContents os fs path = .ok files) :
    ∃ loc left, fs.resolve path = .found loc left ∧ files.Perm (fs.listed loc) := by
  unfold getDirContents at listed
  rcases read : orFault os.readDir (fs.readDir path) with err | entries
  · rw [read] at listed
    cases listed
  · rw [read] at listed
    cases listed
    have contents := (orFault_eq_ok.mp read).2
    unfold readDir at contents
    rcases located : (fs.resolve path).located with err | loc
    · rw [located] at contents
      cases contents
    · rw [located] at contents
      obtain ⟨left, found⟩ := located_eq_ok_iff.mp located
      dsimp only at contents
      split at contents
      · cases contents
        exact ⟨loc, left, found, order _⟩
      · cases contents

/-- What `handleDownload` does with an object that it finds. -/
def ScpCommand.downloadFound (cmd : ScpCommand) (settings : Settings)
    (download : World → Channel → Str → ScpState) (os : Os) (p : Str)
    (stat : FileInfo) (w : World) (ch : Channel) : ScpState :=
  if stat.isDir then cmd.handleRecursiveDownload download os w ch p stat
  else cmd.downloadFile settings os w ch p stat

theorem handleDownload_level
    (proper : ProperNames names) (asked : cmd.connection.requested path = render names)
    {depth : Nat} (found :
      names.length ≤ fs.longest →
        ∀ stat, Ends fs answers
            (cmd.downloadFound settings
              (cmd.handleDownload settings os fuel) (os path) (render names)
              stat)
            (cmd.downloadFound settings
              (cmd.handleDownload settings os depth) (os path)
              (render names) stat)) :
    Ends fs answers
      (fun w ch => cmd.handleDownload settings os (fuel + 1) w ch path)
      (fun w ch => cmd.handleDownload settings os (depth + 1) w ch path) := by
  rintro w ch rfl agrees
  simp only [ScpCommand.handleDownload]
  split
  · exact (ended_refuse w ch _).mono (Nat.zero_le _)
  rcases built : cmd.connection.buildPath w.fs path with err | p
  · exact (ended_refuse w ch _).mono (Nat.zero_le _)
  obtain rfl : p = render names := (buildPath_eq_ok_iff.mp built).1.trans asked
  dsimp only
  rcases looked : orFault (os path).stat (w.fs.stat (render names)) with
    err | stat
  · cases err with
    | noent => exact (ended_refuse w ch _).mono (Nat.zero_le _)
    | _ =>
      -- The code uses the missing result here and crashes.
      exact ⟨rfl, by simp, rfl, (Uses.refl ch).mono (Nat.zero_le _)⟩
  · obtain ⟨loc, left, resolved, _⟩ := stat_eq_ok_iff.mp (orFault_eq_ok.mp looked).2
    exact found (names_le_longest proper resolved) stat w ch rfl agrees

variable (home : isAbs cmd.connection.user.homeDir)
    (named : ∀ loc text, fs.node (loc ++ [text]) ≠ none → Proper text)
    (order : ∀ path files, ((os path).entryOrder files).Perm files)
include home named order

/-- One level: if the entries of a directory end, so does the directory. -/
theorem handleRecursiveDownload_ends
    {download other : World → Channel → Str → ScpState} (proper : ProperNames names)
    (path : Str) (each :
      ∀ text entry, Proper text →
        cmd.connection.requested entry = render (names ++ [text]) →
        Ends fs answers (fun w ch => download w ch entry) (fun w ch => other w ch entry))
    (stat : FileInfo) :
    Ends fs (3 + fs.locs.card * answers)
      (fun w ch =>
        cmd.handleRecursiveDownload download (os path) w ch (render names) stat)
      (fun w ch =>
        cmd.handleRecursiveDownload other (os path) w ch (render names) stat) := by
  rintro w ch rfl agrees
  dsimp only
  cases entries : cmd.entriesOf (os path) w ch (render names) stat with
  | none =>
    obtain ⟨next, text, uses, fails⟩ := handleRecursiveDownload_fails agrees entries
    rw [fails, fails]
    exact ⟨rfl, by simp, rfl, uses.mono (by omega)⟩
  | some pair =>
    obtain ⟨next, paths⟩ := pair
    rw [handleRecursiveDownload_some entries, handleRecursiveDownload_some entries]
    obtain ⟨rfl, files, listed, rfl⟩ := entriesOf_eq_some entries
    obtain ⟨loc, left, found, perm⟩ := getDirContents_ok (order path) listed
    have header := uses_sendDownloadProtocolMessages cmd agrees (render names) stat
    have entriesEnd :
        ∀ entry ∈ (filesFirst files).map fun file =>
            getRelativePath cmd.connection.user (join (render names) file.name),
          Ends w.fs answers (fun w ch => download w ch entry) (fun w ch => other w ch entry) := by
      intro entry member
      obtain ⟨file, chosen, rfl⟩ := List.mem_map.mp member
      have present : w.fs.node (loc ++ [file.name]) ≠ none :=
        mem_listed_names_iff.mp (List.mem_map_of_mem
          (((filesFirst_perm files).trans perm).mem_iff.mp chosen))
      have good : Proper file.name := named loc file.name present
      exact each file.name _ good
        (requested_getRelativePath home (List.forall_mem_append.mpr
          ⟨proper, List.forall_mem_singleton.mpr good⟩))
    have all := downloadEach_ends entriesEnd w _ rfl (header.agrees agrees)
    have few : (filesFirst files).length ≤ w.fs.locs.card := by
      rw [((filesFirst_perm files).trans perm).length_eq]
      exact length_listed_le w.fs loc
    have bound := Nat.mul_le_mul_right answers few
    rw [List.length_map] at all
    exact ((endDirectory_ended (header.agrees agrees) all).after header).mono (by omega)

variable (settings) in
/-- The download of a path ends at the depth that the longest path leaves. -/
theorem handleDownload_ends (depth : Nat) (proper : ProperNames names)
    (asked : cmd.connection.requested path = render names)
    (deep : fs.longest < names.length + depth) (enough : depth < fuel) :
    Ends fs (answersFor fs depth)
      (fun w ch => cmd.handleDownload settings os fuel w ch path)
      (fun w ch => cmd.handleDownload settings os (depth + 1) w ch path) := by
  induction depth generalizing names path fuel with
  | zero =>
    obtain ⟨fuel, rfl⟩ := Nat.exists_eq_add_one.mpr enough
    apply handleDownload_level proper asked
    intro short
    omega
  | succ depth ih =>
    obtain ⟨fuel, rfl⟩ := Nat.exists_eq_add_one.mpr (Nat.zero_lt_of_lt enough)
    apply handleDownload_level proper asked
    intro _ stat w ch tree agrees
    unfold ScpCommand.downloadFound
    split
    · refine handleRecursiveDownload_ends home named order proper path ?_ stat w ch tree agrees
      intro text entry good entryAsked
      refine ih ?_ entryAsked ?_ (by omega)
      · exact List.forall_mem_append.mpr ⟨proper, List.forall_mem_singleton.mpr good⟩
      · rw [List.length_append, List.length_singleton]
        omega
    · subst tree
      exact (downloadFile_ended (os path) w agrees (render names) stat).mono (Nat.le_add_right _ _)

end Recursion

/-- A recursive download of any path of any tree, links that form cycles
included, comes to an end: some depth of the recursion is never exceeded, and
a client that answers every message with OK is asked for a bounded number of
answers. -/
theorem recursive_download_ends (cmd : ScpCommand) (settings : Settings) (os : Str → Os) (w : World)
    (path : Str) (home : isAbs cmd.connection.user.homeDir)
    (named : ∀ loc text, w.fs.node (loc ++ [text]) ≠ none → Proper text)
    (order : ∀ path files, ((os path).entryOrder files).Perm files) :
    ∃ answers depth, ∀ (ch : Channel) (fuel : Nat), ch.Agrees →
      depth ≤ fuel →
        (cmd.handleDownload settings os fuel w ch path).result ≠ .outOfFuel ∧
          cmd.handleDownload settings os fuel w ch path =
            cmd.handleDownload settings os depth w ch path ∧
          ch.Uses (cmd.handleDownload settings os fuel w ch path).channel answers := by
  obtain ⟨names, proper, asked⟩ := requested_eq_render home path
  refine ⟨answersFor w.fs (w.fs.longest + 1), w.fs.longest + 2, ?_⟩
  intro ch fuel agrees enough
  have ended :=
    handleDownload_ends settings home named order (w.fs.longest + 1) proper
      asked (by omega) enough w ch rfl agrees
  exact ⟨ended.fueled, ended.same, ended.uses⟩

def circleWorld : World :=
  World.start
    (namesakeTree.withLink sampleHome "again".toList ".".toList sampleAttr)
    fun _ => some (0, 0)

theorem circle_download_ends :
    ∃ answers depth, ∀ (ch : Channel) (fuel : Nat), ch.Agrees →
      depth ≤ fuel →
        (sourceCommand.handleDownload defaultSettings (fun _ => sampleOs) fuel
            circleWorld ch "/".toList).result ≠ .outOfFuel ∧
          sourceCommand.handleDownload defaultSettings (fun _ => sampleOs)
              fuel circleWorld ch "/".toList =
            sourceCommand.handleDownload defaultSettings (fun _ => sampleOs)
              depth circleWorld ch "/".toList ∧
          ch.Uses
            (sourceCommand.handleDownload defaultSettings (fun _ => sampleOs)
              fuel circleWorld ch "/".toList).channel answers := by
  have names : ∀ loc ∈ circleWorld.fs.locs, ProperNames loc := by
    decide +kernel
  refine recursive_download_ends sourceCommand defaultSettings
    (fun _ => sampleOs) circleWorld "/".toList (by decide) ?_
    (fun _ files => List.Perm.refl files)
  intro loc text present
  exact names _ ((circleWorld.fs.mem_locs _).mpr present) text (by simp)

end Sshserv.Serv
