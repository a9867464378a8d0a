import Sshserv.Serv.AtomicUpload

/-!
# SCP uploads as runs

`scpCommand.handleUpload` is a run of upload events.  The upload is finished
only if all the data came and the client confirmed it; in every other case it
is broken off.
-/

namespace Sshserv.Serv

open Lib UnixPath FileTree Runs
open DataProvider

def WritesTo (os : Os) (ref : Nat) (events : List UploadEvent) : Prop :=
  ∀ event ∈ events, ∃ index bytes off, event = .writeAt os index ref bytes off

def OpenIn (s : UploadRun) (ref : Nat) : Prop :=
  ∃ up, s.uploads ref = some up ∧ up.done = false

section Steps

variable {settings : Settings} {os : Os} {s : UploadRun} {ref : Nat}

theorem step_writeAt (settings : Settings) (os : Os) (active : OpenIn s ref) (index : Nat)
    (bytes : List Char) (off : Int) :
    (s.step settings (.writeAt os index ref bytes off)).world =
        (Transfer.writeAt os index s.world ref bytes off).1 ∧
      OpenIn (s.step settings (.writeAt os index ref bytes off)) ref := by
  obtain ⟨up, given, notDone⟩ := active
  simp only [UploadRun.step, given, notDone, Bool.false_eq_true, if_false, true_and]
  refine ⟨_, Function.update_self _ _ _, ?_⟩
  cases (Transfer.writeAt os index s.world ref bytes off).2.2 with
  | none => exact notDone
  | some err => exact notDone

theorem step_close (settings : Settings) (os : Os) (active : OpenIn s ref) :
    (s.step settings (.finish os ref)).world = (Transfer.close settings os s.world ref).1 ∧
      (s.step settings (.abort os ref)).world = (Transfer.close settings os s.world ref).1 := by
  obtain ⟨up, given, notDone⟩ := active
  simp only [UploadRun.step, given, notDone, Bool.false_eq_true, if_false]
  exact ⟨rfl, rfl⟩

end Steps

section Data

variable (settings : Settings) (os : Os) {ref : Nat} (sizeToRead : Int)

theorem receive_run (fuel : Nat) :
    ∀ (index : Nat) (remaining : Int) (bufLen : Nat) (s : UploadRun)
      (ch : Channel), OpenIn s ref →
      ∃ writes, WritesTo os ref writes ∧
        OpenIn (run (UploadRun.step settings) s writes) ref ∧
        ((receive settings os ref sizeToRead fuel index remaining bufLen s.world ch).ok = true →
          (receive settings os ref sizeToRead fuel index remaining bufLen s.world ch).world =
            (run (UploadRun.step settings) s writes).world) ∧
        ((receive settings os ref sizeToRead fuel index remaining bufLen s.world ch).ok = false →
          (receive settings os ref sizeToRead fuel index remaining bufLen s.world ch).world =
            (run (UploadRun.step settings) s (writes ++ [.abort os ref])).world) := by
  induction fuel with
  | zero =>
    intro index remaining bufLen s ch active
    refine ⟨[], by simp [WritesTo], active, nofun, fun _ => ?_⟩
    exact (step_close settings os active).2.symm
  | succ fuel ih =>
    intro index remaining bufLen s ch active
    rw [receive]
    cases read : ch.read bufLen with
    | none =>
      refine ⟨[], by simp [WritesTo], active, nofun, fun _ => ?_⟩
      exact (step_close settings os active).2.symm
    | some result =>
      obtain ⟨buf, next⟩ := result
      obtain ⟨world, stillOpen⟩ :=
        step_writeAt settings os active index buf (sizeToRead - remaining)
      simp only
      split
      · refine ⟨[.writeAt os index ref buf (sizeToRead - remaining)],
          ?_, stillOpen, fun _ => world.symm, nofun⟩
        intro event member
        exact ⟨_, _, _, List.mem_singleton.mp member⟩
      · rw [← world]
        obtain ⟨writes, all, openEnd, whenOk, whenNot⟩ :=
          ih (index + 1) (remaining - buf.length)
            (if remaining - buf.length < bufLen then
              (remaining - buf.length).toNat else bufLen)
            _ next stillOpen
        refine
          ⟨.writeAt os index ref buf (sizeToRead - remaining) :: writes,
            ?_, openEnd, whenOk, whenNot⟩
        intro event member
        rcases List.mem_cons.mp member with rfl | later
        · exact ⟨_, _, _, rfl⟩
        · exact all event later

/-- The event that ends an upload, given what is returned for it. -/
structure Ending (os : Os) (ref : Nat) (result : ScpResult) (ending : UploadEvent) : Prop where
  either : ending = .finish os ref ∨ ending = .abort os ref
  success : result = .ok → ending = .finish os ref

theorem finishUpload_run {s : UploadRun} (ch : Channel) (active : OpenIn s ref) :
    ∃ ending, Ending os ref (finishUpload settings os s.world ch ref).result ending ∧
        (finishUpload settings os s.world ch ref).world = (s.step settings ending).world := by
  obtain ⟨finished, aborted⟩ := step_close settings os active
  rw [finishUpload_world]
  cases confirmation : ch.readConfirmationMessage with
  | mk next err =>
    cases err with
    | some text =>
      refine ⟨.abort os ref, ⟨Or.inr rfl, ?_⟩, aborted.symm⟩
      simp [finishUpload, confirmation]
    | none => exact ⟨.finish os ref, ⟨Or.inl rfl, fun _ => rfl⟩, finished.symm⟩

/-- The data phase is a sequence of writes and one end of the upload. -/
theorem getUploadFileData_run {s : UploadRun} (ch : Channel) (active : OpenIn s ref) :
    ∃ writes ending, WritesTo os ref writes ∧
      Ending os ref (getUploadFileData settings os s.world ch sizeToRead ref).result ending ∧
      (getUploadFileData settings os s.world ch sizeToRead ref).world =
        (run (UploadRun.step settings) s (writes ++ [ending])).world := by
  unfold getUploadFileData
  cases confirmed : ch.sendConfirmationMessage with
  | mk next sentOk =>
    cases sentOk with
    | false =>
      refine ⟨[], .abort os ref, by simp [WritesTo], ⟨Or.inr rfl, nofun⟩,
        ?_⟩
      exact (step_close settings os active).2.symm
    | true =>
      simp only
      by_cases data : sizeToRead > 0
      · simp only [data, if_true]
        obtain ⟨writes, all, openEnd, whenOk, whenNot⟩ :=
          receive_run settings os sizeToRead (next.pending + 1) 0
            sizeToRead (min 32768 sizeToRead.toNat) s next active
        generalize
          receive settings os ref sizeToRead (next.pending + 1) 0
            sizeToRead (min 32768 sizeToRead.toNat) s.world next = received at *
        by_cases complete : received.ok = true
        · simp only [complete, if_true]
          obtain ⟨ending, kind, world⟩ := finishUpload_run settings os received.channel openEnd
          rw [← whenOk complete] at kind world
          refine ⟨writes, ending, all, kind, ?_⟩
          rw [world, run_append]
          rfl
        · simp only [complete]
          exact ⟨writes, .abort os ref, all, ⟨Or.inr rfl, nofun⟩, whenNot (by simpa using complete)⟩
      · simp only [data, if_false, if_true]
        obtain ⟨ending, kind, world⟩ := finishUpload_run settings os next active
        exact ⟨[], ending, by simp [WritesTo], kind, world⟩

end Data

/-- An upload is its open request followed by the data phase. -/
def Continues (settings : Settings) (os : Os) (ch : Channel)
    (sizeToRead : Int) (upload : UploadState) : World × Option Nat → Prop
  | (w, none) => upload.world = w ∧ upload.result ≠ .ok
  | (w, some ref) =>
    (∃ t, w.transfers ref = some t) ∧ upload = getUploadFileData settings os w ch sizeToRead ref

section Upload

variable (cmd : ScpCommand) (settings : Settings) (os : Os) (ch : Channel) (sizeToRead : Int)

private theorem continues_refuse (w : World) (text : Str) :
    Continues settings os ch sizeToRead ⟨refuse w ch text, 0⟩ (w, none) := by
  refine ⟨rfl, ?_⟩
  intro ended
  cases ended

theorem handleUploadFile_continues (w : World) (requestPath filePath : Str) :
    Continues settings os ch sizeToRead
      (cmd.handleUploadFile settings os w ch requestPath filePath sizeToRead)
      (cmd.connection.scpOpenFile settings os w requestPath filePath) := by
  unfold ScpCommand.handleUploadFile Connection.scpOpenFile
  split
  · exact continues_refuse settings os ch sizeToRead w _
  split
  · exact continues_refuse settings os ch sizeToRead w _
  cases orFault os.openFile (w.fs.create filePath os.attr) with
  | error err => exact continues_refuse settings os ch sizeToRead w _
  | ok pair => exact ⟨⟨_, if_pos rfl⟩, rfl⟩

theorem handleUpload_continues (w : World) (rawPath : Str) :
    Continues settings os ch sizeToRead
      (cmd.handleUpload settings os w ch rawPath sizeToRead)
      (cmd.connection.scpOpen settings os w rawPath) := by
  unfold ScpCommand.handleUpload Connection.scpOpen
  split
  · exact continues_refuse settings os ch sizeToRead w _
  cases cmd.connection.buildPath w.fs rawPath with
  | error err => exact continues_refuse settings os ch sizeToRead w _
  | ok p =>
    simp only
    cases orFault os.stat (w.fs.stat p) with
    | error err =>
      cases err with
      | noent => exact handleUploadFile_continues cmd settings os ch sizeToRead w p _
      | _ => exact ⟨rfl, by simp⟩
    | ok info =>
      simp only
      split
      · exact continues_refuse settings os ch sizeToRead w _
      cases Connection.moveAside settings os w p (uploadFilePath settings os p) with
      | error err => exact continues_refuse settings os ch sizeToRead w _
      | ok moved => exact handleUploadFile_continues cmd settings os ch sizeToRead _ p _

/-- Every SCP upload is a run of upload events: the open request and, if it
opens a transfer, writes to this transfer and one end of it. -/
theorem handleUpload_run (s : UploadRun) (rawPath : Str) :
    ∃ events, ((cmd.connection.scpOpen settings os s.world rawPath).2 = none ∧ events = [] ∧
          (cmd.handleUpload settings os s.world ch rawPath sizeToRead).result ≠ .ok ∨
        ∃ ref writes ending, (cmd.connection.scpOpen settings os s.world rawPath).2 = some ref ∧
            events = writes ++ [ending] ∧ WritesTo os ref writes ∧
            Ending os ref
              (cmd.handleUpload settings os s.world ch rawPath sizeToRead).result ending) ∧
        (cmd.handleUpload settings os s.world ch rawPath sizeToRead).world =
          (run (UploadRun.step settings) s
            (.scpOpen cmd.connection os rawPath :: events)).world := by
  have continues := handleUpload_continues cmd settings os ch sizeToRead s.world rawPath
  simp only [run_cons, UploadRun.step]
  cases opened : cmd.connection.scpOpen settings os s.world rawPath with
  | mk w number =>
    rw [opened] at continues
    cases number with
    | none => exact ⟨[], Or.inl ⟨rfl, rfl, continues.2⟩, continues.1⟩
    | some ref =>
      obtain ⟨⟨t, entry⟩, same⟩ := continues
      have openNow : OpenIn (s.opened (w, some ref)) ref := by
        refine ⟨⟨t.path, [], true, false⟩, ?_, rfl⟩
        simp [UploadRun.opened, entry]
      have world : (s.opened (w, some ref)).world = w := by
        simp [UploadRun.opened, entry]
      obtain ⟨writes, ending, all, kind, result⟩ :=
        getUploadFileData_run settings os sizeToRead ch openNow
      rw [world] at kind result
      rw [same]
      exact ⟨writes ++ [ending], Or.inr ⟨ref, writes, ending, rfl, rfl, all, kind⟩, result⟩

end Upload

end Sshserv.Serv
