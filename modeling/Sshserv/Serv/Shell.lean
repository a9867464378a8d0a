import Sshserv.Lib.Runs
import Sshserv.Serv.World

/-!
# Requests on a session channel

`handleSSHRequest` on Linux.  The payload of a request is decoded by hand; an
index or a slice out of range ends the process, which is the status `crashed`
here.
-/

namespace Sshserv.Serv

open Lib UnixPath Runs DataProvider

def permShell : Str := "shell".toList

/-- A `[]byte`: its bytes, and those of the array behind its end, which a
slice expression with an upper bound may reach. -/
structure Bytes where
  bytes : List UInt8
  spare : List UInt8
  deriving DecidableEq

namespace Bytes

def length (b : Bytes) : Nat :=
  b.bytes.length

/-- `b[index]`; `none` is the run-time error. -/
def at? (b : Bytes) (index : Nat) : Option UInt8 :=
  b.bytes[index]?

def sliceFrom (b : Bytes) (low : Nat) : Option Bytes :=
  if low ≤ b.length then some ⟨b.bytes.drop low, b.spare⟩ else none

def slice (b : Bytes) (low high : Nat) : Option Bytes :=
  if low ≤ high ∧ high ≤ (b.bytes ++ b.spare).length then
    some ⟨((b.bytes ++ b.spare).take high).drop low, (b.bytes ++ b.spare).drop high⟩
  else none

def uint32 (b : Bytes) : Option UInt32 :=
  match b.bytes with
  | b0 :: b1 :: b2 :: b3 :: _ =>
    some (b3.toUInt32 ||| b2.toUInt32 <<< 8 ||| b1.toUInt32 <<< 16 ||| b0.toUInt32 <<< 24)
  | _ => none

end Bytes

def parseDims (b : Bytes) : Option (UInt32 × UInt32) := do
  let w ← b.uint32
  let tail ← b.sliceFrom 4
  let h ← tail.uint32
  return (w, h)

theorem Bytes.uint32_isSome_iff (b : Bytes) : b.uint32.isSome = true ↔ 4 ≤ b.length := by
  unfold Bytes.uint32 Bytes.length
  split
  · rename_i read
    simp [read]
  · rename_i short
    rcases bytes : b.bytes with _ | ⟨b0, _ | ⟨b1, _ | ⟨b2, _ | ⟨b3, rest⟩⟩⟩⟩
    · simp
    · simp
    · simp
    · simp
    · exact absurd bytes (short b0 b1 b2 b3 rest)

theorem parseDims_isSome_iff (b : Bytes) : (parseDims b).isSome = true ↔ 8 ≤ b.length := by
  unfold parseDims
  have first := b.uint32_isSome_iff
  cases width : b.uint32 with
  | none =>
    rw [width] at first
    have short : ¬ 4 ≤ b.length := by simpa using first
    simp only [Option.bind_eq_bind, Option.bind_none, Option.isSome_none,
      Bool.false_eq_true, false_iff]
    omega
  | some w =>
    rw [width] at first
    have long : 4 ≤ b.length := first.mp rfl
    have second := (Bytes.mk (b.bytes.drop 4) b.spare).uint32_isSome_iff
    have rest : (Bytes.mk (b.bytes.drop 4) b.spare).length = b.length - 4 := List.length_drop
    rw [rest] at second
    cases height : (Bytes.mk (b.bytes.drop 4) b.spare).uint32 with
    | none =>
      rw [height] at second
      have short : ¬ 4 ≤ b.length - 4 := by simpa using second
      simp only [Bytes.sliceFrom, long, if_true, Option.bind_eq_bind, Option.bind_some,
        height, Option.bind_none, Option.isSome_none, Bool.false_eq_true, false_iff]
      omega
    | some h =>
      rw [height] at second
      have enough : 4 ≤ b.length - 4 := second.mp rfl
      simp only [Bytes.sliceFrom, long, if_true, Option.bind_eq_bind, Option.bind_some,
        height, Option.pure_def, Option.isSome_some, true_iff]
      omega

/-- The fields of `Configuration` that the handler reads. -/
structure Configuration where
  fullFunc : Bool
  isSCPEnabled : Bool
  deriving DecidableEq

/-- The packages that decode a command line: `ssh.Unmarshal` of an `execMsg`,
and `shlex.Split` with the words it returns and whether it succeeds. -/
structure CommandLine where
  unmarshal : List UInt8 → Option Str
  split : Str → List Str × Bool

/-- A request, with what the operating system decides when it is handled. -/
structure ChannelRequest where
  type : Str
  payload : Bytes
  /-- `pty.Open` succeeds. -/
  ptyOpens : Bool
  /-- `exec.Cmd.Start` succeeds. -/
  starts : Bool
  deriving DecidableEq

/-- The cases of the switch on the type of a request. -/
inductive RequestType where
  | subsystem
  | exec
  | shell
  | ptyReq
  | windowChange
  | env
  | unknown
  deriving DecidableEq

def requestType (type : Str) : RequestType :=
  if type = "subsystem".toList then .subsystem
  else if type = "exec".toList then .exec
  else if type = "shell".toList then .shell
  else if type = "pty-req".toList then .ptyReq
  else if type = "window-change".toList then .windowChange
  else if type = "env".toList then .env
  else .unknown

/-- What the server runs for a client. -/
inductive Activity where
  | sftp
  | scp (args : List Str)
  | shell
  | command (name : Str) (args : List Str)
  deriving DecidableEq

/-- A shell or a command is a process of the operating system. -/
def Activity.isProcess : Activity → Bool
  | .sftp => false
  | .scp _ => false
  | .shell => true
  | .command _ _ => true

structure Winsize where
  height : UInt16
  width : UInt16
  deriving DecidableEq

def setWinsize (dims : UInt32 × UInt32) : Winsize :=
  ⟨dims.2.toUInt16, dims.1.toUInt16⟩

inductive SessionStatus where
  | running
  | ended
  | crashed
  deriving DecidableEq

/-- The variables of `handleSSHRequest` and what it has done so far: the open
terminal with its size, the activities started, and the replies. -/
structure Session where
  fPty : Option Winsize
  started : List Activity
  replies : List Bool
  status : SessionStatus
  deriving DecidableEq

namespace Session

def start : Session :=
  ⟨none, [], [], .running⟩

def reply (s : Session) (ok : Bool) : Session :=
  { s with replies := s.replies ++ [ok] }

def run (s : Session) (activity : Activity) : Session :=
  { s with started := s.started ++ [activity] }

def crash (s : Session) : Session :=
  { s with status := .crashed }

def finish (s : Session) : Session :=
  { s with status := .ended }

end Session

/-- The part of `handlePtrReq` after `pty.Open`.  The length of the terminal
name is one byte, and so is its sum with the offset. -/
def ptyDims (payload : Bytes) : Option (UInt32 × UInt32) := do
  let termLen ← payload.at? 3
  let _termEnv ← payload.slice 4 (termLen + 4).toNat
  let dims ← payload.sliceFrom (termLen + 4).toNat
  parseDims dims

section Handler

variable (config : Configuration) (parsers : CommandLine) (user : User)

def handleSubsystem (s : Session) (req : ChannelRequest) : Session :=
  match req.payload.sliceFrom 4 with
  | none => s.crash
  | some text =>
    if text.bytes = "sftp".toList.map (fun c => c.toNat.toUInt8) then
      (s.run .sftp).reply true
    else s.reply false

/-- `handleExec` on a command, and the end of the session. -/
def handleExec (s : Session) (req : ChannelRequest) (name : Str) (args : List Str) : Session :=
  if req.ptyOpens ∧ req.starts then
    ((s.run (.command name args)).reply true).finish
  else (s.reply false).finish

def handleExecRequest (s : Session) (req : ChannelRequest) : Session :=
  match parsers.unmarshal req.payload.bytes with
  | none => s.reply false
  | some command =>
    match parsers.split command with
    | ([], _) => s.crash
    | (name :: execArgs, ok) =>
      if config.isSCPEnabled ∧ ok ∧ name = "scp".toList ∧
          execArgs.length ≥ 2 then
        (s.run (.scp execArgs)).reply true
      else if ok ∧ user.hasPerm permShell then
        handleExec s req name execArgs
      else s.reply false

def handleShell (s : Session) (req : ChannelRequest) : Session :=
  match s.fPty with
  | none => s.reply false
  | some _ => (if req.starts then s.run .shell else s).reply true

def handlePtrReq (s : Session) (req : ChannelRequest) : Session :=
  if config.fullFunc ∧ user.hasPerm permShell then
    if req.ptyOpens then
      match ptyDims req.payload with
      | none => s.crash
      | some dims => { s with fPty := some (setWinsize dims) }.reply true
    else { s with fPty := none }.reply false
  else s.reply false

def handleWindowChanged (s : Session) (req : ChannelRequest) : Session :=
  match s.fPty with
  | none => s
  | some _ =>
    match parseDims req.payload with
    | none => s.crash
    | some dims => { s with fPty := some (setWinsize dims) }

/-- One turn of the loop of `handleSSHRequest`. -/
def handleSSHRequest (s : Session) (req : ChannelRequest) : Session :=
  if s.status ≠ .running then s
  else
    match requestType req.type with
    | .subsystem => handleSubsystem s req
    | .exec => handleExecRequest config parsers user s req
    | .shell => handleShell s req
    | .ptyReq => handlePtrReq config user s req
    | .windowChange => handleWindowChanged s req
    | .env => s.reply false
    | .unknown => s.reply false

end Handler

/-- The terminal name must be short enough for the 8-bit sum, and eight bytes
must follow it. -/
theorem ptyDims_isSome_iff (payload : Bytes) :
    (ptyDims payload).isSome = true ↔
      ∃ termLen, payload.at? 3 = some termLen ∧ termLen.toNat < 252 ∧
        termLen.toNat + 12 ≤ payload.length := by
  unfold ptyDims
  cases third : payload.at? 3 with
  | none => simp
  | some termLen =>
    have sum : (termLen + 4).toNat = (termLen.toNat + 4) % 256 := UInt8.toNat_add termLen 4
    have small := termLen.toNat_lt
    simp only [Option.some.injEq, exists_eq_left', Option.bind_eq_bind, Option.bind_some]
    by_cases wraps : termLen.toNat < 252
    · have offset : (termLen + 4).toNat = termLen.toNat + 4 := by omega
      rw [offset]
      by_cases inside : termLen.toNat + 4 ≤ payload.length
      · have rest :
            (Bytes.mk (payload.bytes.drop (termLen.toNat + 4))
              payload.spare).length =
              payload.length - (termLen.toNat + 4) :=
          List.length_drop
        have reach : termLen.toNat + 4 ≤ (payload.bytes ++ payload.spare).length := by
          rw [List.length_append]
          unfold Bytes.length at inside
          omega
        simp only [Bytes.slice, Bytes.sliceFrom, inside, reach, Nat.le_add_left, and_self,
          if_true, Option.bind_some, parseDims_isSome_iff, rest, wraps, true_and]
        omega
      · have short : ¬ termLen.toNat + 12 ≤ payload.length := by omega
        simp [Bytes.sliceFrom, inside, short]
    · have low : ¬ 4 ≤ (termLen + 4).toNat := by omega
      have reversed : payload.slice 4 (termLen + 4).toNat = none := if_neg fun both => low both.1
      simp only [reversed, Option.bind_none, Option.isSome_none,
        Bool.false_eq_true, wraps, false_and]

section Safety

variable (config : Configuration) (parsers : CommandLine) (user : User)

/-- What the decoding of a request takes for granted, in the branches that
decode it. -/
def WithinBounds (s : Session) (req : ChannelRequest) : Prop :=
  s.status = .running →
    match requestType req.type with
    | .subsystem => 4 ≤ req.payload.length
    | .exec => ∀ command ∈ parsers.unmarshal req.payload.bytes, (parsers.split command).1 ≠ []
    | .ptyReq =>
      config.fullFunc = true → user.hasPerm permShell = true →
        req.ptyOpens = true →
          ∃ termLen, req.payload.at? 3 = some termLen ∧
            termLen.toNat < 252 ∧ termLen.toNat + 12 ≤ req.payload.length
    | .windowChange => s.fPty ≠ none → 8 ≤ req.payload.length
    | _ => True

variable {config parsers user} {s : Session} {req : ChannelRequest}

theorem handleSubsystem_safe_iff (running : s.status = .running) :
    (handleSubsystem s req).status ≠ .crashed ↔ 4 ≤ req.payload.length := by
  unfold handleSubsystem Bytes.sliceFrom
  by_cases long : 4 ≤ req.payload.length
  · simp only [long, if_true, iff_true]
    split
    · simp [Session.run, Session.reply, running]
    · simp [Session.reply, running]
  · simp [long, Session.crash]

theorem handleExecRequest_safe_iff (running : s.status = .running) :
    (handleExecRequest config parsers user s req).status ≠ .crashed ↔
      ∀ command ∈ parsers.unmarshal req.payload.bytes, (parsers.split command).1 ≠ [] := by
  unfold handleExecRequest
  cases parsers.unmarshal req.payload.bytes with
  | none => simp [Session.reply, running]
  | some command =>
    rcases words : parsers.split command with ⟨_ | ⟨name, args⟩, ok⟩
    · simp [words, Session.crash]
    · simp only [Option.mem_def, Option.some.injEq, forall_eq', words, ne_eq,
        reduceCtorEq, not_false_eq_true, iff_true]
      split
      · simp [Session.run, Session.reply, running]
      · split
        · unfold handleExec
          split
          · simp [Session.finish]
          · simp [Session.finish]
        · simp [Session.reply, running]

theorem handlePtrReq_safe_iff (running : s.status = .running) :
    (handlePtrReq config user s req).status ≠ .crashed ↔
      (config.fullFunc = true → user.hasPerm permShell = true →
        req.ptyOpens = true → (ptyDims req.payload).isSome = true) := by
  unfold handlePtrReq
  by_cases granted : config.fullFunc = true ∧ user.hasPerm permShell = true
  · rw [if_pos granted]
    by_cases opens : req.ptyOpens = true
    · rw [if_pos opens]
      cases ptyDims req.payload with
      | none => simp [Session.crash, granted, opens]
      | some dims => simp [Session.reply, running]
    · simp [opens, Session.reply, running]
  · rw [if_neg granted]
    simp only [Session.reply, running, ne_eq, reduceCtorEq, not_false_eq_true, true_iff]
    intro full shell
    exact absurd ⟨full, shell⟩ granted

theorem handleWindowChanged_safe_iff (running : s.status = .running) :
    (handleWindowChanged s req).status ≠ .crashed ↔ (s.fPty ≠ none → 8 ≤ req.payload.length) := by
  unfold handleWindowChanged
  cases s.fPty with
  | none => simp [running]
  | some size =>
    have dims := parseDims_isSome_iff req.payload
    cases parsed : parseDims req.payload with
    | none =>
      rw [parsed] at dims
      have short : ¬ 8 ≤ req.payload.length := by simpa using dims
      simp [Session.crash, short]
    | some value =>
      rw [parsed] at dims
      have long : 8 ≤ req.payload.length := by simpa using dims
      simp [running, long]

/-- A request crashes the server exactly when its payload is too short, or
its command line has no words. -/
theorem handleSSHRequest_safe_iff (alive : s.status ≠ .crashed) :
    (handleSSHRequest config parsers user s req).status ≠ .crashed ↔
      WithinBounds config parsers user s req := by
  unfold handleSSHRequest WithinBounds
  by_cases running : s.status = .running
  · rw [if_neg (not_not_intro running)]
    simp only [running, true_implies]
    cases requestType req.type with
    | subsystem => exact handleSubsystem_safe_iff running
    | exec => exact handleExecRequest_safe_iff running
    | shell =>
      simp only [iff_true]
      unfold handleShell
      cases s.fPty with
      | none => simp [Session.reply, running]
      | some size =>
        simp only
        split
        · simp [Session.run, Session.reply, running]
        · simp [Session.reply, running]
    | ptyReq =>
      have safe : (handlePtrReq config user s req).status ≠ .crashed ↔ _ :=
        handlePtrReq_safe_iff running
      rw [ptyDims_isSome_iff] at safe
      exact safe
    | windowChange => exact handleWindowChanged_safe_iff running
    | env => simp [Session.reply, running]
    | unknown => simp [Session.reply, running]
  · rw [if_pos running]
    simp [alive, running]

/-- No request of a session crashes the server exactly when every request
that is handled stays within its payload and its words. -/
theorem requests_safe_iff (config : Configuration) (parsers : CommandLine) (user : User)
    (requests : List ChannelRequest) :
    (∀ state,
        Visits (handleSSHRequest config parsers user) Session.start requests state →
        state.status ≠ .crashed) ↔
      Admissible (handleSSHRequest config parsers user)
        (WithinBounds config parsers user) Session.start requests := by
  have initially : Session.start.status ≠ .crashed := by decide
  rw [forall_visits_iff]
  have steps :
      (∀ state event,
          Takes (handleSSHRequest config parsers user) Session.start requests state event →
          (handleSSHRequest config parsers user state event).status ≠ .crashed) ↔
        Admissible (handleSSHRequest config parsers user)
          (WithinBounds config parsers user) Session.start requests := by
    apply forall_takes_iff_admissible (WithinBounds config parsers user)
      (fun state => state.status ≠ .crashed)
    · intro state event alive within
      exact (handleSSHRequest_safe_iff alive).mpr within
    · intro state event alive
      exact handleSSHRequest_safe_iff alive
    · exact initially
  rw [steps]
  exact and_iff_right initially

/-- Nothing can be decoded, and no line has a word. -/
def noWords : CommandLine :=
  ⟨fun _ => none, fun _ => ([], true)⟩

def userWith (permission : Str) : User :=
  { User.zero with username := "u".toList, permissions := [permission] }

/-- A user who may only list files sends a subsystem request with an empty
payload. -/
theorem empty_subsystem_crashes :
    ¬ ∀ state,
      Visits (handleSSHRequest ⟨false, false⟩ noWords (userWith permListItems))
        Session.start [⟨"subsystem".toList, ⟨[], []⟩, true, true⟩] state →
      state.status ≠ .crashed := by
  intro safe
  exact safe _ (visits_run _ _ _) (by decide)

end Safety

section Gate

variable (config : Configuration) (parsers : CommandLine) (user : User)

/-- The configuration and the user that a process needs. -/
def MayStart : Prop :=
  config.fullFunc = true ∧ user.hasPerm permShell = true

/-- Every process of the session was started for such a user. -/
def Gated (s : Session) : Prop :=
  ∀ activity ∈ s.started, activity.isProcess = true → MayStart config user

/-- The command that an `exec` request asks the server to run: its line has a
first word, the words do not form an SCP command that the server handles
itself, and the user has the shell permission. -/
def commandOf (req : ChannelRequest) : Option (Str × List Str) :=
  match parsers.unmarshal req.payload.bytes with
  | none => none
  | some command =>
    match parsers.split command with
    | (name :: args, true) =>
      if config.isSCPEnabled ∧ name = "scp".toList ∧ args.length ≥ 2 then
        none
      else if user.hasPerm permShell then some (name, args)
      else none
    | _ => none

def StartsCommand (s : Session) (req : ChannelRequest) : Prop :=
  s.status = .running ∧ requestType req.type = .exec ∧
    (commandOf config parsers user req).isSome = true ∧
    req.ptyOpens = true ∧ req.starts = true

variable {config parsers user} {s : Session} {req : ChannelRequest}

theorem handleExecRequest_cases (config : Configuration) (parsers : CommandLine) (user : User)
    (s : Session) (req : ChannelRequest) :
    (∃ name args, commandOf config parsers user req = some (name, args) ∧
        user.hasPerm permShell = true ∧
        handleExecRequest config parsers user s req = handleExec s req name args) ∨
      (commandOf config parsers user req = none ∧
        (handleExecRequest config parsers user s req = s.reply false ∨
          handleExecRequest config parsers user s req = s.crash ∨
          ∃ args, 2 ≤ args.length ∧
            handleExecRequest config parsers user s req = (s.run (.scp args)).reply true)) := by
  unfold commandOf handleExecRequest
  cases parsers.unmarshal req.payload.bytes with
  | none => exact Or.inr ⟨rfl, Or.inl rfl⟩
  | some command =>
    rcases words : parsers.split command with ⟨_ | ⟨name, args⟩, ok⟩
    · simp [words]
    cases ok with
    | false => simp [words]
    | true =>
      simp only [words, true_and]
      by_cases copies : config.isSCPEnabled = true ∧ name = "scp".toList ∧ args.length ≥ 2
      · rw [if_pos copies, if_pos copies]
        exact Or.inr ⟨rfl, Or.inr (Or.inr ⟨args, copies.2.2, rfl⟩)⟩
      · rw [if_neg copies, if_neg copies]
        by_cases shell : user.hasPerm permShell = true
        · rw [if_pos shell, if_pos shell]
          exact Or.inl ⟨name, args, rfl, shell, rfl⟩
        · rw [if_neg shell, if_neg shell]
          exact Or.inr ⟨rfl, Or.inl rfl⟩

theorem started_cases (config : Configuration) (parsers : CommandLine) (user : User)
    (s : Session) (req : ChannelRequest) :
    (handleSSHRequest config parsers user s req).started = s.started ∨
      ∃ activity, (handleSSHRequest config parsers user s req).started = s.started ++ [activity] ∧
          (activity.isProcess = true →
            (StartsCommand config parsers user s req ∧ user.hasPerm permShell = true) ∨
              s.fPty ≠ none) := by
  unfold handleSSHRequest
  by_cases running : s.status = .running
  swap
  · rw [if_pos running]
    exact Or.inl rfl
  rw [if_neg (not_not_intro running)]
  cases type : requestType req.type with
  | subsystem =>
    simp only [handleSubsystem]
    split
    · exact Or.inl rfl
    · split
      · exact Or.inr ⟨.sftp, rfl, fun process => absurd process (by decide)⟩
      · exact Or.inl rfl
  | exec =>
    rcases handleExecRequest_cases config parsers user s req with
      ⟨name, args, command, shell, done⟩ | ⟨_, done | done | ⟨args, _, done⟩⟩
    · simp only [done, handleExec]
      by_cases launched : req.ptyOpens = true ∧ req.starts = true
      · rw [if_pos launched]
        refine Or.inr ⟨.command name args, rfl, fun _ => Or.inl ⟨?_, shell⟩⟩
        exact ⟨running, type, by rw [command]; rfl, launched⟩
      · rw [if_neg launched]
        exact Or.inl rfl
    · simp only [done]
      exact Or.inl rfl
    · simp only [done]
      exact Or.inl rfl
    · simp only [done]
      exact Or.inr ⟨.scp args, rfl, fun process => absurd process (by
        simp [Activity.isProcess])⟩
  | shell =>
    simp only [handleShell]
    cases terminal : s.fPty with
    | none => exact Or.inl rfl
    | some size =>
      by_cases starts : req.starts = true
      · exact Or.inr ⟨.shell, by simp [starts, Session.run, Session.reply],
          fun _ => Or.inr (by simp)⟩
      · exact Or.inl (by simp [starts, Session.reply])
  | ptyReq =>
    left
    simp only [handlePtrReq]
    split
    · split
      · split
        · rfl
        · rfl
      · rfl
    · rfl
  | windowChange =>
    left
    simp only [handleWindowChanged]
    split
    · rfl
    · split
      · rfl
      · rfl
  | env => exact Or.inl rfl
  | unknown => exact Or.inl rfl

theorem started_of_startsCommand (starts : StartsCommand config parsers user s req) :
    ∃ name args,
      (handleSSHRequest config parsers user s req).started = s.started ++ [.command name args] := by
  obtain ⟨running, type, command, launched⟩ := starts
  unfold handleSSHRequest
  rw [if_neg (not_not_intro running), type]
  rcases handleExecRequest_cases config parsers user s req with
    ⟨name, args, _, _, done⟩ | ⟨absent, _⟩
  · refine ⟨name, args, ?_⟩
    simp only [done, handleExec, if_pos launched]
    rfl
  · rw [absent] at command
    exact absurd command (by decide)

/-- A terminal is opened only for those who may start a process. -/
theorem fPty_of_request (terminal : (handleSSHRequest config parsers user s req).fPty ≠ none) :
    s.fPty ≠ none ∨ MayStart config user := by
  unfold handleSSHRequest at terminal
  by_cases running : s.status = .running
  swap
  · rw [if_pos running] at terminal
    exact Or.inl terminal
  rw [if_neg (not_not_intro running)] at terminal
  cases type : requestType req.type with
  | subsystem =>
    left
    simp only [type, handleSubsystem] at terminal
    split at terminal
    · exact terminal
    · split at terminal
      · exact terminal
      · exact terminal
  | exec =>
    left
    simp only [type] at terminal
    rcases handleExecRequest_cases config parsers user s req with
      ⟨name, args, _, _, done⟩ | ⟨_, done | done | ⟨args, _, done⟩⟩
    · rw [done, handleExec] at terminal
      split at terminal
      · exact terminal
      · exact terminal
    · rw [done] at terminal
      exact terminal
    · rw [done] at terminal
      exact terminal
    · rw [done] at terminal
      exact terminal
  | shell =>
    left
    intro absent
    simp only [type, handleShell, absent] at terminal
    exact terminal absent
  | ptyReq =>
    by_cases granted : MayStart config user
    · exact Or.inr granted
    · left
      simp only [type, handlePtrReq] at terminal
      unfold MayStart at granted
      rw [if_neg granted] at terminal
      exact terminal
  | windowChange =>
    left
    intro absent
    simp only [type, handleWindowChanged, absent] at terminal
    exact terminal rfl
  | env => exact Or.inl (by simpa [type, Session.reply] using terminal)
  | unknown => exact Or.inl (by simpa [type, Session.reply] using terminal)

/-- What a session keeps: its processes are gated, and an open terminal stands
for the check that the shell request does not make. -/
def GateKept (config : Configuration) (user : User) (s : Session) : Prop :=
  Gated config user s ∧ (s.fPty ≠ none → MayStart config user)

theorem gated_request_iff (kept : GateKept config user s) :
    Gated config user (handleSSHRequest config parsers user s req) ↔
      (StartsCommand config parsers user s req → config.fullFunc = true) := by
  constructor
  · intro gated starts
    obtain ⟨name, args, more⟩ := started_of_startsCommand starts
    have granted := gated (.command name args) (by rw [more]; simp) rfl
    exact granted.1
  · intro condition activity member process
    rcases started_cases config parsers user s req with
      same | ⟨last, more, cause⟩
    · rw [same] at member
      exact kept.1 activity member process
    · rw [more] at member
      rcases List.mem_append.mp member with old | new
      · exact kept.1 activity old process
      · obtain rfl := List.mem_singleton.mp new
        rcases cause process with ⟨starts, shell⟩ | terminal
        · exact ⟨condition starts, shell⟩
        · exact kept.2 terminal

/-- Processes are started only for users with the shell permission on a server
with `full_func` exactly when, without `full_func`, no request is run as a
command. -/
theorem processes_gated_iff (config : Configuration) (parsers : CommandLine) (user : User)
    (requests : List ChannelRequest) :
    (∀ state,
        Visits (handleSSHRequest config parsers user) Session.start requests state →
        Gated config user state) ↔
      Admissible (handleSSHRequest config parsers user)
        (fun state request =>
          StartsCommand config parsers user state request → config.fullFunc = true)
        Session.start requests := by
  have initially : Gated config user Session.start := by
    intro activity member
    simp [Session.start] at member
  rw [forall_visits_iff, and_iff_right initially]
  apply forall_takes_iff_admissible _ (GateKept config user)
    (fun state event =>
      Gated config user (handleSSHRequest config parsers user state event))
  · intro state event kept condition
    refine ⟨(gated_request_iff kept).mpr condition, fun terminal => ?_⟩
    rcases fPty_of_request terminal with before | granted
    · exact kept.2 before
    · exact granted
  · intro state event kept
    exact gated_request_iff kept
  · exact ⟨initially, fun terminal => absurd rfl terminal⟩

/-- Every payload decodes to the command `id`. -/
def idCommand : CommandLine :=
  ⟨fun _ => some "id".toList, fun line => ([line], true)⟩

/-- Without `full_func`, a user with the shell permission runs `id`. -/
theorem exec_not_gated :
    ¬ ∀ state,
      Visits (handleSSHRequest ⟨false, false⟩ idCommand (userWith permShell))
        Session.start [⟨"exec".toList, ⟨[], []⟩, true, true⟩] state →
      Gated ⟨false, false⟩ (userWith permShell) state := by
  intro gated
  have granted := gated _ (visits_run _ _ _) (.command "id".toList []) (by decide) rfl
  exact absurd granted.1 (by decide)

end Gate

end Sshserv.Serv
