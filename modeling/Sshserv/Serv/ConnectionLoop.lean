import Sshserv.Lib.SortedMap
import Sshserv.Serv.Shell

/-!
# The loop of an SSH connection

`AcceptInboundConnection` after the handshake.  One loop takes global requests
and new channels from two streams; when it ends, the listeners in the map of
forwards are closed and so is the connection.
-/

namespace Sshserv.Serv

open Lib UnixPath Runs DataProvider

def permTCPForward : Str := "tcpforward".toList

/-- A listener, the text it was asked for with, and whether the goroutine that
accepts on it is still in its loop. -/
structure Listener where
  addr : Str
  isOpen : Bool
  accepting : Bool
  deriving DecidableEq

/-- `ForwardedTCPHandler` with the listeners it has opened, in the order of
their opening.  The map leads to places in that list. -/
structure ForwardedTCPHandler where
  forwards : SortedMap Str Nat
  listeners : List Listener

def ForwardedTCPHandler.new : ForwardedTCPHandler := ⟨SortedMap.empty, []⟩

/-- A global request: the payload as `ssh.Unmarshal` decodes it, and the port
that `net.Listen` binds, if it succeeds. -/
structure GlobalRequest where
  type : Str
  wantReply : Bool
  payload : Option (Str × Nat)
  listens : Option Nat
  deriving DecidableEq

/-- `net.JoinHostPort` with the port as `strconv.Itoa` writes it. -/
def joinHostPort (host : Str) (port : Nat) : Str :=
  (if ':' ∈ host then '[' :: host ++ [']'] else host) ++ ':' :: (toString port).toList

namespace ForwardedTCPHandler

variable (h : ForwardedTCPHandler)

/-- A new listener under its text, with the goroutine that accepts on it. -/
def listen (addr : Str) : ForwardedTCPHandler where
  forwards := h.forwards.put addr h.listeners.length
  listeners := h.listeners ++ [⟨addr, true, true⟩]

def closeListener (i : Nat) : ForwardedTCPHandler :=
  { h with
    listeners := h.listeners.modify i fun ln => { ln with isOpen := false } }

/-- `handlePortforward`: whether it succeeds, and the port to report. -/
def handlePortforward (r : GlobalRequest) : ForwardedTCPHandler × Bool × Option Nat :=
  if r.type = "tcpip-forward".toList then
    match r.payload, r.listens with
    | some (bindAddr, bindPort), some destPort =>
      (h.listen (joinHostPort bindAddr bindPort), true, some destPort)
    | _, _ => (h, false, none)
  else if r.type = "cancel-tcpip-forward".toList then
    match r.payload with
    | none => (h, false, none)
    | some (bindAddr, bindPort) =>
      match h.forwards.get (joinHostPort bindAddr bindPort) with
      | none => (h, true, none)
      | some i => (h.closeListener i, true, none)
  else (h, false, none)

/-- `Accept` fails on a listener: its goroutine leaves the loop and deletes
the text from the map. -/
def acceptFails (i : Nat) : ForwardedTCPHandler :=
  match h.listeners[i]? with
  | none => h
  | some ln =>
    if ln.accepting then
      { forwards := h.forwards.delete ln.addr
        listeners := h.listeners.set i { ln with accepting := false } }
    else h

/-- The end of `AcceptInboundConnection`: every listener in the map is
closed. -/
def closeAll : ForwardedTCPHandler :=
  (h.forwards.entries.map Prod.snd).foldl closeListener h

end ForwardedTCPHandler

inductive RejectionReason where
  | connectionFailed
  | unknownChannelType
  deriving DecidableEq

inductive Fate where
  | accepted
  | rejected (reason : RejectionReason) (message : Str)
  deriving DecidableEq

/-- A request for a channel: its data as `ssh.Unmarshal` decodes it, the
outcome of dialling the destination, and whether `Accept` succeeds. -/
structure NewChannel where
  type : Str
  extraData : Except Str (Str × Nat)
  dial : Except Str Unit
  accepts : Bool

/-- `newChannel.Accept`; there is no fate if it fails. -/
def NewChannel.accept (ch : NewChannel) : Option Fate :=
  if ch.accepts then some .accepted else none

def handleDirectTCPIP (ch : NewChannel) : Option Fate :=
  match ch.extraData with
  | .error err => some (.rejected .connectionFailed ("error parsing forward data: ".toList ++ err))
  | .ok _ =>
    match ch.dial with
    | .error err => some (.rejected .connectionFailed err)
    | .ok () => ch.accept

section Loop

variable (config : Configuration) (user : User)

def mayForward : Bool :=
  config.fullFunc && user.hasPerm permTCPForward

/-- `iterChans`: what becomes of the channel, and whether the loop goes on. -/
def iterChans (ch : NewChannel) : Option Fate × Bool :=
  if ch.type = "direct-tcpip".toList then
    if mayForward config user then (handleDirectTCPIP ch, true)
    else (none, false)
  else if ch.type ≠ "session".toList then
    (some (.rejected .unknownChannelType "unknown channel type".toList), false)
  else (ch.accept, ch.accepts)

end Loop

/-- A reply to a global request: success with a port, or failure. -/
inductive GlobalReply where
  | success (port : Option Nat)
  | failure
  deriving DecidableEq

/-- `Request.Reply`, which sends nothing that was not asked for. -/
def GlobalRequest.reply (r : GlobalRequest) (reply : GlobalReply) : List GlobalReply :=
  if r.wantReply then [reply] else []

/-- The variables of the loop, and whether both streams are still open. -/
structure Link where
  loop : Bool
  streams : Bool
  forwardHandler : Option ForwardedTCPHandler

def Link.start : Link := ⟨true, true, none⟩

inductive LinkEvent where
  | global (r : GlobalRequest)
  | channel (ch : NewChannel)
  /-- One of the two streams is closed by the client. -/
  | closed
  /-- `Accept` fails on a listener. -/
  | acceptFails (i : Nat)

namespace Link

variable (config : Configuration) (user : User) (s : Link)

def leave : Link :=
  { s with
    loop := false
    forwardHandler := s.forwardHandler.map ForwardedTCPHandler.closeAll }

/-- The turn of the loop for a global request, with the replies that are
sent. -/
def onGlobal (r : GlobalRequest) : Link × List GlobalReply :=
  if r.type = "tcpip-forward".toList then
    if mayForward config user then
      let handled :=
        (s.forwardHandler.getD .new).handlePortforward r
      ({ s with forwardHandler := some handled.1 },
        r.reply (if handled.2.1 then .success handled.2.2 else .failure))
    else (s, r.reply .failure)
  else (s, [])

/-- The turn of the loop for a channel, with what becomes of it. -/
def onChannel (ch : NewChannel) : Link × Option Fate :=
  let handled := iterChans config user ch
  (if handled.2 then s else s.leave, handled.1)

end Link

/-- A loop that has ended takes nothing from its streams. -/
def LinkEvent.step (config : Configuration) (user : User) (s : Link) : LinkEvent → Link
  | global r => if s.loop then (s.onGlobal config user r).1 else s
  | channel ch => if s.loop then (s.onChannel config user ch).1 else s
  | closed =>
    if s.loop then { s.leave with streams := false }
    else { s with streams := false }
  | acceptFails i =>
    { s with
      forwardHandler := s.forwardHandler.map fun h => h.acceptFails i }

section Serving

variable (config : Configuration) (user : User)

/-- While both streams are open, a request that wants a reply gets one, a
channel is accepted or rejected, and the loop goes on. -/
def Serves (s : Link) : LinkEvent → Prop
  | .global r =>
    s.streams = true →
      s.loop = true ∧
        (r.wantReply = true → (s.onGlobal config user r).2.length = 1) ∧
        ((LinkEvent.global r).step config user s).loop = true
  | .channel ch =>
    s.streams = true →
      s.loop = true ∧ (s.onChannel config user ch).2.isSome = true ∧
        ((LinkEvent.channel ch).step config user s).loop = true
  | .closed | .acceptFails _ => True

/-- A channel is a session, or a forward of a user who may have one, and can
be accepted if it comes to that. -/
def NewChannel.Expected (ch : NewChannel) : Prop :=
  (ch.type = "session".toList ∧ ch.accepts = true) ∨
    (ch.type = "direct-tcpip".toList ∧ mayForward config user = true ∧
      (ch.accepts = true ∨ ch.extraData.isOk = false ∨ ch.dial.isOk = false))

/-- Global requests that want a reply are for a forward. -/
def LinkEvent.Expected : LinkEvent → Prop
  | global r => r.wantReply = true → r.type = "tcpip-forward".toList
  | channel ch => ch.Expected config user
  | closed | acceptFails _ => True

/-- The events while both streams are open are expected ones. -/
def ExpectedWhileOpen (s : Link) (event : LinkEvent) : Prop :=
  s.streams = true → event.Expected config user

end Serving

section Lemmas

variable {config : Configuration} {user : User} {s : Link}

theorem onGlobal_loop (r : GlobalRequest) :
    (s.onGlobal config user r).1.loop = s.loop ∧
      (s.onGlobal config user r).1.streams = s.streams := by
  unfold Link.onGlobal
  split
  · split
    · exact ⟨rfl, rfl⟩
    · exact ⟨rfl, rfl⟩
  · exact ⟨rfl, rfl⟩

theorem onGlobal_replies (r : GlobalRequest) (wants : r.wantReply) :
    (s.onGlobal config user r).2.length = 1 ↔ r.type = "tcpip-forward".toList := by
  have once (reply : GlobalReply) : (r.reply reply).length = 1 := by
    rw [GlobalRequest.reply, if_pos wants]
    rfl
  unfold Link.onGlobal
  split
  · next forward =>
      refine iff_of_true ?_ forward
      split
      · exact once _
      · exact once _
  · next other => exact iff_of_false (by simp) other

theorem handleDirectTCPIP_isSome (ch : NewChannel) :
    (handleDirectTCPIP ch).isSome = true ↔
      ch.accepts = true ∨ ch.extraData.isOk = false ∨ ch.dial.isOk = false := by
  unfold handleDirectTCPIP NewChannel.accept
  cases data : ch.extraData with
  | error err => simp [Except.isOk, Except.toBool]
  | ok forward =>
    cases dialled : ch.dial with
    | error err => simp [Except.isOk, Except.toBool]
    | ok _ => by_cases accepts : ch.accepts = true <;>
        simp [accepts, Except.isOk, Except.toBool]

theorem iterChans_serves (ch : NewChannel) :
    (iterChans config user ch).1.isSome = true ∧ (iterChans config user ch).2 = true ↔
      ch.Expected config user := by
  unfold iterChans NewChannel.Expected
  by_cases direct : ch.type = "direct-tcpip".toList
  · have noSession : ¬ ch.type = "session".toList := by
      rw [direct]
      decide
    rw [if_pos direct, or_iff_right fun both => noSession both.1, and_iff_right direct]
    by_cases permitted : mayForward config user = true
    · simp only [permitted, if_true, and_true, true_and]
      exact handleDirectTCPIP_isSome ch
    · simp [permitted]
  · rw [if_neg direct, or_iff_left fun both => direct both.1]
    by_cases session : ch.type = "session".toList
    · rw [if_neg (not_not.mpr session), and_iff_right session]
      cases accepts : ch.accepts <;> simp [NewChannel.accept, accepts]
    · rw [if_pos session]
      exact iff_of_false (by simp) fun both => session both.1

def LoopRuns (s : Link) : Prop :=
  s.streams = true → s.loop = true

theorem loopRuns_step (event : LinkEvent) (runs : LoopRuns s)
    (expected : ExpectedWhileOpen config user s event) :
    LoopRuns (event.step config user s) := by
  intro still
  cases event with
  | global r =>
    simp only [LinkEvent.step] at still ⊢
    split at still
    · next looping =>
        rw [if_pos looping, (onGlobal_loop r).1]
        exact looping
    · next ended => exact absurd (runs still) ended
  | channel ch =>
    simp only [LinkEvent.step] at still ⊢
    split at still
    · next looping =>
        have streams : s.streams = true := by
          simp only [Link.onChannel] at still
          split at still
          · exact still
          · exact still
        have goesOn := ((iterChans_serves ch).mpr (expected streams)).2
        rw [if_pos looping, Link.onChannel, if_pos goesOn]
        exact looping
    · next ended => exact absurd (runs still) ended
  | closed =>
    simp only [LinkEvent.step] at still
    split at still <;> simp at still
  | acceptFails i => exact runs still

theorem serves_iff_expected (event : LinkEvent) (runs : LoopRuns s) :
    Serves config user s event ↔ ExpectedWhileOpen config user s event := by
  cases event with
  | global r =>
    refine forall_congr' fun streams => ?_
    have looping := runs streams
    have after : ((LinkEvent.global r).step config user s).loop = true := by
      simp only [LinkEvent.step]
      rw [if_pos looping, (onGlobal_loop r).1]
      exact looping
    simp only [looping, after, and_true, true_and]
    exact forall_congr' fun wants => onGlobal_replies r wants
  | channel ch =>
    refine forall_congr' fun streams => ?_
    have looping := runs streams
    have after :
        ((LinkEvent.channel ch).step config user s).loop = (iterChans config user ch).2 := by
      simp only [LinkEvent.step, Link.onChannel]
      rw [if_pos looping]
      cases (iterChans config user ch).2 with
      | true => exact looping
      | false => rfl
    rw [after, and_iff_right looping]
    exact iterChans_serves ch
  | closed => exact iff_of_true trivial fun _ => trivial
  | acceptFails i => exact iff_of_true trivial fun _ => trivial

end Lemmas

/-- The loop answers every request and channel and goes on, while both streams
are open, exactly when they are of the expected kinds. -/
theorem loop_serves_iff (config : Configuration) (user : User) (events : List LinkEvent) :
    (∀ s event,
        Takes (LinkEvent.step config user) Link.start events s event → Serves config user s event) ↔
      Admissible (LinkEvent.step config user) (ExpectedWhileOpen config user) Link.start events :=
  forall_takes_iff_admissible (ExpectedWhileOpen config user) LoopRuns
    (Serves config user)
    (fun _ event runs expected => loopRuns_step event runs expected)
    (fun _ event runs => serves_iff_expected event runs)
    (fun _ => rfl) events

def sessionChannel : NewChannel :=
  ⟨"session".toList, .ok ([], 0), .ok (), true⟩

def unknownChannel : List LinkEvent :=
  [.channel sessionChannel, .channel { sessionChannel with type := "x11".toList }]

/-- A client with a session sends a request that only wants to be
answered. -/
def keepalive : List LinkEvent :=
  [.channel sessionChannel, .global ⟨"keepalive@openssh.com".toList, true, none, none⟩]

/-- The first ends the session of the client, the second is not answered. -/
theorem loop_stops_serving :
    (¬ ∀ s event,
      Takes (LinkEvent.step ⟨false, false⟩ User.zero) Link.start unknownChannel
        s event → Serves ⟨false, false⟩ User.zero s event) ∧
    ¬ ∀ s event,
      Takes (LinkEvent.step ⟨false, false⟩ User.zero) Link.start keepalive
        s event → Serves ⟨false, false⟩ User.zero s event := by
  constructor
  · intro serves
    have last := serves _ _ ⟨[.channel sessionChannel], [], rfl, rfl⟩
    exact absurd (last rfl).2.2 (by decide)
  · intro serves
    have last := serves _ _ ⟨[.channel sessionChannel], [], rfl, rfl⟩
    exact absurd ((last rfl).2.1 rfl) (by decide)

end Sshserv.Serv
