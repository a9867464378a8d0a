import Sshserv.Sftp.PacketManager

/-!
# The order of the responses

`packetManager.controller` between the goroutine that receives packets and the
workers that answer them.  A worker may answer any packet it has at any
moment.
-/

namespace Sshserv.Sftp

/-- `orderedRequest` and `orderedResponse`. -/
structure Ordered (α : Type) where
  packet : α
  orderID : UInt32
  deriving DecidableEq

namespace Ordered

variable {α : Type}

/-- `orderedPackets.Sort`. -/
def sort (packets : List (Ordered α)) : List (Ordered α) :=
  packets.insertionSort fun one two => one.orderID ≤ two.orderID

/-- The packets that `newOrderedRequest` makes after the first `count`. -/
def label (count : Nat) : List α → List (Ordered α)
  | [] => []
  | packet :: rest => ⟨packet, UInt32.ofNat (count + 1)⟩ :: label (count + 1) rest

theorem map_packet_label (packets : List α) :
    ∀ count, (label count packets).map packet = packets := by
  induction packets with
  | nil =>
    intro count
    rfl
  | cons first rest ih =>
    intro count
    simp [label, ih]

theorem pairwise_label {packets : List α} :
    ∀ {count : Nat}, count + packets.length < 2 ^ 32 →
      (∀ one ∈ label count packets, count < one.orderID.toNat) ∧
        (label count packets).Pairwise fun one two => one.orderID < two.orderID := by
  induction packets with
  | nil =>
    intro count _
    simp [label]
  | cons first rest ih =>
    intro count few
    rw [List.length_cons] at few
    obtain ⟨later, ordered⟩ := @ih (count + 1) (by omega)
    have own : (UInt32.ofNat (count + 1)).toNat = count + 1 :=
      UInt32.toNat_ofNat_of_lt' (by simp only [UInt32.size]; omega)
    constructor
    · intro one member
      rcases List.mem_cons.mp member with rfl | behind
      · rw [own]
        omega
      · exact Nat.lt_of_succ_lt (later one behind)
    · refine List.pairwise_cons.mpr ⟨fun one behind => ?_, ordered⟩
      rw [UInt32.lt_iff_toNat_lt, own]
      exact later one behind

end Ordered

open Ordered

structure Controller (ρ σ : Type) where
  /-- Packets of the client that `serveLoop` has not received. -/
  unread : List ρ
  packetCount : UInt32
  pktChan : List (Ordered ρ)
  requests : List (Ordered ρ)
  /-- Packets that a worker has and has not answered. -/
  held : List (Ordered ρ)
  responses : List (Ordered σ)
  incoming : List (Ordered ρ)
  outgoing : List (Ordered σ)
  sent : List σ
  /-- The controller has found `fini` closed. -/
  stopped : Bool

namespace Controller

variable {ρ σ : Type}

def start (stream : List ρ) : Controller ρ σ :=
  ⟨stream, 0, [], [], [], [], [], [], [], false⟩

/-- The loop of `maybeSendPackets` on what it pops and sends. -/
def send : List (Ordered ρ) → List (Ordered σ) → List σ →
    List (Ordered ρ) × List (Ordered σ) × List σ
  | first :: incoming, out :: outgoing, sent =>
    if first.orderID = out.orderID then send incoming outgoing (sent ++ [out.packet])
    else (first :: incoming, out :: outgoing, sent)
  | incoming, outgoing, sent => (incoming, outgoing, sent)

def maybeSendPackets (s : Controller ρ σ) : Controller ρ σ :=
  let result := send s.incoming s.outgoing s.sent
  { s with incoming := result.1, outgoing := result.2.1, sent := result.2.2 }

/-- `answers` is what a worker may answer to a packet. -/
inductive Step (answers : ρ → σ → Prop) : Controller ρ σ → Controller ρ σ → Prop where
  | receive (s : Controller ρ σ) (packet : ρ) (rest : List ρ) (next : s.unread = packet :: rest)
      (room : s.pktChan.length < sftpServerWorkerCount) :
      Step answers s
        { s with
          unread := rest
          packetCount := s.packetCount + 1
          pktChan := s.pktChan ++ [⟨packet, s.packetCount + 1⟩] }
  | incomingPacket (s : Controller ρ σ) (pkt : Ordered ρ) (rest : List (Ordered ρ))
      (next : s.pktChan = pkt :: rest) (room : s.requests.length < sftpServerWorkerCount) :
      Step answers s
        { s with pktChan := rest, requests := s.requests ++ [pkt], held := s.held ++ [pkt] }
  | readyPacket (s : Controller ρ σ) (pkt : Ordered ρ) (before after : List (Ordered ρ))
      (out : σ) (worker : s.held = before ++ pkt :: after) (answer : answers pkt.packet out)
      (room : s.responses.length < sftpServerWorkerCount) :
      Step answers s
        { s with held := before ++ after, responses := s.responses ++ [⟨out, pkt.orderID⟩] }
  | request (s : Controller ρ σ) (pkt : Ordered ρ) (rest : List (Ordered ρ))
      (next : s.requests = pkt :: rest) (runs : s.stopped = false) :
      Step answers s
        (maybeSendPackets { s with requests := rest, incoming := sort (s.incoming ++ [pkt]) })
  | response (s : Controller ρ σ) (pkt : Ordered σ) (rest : List (Ordered σ))
      (next : s.responses = pkt :: rest) (runs : s.stopped = false) :
      Step answers s
        (maybeSendPackets { s with responses := rest, outgoing := sort (s.outgoing ++ [pkt]) })
  | fini (s : Controller ρ σ) (read : s.unread = []) (handed : s.pktChan = [])
      (waited : s.held = []) :
      Step answers s { s with stopped := true }

def Reaches (answers : ρ → σ → Prop) : Controller ρ σ → Controller ρ σ → Prop :=
  Relation.ReflTransGen (Step answers)

/-- Nothing is on its way to the controller any more. -/
structure Settled (s : Controller ρ σ) : Prop where
  unread : s.unread = []
  pktChan : s.pktChan = []
  requests : s.requests = []
  held : s.held = []
  responses : s.responses = []

/-- A response to a packet. -/
def Answered (answers : ρ → σ → Prop) (pkt : Ordered ρ) (out : Ordered σ) : Prop :=
  pkt.orderID = out.orderID ∧ answers pkt.packet out.packet

/-- The queues are the stream in its order.  `answered` are the requests whose
responses are sent, `ready` and `queued` those whose responses the controller
has not received and those whose responses it holds back. -/
structure InOrder (answers : ρ → σ → Prop) (stream : List ρ) (received : Nat)
    (answered ready queued : List (Ordered ρ)) (s : Controller ρ σ) : Prop where
  count : s.packetCount = UInt32.ofNat received
  queues :
    label 0 stream = answered ++ s.incoming ++ s.requests ++ s.pktChan ++ label received s.unread
  sent : List.Forall₂ (fun pkt out => answers pkt.packet out) answered s.sent
  responses : List.Forall₂ (Answered answers) ready s.responses
  outgoing : List.Forall₂ (Answered answers) queued s.outgoing
  pending : (s.held ++ ready ++ queued).Perm (s.incoming ++ s.requests)
  sorted : s.outgoing.Pairwise fun one two => one.orderID ≤ two.orderID

def Holds (answers : ρ → σ → Prop) (stream : List ρ) (s : Controller ρ σ) : Prop :=
  ∃ received answered ready queued, InOrder answers stream received answered ready queued s

section Steps

variable {answers : ρ → σ → Prop} {stream : List ρ} {s next : Controller ρ σ}
    {received : Nat} {answered ready queued : List (Ordered ρ)}

/-- `maybeSendPackets` has nothing to send. -/
def Waits (s : Controller ρ σ) : Prop :=
  send s.incoming s.outgoing s.sent = (s.incoming, s.outgoing, s.sent)

theorem waits_maybeSendPackets (s : Controller ρ σ) : s.maybeSendPackets.Waits := by
  unfold Waits maybeSendPackets
  fun_induction send s.incoming s.outgoing s.sent with
  | case1 sent first incoming out outgoing same ih => exact ih
  | case2 sent first incoming out outgoing other => simp [send, other]
  | case3 incoming outgoing sent short => simp [send]

theorem length_send_le (incoming : List (Ordered ρ)) (outgoing : List (Ordered σ))
    (sent : List σ) : (send incoming outgoing sent).1.length ≤ incoming.length := by
  fun_induction send incoming outgoing sent with
  | case1 sent first incoming out outgoing same ih => exact Nat.le_succ_of_le ih
  | case2 => exact Nat.le_refl _
  | case3 => exact Nat.le_refl _

variable (few : stream.length < 2 ^ 32)
include few

theorem InOrder.pairwise (order : InOrder answers stream received answered ready queued s) :
    (s.incoming ++ s.requests).Pairwise fun one two => one.orderID < two.orderID := by
  have all := (@pairwise_label ρ stream 0 (by omega)).2
  rw [order.queues] at all
  simp only [List.append_assoc] at all
  refine List.Pairwise.sublist ?_ all
  apply List.sublist_append_of_sublist_right
  exact List.Sublist.append_left (List.sublist_append_left _ _) _

/-- The request that a response at the front answers is the one at the front. -/
theorem InOrder.pop (order : InOrder answers stream received answered ready queued s)
    {first : Ordered ρ} {incoming : List (Ordered ρ)} {out : Ordered σ}
    {outgoing : List (Ordered σ)} (front : s.incoming = first :: incoming)
    (ahead : s.outgoing = out :: outgoing) (same : first.orderID = out.orderID) :
    Holds answers stream
      { s with incoming := incoming, outgoing := outgoing, sent := s.sent ++ [out.packet] } := by
  obtain ⟨count, queues, sent, responses, outgoings, pending, sorted⟩ := order
  have ordered := InOrder.pairwise few ⟨count, queues, sent, responses, outgoings, pending, sorted⟩
  rw [ahead] at outgoings sorted
  rw [front] at queues pending ordered
  cases outgoings with
  | @cons pkt _ queued _ answer others =>
    have known : pkt ∈ first :: (incoming ++ s.requests) := pending.subset (by simp)
    obtain rfl : pkt = first := by
      rcases List.mem_cons.mp known with equal | behind
      · exact equal
      · have later := (List.pairwise_cons.mp ordered).1 pkt behind
        rw [same, ← answer.1] at later
        exact absurd later (UInt32.lt_irrefl _)
    refine ⟨received, answered ++ [pkt], ready, queued, count, by simpa using queues,
      List.rel_append sent (.cons answer.2 .nil), responses, others, ?_, sorted.of_cons⟩
    exact (List.perm_middle.symm.trans pending).cons_inv

theorem holds_maybeSendPackets (holds : Holds answers stream s) :
    Holds answers stream s.maybeSendPackets := by
  obtain ⟨unread, count, pktChan, requests, held, responses, incoming, outgoing, sent, _⟩ := s
  unfold maybeSendPackets
  dsimp only
  fun_induction send incoming outgoing sent with
  | case1 sent first incoming out outgoing same ih =>
    obtain ⟨received, answered, ready, queued, order⟩ := holds
    exact ih (order.pop few rfl rfl same)
  | case2 => exact holds
  | case3 => exact holds

theorem holds_step (holds : Holds answers stream s) (step : Step answers s next) :
    Holds answers stream next := by
  obtain ⟨received, answered, ready, queued, order⟩ := holds
  have ordered := order.pairwise few
  obtain ⟨count, queues, sent, responses, outgoing, pending, sorted⟩ := order
  cases step with
  | receive packet rest given room =>
    refine ⟨received + 1, answered, ready, queued, ?_, ?_, sent, responses, outgoing, pending,
      sorted⟩
    · simp [count]
    · simpa [given, count, label] using queues
  | incomingPacket pkt rest given room =>
    refine ⟨received, answered, ready, queued, count, ?_, sent, responses, outgoing, ?_, sorted⟩
    · simpa [given] using queues
    · have more := pending.append_right [pkt]
      simp only [List.append_assoc] at more ⊢
      refine List.Perm.trans (List.Perm.append_left _ ?_) more
      rw [← List.append_assoc ready queued]
      exact List.perm_append_comm
  | readyPacket pkt before after out worker answer room =>
    refine ⟨received, answered, ready ++ [pkt], queued, count, queues, sent,
      List.rel_append responses (.cons ⟨rfl, answer⟩ .nil), outgoing, ?_, sorted⟩
    refine List.Perm.trans ?_ pending
    rw [worker]
    simp only [List.append_assoc, List.cons_append, List.nil_append]
    refine List.Perm.append_left _ ?_
    rw [← List.append_assoc, ← List.append_assoc]
    exact List.perm_middle
  | request pkt rest given runs =>
    apply holds_maybeSendPackets few
    rw [given, List.append_cons] at ordered
    have inOrder : sort (s.incoming ++ [pkt]) = s.incoming ++ [pkt] := by
      refine List.Pairwise.insertionSort_eq ((List.pairwise_append.mp ordered).1.imp ?_)
      exact fun less => UInt32.le_of_lt less
    refine ⟨received, answered, ready, queued, count, ?_, sent, responses, outgoing, ?_, sorted⟩
    · simpa [given, inOrder] using queues
    · simpa [given, inOrder] using pending
  | response pkt rest given runs =>
    apply holds_maybeSendPackets few
    rw [given] at responses
    cases responses with
    | @cons own _ ready _ answer others =>
      have moved : (sort (s.outgoing ++ [pkt])).Perm (s.outgoing ++ [pkt]) :=
        List.perm_insertionSort _ _
      obtain ⟨placed, all, perm⟩ :=
        List.perm_comp_forall₂ moved (List.rel_append outgoing (.cons answer .nil)).flip
      refine ⟨received, answered, ready, placed, count, queues, sent, others, all.flip, ?_,
        List.pairwise_insertionSort _ _⟩
      refine List.Perm.trans (List.Perm.append_left _ perm) (List.Perm.trans ?_ pending)
      simp only [List.append_assoc, List.cons_append]
      refine List.Perm.append_left _ ?_
      rw [← List.append_assoc]
      exact List.perm_append_singleton own _
  | fini read handed waited =>
    exact ⟨received, answered, ready, queued, count, queues, sent, responses, outgoing, pending,
      sorted⟩

theorem holds_of_reaches (run : Reaches answers (start stream) s) :
    Holds answers stream s ∧ s.Waits := by
  induction run with
  | refl => exact ⟨⟨0, [], [], [], rfl, rfl, .nil, .nil, .nil, .refl _, .nil⟩, rfl⟩
  | tail _ step ih =>
    refine ⟨holds_step few ih.1 step, ?_⟩
    cases step with
    | request => exact waits_maybeSendPackets _
    | response => exact waits_maybeSendPackets _
    | _ => exact ih.2

/-- Nothing is held back when nothing more can come. -/
theorem InOrder.incoming_eq_nil
    (order : InOrder answers stream received answered ready queued s) (waits : s.Waits)
    (settled : s.Settled) : s.incoming = [] := by
  have ordered := order.pairwise few
  obtain ⟨count, queues, sent, responses, outgoing, pending, sorted⟩ := order
  rw [settled.responses] at responses
  cases responses
  simp only [settled.requests, settled.held, List.nil_append, List.append_nil] at ordered pending
  -- Both queues hold the same IDs, and in the same order.
  have ids : s.outgoing.map orderID = s.incoming.map orderID := by
    have same : queued.map orderID = s.outgoing.map orderID := by
      rw [← List.forall₂_eq_eq_eq, List.forall₂_map_left_iff, List.forall₂_map_right_iff]
      exact outgoing.imp fun _ _ answer => answer.1
    rw [← same]
    rw [← List.pairwise_map, ← same] at sorted
    refine List.Perm.eq_of_pairwise' sorted ?_ (pending.map orderID)
    exact List.pairwise_map.mpr (ordered.imp fun less => UInt32.le_of_lt less)
  cases front : s.incoming with
  | nil => rfl
  | cons first incoming =>
    rw [front, List.map_cons] at ids
    obtain ⟨out, others, ahead, equal, _⟩ := List.map_eq_cons_iff.mp ids
    have shorter := length_send_le incoming others (s.sent ++ [out.packet])
    rw [Waits, front, ahead, send, if_pos equal.symm] at waits
    rw [waits] at shorter
    exact absurd shorter (Nat.not_succ_le_self _)

omit few

theorem exists_step (total : ∀ packet, ∃ out, answers packet out) (runs : s.stopped = false)
    (pending : ¬ s.Settled) : ∃ next, Step answers s next := by
  cases requests : s.requests with
  | cons pkt rest => exact ⟨_, .request s pkt rest requests runs⟩
  | nil =>
  cases responses : s.responses with
  | cons pkt rest => exact ⟨_, .response s pkt rest responses runs⟩
  | nil =>
  cases held : s.held with
  | cons pkt rest =>
    obtain ⟨out, answer⟩ := total pkt.packet
    exact ⟨_, .readyPacket s pkt [] rest out held answer
      (by simp [responses, sftpServerWorkerCount])⟩
  | nil =>
  cases pktChan : s.pktChan with
  | cons pkt rest =>
    exact ⟨_, .incomingPacket s pkt rest pktChan (by simp [requests, sftpServerWorkerCount])⟩
  | nil =>
  cases unread : s.unread with
  | cons packet rest =>
    exact ⟨_, .receive s packet rest unread (by simp [pktChan, sftpServerWorkerCount])⟩
  | nil => exact absurd ⟨unread, pktChan, requests, held, responses⟩ pending

/-- For every interleaving, the responses that have been sent answer the first
requests of the client one by one and in their order.  All are sent once
nothing is on its way any more, and until then some step is possible unless
the controller has stopped. -/
theorem responses_in_order (answers : ρ → σ → Prop) {stream : List ρ}
    (few : stream.length < 2 ^ 32) {s : Controller ρ σ} (run : Reaches answers (start stream) s) :
    List.Forall₂ answers (stream.take s.sent.length) s.sent ∧
      (s.Settled → s.sent.length = stream.length) ∧
      ((∀ packet, ∃ out, answers packet out) → s.stopped = false → ¬ s.Settled →
        ∃ next, Step answers s next) := by
  obtain ⟨⟨received, answered, ready, queued, order⟩, waits⟩ := holds_of_reaches few run
  have packets :
      stream = answered.map packet ++
        (s.incoming ++ s.requests ++ s.pktChan ++ label received s.unread).map packet := by
    rw [← List.map_append, ← map_packet_label stream 0, order.queues]
    simp only [List.append_assoc]
  refine ⟨?_, fun settled => ?_, fun total runs pending => ?_⟩
  · have front : stream.take s.sent.length = answered.map packet := by
      conv_lhs => rw [packets]
      rw [← order.sent.length_eq]
      exact List.take_left' (List.length_map _)
    rw [front, List.forall₂_map_left_iff]
    exact order.sent
  · rw [packets, ← order.sent.length_eq, order.incoming_eq_nil few waits settled,
      settled.requests, settled.pktChan, settled.unread]
    simp [label]
  · exact exists_step total runs pending

/-- The response to the second request is ready first and waits. -/
theorem overtaking_response_waits :
    ∃ s : Controller Nat Nat, Reaches Eq (start [7, 8]) s ∧ s.outgoing = [⟨8, 2⟩] ∧
      List.Forall₂ Eq ([7, 8].take s.sent.length) s.sent := by
  have run := (((((((Relation.ReflTransGen.refl (r := Step Eq)).tail
    (Step.receive (start [7, 8]) 7 [8] rfl (by decide))).tail
    (.receive _ 8 [] rfl (by decide))).tail (.incomingPacket _ _ _ rfl (by decide))).tail
    (.incomingPacket _ _ _ rfl (by decide))).tail
    (.readyPacket _ ⟨8, 2⟩ [⟨7, 1⟩] [] 8 rfl rfl (by decide))).tail
    (.request _ _ _ rfl rfl)).tail (.response _ _ _ rfl rfl)
  exact ⟨_, run, by decide, (responses_in_order Eq (by decide) run).1⟩

end Steps

end Controller

end Sshserv.Sftp
