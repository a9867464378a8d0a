import Mathlib

/-!
# The packet manager

`packetManager.workerChan`: packets that read or write go to eight workers,
all others one by one to a single worker, and a close packet waits until
nothing is being worked on.  `trace` records the order of execution; no step
reads it.
-/

namespace Sshserv.Sftp

def sftpServerWorkerCount : Nat := 8

/-- The cases that `workerChan` distinguishes. -/
inductive Kind where
  | readWrite
  | close
  | other
  deriving DecidableEq

structure PacketManager (π σ : Type) where
  pktChan : List π
  rwChan : List π
  /-- Packets that a worker has received and not executed. -/
  fetched : List π
  /-- The number of workers that have executed a packet and not reported it
  with `readyPacket`. -/
  executed : Nat
  cmdChan : Option π
  working : Nat
  session : σ
  trace : List π

variable {π σ : Type} (kind : π → Kind) (exec : σ → π → σ)

namespace PacketManager

def start (packets : List π) (session : σ) : PacketManager π σ :=
  ⟨packets, [], [], 0, none, 0, session, []⟩

/-- One step of the goroutine that hands packets out, or of a worker. -/
inductive Step : PacketManager π σ → PacketManager π σ → Prop where
  | enqueue (s : PacketManager π σ) (pkt : π) (rest : List π)
      (next : s.pktChan = pkt :: rest) (isRW : kind pkt = .readWrite)
      (room : s.rwChan.length < sftpServerWorkerCount) :
      Step s
        { s with
          pktChan := rest
          rwChan := s.rwChan ++ [pkt]
          working := s.working + 1 }
  | fetch (s : PacketManager π σ) (pkt : π) (rest : List π)
      (next : s.rwChan = pkt :: rest)
      (idle : s.fetched.length + s.executed < sftpServerWorkerCount) :
      Step s { s with rwChan := rest, fetched := s.fetched ++ [pkt] }
  | execute (s : PacketManager π σ) (pkt : π) (before after : List π)
      (held : s.fetched = before ++ pkt :: after) :
      Step s
        { s with
          fetched := before ++ after
          executed := s.executed + 1
          session := exec s.session pkt
          trace := s.trace ++ [pkt] }
  | ready (s : PacketManager π σ) (count : Nat)
      (some : s.executed = count + 1) :
      Step s { s with executed := count, working := s.working - 1 }
  | submit (s : PacketManager π σ) (pkt : π) (rest : List π)
      (next : s.pktChan = pkt :: rest) (sequential : kind pkt ≠ .readWrite)
      (waited : kind pkt = .close → s.working = 0)
      (idle : s.cmdChan = none) :
      Step s
        { s with
          pktChan := rest
          cmdChan := some pkt
          working := s.working + 1 }
  | command (s : PacketManager π σ) (pkt : π)
      (submitted : s.cmdChan = some pkt) :
      Step s
        { s with
          cmdChan := none
          session := exec s.session pkt
          trace := s.trace ++ [pkt]
          working := s.working - 1 }

def Reaches : PacketManager π σ → PacketManager π σ → Prop :=
  Relation.ReflTransGen (Step kind exec)

def Finished (s : PacketManager π σ) : Prop :=
  s.pktChan = [] ∧ s.rwChan = [] ∧ s.fetched = [] ∧ s.cmdChan = none

end PacketManager

open PacketManager

/-- Where the reads and writes `packets` are while the packet `last`, which
closes the file, is on its way. -/
inductive Phase (packets : List π) (last : π) (s : PacketManager π σ) : Prop
  | before (rest : List π) (next : s.pktChan = rest ++ [last])
      (noCommand : s.cmdChan = none)
      (count : s.working = s.rwChan.length + s.fetched.length + s.executed)
      (perm : (s.trace ++ s.fetched ++ s.rwChan ++ rest).Perm packets)
  | closing (next : s.pktChan = []) (command : s.cmdChan = some last)
      (noRW : s.rwChan = []) (noFetched : s.fetched = [])
      (noExecuted : s.executed = 0) (perm : s.trace.Perm packets)
  | done (next : s.pktChan = []) (command : s.cmdChan = none)
      (noRW : s.rwChan = []) (noFetched : s.fetched = [])
      (noExecuted : s.executed = 0)
      (order : ∃ order, s.trace = order ++ [last] ∧ order.Perm packets)

section Orders

variable {kind exec} {packets : List π} {last : π}

theorem phase_start (session : σ) : Phase packets last (start (packets ++ [last]) session) :=
  .before packets rfl rfl rfl (by simp [start])

variable {pkt : π} {s : PacketManager π σ} {session : σ}

private theorem next_cases {rest others : List π} (next : pkt :: others = rest ++ [last]) :
    (∃ more, rest = pkt :: more ∧ others = more ++ [last]) ∨
      (rest = [] ∧ pkt = last ∧ others = []) := by
  cases rest with
  | nil =>
    right
    simpa using next
  | cons head more =>
    left
    simp only [List.cons_append, List.cons.injEq] at next
    exact ⟨more, by rw [next.1], next.2⟩

theorem phase_step (allRW : ∀ pkt ∈ packets, kind pkt = .readWrite) (closes : kind last = .close)
    {next : PacketManager π σ} (phase : Phase packets last s) (step : Step kind exec s next) :
    Phase packets last next := by
  cases phase with
  | before rest ahead noCommand count perm =>
    cases step with
    | enqueue pkt others given isRW room =>
      rcases next_cases (given ▸ ahead) with
        ⟨more, rfl, rfl⟩ | ⟨_, rfl, _⟩
      · refine .before more rfl noCommand ?_ ?_
        · simp only [List.length_append, List.length_singleton]
          omega
        · simpa using perm
      · rw [closes] at isRW
        cases isRW
    | fetch pkt others given idle =>
      refine .before rest ahead noCommand ?_ ?_
      · simp only [given, List.length_cons, List.length_append, List.length_nil] at count ⊢
        omega
      · simpa [given] using perm
    | execute pkt first second held =>
      refine .before rest ahead noCommand ?_ ?_
      · simp only [held, List.length_append, List.length_cons] at count ⊢
        omega
      · refine List.Perm.trans ?_ perm
        simp only [held, List.append_assoc]
        refine List.Perm.append_left _ ?_
        simpa using List.perm_middle.symm
    | ready number positive =>
      refine .before rest ahead noCommand ?_ perm
      simp only [positive] at count ⊢
      omega
    | submit pkt others given sequential waited idle =>
      rcases next_cases (given ▸ ahead) with
        ⟨more, rfl, rfl⟩ | ⟨rfl, rfl, rfl⟩
      · have member : pkt ∈ packets := perm.subset (by simp)
        exact absurd (allRW pkt member) sequential
      · have nothing := waited closes
        have noRW : s.rwChan = [] := List.eq_nil_of_length_eq_zero (by omega)
        have noFetched : s.fetched = [] := List.eq_nil_of_length_eq_zero (by omega)
        refine .closing rfl rfl noRW noFetched (by simp only; omega) ?_
        simpa [noRW, noFetched] using perm
    | command pkt submitted =>
      rw [noCommand] at submitted
      cases submitted
  | closing ahead command noRW noFetched noExecuted perm =>
    cases step with
    | enqueue pkt others given isRW room =>
      rw [ahead] at given
      cases given
    | fetch pkt others given idle =>
      rw [noRW] at given
      cases given
    | execute pkt first second held =>
      rw [noFetched] at held
      simp at held
    | ready number positive =>
      rw [noExecuted] at positive
      cases positive
    | submit pkt others given sequential waited idle =>
      rw [ahead] at given
      cases given
    | command pkt submitted =>
      rw [command, Option.some.injEq] at submitted
      subst submitted
      exact .done ahead rfl noRW noFetched noExecuted ⟨s.trace, rfl, perm⟩
  | done ahead command noRW noFetched noExecuted order =>
    cases step with
    | enqueue pkt others given isRW room =>
      rw [ahead] at given
      cases given
    | fetch pkt others given idle =>
      rw [noRW] at given
      cases given
    | execute pkt first second held =>
      rw [noFetched] at held
      simp at held
    | ready number positive =>
      rw [noExecuted] at positive
      cases positive
    | submit pkt others given sequential waited idle =>
      rw [ahead] at given
      cases given
    | command pkt submitted =>
      rw [command] at submitted
      cases submitted

theorem phase_of_reaches (allRW : ∀ pkt ∈ packets, kind pkt = .readWrite)
    (closes : kind last = .close) (run : Reaches kind exec (start (packets ++ [last]) session) s) :
    Phase packets last s := by
  induction run with
  | refl => exact phase_start session
  | tail _ step ih => exact phase_step allRW closes ih step

/-- The session is what the executed packets made of it. -/
theorem session_of_reaches {start : PacketManager π σ}
    (initially : start.session = start.trace.foldl exec session) (run : Reaches kind exec start s) :
    s.session = s.trace.foldl exec session := by
  induction run with
  | refl => exact initially
  | tail _ step ih =>
    cases step with
    | enqueue => exact ih
    | fetch => exact ih
    | ready => exact ih
    | submit => exact ih
    | execute => simp [ih]
    | command => simp [ih]

/-- Reads and writes are executed in some order, and then the file is
closed. -/
theorem finished_order (allRW : ∀ pkt ∈ packets, kind pkt = .readWrite)
    (closes : kind last = .close) (run : Reaches kind exec (start (packets ++ [last]) session) s)
    (finished : s.Finished) :
    ∃ order : List π, order.Perm packets ∧ s.session = exec (order.foldl exec session) last := by
  have result : s.session = s.trace.foldl exec session := session_of_reaches rfl run
  cases phase_of_reaches allRW closes run with
  | before rest ahead _ _ _ =>
    rw [finished.1] at ahead
    simp at ahead
  | closing _ command _ _ _ _ =>
    rw [finished.2.2.2] at command
    cases command
  | done _ _ _ _ _ order =>
    obtain ⟨executed, trace, perm⟩ := order
    exact ⟨executed, perm, by simp [result, trace]⟩

theorem reaches_fetched (exec : σ → π → σ) (isRW : kind pkt = .readWrite) (rest held : List π)
    (working : Nat) (session : σ) (trace : List π) (few : held.length ≤ 1) :
    Reaches kind exec
      ⟨pkt :: rest, [], held, 0, none, working, session, trace⟩
      ⟨rest, [], held ++ [pkt], 0, none, working + 1, session, trace⟩ := by
  have enqueued :
      Step kind exec
        ⟨pkt :: rest, [], held, 0, none, working, session, trace⟩
        ⟨rest, [pkt], held, 0, none, working + 1, session, trace⟩ :=
    Step.enqueue _ pkt rest rfl isRW (by simp [sftpServerWorkerCount])
  have fetched :
      Step kind exec
        ⟨rest, [pkt], held, 0, none, working + 1, session, trace⟩
        ⟨rest, [], held ++ [pkt], 0, none, working + 1, session, trace⟩ :=
    Step.fetch _ pkt [] rfl (by simp only [sftpServerWorkerCount]; omega)
  exact (Relation.ReflTransGen.single enqueued).tail fetched

theorem reaches_reported (kind : π → Kind) (exec : σ → π → σ) (pkt : π) (rest held : List π)
    (working : Nat) (session : σ) (trace : List π) :
    Reaches kind exec
      ⟨rest, [], held ++ [pkt], 0, none, working + 1, session, trace⟩
      ⟨rest, [], held, 0, none, working, exec session pkt, trace ++ [pkt]⟩ := by
  have executed :
      Step kind exec
        ⟨rest, [], held ++ [pkt], 0, none, working + 1, session, trace⟩
        ⟨rest, [], held ++ [], 1, none, working + 1, exec session pkt, trace ++ [pkt]⟩ :=
    Step.execute _ pkt held [] rfl
  have reported :
      Step kind exec
        ⟨rest, [], held ++ [], 1, none, working + 1, exec session pkt, trace ++ [pkt]⟩
        ⟨rest, [], held ++ [], 0, none, working, exec session pkt, trace ++ [pkt]⟩ :=
    Step.ready _ 0 rfl
  have both := (Relation.ReflTransGen.single executed).tail reported
  rw [List.append_nil] at both
  exact both

/-- While at most one packet is held by a worker, the next ones can be
executed one after the other. -/
theorem reaches_executed (exec : σ → π → σ) (queue : List π)
    (allRW : ∀ pkt ∈ queue, kind pkt = .readWrite)
    (rest held : List π) (working : Nat) (session : σ) (trace : List π) (few : held.length ≤ 1) :
    Reaches kind exec
      ⟨queue ++ rest, [], held, 0, none, working, session, trace⟩
      ⟨rest, [], held, 0, none, working, queue.foldl exec session, trace ++ queue⟩ := by
  induction queue generalizing session trace with
  | nil =>
    rw [List.append_nil]
    exact Relation.ReflTransGen.refl
  | cons pkt more ih =>
    have first : kind pkt = .readWrite := allRW pkt List.mem_cons_self
    have one :=
      (reaches_fetched exec first (more ++ rest) held working
        session trace few).trans
        (reaches_reported kind exec pkt (more ++ rest) held working session trace)
    have others :=
      ih
        (fun other member => allRW other (List.mem_cons_of_mem pkt member))
        (exec session pkt) (trace ++ [pkt])
    rw [List.append_assoc] at others
    exact one.trans others

/-- One packet is postponed, and the file is closed after all of them. -/
theorem reaches_postponed (exec : σ → π → σ) {before between after : List π}
    (allRW : ∀ other ∈ before ++ pkt :: between ++ after, kind other = .readWrite)
    (closes : kind last = .close) (session : σ) :
    ∃ s, Reaches kind exec (start (before ++ pkt :: between ++ after ++ [last]) session) s ∧
        s.Finished ∧
        s.session = exec ((before ++ between ++ pkt :: after).foldl exec session) last := by
  have first :=
    reaches_executed exec before
      (fun other member => allRW other (by simp [member]))
      (pkt :: (between ++ (after ++ [last]))) [] 0 session [] (by simp)
  have taken :=
    reaches_fetched exec (allRW pkt (by simp))
      (between ++ (after ++ [last])) [] 0 (before.foldl exec session)
      ([] ++ before) (by simp)
  have overtaken :=
    reaches_executed exec between
      (fun other member => allRW other (by simp [member])) (after ++ [last])
      ([] ++ [pkt]) 1 (before.foldl exec session) ([] ++ before) (by simp)
  have late :=
    reaches_reported kind exec pkt (after ++ [last]) [] 0
      (between.foldl exec (before.foldl exec session))
      ([] ++ before ++ between)
  have rest :=
    reaches_executed exec after
      (fun other member => allRW other (by simp [member])) [last] [] 0
      (exec (between.foldl exec (before.foldl exec session)) pkt)
      ([] ++ before ++ between ++ [pkt]) (by simp)
  have run := (((first.trans taken).trans overtaken).trans late).trans rest
  generalize done :
    after.foldl exec (exec (between.foldl exec (before.foldl exec session)) pkt) = result at run
  generalize [] ++ before ++ between ++ [pkt] ++ after = order at run
  have submitted :
      Step kind exec ⟨[last], [], [], 0, none, 0, result, order⟩
        ⟨[], [], [], 0, some last, 1, result, order⟩ :=
    Step.submit _ last [] rfl (by simp [closes]) (fun _ => rfl) rfl
  have closed :
      Step kind exec ⟨[], [], [], 0, some last, 1, result, order⟩
        ⟨[], [], [], 0, none, 0, exec result last, order ++ [last]⟩ :=
    Step.command _ last rfl
  have queue :
      before ++ pkt :: between ++ after ++ [last] =
        before ++ pkt :: (between ++ (after ++ [last])) := by
    simp
  refine ⟨⟨[], [], [], 0, none, 0, exec result last, order ++ [last]⟩, ?_, ⟨rfl, rfl, rfl, rfl⟩, ?_⟩
  · rw [start, queue]
    exact (run.tail submitted).tail closed
  · simp [← done]

end Orders

end Sshserv.Sftp
