import Sshserv.Lib.Runs
import Sshserv.Serv.Transfer

/-!
# Bandwidth throttling

`Transfer.handleThrottle`, which every call of `ReadAt` and `WriteAt` ends
with.  After each call at least the time has passed that the bytes so far
should take.
-/

namespace Sshserv.Serv

open Lib UnixPath FileTree Runs
open DataProvider

namespace Transfer

def wantedBandwidth (t : Transfer) : Int :=
  match t.transferType with
  | .download => t.user.downloadBandwidth
  | .upload => t.user.uploadBandwidth

def transferredBytes (t : Transfer) : Int :=
  match t.transferType with
  | .download => t.bytesSent
  | .upload => t.bytesReceived

/-- `handleThrottle` at a time after the start of the transfer: the duration
that it passes to `time.Sleep`, if it does. -/
def handleThrottle (t : Transfer) (elapsed : Int) : Option Int :=
  if t.wantedBandwidth > 0 then
    let realElapsed := elapsed.tdiv 1000000
    let wantedElapsed :=
      (wrap64 (1000 * t.transferredBytes.tdiv 1000)).tdiv t.wantedBandwidth
    if wantedElapsed > realElapsed then
      some (wrap64 (wrap64 (wantedElapsed - realElapsed) * 1000000))
    else none
  else none

/-- The transfer after a call in its direction: a download is only read and an
upload only written. -/
def move (t : Transfer) (bytes : Nat) : Transfer :=
  match t.transferType with
  | .download => { t with bytesSent := t.bytesSent + bytes }
  | .upload => { t with bytesReceived := t.bytesReceived + bytes }

@[simp]
theorem wantedBandwidth_move (t : Transfer) (bytes : Nat) :
    (t.move bytes).wantedBandwidth = t.wantedBandwidth := by
  cases kind : t.transferType <;> simp [move, wantedBandwidth, kind]

@[simp]
theorem transferredBytes_move (t : Transfer) (bytes : Nat) :
    (t.move bytes).transferredBytes = t.transferredBytes + bytes := by
  cases kind : t.transferType <;> simp [move, transferredBytes, kind]

@[simp]
theorem start_move (t : Transfer) (bytes : Nat) : (t.move bytes).start = t.start := by
  cases kind : t.transferType <;> simp [move, kind]

variable {os : Os} {index ref : Nat} {w : World} {off elapsed : Int} {t : Transfer}

theorem readAt_moves
    {count : Nat} (entry : w.transfers ref = some t) (download : t.transferType = .download) :
    (readAt os index w ref count off).1.transfers ref =
      some { t.move (readAt os index w ref count off).2.1.length with
        lastActivity := os.now } := by
  unfold readAt
  simp only [entry]
  cases w.fs.readAt t.file count off with
  | error err => simp [World.setTransfer, move, download]
  | ok bytes => simp [World.setTransfer, move, download]

theorem writeAt_moves
    {p : List Char} (entry : w.transfers ref = some t) (upload : t.transferType = .upload) :
    (writeAt os index w ref p off).1.transfers ref =
      some { t.move (writeAt os index w ref p off).2.1 with
        lastActivity := os.now } := by
  unfold writeAt
  simp only [entry]
  cases w.fs.writeAt t.file (os.written index p) off os.now with
  | error err => simp [World.setTransfer, move, upload]
  | ok fs => simp [World.setTransfer, World.setFs, move, upload]

/-- The milliseconds that the bytes so far should take. -/
def wantedElapsed (t : Transfer) : Int :=
  (1000 * t.transferredBytes.tdiv 1000).tdiv t.wantedBandwidth

def milliseconds (elapsed : Int) : Int :=
  elapsed.tdiv 1000000

/-- No operation of `handleThrottle` leaves the `int64`s. -/
structure NoOverflow (t : Transfer) (elapsed : Int) : Prop where
  product : wrap64 (1000 * t.transferredBytes.tdiv 1000) = 1000 * t.transferredBytes.tdiv 1000
  difference :
    t.wantedElapsed > milliseconds elapsed →
      wrap64 (t.wantedElapsed - milliseconds elapsed) = t.wantedElapsed - milliseconds elapsed
  duration :
    t.wantedElapsed > milliseconds elapsed →
      wrap64 ((t.wantedElapsed - milliseconds elapsed) * 1000000) =
        (t.wantedElapsed - milliseconds elapsed) * 1000000

theorem handleThrottle_of_noOverflow
    (limited : 0 < t.wantedBandwidth) (plain : t.NoOverflow elapsed) :
    t.handleThrottle elapsed =
      if t.wantedElapsed > milliseconds elapsed then
        some ((t.wantedElapsed - milliseconds elapsed) * 1000000)
      else none := by
  have wanted :
      (wrap64 (1000 * t.transferredBytes.tdiv 1000)).tdiv t.wantedBandwidth = t.wantedElapsed := by
    rw [plain.product, wantedElapsed]
  have real : elapsed.tdiv 1000000 = milliseconds elapsed := rfl
  simp only [handleThrottle, gt_iff_lt, limited, if_true, wanted, real]
  split
  · rename_i late
    rw [plain.difference late, plain.duration late]
  · rfl

section Bounds

variable {t : Transfer}

theorem wantedElapsed_eq (counted : 0 ≤ t.transferredBytes) :
    t.wantedElapsed = 1000 * (t.transferredBytes / 1000) / t.wantedBandwidth := by
  have kilobytes : 0 ≤ t.transferredBytes / 1000 := by omega
  rw [wantedElapsed, Int.tdiv_eq_ediv_of_nonneg counted, Int.tdiv_eq_ediv_of_nonneg (by omega)]

variable (limited : 0 < t.wantedBandwidth)
variable (counted : 0 ≤ t.transferredBytes)

include limited counted

/-- The wanted time is reached: the rate is kept. -/
theorem rate_of_wantedElapsed_le {elapsed : Int} (reached : t.wantedElapsed ≤ elapsed) :
    1000 * (t.transferredBytes / 1000) < t.wantedBandwidth * (elapsed + 1) := by
  rw [wantedElapsed_eq counted] at reached
  calc 1000 * (t.transferredBytes / 1000)
      < t.wantedBandwidth * (1000 * (t.transferredBytes / 1000) / t.wantedBandwidth + 1) := by
        rw [mul_add, mul_one]
        exact Int.lt_mul_ediv_self_add limited
    _ ≤ t.wantedBandwidth * (elapsed + 1) := Int.mul_le_mul_of_nonneg_left (by omega) limited.le

/-- More bytes take at most a millisecond each, and a second for the rounding
to kilobytes. -/
theorem wantedElapsed_move_le (bytes : Nat) :
    (t.move bytes).wantedElapsed ≤ t.wantedElapsed + (bytes + 1000) := by
  have after : 0 ≤ (t.move bytes).transferredBytes := by
    rw [transferredBytes_move]
    omega
  rw [wantedElapsed_eq after, wantedElapsed_eq counted, wantedBandwidth_move, transferredBytes_move]
  have more :
      1000 * ((t.transferredBytes + bytes) / 1000) ≤
        1000 * (t.transferredBytes / 1000) + (bytes + 1000) := by
    omega
  refine (Int.ediv_le_ediv limited more).trans ?_
  generalize 1000 * (t.transferredBytes / 1000) = kilobytes
  have below := Int.lt_mul_ediv_self_add (x := kilobytes) limited
  have bound :
      kilobytes + (bytes + 1000) <
        (kilobytes / t.wantedBandwidth + (bytes + 1000) + 1) * t.wantedBandwidth := by
    nlinarith
  exact Int.lt_add_one_iff.mp (Int.ediv_lt_of_lt_mul limited bound)

end Bounds

theorem noOverflow_move (limited : 0 < t.wantedBandwidth) (counted : 0 ≤ t.transferredBytes)
    {bytes : Nat} (small : bytes ≤ 2 ^ 32) (total : t.transferredBytes + bytes < 2 ^ 62)
    (reached : t.wantedElapsed ≤ milliseconds elapsed) :
    (t.move bytes).NoOverflow elapsed := by
  have kilobytes :
      (t.move bytes).transferredBytes.tdiv 1000 = (t.transferredBytes + bytes) / 1000 := by
    rw [transferredBytes_move, Int.tdiv_eq_ediv_of_nonneg (by omega)]
  have wanted := wantedElapsed_move_le limited counted bytes
  have gap : (t.move bytes).wantedElapsed - milliseconds elapsed ≤ 2 ^ 32 + 1000 := by
    omega
  refine ⟨?_, fun late => ?_, fun late => ?_⟩
  · rw [kilobytes]
    exact wrap64_of_bounds (by omega) (by omega)
  · exact wrap64_of_bounds (by omega) (by omega)
  · exact wrap64_of_bounds (by omega) (by omega)

end Transfer

/-- A call: the bytes that it moves, and in nanoseconds the time from the end
of the call before to the check, how much longer than asked for a sleep lasts,
and the time until the call returns. -/
structure TimedCall where
  bytes : Nat
  before : Nat
  longer : Nat
  after : Nat
  deriving DecidableEq

/-- A transfer and the time. -/
structure TimedTransfer where
  transfer : Transfer
  clock : Int
  deriving DecidableEq

namespace TimedTransfer

def elapsed (s : TimedTransfer) : Int :=
  s.clock - s.transfer.start

/-- The time since the start at which a call checks. -/
def checkTime (s : TimedTransfer) (call : TimedCall) : Int :=
  s.elapsed + call.before

/-- How long a call sleeps.  A sleep of a negative duration returns at
once. -/
def slept (s : TimedTransfer) (call : TimedCall) : Int :=
  match (s.transfer.move call.bytes).handleThrottle (s.checkTime call) with
  | none => 0
  | some duration => max duration 0 + call.longer

def step (s : TimedTransfer) (call : TimedCall) : TimedTransfer where
  transfer := s.transfer.move call.bytes
  clock := s.clock + call.before + s.slept call + call.after

theorem elapsed_step (s : TimedTransfer) (call : TimedCall) :
    (s.step call).elapsed = s.checkTime call + s.slept call + call.after := by
  simp only [elapsed, checkTime, step, Transfer.start_move]
  ring

/-- The time so far is what the bytes so far should take, or more. -/
structure Paced (s : TimedTransfer) : Prop where
  limited : 0 < s.transfer.wantedBandwidth
  counted : 0 ≤ s.transfer.transferredBytes
  begun : 0 ≤ s.elapsed
  reached : s.transfer.wantedElapsed ≤ Transfer.milliseconds s.elapsed

theorem paced_start {t : Transfer} (limited : 0 < t.wantedBandwidth)
    (fresh : t.transferredBytes = 0) : Paced ⟨t, t.start⟩ where
  limited := limited
  counted := fresh.ge
  begun := by simp [elapsed]
  reached := by simp [elapsed, Transfer.wantedElapsed, fresh, Transfer.milliseconds]

section Step

variable {s : TimedTransfer} {call : TimedCall} (paced : s.Paced)
variable (small : call.bytes ≤ 2 ^ 32)
variable (total : s.transfer.transferredBytes + call.bytes < 2 ^ 62)

include paced small total

theorem noOverflow_step : (s.step call).transfer.NoOverflow (s.checkTime call) := by
  refine Transfer.noOverflow_move paced.limited paced.counted small total ?_
  refine paced.reached.trans ?_
  exact Int.tdiv_le_tdiv (by norm_num) (by simp [checkTime])

theorem wanted_le_slept :
    0 ≤ s.slept call ∧
      ((s.step call).transfer.wantedElapsed - Transfer.milliseconds (s.checkTime call)) * 1000000 ≤
        s.slept call := by
  have limited : 0 < (s.step call).transfer.wantedBandwidth := by
    simpa [step] using paced.limited
  have asked := Transfer.handleThrottle_of_noOverflow limited (noOverflow_step paced small total)
  simp only [step, gt_iff_lt] at asked ⊢
  rw [slept, asked]
  split_ifs with late
  · simp only
    omega
  · simp only
    omega

theorem paced_step : (s.step call).Paced := by
  have counted := paced.counted
  have begun := paced.begun
  obtain ⟨noLess, enough⟩ := wanted_le_slept paced small total
  have checked : 0 ≤ s.checkTime call := by
    simp only [checkTime]
    omega
  have passed := elapsed_step s call
  refine ⟨?_, ?_, by omega, ?_⟩
  · simpa [step] using paced.limited
  · simp only [step, Transfer.transferredBytes_move]
    omega
  · simp only [Transfer.milliseconds] at enough ⊢
    rw [Int.tdiv_eq_ediv_of_nonneg checked] at enough
    rw [Int.tdiv_eq_ediv_of_nonneg (by omega), passed]
    omega

end Step

theorem wantedBandwidth_run (s : TimedTransfer) (calls : List TimedCall) :
    (run step s calls).transfer.wantedBandwidth = s.transfer.wantedBandwidth := by
  induction calls generalizing s with
  | nil => rfl
  | cons call rest ih =>
    rw [run_cons, ih]
    exact Transfer.wantedBandwidth_move _ _

theorem paced_run {s : TimedTransfer} (paced : s.Paced)
    {calls : List TimedCall} (small : ∀ call ∈ calls, call.bytes ≤ 2 ^ 32)
    (total : s.transfer.transferredBytes + (calls.map TimedCall.bytes).sum < 2 ^ 62) :
    (run step s calls).Paced ∧
      (run step s calls).transfer.transferredBytes =
        s.transfer.transferredBytes + (calls.map TimedCall.bytes).sum := by
  induction calls generalizing s with
  | nil => simpa using paced
  | cons call rest ih =>
    simp only [List.map_cons, List.sum_cons, Nat.cast_add] at total ⊢
    have next : (s.step call).Paced := paced_step paced (small call List.mem_cons_self) (by omega)
    have counter :
        (s.step call).transfer.transferredBytes = s.transfer.transferredBytes + call.bytes :=
      Transfer.transferredBytes_move _ _
    obtain ⟨kept, sum⟩ :=
      ih next
        (fun other member => small other (List.mem_cons_of_mem call member))
        (by rw [counter]; omega)
    refine ⟨kept, ?_⟩
    rw [run_cons, sum, counter]
    ring

end TimedTransfer

open TimedTransfer

/-- After every call of a limited transfer the rate so far is kept, and the
call has computed its sleep without overflow. -/
theorem throttle_bounds_rate (t : Transfer) (limited : 0 < t.wantedBandwidth)
    (fresh : t.transferredBytes = 0) (calls : List TimedCall) (call : TimedCall)
    (small : ∀ other ∈ calls ++ [call], other.bytes ≤ 2 ^ 32)
    (total : ((calls ++ [call]).map TimedCall.bytes).sum < 2 ^ 62) :
    let s := run step ⟨t, t.start⟩ calls
    let moved : Int := ((calls ++ [call]).map TimedCall.bytes).sum
    (s.step call).transfer.NoOverflow (s.checkTime call) ∧
      1000 * (moved / 1000) <
        t.wantedBandwidth * (Transfer.milliseconds (s.step call).elapsed + 1) := by
  intro s moved
  have start := paced_start limited fresh
  have sum : moved = ((calls.map TimedCall.bytes).sum : Int) + call.bytes := by
    simp [moved]
  obtain ⟨paced, counter⟩ :=
    paced_run start
      (fun other member => small other (List.mem_append_left _ member))
      (by simp only [fresh]; omega)
  have last : call.bytes ≤ 2 ^ 32 := small call (by simp)
  have room : s.transfer.transferredBytes + call.bytes < 2 ^ 62 := by
    rw [counter, fresh]
    omega
  refine ⟨noOverflow_step paced last room, ?_⟩
  have next := paced_step paced last room
  have counted : (s.step call).transfer.transferredBytes = moved := by
    rw [step, Transfer.transferredBytes_move, counter, fresh, sum, zero_add]
  have same : (s.step call).transfer.wantedBandwidth = t.wantedBandwidth := by
    rw [step, Transfer.wantedBandwidth_move, wantedBandwidth_run]
  rw [← counted, ← same]
  exact Transfer.rate_of_wantedElapsed_le next.limited next.counted next.reached

def slowUploadTransfer : Transfer where
  file := ⟨"/srv/u/f".toList, none, true, false, true⟩
  path := "/srv/u/f".toList
  start := 7
  bytesSent := 0
  bytesReceived := 0
  user := { User.zero with uploadBandwidth := 1 }
  connectionID := "1".toList
  transferType := .upload
  lastActivity := 7
  isNewFile := true
  protocol := "SFTP".toList

/-- Two packets of 5000 bytes, the second right after the first. -/
theorem two_packets_bounded :
    let packet : TimedCall := ⟨5000, 0, 0, 0⟩
    let s := run step ⟨slowUploadTransfer, 7⟩ [packet]
    (s.step packet).transfer.NoOverflow (s.checkTime packet) ∧
      (10000 : Int) < 1 * (Transfer.milliseconds (s.step packet).elapsed + 1) :=
  throttle_bounds_rate slowUploadTransfer (by decide) rfl [⟨5000, 0, 0, 0⟩]
    ⟨5000, 0, 0, 0⟩ (by simp) (by decide)

end Sshserv.Serv
