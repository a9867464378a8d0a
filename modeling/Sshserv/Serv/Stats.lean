import Sshserv.Serv.IdleCheck
import Sshserv.Serv.ScpCommand

/-!
# Statistics of connections

What `GetConnectionsStats` reports as the last activity of a connection: the
last transfer of the list that is newer than the connection wins, where the
idle check takes the least idle time.
-/

namespace Sshserv.Serv

open Lib UnixPath Runs DataProvider

/-- `utils.GetTimeAsMsSinceEpoch` of a time in nanoseconds. -/
def getTimeAsMsSinceEpoch (t : Int) : Int :=
  t.tdiv 1000000

def operationDownload : Str := "download".toList
def operationUpload : Str := "upload".toList

/-- `connectionTransfer`. -/
structure ConnectionTransfer where
  operationType : Str
  startTime : Int
  size : Int
  lastActivity : Int
  path : Str
  deriving DecidableEq

structure ConnectionStatus where
  username : Str
  connectionID : Str
  clientVersion : Str
  remoteAddress : Str
  connectionTime : Int
  lastActivity : Int
  protocol : Str
  transfers : List ConnectionTransfer
  deriving DecidableEq

/-- The fields of a `Connection` that only the statistics read. -/
structure Peer where
  clientVersion : Str
  remoteAddr : Str
  startTime : Int
  deriving DecidableEq

def transferStatus (c : OpenConnection) (t : Transfer) : ConnectionTransfer where
  operationType :=
    match t.transferType with
    | .upload => operationUpload
    | .download => operationDownload
  startTime := getTimeAsMsSinceEpoch t.start
  size :=
    match t.transferType with
    | .upload => t.bytesReceived
    | .download => t.bytesSent
  lastActivity := getTimeAsMsSinceEpoch t.lastActivity
  path := getRelativePath c.connection.user t.path

/-- The status of a connection after one turn of the loop over the active
transfers. -/
def statusAfter (w : World) (c : OpenConnection) (conn : ConnectionStatus)
    (ref : Nat) : ConnectionStatus :=
  match w.transfers ref with
  | none => conn
  | some t =>
    if t.connectionID = c.id then
      { conn with
        lastActivity :=
          if t.lastActivity > c.lastActivity then
            getTimeAsMsSinceEpoch t.lastActivity
          else conn.lastActivity
        transfers := conn.transfers ++ [transferStatus c t] }
    else conn

def connectionStatus (peer : Peer) (w : World) (c : OpenConnection) : ConnectionStatus :=
  w.activeTransfers.foldl (statusAfter w c)
    { username := c.username
      connectionID := c.id
      clientVersion := peer.clientVersion
      remoteAddress := peer.remoteAddr
      connectionTime := getTimeAsMsSinceEpoch peer.startTime
      lastActivity := getTimeAsMsSinceEpoch c.lastActivity
      protocol := c.connection.protocol
      transfers := [] }

/-- `GetConnectionsStats`.  The order of the connections is that of a map. -/
def getConnectionsStats (peers : Str → Peer) (table : OpenConnections)
    (w : World) : List ConnectionStatus :=
  table.entries.map fun entry =>
    connectionStatus (peers entry.2.id) w entry.2

/-- The stamp that the report goes by, if it is not that of the connection:
the last one in the list that is newer. -/
def lastNewer (w : World) (c : OpenConnection) : Option Int :=
  ((transferStamps w c.id).filter fun stamp => c.lastActivity < stamp).getLast?

theorem connectionID_fold (w : World) (c : OpenConnection) (refs : List Nat)
    (conn : ConnectionStatus) :
    (refs.foldl (statusAfter w c) conn).connectionID = conn.connectionID := by
  induction refs generalizing conn with
  | nil => rfl
  | cons ref rest ih =>
    rw [List.foldl_cons, ih, statusAfter]
    split
    · rfl
    · split
      · rfl
      · rfl

theorem transferStamps_concat (w : World) (id : Str) (refs : List Nat) (ref : Nat) :
    transferStamps { w with activeTransfers := refs ++ [ref] } id =
      transferStamps { w with activeTransfers := refs } id ++
        transferStamps { w with activeTransfers := [ref] } id := by
  simp only [transferStamps, List.filterMap_append]

theorem lastActivity_fold (w : World) (c : OpenConnection) (refs : List Nat)
    (conn : ConnectionStatus) :
    (refs.foldl (statusAfter w c) conn).lastActivity =
      ((lastNewer { w with activeTransfers := refs } c).map
        getTimeAsMsSinceEpoch).getD conn.lastActivity := by
  induction refs using List.reverseRecOn with
  | nil => rfl
  | append_singleton refs ref ih =>
    rw [lastNewer] at ih
    rw [List.foldl_append, List.foldl_cons, List.foldl_nil, lastNewer,
      transferStamps_concat, List.filter_append, statusAfter]
    cases entry : w.transfers ref with
    | none =>
      have idle : transferStamps { w with activeTransfers := [ref] } c.id = [] := by
        simp [transferStamps, entry]
      simp only [idle, List.filter_nil, List.append_nil]
      exact ih
    | some t =>
      by_cases own : t.connectionID = c.id
      · have single :
            transferStamps { w with activeTransfers := [ref] } c.id = [t.lastActivity] := by
          simp [transferStamps, entry, own]
        by_cases newer : c.lastActivity < t.lastActivity
        · simp [single, own, newer]
        · simp only [single, own, newer, if_true, if_false, decide_false, Bool.false_eq_true,
            not_false_eq_true, List.filter_cons_of_neg, List.filter_nil, List.append_nil]
          exact ih
      · have other : transferStamps { w with activeTransfers := [ref] } c.id = [] := by
          simp [transferStamps, entry, own]
        simp only [other, own, if_false, List.filter_nil, List.append_nil]
        exact ih

theorem connectionStatus_reports (peer : Peer) (w : World) (c : OpenConnection) :
    (connectionStatus peer w c).connectionID = c.id ∧
      (connectionStatus peer w c).lastActivity =
        getTimeAsMsSinceEpoch ((lastNewer w c).getD c.lastActivity) := by
  refine ⟨connectionID_fold w c _ _, ?_⟩
  rw [connectionStatus, lastActivity_fold]
  cases lastNewer w c <;> rfl

/-- The latest stamp of a connection and its transfers. -/
def latestActivity (w : World) (c : OpenConnection) : Int :=
  (c.lastActivity :: transferStamps w c.id).max (List.cons_ne_nil _ _)

theorem latestActivity_le_iff {w : World} {c : OpenConnection} {bound : Int} :
    latestActivity w c ≤ bound ↔
      c.lastActivity ≤ bound ∧ ∀ stamp ∈ transferStamps w c.id, stamp ≤ bound := by
  rw [latestActivity, List.max_le_iff, List.forall_mem_cons]

theorem latestActivity_mem (w : World) (c : OpenConnection) :
    latestActivity w c = c.lastActivity ∨ latestActivity w c ∈ transferStamps w c.id :=
  List.mem_cons.mp (List.max_mem _)

theorem getTimeAsMsSinceEpoch_mono {t u : Int} (earlier : t ≤ u) :
    getTimeAsMsSinceEpoch t ≤ getTimeAsMsSinceEpoch u :=
  Int.tdiv_le_tdiv (by norm_num) earlier

/-- The idle check goes by the latest stamp. -/
theorem checkIdleConnections_eq
    (idleTimeout : Int) (table : OpenConnections) (w : World) (now : Int) :
    checkIdleConnections idleTimeout table w now =
      (table.entries.filter fun entry =>
        idleTimeout < now - latestActivity w entry.2).map fun entry =>
          entry.2.id := by
  have same : ∀ c : OpenConnection,
      idleTimeout < idleTime w now c ↔ idleTimeout < now - latestActivity w c := by
    intro c
    have bound : idleTimeout < now - latestActivity w c ↔
        latestActivity w c ≤ now - idleTimeout - 1 := by
      omega
    rw [lt_idleTime_iff, bound, latestActivity_le_iff]
    refine and_congr (by omega) (forall₂_congr fun stamp _ => by omega)
  simp only [checkIdleConnections, same]

/-- The last newer stamp of a connection is its latest one, to the
millisecond. -/
def LastNewerIsLatest (w : World) (c : OpenConnection) : Prop :=
  ∀ last, lastNewer w c = some last →
    ∀ stamp ∈ transferStamps w c.id, getTimeAsMsSinceEpoch stamp ≤ getTimeAsMsSinceEpoch last

theorem reports_latest_iff (w : World) (c : OpenConnection) :
    getTimeAsMsSinceEpoch ((lastNewer w c).getD c.lastActivity) =
        getTimeAsMsSinceEpoch (latestActivity w c) ↔
      LastNewerIsLatest w c := by
  have above := latestActivity_le_iff.mp (le_refl (latestActivity w c))
  unfold LastNewerIsLatest
  cases newest : lastNewer w c with
  | none =>
    -- no stamp is newer than the connection
    have older : latestActivity w c ≤ c.lastActivity := by
      refine latestActivity_le_iff.mpr ⟨le_refl _, fun stamp member => ?_⟩
      rw [lastNewer, List.getLast?_eq_none_iff, List.filter_eq_nil_iff] at newest
      simpa using newest stamp member
    simp [le_antisymm older above.1]
  | some last =>
    have chosen := List.mem_of_getLast? newest
    rw [List.mem_filter, decide_eq_true_eq] at chosen
    obtain ⟨member, newer⟩ := chosen
    simp only [Option.getD_some, Option.some.injEq, forall_eq']
    constructor
    · intro same stamp stamped
      rw [same]
      exact getTimeAsMsSinceEpoch_mono (above.2 stamp stamped)
    · intro latest
      refine le_antisymm (getTimeAsMsSinceEpoch_mono (above.2 last member)) ?_
      rcases latestActivity_mem w c with own | stamped
      · rw [own]
        exact getTimeAsMsSinceEpoch_mono newer.le
      · exact latest _ stamped

/-- The report gives the latest activity of every connection, and the idle
check closes those for which it is too long ago. -/
structure ActivityAgrees (peers : Str → Peer) (table : OpenConnections) (w : World) : Prop where
  reported :
    (getConnectionsStats peers table w).map (fun conn => (conn.connectionID, conn.lastActivity)) =
      table.entries.map fun entry =>
        (entry.2.id, getTimeAsMsSinceEpoch (latestActivity w entry.2))
  closed :
    ∀ idleTimeout now, checkIdleConnections idleTimeout table w now =
        (table.entries.filter fun entry =>
          idleTimeout < now - latestActivity w entry.2).map fun entry =>
            entry.2.id

theorem activity_agrees_iff (peers : Str → Peer) (table : OpenConnections) (w : World) :
    ActivityAgrees peers table w ↔ ∀ entry ∈ table.entries, LastNewerIsLatest w entry.2 := by
  have reported :
      (getConnectionsStats peers table w).map (fun conn => (conn.connectionID, conn.lastActivity)) =
        table.entries.map fun entry =>
          (entry.2.id,
            getTimeAsMsSinceEpoch ((lastNewer w entry.2).getD entry.2.lastActivity)) := by
    rw [getConnectionsStats, List.map_map]
    refine List.map_congr_left fun entry _ => ?_
    obtain ⟨id, last⟩ := connectionStatus_reports (peers entry.2.id) w entry.2
    rw [Function.comp_apply, id, last]
  constructor
  · rintro ⟨agrees, _⟩ entry member
    rw [reported, List.map_inj_left] at agrees
    exact (reports_latest_iff w entry.2).mp (Prod.mk.inj (agrees entry member)).2
  · intro latest
    refine ⟨?_, fun idleTimeout now => checkIdleConnections_eq idleTimeout table w now⟩
    rw [reported]
    refine List.map_congr_left fun entry member => ?_
    rw [(reports_latest_iff w entry.2).mpr (latest entry member)]

/-- Two uploads, the second of which gets its last write before the first. -/
def crossedUploads : List ServerEvent :=
  loggedIn .sftp ++
    [.request 0 sampleOs (.filewrite (putRequest "/f")),
      .request 0 sampleOs (.filewrite (putRequest "/g")), .tick 2000000,
      .writeAt sampleOs 0 1 ['x'] 0, .tick 1000000,
      .writeAt sampleOs 0 0 ['x'] 0]

/-- The second upload is reported: 2 ms, and not the 3 ms of the first. -/
theorem older_upload_reported :
    let s :=
      run (ServerEvent.step defaultSettings fun _ => []) sampleServer crossedUploads
    let peers := fun _ => Peer.mk [] [] 0
    (getConnectionsStats peers s.openConnections s.world).map ConnectionStatus.lastActivity = [2] ∧
      (s.openConnections.entries.map fun entry =>
        getTimeAsMsSinceEpoch (latestActivity s.world entry.2)) = [3] ∧
      ¬ ActivityAgrees peers s.openConnections s.world := by
  refine ⟨by decide +kernel, by decide +kernel, fun agrees => ?_⟩
  have same := agrees.reported
  revert same
  decide +kernel

end Sshserv.Serv
