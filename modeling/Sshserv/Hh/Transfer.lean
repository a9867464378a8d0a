import Sshserv.Hh.Handler
import Sshserv.Lib.Words
import Sshserv.Sftp.PacketManager

/-!
# Uploads to HDFS

`HTransfer.WriteAt` appends whatever the offset says, while the packet manager
executes write packets in more orders than one.  `hdfs_upload_exact_iff` says
for which contents this goes well.
-/

namespace Sshserv.Hh

open Lib UnixPath Words Sftp
open DataProvider Sftp.PacketManager
open Serv (FxCode Request)

abbrev Files := Str → Option (List Char)

/-- `FileWriter.Write`: what is passed is appended to the file. -/
def Files.append (files : Files) (path : Str) (p : List Char) : Files :=
  Function.update files path ((files path).map (· ++ p))

/-- The calls of the HDFS client that fail during one request. -/
structure Hdfs where
  removeFails : Bool
  createFails : Bool
  deriving DecidableEq

/-- `HTransfer.WriteAt`: the count and the error come last.  The offset is not
used. -/
def HTransfer.writeAt (t : HTransfer) (files : Files) (p : List Char) (_off : Int) :
    HTransfer × Files × Int × Option Str :=
  match t.wfile with
  | some path =>
    ({ t with bytesReceived := t.bytesReceived + p.length }, files.append path p, p.length, none)
  | none => (t, files, -1, some "file not open".toList)

/-- The client that a request finds when these files are there. -/
def Hdfs.client (hdfs : Hdfs) (files : Files) : Client Unit where
  openFails := fun _ => none
  stat := fun p => if (files p).isSome then .ok () else .error .notExist
  removeFails := fun _ => if hdfs.removeFails then some [] else none
  createFails := fun _ => if hdfs.createFails then some [] else none
  renameFails := fun _ _ => none
  mkdirFails := fun _ => none
  readDir := fun _ => .ok []

/-- What the calls of `Filewrite` do to the files. -/
def ClientCall.onFiles (hdfs : Hdfs) (files : Files) : ClientCall → Files
  | .remove p => if hdfs.removeFails then files else Function.update files p none
  | .create p => if hdfs.createFails then files else Function.update files p (some [])
  | .openFile _ | .stat _ | .rename _ _ | .mkdir _ _ | .readDir _ => files

inductive Packet where
  | write (handle : Str) (off : Int) (data : List Char)
  | close (handle : Str)
  deriving DecidableEq

namespace Packet

def kind : Packet → Kind
  | write _ _ _ => .readWrite
  | close _ => .close

def data : Packet → List Char
  | write _ _ data => data
  | close _ => []

end Packet

/-- The open requests of a session, by handle, and the files. -/
structure Session where
  handleCount : Nat
  openRequests : Str → Option HTransfer
  files : Files

namespace Session

/-- `packetWorker` for an open packet: the request is registered under the
next handle and taken out again if the file cannot be opened. -/
def openWrite (s : Session) (user : User) (hdfs : Hdfs) (request : Request) :
    Session × Except FxCode Str :=
  let handle := (toString (s.handleCount + 1)).toList
  let (calls, opened) := HConnection.filewrite user (hdfs.client s.files) request
  let files := calls.foldl (ClientCall.onFiles hdfs) s.files
  match opened with
  | .ok t =>
    (⟨s.handleCount + 1, Function.update s.openRequests handle (some t), files⟩, .ok handle)
  | .error code =>
    (⟨s.handleCount + 1, Function.update s.openRequests handle none, files⟩, .error code)

/-- `packetWorker` for a packet with a handle: a write goes through `fileput`,
a close through `closeRequest`.  An unknown handle is answered with an
error. -/
def exec (s : Session) : Packet → Session
  | .write handle off data =>
    match s.openRequests handle with
    | none => s
    | some t =>
      { s with
        openRequests :=
          Function.update s.openRequests handle (some (t.writeAt s.files data off).1)
        files := (t.writeAt s.files data off).2.1 }
  | .close handle => { s with openRequests := Function.update s.openRequests handle none }

end Session

/-- The session knows the handle as an upload to `path`, and `path` holds
`content`. -/
def Uploading (handle path : Str) (content : List Char) (s : Session) : Prop :=
  (∃ t, s.openRequests handle = some t ∧ t.wfile = some path) ∧ s.files path = some content

theorem uploading_openWrite {s next : Session} {user : User} {hdfs : Hdfs} {request : Request}
    {handle : Str} (accepted : s.openWrite user hdfs request = (next, .ok handle)) :
    Uploading handle (buildPath user request.filepath) [] next := by
  simp only [Session.openWrite] at accepted
  split at accepted
  · next t opened =>
      obtain ⟨front, calls, free, rfl⟩ := filewrite_ok opened
      have creates : hdfs.createFails ≠ true := by
        intro fails
        simp [Hdfs.client, fails] at free
      cases accepted
      refine ⟨⟨_, Function.update_self .., rfl⟩, ?_⟩
      rw [calls, List.foldl_append]
      simp [ClientCall.onFiles, creates]
  · cases accepted

theorem Uploading.write {handle path : Str} {content : List Char} {s : Session}
    (uploading : Uploading handle path content s) (off : Int) (data : List Char) :
    Uploading handle path (content ++ data) (s.exec (.write handle off data)) := by
  obtain ⟨⟨t, request, writer⟩, held⟩ := uploading
  simp only [Session.exec, request, HTransfer.writeAt, writer]
  refine ⟨⟨_, Function.update_self .., rfl⟩, ?_⟩
  simp [Files.append, held]

/-- Write packets for one handle append their data in the order of their
execution. -/
theorem Uploading.writes {handle path : Str} {s : Session} {order : List Packet}
    (own : ∀ pkt ∈ order, ∃ off data, pkt = .write handle off data) :
    ∀ {content : List Char}, Uploading handle path content s →
      Uploading handle path (content ++ (order.map Packet.data).flatten)
        (order.foldl Session.exec s) := by
  induction order generalizing s with
  | nil =>
    intro content uploading
    simpa using uploading
  | cons pkt rest ih =>
    intro content uploading
    obtain ⟨off, data, rfl⟩ := own pkt List.mem_cons_self
    have later :=
      ih (fun other member => own other (List.mem_cons_of_mem _ member)) (uploading.write off data)
    simpa [Packet.data] using later

/-- The content of a file in packets, each with its own offset. -/
def packetsFrom (handle : Str) : Nat → List (List Char) → List Packet
  | _, [] => []
  | off, data :: rest => .write handle off data :: packetsFrom handle (off + data.length) rest

section Packets

variable (handle : Str) (chunks : List (List Char)) (off : Nat)

theorem map_data_packetsFrom : (packetsFrom handle off chunks).map Packet.data = chunks := by
  induction chunks generalizing off with
  | nil => rfl
  | cons data rest ih => simp [packetsFrom, Packet.data, ih]

theorem packetsFrom_own :
    ∀ pkt ∈ packetsFrom handle off chunks, ∃ position data, pkt = .write handle position data := by
  induction chunks generalizing off with
  | nil => simp [packetsFrom]
  | cons data rest ih =>
    intro pkt member
    rcases List.mem_cons.mp member with rfl | later
    · exact ⟨_, _, rfl⟩
    · exact ih _ pkt later

end Packets

/-- However the packets are scheduled, the file holds the content when they
have all been executed and the file is closed. -/
def UploadExact (session : Session) (handle path : Str)
    (arrival : List Packet) (content : List Char) : Prop :=
  ∀ s, Reaches Packet.kind Session.exec (start (arrival ++ [.close handle]) session) s →
      s.Finished → s.session.files path = some content

section Schedules

variable {session : Session} {handle path : Str} {arrival : List Packet}

theorem files_of_order (uploading : Uploading handle path [] session) {order : List Packet}
    (own : ∀ pkt ∈ order, ∃ off data, pkt = .write handle off data) :
    ((order.foldl Session.exec session).exec (.close handle)).files path =
      some (order.map Packet.data).flatten := by
  have written := (Uploading.writes own uploading).2
  simpa [Session.exec] using written

private theorem kind_of_own (own : ∀ pkt ∈ arrival, ∃ off data, pkt = .write handle off data) :
    ∀ pkt ∈ arrival, pkt.kind = .readWrite := by
  intro pkt member
  obtain ⟨off, data, rfl⟩ := own pkt member
  rfl

theorem uploadExact_of_pairwise (uploading : Uploading handle path [] session)
    (own : ∀ pkt ∈ arrival, ∃ off data, pkt = .write handle off data)
    (commute : (arrival.map Packet.data).Pairwise CommuteWords) :
    UploadExact session handle path arrival (arrival.map Packet.data).flatten := by
  intro s run finished
  obtain ⟨order, perm, result⟩ := finished_order (kind_of_own own) rfl run finished
  have ownOrder : ∀ pkt ∈ order, ∃ off data, pkt = .write handle off data :=
    fun pkt member => own pkt (perm.subset member)
  have sameContent := flatten_eq_of_perm (perm.symm.map Packet.data) commute
  rw [result, files_of_order uploading ownOrder, sameContent]

/-- A schedule that postpones one packet leaves its data behind those that
overtook it. -/
theorem files_of_postponed (uploading : Uploading handle path [] session)
    {before between after : List Packet} {pkt : Packet} (own :
      ∀ other ∈ before ++ pkt :: between ++ after, ∃ off data, other = .write handle off data) :
    ∃ s, Reaches Packet.kind Session.exec
          (start (before ++ pkt :: between ++ after ++ [.close handle]) session) s ∧
        s.Finished ∧
        s.session.files path = some ((before ++ between ++ pkt :: after).map Packet.data).flatten
        := by
  have closes : (Packet.close handle).kind = .close := rfl
  obtain ⟨s, run, finished, result⟩ :=
    reaches_postponed Session.exec (kind_of_own own) closes session
  have ownOrder :
      ∀ other ∈ before ++ between ++ pkt :: after, ∃ off data, other = .write handle off data := by
    intro other member
    apply own
    simp only [List.mem_append, List.mem_cons] at member ⊢
    tauto
  refine ⟨s, run, finished, ?_⟩
  rw [result, files_of_order uploading ownOrder]

theorem pairwise_of_uploadExact (uploading : Uploading handle path [] session)
    (own : ∀ pkt ∈ arrival, ∃ off data, pkt = .write handle off data) {content : List Char}
    (always : UploadExact session handle path arrival content) :
    (arrival.map Packet.data).Pairwise CommuteWords := by
  have same :
      ∀ before word between after, arrival.map Packet.data = before ++ word :: between ++ after →
          (before ++ between ++ word :: after).flatten = content := by
    intro before word between after cut
    obtain ⟨front, back, rfl, frontData, rfl⟩ := List.map_eq_append_iff.mp cut
    obtain ⟨early, late, rfl, rfl, lateData⟩ := List.map_eq_append_iff.mp frontData
    obtain ⟨pkt, middle, rfl, rfl, rfl⟩ := List.map_eq_cons_iff.mp lateData
    obtain ⟨s, run, finished, result⟩ := files_of_postponed uploading own
    have content := always s run finished
    rw [result, Option.some.injEq] at content
    simpa using content
  exact pairwise_of_postponed same

end Schedules

/-- The packets of an upload, in whatever order the client sends them, give
the content of the file under every schedule exactly when the data of every
two of them commute. -/
theorem hdfs_upload_exact_iff (session next : Session) (user : User) (hdfs : Hdfs)
    (request : Request) (handle : Str)
    (accepted : session.openWrite user hdfs request = (next, .ok handle))
    (chunks : List (List Char)) (arrival : List Packet)
    (sent : arrival.Perm (packetsFrom handle 0 chunks)) :
    UploadExact next handle (buildPath user request.filepath) arrival chunks.flatten ↔
      chunks.Pairwise CommuteWords := by
  have uploading := uploading_openWrite accepted
  have own : ∀ pkt ∈ arrival, ∃ off data, pkt = .write handle off data :=
    fun pkt member => packetsFrom_own handle chunks 0 pkt (sent.subset member)
  have data : (arrival.map Packet.data).Perm chunks := by
    have mapped := sent.map Packet.data
    rwa [map_data_packetsFrom] at mapped
  have pairwise : (arrival.map Packet.data).Pairwise CommuteWords ↔ chunks.Pairwise CommuteWords :=
    data.pairwise_iff Eq.symm
  constructor
  · intro always
    exact pairwise.mp (pairwise_of_uploadExact uploading own always)
  · intro commute
    have inOrder := pairwise.mpr commute
    have whole := flatten_eq_of_perm data inOrder
    rw [← whole]
    exact uploadExact_of_pairwise uploading own inOrder

def sampleRequest : Request :=
  requestFor (.other "Put".toList)

def sampleSession : Session :=
  ⟨0, fun _ => none, fun _ => none⟩

theorem uniform_upload_exact :
    UploadExact (sampleSession.openWrite sampleUser ⟨false, false⟩ sampleRequest).1
      "1".toList "/srv/u/f".toList
      (packetsFrom "1".toList 0 ["aa".toList, "a".toList]) "aaa".toList :=
  (hdfs_upload_exact_iff sampleSession _ sampleUser ⟨false, false⟩
    sampleRequest "1".toList rfl ["aa".toList, "a".toList] _
    (List.Perm.refl _)).mpr (by decide)

/-- The second of two packets overtakes the first: "ab" becomes "ba". -/
theorem overtaken_upload_scrambled :
    ¬ UploadExact (sampleSession.openWrite sampleUser ⟨false, false⟩ sampleRequest).1
      "1".toList "/srv/u/f".toList
      (packetsFrom "1".toList 0 ["a".toList, "b".toList]) "ab".toList := by
  intro always
  have accepted :
      sampleSession.openWrite sampleUser ⟨false, false⟩ sampleRequest =
        ((sampleSession.openWrite sampleUser ⟨false, false⟩ sampleRequest).1, .ok "1".toList) :=
    rfl
  have uploading :
      Uploading "1".toList "/srv/u/f".toList []
        (sampleSession.openWrite sampleUser ⟨false, false⟩ sampleRequest).1 :=
    uploading_openWrite accepted
  have own :
      ∀ other ∈ [] ++ Packet.write "1".toList 0 "a".toList ::
          [Packet.write "1".toList 1 "b".toList] ++ [],
        ∃ off data, other = .write "1".toList off data :=
    packetsFrom_own "1".toList ["a".toList, "b".toList] 0
  obtain ⟨s, run, finished, result⟩ := files_of_postponed uploading own
  have content := always s run finished
  rw [result] at content
  exact absurd content (by decide)

end Sshserv.Hh
