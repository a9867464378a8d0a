import Sshserv.Lib.Lexical
import Sshserv.Sftp.RequestServer

/-!
# The HDFS handler

`Fileread`, `Filewrite`, `Filecmd` and `Filelist` of `HConnection`, as the
calls they make to the HDFS client.  The handler checks permissions method by
method and joins every path to the home directory.
-/

namespace Sshserv.Hh

open Lib.UnixPath Sftp DataProvider
open Serv (FxCode Request Method FileCall)

def buildPath (user : User) (rawPath : Str) : Str :=
  join user.homeDir rawPath

/-- `wfile` and `rfile` are the paths of the open files. -/
structure HTransfer where
  rfile : Option Str
  wfile : Option Str
  path : Str
  bytesSent : Int
  bytesReceived : Int
  deriving DecidableEq

/-- The calls to the HDFS client. -/
inductive ClientCall where
  | openFile (path : Str)
  | stat (path : Str)
  | remove (path : Str)
  | create (path : Str)
  | rename (oldpath newpath : Str)
  | mkdir (path : Str) (mode : Nat)
  | readDir (path : Str)
  deriving DecidableEq

namespace ClientCall

def paths : ClientCall → List Str
  | openFile path | stat path | remove path | create path | mkdir path _ |
    readDir path => [path]
  | rename oldpath newpath => [oldpath, newpath]

def isMutating : ClientCall → Bool
  | remove _ | create _ | rename _ _ | mkdir _ _ => true
  | openFile _ | stat _ | readDir _ => false

end ClientCall

inductive StatError where
  | notExist
  | other
  deriving DecidableEq

/-- The answers of the client during one request, with `ι` for what it tells
about a file.  An error is its text. -/
structure Client (ι : Type) where
  openFails : Str → Option Str
  stat : Str → Except StatError ι
  removeFails : Str → Option Str
  createFails : Str → Option Str
  renameFails : Str → Str → Option Str
  mkdirFails : Str → Option Str
  readDir : Str → Except Str (List ι)

namespace HConnection

variable {ι : Type} (user : User) (client : Client ι)

def fileread (request : Request) : List ClientCall × Except FxCode HTransfer :=
  if ¬ user.hasPerm permDownload then ([], .error .permissionDenied)
  else
    let p := buildPath user request.filepath
    match client.openFails p with
    | some _ => ([.openFile p], .error .failure)
    | none => ([.openFile p], .ok ⟨some p, none, p, 0, 0⟩)

def create (p : Str) : List ClientCall × Except FxCode HTransfer :=
  match client.createFails p with
  | some _ => ([.create p], .error .failure)
  | none => ([.create p], .ok ⟨none, some p, p, 0, 0⟩)

def filewrite (request : Request) : List ClientCall × Except FxCode HTransfer :=
  if ¬ user.hasPerm permUpload then ([], .error .permissionDenied)
  else
    let p := buildPath user request.filepath
    match client.stat p with
    | .error _ => ([.stat p] ++ (create client p).1, (create client p).2)
    | .ok _ =>
      match client.removeFails p with
      | some _ => ([.stat p, .remove p], .error .failure)
      | none => ([.stat p, .remove p] ++ (create client p).1, (create client p).2)

def getSFTPCmdTargetPath (requestTarget : Str) : Str :=
  if requestTarget ≠ [] then buildPath user requestTarget else []

/-- A command answers with the error of the client, if there is one. -/
def answer : Option Str → Except Str FxCode
  | some err => .error err
  | none => .ok .ok

def filecmd (request : Request) : List ClientCall × Except Str FxCode :=
  let p := buildPath user request.filepath
  let target := getSFTPCmdTargetPath user request.target
  match request.method with
  | .rename =>
    if ¬ user.hasPerm permRename then ([], .ok .permissionDenied)
    else ([.rename p target], answer (client.renameFails p target))
  | .rmdir =>
    if ¬ user.hasPerm permDelete then ([], .ok .permissionDenied)
    else ([.remove p], answer (client.removeFails p))
  | .mkdir =>
    if ¬ user.hasPerm permCreateDirs then ([], .ok .permissionDenied)
    else ([.mkdir p 493], answer (client.mkdirFails p))
  | .remove => ([.remove p], answer (client.removeFails p))
  | _ => ([], .ok .opUnsupported)

def filelist (request : Request) : List ClientCall × Except FxCode (List ι) :=
  let p := buildPath user request.filepath
  match request.method with
  | .list =>
    if ¬ user.hasPerm permListItems then ([], .error .permissionDenied)
    else
      match client.readDir p with
      | .error _ => ([.readDir p], .error .failure)
      | .ok files => ([.readDir p], .ok files)
  | .stat =>
    if ¬ user.hasPerm permListItems then ([], .error .permissionDenied)
    else
      match client.stat p with
      | .error .notExist => ([.stat p], .error .noSuchFile)
      | .error .other => ([.stat p], .error .failure)
      | .ok s => ([.stat p], .ok [s])
  | _ => ([], .error .opUnsupported)

def calls : FileCall → List ClientCall
  | .fileread request => (fileread user client request).1
  | .filewrite request => (filewrite user client request).1
  | .filecmd request => (filecmd user client request).1
  | .filelist request => (filelist user client request).1

end HConnection

open HConnection

section Calls

variable {ι : Type} {user : User} {client : Client ι} {request : Request}
  {c : ClientCall}

theorem mem_fileread (made : c ∈ (HConnection.fileread user client request).1) :
    c = .openFile (buildPath user request.filepath) := by
  simp only [HConnection.fileread] at made
  split at made
  · simp at made
  · split at made
    · exact List.mem_singleton.mp made
    · exact List.mem_singleton.mp made

theorem mem_create {p : Str} (made : c ∈ (HConnection.create client p).1) : c = .create p := by
  unfold HConnection.create at made
  split at made
  · exact List.mem_singleton.mp made
  · exact List.mem_singleton.mp made

theorem mem_filewrite (made : c ∈ (HConnection.filewrite user client request).1) :
    user.hasPerm permUpload = true ∧
      (c = .stat (buildPath user request.filepath) ∨
        c = .remove (buildPath user request.filepath) ∨
        c = .create (buildPath user request.filepath)) := by
  have removing {p : Str} (listed : c ∈ [ClientCall.stat p, .remove p]) :
      c = .stat p ∨ c = .remove p := by
    simpa using listed
  simp only [HConnection.filewrite] at made
  split at made
  · simp at made
  · next allowed =>
      refine ⟨not_not.mp allowed, ?_⟩
      split at made
      · rcases List.mem_append.mp made with first | created
        · exact Or.inl (List.mem_singleton.mp first)
        · exact Or.inr (Or.inr (mem_create created))
      · split at made
        · exact (removing made).imp_right Or.inl
        · rcases List.mem_append.mp made with first | created
          · exact (removing first).imp_right Or.inl
          · exact Or.inr (Or.inr (mem_create created))

theorem filewrite_ok {t : HTransfer}
    (opened : (HConnection.filewrite user client request).2 = .ok t) :
    ∃ front, (HConnection.filewrite user client request).1 =
        front ++ [.create (buildPath user request.filepath)] ∧
      client.createFails (buildPath user request.filepath) = none ∧
      t = ⟨none, some (buildPath user request.filepath),
        buildPath user request.filepath, 0, 0⟩ := by
  have creating {p : Str} (made : (HConnection.create client p).2 = .ok t) :
      (HConnection.create client p).1 = [.create p] ∧ client.createFails p = none ∧
        t = ⟨none, some p, p, 0, 0⟩ := by
    unfold HConnection.create at made ⊢
    split at made
    · cases made
    · next free => exact ⟨rfl, free, (Except.ok.inj made).symm⟩
  unfold HConnection.filewrite at opened ⊢
  split at opened
  · cases opened
  · next allowed =>
      rw [if_neg allowed]
      dsimp only at opened ⊢
      split at opened
      · obtain ⟨calls, rest⟩ := creating opened
        exact ⟨_, by rw [calls], rest⟩
      · split at opened
        · cases opened
        · obtain ⟨calls, rest⟩ := creating opened
          exact ⟨_, by rw [calls], rest⟩

theorem mem_filelist (made : c ∈ (HConnection.filelist user client request).1) :
    c = .readDir (buildPath user request.filepath) ∨
      c = .stat (buildPath user request.filepath) := by
  simp only [HConnection.filelist] at made
  split at made
  · split at made
    · simp at made
    · split at made
      · exact Or.inl (List.mem_singleton.mp made)
      · exact Or.inl (List.mem_singleton.mp made)
  · split at made
    · simp at made
    · split at made
      · exact Or.inr (List.mem_singleton.mp made)
      · exact Or.inr (List.mem_singleton.mp made)
      · exact Or.inr (List.mem_singleton.mp made)
  · simp at made

end Calls

/-- None of the permissions under which HDFS may be modified. -/
structure MayNotModify (user : User) : Prop where
  any : permAny ∉ user.permissions
  upload : permUpload ∉ user.permissions
  delete : permDelete ∉ user.permissions
  rename : permRename ∉ user.permissions
  createDirs : permCreateDirs ∉ user.permissions

theorem mayNotModify_iff (user : User) :
    MayNotModify user ↔
      ∀ permission ∈ [permUpload, permDelete, permRename, permCreateDirs],
        ¬ user.hasPerm permission = true := by
  simp only [User.hasPerm_iff, not_or, List.forall_mem_cons,
    List.not_mem_nil, false_implies, implies_true, and_true]
  constructor
  · intro denied
    exact ⟨⟨denied.any, denied.upload⟩, ⟨denied.any, denied.delete⟩,
      ⟨denied.any, denied.rename⟩, ⟨denied.any, denied.createDirs⟩⟩
  · intro asked
    exact ⟨asked.1.1, asked.1.2, asked.2.1.2, asked.2.2.1.2, asked.2.2.2.2⟩

instance (user : User) : Decidable (MayNotModify user) :=
  decidable_of_iff
    (∀ permission ∈ [permUpload, permDelete, permRename, permCreateDirs],
      ¬ user.hasPerm permission = true)
    (mayNotModify_iff user).symm

/-- A `Filecmd` request with method `Remove`. -/
def isRemove : FileCall → Bool
  | .filecmd request => request.method = .remove
  | .fileread _ | .filewrite _ | .filelist _ => false

section ReadOnly

variable {ι : Type} {user : User} {client : Client ι}

theorem MayNotModify.hasPerm_eq_false (denied : MayNotModify user)
    {permission : Str} (missing : permission ∉ user.permissions) :
    user.hasPerm permission = false := by
  rw [Bool.eq_false_iff, Ne, User.hasPerm_iff]
  exact not_or.mpr ⟨denied.any, missing⟩

/-- `Remove` is the only method that asks for no permission. -/
theorem filecmd_not_mutating_iff (denied : MayNotModify user) (request : Request) :
    (∀ c ∈ (HConnection.filecmd user client request).1,
        c.isMutating = false) ↔ request.method ≠ .remove := by
  have rename := denied.hasPerm_eq_false denied.rename
  have delete := denied.hasPerm_eq_false denied.delete
  have createDirs := denied.hasPerm_eq_false denied.createDirs
  unfold HConnection.filecmd
  cases method : request.method <;> simp [rename, delete, createDirs, ClientCall.isMutating]

theorem calls_not_mutating_iff (denied : MayNotModify user) (call : FileCall) :
    (∀ c ∈ HConnection.calls user client call, c.isMutating = false) ↔ isRemove call = false := by
  cases call with
  | fileread request =>
    refine iff_of_true (fun c made => ?_) rfl
    rw [mem_fileread made]
    rfl
  | filewrite request =>
    refine iff_of_true (fun c made => ?_) rfl
    have upload := denied.hasPerm_eq_false denied.upload
    rw [(mem_filewrite made).1] at upload
    contradiction
  | filecmd request =>
    rw [HConnection.calls, filecmd_not_mutating_iff denied, isRemove, decide_eq_false_iff_not]
  | filelist request =>
    refine iff_of_true (fun c made => ?_) rfl
    rcases mem_filelist made with rfl | rfl
    · rfl
    · rfl

end ReadOnly

/-- A user without a permission to modify HDFS leaves it alone, over any
sequence of requests, exactly when none of them is a `Remove`. -/
theorem hdfs_unmodified_iff {ι : Type} (user : User)
    (denied : MayNotModify user) (requests : List (Client ι × FileCall)) :
    (∀ c ∈ requests.flatMap fun request =>
          HConnection.calls user request.1 request.2,
        c.isMutating = false) ↔
      ∀ request ∈ requests, isRemove request.2 = false := by
  rw [List.forall_mem_flatMap]
  exact forall₂_congr fun request _ => calls_not_mutating_iff denied request.2

/-! ### Samples -/

def obedient : Client Unit where
  openFails := fun _ => none
  stat := fun _ => .ok ()
  removeFails := fun _ => none
  createFails := fun _ => none
  renameFails := fun _ _ => none
  mkdirFails := fun _ => none
  readDir := fun _ => .ok []

def sampleUser : User :=
  { User.zero with
    username := "u".toList
    homeDir := "/srv/u".toList
    permissions := [permAny] }

/-- A user of `/srv/u` who may list and download. -/
def reader : User :=
  { sampleUser with permissions := [permListItems, permDownload] }

def requestFor (method : Method) : Request :=
  newRequest method "/f".toList

theorem reader_leaves_hdfs :
    MayNotModify reader ∧
      ∀ c ∈ [(obedient, FileCall.fileread (requestFor (.other []))),
          (obedient, .filecmd (requestFor .rmdir)),
          (obedient, .filelist (requestFor .stat))].flatMap
            fun request => HConnection.calls reader request.1 request.2,
        c.isMutating = false :=
  ⟨by decide, (hdfs_unmodified_iff reader (by decide) _).mpr (by decide)⟩

/-- The same user removes a file. -/
theorem reader_removes_file :
    MayNotModify reader ∧
      HConnection.calls reader obedient (.filecmd (requestFor .remove)) =
        [.remove "/srv/u/f".toList] ∧
      ¬ ∀ c ∈ HConnection.calls reader obedient
          (.filecmd (requestFor .remove)), c.isMutating = false := by
  decide

def packetCalls {ι : Type} (user : User) (client : Client ι)
    (openRequests : Str → Option Request) (packet : RequestPacket) :
    List ClientCall :=
  match deliver openRequests packet with
  | none => []
  | some call => HConnection.calls user client call

/-- Every path that is passed is the home directory or below it. -/
def Confined (user : User) (calls : List ClientCall) : Prop :=
  ∀ c ∈ calls, ∀ path ∈ c.paths, Below user.homeDir path

section Confinement

variable {ι : Type} {user : User} {client : Client ι}

theorem below_buildPath (nonempty : user.homeDir ≠ []) {path : Str}
    (cleaned : Cleaned path) : Below user.homeDir (buildPath user path) := by
  obtain ⟨names, rfl, proper⟩ := cleaned
  exact below_join_render nonempty proper

theorem filecmd_rename {request : Request} (method : request.method = .rename)
    (allowed : user.hasPerm permRename) :
    (HConnection.filecmd user client request).1 =
      [.rename (buildPath user request.filepath) (getSFTPCmdTargetPath user request.target)] := by
  simp [HConnection.filecmd, method, allowed]

theorem mem_filecmd {request : Request} {c : ClientCall} (other : request.method ≠ .rename)
    (made : c ∈ (HConnection.filecmd user client request).1) :
    c.paths = [buildPath user request.filepath] := by
  simp only [HConnection.filecmd] at made
  split at made
  · next rename => exact absurd rename other
  · split at made
    · simp at made
    · rw [List.mem_singleton.mp made]
      rfl
  · split at made
    · simp at made
    · rw [List.mem_singleton.mp made]
      rfl
  · rw [List.mem_singleton.mp made]
    rfl
  · simp at made

theorem confined_filecmd (nonempty : user.homeDir ≠ []) {request : Request}
    (clean : CleanRequest request) :
    Confined user (HConnection.filecmd user client request).1 := by
  have own := below_buildPath nonempty clean.filepath
  by_cases method : request.method = .rename
  · by_cases allowed : user.hasPerm permRename = true
    · have cleaned := clean.target method
      have target := below_buildPath nonempty cleaned
      rw [filecmd_rename method allowed, getSFTPCmdTargetPath, if_pos cleaned.ne_nil]
      simpa [Confined, ClientCall.paths] using ⟨own, target⟩
    · simp [Confined, HConnection.filecmd, method, allowed]
  · intro c made path passed
    rw [mem_filecmd method made, List.mem_singleton] at passed
    rwa [passed]

theorem confined_calls (nonempty : user.homeDir ≠ []) {call : FileCall}
    (clean : CleanRequest (requestOf call)) :
    Confined user (HConnection.calls user client call) := by
  have own := below_buildPath nonempty clean.filepath
  have single {c : ClientCall}
      (paths : c.paths = [buildPath user (requestOf call).filepath]) :
      ∀ path ∈ c.paths, Below user.homeDir path := by
    intro path passed
    rw [paths, List.mem_singleton] at passed
    rwa [passed]
  cases call with
  | fileread request =>
    intro c made
    exact single (congrArg ClientCall.paths (mem_fileread made))
  | filewrite request =>
    intro c made
    rcases (mem_filewrite made).2 with rfl | rfl | rfl
    · exact single rfl
    · exact single rfl
    · exact single rfl
  | filecmd request => exact confined_filecmd nonempty clean
  | filelist request =>
    intro c made
    rcases mem_filelist made with rfl | rfl
    · exact single rfl
    · exact single rfl

theorem confined_posixRename_iff (nonempty : user.homeDir ≠ [])
    (openRequests : Str → Option Request) (oldpath newpath : Str)
    (allowed : user.hasPerm permRename) :
    Confined user (packetCalls user client openRequests (.posixRename oldpath newpath)) ↔
      newpath ≠ [] ∧ LeadsBelow user.homeDir newpath := by
  have own := below_buildPath nonempty (cleaned_cleanPath oldpath)
  have calls :
      packetCalls user client openRequests (.posixRename oldpath newpath) =
        [.rename (buildPath user (cleanPath oldpath)) (getSFTPCmdTargetPath user newpath)] :=
    filecmd_rename rfl allowed
  rw [calls]
  by_cases empty : newpath = []
  · subst empty
    refine iff_of_false (fun confined => ?_) (by simp)
    have target := confined _ (List.mem_singleton_self _) []
      (by simp [ClientCall.paths, getSFTPCmdTargetPath])
    exact target.1 rfl
  · rw [and_iff_right empty, ← below_join_iff nonempty, getSFTPCmdTargetPath, if_pos empty]
    have own : Below user.homeDir (join user.homeDir (cleanPath oldpath)) := own
    simp [Confined, ClientCall.paths, own, buildPath]

end Confinement

/-- A packet passes no path out of the home directory exactly when it is no
`posix-rename` of a user who may rename with a new path that is empty or leads
out of the home directory. -/
theorem hdfs_confined_iff {ι : Type} (user : User) (nonempty : user.homeDir ≠ [])
    (client : Client ι) (openRequests : Str → Option Request) (packet : RequestPacket) :
    Confined user (packetCalls user client openRequests packet) ↔
      ∀ oldpath newpath, packet = .posixRename oldpath newpath →
        user.hasPerm permRename = true → newpath ≠ [] ∧ LeadsBelow user.homeDir newpath := by
  by_cases posix : ∃ oldpath newpath, packet = .posixRename oldpath newpath
  · obtain ⟨oldpath, newpath, rfl⟩ := posix
    by_cases allowed : user.hasPerm permRename = true
    · rw [confined_posixRename_iff nonempty openRequests oldpath newpath allowed]
      simp [allowed]
    · refine iff_of_true ?_ fun _ _ _ may => absurd may allowed
      simp [Confined, packetCalls, deliver, HConnection.calls,
        HConnection.filecmd, newRequest, allowed]
  · have other : ∀ oldpath newpath, packet ≠ .posixRename oldpath newpath :=
      fun oldpath newpath same => posix ⟨oldpath, newpath, same⟩
    refine iff_of_true ?_ fun oldpath newpath same =>
      absurd same (other oldpath newpath)
    unfold packetCalls
    split
    · simp [Confined]
    · next delivered =>
        exact confined_calls nonempty (deliver_clean delivered other)

theorem plain_rename_confined :
    Confined sampleUser
      (packetCalls sampleUser obedient (fun _ => none)
        (.rename "a/../../b".toList "../../x".toList)) :=
  (hdfs_confined_iff sampleUser (by decide) obedient (fun _ => none)
    (.rename "a/../../b".toList "../../x".toList)).mpr (by simp)

/-- `/srv/u/f` is renamed to `/srv/x`. -/
theorem posix_rename_escapes :
    packetCalls sampleUser obedient (fun _ => none) (.posixRename "/f".toList "../x".toList) =
      [.rename "/srv/u/f".toList "/srv/x".toList] ∧
    ¬ Confined sampleUser
      (packetCalls sampleUser obedient (fun _ => none)
        (.posixRename "/f".toList "../x".toList)) := by
  refine ⟨by decide, fun confined => ?_⟩
  have target := confined (.rename "/srv/u/f".toList "/srv/x".toList)
    (by decide) "/srv/x".toList (by decide)
  exact absurd target (by decide)

end Sshserv.Hh
