import Sshserv.Lib.Runs
import Sshserv.Serv.OpenUpload
import Sshserv.Serv.ScpUpload

/-!
# Runs of uploads

The uploads of all sessions as one machine, with what each client has sent and
what every path led to when its upload was opened.  `UploadsAtomic` fails when
an existing file is replaced, because it is moved away first, and when an
upload is broken off, because `Transfer.Close` renames what there is.
-/

namespace Sshserv.Serv

open Lib UnixPath FileTree FileSys Runs
open DataProvider

/-- An upload with what its client has sent.  It is not intact once a write
has failed. -/
structure Upload where
  path : Str
  content : List Char
  intact : Bool
  done : Bool
  deriving DecidableEq

/-- A requested path, what it led to when the upload was opened, and how many
trees there had been by then. -/
structure Requested where
  path : Str
  baseline : Option View
  mark : Nat
  deriving DecidableEq

structure UploadRun where
  world : World
  uploads : Nat → Option Upload
  requested : List Requested
  finished : List (List Char)

inductive UploadEvent where
  | sftpOpen (c : Connection) (os : Os) (request : Request)
  | scpOpen (c : Connection) (os : Os) (rawPath : Str)
  | writeAt (os : Os) (index ref : Nat) (bytes : List Char) (off : Int)
  /-- The client closes the file. -/
  | finish (os : Os) (ref : Nat)
  /-- The file is closed for any other reason. -/
  | abort (os : Os) (ref : Nat)

namespace UploadRun

def start (fs : FileSys) (quota : Str → Option (Int × Int)) : UploadRun :=
  ⟨World.start fs quota, fun _ => none, [], []⟩

def paths (s : UploadRun) : List Str :=
  s.requested.map Requested.path

def opened (s : UploadRun) : World × Option Nat → UploadRun
  | (w, none) => { s with world := w }
  | (w, some ref) =>
    match w.transfers ref with
    | none => { s with world := w }
    | some t =>
      { s with
        world := w
        uploads := Function.update s.uploads ref (some ⟨t.path, [], true, false⟩)
        requested := ⟨t.path, s.world.fs.look t.path, s.world.moments.length⟩ :: s.requested }

/-- Record a write; the error, if any, is what `WriteAt` returned. -/
def sent (up : Upload) (bytes : List Char) (off : Int) : Option Errno → Upload
  | none => { up with content := writeBytes up.content off.toNat bytes }
  | some _ => { up with intact := false }

/-- Close an upload; `extra` is what the client finished with it. -/
def closed (s : UploadRun) (settings : Settings) (os : Os) (ref : Nat)
    (up : Upload) (extra : List (List Char)) : UploadRun :=
  { s with
    world := (Transfer.close settings os s.world ref).1
    uploads := Function.update s.uploads ref (some { up with done := true })
    finished := extra ++ s.finished }

/-- One event.  A file that has been closed is no longer known to the
server. -/
def step (settings : Settings) (s : UploadRun) : UploadEvent → UploadRun
  | .sftpOpen c os request => s.opened (numbered (c.filewrite settings os s.world request))
  | .scpOpen c os rawPath => s.opened (c.scpOpen settings os s.world rawPath)
  | .writeAt os index ref bytes off =>
    match s.uploads ref with
    | none => s
    | some up =>
      if up.done then s
      else
        { s with
          world := (Transfer.writeAt os index s.world ref bytes off).1
          uploads := Function.update s.uploads ref
            (some (sent up bytes off (Transfer.writeAt os index s.world ref bytes off).2.2)) }
  | .finish os ref =>
    match s.uploads ref with
    | none => s
    | some up =>
      if up.done then s
      else
        s.closed settings os ref up (if up.intact then [up.content] else [])
  | .abort os ref =>
    match s.uploads ref with
    | none => s
    | some up => if up.done then s else s.closed settings os ref up []

end UploadRun

def treesSince (mark : Nat) (moments : List FileSys) : List FileSys :=
  moments.take (moments.length - mark)

/-- In every tree since the upload was opened, the path leads to what it led
to then, or to the complete content of a finished upload. -/
def AtomicSince (requested : List Requested) (finished : List (List Char))
    (moments : List FileSys) : Prop :=
  ∀ r ∈ requested, ∀ fs ∈ treesSince r.mark moments,
    fs.look r.path = r.baseline ∨ ∃ content ∈ finished, fs.look r.path = some (.file content)

def UploadsAtomic (s : UploadRun) : Prop :=
  AtomicSince s.requested s.finished s.world.moments

def UploadEvent.Rooted : UploadEvent → Prop
  | .sftpOpen c _ _ => isAbs c.user.homeDir = true
  | .scpOpen c _ _ => isAbs c.user.homeDir = true
  | _ => True

/-- An event that neither moves an existing file away nor breaks off an
upload, and whose new names are not in use. -/
def UploadCondition (settings : Settings) (s : UploadRun) : UploadEvent → Prop
  | .sftpOpen c os request =>
    c.user.hasPerm permUpload = true →
      ∀ p, c.buildPath s.world.fs request.filepath = .ok p →
        match s.world.fs.stat p with
        | .ok info =>
          info.isDir = true ∨
            c.hasSpace settings os s.world false = false ∨
            (getOSOpenFlags request.pflags).trunc = false
        | .error _ => GuidFresh os s.world.fs s.paths p ∧ DirsFree s.world.fs s.paths p
  | .scpOpen c os rawPath =>
    c.user.hasPerm permUpload = true →
      ∀ p, c.buildPath s.world.fs rawPath = .ok p →
        match s.world.fs.stat p with
        | .ok info => info.isDir = true
        | .error _ => GuidFresh os s.world.fs s.paths p
  | .writeAt _ _ _ _ _ => True
  | .finish _ ref => ∀ up, s.uploads ref = some up → up.done = false → up.intact = true
  | .abort _ ref => ∀ up, s.uploads ref = some up → up.done = true

section Opens

variable {requested : List Str} {finished : List (List Char)} {pending : Nat → Option Pending}
    {c : Connection} {settings : Settings} {os : Os} {s : UploadRun}

theorem filewrite_ok (atomic : settings.Atomic) (rooted : isAbs c.user.homeDir) {request : Request}
    (ok : TreeOk s.paths s.finished pending s.world.fs)
    (condition : UploadCondition settings s (.sftpOpen c os request)) :
    OpenOk s.paths s.finished pending s.world
      (numbered (c.filewrite settings os s.world request)) := by
  rcases filewrite_ends request with same | ⟨allowed, p, accepted, steps⟩
  · rw [same]
    exact openOk_idle ok
  · have met := condition allowed p accepted
    obtain ⟨comps, proper, path⟩ := accepted_eq_render rooted accepted
    refine steps.ok atomic ok path proper ?_ ?_
    · intro missing
      simp only [missing] at met
      exact ⟨met.1, fun _ => met.2⟩
    · intro info moved old
      simp only [old.found, old.regular, Bool.false_eq_true, false_or] at met
      refine ⟨_, rfl, fun space => ?_⟩
      exact met.resolve_left (by simp [space])

theorem scpOpen_ok (atomic : settings.Atomic) (rooted : isAbs c.user.homeDir) {rawPath : Str}
    (ok : TreeOk s.paths s.finished pending s.world.fs)
    (condition : UploadCondition settings s (.scpOpen c os rawPath)) :
    OpenOk s.paths s.finished pending s.world (c.scpOpen settings os s.world rawPath) := by
  rcases scpOpen_ends rawPath with same | ⟨allowed, p, accepted, steps⟩
  · rw [same]
    exact openOk_idle ok
  · have met := condition allowed p accepted
    obtain ⟨comps, proper, path⟩ := accepted_eq_render rooted accepted
    refine steps.ok atomic ok path proper ?_ ?_
    · intro missing
      simp only [missing] at met
      exact ⟨met, by simp⟩
    · intro info moved old
      simp only [old.found, old.regular, Bool.false_eq_true] at met

end Opens

section Trees

variable {requested : List Requested} {finished : List (List Char)} {new moments : List FileSys}

theorem treesSince_append {mark : Nat} (bound : mark ≤ moments.length) :
    treesSince mark (new ++ moments) = new ++ treesSince mark moments := by
  have count : (new ++ moments).length - mark = new.length + (moments.length - mark) := by
    rw [List.length_append]
    omega
  rw [treesSince, count, List.take_length_add_append, treesSince]

theorem AtomicSince.append (old : AtomicSince requested finished moments)
    (marks : ∀ r ∈ requested, r.mark ≤ moments.length) (extra : List (List Char)) (good :
      ∀ fs ∈ new, ∀ r ∈ requested, fs.look r.path = r.baseline ∨
          ∃ content ∈ extra ++ finished, fs.look r.path = some (.file content)) :
    AtomicSince requested (extra ++ finished) (new ++ moments) := by
  intro r member fs within
  rw [treesSince_append (marks r member)] at within
  rcases List.mem_append.mp within with isNew | isOld
  · exact good fs isNew r member
  · rcases old r member fs isOld with same | ⟨content, done, seen⟩
    · exact Or.inl same
    · exact Or.inr ⟨content, List.mem_append_right extra done, seen⟩

end Trees

/-- What holds throughout a run: the requested paths led nowhere when they
were opened, and every open upload is stored in the tree. -/
structure RunOk (s : UploadRun) (pending : Nat → Option Pending) : Prop where
  tree : TreeOk s.paths s.finished pending s.world.fs
  atomic : UploadsAtomic s
  marks : ∀ r ∈ s.requested, r.baseline = none ∧ r.mark ≤ s.world.moments.length
  linked :
    ∀ ref up, s.uploads ref = some up → up.done = false →
      ∃ u t, pending ref = some u ∧ s.world.transfers ref = some t ∧
        t.transferType = .upload ∧ t.path = u.path ∧ t.file = u.handle ∧
        (up.intact = true → up.content = u.content)
  unborn : ∀ ref, s.world.nextTransfer ≤ ref → pending ref = none ∧ s.uploads ref = none

theorem runOk_start (fs : FileSys) (quota : Str → Option (Int × Int)) :
    RunOk (UploadRun.start fs quota) fun _ => none where
  tree := treeOk_start fs
  atomic := by simp [UploadsAtomic, AtomicSince, UploadRun.start]
  marks := by simp [UploadRun.start]
  linked := by simp [UploadRun.start]
  unborn := by simp [UploadRun.start]

section Steps

variable {s : UploadRun} {pending : Nat → Option Pending}

variable {table : Nat → Option Pending} {fs : FileSys}

theorem RunOk.shows (known : RunOk s pending) {finished : List (List Char)}
    (good : TreeOk s.paths finished table fs) :
    ∀ r ∈ s.requested, fs.look r.path = r.baseline ∨
        ∃ content ∈ finished, fs.look r.path = some (.file content) := by
  intro r member
  rw [(known.marks r member).1]
  exact good.look (List.mem_map_of_mem member)

theorem look_of_stuck {p : Str} {stop : Loc} (stuck : (fs.resolve p).stuckAt = some stop) :
    fs.look p = none := by
  unfold FileSys.look
  cases outcome : fs.resolve p <;> simp_all [Outcome.stuckAt]

variable {w : World} {ref : Nat} {up : Upload}

theorem RunOk.open_none (known : RunOk s pending)
    (opening : OpenOk s.paths s.finished pending s.world (w, none)) :
    RunOk (s.opened (w, none)) pending := by
  obtain ⟨grown, tree⟩ := opening
  obtain ⟨new, list, good⟩ := grown.moments
  refine ⟨tree, ?_, ?_, ?_, ?_⟩
  · simp only [UploadsAtomic, UploadRun.opened]
    rw [list]
    exact AtomicSince.append known.atomic
      (fun r member => (known.marks r member).2) []
      fun fs member => known.shows (good fs member)
  · intro r member
    obtain ⟨absent, bound⟩ := known.marks r member
    refine ⟨absent, ?_⟩
    simp only [UploadRun.opened]
    rw [list, List.length_append]
    omega
  · simp only [UploadRun.opened]
    rw [grown.transfers]
    exact known.linked
  · simp only [UploadRun.opened]
    rw [grown.nextTransfer]
    exact known.unborn

theorem RunOk.open_some (known : RunOk s pending)
    (opening : OpenOk s.paths s.finished pending s.world (w, some ref)) :
    ∃ table, RunOk (s.opened (w, some ref)) table := by
  obtain ⟨p, stop, stuck, opened⟩ := opening
  obtain ⟨new, list, good⟩ := opened.moments
  obtain ⟨u, t, path, empty, tree, transfers, upload, requestPath, file⟩ := opened.upload
  have entry : w.transfers ref = some t := by
    rw [transfers]
    simp
  refine ⟨Function.update pending ref (some u), ?_⟩
  simp only [UploadRun.opened, entry, requestPath]
  have baseline := look_of_stuck stuck
  refine ⟨tree, ?_, ?_, ?_, ?_⟩
  · intro r member fs within
    simp only at member within
    rw [list] at within
    rcases List.mem_cons.mp member with rfl | old
    · rw [treesSince_append le_rfl] at within
      have isNew : fs ∈ new := by
        simpa [treesSince] using within
      obtain ⟨_, place, nowhere⟩ := good fs isNew
      exact Or.inl ((look_of_stuck nowhere).trans baseline.symm)
    · exact AtomicSince.append known.atomic
        (fun r member => (known.marks r member).2) []
        (fun fs member => known.shows (good fs member).1) r old fs within
  · intro r member
    have longer : s.world.moments.length ≤ w.moments.length := by
      rw [list, List.length_append]
      omega
    rcases List.mem_cons.mp member with rfl | old
    · exact ⟨baseline, longer⟩
    · obtain ⟨absent, bound⟩ := known.marks r old
      exact ⟨absent, bound.trans longer⟩
  · intro other up given active
    simp only at given
    by_cases here : other = ref
    · subst here
      simp only [Function.update_self, Option.some.injEq] at given
      subst given
      exact ⟨u, t, Function.update_self _ _ _, entry, upload,
        requestPath.trans path.symm, file, fun _ => empty.symm⟩
    · rw [Function.update_of_ne here] at given
      obtain ⟨v, t', table, old, facts⟩ := known.linked other up given active
      refine ⟨v, t', ?_, ?_, facts⟩
      · rw [Function.update_of_ne here]
        exact table
      · simp only [transfers, if_neg here]
        exact old
  · intro other later
    simp only at later ⊢
    rw [opened.nextTransfer] at later
    have different : other ≠ ref := by
      rw [opened.number]
      omega
    rw [Function.update_of_ne different, Function.update_of_ne different]
    exact known.unborn other (by omega)

theorem RunOk.open (known : RunOk s pending) {result : World × Option Nat}
    (opening : OpenOk s.paths s.finished pending s.world result) :
    ∃ table, RunOk (s.opened result) table := by
  obtain ⟨w, number⟩ := result
  cases number with
  | none => exact ⟨pending, known.open_none opening⟩
  | some ref => exact known.open_some opening

theorem RunOk.change
    (known : RunOk s pending) (given : s.uploads ref = some up) (new : List FileSys)
    (extra : List (List Char)) {up' : Upload} (list : w.moments = new ++ s.world.moments)
    (next : w.nextTransfer = s.world.nextTransfer) (others :
      ∀ other, other ≠ ref →
        w.transfers other = s.world.transfers other ∧ table other = pending other)
    (good : ∀ fs ∈ new, TreeOk s.paths (extra ++ s.finished) table fs)
    (tree : TreeOk s.paths (extra ++ s.finished) table w.fs) (link :
      up'.done = false →
        ∃ u t, table ref = some u ∧ w.transfers ref = some t ∧
          t.transferType = .upload ∧ t.path = u.path ∧ t.file = u.handle ∧
          (up'.intact = true → up'.content = u.content)) :
    RunOk
      { s with
        world := w
        uploads := Function.update s.uploads ref (some up')
        finished := extra ++ s.finished } table := by
  refine ⟨tree, ?_, ?_, ?_, ?_⟩
  · simp only [UploadsAtomic]
    rw [list]
    exact AtomicSince.append known.atomic
      (fun r member => (known.marks r member).2) extra
      fun fs member => known.shows (good fs member)
  · intro r member
    obtain ⟨absent, bound⟩ := known.marks r member
    refine ⟨absent, ?_⟩
    simp only
    rw [list, List.length_append]
    omega
  · intro other other' present active
    simp only at present
    by_cases here : other = ref
    · subst here
      simp only [Function.update_self, Option.some.injEq] at present
      subst present
      exact link active
    · rw [Function.update_of_ne here] at present
      obtain ⟨sameTransfer, sameTable⟩ := others other here
      simp only
      rw [sameTransfer, sameTable]
      exact known.linked other other' present active
  · intro other later
    simp only at later ⊢
    rw [next] at later
    obtain ⟨noPending, noUpload⟩ := known.unborn other later
    have different : other ≠ ref := by
      rintro rfl
      rw [given] at noUpload
      cases noUpload
    rw [Function.update_of_ne different, (others other different).2]
    exact ⟨noPending, noUpload⟩

theorem RunOk.write (known : RunOk s pending) (os : Os) (index : Nat) (bytes : List Char)
    (off : Int) (given : s.uploads ref = some up) (active : up.done = false) :
    ∃ table, RunOk
        { s with
          world := (Transfer.writeAt os index s.world ref bytes off).1
          uploads := Function.update s.uploads ref
            (some (UploadRun.sent up bytes off
              (Transfer.writeAt os index s.world ref bytes off).2.2)) }
        table := by
  obtain ⟨u, t, table, entry, upload, path, file, content⟩ := known.linked ref up given active
  obtain ⟨t', sameFile, samePath, sameType, result⟩ := Transfer.writeAt_cases entry
  rcases result with ⟨err, _, result⟩ | ⟨fs, written, result⟩
  · rw [result]
    refine ⟨pending,
      known.change given [] [] rfl rfl (fun other different => ?_) (by simp)
        known.tree fun _ => ?_⟩
    · simp [World.setTransfer, different]
    · exact ⟨u, t', table, by simp [World.setTransfer],
        sameType.trans upload, samePath.trans path, sameFile.trans file,
        fun intact => by simp [UploadRun.sent] at intact⟩
  · rw [result]
    have nonnegative : ¬ off < 0 := by
      intro negative
      simp [FileSys.writeAt, file, Pending.handle, negative] at written
    have changed :
        fs = s.world.fs.setInode u.ino
          ⟨writeBytes (s.world.fs.inode u.ino).data off.toNat (os.written index bytes),
            { (s.world.fs.inode u.ino).attr with mtime := os.now }⟩ := by
      simpa [FileSys.writeAt, file, Pending.handle, nonnegative, eq_comm] using written
    have tree :=
      known.tree.write table
        (writeBytes (s.world.fs.inode u.ino).data off.toNat (os.written index bytes))
        ⟨writeBytes (s.world.fs.inode u.ino).data off.toNat (os.written index bytes),
          { (s.world.fs.inode u.ino).attr with mtime := os.now }⟩ rfl
    rw [← changed] at tree
    refine ⟨_,
      known.change given [fs] [] rfl rfl (fun other different => ?_)
        (by simpa using tree) tree fun _ => ?_⟩
    · simp [World.setTransfer, different]
    · refine ⟨_, t', Function.update_self _ _ _, by simp [World.setTransfer],
        sameType.trans upload, samePath.trans path, sameFile.trans file, ?_⟩
      intro intact
      cases fault : os.writeAt index with
      | some pair => simp [UploadRun.sent, fault] at intact
      | none =>
        simp only [fault, Option.map_none, UploadRun.sent] at intact ⊢
        rw [content intact, (known.tree.stored ref u table).2.data]
        simp [Os.written, fault]

theorem RunOk.finish (known : RunOk s pending) (settings : Settings) (os : Os)
    (given : s.uploads ref = some up) (active : up.done = false) (intact : up.intact) :
    ∃ table, RunOk (s.closed settings os ref up [up.content]) table := by
  obtain ⟨u, t, table, entry, upload, path, file, content⟩ := known.linked ref up given active
  have stored := (known.tree.stored ref u table).2
  have name : t.file.name = u.tempPath := by rw [file]; rfl
  have renames : t.file.name ≠ t.path := by
    rw [name, path]
    exact stored.tempPath_ne
  obtain ⟨transfers, next, tree⟩ := Transfer.close_upload_cases settings os entry upload renames
  rw [content intact]
  rcases tree with ⟨fs, renamed, now, moments⟩ | ⟨now, moments⟩
  · obtain ⟨after, succeeded, node, inode⟩ := known.tree.rename_temp table
    rw [name, path, succeeded] at renamed
    cases renamed
    have committed := known.tree.commit table node inode
    refine ⟨Function.update pending ref none,
      known.change given [fs] [u.content] moments next
        (fun other different => ⟨transfers other different, ?_⟩)
        (by simpa using committed) (now.symm ▸ committed)
        fun stillOpen => by cases stillOpen⟩
    exact Function.update_of_ne different _ _
  · refine ⟨pending,
      known.change given [] [u.content] moments next
        (fun other different => ⟨transfers other different, rfl⟩) (by simp)
        (now.symm ▸ known.tree.mono [u.content])
        fun stillOpen => by cases stillOpen⟩

/-- Each event that meets the condition keeps the invariant. -/
theorem RunOk.step (known : RunOk s pending) {settings : Settings} (atomic : settings.Atomic)
    {event : UploadEvent} (rooted : event.Rooted) (condition : UploadCondition settings s event) :
    ∃ table, RunOk (s.step settings event) table := by
  cases event with
  | sftpOpen c os request => exact known.open (filewrite_ok atomic rooted known.tree condition)
  | scpOpen c os rawPath => exact known.open (scpOpen_ok atomic rooted known.tree condition)
  | writeAt os index ref bytes off =>
    simp only [UploadRun.step]
    cases given : s.uploads ref with
    | none => exact ⟨pending, known⟩
    | some up =>
      by_cases done : up.done = true
      · simpa [done] using ⟨pending, known⟩
      · have active : up.done = false := by simpa using done
        simp only [active, Bool.false_eq_true, if_false]
        exact known.write os index bytes off given active
  | finish os ref =>
    simp only [UploadRun.step]
    cases given : s.uploads ref with
    | none => exact ⟨pending, known⟩
    | some up =>
      by_cases done : up.done = true
      · simpa [done] using ⟨pending, known⟩
      · have active : up.done = false := by simpa using done
        have intact := condition up given active
        simp only [active, intact, Bool.false_eq_true, if_false, if_true]
        exact known.finish settings os given active intact
  | abort os ref =>
    simp only [UploadRun.step]
    cases given : s.uploads ref with
    | none => exact ⟨pending, known⟩
    | some up =>
      have done := condition up given
      simpa [done] using ⟨pending, known⟩

end Steps

/-- In atomic mode, a run of uploads none of which replaces a file, is broken
off or clashes with a name in use never shows a partial upload: at every
moment each requested path leads to what it led to when it was opened, or to a
finished upload. -/
theorem uploads_atomic (settings : Settings) (atomic : settings.Atomic)
    (fs : FileSys) (quota : Str → Option (Int × Int))
    (events : List UploadEvent) (rooted : ∀ event ∈ events, event.Rooted) (admissible :
      Admissible (UploadRun.step settings) (UploadCondition settings)
        (UploadRun.start fs quota) events) :
    ∀ state, Visits (UploadRun.step settings) (UploadRun.start fs quota) events
        state → UploadsAtomic state := by
  intro state visited
  have reached : ∃ table, RunOk state table := by
    refine visits_invariant
      (fun s event => UploadCondition settings s event ∧ event.Rooted)
      (fun s => ∃ table, RunOk s table) ?_ ⟨_, runOk_start fs quota⟩
      (admissible.and_forall rooted) visited
    rintro s event ⟨pending, known⟩ ⟨condition, home⟩
    exact known.step atomic home condition
  obtain ⟨table, known⟩ := reached
  exact known.atomic

def putRequest (path : String) : Request :=
  ⟨.other "Put".toList, path.toList, [], 26, ⟨0, 0, 0, 0, 0, 0⟩⟩

def replacing : List UploadEvent :=
  [.sftpOpen sampleConnection sampleOs (putRequest "/f")]

/-- The session breaks after the first byte of a new file `g`. -/
def breakingOff : List UploadEvent :=
  [.sftpOpen sampleConnection sampleOs (putRequest "/g"),
    .writeAt sampleOs 0 0 ['x'] 0,
    .abort sampleOs 0]

theorem not_uploadsAtomic {s : UploadRun} {r : Requested} {shown : Option View}
    (requested : s.requested = [r]) (finished : s.finished = [])
    (seen : shown ∈ (treesSince r.mark s.world.moments).map (FileSys.look · r.path))
    (different : shown ≠ r.baseline) :
    ¬ UploadsAtomic s := by
  intro atomic
  obtain ⟨fs, member, rfl⟩ := List.mem_map.mp seen
  rcases atomic r (by simp [requested]) fs member with same | ⟨content, done, _⟩
  · exact different same
  · simp [finished] at done

/-- Opening an existing file hides it, and a broken upload shows what there is
of it. -/
theorem replaced_and_broken_uploads_show :
    (∃ state,
      Visits (UploadRun.step atomicSettings)
          (UploadRun.start fileTree fun _ => none) replacing state ∧
        ¬ UploadsAtomic state) ∧
      ∃ state, Visits (UploadRun.step atomicSettings)
            (UploadRun.start fileTree fun _ => none) breakingOff state ∧
          ¬ UploadsAtomic state := by
  refine ⟨⟨_, visits_run _ _ _, ?_⟩, ⟨_, visits_run _ _ _, ?_⟩⟩
  · exact not_uploadsAtomic
      (r := ⟨"/srv/u/f".toList, some (.file "abc".toList), 1⟩) (by decide)
      (by decide) (by decide : none ∈ _) (by decide)
  · exact not_uploadsAtomic (r := ⟨"/srv/u/g".toList, none, 1⟩) (by decide)
      (by decide) (by decide : some (.file ['x']) ∈ _) (by decide)

def finishing : List UploadEvent :=
  [.sftpOpen sampleConnection sampleOs (putRequest "/g"),
    .writeAt sampleOs 0 0 ['x'] 0,
    .finish sampleOs 0]

private theorem guidFresh_sample : GuidFresh sampleOs fileTree [] "/srv/u/g".toList := by
  have named :
      tempName sampleOs (base "/srv/u/g".toList) = ".sftpgo-upload.guid.g".toList := by decide
  refine ⟨by decide, fun parent => ⟨?_, ?_⟩⟩
  · by_contra present
    have unused :
        ∀ loc ∈ fileTree.locs, loc.getLast? ≠ some ".sftpgo-upload.guid.g".toList := by decide
    refine unused _ ((fileTree.mem_locs _).mpr present) ?_
    rw [named]
    simp
  · intro q member
    obtain rfl : q = "/srv/u/g".toList := by simpa using member
    have stuck :
        (fileTree.resolve "/srv/u/g".toList).stuckAt =
          some ["srv".toList, "u".toList, "g".toList] := by decide
    rw [stuck, named]
    intro equal
    have last := congrArg List.getLast? (Option.some.inj equal)
    rw [List.getLast?_concat] at last
    revert last
    decide

/-- The upload of a new file is atomic. -/
theorem finished_upload_atomic :
    UploadsAtomic
      (run (UploadRun.step atomicSettings) (UploadRun.start fileTree fun _ => none) finishing) := by
  refine uploads_atomic atomicSettings rfl fileTree _ finishing ?_
    ⟨?_, trivial, ?_, trivial⟩ _ (visits_run _ _ _)
  · intro event member
    simp only [finishing, List.mem_cons, List.not_mem_nil, or_false] at member
    rcases member with rfl | rfl | rfl
    · show isAbs _ = true
      decide
    · trivial
    · trivial
  · intro _ p accepted
    have path :
        sampleConnection.buildPath fileTree
          (putRequest "/g").filepath = .ok "/srv/u/g".toList := by decide
    obtain rfl : "/srv/u/g".toList = p := by
      have same := path.symm.trans accepted
      simpa using same
    have missing : fileTree.stat "/srv/u/g".toList = .error .noent := by decide
    simp only [UploadRun.start, World.start, missing]
    exact ⟨guidFresh_sample, fun _ q member => by simp [UploadRun.paths] at member⟩
  · intro up given _
    have known :
        (run (UploadRun.step atomicSettings)
          (UploadRun.start fileTree fun _ => none)
          (finishing.take 2)).uploads 0 = some ⟨"/srv/u/g".toList, ['x'], true, false⟩ := by decide
    have same := known.symm.trans given
    rw [← Option.some.inj same]

end Sshserv.Serv
