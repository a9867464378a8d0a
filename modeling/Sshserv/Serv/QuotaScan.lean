import Sshserv.Serv.IdleCheck
import Sshserv.Serv.QuotaBooks

/-!
# A quota scan among live sessions

One quota scan, interleaved with uploads, overwrites and removals.  What a
session does behind the walk is lost when the scan overwrites the counters,
and an upload that is counted while open is counted again when it is closed.
-/

namespace Sshserv.Serv

open Lib UnixPath FileTree Runs
open DataProvider

/-! ## The machine -/

/-- The sessions and the one scan. -/
structure QuotaRun where
  live : UploadRun
  scan : Scan

inductive QuotaEvent where
  | upload (event : UploadEvent)
  /-- A command of a session; `ByUser` lets only `Remove` and `Rmdir` in. -/
  | removal (c : Connection) (os : Os) (request : Request)
  /-- The goroutine of `startQuotaScan` begins. -/
  | startScan (os : Os)
  /-- It takes the next look at the tree. -/
  | visit (os : Os)
  /-- It stores what it has counted. -/
  | reset (fault : Option ProviderError)

namespace QuotaRun

def start (fs : FileSys) (quota : Str → Option (Int × Int)) : QuotaRun :=
  ⟨UploadRun.start fs quota, .idle⟩

/-- One event.  The counters are stored when the walk is over. -/
def step (settings : Settings) (user : User) (s : QuotaRun) : QuotaEvent → QuotaRun
  | .upload event => { s with live := UploadRun.step settings s.live event }
  | .removal c os request =>
    { s with
      live :=
        { s.live with
          world := (c.filecmd settings os s.live.world request).1 } }
  | .startScan os =>
    match s.scan with
    | .idle => { s with scan := Scan.start os s.live.world.fs user.homeDir }
    | _ => s
  | .visit os => { s with scan := s.scan.visit os s.live.world.fs }
  | .reset fault =>
    match s.scan with
    | .walking [] numFiles size =>
      ⟨{ s.live with
          world := s.live.world.resetUserQuota settings fault user numFiles size },
        .ended⟩
    | _ => s

end QuotaRun

/-- The event is an upload, an overwrite or a removal by a session of the
user, or a step of the scan. -/
def QuotaEvent.ByUser (user : User) : QuotaEvent → Prop
  | .upload event => Sshserv.Serv.ByUser user event
  | .removal c _ request => c.user = user ∧ (request.method = .remove ∨ request.method = .rmdir)
  | _ => True

/-- Once the scan has ended and all uploads are closed, the counters are those
of the files below the home directory. -/
def QuotaAgrees (user : User) (home : Loc) (s : QuotaRun) : Prop :=
  s.scan = .ended →
    (∀ ref up, s.live.uploads ref = some up → up.done = true) →
      s.live.world.quota user.username =
        some (((s.live.world.fs.filesBelow home).card : Int),
          ∑ file ∈ s.live.world.fs.filesBelow home, (s.live.world.fs.sizeAt file : Int))

/-! ## The condition -/

/-- An event of a session works on locations that the visits lead to.  No SCP
upload replaces a file, since it would be counted as a new one. -/
def LivePlaced (settings : Settings) (s : UploadRun) (todo : List Visit) : UploadEvent → Prop
  | .sftpOpen c os request => OpenPlaced settings os s.world.fs todo (c.requested request.filepath)
  | .scpOpen c os rawPath =>
    OpenPlaced settings os s.world.fs todo (c.requested rawPath) ∧
      ∀ leaf ∈ (s.world.fs.resolve (c.requested rawPath)).located.toOption,
        s.world.fs.isDirAt leaf = true
  | .writeAt _ _ ref _ _ => ∀ t ∈ s.world.transfers ref, WritePlaced s.world.fs todo t
  | .finish _ ref => ∀ t ∈ s.world.transfers ref, ClosePlaced s.world.fs todo t
  | .abort _ ref => ∀ t ∈ s.world.transfers ref, ClosePlaced s.world.fs todo t

instance (settings : Settings) (s : UploadRun) (todo : List Visit)
    (event : UploadEvent) : Decidable (LivePlaced settings s todo event) :=
  match event with
  | .sftpOpen _ _ _ => inferInstanceAs (Decidable (OpenPlaced _ _ _ _ _))
  | .scpOpen _ _ _ => inferInstanceAs (Decidable (_ ∧ _))
  | .writeAt _ _ ref _ _ => inferInstanceAs (Decidable (∀ t ∈ s.world.transfers ref, _))
  | .finish _ ref => inferInstanceAs (Decidable (∀ t ∈ s.world.transfers ref, _))
  | .abort _ ref => inferInstanceAs (Decidable (∀ t ∈ s.world.transfers ref, _))

/-- An event that the accounting of uploads gets right: the provider takes
the updates, writes go to the end of a file in the tree, and the final rename
replaces no file. -/
def LiveExact (s : UploadRun) : UploadEvent → Prop
  | .sftpOpen _ os _ => os.updateQuota = none
  | .scpOpen _ _ _ => True
  | .writeAt os index ref bytes off =>
    ∀ t ∈ s.world.transfers ref, Appends s.world.fs t (os.written index bytes) off
  | .finish os ref =>
    os.closeQuota = none ∧ ∀ t ∈ s.world.transfers ref, ReplacesNothing s.world.fs t
  | .abort os ref =>
    os.closeQuota = none ∧ ∀ t ∈ s.world.transfers ref, ReplacesNothing s.world.fs t

instance (s : UploadRun) (event : UploadEvent) : Decidable (LiveExact s event) :=
  match event with
  | .sftpOpen _ _ _ => inferInstanceAs (Decidable (_ = _))
  | .scpOpen _ _ _ => inferInstanceAs (Decidable True)
  | .writeAt _ _ ref _ _ => inferInstanceAs (Decidable (∀ t ∈ s.world.transfers ref, _))
  | .finish _ _ => inferInstanceAs (Decidable (_ ∧ _))
  | .abort _ _ => inferInstanceAs (Decidable (_ ∧ _))

/-- A removal that is counted right. -/
def RemovalExact (os : Os) (fs : FileSys) (p : Str) (method : Method) : Prop :=
  (method = .remove → RemoveExact os fs p) ∧ (method = .rmdir → RmdirExact os fs p)

instance (os : Os) (fs : FileSys) (p : Str) (method : Method) :
    Decidable (RemovalExact os fs p method) :=
  inferInstanceAs (Decidable (_ ∧ _))

/-- Sessions work ahead of the walk.  After it they do what is counted right,
in the home directory.  The scan meets no error, and finds no upload open when
it stores its numbers. -/
def StaysAhead (settings : Settings) (user : User) (home : Loc) (s : QuotaRun) : QuotaEvent → Prop
  | .upload event =>
    match s.scan with
    | .idle => True
    | .walking todo _ _ => LivePlaced settings s.live todo event
    | .ended => LivePlaced settings s.live [.entry user.homeDir] event ∧ LiveExact s.live event
  | .removal c os request =>
    match s.scan with
    | .idle => True
    | .walking todo _ _ => RemovalPlaced s.live.world.fs todo (c.requested request.filepath)
    | .ended =>
      RemovalPlaced s.live.world.fs [.entry user.homeDir] (c.requested request.filepath) ∧
        RemovalExact os s.live.world.fs (c.requested request.filepath) request.method
  | .startScan os => s.scan = .idle → os.stat = none ∧ s.live.world.fs.isDirAt home = true
  | .visit os =>
    match s.scan with
    | .walking todo _ _ => Calm os s.live.world.fs todo
    | _ => True
  | .reset fault =>
    match s.scan with
    | .walking [] _ _ =>
      fault = none ∧ (s.live.world.quota user.username).isSome = true ∧
        ∀ ref < s.live.world.nextTransfer, ∀ up ∈ s.live.uploads ref, up.done = true
    | _ => True

instance (settings : Settings) (user : User) (home : Loc) (s : QuotaRun) (event : QuotaEvent) :
    Decidable (StaysAhead settings user home s event) :=
  match s, event with
  | ⟨_, .idle⟩, .upload _ => inferInstanceAs (Decidable True)
  | ⟨_, .walking _ _ _⟩, .upload _ => inferInstanceAs (Decidable (LivePlaced _ _ _ _))
  | ⟨_, .ended⟩, .upload _ => inferInstanceAs (Decidable (_ ∧ _))
  | ⟨_, .idle⟩, .removal _ _ _ => inferInstanceAs (Decidable True)
  | ⟨_, .walking _ _ _⟩, .removal _ _ _ => inferInstanceAs (Decidable (RemovalPlaced _ _ _))
  | ⟨_, .ended⟩, .removal _ _ _ => inferInstanceAs (Decidable (_ ∧ _))
  | ⟨_, _⟩, .startScan _ => inferInstanceAs (Decidable (_ → _))
  | ⟨_, .idle⟩, .visit _ => inferInstanceAs (Decidable True)
  | ⟨_, .walking _ _ _⟩, .visit _ => inferInstanceAs (Decidable (Calm _ _ _))
  | ⟨_, .ended⟩, .visit _ => inferInstanceAs (Decidable True)
  | ⟨_, .idle⟩, .reset _ => inferInstanceAs (Decidable True)
  | ⟨_, .walking [] _ _⟩, .reset _ => inferInstanceAs (Decidable (_ ∧ _))
  | ⟨_, .walking (_ :: _) _ _⟩, .reset _ => inferInstanceAs (Decidable True)
  | ⟨_, .ended⟩, .reset _ => inferInstanceAs (Decidable True)

/-! ## What the open uploads will add -/

namespace UploadRun

def dueAt (s : UploadRun) (ref : Nat) : Int × Int :=
  if (s.uploads ref).any fun up => !up.done then
    ((s.world.transfers ref).map Transfer.due).getD 0
  else 0

def due (s : UploadRun) : Int × Int :=
  ∑ ref ∈ Finset.range s.world.nextTransfer, s.dueAt ref

variable {s s' : UploadRun}

theorem due_congr (nextTransfer : s'.world.nextTransfer = s.world.nextTransfer)
    (same : ∀ ref, s'.dueAt ref = s.dueAt ref) : s'.due = s.due := by
  unfold due
  rw [nextTransfer, funext same]

theorem due_succ (nextTransfer : s'.world.nextTransfer = s.world.nextTransfer + 1)
    (same : ∀ ref, ref ≠ s.world.nextTransfer → s'.dueAt ref = s.dueAt ref) :
    s'.due = s.due + s'.dueAt s.world.nextTransfer := by
  unfold due
  rw [nextTransfer, Finset.sum_range_succ]
  congr 1
  apply Finset.sum_congr rfl
  intro ref member
  exact same ref (Finset.mem_range.mp member).ne

theorem due_update {ref : Nat} (nextTransfer : s'.world.nextTransfer = s.world.nextTransfer)
    (known : ref < s.world.nextTransfer)
    (same : ∀ other, other ≠ ref → s'.dueAt other = s.dueAt other) :
    s'.due = s.due + (s'.dueAt ref - s.dueAt ref) := by
  have member := Finset.mem_range.mpr known
  unfold due
  rw [nextTransfer, ← Finset.add_sum_erase _ _ member, ← Finset.add_sum_erase _ _ member]
  rw [Finset.sum_congr rfl fun other inside =>
    same other (Finset.ne_of_mem_erase inside)]
  abel

theorem due_closed (closed : ∀ ref up, s.uploads ref = some up → up.done = true) : s.due = 0 := by
  unfold due
  apply Finset.sum_eq_zero
  intro ref _
  unfold dueAt
  cases upload : s.uploads ref with
  | none => simp
  | some up => simp [closed ref up upload]

end UploadRun

/-! ## The table of transfers -/

/-- The uploads of the run are uploads of the user. -/
abbrev Tables (user : User) (s : UploadRun) : Prop :=
  Listed (fun t => t.transferType = .upload ∧ t.user = user) s

namespace Tables

variable {settings : Settings} {user : User} {s : UploadRun}

theorem opened (tables : Tables user s) {result : World × Option Nat}
    (launches : Launches user s.world result) :
    Tables user (s.opened result) := by
  obtain ⟨after, number⟩ := result
  cases number with
  | none => exact tables.kept launches.transfers launches.next
  | some ref =>
    obtain ⟨t, middle, same, added, fits⟩ := launches
    cases added
    exact Listed.added tables same.transfers same.next fits

theorem updated (tables : Tables user s) {ref : Nat} {t t' : Transfer} {up' : Upload}
    {w : World} (entry : s.world.transfers ref = some t)
    (same : SameUpload t t') (next : w.nextTransfer = s.world.nextTransfer) (transfers :
      ∀ other, w.transfers other = if other = ref then some t' else s.world.transfers other)
    (finished : List (List Char)) :
    Tables user
      { s with
        world := w
        uploads := Function.update s.uploads ref (some up')
        finished := finished } := by
  obtain ⟨known, upload, owner⟩ := tables.launched ref t entry
  exact Listed.updated tables known
    ⟨same.upload.trans upload, same.user.trans owner⟩ next transfers finished

theorem closed (tables : Tables user s) {os : Os} {ref : Nat} {up : Upload}
    (upload : s.uploads ref = some up) (extra : List (List Char)) :
    Tables user (s.closed settings os ref up extra) := by
  obtain ⟨t, entry⟩ := tables.uploads ref up upload
  obtain ⟨next, transfers⟩ := close_tables settings os entry
  have same : SameUpload t { t with file := t.file.closed } := ⟨rfl, rfl, rfl, rfl, rfl⟩
  exact tables.updated entry same next transfers _

theorem step (tables : Tables user s) {event : UploadEvent} (byUser : ByUser user event) :
    Tables user (UploadRun.step settings s event) := by
  cases event with
  | sftpOpen c os request =>
    obtain rfl : c.user = user := byUser
    exact tables.opened (filewrite_ends request).launches
  | scpOpen c os rawPath =>
    obtain rfl : c.user = user := byUser
    exact tables.opened (scpOpen_ends rawPath).launches
  | writeAt os index ref bytes off =>
    simp only [UploadRun.step]
    split
    · exact tables
    rename_i up upload
    split
    · exact tables
    obtain ⟨t, entry⟩ := tables.uploads ref up upload
    obtain ⟨middle, t', world, adds, same⟩ := writeAt_upload user [] os index entry bytes off
    have next : (middle.setTransfer ref t').nextTransfer = s.world.nextTransfer := adds.nextTransfer
    rw [world]
    refine tables.updated entry same next ?_ s.finished
    intro other
    simp [World.setTransfer, adds.transfers]
  | finish os ref =>
    simp only [UploadRun.step]
    split
    · exact tables
    split
    · exact tables
    · exact tables.closed ‹_› _
  | abort os ref =>
    simp only [UploadRun.step]
    split
    · exact tables
    split
    · exact tables
    · exact tables.closed ‹_› _

end Tables

theorem QuotaRun.step_tables (settings : Settings) {user : User} {s : QuotaRun} {event : QuotaEvent}
    (tables : Tables user s.live) (byUser : event.ByUser user) :
    Tables user (QuotaRun.step settings user s event).live := by
  cases event with
  | upload event => exact tables.step byUser
  | removal c os request =>
    have same := filecmd_kept c settings os s.live.world request
    exact tables.kept same.transfers same.next
  | startScan os =>
    simp only [QuotaRun.step]
    split <;> exact tables
  | visit os => exact tables
  | reset fault =>
    simp only [QuotaRun.step]
    split
    · rename_i numFiles size _
      obtain ⟨quota, stored⟩ := s.live.world.resetUserQuota_frame settings fault user numFiles size
      rw [stored]
      exact tables.kept rfl rfl
    · exact tables

theorem QuotaRun.run_tables (settings : Settings) {user : User} (fs : FileSys)
    (quota : Str → Option (Int × Int)) {events : List QuotaEvent}
    (byUser : ∀ event ∈ events, event.ByUser user) :
    Tables user (run (QuotaRun.step settings user) (QuotaRun.start fs quota) events).live :=
  run_invariant (fun _ (event : QuotaEvent) => event.ByUser user)
    (fun s : QuotaRun => Tables user s.live)
    (fun _ _ tables byUser => step_tables settings tables byUser)
    (Listed.start _ fs quota) (admissible_of_forall byUser _)

/-! ## One event of a session -/

/-- If the region counts, its tally changes by what the provider was told and
by what the open uploads will add; otherwise it does not change. -/
def LiveBooked (user : User) (region held : Set Loc) (side : Bool) (s s' : UploadRun) : Prop :=
  ∃ delta paid, FileSys.Shift region held delta s.world.fs s'.world.fs ∧
      s'.world.quota user.username = (s.world.quota user.username).map (fun used => used + paid) ∧
      delta = if side then paid + (s'.due - s.due) else 0

section Live

variable {settings : Settings} {user : User} {region held : Set Loc}
    {todo : List Visit} {side : Bool} {s : UploadRun}

theorem liveBooked_refl (user : User) (region held : Set Loc) (side : Bool)
    (s : UploadRun) : LiveBooked user region held side s s :=
  ⟨0, 0, FileSys.Shift.refl region held s.world.fs, by simp, by simp⟩

theorem liveBooked_world {delta paid : Int × Int} {w : World}
    (booked : Booked user region held delta paid s.world w)
    (change : delta = if side then paid else 0) :
    LiveBooked user region held side s { s with world := w } := by
  have same : UploadRun.due { s with world := w } = s.due := by
    apply UploadRun.due_congr booked.nextTransfer
    intro ref
    simp [UploadRun.dueAt, booked.transfers]
  refine ⟨delta, paid, booked.shift, booked.used, ?_⟩
  rw [same, sub_self, add_zero]
  exact change

theorem liveBooked_opened {fault : Option ProviderError} {result : World × Option Nat}
    (outcome : OpenBooked user region held side fault s.world result)
    (quiet : side = true → fault = none) :
    LiveBooked user region held side s (s.opened result) := by
  obtain ⟨after, number⟩ := result
  cases number with
  | none => exact liveBooked_world outcome (by simp)
  | some ref =>
    obtain ⟨t, middle, old, paid, booked, added, _, _, told⟩ := outcome
    simp only [World.addTransfer, Prod.mk.injEq] at added
    obtain ⟨rfl, rfl⟩ := added
    rw [booked.nextTransfer]
    simp only [UploadRun.opened, if_true]
    refine ⟨_, paid, booked.shift, booked.used, ?_⟩
    cases side with
    | false => rfl
    | true =>
      rw [UploadRun.due_succ (s := s)]
      · simp only [if_true, told (quiet rfl), UploadRun.dueAt,
          Function.update_self, Option.any_some, Bool.not_false,
          Option.map_some, Option.getD_some, add_sub_cancel_left]
        rw [sub_eq_add_neg, add_comm]
        rfl
      · rfl
      · intro other different
        simp [UploadRun.dueAt, different, booked.transfers]

variable (uniform : ∀ loc, Ahead todo loc → (loc ∈ region ↔ side = true))
    (apart : ∀ loc, Unseen todo loc → ∀ kept ∈ held, ¬ loc <+: kept)
    (tracks : settings.provider.trackQuota = 1)
include uniform

theorem liveBooked_written (tables : Tables user s) {os : Os} {index ref : Nat} {bytes : List Char}
    {off : Int} {up up' : Upload} (upload : s.uploads ref = some up)
    (active : up.done = false) (same : up'.done = up.done)
    (placed : ∀ t ∈ s.world.transfers ref, WritePlaced s.world.fs todo t) (appends :
      side = true → ∀ t ∈ s.world.transfers ref,
        Appends s.world.fs t (os.written index bytes) off) :
    LiveBooked user region held side s
      { s with
        world := (Transfer.writeAt os index s.world ref bytes off).1
        uploads := Function.update s.uploads ref (some up') } := by
  obtain ⟨t, entry⟩ := tables.uploads ref up upload
  obtain ⟨known, _, _⟩ := tables.launched ref t entry
  obtain ⟨middle, t', world, booked, _⟩ :=
    @writeAt_booked region held todo side uniform user os index s.world ref t
      entry bytes off (placed t entry) fun counts => appends counts t entry
  rw [world]
  refine ⟨_, 0, booked.shift, booked.used, ?_⟩
  cases side with
  | false => rfl
  | true =>
    rw [UploadRun.due_update (s := s) booked.nextTransfer known]
    · simp [UploadRun.dueAt, World.setTransfer, upload, active, same, entry]
    · intro other different
      simp [UploadRun.dueAt, World.setTransfer, different, booked.transfers]

include apart tracks

theorem liveBooked_closed (tables : Tables user s) {os : Os} {ref : Nat} {up : Upload}
    (upload : s.uploads ref = some up) (active : up.done = false)
    (placed : ∀ t ∈ s.world.transfers ref, ClosePlaced s.world.fs todo t) (exactly :
      side = true → os.closeQuota = none ∧
        ∀ t ∈ s.world.transfers ref, ReplacesNothing s.world.fs t)
    (extra : List (List Char)) :
    LiveBooked user region held side s (s.closed settings os ref up extra) := by
  obtain ⟨t, entry⟩ := tables.uploads ref up upload
  obtain ⟨known, isUpload, rfl⟩ := tables.launched ref t entry
  obtain ⟨next, transfers⟩ := close_tables settings os entry
  obtain ⟨shift, used⟩ :=
    @close_booked region held todo side uniform apart settings tracks os
      s.world ref t entry isUpload (placed t entry)
      fun counts => (exactly counts).2 t entry
  refine ⟨0, _, shift, used, ?_⟩
  cases side with
  | false => rfl
  | true =>
    rw [UploadRun.due_update (s := s) next known]
    · simp [UploadRun.dueAt, UploadRun.closed, upload, active, entry, (exactly rfl).1]
    · intro other different
      simp [UploadRun.dueAt, UploadRun.closed, different, transfers]

/-- One event of an upload, seen from a region of the tree. -/
theorem step_booked (rooted : isAbs user.homeDir) (tables : Tables user s)
    {event : UploadEvent} (byUser : ByUser user event) (placed : LivePlaced settings s todo event)
    (exactly : side = true → LiveExact s event) :
    LiveBooked user region held side s (UploadRun.step settings s event) := by
  have same := liveBooked_refl user region held side s
  cases event with
  | sftpOpen c os request =>
    obtain rfl : c.user = user := byUser
    exact liveBooked_opened
      ((filewrite_ends request).booked uniform apart tracks (fun _ => rfl)
        rooted placed (by simp)) exactly
  | scpOpen c os rawPath =>
    obtain rfl : c.user = user := byUser
    exact liveBooked_opened
      ((scpOpen_ends rawPath).booked uniform apart tracks (absurd rfl)
        rooted placed.1 fun _ => placed.2) fun _ => rfl
  | writeAt os index ref bytes off =>
    simp only [UploadRun.step]
    split
    · exact same
    rename_i up upload
    split
    · exact same
    rename_i active
    refine liveBooked_written uniform tables upload (by simpa using active)
      ?_ placed exactly
    cases (Transfer.writeAt os index s.world ref bytes off).2.2 <;> rfl
  | finish os ref =>
    simp only [UploadRun.step]
    split
    · exact same
    rename_i up upload
    split
    · exact same
    rename_i active
    exact liveBooked_closed uniform apart tracks tables upload
      (by simpa using active) placed exactly _
  | abort os ref =>
    simp only [UploadRun.step]
    split
    · exact same
    rename_i up upload
    split
    · exact same
    rename_i active
    exact liveBooked_closed uniform apart tracks tables upload
      (by simpa using active) placed exactly _

theorem removal_booked {c : Connection} {os : Os} {request : Request}
    (rooted : isAbs c.user.homeDir)
    (removes : request.method = .remove ∨ request.method = .rmdir)
    (placed : RemovalPlaced s.world.fs todo (c.requested request.filepath)) (exactly :
      side = true → RemovalExact os s.world.fs (c.requested request.filepath) request.method) :
    LiveBooked c.user region held side s
      { s with world := (c.filecmd settings os s.world request).1 } := by
  obtain ⟨delta, paid, booked, change⟩ :=
    @filecmd_booked c settings os s.world region held todo side uniform apart
      tracks request rooted removes placed exactly
  exact liveBooked_world booked change

end Live

/-! ## The invariant -/

/-- Where the scan stands: a walk has counted what it has passed; after it,
the counters and the open uploads add up to what is below the home
directory. -/
def Books (user : User) (home : Loc) (s : UploadRun) : Scan → Prop
  | .idle => True
  | .walking todo numFiles size => Walked s.world.fs home todo numFiles size
  | .ended =>
    s.world.fs.isDirAt home = true ∧
      ∃ used, s.world.quota user.username = some used ∧
        used + s.due = s.world.fs.tally {loc | home <+: loc}

structure ScanKept (user : User) (home : Loc) (s : QuotaRun) : Prop where
  tables : Tables user s.live
  books : Books user home s.live s.scan

section Steps

variable {settings : Settings} {user : User} {home : Loc} {s s' : UploadRun}
    {todo : List Visit} {numFiles size : Int}

theorem ahead_not_passed (loc : Loc) (ahead : Ahead todo loc) :
    loc ∈ passed home todo ↔ false = true := by
  simp [passed, ahead]

theorem ahead_home (proper : ProperNames home) (loc : Loc)
    (ahead : Ahead [.entry (render home)] loc) :
    loc ∈ {loc | home <+: loc} ↔ true = true := by
  simpa [cleanNames_render proper] using ahead

theorem Walked.live (walked : Walked s.world.fs home todo numFiles size)
    (booked : LiveBooked user (passed home todo) (awaited home todo) false s s') :
    Books user home s' (.walking todo numFiles size) := by
  obtain ⟨delta, paid, shift, _, rfl⟩ := booked
  exact walked.shift shift

theorem Books.live (books : Books user home s .ended) (booked :
      LiveBooked user {loc | home <+: loc} (awaited home [.entry (render home)]) true s s') :
    Books user home s' .ended := by
  obtain ⟨directory, used, entry, agree⟩ := books
  obtain ⟨delta, paid, shift, counted, change⟩ := booked
  refine ⟨shift.directory home (Or.inl rfl) directory, used + paid, ?_, ?_⟩
  · rw [counted, entry]
    rfl
  · rw [shift.tally, ← agree, change, if_pos rfl]
    abel

theorem Walked.stored (walked : Walked s.world.fs home [] numFiles size)
    (tracks : settings.provider.trackQuota = 1) (tables : Tables user s)
    (known : (s.world.quota user.username).isSome)
    (closed : ∀ ref < s.world.nextTransfer, ∀ up ∈ s.uploads ref, up.done = true) :
    Books user home
      { s with
        world := s.world.resetUserQuota settings none user numFiles size }
      .ended := by
  obtain ⟨used, entry⟩ := Option.isSome_iff_exists.mp known
  have stored :
      s.world.resetUserQuota settings none user numFiles size =
        { s.world with
          quota := fun name =>
            if name = user.username then some (numFiles, size)
            else s.world.quota name } := by
    simp [World.resetUserQuota, tracks, entry]
  rw [stored]
  refine ⟨walked.awaits.directory, (numFiles, size), if_pos rfl, ?_⟩
  rw [UploadRun.due_closed, add_zero]
  · exact walked.total.symm
  · intro ref up upload
    obtain ⟨t, listed⟩ := tables.uploads ref up upload
    exact closed ref (tables.launched ref t listed).1 up upload

end Steps

section Runs

variable {settings : Settings} {user : User} {home : Loc}
    (tracks : settings.provider.trackQuota = 1) (proper : ProperNames home)
    (spelled : user.homeDir = render home)
include proper spelled

/-- The sessions go on while the scan is anywhere. -/
theorem Books.session {s s' : UploadRun} {scan : Scan} (books : Books user home s scan) (booked :
      ∀ region held todo side,
        (∀ loc, Ahead todo loc → (loc ∈ region ↔ side = true)) →
        (∀ loc, Unseen todo loc → ∀ kept ∈ held, ¬ loc <+: kept) →
        (scan = .ended ∧ side = true ∧ todo = [.entry user.homeDir] ∨
          side = false ∧ ∃ numFiles size, scan = .walking todo numFiles size) →
        LiveBooked user region held side s s') :
    Books user home s' scan := by
  cases scan with
  | idle => trivial
  | walking todo numFiles size =>
    have walked : Walked s.world.fs home todo numFiles size := books
    exact walked.live (booked _ _ todo false ahead_not_passed
      (fun loc unseen => unseen.not_above walked.awaits)
      (Or.inr ⟨rfl, numFiles, size, rfl⟩))
  | ended =>
    have awaits := awaits_home proper books.1
    refine books.live (booked _ _ [.entry (render home)] true
      (ahead_home proper)
      (fun loc unseen => unseen.not_above awaits) (Or.inl ⟨rfl, rfl, ?_⟩))
    rw [spelled]

include tracks

theorem ScanKept.step {s : QuotaRun} {event : QuotaEvent} (kept : ScanKept user home s)
    (byUser : event.ByUser user) (allowed : StaysAhead settings user home s event) :
    ScanKept user home (QuotaRun.step settings user s event) := by
  refine ⟨QuotaRun.step_tables settings kept.tables byUser, ?_⟩
  have rooted : isAbs user.homeDir = true := by
    rw [spelled]
    exact isAbs_render home
  obtain ⟨live, scan⟩ := s
  obtain ⟨tables, books⟩ := kept
  cases event with
  | upload event =>
    refine Books.session proper spelled books ?_
    rintro region held todo side uniform apart (⟨rfl, rfl, rfl⟩ | ⟨rfl, numFiles, size, rfl⟩)
    · exact step_booked uniform apart tracks rooted tables byUser allowed.1 fun _ => allowed.2
    · exact step_booked uniform apart tracks rooted tables byUser allowed nofun
  | removal c os request =>
    obtain ⟨rfl, removes⟩ := byUser
    refine Books.session proper spelled books ?_
    rintro region held todo side uniform apart (⟨rfl, rfl, rfl⟩ | ⟨rfl, numFiles, size, rfl⟩)
    · exact removal_booked uniform apart tracks rooted removes allowed.1 fun _ => allowed.2
    · exact removal_booked uniform apart tracks rooted removes allowed nofun
  | startScan os =>
    cases scan with
    | idle =>
      obtain ⟨calm, directory⟩ := allowed rfl
      obtain ⟨begun, walked⟩ := Scan.start_counts calm proper directory
      simp only [QuotaRun.step, spelled, begun]
      exact walked
    | walking todo numFiles size => exact books
    | ended => exact books
  | visit os =>
    cases scan with
    | idle => exact books
    | ended => exact books
    | walking todo numFiles size =>
      obtain ⟨next, files, bytes, looked, walked⟩ := Scan.visit_counts books allowed
      simp only [QuotaRun.step, looked]
      exact walked
  | reset fault =>
    cases scan with
    | idle => exact books
    | ended => exact books
    | walking todo numFiles size =>
      cases todo with
      | cons item rest => exact books
      | nil =>
        obtain ⟨rfl, known, closed⟩ := allowed
        exact Walked.stored books tracks tables known closed

end Runs

def scanOpen (path : String) : QuotaEvent :=
  .upload
    (.sftpOpen sampleConnection sampleOs
      ⟨.other "Put".toList, path.toList, [], 26, ⟨0, 0, 0, 0, 0, 0⟩⟩)

def scanFinish (ref : Nat) : QuotaEvent :=
  .upload (.finish sampleOs ref)

/-- `f` is overwritten before the home directory is listed; after the scan it
is removed while `h` is being uploaded. -/
def uploadsAround : List QuotaEvent :=
  [.startScan sampleOs, .visit sampleOs, scanOpen "/f",
    .upload (.writeAt sampleOs 0 0 "xy".toList 0), scanFinish 0,
    .visit sampleOs, .visit sampleOs, .reset none, scanOpen "/h",
    .upload (.writeAt sampleOs 0 1 "z".toList 0),
    .removal sampleConnection sampleOs ⟨.remove, "/f".toList, [], 0, ⟨0, 0, 0, 0, 0, 0⟩⟩,
    scanFinish 1]

/-- `g` is uploaded when the walk is over and its numbers are not stored
yet. -/
def uploadBehind : List QuotaEvent :=
  [.startScan sampleOs, .visit sampleOs, .visit sampleOs, .visit sampleOs,
    scanOpen "/g", scanFinish 0, .reset none]

theorem samples_byUser :
    (∀ event ∈ uploadsAround, event.ByUser sampleUser) ∧
      ∀ event ∈ uploadBehind, event.ByUser sampleUser := by
  constructor
  · intro event member
    simp only [uploadsAround, List.mem_cons, List.not_mem_nil, or_false] at member
    rcases member with rfl | rfl | rfl | rfl | rfl | rfl | rfl | rfl | rfl |
      rfl | rfl | rfl <;> trivial
  · intro event member
    simp only [uploadBehind, List.mem_cons, List.not_mem_nil, or_false] at member
    rcases member with rfl | rfl | rfl | rfl | rfl | rfl | rfl <;> trivial

end Sshserv.Serv
