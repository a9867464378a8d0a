import Sshserv.Lib.Scan
import Sshserv.Serv.FileQuota
import Sshserv.Serv.OpenFailure
import Sshserv.Serv.QuotaWalk

/-!
# Sessions and the files of a region

What uploads and removals do to the files in a region and to the counters of
their user.  The region is what a scan has passed so far, or the whole home
directory.
-/

namespace Sshserv.Serv

open Lib UnixPath FileTree FileSys DataProvider

/-- What closing a transfer will add to the counters. -/
def Transfer.due (t : Transfer) : Int × Int :=
  (if t.isNewFile then 1 else 0, t.bytesReceived)

/-- The tally of the region grows by `delta` and the counters of the user by
`paid`; the transfers stay as they are. -/
structure Booked (user : User) (region held : Set Loc)
    (delta paid : Int × Int) (before after : World) : Prop where
  shift : Shift region held delta before.fs after.fs
  transfers : after.transfers = before.transfers
  nextTransfer : after.nextTransfer = before.nextTransfer
  used : after.quota user.username = (before.quota user.username).map fun used => used + paid

namespace Booked

variable {user : User} {region held : Set Loc} {first second third w : World}

theorem refl (user : User) (region held : Set Loc) (w : World) : Booked user region held 0 0 w w :=
  ⟨Shift.refl region held w.fs, rfl, rfl, by simp⟩

theorem trans {one two paid more : Int × Int} (left : Booked user region held one paid first second)
    (right : Booked user region held two more second third) :
    Booked user region held (one + two) (paid + more) first third := by
  refine ⟨left.shift.trans right.shift, right.transfers.trans left.transfers,
    right.nextTransfer.trans left.nextTransfer, ?_⟩
  rw [right.used, left.used, Option.map_map]
  congr 1
  funext used
  simp [add_assoc]

theorem setFs {delta : Int × Int} {fs : FileSys} (shift : Shift region held delta w.fs fs) :
    Booked user region held delta 0 w (w.setFs fs) :=
  ⟨shift, rfl, rfl, by simp⟩

theorem setPathPermissions (user : User) (region held : Set Loc) (w : World) (os : Os) (path : Str)
    (uid gid : Int) :
    Booked user region held 0 0 w (w.setPathPermissions os path uid gid) := by
  rcases setPathPermissions_cases w os path uid gid with
    same | ⟨after, same, shape, data⟩
  · rw [same]
    exact refl user region held w
  · rw [same]
    exact setFs (Shift.sameView region held shape data)

theorem updateUserQuota {settings : Settings} (tracks : settings.provider.trackQuota = 1)
    (region held : Set Loc) (w : World) (fault : Option ProviderError)
    (user : User) (filesAdd sizeAdd : Int) :
    Booked user region held 0
      (if fault = none then (filesAdd, sizeAdd) else 0) w
      (w.updateUserQuota settings fault user filesAdd sizeAdd) := by
  have tracked : World.tracked settings user = true := by
    simp [World.tracked, tracks]
  refine ⟨?_, World.updateUserQuota_transfers .., World.updateUserQuota_nextTransfer .., ?_⟩
  · rw [World.updateUserQuota_fs]
    exact Shift.refl region held w.fs
  · rw [World.updateUserQuota_own]
    congr 1
    funext used
    by_cases none : fault = none
    · simp only [tracked, none, and_self, if_true]
      rfl
    · simp [none]

theorem createMissingDirs (user : User) (region held : Set Loc) (c : Connection) (os : Os)
    (w : World) (filePath : Str) :
    Booked user region held 0 0 w (c.createMissingDirs os w filePath).1 :=
  createMissingDirs_keeps c os
    (fun _ _ _ booked made => booked.trans (setFs (Shift.mkdir region held made)))
    (fun _ _ _ _ booked => booked.trans (setPathPermissions ..)) filePath
    (refl user region held w)

end Booked

/-! ## The place of a new file -/

section NewFiles

variable {c : Connection} {os : Os} {w middle : World} {p : Str} {names : Loc} {last name : Str}

theorem createMissingDirs_cases (path : p = render (names ++ [last]))
    (proper : ProperNames (names ++ [last]))
    (dirs : c.createMissingDirs os w p = (middle, .ok ())) :
    middle = w ∨
      ∃ base next more place left, names = base ++ next :: more ∧
        w.fs.resolve (render base) = .found place left ∧
        c.mkdirAll os w (chain base (next :: more)) = (middle, .ok ()) ∧
        DirsMade [] names (place ++ next :: more) left middle.fs := by
  unfold Connection.createMissingDirs at dirs
  cases searched : c.findNonexistentDirs w.fs p with
  | error err => simp [searched] at dirs
  | ok results =>
    obtain ⟨base, missing, place, left, rfl, reversed, resolved, _, _⟩ :=
      findNonexistentDirs_ok proper (path ▸ searched)
    simp only [searched, reversed] at dirs
    cases missing with
    | nil =>
      simp only [chain, Connection.mkdirAll, Prod.mk.injEq, and_true] at dirs
      exact Or.inl dirs.symm
    | cons next more =>
      obtain ⟨_, _, _, hollow⟩ :=
        mkdirAll_onTheWay c os last (next :: more) proper (treeOk_start w.fs) resolved (by simp)
      rw [dirs] at hollow
      exact Or.inr ⟨base, next, more, place, left, rfl, resolved, dirs, hollow (by simp) rfl⟩

theorem created_place (path : p = render (names ++ [last])) (proper : ProperNames (names ++ [last]))
    (nameProper : ProperNames (names ++ [name]))
    (vacant : ∀ loc left, w.fs.resolve (render (names ++ [name])) ≠ .found loc left)
    (dirs : middle = w ∨ c.createMissingDirs os w p = (middle, .ok ())) {attr : Attr} {fs : FileSys}
    {file : Handle} (made : middle.fs.create (render (names ++ [name])) attr = .ok (fs, file)) :
    ∃ parent text stop, ∃ room : middle.fs.CanAdd parent text,
      (w.fs.resolve (render (names ++ [name]))).stuckAt = some stop ∧
        stop <+: parent ++ [text] ∧
        fs = middle.fs.addFile parent text ⟨[], attr⟩ room ∧
        file = handleOf (render (names ++ [name])) middle.fs.nextIno createFlags := by
  have prepared := dirs.imp_right (createMissingDirs_cases path proper)
  rw [← or_assoc, or_self] at prepared
  rcases prepared with
    rfl | ⟨base, next, more, place, left, rfl, resolved, dirs, ready⟩
  · rcases create_cases made with
      ⟨loc, rest, _, found, _⟩ | ⟨parent, text, rest, room, stuck, same, handle⟩
    · exact absurd found (vacant loc rest)
    · exact ⟨parent, text, _, room, by rw [stuck]; rfl, List.prefix_rfl,
        same, handle⟩
  · have slot :
        Slot middle.fs (render (base ++ next :: more ++ [name]))
          (base ++ next :: more) name (place ++ next :: more) left :=
      ⟨rfl, nameProper, ready.resolved, ready.directory⟩
    obtain ⟨room, created⟩ := slot.create_new (ready.empty name) attr
    rw [created] at made
    cases made
    refine ⟨place ++ next :: more, name, place ++ [next], room, ?_,
      ⟨more ++ [name], by simp⟩, rfl, rfl⟩
    have whole : base ++ next :: more ++ [name] = base ++ next :: (more ++ [name]) := by
      simp
    rw [whole] at nameProper ⊢
    -- the first directory could be made, so there was nothing
    simp only [chain, Connection.mkdirAll] at dirs
    cases first :
        orFault (os.mkdir (render (base ++ [next])))
          (w.fs.mkdir (render (base ++ [next])) os.attr) with
    | error err => simp [first] at dirs
    | ok after =>
      obtain ⟨_, _, entry, absent⟩ :=
        mkdir_below
          (fun piece member => nameProper piece (by
            simp only [List.mem_append, List.mem_cons, List.not_mem_nil, or_false] at member ⊢
            tauto))
          resolved (orFault_eq_ok.mp first).2 0 0
      obtain ⟨parent, text, free, placed, _⟩ := mkdir_cases (orFault_eq_ok.mp first).2
      simp only [FileSys.entryLoc, placed, Except.ok.injEq] at entry
      obtain ⟨rfl, _⟩ := List.append_inj' entry rfl
      exact stuckAt_render_below nameProper resolved free.directory absent

end NewFiles

/-! ## Opening an upload -/

/-- An open request works on locations that the visits lead to: where the
file is created, the file that is overwritten and, in atomic mode, the entry
that is moved away.  The temporary name is not in use. -/
structure OpenPlaced (settings : Settings) (os : Os) (fs : FileSys)
    (todo : List Visit) (p : Str) : Prop where
  fresh : TempFresh settings os fs p
  created : ∀ loc ∈ (fs.resolve (uploadFilePath settings os p)).stuckAt, Ahead todo loc
  opened :
    ∀ leaf ∈ (fs.resolve p).located.toOption, fs.isDirAt leaf = false → Ahead todo leaf
  moved :
    settings.Atomic → ∀ leaf ∈ (fs.resolve p).located.toOption, fs.isDirAt leaf = false →
        ∀ loc ∈ (fs.entryLoc p).toOption, Unseen todo loc

instance (settings : Settings) (os : Os) (fs : FileSys) (p : Str) :
    Decidable (TempFresh settings os fs p) :=
  decidable_of_iff
    (settings.Atomic → '/' ∉ os.guid ∧
        ∀ loc ∈ (fs.entryLoc (getUploadTempFilePath os p)).toOption, fs.node loc = none) <| by
    unfold TempFresh
    cases fs.entryLoc (getUploadTempFilePath os p) <;> simp [Except.toOption]

instance (settings : Settings) (os : Os) (fs : FileSys) (todo : List Visit)
    (p : Str) : Decidable (OpenPlaced settings os fs todo p) :=
  decidable_of_iff (_ ∧ _ ∧ _ ∧ _)
    ⟨fun ⟨fresh, created, opened, moved⟩ =>
      ⟨fresh, created, opened, moved⟩,
     fun placed =>
      ⟨placed.fresh, placed.created, placed.opened, placed.moved⟩⟩

/-- A refused request changes neither the tally nor the counters.  An accepted
one adds a transfer; what the transfer will add when it is closed, less the
size of the file that it replaces, is what the tally has changed by. -/
def OpenBooked (user : User) (region held : Set Loc) (side : Bool)
    (fault : Option ProviderError) (w : World) : World × Option Nat → Prop
  | (after, none) => Booked user region held 0 0 w after
  | (after, some ref) =>
    ∃ t middle old paid,
      Booked user region held (if side then t.due - (0, old) else 0) paid w middle ∧
        middle.addTransfer t = (after, ref) ∧
        t.transferType = .upload ∧ t.user = user ∧
        (fault = none → paid = (0, -old))

section Opens

variable {c : Connection} {settings : Settings} {os : Os} {w : World}
    {p : Str} {comps : Loc} {region held : Set Loc} {todo : List Visit} {side : Bool}

theorem openBooked_launch (old : Int) {before middle : World} {file : Handle} {filePath : Str}
    {isNew : Bool} {delta paid : Int × Int} {fault : Option ProviderError}
    (booked : Booked c.user region held delta paid before middle)
    (change : delta = if side then ((if isNew then 1 else 0), 0) - (0, old) else 0)
    (told : fault = none → paid = (0, -old)) :
    OpenBooked c.user region held side fault before (c.launch os middle file p filePath isNew) := by
  refine ⟨c.newTransfer os file p .upload isNew, _, old, paid, ?_, rfl, rfl, rfl, told⟩
  have owned :=
    booked.trans (Booked.setPathPermissions c.user region held middle os
      filePath c.user.getUID c.user.getGID)
  rw [add_zero, add_zero, change] at owned
  exact owned

theorem TempFresh.vacant (path : p = render comps) (proper : ProperNames comps)
    (missing : w.fs.stat p = .error .noent) (fresh : TempFresh settings os w.fs p) :
    ∃ names last name, comps = names ++ [last] ∧
      ProperNames (names ++ [name]) ∧
      uploadFilePath settings os p = render (names ++ [name]) ∧
      ∀ loc left, w.fs.resolve (uploadFilePath settings os p) ≠ .found loc left := by
  obtain ⟨names, last, rfl⟩ := concat_of_missing path missing
  by_cases atomic : settings.Atomic
  · obtain ⟨noSlash, absent⟩ := fresh atomic
    obtain ⟨tempProper, tempPath⟩ := getUploadTempFilePath_render noSlash proper
    have file : uploadFilePath settings os p = render (names ++ [tempName os last]) := by
      rw [uploadFilePath, if_pos atomic, path, tempPath]
    refine ⟨names, last, tempName os last, rfl, tempProper, file, ?_⟩
    intro loc left found
    rw [file] at found
    obtain ⟨place, rest, slot⟩ := slot_of_lookup tempProper (Or.inl ⟨loc, left, found⟩)
    rw [path, tempPath] at absent
    have gone := absent _ slot.entryLoc
    rw [slot.resolve, walk_name, gone] at found
    simp at found
  · have file : uploadFilePath settings os p = p := if_neg atomic
    refine ⟨names, last, last, rfl, proper, file.trans path, ?_⟩
    intro loc left found
    rw [stat_eq_error_iff, ← file, found] at missing
    cases missing

section Moving

variable {fs after : FileSys} {names leaf place : Loc} {last : Str} {left rest ino : Nat}

/-- The temporary name leads to the file: it was moved itself, or only the
link to it. -/
theorem Slot.target_moved (slot : Slot fs p names last place left) (noSlash : '/' ∉ os.guid)
    (gone : fs.node (place ++ [tempName os last]) = none) (target : Target fs p leaf rest ino)
    (move : MovedTo fs after place last (tempName os last)) :
    ∃ final more, Target after (getUploadTempFilePath os p) final more ino ∧
      (final = leaf ∨ final = place ++ [tempName os last] ∧ leaf = place ++ [last]) := by
  obtain ⟨final, more, leads, entry⟩ :=
    slot.resolve_moved noSlash gone target.leads target.notDir target.entry move
  refine ⟨final, more, ⟨leads, entry⟩, ?_⟩
  rw [move.node final] at entry
  split at entry
  · rename_i here
    exact Or.inr ⟨here, fs.ino_inj _ _ ino target.entry entry⟩
  · split at entry
    · cases entry
    · exact Or.inl (fs.ino_inj final leaf ino entry target.entry)

theorem Slot.shift_moved (slot : Slot fs p names last place left)
    (gone : fs.node (place ++ [tempName os last]) = none) (target : Target fs p leaf rest ino)
    (move : MovedTo fs after place last (tempName os last)) (free : place ++ [last] ∉ held)
    (both : place ++ [last] ∈ region ↔ place ++ [tempName os last] ∈ region) :
    Shift region held 0 fs after := by
  have different : place ++ [last] ≠ place ++ [tempName os last] := by
    simpa using (tempName_ne os last).symm
  refine Shift.leaf_moved different move.node move.inode
    (slot.leaf_entry target.leads target.notDir).1
    (by simp [isDirAt, gone]) free both ?_
  intro _
  rw [view_eq_none_iff.mpr gone]
  rfl

end Moving

variable (uniform : ∀ loc, Ahead todo loc → (loc ∈ region ↔ side = true))
include uniform

theorem if_mem_region {loc : Loc} (ahead : Ahead todo loc) (more : Int × Int)
    [Decidable (loc ∈ region)] :
    (if loc ∈ region then more else 0) = if side then more else 0 := by
  simp [uniform loc ahead]

section Existing

variable (apart : ∀ loc, Unseen todo loc → ∀ kept ∈ held, ¬ loc <+: kept)
include apart

theorem SetAside.booked {info : FileInfo} {moved : World}
    (old : SetAside settings os w p info moved) (path : p = render comps)
    (proper : ProperNames comps) (placed : OpenPlaced settings os w.fs todo p) (user : User) :
    Booked user region held 0 0 w moved ∧
      ∃ names last place left final more ino,
        Slot moved.fs (uploadFilePath settings os p) names last place left ∧
          Target moved.fs (uploadFilePath settings os p) final more ino ∧
          (moved.fs.inode ino).data.length = info.size ∧
          Ahead todo final := by
  obtain ⟨leaf, rest, ino, target, size⟩ := target_of_stat old.found old.regular
  have found : leaf ∈ (w.fs.resolve p).located.toOption := by
    rw [target.leads]
    rfl
  rcases moveAside_moved target path proper placed.fresh old.aside with ⟨_, file, rfl⟩ |
    ⟨atomic, file, noSlash, after, names, last, place, left, rfl, _, slot, gone, move⟩
  · rw [file]
    obtain ⟨names, last, place, left, slot⟩ := target.slot path proper
    exact ⟨Booked.refl user region held moved, names, last, place, left, leaf, rest, ino, slot,
      target, size.symm, placed.opened leaf found target.notDir⟩
  · rw [file]
    have temp := (slot.after_move gone target.leads target.notDir move).temp noSlash
    obtain ⟨final, more, there, which⟩ := slot.target_moved noSlash gone target move
    have unseen : Unseen todo (place ++ [last]) := by
      apply placed.moved atomic leaf found target.notDir
      rw [slot.entryLoc]
      rfl
    have sibling : Unseen todo (place ++ [tempName os last]) := unseen.sibling _
    have shift : Shift region held 0 w.fs after :=
      slot.shift_moved gone target move (fun member => apart _ unseen _ member List.prefix_rfl)
        (by rw [uniform _ unseen.ahead, uniform _ sibling.ahead])
    refine ⟨Booked.setFs shift, names, _, place, left, final, more, ino, temp, there, ?_, ?_⟩
    · rw [World.setFs_fs, move.inode, size]
    · rcases which with rfl | ⟨rfl, _⟩
      · exact placed.opened _ found target.notDir
      · exact sibling.ahead

variable {via : Option OpenFlags} {result : World × Option Nat} {fault : Option ProviderError}
    (tracks : settings.provider.trackQuota = 1) (told : via ≠ none → fault = os.updateQuota)
include tracks told

/-- An SCP request must not replace a file. -/
theorem OpenSteps.booked (steps : OpenSteps c settings os w p via result) (path : p = render comps)
    (proper : ProperNames comps) (placed : OpenPlaced settings os w.fs todo p)
    (scp : via = none → ∀ info, w.fs.stat p = .ok info → info.isDir = true) :
    OpenBooked c.user region held side fault w result := by
  classical
  have same := Booked.refl c.user region held w
  have dirs := Booked.createMissingDirs c.user region held c os w p
  have kept {info : FileInfo} {moved : World}
      (old : SetAside settings os w p info moved) : via ≠ none := by
    intro none
    have isDir := scp none info old.found
    rw [old.regular] at isDir
    cases isDir
  cases steps with
  | refused => exact same
  | prepared => exact dirs
  | moved old => exact (old.booked uniform apart path proper placed c.user).1
  | released old => exact absurd rfl (kept old)
  | @created _ middle _ _ ready made =>
    obtain ⟨booked, missing, way⟩ :
        Booked c.user region held 0 0 w middle ∧
          w.fs.stat p = .error .noent ∧
          (middle = w ∨ c.createMissingDirs os w p = (middle, .ok ())) := by
      cases ready with
      | absent missing _ => exact ⟨same, missing, Or.inl rfl⟩
      | prepared missing _ result =>
        rw [result] at dirs
        exact ⟨dirs, missing, Or.inr result⟩
      | released old _ => exact absurd rfl (kept old)
    obtain ⟨names, last, name, rfl, nameProper, file, vacant⟩ :=
      TempFresh.vacant path proper missing placed.fresh
    rw [file] at made vacant
    obtain ⟨parent, text, stop, room, stuck, below, rfl, _⟩ :=
      created_place path proper nameProper vacant way made
    have ahead : Ahead todo (parent ++ [text]) := (placed.created stop (file ▸ stuck)).mono below
    have added := booked.trans (Booked.setFs (Shift.addFile region held ⟨[], os.attr⟩ room))
    rw [if_mem_region uniform ahead] at added
    exact openBooked_launch 0 added (by simp) fun _ => rfl
  | @reopened _ info moved _ _ old _ truncates opened =>
    obtain ⟨booked, _, _, _, _, final, _, ino, slot, there, size, ahead⟩ :=
      old.booked uniform apart path proper placed c.user
    obtain ⟨rfl, _⟩ := slot.openFile_truncated there truncates opened
    have shift := Shift.truncated region held there.entry os.attr
    rw [if_mem_region uniform ahead, size] at shift
    have counted :=
      (booked.trans (Booked.setFs shift)).trans
        (Booked.updateUserQuota tracks region held (moved.setFs _)
          os.updateQuota c.user 0 (-info.size))
    refine openBooked_launch info.size counted (by simp) ?_
    intro quiet
    rw [told (by simp)] at quiet
    simp [quiet]

theorem OpenEnds.booked {rawPath : Str} (ends : OpenEnds c settings os w rawPath via result)
    (rooted : isAbs c.user.homeDir)
    (placed : OpenPlaced settings os w.fs todo (c.requested rawPath)) (scp :
      via = none →
        ∀ leaf ∈ (w.fs.resolve (c.requested rawPath)).located.toOption, w.fs.isDirAt leaf = true) :
    OpenBooked c.user region held side fault w result := by
  rcases ends with rfl | ⟨_, p, accepted, steps⟩
  · exact Booked.refl c.user region held w
  obtain ⟨comps, proper, path⟩ := accepted_eq_render rooted accepted
  rw [← (buildPath_eq_ok_iff.mp accepted).1] at placed scp
  refine steps.booked uniform apart tracks told path proper placed ?_
  intro none info found
  obtain ⟨loc, left, leads, seen⟩ := stat_eq_ok_iff.mp found
  exact (infoAt_isDir_iff seen).mpr (scp none loc (by rw [leads]; rfl))

end Existing

end Opens

/-! ## Writing -/

/-- The file of a transfer is one that the visits lead to, if it is still in
the tree. -/
def WritePlaced (fs : FileSys) (todo : List Visit) (t : Transfer) : Prop :=
  ∀ ino ∈ t.file.ino, ∀ loc ∈ fs.locs, fs.node loc = some (.file ino) → Ahead todo loc

instance (fs : FileSys) (todo : List Visit) (t : Transfer) : Decidable (WritePlaced fs todo t) :=
  inferInstanceAs (Decidable (∀ ino ∈ t.file.ino, _))

/-- The bytes go to the end of a file that is in the tree. -/
def Appends (fs : FileSys) (t : Transfer) (bytes : List Char) (off : Int) : Prop :=
  bytes = [] ∨
    ∀ ino ∈ t.file.ino, off = (fs.inode ino).data.length ∧
      ∃ loc ∈ fs.locs, fs.node loc = some (.file ino)

instance (fs : FileSys) (t : Transfer) (bytes : List Char) (off : Int) :
    Decidable (Appends fs t bytes off) :=
  inferInstanceAs (Decidable (_ ∨ _))

variable {fs : FileSys} {os : Os} {counted : Int × Int} {p : Str} {place : Loc} {info : FileInfo}

theorem writeAt_inode {after : FileSys} {handle : Handle} {bytes : List Char} {off now : Int}
    (done : fs.writeAt handle bytes off now = .ok after) :
    ∃ ino, handle.ino = some ino ∧
      (after.inode ino).data = writeBytes (fs.inode ino).data off.toNat bytes ∧
      ∀ other, other ≠ ino → (after.inode other).data = (fs.inode other).data := by
  unfold FileSys.writeAt at done
  split at done
  · cases done
  split at done
  · cases done
  split at done
  · rename_i ino known _
    cases done
    refine ⟨ino, known, by simp [setInode], ?_⟩
    intro other different
    simp [setInode, different]
  · cases done

section Writes

variable {region held : Set Loc} {todo : List Visit} {side : Bool}
    (uniform : ∀ loc, Ahead todo loc → (loc ∈ region ↔ side = true))
include uniform

/-- A write that the visits lead to, at the end of the file if it counts. -/
theorem shift_writeAt {fs after : FileSys} {t : Transfer} {bytes : List Char} {off now : Int}
    (placed : WritePlaced fs todo t) (appends : side = true → Appends fs t bytes off)
    (done : fs.writeAt t.file bytes off now = .ok after) :
    Shift region held (if side then (0, (bytes.length : Int)) else 0) fs after := by
  classical
  have shape := writeAt_sameShape done
  obtain ⟨ino, known, own, others⟩ := writeAt_inode done
  have ahead : ∀ loc, fs.node loc = some (.file ino) → Ahead todo loc := by
    intro loc entry
    refine placed ino known loc ?_ entry
    rw [fs.mem_locs, entry]
    simp
  cases side with
  | false =>
    apply Shift.rewritten_outside held shape _ others
    intro loc inside entry
    exact absurd ((uniform loc (ahead loc entry)).mp inside) (by simp)
  | true =>
    rcases appends rfl with nothing | atEnd
    · have unchanged : ∀ other, (after.inode other).data = (fs.inode other).data := by
        intro other
        by_cases here : other = ino
        · rw [here, own, nothing]
          simp [writeBytes]
        · exact others other here
      rw [nothing]
      exact Shift.sameView region held shape unchanged
    · obtain ⟨length, loc, _, entry⟩ := atEnd ino known
      have shift := Shift.rewritten region held shape entry others
      rw [if_mem_region uniform (ahead loc entry), own, length,
        Int.toNat_natCast, writeBytes_behind] at shift
      simpa using shift

theorem writeAt_booked {user : User} {os : Os} {index : Nat} {w : World} {ref : Nat}
    {t : Transfer} (entry : w.transfers ref = some t) {bytes : List Char}
    {off : Int} (placed : WritePlaced w.fs todo t)
    (appends : side = true → Appends w.fs t (os.written index bytes) off) :
    ∃ middle t', (Transfer.writeAt os index w ref bytes off).1 = middle.setTransfer ref t' ∧
        Booked user region held (if side then t'.due - t.due else 0) 0 w middle ∧
        SameUpload t t' := by
  unfold Transfer.writeAt
  rw [entry]
  simp only
  split
  · refine ⟨w, _, rfl, ?_, ⟨rfl, rfl, rfl, rfl, rfl⟩⟩
    simpa [Transfer.due] using Booked.refl user region held w
  · rename_i fs done
    have shift : Shift region held _ w.fs fs := shift_writeAt uniform placed appends done
    refine ⟨w.setFs fs, _, rfl, ?_, ⟨rfl, rfl, rfl, rfl, rfl⟩⟩
    simpa [Transfer.due] using @Booked.setFs user _ _ _ _ _ shift

end Writes

/-! ## Closing -/

/-- The rename at the end of an upload works on locations that the visits lead
to, and does not move a directory. -/
def ClosePlaced (fs : FileSys) (todo : List Visit) (t : Transfer) : Prop :=
  t.file.name ≠ t.path →
    ∀ source ∈ (fs.entryLoc t.file.name).toOption, fs.isDirAt source = false ∧ Unseen todo source ∧
        ∀ target ∈ (fs.entryLoc t.path).toOption, Ahead todo target

instance (fs : FileSys) (todo : List Visit) (t : Transfer) : Decidable (ClosePlaced fs todo t) :=
  inferInstanceAs (Decidable (_ → _))

/-- The rename does not replace a regular file. -/
def ReplacesNothing (fs : FileSys) (t : Transfer) : Prop :=
  t.file.name ≠ t.path →
    ∀ target ∈ (fs.entryLoc t.path).toOption,
      (fs.infoAt target).all fun info => info.kind ≠ .regular

instance (fs : FileSys) (t : Transfer) : Decidable (ReplacesNothing fs t) :=
  inferInstanceAs (Decidable (_ → _))

theorem weight_of_irregular
    {loc : Loc} (other : (fs.infoAt loc).all fun info => info.kind ≠ .regular) :
    weight (fs.view loc) = 0 := by
  apply weight_view_eq_zero
  intro ino entry
  simp [infoAt, entry] at other

section Closing

variable {region held : Set Loc} {todo : List Visit} {side : Bool}
    (uniform : ∀ loc, Ahead todo loc → (loc ∈ region ↔ side = true))
    (apart : ∀ loc, Unseen todo loc → ∀ kept ∈ held, ¬ loc <+: kept)
include uniform apart

theorem shift_settledTree {os : Os} {fs : FileSys} {t : Transfer} (placed : ClosePlaced fs todo t)
    (replaces : side = true → ReplacesNothing fs t) :
    Shift region held 0 fs (Transfer.settledTree os fs t.file.name t.path) := by
  unfold Transfer.settledTree
  split
  · rename_i different
    split
    · rename_i after done
      have renamed := (orFault_eq_ok.mp done).2
      obtain ⟨oldParent, oldText, newParent, newText, oldPlace, newPlace, _⟩ := rename_cases renamed
      have oldEntry : fs.entryLoc t.file.name = .ok (oldParent ++ [oldText]) := by
        simp [FileSys.entryLoc, oldPlace]
      have newEntry : fs.entryLoc t.path = .ok (newParent ++ [newText]) := by
        simp [FileSys.entryLoc, newPlace]
      obtain ⟨leaf, unseen, ahead⟩ := placed different _ (by rw [oldEntry]; rfl)
      have target := ahead _ (by rw [newEntry]; rfl)
      refine Shift.rename_leaf oldEntry newEntry leaf
        (fun member => apart _ unseen _ member List.prefix_rfl) ?_ ?_ renamed
      · rw [uniform _ unseen.ahead, uniform _ target]
      · intro inside
        apply weight_of_irregular
        exact replaces ((uniform _ target).mp inside) different _ (by rw [newEntry]; rfl)
    · exact Shift.refl region held fs
  · exact Shift.refl region held fs

theorem close_booked {settings : Settings} (tracks : settings.provider.trackQuota = 1)
    {os : Os} {w : World} {ref : Nat} {t : Transfer}
    (entry : w.transfers ref = some t) (upload : t.transferType = .upload)
    (placed : ClosePlaced w.fs todo t) (replaces : side = true → ReplacesNothing w.fs t) :
    Shift region held 0 w.fs (Transfer.close settings os w ref).1.fs ∧
      (Transfer.close settings os w ref).1.quota t.user.username =
        (w.quota t.user.username).map fun used =>
          used + if os.closeQuota = none then t.due else 0 := by
  constructor
  · rw [Transfer.close_upload_fs entry upload]
    exact shift_settledTree uniform apart placed replaces
  · rw [Transfer.close_upload_quota entry upload]
    exact (Booked.updateUserQuota tracks region held w os.closeQuota t.user
      (if t.isNewFile then 1 else 0) t.bytesReceived).used

end Closing

/-! ## Removing -/

/-- The entry that is removed is one that the visits lead to and have not
named yet. -/
def RemovalPlaced (fs : FileSys) (todo : List Visit) (p : Str) : Prop :=
  ∀ loc ∈ (fs.entryLoc p).toOption, Unseen todo loc

instance (fs : FileSys) (todo : List Visit) (p : Str) : Decidable (RemovalPlaced fs todo p) :=
  inferInstanceAs (Decidable (∀ loc ∈ (fs.entryLoc p).toOption, _))

/-- `Remove` counts a directory as a file, so it must not be used on one. -/
def RemoveExact (os : Os) (fs : FileSys) (p : Str) : Prop :=
  os.updateQuota = none ∧ ∀ loc ∈ (fs.entryLoc p).toOption, fs.isDirAt loc = false

instance (os : Os) (fs : FileSys) (p : Str) : Decidable (RemoveExact os fs p) :=
  inferInstanceAs (Decidable (_ ∧ _))

/-- `Rmdir` does not count a regular file, so it must not be used on one; and
it counts nothing if it stops half-way. -/
def RmdirExact (os : Os) (fs : FileSys) (p : Str) : Prop :=
  os.updateQuota = none ∧ os.survivors = [] ∧
    ∀ loc ∈ (fs.entryLoc p).toOption, (fs.infoAt loc).all fun info => info.kind ≠ .regular

instance (os : Os) (fs : FileSys) (p : Str) : Decidable (RmdirExact os fs p) :=
  inferInstanceAs (Decidable (_ ∧ _))

/-- The tally of the files that count changes by what the provider was
told. -/
def RemovalBooked (user : User) (region held : Set Loc) (side : Bool)
    (before after : World) : Prop :=
  ∃ delta paid, Booked user region held delta paid before after ∧ delta = if side then paid else 0

/-- `ScanDirContents` gives what is below the entry where its walk starts. -/
theorem scanDirContents_ok {path : Str} (scanned : scanDirContents os fs path = .ok counted) :
    counted = fs.scanTotal path := by
  unfold scanDirContents at scanned
  split at scanned
  · cases scanned
  rename_i info found
  obtain ⟨loc, left, resolved, seen⟩ := stat_eq_ok_iff.mp found
  have directory := infoAt_isDir_iff seen
  split at scanned
  · rename_i isDir
    split at scanned
    · cases scanned
    · rename_i root walked
      cases scanned
      have starts : fs.scanRoot path = some root :=
        scanRoot_eq_some_iff.mpr
          ⟨loc, left, resolved, directory.mp isDir, (orFault_eq_ok.mp walked).2⟩
      rw [scanTotal, starts]
      rfl
  · rename_i notDir
    cases scanned
    have nowhere : fs.scanRoot path = none := by
      rw [scanRoot, resolved]
      exact if_neg (mt directory.mpr notDir)
    rw [scanTotal, nowhere]
    rfl

theorem scanDirContents_entry
    {parent : Loc} {text : Str} (entry : fs.entryOf p = .ok (parent, text))
    (irregular : (fs.infoAt (parent ++ [text])).all fun info => info.kind ≠ .regular)
    (scanned : scanDirContents os fs p = .ok counted) :
    fs.tally {loc | parent ++ [text] <+: loc} = counted := by
  rw [scanDirContents_ok scanned, scanTotal_of_entryOf entry]
  split
  · rfl
  · rename_i leaf
    rw [tally_leaf (by simpa using leaf), weight_of_irregular irregular]

theorem infoAt_of_lstat (located : fs.entryLoc p = .ok place) (looked : fs.lstat p = .ok info) :
    fs.infoAt place = some info := by
  rw [lstat, located] at looked
  simp only [statAt] at looked
  split at looked
  · cases looked
    assumption
  · cases looked

theorem weight_of_leaf (leaf : fs.isDirAt place = false) (seen : fs.infoAt place = some info) :
    weight (fs.view place) = if info.kind = .symlink then 0 else (1, (info.size : Int)) := by
  have kind := seen
  unfold infoAt at kind
  cases node : fs.node place with
  | none => simp [node] at kind
  | some object =>
    cases object with
    | dir attr => simp [isDirAt, node, Node.isDir] at leaf
    | file ino =>
      rw [weight_view_file node]
      simp only [node, Option.some.injEq] at kind
      subst kind
      simp [sizeAt, seen]
    | symlink target attr =>
      simp only [node, Option.some.injEq] at kind
      subst kind
      rw [if_pos rfl]
      exact weight_of_irregular (by simp [seen])

section Removals

variable {c : Connection} {settings : Settings} {os : Os} {w : World}
    {p : Str} {comps : Loc} {region held : Set Loc} {todo : List Visit} {side : Bool}

theorem removalBooked_refl (user : User) (region held : Set Loc) (side : Bool) (w : World) :
    RemovalBooked user region held side w w :=
  ⟨0, 0, Booked.refl user region held w, by simp⟩

variable (uniform : ∀ loc, Ahead todo loc → (loc ∈ region ↔ side = true))
    (apart : ∀ loc, Unseen todo loc → ∀ kept ∈ held, ¬ loc <+: kept)
    (tracks : settings.provider.trackQuota = 1)
include uniform apart

theorem shift_dropTree {fs : FileSys} {place : Loc} {survivors : List Loc}
    (stays : ¬ Doomed place survivors []) (unseen : Unseen todo place)
    (all : side = true → survivors = []) :
    Shift region held
      (if side then -fs.tally {loc | place <+: loc} else 0) fs
      (fs.dropTree place survivors stays) := by
  cases side with
  | false =>
    apply Shift.dropTree_outside (apart place unseen)
    intro loc inside below
    have counts := (uniform loc (unseen.ahead.mono below)).mp inside
    cases counts
  | true =>
    have inside : {loc | loc ∈ region ∧ place <+: loc} = {loc | place <+: loc} := by
      ext loc
      simp only [Set.mem_ofPred_eq, and_iff_right_iff_imp]
      intro below
      exact (uniform loc (unseen.ahead.mono below)).mpr rfl
    obtain rfl := all rfl
    rw [if_pos rfl, ← inside]
    exact Shift.dropTree_all (apart place unseen) stays

include tracks

theorem remove_booked (placed : RemovalPlaced w.fs todo p)
    (exactly : side = true → RemoveExact os w.fs p) :
    RemovalBooked c.user region held side w (c.handleSFTPRemove settings os w p).1 := by
  have same := removalBooked_refl c.user region held side w
  unfold Connection.handleSFTPRemove
  split
  · exact same
  split
  · exact same
  rename_i fi looked
  split
  · exact same
  rename_i fs removed
  obtain ⟨parent, text, entry, _, rfl⟩ := remove_cases (orFault_eq_ok.mp removed).2
  have located : w.fs.entryLoc p = .ok (parent ++ [text]) := by
    simp [FileSys.entryLoc, entry]
  have unseen := placed _ (by rw [located]; rfl)
  have booked :=
    @Booked.setFs c.user _ _ w _ _ (shift_dropTree uniform apart (by simp) unseen fun _ => rfl)
  have dropped :
      side = true →
        w.fs.tally {loc | parent ++ [text] <+: loc} =
            (if fi.kind = .symlink then 0 else (1, (fi.size : Int))) ∧
          os.updateQuota = none := by
    intro counts
    obtain ⟨quiet, leaves⟩ := exactly counts
    have leaf := leaves _ (by rw [located]; rfl)
    refine ⟨?_, quiet⟩
    rw [tally_leaf leaf]
    exact weight_of_leaf leaf (infoAt_of_lstat located (orFault_eq_ok.mp looked).2)
  split
  · rename_i regular
    have counted :=
      booked.trans (Booked.updateUserQuota tracks region held _
        os.updateQuota c.user (-1) (-fi.size))
    refine ⟨_, _, counted, ?_⟩
    cases side with
    | false => simp
    | true =>
      obtain ⟨weight, quiet⟩ := dropped rfl
      rw [weight, quiet, if_neg regular]
      simp
  · rename_i link
    refine ⟨_, _, booked, ?_⟩
    cases side with
    | false => simp
    | true =>
      rw [(dropped rfl).1, if_pos (not_not.mp link)]
      simp

theorem rmdir_booked (placed : RemovalPlaced w.fs todo p)
    (exactly : side = true → RmdirExact os w.fs p) :
    RemovalBooked c.user region held side w (c.handleSFTPRmdir settings os w p).1 := by
  have same := removalBooked_refl c.user region held side w
  unfold Connection.handleSFTPRmdir
  split
  · exact same
  split
  · exact same
  rename_i numFiles size scanned
  rcases removed : w.fs.removeAll p os.survivors with ⟨after, result⟩
  rcases removeAll_cases removed with
    ⟨rfl, missing, _⟩ | ⟨place, left, removal, rfl, ends⟩
  · have booked : Booked c.user region held 0 0 w (w.setFs w.fs) :=
      Booked.setFs (Shift.refl region held w.fs)
    cases result with
    | error err => exact ⟨_, _, booked, by simp⟩
    | ok =>
      have counted :=
        booked.trans (Booked.updateUserQuota tracks region held _
          os.updateQuota c.user (-numFiles) (-size))
      refine ⟨_, _, counted, ?_⟩
      obtain ⟨rfl, rfl⟩ : numFiles = 0 ∧ size = 0 :=
        Prod.ext_iff.mp ((scanDirContents_ok scanned).trans (scanTotal_of_noent (missing rfl)))
      cases side with
      | false => rfl
      | true =>
        rw [if_pos rfl]
        split <;> rfl
  · have located := removal.entryLoc
    have unseen := placed _ (by rw [located]; rfl)
    -- no visit is above the root
    rcases removal with ⟨parent, text, entry⟩ | _
    case root =>
      obtain ⟨item, _, above, different⟩ := unseen
      exact absurd (List.prefix_nil.mp above) different
    have booked :=
      @Booked.setFs c.user _ _ w _ _
        (shift_dropTree uniform apart (by simp) unseen fun counts => (exactly counts).2.1)
    cases result with
    | error err =>
      refine ⟨_, _, booked, ?_⟩
      cases side with
      | false => rfl
      | true =>
        -- nothing survives, so the call cannot have failed
        have done := ends.mpr (by
          rw [(exactly rfl).2.1]
          exact if_pos ⟨List.prefix_rfl, by simp⟩)
        cases done
    | ok =>
      have counted :=
        booked.trans (Booked.updateUserQuota tracks region held _
          os.updateQuota c.user (-numFiles) (-size))
      refine ⟨_, _, counted, ?_⟩
      cases side with
      | false => simp
      | true =>
        obtain ⟨quiet, _, irregular⟩ := exactly rfl
        have below := scanDirContents_entry entry (irregular _ (by rw [located]; rfl)) scanned
        simp [below, quiet]

theorem filecmd_booked {request : Request} (rooted : isAbs c.user.homeDir)
    (removes : request.method = .remove ∨ request.method = .rmdir)
    (placed : RemovalPlaced w.fs todo (c.requested request.filepath)) (exactly :
      side = true →
        (request.method = .remove → RemoveExact os w.fs (c.requested request.filepath)) ∧
        (request.method = .rmdir → RmdirExact os w.fs (c.requested request.filepath))) :
    RemovalBooked c.user region held side w (c.filecmd settings os w request).1 := by
  have same := removalBooked_refl c.user region held side w
  obtain ⟨comps, proper, path⟩ := requested_eq_render rooted request.filepath
  unfold Connection.filecmd
  split
  · exact same
  rename_i p accepted
  have equal := (buildPath_eq_ok_iff.mp accepted).1
  rw [← equal] at path placed exactly
  split
  · exact same
  rcases removes with method | method
  · rw [method]
    exact remove_booked uniform apart tracks placed fun counts =>
      (exactly counts).1 method
  · rw [method]
    exact rmdir_booked uniform apart tracks placed fun counts =>
      (exactly counts).2 method

end Removals

end Sshserv.Serv
