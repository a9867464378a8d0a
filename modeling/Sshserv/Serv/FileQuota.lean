import Sshserv.Lib.Census
import Sshserv.Lib.Route
import Sshserv.Serv.AtomicUpload
import Sshserv.Serv.ScpAtomicity

/-!
# The limit on the number of files

`hasSpace` compares the limit of a user with a counter that grows only when an
upload is closed, so uploads that are open at the same time can exceed the
limit together.
-/

namespace Sshserv.Serv

open Lib UnixPath FileTree FileSys Runs
open DataProvider

/-! ## Operations that add files -/

/-- At most `extra` files have appeared below `home`, and neither the file
counter of the user nor the table of transfers has changed. -/
structure Adds (user : User) (home : Loc) (extra : Nat) (before after : World) : Prop where
  census : Census home extra before.fs after.fs
  transfers : after.transfers = before.transfers
  nextTransfer : after.nextTransfer = before.nextTransfer
  counter : (after.quota user.username).map Prod.fst = (before.quota user.username).map Prod.fst

namespace Adds

variable {user : User} {home : Loc} {first second third w : World}

theorem refl (user : User) (home : Loc) (w : World) : Adds user home 0 w w :=
  ⟨Census.refl home w.fs, rfl, rfl, rfl⟩

theorem trans {one two : Nat} (left : Adds user home one first second)
    (right : Adds user home two second third) :
    Adds user home (one + two) first third :=
  ⟨left.census.trans right.census, right.transfers.trans left.transfers,
    right.nextTransfer.trans left.nextTransfer,
    right.counter.trans left.counter⟩

theorem setFs {extra : Nat} {fs : FileSys} (census : Census home extra w.fs fs) :
    Adds user home extra w (w.setFs fs) :=
  ⟨census, rfl, rfl, rfl⟩

theorem setPathPermissions (user : User) (home : Loc) (w : World) (os : Os) (path : Str)
    (uid gid : Int) :
    Adds user home 0 w (w.setPathPermissions os path uid gid) := by
  rcases setPathPermissions_cases w os path uid gid with
    same | ⟨after, same, shape, _⟩
  · rw [same]
    exact refl user home w
  · rw [same]
    exact setFs (Census.sameShape home shape)

theorem updateUserQuota (user : User) (home : Loc) (w : World) (settings : Settings)
    (fault : Option ProviderError) (sizeAdd : Int) :
    Adds user home 0 w (w.updateUserQuota settings fault user 0 sizeAdd) := by
  refine ⟨?_, World.updateUserQuota_transfers .., World.updateUserQuota_nextTransfer .., ?_⟩
  · rw [World.updateUserQuota_fs]
    exact Census.refl home w.fs
  · rw [World.updateUserQuota_own, Option.map_map]
    congr 1
    funext used
    simp only [Function.comp_apply, Int.add_zero]
    split <;> rfl

theorem createMissingDirs (user : User) (home : Loc) (c : Connection) (os : Os) (w : World)
    (filePath : Str) :
    Adds user home 0 w (c.createMissingDirs os w filePath).1 :=
  createMissingDirs_keeps c os (fun _ _ _ adds made => adds.trans (setFs (Census.mkdir home made)))
    (fun _ _ _ _ adds => adds.trans (setPathPermissions ..)) filePath (refl user home w)

end Adds

/-! ## What an open request ends with -/

def HasRoom (user : User) (w : World) : Prop :=
  ∃ used, w.quota user.username = some used ∧ used.1 < user.quotaFiles

/-- The file of a transfer has the requested name, or another name in the
same directory. -/
def SiblingNames (t : Transfer) : Prop :=
  t.file.name = t.path ∨
    ∃ names last temp, ProperNames (names ++ [last]) ∧
        ProperNames (names ++ [temp]) ∧
        t.path = render (names ++ [last]) ∧
        t.file.name = render (names ++ [temp])

/-- An upload of the user. -/
structure Launched (user : User) (t : Transfer) : Prop where
  upload : t.transferType = .upload
  user : t.user = user
  names : SiblingNames t

/-- A refused request adds no file.  An accepted one adds a transfer, and a
file only if the transfer says so; then the counter left room for it. -/
def OpenOutcome (user : User) (home : Loc) (w : World) : World × Option Nat → Prop
  | (after, none) => Adds user home 0 w after
  | (after, some ref) =>
    ∃ t middle, Adds user home (if t.isNewFile then 1 else 0) w middle ∧
        middle.addTransfer t = (after, ref) ∧
        Launched user t ∧
        (t.isNewFile = true → HasRoom user w)

section Space

variable {c : Connection} {settings : Settings} {os : Os} {w : World}

/-- The provider does not pretend that quotas are switched off. -/
def HonestProvider (os : Os) : Prop :=
  ∀ text, os.getUsedQuota ≠ some (.methodDisabled text)

theorem hasRoom_of_hasSpace (tracks : settings.provider.trackQuota = 1)
    (limited : 0 < c.user.quotaFiles) (honest : HonestProvider os)
    (space : c.hasSpace settings os w true) :
    HasRoom c.user w := by
  unfold Connection.hasSpace World.getUsedQuota at space
  simp only [Bool.true_and, limited, gt_iff_lt, decide_true, Bool.true_or,
    if_true, tracks, one_ne_zero, if_false] at space
  cases fault : os.getUsedQuota with
  | some err =>
    cases err with
    | methodDisabled text => exact absurd fault (honest text)
    | _ => simp [fault] at space
  | none =>
    cases entry : w.quota c.user.username with
    | none => simp [fault, entry] at space
    | some used =>
      refine ⟨used, entry, ?_⟩
      simp only [fault, entry] at space
      split at space
      · cases space
      · rename_i below
        simp only [ge_iff_le, Bool.or_eq_true, decide_eq_true_eq, not_or] at below
        omega

theorem HasRoom.of_adds {user : User} {home : Loc} {extra : Nat} {before after : World}
    (adds : Adds user home extra before after)
    (room : HasRoom user after) : HasRoom user before := by
  obtain ⟨used, entry, below⟩ := room
  have counter := adds.counter
  rw [entry] at counter
  obtain ⟨old, oldEntry, same⟩ := Option.map_eq_some_iff.mp counter.symm
  refine ⟨old, oldEntry, ?_⟩
  rw [same]
  exact below

end Space

/-! ## Opening an existing file -/

variable {fs after : FileSys} {flags : OpenFlags} {attr : Attr} {handle : Handle}

theorem openFile_name {path : Str} (done : fs.openFile path flags attr = .ok (after, handle)) :
    handle.name = path := by
  have created :
      ∀ parent text, fs.createAt path parent text flags attr =
        .ok (after, handle) → handle.name = path := by
    intro parent text made
    unfold createAt at made
    split at made
    · split at made
      · cases made
        rfl
      · cases made
    · cases made
  unfold openFile at done
  split at done
  · split at done
    · exact created _ _ done
    · cases done
  · split at done
    · unfold openAt at done
      split at done
      · split at done
        · cases done
        · split at done
          · cases done
            rfl
          · cases done
            rfl
      · cases done
    · exact created _ _ done
    · cases done
    · cases done
    · cases done

theorem Slot.openFile_truncated
    {p : Str} {names place leaf : Loc} {last : Str} {left rest ino : Nat}
    (slot : Slot fs p names last place left) (target : Target fs p leaf rest ino)
    (truncates : flags.trunc) (done : fs.openFile p flags attr = .ok (after, handle)) :
    after = fs.truncated ino attr ∧ handle = handleOf p ino flags := by
  have present := (slot.leaf_entry target.leads target.notDir).1
  unfold openFile at done
  rw [slot.entryOf, target.leads] at done
  split at done
  · -- with `O_EXCL` the entry is in the way
    simp only [createAt] at done
    split at done
    · split at done
      · rename_i room
        exact absurd room.absent present
      · cases done
    · cases done
  · simp only [openAt, target.entry, truncates, if_true] at done
    split at done
    · cases done
    · cases done
      exact ⟨rfl, rfl⟩

section Opens

variable {c : Connection} {settings : Settings} {os : Os} {w : World} {p : Str} {home comps : Loc}

/-- Moving an existing file aside adds nothing, and leaves a path that leads
to a file. -/
theorem SetAside.adds {info : FileInfo} {moved : World} (old : SetAside settings os w p info moved)
    (path : p = render comps) (proper : ProperNames comps)
    (fresh : TempFresh settings os w.fs p) (directory : w.fs.isDirAt home) (user : User) :
    Adds user home 0 w moved ∧
      ∃ names last place left final more ino,
        Slot moved.fs (uploadFilePath settings os p) names last place left ∧
          Target moved.fs (uploadFilePath settings os p) final more ino := by
  obtain ⟨leaf, rest, ino, target, _⟩ := target_of_stat old.found old.regular
  rcases moveAside_moved target path proper fresh old.aside with ⟨_, file, rfl⟩ |
    ⟨_, file, noSlash, after, names, last, place, left, rfl, done, slot, gone, move⟩
  · rw [file]
    obtain ⟨names, last, place, left, slot⟩ := target.slot path proper
    exact ⟨Adds.refl user home moved, names, last, place, left, leaf, rest, ino, slot, target⟩
  · rw [file]
    have temp := (slot.after_move gone target.leads target.notDir move).temp noSlash
    obtain ⟨final, more, leads, entry⟩ :=
      slot.resolve_moved noSlash gone target.leads target.notDir target.entry move
    refine ⟨Adds.setFs ?_, names, _, place, left, final, more, ino, temp, leads, entry⟩
    have leafEntry := (slot.leaf_entry target.leads target.notDir).2.1
    rw [(slot.temp noSlash).path, slot.path] at done
    refine Census.rename_sibling slot.proper (slot.temp noSlash).proper directory ?_ done
    intro entry named
    rw [← slot.path, slot.entryLoc] at named
    cases named
    exact not_prefix_of_leaf leafEntry directory

theorem siblingNames_of_notDir {file : Handle} {isNew : Bool} (path : p = render comps)
    (proper : ProperNames comps) (notDir : ∀ info, w.fs.stat p = .ok info → info.isDir = false)
    (fresh : TempFresh settings os w.fs p) (named : file.name = uploadFilePath settings os p) :
    SiblingNames (c.newTransfer os file p .upload isNew) := by
  by_cases atomic : settings.Atomic
  · obtain ⟨names, last, rfl⟩ := concat_of_notDir path notDir
    obtain ⟨tempProper, tempPath⟩ := getUploadTempFilePath_render (fresh atomic).1 proper
    refine Or.inr ⟨names, last, tempName os last, proper, tempProper, path, ?_⟩
    rw [uploadFilePath, if_pos atomic, path, tempPath] at named
    exact named
  · rw [uploadFilePath, if_neg atomic] at named
    exact Or.inl named

theorem openOutcome_launch {isNew : Bool} {before middle : World} {file : Handle} {filePath : Str}
    (adds : Adds c.user home (if isNew then 1 else 0) before middle)
    (names : SiblingNames (c.newTransfer os file p .upload isNew))
    (room : isNew = true → HasRoom c.user before) :
    OpenOutcome c.user home before (c.launch os middle file p filePath isNew) :=
  ⟨_, _, adds.trans (Adds.setPathPermissions c.user home middle os filePath
    c.user.getUID c.user.getGID), rfl, ⟨rfl, rfl, names⟩, room⟩

section Requests

variable {via : Option OpenFlags} {result : World × Option Nat}
    (tracks : settings.provider.trackQuota = 1) (limited : 0 < c.user.quotaFiles)
    (honest : HonestProvider os) (directory : w.fs.isDirAt home)
include tracks limited honest directory

theorem OpenSteps.outcome (steps : OpenSteps c settings os w p via result) (path : p = render comps)
    (proper : ProperNames comps) (fresh : TempFresh settings os w.fs p) :
    OpenOutcome c.user home w result := by
  have dirs := Adds.createMissingDirs c.user home c os w p
  have moved {info : FileInfo} {moved : World} (old : SetAside settings os w p info moved) :=
    old.adds path proper fresh directory c.user
  have released {info : FileInfo} {moved : World} (old : SetAside settings os w p info moved) :=
    (old.adds path proper fresh directory c.user).1.trans
      (Adds.updateUserQuota c.user home moved settings os.updateQuota (-info.size))
  have roomy {middle : World} (adds : Adds c.user home 0 w middle)
      (space : c.hasSpace settings os middle true) :=
    HasRoom.of_adds adds (hasRoom_of_hasSpace tracks limited honest space)
  have same := Adds.refl c.user home w
  cases steps with
  | refused => exact same
  | prepared => exact dirs
  | moved old => exact (moved old).1
  | released old => exact released old
  | @created _ middle _ _ ready made =>
    obtain ⟨adds, room, notDir⟩ :
        Adds c.user home 0 w middle ∧ HasRoom c.user w ∧
          ∀ info, w.fs.stat p = .ok info → info.isDir = false := by
      cases ready with
      | absent missing space => exact ⟨same, roomy same space, by simp [missing]⟩
      | prepared missing space result =>
        rw [result] at dirs
        exact ⟨dirs, roomy same space, by simp [missing]⟩
      | released old space => exact ⟨released old, roomy (released old) space, old.notDir⟩
    exact openOutcome_launch
      (adds.trans (Adds.setFs (Census.create home made)))
      (siblingNames_of_notDir path proper notDir fresh (openFile_name made)) fun _ => room
  | @reopened _ _ aside _ _ old _ truncates opened =>
    obtain ⟨adds, _, _, _, _, _, _, ino, slot, target⟩ := moved old
    obtain ⟨rfl, _⟩ := slot.openFile_truncated target truncates opened
    have shape : SameShape aside.fs (aside.fs.truncated ino os.attr) := sameShape_setInode ino _
    have emptied := adds.trans (Adds.setFs (Census.sameShape home shape))
    exact openOutcome_launch
      (emptied.trans (Adds.updateUserQuota c.user home _ settings os.updateQuota _))
      (siblingNames_of_notDir path proper old.notDir fresh (openFile_name opened)) (by simp)

theorem OpenEnds.outcome {rawPath : Str} (ends : OpenEnds c settings os w rawPath via result)
    (rooted : isAbs c.user.homeDir) (fresh : TempFresh settings os w.fs (c.requested rawPath)) :
    OpenOutcome c.user home w result := by
  rcases ends with rfl | ⟨_, p, accepted, steps⟩
  · exact Adds.refl c.user home w
  · obtain ⟨comps, proper, path⟩ := accepted_eq_render rooted accepted
    rw [← (buildPath_eq_ok_iff.mp accepted).1] at fresh
    exact steps.outcome tracks limited honest directory path proper fresh

end Requests

end Opens

/-! ## Uploads in progress -/

namespace UploadRun

/-- An upload of a new file that has not been closed. -/
def isOpenNew (s : UploadRun) (ref : Nat) : Bool :=
  ((s.uploads ref).any fun up => !up.done) && (s.world.transfers ref).any fun t => t.isNewFile

def openNew (s : UploadRun) : Nat :=
  ((Finset.range s.world.nextTransfer).filter fun ref =>
    s.isOpenNew ref = true).card

theorem openNew_congr {s s' : UploadRun}
    (nextTransfer : s'.world.nextTransfer = s.world.nextTransfer)
    (same : ∀ ref, s'.isOpenNew ref = s.isOpenNew ref) :
    s'.openNew = s.openNew := by
  unfold openNew
  rw [nextTransfer, funext same]

theorem openNew_succ {s s' : UploadRun}
    (nextTransfer : s'.world.nextTransfer = s.world.nextTransfer + 1)
    (same : ∀ ref, ref ≠ s.world.nextTransfer → s'.isOpenNew ref = s.isOpenNew ref) :
    s'.openNew = s.openNew + if s'.isOpenNew s.world.nextTransfer then 1 else 0 := by
  have others :
      (Finset.range s.world.nextTransfer).filter (fun ref => s'.isOpenNew ref = true) =
        (Finset.range s.world.nextTransfer).filter fun ref => s.isOpenNew ref = true := by
    apply Finset.filter_congr
    intro ref member
    rw [same ref (Finset.mem_range.mp member).ne]
  unfold openNew
  rw [nextTransfer, Finset.range_add_one, Finset.filter_insert, others]
  split
  · rw [Finset.card_insert_of_notMem (by simp)]
  · rfl

theorem openNew_close {s s' : UploadRun} {ref : Nat}
    (nextTransfer : s'.world.nextTransfer = s.world.nextTransfer)
    (known : ref < s.world.nextTransfer) (closed : s'.isOpenNew ref = false)
    (same : ∀ other, other ≠ ref → s'.isOpenNew other = s.isOpenNew other) :
    s'.openNew + (if s.isOpenNew ref then 1 else 0) = s.openNew := by
  have erased :
      (Finset.range s.world.nextTransfer).filter (fun other => s'.isOpenNew other = true) =
        ((Finset.range s.world.nextTransfer).filter
          fun other => s.isOpenNew other = true).erase ref := by
    ext other
    rw [Finset.mem_erase, Finset.mem_filter, Finset.mem_filter]
    by_cases here : other = ref
    · simp [here, closed]
    · simp [here, same other here]
  unfold openNew
  rw [nextTransfer, erased]
  by_cases new : s.isOpenNew ref = true
  · have member :
        ref ∈ (Finset.range s.world.nextTransfer).filter fun other => s.isOpenNew other = true :=
      Finset.mem_filter.mpr ⟨Finset.mem_range.mpr known, new⟩
    have positive := Finset.card_pos.mpr ⟨ref, member⟩
    rw [Finset.card_erase_of_mem member, if_pos new]
    omega
  · rw [Finset.erase_eq_of_notMem, if_neg new, Nat.add_zero]
    intro member
    exact new (Finset.mem_filter.mp member).2

end UploadRun

/-! ## The condition -/

/-- The request has got an upload of a new file. -/
def CreatesFile (result : World × Option Nat) : Prop :=
  ∃ ref ∈ result.2, ∃ t ∈ result.1.transfers ref, t.isNewFile = true

instance (result : World × Option Nat) : Decidable (CreatesFile result) :=
  inferInstanceAs (Decidable (∃ ref ∈ result.2, ∃ t ∈ result.1.transfers ref, _))

/-- When the counter leaves room for a new file, it does so with the uploads
in progress added to it. -/
def RoomCounted (user : User) (s : UploadRun) : Prop :=
  ∀ used ∈ s.world.quota user.username, used.1 < user.quotaFiles →
    used.1 + s.openNew < user.quotaFiles

instance (user : User) (s : UploadRun) : Decidable (RoomCounted user s) :=
  inferInstanceAs (Decidable (∀ used ∈ s.world.quota user.username, _))

/-- An open request that creates a file finds the uploads in progress
accounted for.  The temporary name is not in use, and the provider does not
pretend that quotas are switched off. -/
structure OpenSettled (settings : Settings) (user : User) (s : UploadRun)
    (os : Os) (p : Str) (result : World × Option Nat) : Prop where
  room : CreatesFile result → RoomCounted user s
  fresh : TempFresh settings os s.world.fs p
  honest : HonestProvider os

/-- The provider takes the update of the counters, and the temporary name is
not one of a directory above the home directory. -/
structure CloseSettled (home : Loc) (s : UploadRun) (os : Os) (ref : Nat) : Prop where
  counted : os.closeQuota = none
  apart :
    ∀ t, s.world.transfers ref = some t → t.file.name ≠ t.path →
      ∀ entry, s.world.fs.entryLoc t.file.name = .ok entry → ¬ entry <+: home

def UploadsSettled (settings : Settings) (user : User) (home : Loc)
    (s : UploadRun) : UploadEvent → Prop
  | .sftpOpen c os request =>
    OpenSettled settings user s os (c.requested request.filepath)
      (numbered (c.filewrite settings os s.world request))
  | .scpOpen c os rawPath =>
    OpenSettled settings user s os (c.requested rawPath) (c.scpOpen settings os s.world rawPath)
  | .writeAt _ _ _ _ _ => True
  | .finish os ref => CloseSettled home s os ref
  | .abort os ref => CloseSettled home s os ref

def ByUser (user : User) : UploadEvent → Prop
  | .sftpOpen c _ _ => c.user = user
  | .scpOpen c _ _ => c.user = user
  | _ => True

/-! ## The invariant -/

/-- The transfers of a run are all of one kind, and every upload has one. -/
structure Listed (good : Transfer → Prop) (s : UploadRun) : Prop where
  launched : ∀ ref t, s.world.transfers ref = some t → ref < s.world.nextTransfer ∧ good t
  uploads : ∀ ref up, s.uploads ref = some up → ∃ t, s.world.transfers ref = some t

namespace Listed

variable {good : Transfer → Prop} {s : UploadRun} {w : World}

theorem start (good : Transfer → Prop) (fs : FileSys) (quota : Str → Option (Int × Int)) :
    Listed good (UploadRun.start fs quota) := by
  refine ⟨?_, ?_⟩
  · intro ref t entry
    cases entry
  · intro ref up entry
    cases entry

theorem kept (listed : Listed good s) (transfers : w.transfers = s.world.transfers)
    (next : w.nextTransfer = s.world.nextTransfer) :
    Listed good { s with world := w } := by
  refine ⟨?_, ?_⟩
  · simp only [transfers, next]
    exact listed.launched
  · simp only [transfers]
    exact listed.uploads

theorem added (listed : Listed good s) (transfers : w.transfers = s.world.transfers)
    (next : w.nextTransfer = s.world.nextTransfer) {t : Transfer} (fits : good t) :
    Listed good (s.opened ((w.addTransfer t).1, some (w.addTransfer t).2)) := by
  simp only [UploadRun.opened, World.addTransfer, if_true]
  refine ⟨?_, ?_⟩
  · intro other old entry
    simp only [transfers, next] at entry ⊢
    split at entry
    · cases entry
      exact ⟨by omega, fits⟩
    · have known := listed.launched other old entry
      exact ⟨by omega, known.2⟩
  · intro other up entry
    simp only [transfers, next] at entry ⊢
    by_cases here : other = s.world.nextTransfer
    · exact ⟨t, if_pos here⟩
    · rw [Function.update_of_ne here] at entry
      obtain ⟨old, known⟩ := listed.uploads other up entry
      exact ⟨old, (if_neg here).trans known⟩

theorem updated (listed : Listed good s) {ref : Nat} {t' : Transfer} {up' : Upload}
    (known : ref < s.world.nextTransfer) (fits : good t')
    (next : w.nextTransfer = s.world.nextTransfer) (transfers :
      ∀ other, w.transfers other = if other = ref then some t' else s.world.transfers other)
    (finished : List (List Char)) :
    Listed good
      { s with
        world := w
        uploads := Function.update s.uploads ref (some up')
        finished := finished } := by
  refine ⟨?_, ?_⟩
  · intro other old found
    simp only [transfers, next] at found ⊢
    split at found
    · cases found
      rename_i here
      exact ⟨here ▸ known, fits⟩
    · exact listed.launched other old found
  · intro other found entry
    simp only [transfers] at entry ⊢
    by_cases here : other = ref
    · exact ⟨t', if_pos here⟩
    · rw [Function.update_of_ne here] at entry
      obtain ⟨old, oldEntry⟩ := listed.uploads other found entry
      exact ⟨old, (if_neg here).trans oldEntry⟩

end Listed

/-- The files below the home directory are covered by the counter and the
uploads in progress, and are within the limit. -/
structure Within (user : User) (home : Loc) (limit : Int) (s : UploadRun) : Prop where
  directory : s.world.fs.isDirAt home = true
  covered :
    ∃ used, s.world.quota user.username = some used ∧
      ((s.world.fs.filesBelow home).card : Int) ≤ used.1 + s.openNew
  bound : ((s.world.fs.filesBelow home).card : Int) ≤ limit
  launched : ∀ ref t, s.world.transfers ref = some t → ref < s.world.nextTransfer ∧ Launched user t
  uploads : ∀ ref up, s.uploads ref = some up → ∃ t, s.world.transfers ref = some t

section Steps

variable {settings : Settings} {user : User} {home : Loc} {limit : Int} {s : UploadRun}

theorem Within.listed (within : Within user home limit s) : Listed (Launched user) s :=
  ⟨within.launched, within.uploads⟩

variable {w : World} {t : Transfer} {ref : Nat}

theorem Adds.covered {extra opens : Nat} (adds : Adds user home extra s.world w) (covered :
      ∃ used, s.world.quota user.username = some used ∧
        ((s.world.fs.filesBelow home).card : Int) ≤ used.1 + opens) :
    ∃ used, w.quota user.username = some used ∧
      ((w.fs.filesBelow home).card : Int) ≤ used.1 + (opens + extra : Nat) := by
  obtain ⟨used, entry, below⟩ := covered
  have counter := adds.counter
  rw [entry] at counter
  obtain ⟨new, newEntry, same⟩ := Option.map_eq_some_iff.mp counter
  refine ⟨new, newEntry, ?_⟩
  have count := adds.census.files
  rw [same]
  push_cast
  omega

theorem Within.refused (within : Within user home limit s) (adds : Adds user home 0 s.world w) :
    Within user home limit { s with world := w } := by
  have same : UploadRun.openNew { s with world := w } = s.openNew := by
    apply UploadRun.openNew_congr adds.nextTransfer
    intro ref
    simp [UploadRun.isOpenNew, adds.transfers]
  obtain ⟨launched, uploads⟩ := within.listed.kept adds.transfers adds.nextTransfer
  refine ⟨adds.census.directory within.directory, ?_, ?_, launched, uploads⟩
  · rw [same]
    exact adds.covered within.covered
  · have count := adds.census.files
    have bound := within.bound
    simp only
    omega

theorem Within.opened (within : Within user home limit s) {result : World × Option Nat}
    (outcome : OpenOutcome user home s.world result)
    (room : CreatesFile result → RoomCounted user s) (most : user.quotaFiles ≤ limit) :
    Within user home limit (s.opened result) := by
  obtain ⟨after, number⟩ := result
  cases number with
  | none => exact within.refused outcome
  | some ref =>
    obtain ⟨t, middle, adds, added, launched, hasRoom⟩ := outcome
    simp only [World.addTransfer, Prod.mk.injEq] at added
    obtain ⟨rfl, rfl⟩ := added
    obtain ⟨known, uploads⟩ := within.listed.added adds.transfers adds.nextTransfer launched
    simp only [World.addTransfer] at known uploads
    rw [adds.nextTransfer] at known uploads ⊢
    simp only [UploadRun.opened, if_true] at known uploads ⊢
    refine ⟨adds.census.directory within.directory, ?_, ?_, known, uploads⟩
    · rw [UploadRun.openNew_succ (s := s)]
      · have covered := adds.covered within.covered
        simpa [UploadRun.isOpenNew] using covered
      · rfl
      · intro other different
        simp [UploadRun.isOpenNew, different, adds.transfers]
    · have count := adds.census.files
      have bound := within.bound
      by_cases new : t.isNewFile = true
      · obtain ⟨used, entry, below⟩ := hasRoom new
        obtain ⟨same, sameEntry, covered⟩ := within.covered
        rw [entry] at sameEntry
        cases sameEntry
        have left := room ⟨_, rfl, t, by simp, new⟩ used entry below
        rw [if_pos new] at count
        simp only
        omega
      · rw [if_neg new] at count
        simp only
        omega

/-- An upload keeps its kind while it is being served. -/
structure SameUpload (t t' : Transfer) : Prop where
  upload : t'.transferType = t.transferType
  user : t'.user = t.user
  name : t'.file.name = t.file.name
  path : t'.path = t.path
  isNewFile : t'.isNewFile = t.isNewFile

theorem SameUpload.launched
    {t' : Transfer} (same : SameUpload t t') (launched : Launched user t) : Launched user t' := by
  refine ⟨same.upload.trans launched.upload, same.user.trans launched.user, ?_⟩
  have names := launched.names
  unfold SiblingNames at names ⊢
  rw [same.name, same.path]
  exact names

theorem writeAt_upload (user : User) (home : Loc) (os : Os) (index : Nat)
    (entry : w.transfers ref = some t) (bytes : List Char) (off : Int) :
    ∃ middle t', (Transfer.writeAt os index w ref bytes off).1 = middle.setTransfer ref t' ∧
        Adds user home 0 w middle ∧ SameUpload t t' := by
  unfold Transfer.writeAt
  rw [entry]
  simp only
  split
  · exact ⟨w, _, rfl, Adds.refl user home w, ⟨rfl, rfl, rfl, rfl, rfl⟩⟩
  · rename_i fs done
    have shape : SameShape w.fs fs := writeAt_sameShape done
    exact ⟨w.setFs fs, _, rfl, Adds.setFs (Census.sameShape home shape), ⟨rfl, rfl, rfl, rfl, rfl⟩⟩

theorem Within.setTransfer (within : Within user home limit s) {middle : World} {t' : Transfer}
    {up up' : Upload} (adds : Adds user home 0 s.world middle)
    (entry : s.world.transfers ref = some t)
    (upload : s.uploads ref = some up) (same : SameUpload t t') (done : up'.done = up.done) :
    Within user home limit
      { s with
        world := middle.setTransfer ref t'
        uploads := Function.update s.uploads ref (some up') } := by
  have opens :
      UploadRun.openNew
          { s with
            world := middle.setTransfer ref t'
            uploads := Function.update s.uploads ref (some up') } =
        s.openNew := by
    apply UploadRun.openNew_congr adds.nextTransfer
    intro other
    by_cases here : other = ref
    · simp [UploadRun.isOpenNew, World.setTransfer, here, upload, entry, done, same.isNewFile]
    · simp [UploadRun.isOpenNew, World.setTransfer, here, adds.transfers]
  obtain ⟨known, launched⟩ := within.launched ref t entry
  obtain ⟨launchedAfter, uploads⟩ :=
    @Listed.updated _ s (middle.setTransfer ref t') within.listed ref t' up'
      known (same.launched launched) adds.nextTransfer
      (fun other => by simp [World.setTransfer, adds.transfers]) s.finished
  refine ⟨adds.census.directory within.directory, ?_, ?_, launchedAfter, uploads⟩
  · rw [opens]
    exact adds.covered within.covered
  · have count := adds.census.files
    have bound := within.bound
    simp only [World.setTransfer]
    omega

theorem settledTree_census {os : Os} {fs : FileSys} {t : Transfer}
    (names : SiblingNames t) (directory : fs.isDirAt home) (apart :
      t.file.name ≠ t.path → ∀ entry, fs.entryLoc t.file.name = .ok entry → ¬ entry <+: home) :
    Census home 0 fs (Transfer.settledTree os fs t.file.name t.path) := by
  unfold Transfer.settledTree
  split
  · rename_i different
    split
    · rename_i after done
      rcases names with same | ⟨parents, last, temp, lastProper, tempProper, path, name⟩
      · exact absurd same different
      · have renamed := (orFault_eq_ok.mp done).2
        rw [name, path] at renamed
        exact Census.rename_sibling tempProper lastProper directory (name ▸ apart different) renamed
    · exact Census.refl home fs
  · exact Census.refl home fs

theorem close_tables (settings : Settings) (os : Os) (entry : w.transfers ref = some t) :
    (Transfer.close settings os w ref).1.nextTransfer = w.nextTransfer ∧
      ∀ other, (Transfer.close settings os w ref).1.transfers other =
        if other = ref then some { t with file := t.file.closed }
        else w.transfers other := by
  have frame := @Transfer.settle_frame os (w.setTransfer ref { t with file := t.file.closed }) t
  unfold Transfer.close Transfer.account
  rw [entry]
  simp only
  split
  · rw [World.updateUserQuota_transfers, World.updateUserQuota_nextTransfer]
    simp only [World.removeTransfer, World.addClose, frame.2.1, frame.2.2]
    exact ⟨rfl, fun _ => rfl⟩
  · simp only [World.removeTransfer, World.addClose, frame.2.1, frame.2.2]
    exact ⟨rfl, fun _ => rfl⟩

/-- Closing an upload moves it from the uploads in progress to the
counter. -/
theorem Within.closed (within : Within user home limit s)
    (tracks : settings.provider.trackQuota = 1) {os : Os} {up : Upload}
    (upload : s.uploads ref = some up) (active : up.done = false)
    (settled : CloseSettled home s os ref) (extra : List (List Char)) :
    Within user home limit (s.closed settings os ref up extra) := by
  obtain ⟨t, entry⟩ := within.uploads ref up upload
  obtain ⟨known, launched⟩ := within.launched ref t entry
  obtain ⟨nextTransfer, transfers⟩ := close_tables settings os entry
  have tree := @Transfer.close_upload_fs settings os s.world ref t entry launched.upload
  have census :=
    @settledTree_census home os s.world.fs t launched.names within.directory (settled.apart t entry)
  rw [← tree] at census
  have opens :
      (s.closed settings os ref up extra).openNew +
        (if s.isOpenNew ref then 1 else 0) = s.openNew := by
    apply UploadRun.openNew_close nextTransfer known
    · simp [UploadRun.isOpenNew, UploadRun.closed]
    · intro other different
      simp [UploadRun.isOpenNew, UploadRun.closed, different, transfers]
  have isNew : s.isOpenNew ref = t.isNewFile := by
    simp [UploadRun.isOpenNew, upload, active, entry]
  have count := census.files
  have same : SameUpload t { t with file := t.file.closed } := ⟨rfl, rfl, rfl, rfl, rfl⟩
  obtain ⟨launchedAfter, uploads⟩ :=
    @Listed.updated _ s _ within.listed ref _ { up with done := true } known
      (same.launched launched) nextTransfer transfers (extra ++ s.finished)
  refine ⟨census.directory within.directory, ?_, ?_, launchedAfter, uploads⟩
  · obtain ⟨used, quota, covered⟩ := within.covered
    have counted := @Transfer.close_upload_quota settings os s.world ref t entry launched.upload
    have tracked : World.tracked settings t.user = true := by
      simp [World.tracked, tracks]
    rw [World.updateUserQuota_own, launched.user, quota, Option.map_some,
      if_pos ⟨launched.user ▸ tracked, settled.counted⟩] at counted
    refine ⟨_, counted, ?_⟩
    rw [isNew] at opens
    simp only [UploadRun.closed] at opens ⊢
    split at opens
    · rename_i new
      simp only [new, if_true]
      omega
    · rename_i old
      simp only [old]
      omega
  · have bound := within.bound
    simp only [UploadRun.closed]
    omega

theorem Within.step (tracks : settings.provider.trackQuota = 1) (limited : 0 < user.quotaFiles)
    (most : user.quotaFiles ≤ limit) (rooted : isAbs user.homeDir) {event : UploadEvent}
    (within : Within user home limit s) (byUser : ByUser user event)
    (settled : UploadsSettled settings user home s event) :
    Within user home limit (UploadRun.step settings s event) := by
  cases event with
  | sftpOpen c os request =>
    obtain rfl : c.user = user := byUser
    exact within.opened
      ((filewrite_ends request).outcome tracks limited settled.honest
        within.directory rooted settled.fresh) settled.room most
  | scpOpen c os rawPath =>
    obtain rfl : c.user = user := byUser
    exact within.opened
      ((scpOpen_ends rawPath).outcome tracks limited settled.honest
        within.directory rooted settled.fresh) settled.room most
  | writeAt os index ref bytes off =>
    simp only [UploadRun.step]
    split
    · exact within
    · rename_i up upload
      split
      · exact within
      · obtain ⟨t, entry⟩ := within.uploads ref up upload
        obtain ⟨middle, t', world, adds, same⟩ := writeAt_upload user home os index entry bytes off
        rw [world]
        apply within.setTransfer adds entry upload same
        cases (Transfer.writeAt os index s.world ref bytes off).2.2 <;> rfl
  | finish os ref =>
    simp only [UploadRun.step]
    split
    · exact within
    · rename_i up upload
      split
      · exact within
      · rename_i active
        exact within.closed tracks upload (by simpa using active) settled _
  | abort os ref =>
    simp only [UploadRun.step]
    split
    · exact within
    · rename_i up upload
      split
      · exact within
      · rename_i active
        exact within.closed tracks upload (by simpa using active) settled _

end Steps

def twoFilesUser : User :=
  { sampleUser with quotaFiles := 2 }

def quotaOpen (path : String) : UploadEvent :=
  .sftpOpen ⟨"c".toList, twoFilesUser, "SFTP".toList⟩ sampleOs
    ⟨.other "Put".toList, path.toList, [], 26, ⟨0, 0, 0, 0, 0, 0⟩⟩

/-- `f` is there and counted; `g` and `h` are opened before either is
closed. -/
def uploadsAtOnce : List UploadEvent :=
  [quotaOpen "/g", quotaOpen "/h"]

/-- `g` is closed before `h` is opened. -/
def uploadsInTurn : List UploadEvent :=
  [quotaOpen "/g", .finish sampleOs 0, quotaOpen "/h"]

end Sshserv.Serv
