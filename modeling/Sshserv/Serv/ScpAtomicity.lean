import Sshserv.Serv.Creation
import Sshserv.Serv.ScpUpload
import Sshserv.Serv.UploadTree

/-!
# Failed SCP uploads

`scpCommand.handleUpload` can fail before it has read any data, and it may
then have changed the files of the user or the used quota.
-/

namespace Sshserv.Serv

open Lib UnixPath FileTree FileSys DataProvider

/-! ## Early failures of the data phase -/

variable {ch : Channel} {before after : FileSys} {home loc : Loc} {new : Option View}

section DataPhase

variable {settings : Settings} {os : Os} {w : World} {ch : Channel} {sizeToRead : Int} {ref : Nat}

private theorem receive_early {fuel index bufLen : Nat} {remaining : Int} (positive : 0 < bufLen)
    (nothing :
      (receive settings os ref sizeToRead (fuel + 1) index remaining bufLen w ch).dataRead = 0) :
    receive settings os ref sizeToRead (fuel + 1) index remaining bufLen w ch =
      ⟨(Transfer.close settings os w ref).1, ch.sendErrorMessage eofText, 0, false⟩ := by
  rw [receive] at nothing ⊢
  cases read : ch.read bufLen with
  | none => rfl
  | some result =>
    obtain ⟨buf, next⟩ := result
    have nonempty := Channel.read_nonempty positive read
    have length : 0 < buf.length := List.length_pos_iff.mpr nonempty
    rw [read] at nothing
    simp only at nothing
    split at nothing
    · simp only at nothing
      omega
    · simp only at nothing
      omega

theorem getUploadFileData_early
    (nothing : (getUploadFileData settings os w ch sizeToRead ref).dataRead = 0) :
    (getUploadFileData settings os w ch sizeToRead ref).world =
      (Transfer.close settings os w ref).1 := by
  unfold getUploadFileData at nothing ⊢
  cases confirmed : ch.sendConfirmationMessage with
  | mk next sent =>
    cases sent with
    | false => rfl
    | true =>
      simp only [confirmed] at nothing ⊢
      by_cases some : sizeToRead > 0
      · simp only [some, if_true] at nothing ⊢
        have positive : 0 < min 32768 sizeToRead.toNat := by omega
        have early :
            (receive settings os ref sizeToRead (next.pending + 1) 0
              sizeToRead (min 32768 sizeToRead.toNat) w next).dataRead = 0 := by
          split at nothing
          · exact nothing
          · exact nothing
        rw [receive_early positive early]
        rfl
      · simp only [some, if_false, if_true]
        exact finishUpload_world _ _ _ _ _

end DataPhase

/-! ## Opening the file -/

section Opening

variable (c : Connection) (settings : Settings) (os : Os) (w : World)

/-- `handleUploadFile` gets as far as an open file. -/
def Opens (requestPath filePath : Str) : Prop :=
  c.hasSpace settings os w true = true ∧
    ¬ (orFault os.statDir (w.fs.stat (dir requestPath)) = .error .noent ∧
      ¬ c.user.hasPerm permCreateDirs = true) ∧
    ∃ fs file, orFault os.openFile (w.fs.create filePath os.attr) = .ok (fs, file)

def openedWorld (requestPath filePath : Str) (fs : FileSys) (file : Handle) : World × Nat :=
  ((w.setFs fs).setPathPermissions os filePath c.user.getUID
    c.user.getGID).addTransfer (c.newTransfer os file requestPath .upload true)

end Opening

section UploadFile

variable {cmd : ScpCommand} {settings : Settings} {os : Os} {w : World}
    {ch : Channel} {requestPath filePath : Str} {sizeToRead : Int}

theorem handleUploadFile_refused (ch : Channel) (sizeToRead : Int)
    (refused : ¬ Opens cmd.connection settings os w requestPath filePath) :
    ∃ text, cmd.handleUploadFile settings os w ch requestPath filePath sizeToRead =
        ⟨refuse w ch text, 0⟩ := by
  unfold ScpCommand.handleUploadFile
  by_cases space : cmd.connection.hasSpace settings os w true = true
  · rw [if_neg (by simp [space])]
    split
    · exact ⟨_, rfl⟩
    · rename_i allowed
      cases opened : orFault os.openFile (w.fs.create filePath os.attr) with
      | error err => exact ⟨_, rfl⟩
      | ok result => exact absurd ⟨space, allowed, result.1, result.2, opened⟩ refused
  · rw [if_pos (by simp [space])]
    exact ⟨_, rfl⟩

theorem handleUploadFile_opened (opens : Opens cmd.connection settings os w requestPath filePath)
    {fs : FileSys} {file : Handle}
    (opened : orFault os.openFile (w.fs.create filePath os.attr) = .ok (fs, file)) :
    cmd.handleUploadFile settings os w ch requestPath filePath sizeToRead =
      getUploadFileData settings os
        (openedWorld cmd.connection os w requestPath filePath fs file).1 ch
        sizeToRead
        (openedWorld cmd.connection os w requestPath filePath fs file).2 := by
  obtain ⟨space, allowed, _⟩ := opens
  unfold ScpCommand.handleUploadFile
  rw [if_neg (by simp [space]), if_neg allowed, opened]
  rfl

end UploadFile

/-! ## Closing it again -/

section Closing

variable (c : Connection) (os : Os) (w : World) (requestPath filePath : Str)
    (fs : FileSys) (file : Handle)

theorem openedWorld_entry :
    (openedWorld c os w requestPath filePath fs file).1.transfers
        (openedWorld c os w requestPath filePath fs file).2 =
      some (c.newTransfer os file requestPath .upload true) := by
  simp [openedWorld, World.addTransfer]

theorem openedWorld_quota :
    (openedWorld c os w requestPath filePath fs file).1.quota = w.quota := by
  simp only [openedWorld, World.addTransfer, World.setPathPermissions]
  split <;> rfl

theorem openedWorld_tree :
    SameShape fs (openedWorld c os w requestPath filePath fs file).1.fs ∧
      ∀ ino, ((openedWorld c os w requestPath filePath fs file).1.fs.inode
          ino).data = (fs.inode ino).data :=
  setPathPermissions_tree (w.setFs fs) os filePath c.user.getUID c.user.getGID

end Closing

theorem handleUploadFile_early
    {cmd : ScpCommand} {settings : Settings} {os : Os} {w : World} {requestPath filePath : Str}
    {sizeToRead : Int} (opens : Opens cmd.connection settings os w requestPath filePath) (nothing :
      (cmd.handleUploadFile settings os w ch requestPath filePath sizeToRead).dataRead = 0) :
    ∃ created file now, w.fs.create filePath os.attr = .ok (created, file) ∧
        Filled created now file [] ∧
        (cmd.handleUploadFile settings os w ch requestPath filePath sizeToRead).world.fs =
          Transfer.settledTree os now filePath requestPath ∧
        (cmd.handleUploadFile settings os w ch requestPath filePath
            sizeToRead).world.quota cmd.connection.user.username =
          (w.updateUserQuota settings os.closeQuota cmd.connection.user 1
            0).quota cmd.connection.user.username := by
  obtain ⟨created, file, opened⟩ := opens.2.2
  have made := (orFault_eq_ok.mp opened).2
  have name : file.name = filePath := by
    rcases create_cases made with
      ⟨_, _, _, _, _, _, rfl⟩ | ⟨_, _, _, _, _, _, rfl⟩ <;> rfl
  rw [handleUploadFile_opened opens opened] at nothing ⊢
  rw [getUploadFileData_early nothing]
  have entry := openedWorld_entry cmd.connection os w requestPath filePath created file
  obtain ⟨shape, data⟩ := openedWorld_tree cmd.connection os w requestPath filePath created file
  refine ⟨created, file, _, made, filled_opened made shape data, ?_, ?_⟩
  · rw [Transfer.close_upload_fs entry rfl]
    simp only [Connection.newTransfer, name]
  · refine (Transfer.close_upload_quota entry rfl).trans ?_
    simp only [Connection.newTransfer, if_true, World.updateUserQuota_own, openedWorld_quota]

/-! ## The property -/

/-- Nothing at a location or below it looks different. -/
def SameBelow (home : Loc) (before after : FileSys) : Prop :=
  ∀ loc, home <+: loc → after.view loc = before.view loc

/-- The upload returned an error and has read no data from the client. -/
def FailsEarly (upload : UploadState) : Prop :=
  (∃ text, upload.result = .failed text) ∧ upload.dataRead = 0

/-- The files of the user and the used quota are as they were. -/
def Unchanged (c : Connection) (before after : World) : Prop :=
  (∀ home, before.fs.evalLoc c.user.homeDir = .ok home → SameBelow home before.fs after.fs) ∧
    after.quota c.user.username = before.quota c.user.username

/-- An early failure of `handleUpload` changes nothing. -/
def FailureAtomic (cmd : ScpCommand) (settings : Settings) (os : Os) (w : World)
    (ch : Channel) (rawPath : Str) (sizeToRead : Int) : Prop :=
  FailsEarly (cmd.handleUpload settings os w ch rawPath sizeToRead) →
    Unchanged cmd.connection w (cmd.handleUpload settings os w ch rawPath sizeToRead).world

section Damage

variable (c : Connection) (settings : Settings) (os : Os) (w : World) (home : Loc) (p : Str)

/-- A quota update with this fault reaches the counters of the user. -/
def Counts (fault : Option ProviderError) : Prop :=
  World.tracked settings c.user = true ∧ fault = none ∧ w.quota c.user.username ≠ none

/-- The entry that a path names is below the home directory. -/
def EntryInside : Prop :=
  ∃ loc, w.fs.entryLoc p = .ok loc ∧ home <+: loc

/-- The place of the file that is left for a new target is below the home
directory. -/
def NewFileInside : Prop :=
  if settings.Atomic then EntryInside w home p
  else ∃ loc, (w.fs.resolve p).stuckAt = some loc ∧ home <+: loc

/-- A new target: the upload got as far as an open file, which stays behind
and is counted. -/
def DamagesNew : Prop :=
  Opens c settings os w p (uploadFilePath settings os p) ∧
    (Counts c settings w os.closeQuota ∨ NewFileInside settings w home p)

/-- The file that a path leads to is below the home directory. -/
def ContentInside : Prop :=
  ∃ loc left, w.fs.resolve p = .found loc left ∧ home <+: loc

/-- An existing target of the given size: its size has been subtracted, its
entry has been moved away, its content has been truncated, or it has been
counted once more. -/
def DamagesExisting (size : Int) : Prop :=
  ∃ moved, Connection.moveAside settings os w p (uploadFilePath settings os p) = .ok moved ∧
      ((Counts c settings w os.updateQuota ∧ size ≠ 0) ∨
        (Opens c settings os
            (moved.updateUserQuota settings os.updateQuota c.user 0 (-size))
            p (uploadFilePath settings os p) ∧
          (Counts c settings w os.closeQuota ∨
            (size ≠ 0 ∧ ContentInside w home p) ∨
            (settings.Atomic ∧ os.closeRename ≠ none ∧ EntryInside w home p))) ∨
        (¬ Opens c settings os
            (moved.updateUserQuota settings os.updateQuota c.user 0 (-size))
            p (uploadFilePath settings os p) ∧
          settings.Atomic ∧ EntryInside w home p))

/-- What an upload to the accepted path does before it can fail. -/
def Damages : Prop :=
  match w.fs.stat p with
  | .error _ => DamagesNew c settings os w home p
  | .ok info => info.isDir = false ∧ DamagesExisting c settings os w home p info.size

/-- An upload that is allowed does something before it fails. -/
def UploadDamages (rawPath : Str) : Prop :=
  c.user.hasPerm permUpload = true ∧
    ∃ p home, c.buildPath w.fs rawPath = .ok p ∧
      w.fs.evalLoc c.user.homeDir = .ok home ∧
      Damages c settings os w home p

end Damage

/-! ## Comparing trees and counters -/

theorem sameBelow_updatedAt
    (updated : UpdatedAt before after loc new) (different : new ≠ before.view loc) :
    SameBelow home before after ↔ ¬ home <+: loc := by
  constructor
  · intro same inside
    exact different (((updated loc).trans (if_pos rfl)).symm.trans (same loc inside))
  · intro outside other below
    rw [updated, if_neg]
    rintro rfl
    exact outside below

theorem sameBelow_updatedAt_iff (updated : UpdatedAt before after loc new) :
    SameBelow home before after ↔ ¬ (new ≠ before.view loc ∧ home <+: loc) := by
  by_cases different : new ≠ before.view loc
  · rw [sameBelow_updatedAt updated different]
    simp [different]
  · simp only [different, false_and, not_false_eq_true, iff_true]
    intro other _
    rw [updated]
    split
    · rename_i here
      rw [here]
      exact not_not.mp different
    · rfl

theorem unchanged_iff {c : Connection} {before after : World}
    (located : before.fs.evalLoc c.user.homeDir = .ok home) :
    Unchanged c before after ↔
      SameBelow home before.fs after.fs ∧
        after.quota c.user.username = before.quota c.user.username := by
  unfold Unchanged
  rw [located]
  simp

theorem prefix_sibling_iff {place : Loc} {one two : Str} (notOne : home ≠ place ++ [one])
    (notTwo : home ≠ place ++ [two]) :
    home <+: place ++ [one] ↔ home <+: place ++ [two] := by
  rw [List.prefix_concat_iff, List.prefix_concat_iff]
  simp [notOne, notTwo]

section Counters

variable {c : Connection} {settings : Settings} {w : World}

theorem counted_iff {fault : Option ProviderError} {filesAdd sizeAdd : Int} :
    (w.updateUserQuota settings fault c.user filesAdd sizeAdd).quota
        c.user.username = w.quota c.user.username ↔
      ¬ (Counts c settings w fault ∧ (filesAdd ≠ 0 ∨ sizeAdd ≠ 0)) := by
  rw [World.updateUserQuota_own]
  unfold Counts
  cases entry : w.quota c.user.username with
  | none => simp
  | some used =>
    by_cases counts : World.tracked settings c.user = true ∧ fault = none
    · simp only [counts, Option.map_some, and_self, if_true, Option.some.injEq, Prod.ext_iff]
      simp
    · simp only [Option.map_some, if_neg counts, true_iff]
      exact fun both => counts ⟨both.1.1, both.1.2.1⟩

/-- The size is subtracted when the target is found, the file is counted when
the transfer is closed. -/
theorem counted_twice_iff {fault closeFault : Option ProviderError} {size : Int} :
    ((w.updateUserQuota settings fault c.user 0 (-size)).updateUserQuota
        settings closeFault c.user 1 0).quota c.user.username =
        w.quota c.user.username ↔
      ¬ (Counts c settings w fault ∧ size ≠ 0) ∧ ¬ Counts c settings w closeFault := by
  rw [World.updateUserQuota_own, World.updateUserQuota_own]
  unfold Counts
  cases entry : w.quota c.user.username with
  | none => simp
  | some used =>
    cases tracks : World.tracked settings c.user with
    | false => simp
    | true => cases fault <;> cases closeFault <;> simp [Prod.ext_iff]

end Counters

/-! ## A new target -/

def TempFresh (settings : Settings) (os : Os) (fs : FileSys) (p : Str) : Prop :=
  settings.Atomic →
    '/' ∉ os.guid ∧ ∀ loc, fs.entryLoc (getUploadTempFilePath os p) = .ok loc → fs.node loc = none

section Files

variable {settings : Settings} {os : Os} {fs : FileSys} {p : Str}
    {home comps : Loc} {attr : Attr} {created now : FileSys} {file : Handle}

theorem settledTree_self : Transfer.settledTree os now p p = now := by
  simp [Transfer.settledTree]

theorem settledTree_renamed {name : Str} {final : FileSys} (different : name ≠ p)
    (renamed : now.rename name p = .ok final) :
    Transfer.settledTree os now name p = if os.closeRename = none then final else now := by
  unfold Transfer.settledTree
  rw [if_pos different, renamed]
  cases os.closeRename <;> simp [orFault]

theorem Slot.ne_entry_of_missing {names place : Loc} {last : Str} {left : Nat}
    (slot : Slot fs p names last place left) (missing : fs.stat p = .error .noent) {loc : Loc}
    (present : fs.isDirAt loc = true ∨ ∃ ino, fs.node loc = some (.file ino)) :
    loc ≠ place ++ [last] := by
  rintro rfl
  rw [stat_eq_error_iff, slot.resolve, walk_name] at missing
  rcases present with directory | ⟨ino, entry⟩
  · obtain ⟨attr, entry⟩ := isDirAt_iff.mp directory
    simp [entry, Outcome.located] at missing
  · simp [entry, Outcome.located] at missing

variable {w : World} {leaf : Loc} {rest ino : Nat}

theorem sameBelow_new_iff (path : p = render comps) (proper : ProperNames comps)
    (present : w.fs.isDirAt home = true ∨ ∃ ino, w.fs.node home = some (.file ino))
    (missing : w.fs.stat p = .error .noent) (fresh : TempFresh settings os w.fs p)
    (opened : w.fs.create (uploadFilePath settings os p) attr = .ok (created, file))
    (filled : Filled created now file []) :
    SameBelow home w.fs (Transfer.settledTree os now (uploadFilePath settings os p) p) ↔
      ¬ NewFileInside settings w home p := by
  unfold uploadFilePath NewFileInside at *
  by_cases atomic : settings.Atomic
  · simp only [atomic, if_true] at opened ⊢
    obtain ⟨noSlash, absent⟩ := fresh atomic
    obtain ⟨names, last, rfl⟩ := concat_of_missing path missing
    obtain ⟨tempProper, tempPath⟩ := getUploadTempFilePath_render noSlash proper
    obtain ⟨place, left, tempSlot⟩ := slot_of_create tempProper (tempPath ▸ path ▸ opened)
    have slot : Slot w.fs p names last place left :=
      ⟨path, proper, tempSlot.resolved, tempSlot.directory⟩
    have gone := absent _ (slot.temp noSlash).entryLoc
    have notEntry := slot.ne_entry_of_missing missing present
    have notTemp : home ≠ place ++ [tempName os last] := by
      rintro rfl
      simp [isDirAt, gone] at present
    have leaf : w.fs.isDirAt (place ++ [last]) = false := by
      by_contra directory
      exact slot.ne_entry_of_missing missing (Or.inl (by simpa using directory)) rfl
    obtain ⟨updated, final, renamed, moved⟩ :=
      slot.leftover_temp noSlash gone leaf opened filled
    have inside : EntryInside w home p ↔ home <+: place ++ [last] := by
      simp [EntryInside, slot.entryLoc]
    rw [settledTree_renamed (slot.temp_ne noSlash) renamed, inside]
    split
    · refine sameBelow_updatedAt moved ?_
      intro same
      obtain ⟨ino, entry⟩ : ∃ ino, w.fs.node (place ++ [last]) =
          some (.file ino) := node_of_view_file same.symm
      exact slot.ne_entry_of_missing missing (Or.inr ⟨ino, entry⟩) rfl
    · rw [prefix_sibling_iff notEntry notTemp]
      refine sameBelow_updatedAt updated ?_
      rw [view_eq_none_iff.mpr gone]
      simp
  · simp only [atomic, if_false] at opened ⊢
    obtain ⟨loc, stuck, absent, updated⟩ :=
      leftover_new missing opened filled
    rw [settledTree_self, stuck]
    simp only [Option.some.injEq, exists_eq_left']
    refine sameBelow_updatedAt updated ?_
    rw [view_eq_none_iff.mpr absent]
    simp

/-! ## An existing target -/

theorem moveAside_cases {moved : World} {filePath : Str}
    (done : Connection.moveAside settings os w p filePath = .ok moved) :
    (settings.Atomic ∧ ∃ after, w.fs.rename p filePath = .ok after ∧ moved = w.setFs after) ∨
      (¬ settings.Atomic ∧ moved = w) := by
  unfold Connection.moveAside at done
  split at done
  · rename_i atomic
    split at done
    · cases done
    · rename_i after renamed
      cases done
      exact Or.inl ⟨atomic, after, (orFault_eq_ok.mp renamed).2, rfl⟩
  · rename_i standard
    cases done
    exact Or.inr ⟨standard, rfl⟩

/-- The target of an upload is a regular file. -/
structure Target (fs : FileSys) (p : Str) (leaf : Loc) (rest ino : Nat) : Prop where
  leads : fs.resolve p = .found leaf rest
  entry : fs.node leaf = some (.file ino)

theorem Target.notDir (target : Target fs p leaf rest ino) : fs.isDirAt leaf = false := by
  simp [isDirAt, target.entry, Node.isDir]

theorem target_of_stat {info : FileInfo} (found : fs.stat p = .ok info)
    (regular : info.isDir = false) :
    ∃ leaf rest ino, Target fs p leaf rest ino ∧ info.size = (fs.inode ino).data.length := by
  obtain ⟨leaf, rest, leads, seen⟩ := stat_eq_ok_iff.mp found
  have sound := fs.walk_sound kernelLinkLimit [] (elems p) fs.isDirAt_root
  rw [← FileSys.resolve, leads] at sound
  rcases sound with directory | ⟨ino, entry⟩
  · rw [← infoAt_isDir_iff seen, regular] at directory
    cases directory
  · refine ⟨leaf, rest, ino, ⟨leads, entry⟩, ?_⟩
    simp only [infoAt, entry, Option.some.injEq] at seen
    rw [← seen]

theorem Target.slot (target : Target fs p leaf rest ino) (path : p = render comps)
    (proper : ProperNames comps) :
    ∃ names last place left, Slot fs p names last place left := by
  obtain ⟨names, last, rfl⟩ := concat_of_notDir path fun info found => by
    obtain ⟨loc, left, leads, seen⟩ := stat_eq_ok_iff.mp found
    obtain ⟨rfl, _⟩ := Outcome.found.inj (target.leads.symm.trans leads)
    exact Bool.eq_false_iff.mpr (mt (infoAt_isDir_iff seen).mp (by simp [target.notDir]))
  obtain ⟨place, left, slot⟩ := slot_of_lookup proper (Or.inl ⟨leaf, rest, path ▸ target.leads⟩)
  exact ⟨names, last, place, left, path ▸ slot⟩

/-- Emptying the target shows below the home directory exactly when it is
there and has content. -/
theorem Target.sameBelow_emptied_iff {after : FileSys} (target : Target w.fs p leaf rest ino)
    (updated : UpdatedAt w.fs after leaf (some (.file []))) :
    SameBelow home w.fs after ↔
      ¬ (((w.fs.inode ino).data.length : Int) ≠ 0 ∧ ContentInside w home p) := by
  rw [sameBelow_updatedAt_iff updated]
  have content : ContentInside w home p ↔ home <+: leaf := by
    simp [ContentInside, target.leads]
  have seen : w.fs.view leaf = some (.file (w.fs.inode ino).data) := by
    simp [view, target.entry]
  have filled :
      some (View.file []) ≠ some (.file (w.fs.inode ino).data) ↔
        ((w.fs.inode ino).data.length : Int) ≠ 0 := by
    rw [not_iff_not, Int.natCast_eq_zero, List.length_eq_zero_iff,
      Option.some.injEq, View.file.injEq]
    exact eq_comm
  rw [content, seen, filled]

section Moved

variable {w : World} {names place leaf : Loc} {last : Str} {left rest ino : Nat} {moved : FileSys}
    (slot : Slot w.fs p names last place left) (target : Target w.fs p leaf rest ino)
    (present : w.fs.isDirAt home = true ∨ ∃ ino, w.fs.node home = some (.file ino))
    (noSlash : '/' ∉ os.guid) (gone : w.fs.node (place ++ [tempName os last]) = none)
    (move : MovedTo w.fs moved place last (tempName os last))

include slot target present gone move

theorem sameBelow_moved_iff : SameBelow home w.fs moved ↔ ¬ EntryInside w home p := by
  have inside : EntryInside w home p ↔ home <+: place ++ [last] := by
    simp [EntryInside, slot.entryLoc]
  obtain ⟨absent, others⟩ := move.view (tempName_ne os last).symm
  rw [inside]
  constructor
  · intro same below
    have seen := same _ below
    rw [absent, eq_comm, view_eq_none_iff] at seen
    exact (slot.leaf_entry target.leads target.notDir).1 seen
  · intro outside loc below
    refine others loc (fun here => outside (here ▸ below)) ?_
    rintro rfl
    rcases List.prefix_concat_iff.mp below with here | above
    · rw [← here] at gone
      simp [isDirAt, gone] at present
    · exact outside (above.trans (List.prefix_append place [last]))

include noSlash

theorem sameBelow_reopened_iff
    (opened : moved.create (getUploadTempFilePath os p) attr = .ok (created, file))
    (filled : Filled created now file []) :
    SameBelow home w.fs (Transfer.settledTree os now (getUploadTempFilePath os p) p) ↔
      ¬ ((((w.fs.inode ino).data.length : Int) ≠ 0 ∧ ContentInside w home p) ∨
        (os.closeRename ≠ none ∧ EntryInside w home p)) := by
  obtain ⟨⟨absent, others⟩, final, renamed, updated⟩ :=
    slot.leftover_moved noSlash gone target.leads target.notDir target.entry
      move opened filled
  rw [settledTree_renamed (slot.temp_ne noSlash) renamed]
  by_cases commits : os.closeRename = none
  · rw [if_pos commits, target.sameBelow_emptied_iff updated]
    simp [commits]
  · rw [if_neg commits]
    have moving := sameBelow_moved_iff slot target present gone move
    by_cases inside : EntryInside w home p
    · simp only [commits, inside, ne_eq, not_false_eq_true, and_self,
        or_true, not_true_eq_false, iff_false]
      intro same
      have entryLoc := slot.entryLoc
      obtain ⟨loc, named, below⟩ := inside
      rw [entryLoc] at named
      cases named
      have seen := same _ below
      rw [absent, eq_comm, view_eq_none_iff] at seen
      exact (slot.leaf_entry target.leads target.notDir).1 seen
    · -- with the entry elsewhere only the emptied content can be seen
      simp only [inside, and_false, or_false]
      rw [← target.sameBelow_emptied_iff updated]
      have kept := moving.mpr inside
      have agree : ∀ loc, home <+: loc → now.view loc = final.view loc := by
        intro loc below
        rw [updated]
        refine others loc ?_ ?_
        · rintro rfl
          exact inside ⟨_, slot.entryLoc, below⟩
        · rintro rfl
          have seen := kept _ below
          rw [view_eq_none_iff.mpr gone, view_eq_none_iff, move.node, if_pos rfl] at seen
          exact (slot.leaf_entry target.leads target.notDir).1 seen
      constructor
      · intro same loc below
        rw [← agree loc below]
        exact same loc below
      · intro same loc below
        rw [agree loc below]
        exact same loc below

end Moved

end Files

/-! ## The whole upload -/

section Upload

variable {cmd : ScpCommand} {settings : Settings} {os : Os} {w : World}
    {ch : Channel} {p : Str} {sizeToRead : Int} {home comps : Loc}

theorem unchanged_new_iff (path : p = render comps) (proper : ProperNames comps)
    (located : w.fs.evalLoc cmd.connection.user.homeDir = .ok home)
    (missing : w.fs.stat p = .error .noent) (fresh : TempFresh settings os w.fs p) (nothing :
      (cmd.handleUploadFile settings os w ch p (uploadFilePath settings os p)
        sizeToRead).dataRead = 0) :
    Unchanged cmd.connection w
        (cmd.handleUploadFile settings os w ch p (uploadFilePath settings os p) sizeToRead).world ↔
      ¬ DamagesNew cmd.connection settings os w home p := by
  by_cases opens : Opens cmd.connection settings os w p (uploadFilePath settings os p)
  · obtain ⟨created, file, now, opened, filled, tree, counters⟩ :=
      handleUploadFile_early opens nothing
    rw [unchanged_iff located, tree, counters, counted_iff,
      sameBelow_new_iff path proper (evalLoc_present located) missing fresh opened filled]
    simp only [DamagesNew, opens, ne_eq, one_ne_zero, not_false_eq_true,
      not_true_eq_false, or_false, and_true, true_and, not_or]
    exact and_comm
  · obtain ⟨text, refused⟩ := handleUploadFile_refused ch sizeToRead opens
    rw [refused]
    simp [unchanged_iff located, DamagesNew, opens, refuse, SameBelow]

section Existing

variable {leaf : Loc} {rest ino : Nat} {moved : World}

/-- In standard mode nothing is moved, in atomic mode the file to its temporary
name. -/
theorem moveAside_moved (target : Target w.fs p leaf rest ino) (path : p = render comps)
    (proper : ProperNames comps) (fresh : TempFresh settings os w.fs p)
    (aside : Connection.moveAside settings os w p (uploadFilePath settings os p) = .ok moved) :
    ¬ settings.Atomic ∧ uploadFilePath settings os p = p ∧ moved = w ∨
      settings.Atomic ∧ uploadFilePath settings os p = getUploadTempFilePath os p ∧
        '/' ∉ os.guid ∧ ∃ after names last place left, moved = w.setFs after ∧
          w.fs.rename p (getUploadTempFilePath os p) = .ok after ∧
          Slot w.fs p names last place left ∧ w.fs.node (place ++ [tempName os last]) = none ∧
          MovedTo w.fs after place last (tempName os last) := by
  rcases moveAside_cases aside with ⟨atomic, after, done, moved⟩ | ⟨standard, same⟩
  · have file : uploadFilePath settings os p = getUploadTempFilePath os p := if_pos atomic
    obtain ⟨noSlash, absent⟩ := fresh atomic
    obtain ⟨names, last, place, left, slot⟩ := target.slot path proper
    have gone := absent _ (slot.temp noSlash).entryLoc
    obtain ⟨other, renamed, move⟩ := slot.move_aside noSlash gone target.leads target.notDir
    rw [file] at done
    obtain rfl : other = after := Except.ok.inj (renamed.symm.trans done)
    exact Or.inr ⟨atomic, file, noSlash, _, names, last, place, left, moved, done, slot, gone, move⟩
  · exact Or.inl ⟨standard, if_neg standard, same⟩

section Below

variable (target : Target w.fs p leaf rest ino) (path : p = render comps)
    (proper : ProperNames comps)
    (present : w.fs.isDirAt home = true ∨ ∃ ino, w.fs.node home = some (.file ino))
    (fresh : TempFresh settings os w.fs p)
    (aside : Connection.moveAside settings os w p (uploadFilePath settings os p) = .ok moved)

include target path proper present fresh aside

theorem sameBelow_existing_refused_iff :
    SameBelow home w.fs moved.fs ↔ ¬ (settings.Atomic ∧ EntryInside w home p) := by
  rcases moveAside_moved target path proper fresh aside with
    ⟨standard, _, rfl⟩ | ⟨atomic, _, _, after, names, last, place, left, rfl, _, slot, gone, move⟩
  · simp [standard, SameBelow]
  · rw [and_iff_right atomic]
    exact sameBelow_moved_iff slot target present gone move

theorem sameBelow_existing_opened_iff {attr : Attr} {created now : FileSys} {file : Handle}
    (opened : moved.fs.create (uploadFilePath settings os p) attr = .ok (created, file))
    (filled : Filled created now file []) :
    SameBelow home w.fs (Transfer.settledTree os now (uploadFilePath settings os p) p) ↔
      ¬ ((((w.fs.inode ino).data.length : Int) ≠ 0 ∧ ContentInside w home p) ∨
        (settings.Atomic ∧ os.closeRename ≠ none ∧ EntryInside w home p)) := by
  rcases moveAside_moved target path proper fresh aside with ⟨standard, file, rfl⟩ |
    ⟨atomic, file, noSlash, after, names, last, place, left, rfl, _, slot, gone, move⟩
  · rw [file] at opened ⊢
    rw [settledTree_self, target.sameBelow_emptied_iff
      (leftover_existing target.leads target.entry opened filled)]
    simp [standard]
  · rw [file] at opened ⊢
    rw [and_iff_right atomic]
    exact sameBelow_reopened_iff slot target present noSlash gone move opened filled

end Below

theorem unchanged_existing_iff (path : p = render comps) (proper : ProperNames comps)
    (located : w.fs.evalLoc cmd.connection.user.homeDir = .ok home)
    {info : FileInfo} (found : w.fs.stat p = .ok info) (regular : info.isDir = false)
    (fresh : TempFresh settings os w.fs p)
    (aside : Connection.moveAside settings os w p (uploadFilePath settings os p) = .ok moved)
    (nothing :
      (cmd.handleUploadFile settings os
        (moved.updateUserQuota settings os.updateQuota cmd.connection.user 0
          (-info.size)) ch p (uploadFilePath settings os p)
        sizeToRead).dataRead = 0) :
    Unchanged cmd.connection w
        (cmd.handleUploadFile settings os
          (moved.updateUserQuota settings os.updateQuota cmd.connection.user
            0 (-info.size)) ch p (uploadFilePath settings os p)
          sizeToRead).world ↔
      ¬ DamagesExisting cmd.connection settings os w home p info.size := by
  obtain ⟨leaf, rest, ino, target, size⟩ := target_of_stat found regular
  have present := evalLoc_present located
  have quota : moved.quota = w.quota := by
    rcases moveAside_cases aside with ⟨_, _, _, rfl⟩ | ⟨_, rfl⟩ <;> rfl
  have counts :
      ∀ fault, Counts cmd.connection settings moved fault ↔
        Counts cmd.connection settings w fault := by
    intro fault
    simp [Counts, quota]
  simp only [DamagesExisting, aside, Except.ok.injEq, exists_eq_left']
  rw [unchanged_iff located, ← quota]
  by_cases opens :
      Opens cmd.connection settings os
        (moved.updateUserQuota settings os.updateQuota cmd.connection.user 0
          (-info.size)) p (uploadFilePath settings os p)
  · obtain ⟨created, file, now, opened, filled, tree, counters⟩ :=
      handleUploadFile_early opens nothing
    rw [World.updateUserQuota_fs] at opened
    rw [tree, counters, counted_twice_iff, counts, counts,
      sameBelow_existing_opened_iff target path proper present fresh aside
        opened filled, ← size]
    simp only [opens, true_and, not_true_eq_false, false_and, or_false, not_or]
    tauto
  · obtain ⟨text, refused⟩ := handleUploadFile_refused ch sizeToRead opens
    have world :
        (cmd.handleUploadFile settings os
          (moved.updateUserQuota settings os.updateQuota cmd.connection.user
            0 (-info.size)) ch p (uploadFilePath settings os p)
          sizeToRead).world =
          moved.updateUserQuota settings os.updateQuota cmd.connection.user 0 (-info.size) := by
      rw [refused]
      rfl
    rw [world, World.updateUserQuota_fs, counted_iff, counts,
      sameBelow_existing_refused_iff target path proper present fresh aside]
    simp only [opens, false_and, not_false_eq_true, true_and, false_or,
      not_or, ne_eq, not_true_eq_false, Int.neg_eq_zero]
    tauto

end Existing

end Upload

/-- An upload that fails early leaves the files and the counters alone exactly
when it has done none of the damage before it failed. -/
theorem upload_failure_atomic_iff (cmd : ScpCommand) (settings : Settings) (os : Os) (w : World)
    (ch : Channel) (rawPath : Str) (sizeToRead : Int) (rooted : isAbs cmd.connection.user.homeDir)
    (fresh : TempFresh settings os w.fs (cmd.connection.requested rawPath))
    (early : FailsEarly (cmd.handleUpload settings os w ch rawPath sizeToRead)) :
    Unchanged cmd.connection w (cmd.handleUpload settings os w ch rawPath sizeToRead).world ↔
      ¬ UploadDamages cmd.connection settings os w rawPath := by
  obtain ⟨⟨text, failed⟩, nothing⟩ := early
  have same : Unchanged cmd.connection w w := ⟨fun _ _ _ _ => rfl, rfl⟩
  unfold ScpCommand.handleUpload at failed nothing ⊢
  unfold UploadDamages
  by_cases allowed : cmd.connection.user.hasPerm permUpload = true
  swap
  · simpa [allowed, refuse] using same
  rw [if_neg (by simp [allowed])] at failed nothing ⊢
  cases accepted : cmd.connection.buildPath w.fs rawPath with
  | error err => simpa [refuse] using same
  | ok p =>
    obtain ⟨home, located⟩ := home_of_buildPath accepted
    obtain ⟨comps, proper, path⟩ := requested_eq_render rooted rawPath
    have equal := (buildPath_eq_ok_iff.mp accepted).1
    rw [← equal] at path fresh
    simp only [accepted] at failed nothing ⊢
    have damages :
        (cmd.connection.user.hasPerm permUpload = true ∧
          ∃ q place, Except.ok p = (.ok q : Except PathError Str) ∧
            w.fs.evalLoc cmd.connection.user.homeDir = .ok place ∧
            Damages cmd.connection settings os w place q) ↔
          Damages cmd.connection settings os w home p := by
      simp [allowed, located]
    rw [damages]
    unfold Damages
    cases found : orFault os.stat (w.fs.stat p) with
    | error err =>
      cases err with
      | noent =>
        have missing := (orFault_eq_noent.mp found).2
        simp only [found] at nothing ⊢
        simp only [missing]
        exact unchanged_new_iff path proper located missing fresh nothing
      | _ => simp [found] at failed
    | ok info =>
      have seen := (orFault_eq_ok.mp found).2
      simp only [found] at failed nothing ⊢
      simp only [seen]
      by_cases directory : info.isDir = true
      · simpa [directory, refuse] using same
      · have regular : info.isDir = false := by simpa using directory
        simp only [regular, Bool.false_eq_true, if_false, true_and] at failed nothing ⊢
        cases aside : Connection.moveAside settings os w p (uploadFilePath settings os p) with
        | error err => simpa [DamagesExisting, aside, refuse] using same
        | ok moved =>
          simp only [aside] at nothing ⊢
          exact unchanged_existing_iff path proper located seen regular fresh aside nothing

/-! ## A user who has reached the limit -/

def fullWorld : World :=
  World.start fileTree fun _ => some (1, 3)

def limitedCommand : ScpCommand :=
  ⟨⟨"c".toList,
    { sampleUser with quotaFiles := 1 }, "SCP".toList⟩,
    ["-t".toList, "/".toList]⟩

def idleChannel : Channel := ⟨[], [], [], false, none⟩

/-- Replacing the file is refused for lack of space, and the file is gone. -/
theorem full_quota_loses_file :
    ¬ FailureAtomic limitedCommand atomicSettings sampleOs fullWorld idleChannel "/f".toList 3 := by
  intro atomic
  have unchanged :=
    atomic ⟨⟨"denying file write due to space limit".toList, by decide⟩,
      by decide⟩
  have kept :=
    unchanged.1 sampleHome (by decide)
      ["srv".toList, "u".toList, "f".toList] (by decide)
  revert kept
  decide

/-- A new file is refused before anything has happened. -/
theorem full_quota_refuses_new_file :
    FailsEarly
        (limitedCommand.handleUpload atomicSettings sampleOs fullWorld idleChannel "/g".toList 3) ∧
      Unchanged limitedCommand.connection fullWorld
        (limitedCommand.handleUpload atomicSettings sampleOs fullWorld
          idleChannel "/g".toList 3).world := by
  have early :
      FailsEarly
        (limitedCommand.handleUpload atomicSettings sampleOs fullWorld idleChannel "/g".toList 3) :=
    ⟨⟨"denying file write due to space limit".toList, by decide⟩, by decide⟩
  refine ⟨early, (upload_failure_atomic_iff _ _ _ _ _ _ _ (by decide) ?_ early).mpr ?_⟩
  · refine fun _ => ⟨by decide, fun loc named => ?_⟩
    have entry :
        fullWorld.fs.entryLoc
            (getUploadTempFilePath sampleOs (limitedCommand.connection.requested "/g".toList)) =
          .ok ["srv".toList, "u".toList, ".sftpgo-upload.guid.g".toList] := by decide
    rw [entry] at named
    cases named
    decide
  · rintro ⟨_, p, home, accepted, _, damages⟩
    have path :
        limitedCommand.connection.buildPath fullWorld.fs "/g".toList =
          .ok "/srv/u/g".toList := by decide
    rw [path] at accepted
    cases accepted
    have missing : fullWorld.fs.stat "/srv/u/g".toList = .error .noent := by decide
    simp only [Damages, missing] at damages
    have space := damages.1.1
    revert space
    decide

end Sshserv.Serv
