import Sshserv.Lib.Route
import Sshserv.Serv.OpenSteps
import Sshserv.Serv.ReadOnly
import Sshserv.Serv.ScpAtomicity

/-!
# The home directory under its own sessions

Every mutating SFTP command accepts paths that clean to the home directory
itself.  A removal, a rename and the renames of atomic uploads can cut the way
to it, but only through an entry on that way.
-/

namespace Sshserv.Serv

open Lib UnixPath FileTree FileSys DataProvider
open Lib.Runs

/-- The home directory is there, and has been there after every system
call.  No call replaces one directory by another, so it is the same one. -/
structure HomeKept (homeDir : Str) (home : Loc) (w : World) : Prop where
  now : w.fs.LeadsToDir homeDir home
  always : ∀ fs ∈ w.moments, fs.LeadsToDir homeDir home

/-- The paths whose entries a command takes away or replaces. -/
def replacedBy (p target : Str) : Method → List Str
  | .remove => [p]
  | .rmdir => [p]
  | .rename => [p, target]
  | _ => []

section Condition

variable (settings : Settings) (w : World)

/-- A command takes no entry on the way to the home directory. -/
def CommandSpares (c : Connection) (request : Request) : Prop :=
  ∀ p ∈ (c.buildPath w.fs request.filepath).toOption,
    ∀ target ∈ (c.getSFTPCmdTargetPath w.fs request.target).toOption,
      ∀ path ∈ replacedBy p target request.method, w.fs.EntryOff c.user.homeDir path

instance (c : Connection) (request : Request) : Decidable (CommandSpares w c request) :=
  inferInstanceAs (Decidable (∀ p ∈ Except.toOption _, _))

/-- In atomic mode, the name of the temporary file is not one of a link on
the way to the home directory. -/
def UploadSpares (c : Connection) (os : Os) (request : Request) : Prop :=
  settings.Atomic → ∀ p ∈ (c.buildPath w.fs request.filepath).toOption,
      w.fs.EntryOff c.user.homeDir (getUploadTempFilePath os p)

instance (c : Connection) (os : Os) (request : Request) :
    Decidable (UploadSpares settings w c os request) :=
  inferInstanceAs (Decidable (_ → _))

/-- The rename at the end of an atomic upload moves and replaces no entry on
the way to the home directory. -/
def CloseSpares (homeDir : Str) (ref : Nat) : Prop :=
  ∀ t ∈ w.transfers ref, t.transferType = .upload → t.file.name ≠ t.path →
    w.fs.EntryOff homeDir t.file.name ∧ w.fs.EntryOff homeDir t.path

instance (homeDir : Str) (ref : Nat) : Decidable (CloseSpares w homeDir ref) :=
  inferInstanceAs (Decidable (∀ t ∈ w.transfers ref, _))

/-- A request disturbs no entry on the way to the home directory. -/
def SparesHome (homeDir : Str) : SessionEvent → Prop
  | .filecmd c _ request => CommandSpares w c request
  | .filewrite c os request => UploadSpares settings w c os request
  | .close _ ref => CloseSpares w homeDir ref
  | _ => True

instance (homeDir : Str) (event : SessionEvent) : Decidable (SparesHome settings w homeDir event) :=
  match event with
  | .filecmd c _ request => inferInstanceAs (Decidable (CommandSpares w c request))
  | .filewrite c os request => inferInstanceAs (Decidable (UploadSpares settings w c os request))
  | .close _ ref => inferInstanceAs (Decidable (CloseSpares w homeDir ref))
  | .fileread _ _ _ => isTrue trivial
  | .filelist _ _ _ => isTrue trivial
  | .readAt _ _ _ _ _ => isTrue trivial
  | .writeAt _ _ _ _ _ => isTrue trivial
  | .scp _ _ _ => isTrue trivial

end Condition

/-- A request of an SFTP session of the user. -/
def BySftp (user : User) : SessionEvent → Prop
  | .scp _ _ _ => False
  | event => ∀ other ∈ event.user, other = user

namespace HomeKept

variable {homeDir : Str} {home : Loc} {w : World} (kept : HomeKept homeDir home w)

include kept

theorem setFs {fs : FileSys} (leads : fs.LeadsToDir homeDir home) :
    HomeKept homeDir home (w.setFs fs) := by
  refine ⟨leads, fun other member => ?_⟩
  rcases List.mem_cons.mp member with rfl | earlier
  · exact leads
  · exact kept.always other earlier

theorem frame {after : World} (fs : after.fs = w.fs) (moments : after.moments = w.moments) :
    HomeKept homeDir home after :=
  ⟨fs ▸ kept.now, moments ▸ kept.always⟩

theorem setTransfer (ref : Nat) (t : Transfer) : HomeKept homeDir home (w.setTransfer ref t) :=
  kept.frame rfl rfl

theorem updateUserQuota (settings : Settings)
    (fault : Option ProviderError) (user : User) (filesAdd sizeAdd : Int) :
    HomeKept homeDir home (w.updateUserQuota settings fault user filesAdd sizeAdd) :=
  kept.frame (World.updateUserQuota_fs ..) (World.updateUserQuota_moments ..)

theorem setPathPermissions (os : Os) (path : Str) (uid gid : Int) :
    HomeKept homeDir home (w.setPathPermissions os path uid gid) := by
  rcases setPathPermissions_cases w os path uid gid with
    same | ⟨after, same, shape, _⟩
  · rw [same]
    exact kept
  · rw [same]
    exact kept.setFs (kept.now.sameShape shape)

theorem createMissingDirs (c : Connection) (os : Os) (filePath : Str) :
    HomeKept homeDir home (c.createMissingDirs os w filePath).1 :=
  createMissingDirs_keeps c os
    (fun _ _ _ kept made => kept.setFs (kept.now.grown (mkdir_grown made)))
    (fun _ path uid gid kept => kept.setPathPermissions os path uid gid) filePath kept

omit kept in
theorem filecmd {c : Connection} {settings : Settings} {os : Os} {request : Request}
    (kept : HomeKept c.user.homeDir home w) (spares : CommandSpares w c request) :
    HomeKept c.user.homeDir home (c.filecmd settings os w request).1 := by
  refine filecmd_keeps kept (fun _ _ _ kept made => kept.setFs (kept.now.grown (mkdir_grown made)))
    (fun _ path uid gid kept => kept.setPathPermissions os path uid gid)
    (fun _ files size kept => kept.updateUserQuota settings _ _ files size) ?_
  intro p target after accepted aimed edit
  have off := spares p (by rw [accepted]; rfl) target (by rw [aimed]; rfl)
  apply kept.setFs
  generalize method : request.method = m at edit
  rw [method] at off
  cases edit with
  | setstat done => exact kept.now.sameShape (sameShape_modifyAttr done)
  | rename done =>
    exact kept.now.rename (off p (by simp [replacedBy])) (off target (by simp [replacedBy])) done
  | rmdir => exact kept.now.removeAll (off p (by simp [replacedBy])) os.survivors
  | symlink done => exact kept.now.grown (symlink_grown done)
  | remove done => exact kept.now.remove (off p (by simp [replacedBy])) done

/-! ### Uploads -/

section Uploads

variable {c : Connection} {settings : Settings} {os : Os} {p : Str}

/-- An existing file is moved aside: its entry leads to a file, so only the
temporary name could be on the way. -/
theorem moveAside {comps : Loc} {info : FileInfo} {moved : World}
    (old : SetAside settings os w p info moved)
    (path : p = render comps) (proper : ProperNames comps)
    (off : settings.Atomic → w.fs.EntryOff homeDir (getUploadTempFilePath os p)) :
    HomeKept homeDir home moved := by
  obtain ⟨leaf, rest, ino, target, _⟩ := target_of_stat old.found old.regular
  obtain ⟨names, last, place, left, slot⟩ := target.slot path proper
  obtain ⟨_, notDir, never⟩ := slot.leaf_entry target.leads target.notDir
  have source : w.fs.EntryOff homeDir p := by
    unfold EntryOff
    rw [slot.entryLoc]
    exact kept.now.off_of_neverDir never notDir
  rcases moveAside_cases old.aside with ⟨atomic, after, done, rfl⟩ | ⟨_, rfl⟩
  · have replaced := off atomic
    rw [uploadFilePath, if_pos atomic] at done
    exact kept.setFs (kept.now.rename source replaced done)
  · exact kept

theorem launch (file : Handle) (filePath : Str) (isNew : Bool) :
    HomeKept homeDir home (c.launch os w file p filePath isNew).1 :=
  (kept.setPathPermissions os filePath c.user.getUID c.user.getGID).frame rfl rfl

theorem openSteps {comps : Loc} {via : Option OpenFlags} {result : World × Option Nat}
    (steps : OpenSteps c settings os w p via result)
    (path : p = render comps) (proper : ProperNames comps)
    (off : settings.Atomic → w.fs.EntryOff homeDir (getUploadTempFilePath os p)) :
    HomeKept homeDir home result.1 := by
  have dirs := kept.createMissingDirs c os p
  have aside {info : FileInfo} {moved : World} (old : SetAside settings os w p info moved) :=
    kept.moveAside old path proper off
  have released {info : FileInfo} {moved : World} (old : SetAside settings os w p info moved) :=
    (aside old).updateUserQuota settings os.updateQuota c.user 0 (-info.size)
  cases steps with
  | refused => exact kept
  | prepared => exact dirs
  | moved old => exact aside old
  | released old => exact released old
  | @created _ middle _ _ ready made =>
    have still : HomeKept homeDir home middle := by
      cases ready with
      | absent => exact kept
      | prepared _ _ done =>
        rw [done] at dirs
        exact dirs
      | released old => exact released old
    exact (still.setFs (still.now.openFile made)).launch ..
  | reopened old _ _ opened =>
    have still := aside old
    exact ((still.setFs (still.now.openFile opened)).updateUserQuota
      settings os.updateQuota c.user 0 _).launch ..

omit kept in
theorem filewrite {request : Request} (kept : HomeKept c.user.homeDir home w)
    (rooted : isAbs c.user.homeDir) (spares : UploadSpares settings w c os request) :
    HomeKept c.user.homeDir home (c.filewrite settings os w request).1 := by
  rcases filewrite_ends request with same | ⟨_, p, accepted, steps⟩
  · rw [(Prod.mk.inj same).1]
    exact kept
  · obtain ⟨comps, proper, path⟩ := accepted_eq_render rooted accepted
    exact kept.openSteps steps path proper fun atomic =>
      spares atomic p (by rw [accepted]; rfl)

end Uploads

/-! ### Transfers -/

theorem fileread (c : Connection) (os : Os) (request : Request) :
    HomeKept homeDir home (c.fileread os w request).1 :=
  kept.frame (untouched_fileread c os w request).fs (untouched_fileread c os w request).moments

theorem readAt (os : Os) (index ref count : Nat) (off : Int) :
    HomeKept homeDir home (Transfer.readAt os index w ref count off).1 :=
  kept.frame (untouched_readAt os index w ref count off).fs
    (untouched_readAt os index w ref count off).moments

theorem writeAt (os : Os) (index ref : Nat) (bytes : List Char) (off : Int) :
    HomeKept homeDir home (Transfer.writeAt os index w ref bytes off).1 := by
  unfold Transfer.writeAt
  split
  · exact kept
  · split
    · exact kept.setTransfer ref _
    · rename_i fs done
      have leads := kept.now.sameShape (writeAt_sameShape done)
      exact (kept.setFs leads).setTransfer ref _

theorem close (settings : Settings) (os : Os) {ref : Nat} (spares : CloseSpares w homeDir ref) :
    HomeKept homeDir home (Transfer.close settings os w ref).1 := by
  unfold Transfer.close
  split
  · exact kept
  · rename_i t entry
    have closed := kept.setTransfer ref { t with file := t.file.closed }
    have settled :
        HomeKept homeDir home
          (Transfer.settle os (w.setTransfer ref { t with file := t.file.closed }) t).1 := by
      unfold Transfer.settle
      split
      · rename_i renames
        obtain ⟨source, replaced⟩ := spares t entry renames.1 renames.2
        split
        · rename_i after done
          exact closed.setFs (kept.now.rename source replaced (orFault_eq_ok.mp done).2)
        · exact closed
      · exact closed
    have removed :
        HomeKept homeDir home
          (((Transfer.settle os
            (w.setTransfer ref { t with file := t.file.closed })
            t).1.addClose ref).removeTransfer ref) :=
      settled.frame rfl rfl
    simp only [Transfer.account]
    split
    · exact removed.updateUserQuota settings _ _ _ _
    · exact removed

end HomeKept

theorem HomeKept.step {settings : Settings} {user : User} {home : Loc} {w : World}
    {event : SessionEvent} (rooted : isAbs user.homeDir) (kept : HomeKept user.homeDir home w)
    (sftp : BySftp user event) (spares : SparesHome settings w user.homeDir event) :
    HomeKept user.homeDir home (sessionStep settings w event) := by
  cases event with
  | fileread c os request => exact kept.fileread c os request
  | filewrite c os request =>
    obtain rfl : c.user = user := sftp _ rfl
    exact kept.filewrite rooted spares
  | filelist c os request => exact kept
  | filecmd c os request =>
    obtain rfl : c.user = user := sftp _ rfl
    exact kept.filecmd spares
  | readAt os index ref count off => exact kept.readAt os index ref count off
  | writeAt os index ref bytes off => exact kept.writeAt os index ref bytes off
  | close os ref => exact kept.close settings os spares
  | scp cmd env ch => exact sftp.elim

/-- As long as the SFTP sessions of a user take no entry on the way to the
home directory, its path names the same directory after every system call. -/
theorem home_survives (settings : Settings) (user : User)
    (rooted : isAbs user.homeDir) (fs : FileSys)
    (quota : Str → Option (Int × Int)) (home : Loc) (present : fs.LeadsToDir user.homeDir home)
    (events : List SessionEvent) (sftp : ∀ event ∈ events, BySftp user event) (spares :
      Admissible (sessionStep settings)
        (fun w event => SparesHome settings w user.homeDir event)
        (World.start fs quota) events)
    (w : World) (visited : Visits (sessionStep settings) (World.start fs quota) events w) :
    HomeKept user.homeDir home w := by
  have initially : HomeKept user.homeDir home (World.start fs quota) := by
    refine ⟨present, fun other member => ?_⟩
    rw [List.mem_singleton.mp member]
    exact present
  exact visits_invariant
    (fun w event =>
      SparesHome settings w user.homeDir event ∧ BySftp user event)
    (HomeKept user.homeDir home)
    (fun _ _ kept allowed => kept.step rooted allowed.2 allowed.1)
    initially (spares.and_forall sftp) visited

def command (method : Method) (path target : String) : SessionEvent :=
  .filecmd sampleConnection sampleOs ⟨method, path.toList, target.toList, 0, ⟨0, 0, 0, 0, 0, 0⟩⟩

/-- The user makes a directory, moves the file `f` there, uploads it again and
removes the directory. -/
def tidySession : List SessionEvent :=
  [command .mkdir "/d" "", command .rename "/f" "/d/f",
    .filewrite sampleConnection sampleOs
      ⟨.other "Put".toList, "/f".toList, [], 26, ⟨0, 0, 0, 0, 0, 0⟩⟩,
    .close sampleOs 0, command .rmdir "/d" ""]

theorem tidy_session_keeps_home :
    let w :=
      run (sessionStep atomicSettings) (World.start fileTree fun _ => some (1, 3)) tidySession
    w.fs.look "/srv/u/f".toList = some (.file []) ∧ HomeKept "/srv/u".toList sampleHome w :=
  ⟨by decide +kernel,
    home_survives atomicSettings sampleUser (by decide)
      fileTree (fun _ => some (1, 3)) sampleHome (by decide) tidySession
      (by
        intro event member
        simp only [tidySession, List.mem_cons, List.not_mem_nil, or_false] at member
        rcases member with rfl | rfl | rfl | rfl | rfl <;>
          intro other named <;> cases named <;> rfl)
      (by decide +kernel) _ (visits_run _ _ _)⟩

/-- `Rmdir` of the root of the session removes the home directory. -/
theorem rmdir_removes_home :
    fileTree.LeadsToDir "/srv/u".toList sampleHome ∧
      ¬ ∀ w, Visits (sessionStep defaultSettings)
          (World.start fileTree fun _ => some (1, 3))
          [command .rmdir "/" ""] w →
        HomeKept "/srv/u".toList sampleHome w := by
  refine ⟨by decide, fun survives => ?_⟩
  have still := (survives _ (visits_run _ _ _)).now
  revert still
  decide +kernel

end Sshserv.Serv
