import Sshserv.Lib.Growth
import Sshserv.Serv.StoredUpload

/-!
# Failed SFTP opens

`Connection.Filewrite` makes missing directories, or in atomic mode moves an
existing file to the temporary name.  When the last step then fails, nothing
is taken back.
-/

namespace Sshserv.Serv

open Lib UnixPath FileTree FileSys DataProvider

section Directories

variable {c : Connection} {os : Os} {w : World} {base place : Loc} {text : Str} {left : Nat}

theorem mkdir_below {after : FileSys} (proper : ProperNames (base ++ [text]))
    (resolved : w.fs.resolve (render base) = .found place left)
    (made : w.fs.mkdir (render (base ++ [text])) os.attr = .ok after) (uid gid : Int) :
    let next :=
      (w.setFs after).setPathPermissions os (render (base ++ [text])) uid gid
    next.fs.resolve (render (base ++ [text])) = .found (place ++ [text]) left ∧
      UpdatedAt w.fs next.fs (place ++ [text]) (some .dir) ∧
      w.fs.entryLoc (render (base ++ [text])) = .ok (place ++ [text]) ∧
      w.fs.node (place ++ [text]) = none := by
  intro next
  obtain ⟨parent, name, room, entry, rfl⟩ := mkdir_cases made
  have placed : w.fs.entryOf (render (base ++ [text])) = .ok (place, text) := by
    have baseProper : ProperNames base := proper.left
    have walked := resolved
    rw [FileSys.resolve, walk_elems_render _ baseProper] at walked
    rw [entryOf_render_concat proper, walked] at entry ⊢
    simp only [Outcome.located] at entry ⊢
    split at entry
    · rename_i directory
      rw [if_pos directory]
    · cases entry
  have same := placed.symm.trans entry
  simp only [Except.ok.injEq, Prod.mk.injEq] at same
  obtain ⟨rfl, rfl⟩ := same
  obtain ⟨shape, data⟩ :=
    setPathPermissions_tree (w.setFs (w.fs.addDir place text os.attr room))
      os (render (base ++ [text])) uid gid
  refine ⟨?_, ?_, ?_, room.absent⟩
  · rw [shape.resolve]
    exact resolve_after_addDir proper resolved room
  · exact (view_addDir os.attr room).sameView (shape.view data)
  · simp [FileSys.entryLoc, placed]

/-- The loop changes nothing outside the first directory that it makes. -/
theorem mkdirAll_view (c : Connection) (os : Os) (missing : Loc) :
    ∀ {base place : Loc} {left : Nat} {w : World},
      ProperNames (base ++ missing) →
      w.fs.resolve (render base) = .found place left →
      ∀ loc, (∀ first, missing.head? = some first → ¬ place ++ [first] <+: loc) →
        (c.mkdirAll os w (chain base missing)).1.fs.view loc = w.fs.view loc := by
  induction missing with
  | nil =>
    intro base place left w _ _ loc _
    rfl
  | cons text rest ih =>
    intro base place left w proper resolved loc outside
    have notBelow := outside text rfl
    simp only [chain, Connection.mkdirAll]
    cases made :
        orFault (os.mkdir (render (base ++ [text])))
          (w.fs.mkdir (render (base ++ [text])) os.attr) with
    | error err => rfl
    | ok after =>
      have split : base ++ text :: rest = base ++ [text] ++ rest := by
        simp
      rw [split] at proper
      obtain ⟨moved, updated, _, _⟩ :=
        mkdir_below proper.left resolved (orFault_eq_ok.mp made).2 c.user.getUID c.user.getGID
      have later :=
        ih proper moved loc fun first _ below =>
          notBelow ((List.prefix_append _ [first]).trans below)
      rw [later, updated, if_neg]
      rintro rfl
      exact notBelow List.prefix_rfl

theorem mkdirAll_quota (c : Connection) (os : Os) (dirs : List Str) (w : World) :
    (c.mkdirAll os w dirs).1.quota = w.quota :=
  @mkdirAll_keeps (fun after => after.quota = w.quota) c os (fun _ _ _ same _ => same)
    (fun _ _ _ _ same => (setPathPermissions_quota ..).trans same) dirs w rfl

theorem sameBelow_mkdirAll_iff {home rest : Loc} {after : FileSys}
    (proper : ProperNames (base ++ text :: rest))
    (resolved : w.fs.resolve (render base) = .found place left)
    (present : w.fs.isDirAt home = true ∨ ∃ ino, w.fs.node home = some (.file ino)) (made :
      orFault (os.mkdir (render (base ++ [text])))
        (w.fs.mkdir (render (base ++ [text])) os.attr) = .ok after) :
    SameBelow home w.fs (c.mkdirAll os w (chain base (text :: rest))).1.fs ↔
      ¬ home <+: place ++ [text] := by
  have split : base ++ text :: rest = base ++ [text] ++ rest := by simp
  obtain ⟨moved, updated, _, absent⟩ :=
    mkdir_below
      (fun piece member =>
        proper piece (split ▸ List.mem_append.mpr (Or.inl member)))
      resolved (orFault_eq_ok.mp made).2 c.user.getUID c.user.getGID
  constructor
  · intro same inside
    have seen := same _ inside
    rw [view_eq_none_iff.mpr absent] at seen
    simp only [chain, Connection.mkdirAll, made] at seen
    rw [mkdirAll_view c os rest (split ▸ proper) moved _
      (fun first _ below => by simpa using below.length_le), updated,
      if_pos rfl] at seen
    cases seen
  · intro outside loc below
    refine mkdirAll_view c os (text :: rest) proper resolved loc ?_
    intro first named deep
    cases named
    rcases List.prefix_or_prefix_of_prefix below deep with above | above
    · exact outside above
    · -- the home directory exists, so nothing above it can be missing
      obtain ⟨more, rfl⟩ := above
      by_cases here : more = []
      · exact outside (by simp [here])
      · have hollow : w.fs.isDirAt (place ++ [text]) = false := by
          simp [isDirAt, absent]
        have gone := w.fs.node_below_notDir hollow more here
        rw [isDirAt, gone] at present
        simp at present

end Directories

section Damage

variable (c : Connection) (settings : Settings) (os : Os) (w : World) (home : Loc)

/-- An open for writing that returns an error changes nothing. -/
def OpenAtomic (request : Request) : Prop :=
  ∀ code, (c.filewrite settings os w request).2 = .refused code →
    Unchanged c w (c.filewrite settings os w request).1

/-- The outermost missing directory of a path can be made, and its place is
below the home directory. -/
def MakesDirInside (p : Str) : Prop :=
  ∃ dirs d after loc, c.findNonexistentDirs w.fs p = .ok (dirs ++ [d]) ∧
      orFault (os.mkdir d) (w.fs.mkdir d os.attr) = .ok after ∧
      w.fs.entryLoc d = .ok loc ∧ home <+: loc

/-- A new target: the quota and the permissions let the code get to the
missing directories, and it makes one. -/
def LeavesDirs (p : Str) : Prop :=
  c.hasSpace settings os w true = true ∧
    ¬ (orFault os.statDir (w.fs.stat (dir p)) = .error .noent ∧
      ¬ c.user.hasPerm permCreateDirs = true) ∧
    MakesDirInside c os w home p

/-- An existing target: the quota and the flags let the code get to the
rename of atomic mode, which succeeds. -/
def LosesEntry (flags : OpenFlags) (p : Str) : Prop :=
  c.hasSpace settings os w false = true ∧
    flags.trunc = true ∧
    settings.Atomic ∧
    (∃ after, orFault os.rename (w.fs.rename p (getUploadTempFilePath os p)) = .ok after) ∧
    EntryInside w home p

/-- What an open of the accepted path does before its last step. -/
def OpenDamages (request : Request) : Prop :=
  c.user.hasPerm permUpload = true ∧
    ∃ p home, c.buildPath w.fs request.filepath = .ok p ∧
      w.fs.evalLoc c.user.homeDir = .ok home ∧
      match orFault os.stat (w.fs.stat p) with
      | .error err => err = .noent ∧ LeavesDirs c settings os w home p
      | .ok info => info.isDir = false ∧ LosesEntry c settings os w home request.pflags p

end Damage

section Refused

variable {c : Connection} {settings : Settings} {os : Os} {w : World}
    {p filePath : Str} {code : FxCode}

theorem newFile_refused_world
    (refused : (c.handleSFTPUploadToNewFile settings os w p filePath).2 = .refused code) :
    (c.handleSFTPUploadToNewFile settings os w p filePath).1 =
      if c.hasSpace settings os w true = true ∧
          ¬ (orFault os.statDir (w.fs.stat (dir p)) = .error .noent ∧
            ¬ c.user.hasPerm permCreateDirs = true)
      then (c.createMissingDirs os w p).1 else w := by
  unfold Connection.handleSFTPUploadToNewFile at refused ⊢
  by_cases space : c.hasSpace settings os w true = true
  swap
  · rw [if_pos space, if_neg fun both => space both.1]
  by_cases forbidden :
      orFault os.statDir (w.fs.stat (dir p)) = .error .noent ∧
        ¬ c.user.hasPerm permCreateDirs = true
  · rw [if_neg (not_not.mpr space), if_pos forbidden, if_neg fun both => both.2 forbidden]
  rw [if_neg (not_not.mpr space), if_neg forbidden] at refused ⊢
  rw [if_pos ⟨space, forbidden⟩]
  cases made : c.createMissingDirs os w p with
  | mk next result =>
    cases result with
    | error err => rfl
    | ok =>
      simp only [made] at refused ⊢
      split
      · rfl
      · rename_i opened
        simp [opened] at refused

theorem existingFile_refused_world {flags : OpenFlags} {size : Int} (refused :
      (c.handleSFTPUploadToExistingFile settings os w flags p filePath size).2 = .refused code) :
    (c.handleSFTPUploadToExistingFile settings os w flags p filePath size).1 =
      if c.hasSpace settings os w false = true ∧ flags.trunc = true then
        match Connection.moveAside settings os w p filePath with
        | .error _ => w
        | .ok moved => moved
      else w := by
  unfold Connection.handleSFTPUploadToExistingFile at refused ⊢
  by_cases space : c.hasSpace settings os w false = true
  swap
  · rw [if_pos space, if_neg fun both => space both.1]
  by_cases truncates : (getOSOpenFlags flags).trunc = true
  swap
  · rw [if_neg (not_not.mpr space), if_pos truncates, if_neg fun both => truncates both.2]
  rw [if_neg (not_not.mpr space), if_neg (not_not.mpr truncates)] at refused ⊢
  rw [if_pos ⟨space, truncates⟩]
  cases aside : Connection.moveAside settings os w p filePath with
  | error err => rfl
  | ok moved =>
    simp only [aside] at refused ⊢
    split
    · rfl
    · rename_i opened
      simp [opened] at refused

end Refused

section Changed

variable {c : Connection} {settings : Settings} {os : Os} {w : World} {p : Str} {home comps : Loc}

theorem unchanged_refl (c : Connection) (w : World) : Unchanged c w w :=
  ⟨fun _ _ _ _ => rfl, rfl⟩

theorem unchanged_dirs_iff (path : p = render comps) (proper : ProperNames comps)
    (located : w.fs.evalLoc c.user.homeDir = .ok home) (missing : w.fs.stat p = .error .noent) :
    Unchanged c w (c.createMissingDirs os w p).1 ↔ ¬ MakesDirInside c os w home p := by
  obtain ⟨names, last, rfl⟩ := concat_of_missing path missing
  unfold Connection.createMissingDirs MakesDirInside
  cases searched : c.findNonexistentDirs w.fs p with
  | error err => simpa using unchanged_refl c w
  | ok results =>
    obtain ⟨base, above, place, left, rfl, reversed, resolved, _, _⟩ :=
      findNonexistentDirs_ok proper (path ▸ searched)
    have dirsProper : ProperNames (base ++ above) := proper.left
    simp only [reversed, Except.ok.injEq]
    cases above with
    | nil =>
      have none : results = [] := List.reverse_eq_nil_iff.mp reversed
      simpa [none, chain, Connection.mkdirAll] using unchanged_refl c w
    | cons text rest =>
      have outermost : ∀ dirs d, results = dirs ++ [d] → d = render (base ++ [text]) := by
        rintro dirs d rfl
        simpa [chain] using congrArg List.head? reversed
      have ends : results = (chain (base ++ [text]) rest).reverse ++ [render (base ++ [text])] := by
        rw [← List.reverse_cons]
        exact List.reverse_eq_iff.mp reversed
      cases made :
          orFault (os.mkdir (render (base ++ [text])))
            (w.fs.mkdir (render (base ++ [text])) os.attr) with
      | error err =>
        simp only [chain, Connection.mkdirAll, made]
        refine iff_of_true (unchanged_refl c w) ?_
        rintro ⟨dirs, d, after, loc, equal, done, _⟩
        rw [outermost dirs d equal, made] at done
        cases done
      | ok after =>
        have firstProper : ProperNames (base ++ [text]) :=
          fun piece member => dirsProper piece (by
            rw [List.append_cons]
            exact List.mem_append.mpr (Or.inl member))
        have entry := (mkdir_below firstProper resolved (orFault_eq_ok.mp made).2 0 0).2.2.1
        rw [unchanged_iff located, mkdirAll_quota,
          sameBelow_mkdirAll_iff dirsProper resolved (evalLoc_present located) made,
          and_iff_left rfl, not_iff_not]
        constructor
        · intro inside
          exact ⟨_, _, after, _, ends, made, entry, inside⟩
        · rintro ⟨dirs, d, _, loc, equal, _, named, inside⟩
          rw [outermost dirs d equal, entry] at named
          cases named
          exact inside

theorem unchanged_newFile_iff {code : FxCode} (path : p = render comps)
    (proper : ProperNames comps) (located : w.fs.evalLoc c.user.homeDir = .ok home)
    (missing : w.fs.stat p = .error .noent) {filePath : Str}
    (refused : (c.handleSFTPUploadToNewFile settings os w p filePath).2 = .refused code) :
    Unchanged c w (c.handleSFTPUploadToNewFile settings os w p filePath).1 ↔
      ¬ LeavesDirs c settings os w home p := by
  rw [newFile_refused_world refused]
  unfold LeavesDirs
  rw [← and_assoc]
  split
  · rename_i reached
    rw [unchanged_dirs_iff path proper located missing, and_iff_right reached]
  · rename_i stopped
    exact iff_of_true (unchanged_refl c w) fun both => stopped both.1

theorem unchanged_existingFile_iff {code : FxCode} {flags : OpenFlags} {info : FileInfo}
    (path : p = render comps) (proper : ProperNames comps)
    (located : w.fs.evalLoc c.user.homeDir = .ok home)
    (found : w.fs.stat p = .ok info) (regular : info.isDir = false)
    (fresh : TempFresh settings os w.fs p) (refused :
      (c.handleSFTPUploadToExistingFile settings os w flags p
        (uploadFilePath settings os p) info.size).2 = .refused code) :
    Unchanged c w
        (c.handleSFTPUploadToExistingFile settings os w flags p
          (uploadFilePath settings os p) info.size).1 ↔
      ¬ LosesEntry c settings os w home flags p := by
  obtain ⟨leaf, rest, ino, target, _⟩ := target_of_stat found regular
  have present := evalLoc_present located
  rw [existingFile_refused_world refused]
  unfold LosesEntry
  rw [← and_assoc]
  split
  swap
  · rename_i stopped
    exact iff_of_true (unchanged_refl c w) fun both => stopped both.1
  rename_i reached
  rw [and_iff_right reached]
  cases aside : Connection.moveAside settings os w p (uploadFilePath settings os p) with
  | error err =>
    refine iff_of_true (unchanged_refl c w) ?_
    rintro ⟨atomic, ⟨after, renamed⟩, _⟩
    simp [Connection.moveAside, uploadFilePath, atomic, renamed] at aside
  | ok moved =>
    have quota : moved.quota = w.quota := by
      rcases moveAside_cases aside with ⟨_, _, _, rfl⟩ | ⟨_, rfl⟩ <;> rfl
    rw [unchanged_iff located, quota, and_iff_left rfl,
      sameBelow_existing_refused_iff target path proper present fresh aside, not_iff_not]
    refine and_congr_right fun atomic => ?_
    rw [and_iff_right]
    simp only [Connection.moveAside, uploadFilePath, atomic, if_true] at aside
    split at aside
    · cases aside
    · rename_i after renamed
      exact ⟨after, renamed⟩

end Changed

/-- An open for writing that is refused leaves the files and the counters
alone exactly when it has not made a directory or moved the old file before
it failed. -/
theorem open_failure_atomic_iff (c : Connection) (settings : Settings) (os : Os) (w : World)
    (request : Request) (code : FxCode) (rooted : isAbs c.user.homeDir)
    (fresh : TempFresh settings os w.fs (c.requested request.filepath))
    (refused : (c.filewrite settings os w request).2 = .refused code) :
    Unchanged c w (c.filewrite settings os w request).1 ↔
      ¬ OpenDamages c settings os w request := by
  have same := unchanged_refl c w
  unfold Connection.filewrite at refused ⊢
  unfold OpenDamages
  by_cases allowed : c.user.hasPerm permUpload = true
  swap
  · rw [if_pos allowed]
    exact iff_of_true same fun both => allowed both.1
  rw [if_neg (not_not.mpr allowed)] at refused ⊢
  rw [and_iff_right allowed]
  cases accepted : c.buildPath w.fs request.filepath with
  | error err => simpa using same
  | ok p =>
    obtain ⟨home, located⟩ := home_of_buildPath accepted
    obtain ⟨comps, proper, path⟩ := requested_eq_render rooted request.filepath
    have equal := (buildPath_eq_ok_iff.mp accepted).1
    rw [← equal] at path fresh
    simp only [accepted] at refused ⊢
    simp only [Except.ok.injEq, located, exists_and_left, exists_eq_left']
    cases found : orFault os.stat (w.fs.stat p) with
    | error err =>
      by_cases absent : err = .noent
      · subst absent
        have missing := (orFault_eq_noent.mp found).2
        simp only [found, true_and] at refused ⊢
        exact unchanged_newFile_iff path proper located missing refused
      · cases err <;>
          first
            | exact absurd rfl absent
            | exact iff_of_true same fun both => absent both.1
    | ok info =>
      have seen := (orFault_eq_ok.mp found).2
      simp only [found] at refused ⊢
      by_cases directory : info.isDir = true
      · simpa [directory] using same
      · have regular : info.isDir = false := by simpa using directory
        rw [if_neg directory] at refused ⊢
        rw [and_iff_right regular]
        exact unchanged_existingFile_iff path proper located seen regular fresh refused

def openRequest (flags : Nat) (path : String) : Request :=
  ⟨.other "Put".toList, path.toList, [], flags, ⟨0, 0, 0, 0, 0, 0⟩⟩

/-- With the flags write, create, truncate and exclusive the open fails after
the file has been moved away. -/
theorem exclusive_open_loses_file :
    ¬ OpenAtomic sampleConnection atomicSettings sampleOs fullWorld (openRequest 58 "/f") := by
  intro atomic
  have unchanged := atomic .failure (by decide)
  have kept :=
    unchanged.1 sampleHome (by decide)
      ["srv".toList, "u".toList, "f".toList] (by decide)
  revert kept
  decide

/-- Without the flag truncate the open fails before anything has happened. -/
theorem resumed_open_keeps_file :
    (Connection.filewrite sampleConnection atomicSettings
        sampleOs fullWorld (openRequest 10 "/f")).2 =
        .refused .opUnsupported ∧
      Unchanged sampleConnection fullWorld
        (Connection.filewrite sampleConnection
          atomicSettings sampleOs fullWorld (openRequest 10 "/f")).1 := by
  have refused :
      (Connection.filewrite sampleConnection
        atomicSettings sampleOs fullWorld (openRequest 10 "/f")).2 =
        .refused .opUnsupported := by decide
  refine ⟨refused, (open_failure_atomic_iff _ _ _ _ _ .opUnsupported (by decide) ?_ refused).mpr ?_⟩
  · refine fun _ => ⟨by decide, fun loc named => ?_⟩
    have entry :
        fullWorld.fs.entryLoc
            (getUploadTempFilePath sampleOs (sampleConnection.requested "/f".toList)) =
          .ok ["srv".toList, "u".toList, ".sftpgo-upload.guid.f".toList] := by decide
    have same := entry.symm.trans named
    cases same
    decide
  · rintro ⟨_, p, home, accepted, _, damages⟩
    have path :
        sampleConnection.buildPath fullWorld.fs
            (openRequest 10 "/f").filepath = .ok "/srv/u/f".toList := by
      decide
    rw [path] at accepted
    cases accepted
    have found : ∃ info, orFault sampleOs.stat (fullWorld.fs.stat "/srv/u/f".toList) = .ok info :=
      ⟨_, rfl⟩
    obtain ⟨info, seen⟩ := found
    simp only [seen] at damages
    have truncates := damages.2.2.1
    revert truncates
    decide

end Sshserv.Serv
