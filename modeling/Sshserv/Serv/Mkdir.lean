import Sshserv.Serv.OpenFailure

/-!
# Making a directory

`handleSFTPMkdir` asks `createMissingDirs` for the directories above a file
`testfile` in the requested one.  A path that leads to a regular file is not
missing, so the request succeeds and does nothing.
-/

namespace Sshserv.Serv

open Lib UnixPath FileTree FileSys DataProvider

/-- The path itself and the directories above it, as `filepath.Dir` gives
them. -/
inductive Above (path : Str) : Str → Prop
  | self : Above path path
  | up {q : Str} : Above path q → Above path (dir q)

/-- Where `q` leads in the new tree there was nothing, and now there is a
directory inside the home directory. -/
def MadeInside (c : Connection) (before after : FileSys) (q : Str) : Prop :=
  ∃ loc left home, after.resolve q = .found loc left ∧
    after.isDirAt loc = true ∧ before.node loc = none ∧
    before.evalLoc c.user.homeDir = .ok home ∧ home <+: loc

/-- The path is a directory, every directory above it that was missing has
been made inside the home directory, and nothing else has changed. -/
structure MakesDirectory (c : Connection) (before after : FileSys) (path : Str) : Prop where
  directory : ∃ info, after.stat path = .ok info ∧ info.isDir = true
  made : ∀ q, Above path q → before.stat q = .error .noent → MadeInside c before after q
  unchanged :
    ∀ loc, after.node loc ≠ before.node loc →
      before.node loc = none ∧
        ∃ q left, Above path q ∧ before.stat q = .error .noent ∧ after.resolve q = .found loc left
  contents : after.inode = before.inode

/-- The path leads to a directory, or the place where the walk to it breaks
off is below the home directory. -/
def DirectoryOrFree (c : Connection) (fs : FileSys) (path : Str) : Prop :=
  (∃ loc left, fs.resolve path = .found loc left ∧ fs.isDirAt loc = true) ∨
    ∃ home stop, fs.evalLoc c.user.homeDir = .ok home ∧
      (fs.resolve path).stuckAt = some stop ∧ home <+: stop

theorem above_render_iff {names : Loc} (proper : ProperNames names) {q : Str} :
    Above (render names) q ↔ ∃ part, part <+: names ∧ q = render part := by
  constructor
  · intro above
    induction above with
    | self => exact ⟨names, List.prefix_rfl, rfl⟩
    | up _ ih =>
      obtain ⟨part, shorter, rfl⟩ := ih
      refine ⟨part.dropLast, (List.dropLast_prefix part).trans shorter, ?_⟩
      exact dir_render fun text member =>
        proper text (shorter.subset member)
  · rintro ⟨part, ⟨rest, rfl⟩, rfl⟩
    induction rest generalizing part with
    | nil => simpa using Above.self
    | cons text rest ih =>
      have split : part ++ text :: rest = part ++ [text] ++ rest := by simp
      rw [split] at proper ⊢
      have step := (ih (part ++ [text]) proper).up
      rwa [dir_render, List.dropLast_concat] at step
      exact proper.left

section Loop

variable {c : Connection} {os : Os}

theorem mkdir_frame {w : World} {base place : Loc} {text : Str} {left : Nat}
    {after : FileSys} (proper : ProperNames (base ++ [text]))
    (resolved : w.fs.resolve (render base) = .found place left)
    (made : w.fs.mkdir (render (base ++ [text])) os.attr = .ok after) (uid gid : Int) :
    let next :=
      (w.setFs after).setPathPermissions os (render (base ++ [text])) uid gid
    next.fs.inode = w.fs.inode ∧
      ∀ loc, loc ≠ place ++ [text] → next.fs.node loc = w.fs.node loc := by
  intro next
  obtain ⟨_, _, located, _⟩ := mkdir_below proper resolved made uid gid
  obtain ⟨parent, name, room, entry, rfl⟩ := mkdir_cases made
  obtain ⟨rfl, rfl⟩ : parent = place ∧ name = text := by
    simpa [FileSys.entryLoc, entry] using located
  have leads := @resolve_after_addDir w.fs base parent name left os.attr proper resolved room
  have directory : (w.fs.addDir parent name os.attr room).isDirAt (parent ++ [name]) = true := by
    simp [isDirAt, Node.isDir]
  have added :
      ∀ loc, loc ≠ parent ++ [name] →
        (w.fs.addDir parent name os.attr room).node loc = w.fs.node loc :=
    fun loc other => by simp [other]
  simp only [next, World.setPathPermissions]
  split
  · rename_i owned done
    obtain ⟨inode, node⟩ := modifyAttr_dir leads directory (orFault_eq_ok.mp done).2
    exact ⟨inode, fun loc other => (node loc other).trans (added loc other)⟩
  · exact ⟨rfl, added⟩

/-- The directories `missing` below `place` are new, and they are all that
is. -/
structure Branch (before after : FileSys) (place missing : Loc) : Prop where
  fresh :
    ∀ part, part ≠ [] → part <+: missing →
      before.node (place ++ part) = none ∧ after.isDirAt (place ++ part) = true
  frame :
    ∀ loc, (∀ part, part ≠ [] → part <+: missing → loc ≠ place ++ part) →
      after.node loc = before.node loc
  inode : after.inode = before.inode

namespace Branch

variable {before middle after : FileSys} {place missing : Loc} {text : Str}

theorem refl (fs : FileSys) (place : Loc) : Branch fs fs place [] where
  fresh := fun _ filled shorter => absurd (List.prefix_nil.mp shorter) filled
  frame := fun _ _ => rfl
  inode := rfl

theorem grown (branch : Branch before after place missing) : Grown before after := by
  intro loc present
  refine view_congr (branch.frame loc ?_) branch.inode
  rintro part filled shorter rfl
  exact present (view_eq_none_iff.mpr (branch.fresh part filled shorter).1)

theorem cons (branch : Branch middle after (place ++ [text]) missing)
    (directory : middle.isDirAt (place ++ [text])) (absent : before.node (place ++ [text]) = none)
    (frame : ∀ loc, loc ≠ place ++ [text] → middle.node loc = before.node loc)
    (inode : middle.inode = before.inode) :
    Branch before after place (text :: missing) where
  fresh := by
    rintro part filled shorter
    obtain ⟨head, more, rfl⟩ := List.exists_cons_of_ne_nil filled
    obtain ⟨rfl, inner⟩ := List.cons_prefix_cons.mp shorter
    have split : place ++ head :: more = place ++ [head] ++ more := by simp
    rw [split]
    by_cases last : more = []
    · subst last
      rw [List.append_nil]
      exact ⟨absent, branch.grown.isDirAt directory⟩
    · obtain ⟨gone, isDir⟩ := branch.fresh more last inner
      rw [frame _ (by simpa using last)] at gone
      exact ⟨gone, isDir⟩
  frame := by
    intro loc outside
    have first := outside [text] (by simp) (by simp)
    rw [branch.frame loc ?_, frame loc first]
    intro part _ shorter
    have deeper := outside (text :: part) (by simp) (List.cons_prefix_cons.mpr ⟨rfl, shorter⟩)
    simpa using deeper
  inode := branch.inode.trans inode

theorem isDirAt_place (branch : Branch before after place (text :: missing)) :
    before.isDirAt place = true := by
  have first := (branch.fresh [text] (by simp) (by simp)).2
  have parent : after.isDirAt place = true := by
    simpa using isDirAt_dropLast first
  rw [isDirAt, branch.frame place ?_] at parent
  · exact parent
  · intro part filled _ same
    exact filled (by simpa using same)

end Branch

theorem mkdirAll_branch (c : Connection) (os : Os) (missing : Loc) :
    ∀ {base place : Loc} {left : Nat} {w : World},
      ProperNames (base ++ missing) →
      w.fs.resolve (render base) = .found place left →
      (c.mkdirAll os w (chain base missing)).2 = .ok () →
      Branch w.fs (c.mkdirAll os w (chain base missing)).1.fs place missing ∧
        ∀ part, part <+: missing →
          (c.mkdirAll os w (chain base missing)).1.fs.resolve
              (render (base ++ part)) = .found (place ++ part) left := by
  induction missing with
  | nil =>
    intro base place left w _ resolved _
    refine ⟨Branch.refl w.fs place, fun part shorter => ?_⟩
    rw [List.prefix_nil.mp shorter, List.append_nil, List.append_nil]
    exact resolved
  | cons text rest ih =>
    intro base place left w proper resolved done
    have split : base ++ text :: rest = base ++ [text] ++ rest := by simp
    simp only [chain, Connection.mkdirAll] at done ⊢
    cases made :
        orFault (os.mkdir (render (base ++ [text])))
          (w.fs.mkdir (render (base ++ [text])) os.attr) with
    | error err => simp [made] at done
    | ok fs =>
      simp only [made] at done
      have firstProper : ProperNames (base ++ [text]) :=
        fun piece member =>
          proper piece (split ▸ List.mem_append.mpr (Or.inl member))
      have call := (orFault_eq_ok.mp made).2
      obtain ⟨moved, updated, _, absent⟩ :=
        mkdir_below firstProper resolved call c.user.getUID c.user.getGID
      obtain ⟨inode, frame⟩ := mkdir_frame firstProper resolved call c.user.getUID c.user.getGID
      obtain ⟨tail, leads⟩ := ih (split ▸ proper) moved done
      have directory := view_eq_dir_iff.mp ((updated (place ++ [text])).trans (if_pos rfl))
      have branch := tail.cons directory absent frame inode
      refine ⟨branch, fun part shorter => ?_⟩
      cases part with
      | nil => simpa using branch.grown.resolve resolved
      | cons head more =>
        obtain ⟨rfl, inner⟩ := List.cons_prefix_cons.mp shorter
        simpa using leads more inner

end Loop

section Request

variable {c : Connection} {os : Os} {w : World} {names : Loc}

theorem handleSFTPMkdir_done (proper : ProperNames names)
    (done : (c.handleSFTPMkdir os w (render names)).2 = none) :
    ∃ base missing place left, names = base ++ missing ∧
      w.fs.resolve (render base) = .found place left ∧
      c.isSubDir w.fs (render place) = .ok () ∧
      (c.mkdirAll os w (chain base missing)).2 = .ok () ∧
      (c.handleSFTPMkdir os w (render names)).1 = (c.mkdirAll os w (chain base missing)).1 := by
  have fictitious : Proper "testfile".toList := by decide
  have longer : ProperNames (names ++ ["testfile".toList]) :=
    List.forall_mem_append.mpr ⟨proper, List.forall_mem_singleton.mpr fictitious⟩
  unfold Connection.handleSFTPMkdir at done ⊢
  by_cases permitted : c.user.hasPerm permCreateDirs = true
  · rw [if_neg (not_not_intro permitted), join_render_name proper fictitious] at done ⊢
    unfold Connection.createMissingDirs at done ⊢
    cases searched : c.findNonexistentDirs w.fs (render (names ++ ["testfile".toList])) with
    | error err =>
      rw [searched] at done
      cases done
    | ok results =>
      obtain ⟨base, missing, place, left, rfl, reversed, resolved, inside,
        _⟩ := findNonexistentDirs_ok longer searched
      simp only [searched, reversed] at done ⊢
      refine ⟨base, missing, place, left, rfl, resolved, inside, ?_⟩
      generalize c.mkdirAll os w (chain base missing) = run at done ⊢
      obtain ⟨after, result⟩ := run
      cases result with
      | error err => cases done
      | ok => exact ⟨rfl, rfl⟩
  · rw [if_pos permitted] at done
    cases done

theorem makesDirectory_present_iff {fs : FileSys} {place : Loc} {left : Nat}
    (proper : ProperNames names) (resolved : fs.resolve (render names) = .found place left) :
    MakesDirectory c fs fs (render names) ↔ DirectoryOrFree c fs (render names) := by
  constructor
  · intro makes
    exact Or.inl (stat_isDir_iff.mp makes.directory)
  · rintro (present | ⟨_, stop, _, stuck, _⟩)
    · refine ⟨stat_isDir_iff.mpr present, ?_, fun _ other => absurd rfl other, rfl⟩
      intro q above missing
      obtain ⟨part, shorter, rfl⟩ := (above_render_iff proper).mp above
      obtain ⟨stop, stuck⟩ := stat_noent_iff.mp missing
      rw [stuckAt_above proper resolved shorter] at stuck
      cases stuck
    · rw [resolved] at stuck
      cases stuck

/-- A new branch makes the path a directory exactly when it starts inside the
home directory. -/
theorem makesDirectory_branch_iff
    {fs after : FileSys} {base place rest : Loc} {text : Str} {left : Nat}
    (proper : ProperNames (base ++ text :: rest))
    (resolved : fs.resolve (render base) = .found place left)
    (branch : Branch fs after place (text :: rest)) (leads :
      ∀ part, part <+: text :: rest →
        after.resolve (render (base ++ part)) = .found (place ++ part) left) :
    MakesDirectory c fs after (render (base ++ text :: rest)) ↔
      DirectoryOrFree c fs (render (base ++ text :: rest)) := by
  have absent := (branch.fresh [text] (by simp) (by simp)).1
  have stops :
      ∀ part, part ≠ [] → part <+: text :: rest →
        (fs.resolve (render (base ++ part))).stuckAt = some (place ++ [text]) := by
    intro part filled shorter
    obtain ⟨head, more, rfl⟩ := List.exists_cons_of_ne_nil filled
    obtain ⟨rfl, inner⟩ := List.cons_prefix_cons.mp shorter
    refine stuckAt_render_below (fun piece member => ?_) resolved branch.isDirAt_place absent
    exact proper piece (((List.prefix_append_right_inj base).mpr shorter).subset member)
  have stop := stops (text :: rest) (by simp) List.prefix_rfl
  constructor
  · intro makes
    have missing : fs.stat (render (base ++ [text])) = .error .noent :=
      stat_noent_iff.mpr ⟨_, stops [text] (by simp) (by simp)⟩
    obtain ⟨loc, _, home, found, _, _, located, inside⟩ :=
      makes.made _ ((above_render_iff proper).mpr ⟨base ++ [text], by simp, rfl⟩) missing
    rw [leads [text] (by simp), Outcome.found.injEq] at found
    exact Or.inr ⟨home, _, located, stop, found.1 ▸ inside⟩
  · rintro (⟨loc, _, found, _⟩ | ⟨home, other, located, stuck, inside⟩)
    · rw [found] at stop
      cases stop
    rw [stop, Option.some.injEq] at stuck
    subst stuck
    refine ⟨?_, ?_, ?_, branch.inode⟩
    · exact stat_isDir_iff.mpr ⟨_, left,
        leads _ List.prefix_rfl, (branch.fresh _ (by simp) List.prefix_rfl).2⟩
    · intro q above missing
      obtain ⟨part, shorter, rfl⟩ := (above_render_iff proper).mp above
      by_cases here : part <+: base
      · obtain ⟨_, stuck⟩ := stat_noent_iff.mp missing
        have baseProper : ProperNames base := proper.left
        rw [stuckAt_above baseProper resolved here] at stuck
        cases stuck
      · obtain ⟨more, rfl⟩ :=
          (List.prefix_or_prefix_of_prefix shorter (List.prefix_append base _)).resolve_left here
        have filled : more ≠ [] := by
          rintro rfl
          exact here (by simp)
        have inner := (List.prefix_append_right_inj base).mp shorter
        obtain ⟨gone, isDir⟩ := branch.fresh more filled inner
        refine ⟨place ++ more, left, home, leads more inner, isDir, gone, located, inside.trans ?_⟩
        obtain ⟨head, more, rfl⟩ := List.exists_cons_of_ne_nil filled
        obtain ⟨rfl, _⟩ := List.cons_prefix_cons.mp inner
        simp
    · intro loc changed
      by_contra passable
      refine changed (branch.frame loc ?_)
      rintro part filled shorter rfl
      refine passable ⟨(branch.fresh part filled shorter).1,
        render (base ++ part), left, ?_, ?_, leads part shorter⟩
      · exact (above_render_iff proper).mpr ⟨base ++ part,
          (List.prefix_append_right_inj base).mpr shorter, rfl⟩
      · exact stat_noent_iff.mpr ⟨_, stops part filled shorter⟩

end Request

/-- A request that succeeds has made the path a directory, and nothing else,
exactly when the path already was one or was missing below the home
directory. -/
theorem mkdir_makes_directory_iff (c : Connection) (os : Os) (w : World) (rawPath path : Str)
    (rooted : isAbs c.user.homeDir) (accepted : c.buildPath w.fs rawPath = .ok path)
    (done : (c.handleSFTPMkdir os w path).2 = none) :
    MakesDirectory c w.fs (c.handleSFTPMkdir os w path).1.fs path ↔
      DirectoryOrFree c w.fs path := by
  obtain ⟨names, proper, requested⟩ := requested_eq_render rooted rawPath
  obtain rfl : path = render names := (buildPath_eq_ok_iff.mp accepted).1.trans requested
  obtain ⟨base, missing, place, left, rfl, resolved, _, ran, same⟩ :=
    handleSFTPMkdir_done proper done
  rw [same]
  cases missing with
  | nil =>
    rw [List.append_nil] at proper ⊢
    exact makesDirectory_present_iff proper resolved
  | cons text rest =>
    obtain ⟨branch, leads⟩ := mkdirAll_branch c os (text :: rest) proper resolved ran
    exact makesDirectory_branch_iff proper resolved branch leads

def mkdirIn (fs : FileSys) (path : Str) : World × Option FxCode :=
  sampleConnection.handleSFTPMkdir sampleOs (World.start fs fun _ => none) path

/-- Two new directories in the home directory. -/
theorem mkdir_two_levels :
    (mkdirIn namesakeTree "/srv/u/a/b".toList).2 = none ∧
      MakesDirectory sampleConnection namesakeTree
        (mkdirIn namesakeTree "/srv/u/a/b".toList).1.fs
        "/srv/u/a/b".toList := by
  have done : (mkdirIn namesakeTree "/srv/u/a/b".toList).2 = none := by
    decide +kernel
  refine ⟨done, ?_⟩
  refine (mkdir_makes_directory_iff sampleConnection
    sampleOs (World.start namesakeTree fun _ => none) "a/b".toList
    "/srv/u/a/b".toList (by decide) (by decide +kernel) done).mpr
    (Or.inr ?_)
  exact ⟨sampleHome, ["srv".toList, "u".toList, "a".toList],
    by decide +kernel, by decide +kernel, by decide⟩

def occupiedTree : FileSys :=
  namesakeTree.withFile sampleHome "f".toList ⟨"abc".toList, sampleAttr⟩

/-- The requests for `/srv/u/f`, a file, and for `/srv/user2/x`, outside the
home directory, succeed. -/
theorem mkdir_of_file_and_outside :
    (sampleConnection.buildPath occupiedTree "f".toList = .ok "/srv/u/f".toList ∧
      (mkdirIn occupiedTree "/srv/u/f".toList).2 = none ∧
      ¬ MakesDirectory sampleConnection occupiedTree
        (mkdirIn occupiedTree "/srv/u/f".toList).1.fs
        "/srv/u/f".toList) ∧
    (sampleConnection.buildPath occupiedTree "../user2/x".toList = .ok "/srv/user2/x".toList ∧
      (mkdirIn occupiedTree "/srv/user2/x".toList).2 = none ∧
      ¬ MakesDirectory sampleConnection occupiedTree
        (mkdirIn occupiedTree "/srv/user2/x".toList).1.fs
        "/srv/user2/x".toList) := by
  refine ⟨⟨by decide +kernel, by decide +kernel, ?_⟩, by decide +kernel,
    by decide +kernel, ?_⟩
  · intro makes
    obtain ⟨loc, left, found, isDir⟩ := stat_isDir_iff.mp makes.directory
    have leads :
        (mkdirIn occupiedTree "/srv/u/f".toList).1.fs.resolve "/srv/u/f".toList =
          .found ["srv".toList, "u".toList, "f".toList] 40 := by
      decide +kernel
    rw [leads, Outcome.found.injEq] at found
    obtain ⟨rfl, _⟩ := found
    exact absurd isDir (by decide +kernel)
  · intro makes
    obtain ⟨loc, left, home, found, _, _, located, inside⟩ :=
      makes.made _ Above.self (by decide +kernel)
    have leads :
        (mkdirIn occupiedTree "/srv/user2/x".toList).1.fs.resolve "/srv/user2/x".toList =
          .found ["srv".toList, "user2".toList, "x".toList] 40 := by
      decide +kernel
    have homeLocated : occupiedTree.evalLoc sampleConnection.user.homeDir = .ok sampleHome := by
      decide +kernel
    rw [leads, Outcome.found.injEq] at found
    rw [homeLocated, Except.ok.injEq] at located
    obtain ⟨rfl, _⟩ := found
    subst located
    exact absurd inside (by decide)

end Sshserv.Serv
