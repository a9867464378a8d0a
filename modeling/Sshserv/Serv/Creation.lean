import Sshserv.Lib.Effects
import Sshserv.Serv.HomePath

/-!
# Paths to be created

When the requested path does not exist, `buildPath` looks for the first
directory above it that does and checks only that one.  The operating system
later resolves the whole path again, links included.
-/

namespace Sshserv.Serv

open Lib UnixPath FileTree FileSys DataProvider

variable {c : Connection} {fs : FileSys}

/-! ## The search for a directory that exists -/

/-- The paths of the directories `missing` below `base`, the outermost
first. -/
def chain (base : Loc) : Loc → List Str
  | [] => []
  | text :: rest => render (base ++ [text]) :: chain (base ++ [text]) rest

theorem chain_concat (base missing : Loc) (text : Str) :
    chain base (missing ++ [text]) =
      chain base missing ++ [render (base ++ missing ++ [text])] := by
  induction missing generalizing base with
  | nil => simp [chain]
  | cons head tail ih => simp [chain, ih]

private theorem length_le_render (names : Loc) : names.length ≤ (render names).length := by
  by_cases empty : names = []
  · simp [empty]
  · rw [render, if_neg empty]
    clear empty
    induction names with
    | nil => simp
    | cons head tail ih =>
      simp only [List.flatMap_cons, List.length_append, List.length_cons]
      omega

/-- Where a path that is not missing ends the search. -/
private def stopsAt (fs : FileSys) (path : Str) : Except Errno Str :=
  match fs.stat path with
  | .ok _ => .ok path
  | .error err => .error err

variable {path text rawPath : Str} {parent names place : Loc}

private theorem climb_stop (present : fs.stat path ≠ .error .noent) (fuel : Nat) :
    Connection.climb fs (fuel + 1) path = ([], stopsAt fs path) := by
  unfold stopsAt
  cases result : fs.stat path with
  | ok info => simp [Connection.climb, result]
  | error err =>
    have other : err ≠ .noent := by
      intro missing
      exact present (missing ▸ result)
    simp [Connection.climb, result, isNotExist, other]

private theorem climb_step (proper : ProperNames (parent ++ [text]))
    (missing : fs.stat (render (parent ++ [text])) = .error .noent) (fuel : Nat) :
    Connection.climb fs (fuel + 1) (render (parent ++ [text])) =
      (render (parent ++ [text]) :: (Connection.climb fs fuel (render parent)).1,
        (Connection.climb fs fuel (render parent)).2) := by
  have up : dir (render (parent ++ [text])) = render parent := by
    rw [dir_render proper, List.dropLast_concat]
  rw [Connection.climb, missing, up]
  rfl

/-- With enough fuel the search collects the missing directories and stops
at the innermost one that is not missing. -/
private theorem climb_spec (fs : FileSys) (proper : ProperNames names) {fuel : Nat}
    (enough : names.length < fuel) :
    ∃ base missing,
      names = base ++ missing ∧
      (Connection.climb fs fuel (render names)).1.reverse = chain base missing ∧
      (Connection.climb fs fuel (render names)).2 = stopsAt fs (render base) ∧
      (missing ≠ [] → fs.stat (render names) = .error .noent) := by
  induction names using List.reverseRecOn generalizing fuel with
  | nil =>
    obtain ⟨fuel, rfl⟩ : ∃ less, fuel = less + 1 := ⟨fuel - 1, by omega⟩
    have present : fs.stat (render []) ≠ .error .noent := by
      rw [Ne, stat_eq_error_iff, FileSys.resolve, walk_elems_render _ (by simp)]
      simp [Outcome.located]
    rw [climb_stop present]
    exact ⟨[], [], rfl, rfl, rfl, fun some => absurd rfl some⟩
  | append_singleton parent text ih =>
    obtain ⟨fuel, rfl⟩ : ∃ less, fuel = less + 1 := ⟨fuel - 1, by omega⟩
    by_cases missingHere : fs.stat (render (parent ++ [text])) = .error .noent
    · simp only [List.length_append, List.length_singleton] at enough
      have less : parent.length < fuel := by omega
      obtain ⟨base, missing, split, results, ended, _⟩ := ih proper.left less
      rw [climb_step proper missingHere]
      refine ⟨base, missing ++ [text], by simp [split], ?_, ended,
        fun _ => missingHere⟩
      rw [List.reverse_cons, results, chain_concat, split]
    · rw [climb_stop missingHere]
      exact ⟨parent ++ [text], [], by simp, rfl, rfl,
        fun some => absurd rfl some⟩

theorem findNonexistentDirs_ok {last : Str} {results : List Str}
    (proper : ProperNames (names ++ [last]))
    (searched : c.findNonexistentDirs fs (render (names ++ [last])) = .ok results) :
    ∃ base missing place left,
      names = base ++ missing ∧
      results.reverse = chain base missing ∧
      fs.resolve (render base) = .found place left ∧
      c.isSubDir fs (render place) = .ok () ∧
      (missing ≠ [] → fs.stat (render names) = .error .noent) := by
  have namesProper : ProperNames names := proper.left
  have up : dir (clean (render (names ++ [last]))) = render names := by
    rw [clean_render proper, dir_render proper, List.dropLast_concat]
  have enough : names.length < (render (names ++ [last])).length + 1 := by
    have bound := length_le_render (names ++ [last])
    simp only [List.length_append, List.length_singleton] at bound
    omega
  obtain ⟨base, missing, split, found, ended, absent⟩ := climb_spec fs namesProper enough
  unfold Connection.findNonexistentDirs at searched
  rw [up] at searched
  generalize
    Connection.climb fs ((render (names ++ [last])).length + 1) (render names) = climbed at *
  obtain ⟨collected, outcome⟩ := climbed
  simp only [stopsAt] at found ended
  cases result : fs.stat (render base) with
  | error err =>
    rw [result] at ended
    simp [ended] at searched
  | ok info =>
    rw [result] at ended
    simp only [ended] at searched
    obtain ⟨place, left, resolved, _⟩ := stat_eq_ok_iff.mp result
    have located : fs.evalLoc (render base) = .ok place := evalLoc_of_resolve resolved
    have evaluated : fs.evalSymlinks (render base) = .ok (render place) :=
      evalSymlinks_eq_ok_iff.mpr ⟨place, located, rfl⟩
    rw [evaluated] at searched
    cases tested : c.isSubDir fs (render place) with
    | error err => simp [tested] at searched
    | ok =>
      simp only [tested, Except.ok.injEq] at searched
      subst searched
      exact ⟨base, missing, place, left, split, found, resolved, tested, absent⟩

theorem findNonexistentDirs_of_parent
    {last : Str} {left : Nat} (proper : ProperNames (names ++ [last]))
    (resolved : fs.resolve (render names) = .found place left)
    (accepted : c.isSubDir fs (render place) = .ok ()) :
    c.findNonexistentDirs fs (render (names ++ [last])) = .ok [] := by
  have up : dir (clean (render (names ++ [last]))) = render names := by
    rw [clean_render proper, dir_render proper, List.dropLast_concat]
  have present : fs.stat (render names) ≠ .error .noent := by
    rw [Ne, stat_eq_error_iff, resolved]
    simp [Outcome.located]
  have located : fs.evalLoc (render names) = .ok place := evalLoc_of_resolve resolved
  have evaluated : fs.evalSymlinks (render names) = .ok (render place) :=
    evalSymlinks_eq_ok_iff.mpr ⟨place, located, rfl⟩
  have stops : stopsAt fs (render names) = .ok (render names) := by
    unfold stopsAt
    cases result : fs.stat (render names) with
    | ok info => rfl
    | error err =>
      rw [stat_eq_error_iff, resolved] at result
      cases result
  simp [Connection.findNonexistentDirs, up, climb_stop present, stops, evaluated, accepted]

/-! ## New objects -/

/-- Every object of `after` that `before` does not have lies where the test
of `isSubDir` accepts it. -/
def NewInside (c : Connection) (before after : FileSys) : Prop :=
  ∀ loc, before.node loc = none → after.node loc ≠ none → c.isSubDir before (render loc) = .ok ()

theorem newInside_refl (c : Connection) (fs : FileSys) : NewInside c fs fs :=
  fun _ absent present => absurd absent present

private theorem render_prefix_append (parent more : Loc) :
    render parent <+: render (parent ++ more) := by
  by_cases empty : parent = []
  · subst empty
    cases more with
    | nil => exact List.prefix_rfl
    | cons head tail => exact ⟨head ++ tail.flatMap ('/' :: ·), rfl⟩
  · rw [render, render, if_neg empty, if_neg (by simp [empty]), List.flatMap_append]
    exact List.prefix_append _ _

theorem isSubDir_below (inside : c.isSubDir fs (render parent) = .ok ()) (more : Loc) :
    c.isSubDir fs (render (parent ++ more)) = .ok () := by
  obtain ⟨home, located, below⟩ := isSubDir_eq_ok_iff.mp inside
  exact isSubDir_eq_ok_iff.mpr ⟨home, located, below.trans (render_prefix_append parent more)⟩

section Additions

variable {before middle : FileSys} {parent : Loc} {text : Str}

private theorem newInside_of_node {after : FileSys} (inside : NewInside c before middle)
    (place : c.isSubDir before (render (parent ++ [text])) = .ok ())
    (frame : ∀ loc, loc ≠ parent ++ [text] → after.node loc = middle.node loc) :
    NewInside c before after := by
  intro loc absent present
  by_cases here : loc = parent ++ [text]
  · rw [here]
    exact place
  · rw [frame loc here] at present
    exact inside loc absent present

theorem newInside_addDir (inside : NewInside c before middle)
    (place : c.isSubDir before (render (parent ++ [text])) = .ok ())
    (attr : Attr) (room : middle.CanAdd parent text) :
    NewInside c before (middle.addDir parent text attr room) :=
  newInside_of_node inside place fun loc other => by simp [other]

theorem newInside_addFile (inside : NewInside c before middle)
    (place : c.isSubDir before (render (parent ++ [text])) = .ok ())
    (inode : Inode) (room : middle.CanAdd parent text) :
    NewInside c before (middle.addFile parent text inode room) :=
  newInside_of_node inside place fun loc other => by simp [other]

theorem newInside_sameShape {after : FileSys} (inside : NewInside c before middle)
    (shape : SameShape middle after) :
    NewInside c before after := by
  intro loc absent present
  exact inside loc absent fun gone => present ((shape.node_none loc).mpr gone)

end Additions

/-! ## Creating the missing directories -/

theorem setPathPermissions_cases (w : World) (os : Os) (path : Str) (uid gid : Int) :
    w.setPathPermissions os path uid gid = w ∨
      ∃ after, w.setPathPermissions os path uid gid = w.setFs after ∧
          SameShape w.fs after ∧
          ∀ ino, (after.inode ino).data = (w.fs.inode ino).data := by
  unfold World.setPathPermissions
  split
  · rename_i after done
    have changed := (orFault_eq_ok.mp done).2
    exact Or.inr ⟨after, rfl, sameShape_modifyAttr changed, data_modifyAttr changed⟩
  · exact Or.inl rfl

theorem setPathPermissions_tree (w : World) (os : Os) (path : Str) (uid gid : Int) :
    SameShape w.fs (w.setPathPermissions os path uid gid).fs ∧
      ∀ ino,
        ((w.setPathPermissions os path uid gid).fs.inode ino).data = (w.fs.inode ino).data := by
  rcases setPathPermissions_cases w os path uid gid with
    same | ⟨after, same, shape, data⟩
  · rw [same]
    exact ⟨SameShape.refl w.fs, fun _ => rfl⟩
  · rw [same]
    exact ⟨shape, data⟩

theorem resolve_after_addDir {base place : Loc} {text : Str} {left : Nat} {attr : Attr}
    (proper : ProperNames (base ++ [text]))
    (resolved : fs.resolve (render base) = .found place left) (room : fs.CanAdd place text) :
    (fs.addDir place text attr room).resolve (render (base ++ [text])) =
      .found (place ++ [text]) left := by
  have baseProper : ProperNames base := proper.left
  rw [FileSys.resolve, walk_elems_render _ baseProper] at resolved
  rw [FileSys.resolve, walk_elems_render _ proper, walk_names_concat]
  have unchanged :
      (fs.addDir place text attr room).walk kernelLinkLimit []
        (base.map .name) = .found place left := by
    have agree :
        ∀ loc, ¬ loc = place ++ [text] → (fs.addDir place text attr room).node loc = fs.node loc :=
      fun loc other => by simp [other]
    rcases walk_changed_absent agree
        (fun loc here => here ▸ room.absent)
        kernelLinkLimit [] (base.map .name) with same | ⟨loc, stuck, _⟩
    · rw [same, resolved]
    · simp [resolved, Outcome.stuckAt] at stuck
  have placeDir : (fs.addDir place text attr room).isDirAt place = true := by
    apply isDirAt_of_child text
    simp
  rw [unchanged]
  simp [extend, placeDir, walk_name]

/-- While directories are being created: the path `base` leads to `place`,
which the test accepts, and nothing has been made outside. -/
structure Anchored (c : Connection) (before now : FileSys) (base place : Loc) : Prop where
  resolved : ∃ left, now.resolve (render base) = .found place left
  accepted : c.isSubDir before (render place) = .ok ()
  inside : NewInside c before now

theorem Anchored.mkdir {before : FileSys} {w : World} {base : Loc} {os : Os} {after : FileSys}
    (anchored : Anchored c before w.fs base place) (proper : ProperNames (base ++ [text]))
    (made : w.fs.mkdir (render (base ++ [text])) os.attr = .ok after) (uid gid : Int) :
    let w' := (w.setFs after).setPathPermissions os (render (base ++ [text]))
      uid gid
    Anchored c before w'.fs (base ++ [text]) (place ++ [text]) ∧
      ∀ piece, w'.fs.node (place ++ [text] ++ [piece]) = none := by
  intro w'
  have baseProper : ProperNames base := proper.left
  obtain ⟨left, resolved⟩ := anchored.resolved
  obtain ⟨parent, name, room, entry, rfl⟩ := mkdir_cases made
  have walked := resolved
  rw [FileSys.resolve, walk_elems_render _ baseProper] at walked
  rw [entryOf_render_concat proper, walked] at entry
  simp only [Outcome.located] at entry
  split at entry
  swap
  · cases entry
  simp only [Except.ok.injEq, Prod.mk.injEq] at entry
  obtain ⟨rfl, rfl⟩ := entry
  have shape : SameShape (w.fs.addDir place text os.attr room) w'.fs :=
    (setPathPermissions_tree _ os _ uid gid).1
  have accepted := isSubDir_below anchored.accepted [text]
  refine ⟨⟨⟨left, ?_⟩, accepted, ?_⟩, fun piece => ?_⟩
  · rw [shape.resolve]
    exact resolve_after_addDir proper resolved room
  · exact newInside_sameShape (newInside_addDir anchored.inside accepted os.attr room) shape
  · have empty : w.fs.isDirAt (place ++ [text]) = false := by
      simp [isDirAt, room.absent]
    have below := w.fs.node_below_notDir empty [piece] (by simp)
    rw [shape.node_none]
    simpa using below

/-- Creating missing directories below a directory that the test accepts
makes nothing outside.  When it succeeds the anchor has moved to the innermost
directory, which is empty if it is new. -/
theorem mkdirAll_inside {before : FileSys} {os : Os} (missing : Loc) :
    ∀ {base place : Loc} {w : World},
      ProperNames (base ++ missing) →
      Anchored c before w.fs base place →
      NewInside c before (c.mkdirAll os w (chain base missing)).1.fs ∧
        ((c.mkdirAll os w (chain base missing)).2 = .ok () →
          Anchored c before (c.mkdirAll os w (chain base missing)).1.fs
            (base ++ missing) (place ++ missing) ∧
          (missing ≠ [] → ∀ text,
            (c.mkdirAll os w (chain base missing)).1.fs.node
              (place ++ missing ++ [text]) = none)) := by
  induction missing with
  | nil =>
    intro base place w _ anchored
    refine ⟨anchored.inside, fun _ => ⟨?_, fun some => absurd rfl some⟩⟩
    simpa [chain, Connection.mkdirAll] using anchored
  | cons text rest ih =>
    intro base place w proper anchored
    have firstProper : ProperNames (base ++ [text]) := by
      intro piece member
      apply proper
      simp only [List.mem_append, List.mem_cons, List.not_mem_nil, or_false] at member ⊢
      tauto
    simp only [chain, Connection.mkdirAll]
    cases made :
        orFault (os.mkdir (render (base ++ [text])))
          (w.fs.mkdir (render (base ++ [text])) os.attr) with
    | error err => exact ⟨anchored.inside, fun failed => by cases failed⟩
    | ok after =>
      obtain ⟨moved, fresh⟩ :=
        anchored.mkdir firstProper (orFault_eq_ok.mp made).2 c.user.getUID c.user.getGID
      obtain ⟨inside, finished⟩ := ih (by simpa using proper) moved
      refine ⟨inside, fun done => ?_⟩
      obtain ⟨ended, empty⟩ := finished done
      refine ⟨by simpa using ended, fun _ piece => ?_⟩
      by_cases lastOne : rest = []
      · subst lastOne
        exact fresh piece
      · simpa using empty lastOne piece

/-! ## Creating the path itself -/

section Last

variable {before now : FileSys} {names place : Loc} {last : Str}

private theorem not_created_of_missing_parent (proper : ProperNames (names ++ [last]))
    (missing : now.stat (render names) = .error .noent) (attr : Attr) :
    (∀ result, now.create (render (names ++ [last])) attr ≠ .ok result) ∧
      ∀ after, now.mkdir (render (names ++ [last])) attr ≠ .ok after := by
  have namesProper : ProperNames names := proper.left
  rw [stat_eq_error_iff, FileSys.resolve, walk_elems_render _ namesProper] at missing
  constructor
  · rintro ⟨after, handle⟩ done
    have stopped : ∃ loc, now.resolve (render (names ++ [last])) = .absent loc := by
      rw [FileSys.resolve, walk_elems_render _ proper, walk_names_concat]
      cases outcome : now.walk kernelLinkLimit [] (names.map .name) <;>
        simp_all [Outcome.located, extend]
    obtain ⟨loc, absent⟩ := stopped
    rcases create_cases done with
      ⟨_, _, _, found, _⟩ | ⟨_, _, _, _, stuck, _⟩
    · simp [absent] at found
    · simp [absent] at stuck
  · intro after done
    obtain ⟨_, _, _, entry, _⟩ := mkdir_cases done
    simp [entryOf_render_concat proper, missing] at entry

theorem Anchored.mkdir_last (anchored : Anchored c before now names place)
    (proper : ProperNames (names ++ [last])) {attr : Attr} {after : FileSys}
    (done : now.mkdir (render (names ++ [last])) attr = .ok after) :
    NewInside c before after := by
  have namesProper : ProperNames names := proper.left
  obtain ⟨left, resolved⟩ := anchored.resolved
  rw [FileSys.resolve, walk_elems_render _ namesProper] at resolved
  obtain ⟨parent, text, room, entry, rfl⟩ := mkdir_cases done
  rw [entryOf_render_concat proper, resolved] at entry
  simp only [Outcome.located] at entry
  split at entry
  · simp only [Except.ok.injEq, Prod.mk.injEq] at entry
    obtain ⟨rfl, rfl⟩ := entry
    exact newInside_addDir anchored.inside (isSubDir_below anchored.accepted [last]) attr room
  · cases entry

/-- The place where `os.Create` makes a file is the anchored directory,
unless a link in the last place leads elsewhere. -/
theorem Anchored.missing_place (anchored : Anchored c before now names place)
    (proper : ProperNames (names ++ [last])) {parent : Loc} {text : Str} {rest : Nat}
    (stuck : now.resolve (render (names ++ [last])) = .missing parent text rest) :
    (parent = place ∧ text = last) ∨
      ∃ target attr, now.node (place ++ [last]) = some (.symlink target attr) := by
  have namesProper : ProperNames names := proper.left
  obtain ⟨left, resolved⟩ := anchored.resolved
  rw [FileSys.resolve, walk_elems_render _ namesProper] at resolved
  rw [FileSys.resolve, walk_elems_render _ proper, walk_names_concat, resolved] at stuck
  simp only [extend, List.cons_ne_nil, if_false] at stuck
  split at stuck
  · rw [walk_name] at stuck
    cases entry : now.node (place ++ [last]) with
    | none =>
      simp only [entry, if_true, Outcome.missing.injEq] at stuck
      exact Or.inl ⟨stuck.1.symm, stuck.2.1.symm⟩
    | some node =>
      cases node with
      | dir attr => simp [entry] at stuck
      | file ino => simp [entry] at stuck
      | symlink target attr => exact Or.inr ⟨target, attr, rfl⟩
  · cases stuck

theorem Anchored.create_last (anchored : Anchored c before now names place)
    (proper : ProperNames (names ++ [last])) (link :
      ∀ target attr parent text rest,
        now.node (place ++ [last]) = some (.symlink target attr) →
        now.resolve (render (names ++ [last])) = .missing parent text rest →
        c.isSubDir before (render (parent ++ [text])) = .ok ())
    {attr : Attr} {after : FileSys} {handle : Handle}
    (done : now.create (render (names ++ [last])) attr = .ok (after, handle)) :
    NewInside c before after := by
  rcases create_cases done with
    ⟨loc, left, ino, _, _, rfl, _⟩ | ⟨parent, text, left, room, stuck, rfl, _⟩
  · exact newInside_sameShape anchored.inside (sameShape_setInode _ _)
  · apply newInside_addFile anchored.inside
    rcases anchored.missing_place proper stuck with
      ⟨rfl, rfl⟩ | ⟨target, old, entry⟩
    · exact isSubDir_below anchored.accepted [text]
    · exact link target old parent text left entry stuck

end Last

/-! ## The not-exist branch of `buildPath` -/

/-- What `findFirstExistingDir` checks of the home directory. -/
def HomeAccepted (c : Connection) (fs : FileSys) : Prop :=
  ∃ home, fs.evalLoc c.user.getHomeDir = .ok home ∧
    fs.isDirAt home = true ∧ c.isSubDir fs (render home) = .ok ()

theorem findFirstExistingDir_of_home (searched : c.findNonexistentDirs fs path = .ok [])
    (home : HomeAccepted c fs) :
    ∃ p, c.findFirstExistingDir fs path = .ok p := by
  obtain ⟨loc, located, directory, accepted⟩ := home
  have evaluated : fs.evalSymlinks c.user.getHomeDir = .ok (render loc) :=
    evalSymlinks_eq_ok_iff.mpr ⟨loc, located, rfl⟩
  have resolved := resolve_render_evalLoc located
  obtain ⟨info, stated, isDir⟩ := stat_isDir_iff.mpr ⟨loc, _, resolved, directory⟩
  refine ⟨render loc, ?_⟩
  simp [Connection.findFirstExistingDir, searched, evaluated, stated, isDir, accepted]

private theorem findFirstExistingDir_ok
    {p : Str} (searched : c.findFirstExistingDir fs path = .ok p) :
    ∃ results, c.findNonexistentDirs fs path = .ok results ∧
      (results = [] → HomeAccepted c fs) := by
  unfold Connection.findFirstExistingDir at searched
  cases found : c.findNonexistentDirs fs path with
  | error err => simp [found] at searched
  | ok results =>
    refine ⟨results, rfl, ?_⟩
    rintro rfl
    simp only [found, List.getLast?_nil] at searched
    split at searched
    · cases searched
    rename_i text evaluated
    obtain ⟨home, located, rfl⟩ := evalSymlinks_eq_ok_iff.mp evaluated
    split at searched
    · cases searched
    rename_i info stated
    obtain ⟨loc, left, resolved, entry⟩ := stat_eq_ok_iff.mp stated
    split at searched
    · cases searched
    rename_i isDir
    cases tested : c.isSubDir fs (render home) with
    | error err => simp [tested] at searched
    | ok =>
      rw [resolve_render_evalLoc located, Outcome.found.injEq] at resolved
      obtain ⟨rfl, rfl⟩ := resolved
      exact ⟨home, located, (infoAt_isDir_iff entry).mp (by simpa using isDir), tested⟩

/-! ## Confinement of what is created -/

/-- The trees in which the accepted path may be created: the one that
`buildPath` saw, or what `createMissingDirs` made of it. -/
def Prepared (c : Connection) (fs : FileSys) (r : Str) (start : FileSys) : Prop :=
  start = fs ∨
    ∃ os w, w.fs = fs ∧ (c.createMissingDirs os w r).2 = .ok () ∧
      start = (c.createMissingDirs os w r).1.fs

/-- Whenever `buildPath` accepts a path that does not exist, the missing
directories, and the file or the directory that `os.Create` or `os.Mkdir`
then makes of the path, lie where the test of `isSubDir` accepts them. -/
def CreatedConfined (c : Connection) (fs : FileSys) (rawPath : Str) : Prop :=
  ∀ r, fs.evalLoc r = .error .noent → c.buildPath fs rawPath = .ok r →
    (∀ os w, w.fs = fs → NewInside c fs (c.createMissingDirs os w r).1.fs) ∧
    ∀ start, Prepared c fs r start →
      (∀ attr after handle, start.create r attr = .ok (after, handle) → NewInside c fs after) ∧
      ∀ attr after, start.mkdir r attr = .ok after → NewInside c fs after

/-- The last component of the requested path is a symbolic link in an accepted
directory; its target is missing, can be created, and lies outside. -/
structure EscapingLink (c : Connection) (fs : FileSys) (rawPath : Str)
    (parent place : Loc) (text : Str) : Prop where
  link :
    ∃ names last left target attr,
      ProperNames (names ++ [last]) ∧
      c.requested rawPath = render (names ++ [last]) ∧
      fs.resolve (render names) = .found parent left ∧
      fs.node (parent ++ [last]) = some (.symlink target attr)
  accepted : c.isSubDir fs (render parent) = .ok ()
  home : HomeAccepted c fs
  dangling : ∃ left, fs.resolve (c.requested rawPath) = .missing place text left
  outside : c.isSubDir fs (render (place ++ [text])) ≠ .ok ()

theorem EscapingLink.not_confined (escape : EscapingLink c fs rawPath parent place text) :
    ¬ CreatedConfined c fs rawPath := by
  intro confined
  obtain ⟨names, last, left, target, attr, proper, path, resolved, _⟩ := escape.link
  obtain ⟨rest, dangling⟩ := escape.dangling
  have absent : fs.evalLoc (c.requested rawPath) = .error .noent :=
    evalLoc_noent_of_missing dangling
  have searched : c.findNonexistentDirs fs (c.requested rawPath) = .ok [] := by
    rw [path]
    exact findNonexistentDirs_of_parent proper resolved escape.accepted
  have accepted : c.buildPath fs rawPath = .ok (c.requested rawPath) :=
    buildPath_eq_ok_iff.mpr
      ⟨rfl, Or.inr ⟨absent, findFirstExistingDir_of_home searched escape.home⟩⟩
  have sound := fs.walk_sound kernelLinkLimit [] (elems (c.requested rawPath)) fs.isDirAt_root
  rw [← FileSys.resolve, dangling] at sound
  have room : fs.CanAdd place text := ⟨sound.2, sound.1⟩
  have created :
      fs.create (c.requested rawPath) attr =
        .ok (fs.addFile place text ⟨[], attr⟩ room,
          handleOf (c.requested rawPath) fs.nextIno createFlags) := by
    simp [FileSys.create, openFile, createFlags, dangling, createAt, room]
  have inside := ((confined _ absent accepted).2 fs (Or.inl rfl)).1 attr _ _ created
  exact escape.outside (inside (place ++ [text]) room.absent (by simp))

/-- What is known of a path that `buildPath` accepted although it does not
exist: the directories `missing` are to be created below `base`, which leads
to the accepted directory `place`. -/
structure MissingPath (c : Connection) (fs : FileSys) (r : Str)
    (last : Str) (base missing place : Loc) : Prop where
  proper : ProperNames (base ++ missing ++ [last])
  path : r = render (base ++ missing ++ [last])
  resolved : ∃ left, fs.resolve (render base) = .found place left
  accepted : c.isSubDir fs (render place) = .ok ()
  home : missing = [] → HomeAccepted c fs
  parentMissing : missing ≠ [] → fs.stat (render (base ++ missing)) = .error .noent
  dirs : ∀ os w, w.fs = fs → c.createMissingDirs os w r = c.mkdirAll os w (chain base missing)

theorem missingPath_of_accepted {r : Str} (rooted : isAbs c.user.homeDir)
    (absent : fs.evalLoc r = .error .noent) (accepted : c.buildPath fs rawPath = .ok r) :
    r = c.requested rawPath ∧
      ∃ last base missing place, MissingPath c fs r last base missing place := by
  obtain ⟨equal, ⟨loc, located, _⟩ | ⟨_, p, searchedHome⟩⟩ := buildPath_eq_ok_iff.mp accepted
  · simp [absent] at located
  refine ⟨equal, ?_⟩
  obtain ⟨components, proper, path⟩ := requested_eq_render rooted rawPath
  rw [← equal] at path
  rcases List.eq_nil_or_concat components with rfl | ⟨names, last, rfl⟩
  · -- the root directory exists
    rw [path, evalLoc, walk_elems_render _ proper] at absent
    cases absent
  rw [List.concat_eq_append] at proper path
  obtain ⟨results, searched, home⟩ := findFirstExistingDir_ok searchedHome
  rw [path] at searched
  obtain ⟨base, missing, place, left, rfl, reversed, resolved, tested,
    parentMissing⟩ := findNonexistentDirs_ok proper searched
  refine ⟨last, base, missing, place, proper, path, ⟨left, resolved⟩, tested, ?_, parentMissing, ?_⟩
  · rintro rfl
    exact home (by simpa [chain] using reversed)
  · rintro os w rfl
    rw [path, Connection.createMissingDirs, searched, ← reversed]

section Accepted

variable {r last : Str} {base missing place : Loc}

theorem MissingPath.anchored (known : MissingPath c fs r last base missing place)
    {now : FileSys} (same : now = fs) :
    Anchored c fs now base place := by
  rw [same]
  exact ⟨known.resolved, known.accepted, newInside_refl c fs⟩

theorem MissingPath.dirs_inside (known : MissingPath c fs r last base missing place)
    {os : Os} {w : World} (same : w.fs = fs) :
    NewInside c fs (c.createMissingDirs os w r).1.fs ∧
      ((c.createMissingDirs os w r).2 = .ok () →
        Anchored c fs (c.createMissingDirs os w r).1.fs (base ++ missing) (place ++ missing) ∧
        (missing ≠ [] → ∀ text,
          (c.createMissingDirs os w r).1.fs.node (place ++ missing ++ [text]) = none)) := by
  rw [known.dirs os w same]
  exact mkdirAll_inside missing
    (fun text member => known.proper text (by
      rw [List.mem_append]
      exact Or.inl member))
    (known.anchored same)

theorem MissingPath.prepared_eq (known : MissingPath c fs r last base [] place)
    {now : FileSys} (prepared : Prepared c fs r now) :
    now = fs := by
  rcases prepared with same | ⟨os, w, same, _, rfl⟩
  · exact same
  · rw [known.dirs os w same]
    exact same

end Accepted

theorem createdConfined_of_no_escapingLink (rooted : isAbs c.user.homeDir)
    (noEscape : ∀ parent place text, ¬ EscapingLink c fs rawPath parent place text) :
    CreatedConfined c fs rawPath := by
  intro r absent accepted
  obtain ⟨equal, last, base, missing, place, known⟩ :=
    missingPath_of_accepted rooted absent accepted
  refine ⟨fun os w same => (known.dirs_inside same).1, fun now prepared => ?_⟩
  have path := known.path
  by_cases direct : missing = []
  · subst direct
    have start := known.anchored (known.prepared_eq prepared)
    have proper := known.proper
    rw [List.append_nil] at path proper
    rw [path]
    refine ⟨fun attr after handle done => ?_, fun attr after done => start.mkdir_last proper done⟩
    refine start.create_last proper ?_ done
    intro target old parent text rest entry stuck
    by_contra outside
    rw [known.prepared_eq prepared] at entry stuck
    obtain ⟨left, resolved⟩ := known.resolved
    exact noEscape place parent text
      ⟨⟨base, last, left, target, old, proper, equal ▸ path, resolved, entry⟩,
        known.accepted, known.home rfl,
        ⟨rest, by rw [← equal, path]; exact stuck⟩, outside⟩
  · rcases prepared with rfl | ⟨os, w, same, done, rfl⟩
    · have refused := not_created_of_missing_parent known.proper (known.parentMissing direct)
      rw [path]
      exact ⟨fun attr after handle made => absurd made ((refused attr).1 _),
        fun attr after made => absurd made ((refused attr).2 after)⟩
    · obtain ⟨ended, empty⟩ := (known.dirs_inside same).2 done
      rw [path] at ended empty ⊢
      refine ⟨fun attr after handle made => ?_,
        fun attr after made => ended.mkdir_last known.proper made⟩
      refine ended.create_last known.proper ?_ made
      intro target old parent text rest entry
      rw [empty direct last] at entry
      cases entry

/-- What is created for an accepted path that did not exist stays where the
test accepts it, exactly when no dangling link in the last place leads out. -/
theorem creation_confined_iff (c : Connection) (fs : FileSys) (rawPath : Str)
    (rooted : isAbs c.user.homeDir) :
    CreatedConfined c fs rawPath ↔
      ∀ parent place text, ¬ EscapingLink c fs rawPath parent place text := by
  constructor
  · intro confined parent place text escape
    exact escape.not_confined confined
  · exact createdConfined_of_no_escapingLink rooted

/-! ## A dangling link -/

/-- `/srv/u/drop` is a link to `/etc/evil`, which does not exist. -/
def danglingTree : FileSys :=
  ((namesakeTree.withDir [] "etc".toList sampleAttr).withLink
    sampleHome "drop".toList "/etc/evil".toList sampleAttr)

private theorem danglingTree_escapes :
    EscapingLink sampleConnection danglingTree
      "drop".toList sampleHome ["etc".toList]
      "evil".toList where
  link :=
    ⟨sampleHome, "drop".toList, 40, "/etc/evil".toList,
      sampleAttr, by decide, by decide, by decide, by decide⟩
  accepted := by decide
  home := ⟨sampleHome, by decide, by decide, by decide⟩
  dangling := ⟨39, by decide⟩
  outside := by decide

/-- The user of `/srv/u` creates `/etc/evil`. -/
theorem danglingTree_not_confined : ¬ CreatedConfined sampleConnection danglingTree "drop".toList :=
  danglingTree_escapes.not_confined

/-- A plain new file in the home directory is confined. -/
theorem creation_confined_plain :
    isAbs sampleConnection.user.homeDir = true ∧
      CreatedConfined sampleConnection danglingTree "new".toList := by
  refine ⟨by decide, (creation_confined_iff _ _ _ (by decide)).mpr ?_⟩
  rintro parent place text ⟨_, _, _, ⟨left, dangling⟩, outside⟩
  have missing :
      danglingTree.resolve (sampleConnection.requested "new".toList) =
        .missing sampleHome "new".toList 40 := by decide
  rw [missing, Outcome.missing.injEq] at dangling
  obtain ⟨rfl, rfl, _⟩ := dangling
  exact outside (by decide)

end Sshserv.Serv
