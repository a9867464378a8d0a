import Sshserv.Lib.Resolve
import Sshserv.Serv.World

/-!
# Paths below the home directory

`Connection.buildPath`: a raw path is joined to the home directory, cleaned
and checked.  What exists must resolve to a path that starts with the resolved
home directory, and so must the first directory that exists above what does
not.  The check compares strings.
-/

namespace Sshserv.Serv

open Lib UnixPath FileTree FileSys DataProvider

/-- The errors of path resolution: one of the operating system, or one that
the code formats itself. -/
inductive PathError where
  | os (err : Errno)
  | notInside (sub parent : Str)
  | notDir (path : Str)
  deriving DecidableEq

namespace Connection

variable (c : Connection) (fs : FileSys)

def isSubDir (sub : Str) : Except PathError Unit :=
  match fs.evalSymlinks c.user.homeDir with
  | .error err => .error (.os err)
  | .ok parent => if parent <+: sub then .ok () else .error (.notInside sub parent)

/-- The loop of `findNonexistentDirs`: the missing directories from `parent`
upwards, and the first one that exists or the error that ended the search. -/
def climb : Nat → Str → List Str × Except Errno Str
  | 0, _ => ([], .error .noent)
  | fuel + 1, parent =>
    match fs.stat parent with
    | .ok _ => ([], .ok parent)
    | .error err =>
      if isNotExist err then
        let (above, last) := climb fuel (dir parent)
        (parent :: above, last)
      else ([], .error err)

def findNonexistentDirs (path : Str) : Except PathError (List Str) :=
  match climb fs (path.length + 1) (dir (clean path)) with
  | (_, .error err) => .error (.os err)
  | (results, .ok parent) =>
    match fs.evalSymlinks parent with
    | .error err => .error (.os err)
    | .ok p =>
      match c.isSubDir fs p with
      | .error err => .error err
      | .ok () => .ok results

def findFirstExistingDir (path : Str) : Except PathError Str :=
  match c.findNonexistentDirs fs path with
  | .error err => .error err
  | .ok results =>
    let parent :=
      match results.getLast? with
      | some lastMissingDir => dir lastMissingDir
      | none => c.user.getHomeDir
    match fs.evalSymlinks parent with
    | .error err => .error (.os err)
    | .ok p =>
      match fs.stat p with
      | .error err => .error (.os err)
      | .ok fileInfo =>
        if ¬ fileInfo.isDir then .error (.notDir p)
        else
          match c.isSubDir fs p with
          | .error err => .error err
          | .ok () => .ok p

/-- The path `r` of `buildPath`, before it is checked. -/
def requested (rawPath : Str) : Str :=
  clean (join c.user.homeDir rawPath)

def buildPath (rawPath : Str) : Except PathError Str :=
  match fs.evalSymlinks (c.requested rawPath) with
  | .error err =>
    if ¬ isNotExist err then .error (.os err)
    else
      match c.findFirstExistingDir fs (c.requested rawPath) with
      | .error err => .error err
      | .ok _ => .ok (c.requested rawPath)
  | .ok p =>
    match c.isSubDir fs p with
    | .error err => .error err
    | .ok () => .ok (c.requested rawPath)

/-- The loop of `createMissingDirs`, over the directories from the outermost
one. -/
def mkdirAll (os : Os) (w : World) : List Str → World × Except PathError Unit
  | [] => (w, .ok ())
  | d :: rest =>
    match orFault (os.mkdir d) (w.fs.mkdir d os.attr) with
    | .error err => (w, .error (.os err))
    | .ok fs => mkdirAll os ((w.setFs fs).setPathPermissions os d c.user.getUID c.user.getGID) rest

def createMissingDirs (os : Os) (w : World) (filePath : Str) : World × Except PathError Unit :=
  match c.findNonexistentDirs w.fs filePath with
  | .error err => (w, .error err)
  | .ok dirsToCreate => c.mkdirAll os w dirsToCreate.reverse

end Connection

section Keeps

variable {keeps : World → Prop} (c : Connection) (os : Os)
    (made : ∀ w d fs, keeps w → w.fs.mkdir d os.attr = .ok fs → keeps (w.setFs fs))
    (owned : ∀ w path uid gid, keeps w → keeps (w.setPathPermissions os path uid gid))
include made owned

theorem mkdirAll_keeps (dirs : List Str) {w : World} (before : keeps w) :
    keeps (c.mkdirAll os w dirs).1 := by
  induction dirs generalizing w with
  | nil => exact before
  | cons d rest ih =>
    unfold Connection.mkdirAll
    split
    · exact before
    · next done => exact ih (owned _ _ _ _ (made _ _ _ before (orFault_eq_ok.mp done).2))

theorem createMissingDirs_keeps (filePath : Str) {w : World} (before : keeps w) :
    keeps (c.createMissingDirs os w filePath).1 := by
  unfold Connection.createMissingDirs
  split
  · exact before
  · exact mkdirAll_keeps c os made owned _ before

end Keeps

section

variable {c : Connection} {fs : FileSys}

variable {path rawPath r : Str} {loc : Loc}

theorem evalSymlinks_eq_ok_iff {text : Str} :
    fs.evalSymlinks path = .ok text ↔ ∃ loc, fs.evalLoc path = .ok loc ∧ text = render loc := by
  unfold evalSymlinks
  cases fs.evalLoc path with
  | error err => simp
  | ok loc => simp [eq_comm]

theorem evalSymlinks_eq_error_iff {err : Errno} :
    fs.evalSymlinks path = .error err ↔ fs.evalLoc path = .error err := by
  unfold evalSymlinks
  cases fs.evalLoc path with
  | error other => simp
  | ok loc => simp

/-- `isSubDir` accepts exactly the strings that start with the path of the
resolved home directory. -/
theorem isSubDir_eq_ok_iff {sub : Str} :
    c.isSubDir fs sub = .ok () ↔
      ∃ home, fs.evalLoc c.user.homeDir = .ok home ∧ render home <+: sub := by
  unfold Connection.isSubDir
  cases evaluated : fs.evalSymlinks c.user.homeDir with
  | error err =>
    rw [evalSymlinks_eq_error_iff] at evaluated
    simp [evaluated]
  | ok parent =>
    obtain ⟨home, located, rfl⟩ := evalSymlinks_eq_ok_iff.mp evaluated
    by_cases inside : render home <+: sub
    · simp [inside, located]
    · simp [inside, located]

/-- On resolved locations the test accepts the home directory, what is below
it, and the siblings whose names continue its name. -/
theorem isSubDir_render_iff (proper : ProperNames loc) :
    c.isSubDir fs (render loc) = .ok () ↔
      ∃ home, fs.evalLoc c.user.homeDir = .ok home ∧ (home <+: loc ∨ ExtendsLastName home loc) := by
  rw [isSubDir_eq_ok_iff]
  constructor
  · rintro ⟨home, located, inside⟩
    exact ⟨home, located, (renderPrefix_iff (evalLoc_proper located) proper).mp inside⟩
  · rintro ⟨home, located, inside⟩
    exact ⟨home, located, (renderPrefix_iff (evalLoc_proper located) proper).mpr inside⟩

theorem not_prefix_of_extendsLastName {home : Loc} (longer : ExtendsLastName home loc) :
    ¬ home <+: loc := by
  obtain ⟨parent, last, extension, rest, nonempty, rfl, rfl⟩ := longer
  rw [List.prefix_append_right_inj, List.cons_prefix_cons]
  rintro ⟨equal, _⟩
  exact nonempty (by simpa using equal)

theorem requested_eq_render (rooted : isAbs c.user.homeDir) (rawPath : Str) :
    ∃ names, ProperNames names ∧ c.requested rawPath = render names := by
  refine ⟨cleanNames true (c.user.homeDir ++ '/' :: rawPath), cleanNames_proper _, ?_⟩
  rw [Connection.requested, join_of_isAbs rooted, clean_render (cleanNames_proper _)]

/-- An accepted path is the requested one; it passed the test itself, or it
does not exist and the search above it succeeded. -/
theorem buildPath_eq_ok_iff :
    c.buildPath fs rawPath = .ok r ↔
      r = c.requested rawPath ∧
        ((∃ loc, fs.evalLoc r = .ok loc ∧ c.isSubDir fs (render loc) = .ok ()) ∨
          (fs.evalLoc r = .error .noent ∧ ∃ p, c.findFirstExistingDir fs r = .ok p)) := by
  unfold Connection.buildPath
  generalize c.requested rawPath = path
  cases evaluated : fs.evalSymlinks path with
  | error err =>
    rw [evalSymlinks_eq_error_iff] at evaluated
    by_cases missing : err = .noent
    · subst missing
      cases found : c.findFirstExistingDir fs path with
      | error other =>
        simp only [isNotExist, decide_true, not_true_eq_false, if_false, reduceCtorEq, false_iff]
        rintro ⟨rfl, ⟨loc, located, _⟩ | ⟨_, p, searched⟩⟩
        · simp [evaluated] at located
        · simp [found] at searched
      | ok p =>
        simp only [isNotExist, decide_true, not_true_eq_false, if_false, Except.ok.injEq]
        constructor
        · rintro rfl
          exact ⟨rfl, Or.inr ⟨evaluated, p, found⟩⟩
        · rintro ⟨rfl, _⟩
          rfl
    · simp only [isNotExist, missing, decide_false, Bool.false_eq_true,
        not_false_eq_true, if_true, reduceCtorEq, false_iff]
      rintro ⟨rfl, ⟨loc, located, _⟩ | ⟨absent, _⟩⟩
      · simp [evaluated] at located
      · rw [evaluated] at absent
        exact missing (by simpa using absent)
  | ok text =>
    obtain ⟨loc, located, rfl⟩ := evalSymlinks_eq_ok_iff.mp evaluated
    cases tested : c.isSubDir fs (render loc) with
    | error err =>
      simp only [tested, reduceCtorEq, false_iff]
      rintro ⟨rfl, ⟨other, otherLocated, accepted⟩ | ⟨absent, _⟩⟩
      · rw [located] at otherLocated
        cases otherLocated
        simp [tested] at accepted
      · simp [located] at absent
    | ok =>
      simp only [tested, Except.ok.injEq]
      constructor
      · rintro rfl
        exact ⟨rfl, Or.inl ⟨loc, located, tested⟩⟩
      · rintro ⟨rfl, _⟩
        rfl

theorem accepted_eq_render
    (rooted : isAbs c.user.homeDir) {p : Str} (accepted : c.buildPath fs rawPath = .ok p) :
    ∃ names, ProperNames names ∧ p = render names := by
  rw [(buildPath_eq_ok_iff.mp accepted).1]
  exact requested_eq_render rooted rawPath

theorem home_of_buildPath (accepted : c.buildPath fs rawPath = .ok r) :
    ∃ home, fs.evalLoc c.user.homeDir = .ok home := by
  have tested : ∃ sub, c.isSubDir fs sub = .ok () := by
    rcases (buildPath_eq_ok_iff.mp accepted).2 with
      ⟨loc, _, inside⟩ | ⟨_, p, searched⟩
    · exact ⟨_, inside⟩
    · unfold Connection.findFirstExistingDir at searched
      split at searched
      · cases searched
      · simp only at searched
        split at searched
        · cases searched
        · split at searched
          · cases searched
          · split at searched
            · cases searched
            · split at searched
              · cases searched
              · exact ⟨_, by assumption⟩
  obtain ⟨sub, inside⟩ := tested
  obtain ⟨home, located, _⟩ := isSubDir_eq_ok_iff.mp inside
  exact ⟨home, located⟩

/-- An accepted path that leads to an object, whatever number of links has to
be followed, leads to the resolved home directory or below it, component by
component. -/
def ExistingConfined (c : Connection) (fs : FileSys) (rawPath : Str) : Prop :=
  ∀ r loc home,
    c.buildPath fs rawPath = .ok r →
    fs.ResolvesTo r loc →
    fs.ResolvesTo c.user.homeDir home →
    home <+: loc

/-- The requested path resolves to a sibling of the home directory, or below
one, whose name is a proper continuation of the home directory's name. -/
def ReachesNamesake (c : Connection) (fs : FileSys) (rawPath : Str) : Prop :=
  ∃ home loc,
    fs.evalLoc c.user.homeDir = .ok home ∧
    fs.evalLoc (c.requested rawPath) = .ok loc ∧
    ExtendsLastName home loc

theorem existing_inside_or_namesake
    (accepted : c.buildPath fs rawPath = .ok r) (resolves : fs.ResolvesTo r loc) :
    fs.evalLoc r = .ok loc ∧
      ∃ home, fs.evalLoc c.user.homeDir = .ok home ∧ (home <+: loc ∨ ExtendsLastName home loc) := by
  obtain ⟨rfl, ⟨other, located, tested⟩ | ⟨absent, _⟩⟩ := buildPath_eq_ok_iff.mp accepted
  · have same : loc = other := resolvesTo_unique resolves (resolvesTo_of_evalLoc located)
    subst same
    exact ⟨located, (isSubDir_render_iff (evalLoc_proper located)).mp tested⟩
  · rcases evalLoc_of_resolvesTo resolves with located | loops
    · simp [absent] at located
    · simp [absent] at loops

/-- Accepted paths that exist are confined exactly when the requested path
does not reach a namesake of the home directory. -/
theorem confinement_iff_no_namesake (c : Connection) (fs : FileSys) (rawPath : Str) :
    ExistingConfined c fs rawPath ↔ ¬ ReachesNamesake c fs rawPath := by
  constructor
  · rintro confined ⟨home, loc, homeLocated, located, sibling⟩
    have tested : c.isSubDir fs (render loc) = .ok () :=
      (isSubDir_render_iff (evalLoc_proper located)).mpr ⟨home, homeLocated, Or.inr sibling⟩
    have accepted : c.buildPath fs rawPath = .ok (c.requested rawPath) :=
      buildPath_eq_ok_iff.mpr ⟨rfl, Or.inl ⟨loc, located, tested⟩⟩
    exact not_prefix_of_extendsLastName sibling
      (confined _ loc home accepted (resolvesTo_of_evalLoc located)
        (resolvesTo_of_evalLoc homeLocated))
  · intro noSibling r loc home accepted resolves homeResolves
    obtain ⟨located, other, homeLocated, inside | sibling⟩ :=
      existing_inside_or_namesake accepted resolves
    · have same : home = other := resolvesTo_unique homeResolves (resolvesTo_of_evalLoc homeLocated)
      exact same ▸ inside
    · have path : r = c.requested rawPath := (buildPath_eq_ok_iff.mp accepted).1
      exact absurd ⟨other, loc, homeLocated, path ▸ located, sibling⟩ noSibling

def sampleAttr : Attr := ⟨493, 0, 0, 0, 0⟩

def namesakeTree : FileSys :=
  (((rootOnly sampleAttr 4096).withDir [] "srv".toList
    sampleAttr).withDir ["srv".toList] "u".toList sampleAttr).withDir
      ["srv".toList] "user2".toList sampleAttr

def sampleUser : User :=
  { User.zero with
    username := "u".toList
    homeDir := "/srv/u".toList
    permissions := [permAny] }

def sampleConnection : Connection :=
  ⟨"c".toList, sampleUser, "SFTP".toList⟩

def sampleHome : Loc :=
  ["srv".toList, "u".toList]

def sampleOs : Os := Os.quiet sampleAttr "guid".toList 0

def defaultSettings : Settings := ⟨0, ⟨1, 1, 0⟩⟩

/-- The user of `/srv/u` reaches `/srv/user2`. -/
theorem namesake_not_confined :
    ¬ ExistingConfined sampleConnection namesakeTree "../user2".toList := by
  intro confined
  have inside :=
    confined "/srv/user2".toList ["srv".toList, "user2".toList]
      sampleHome (by decide)
      ⟨0, 0, by decide⟩ ⟨0, 0, by decide⟩
  exact absurd inside (by decide)

end

end Sshserv.Serv
