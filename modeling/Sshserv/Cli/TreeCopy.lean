import Sshserv.Lib.Joined
import Sshserv.Cli.FileTran

/-!
# The paths of a copied tree

`fromLocal` walks a tree and cuts the length of the source path, as it was
typed, off every path that it comes to.  `tree_copy_exact_iff` says for which
texts that leaves the relative path.
-/

namespace Sshserv.Cli

open Lib UnixPath FileTree

inductive Kind where
  | file
  | other
  | dir
  deriving DecidableEq

namespace Entries

/-- Everything below a directory: the names that lead there, and the kind. -/
def rows : Entries → List (List Str × Kind)
  | .nil => []
  | .leaf name regular rest => ([name], if regular then .file else .other) :: rows rest
  | .dir name below rest =>
    ([name], .dir) :: ((rows below).map (fun row => (name :: row.1, row.2)) ++ rows rest)

def Named (entries : Entries) : Prop :=
  ∀ row ∈ entries.rows, ProperNames row.1

instance (entries : Entries) : Decidable entries.Named :=
  inferInstanceAs (Decidable (∀ row ∈ entries.rows, ProperNames row.1))

theorem names_ne_nil (entries : Entries) {row : List Str × Kind}
    (member : row ∈ entries.rows) : row.1 ≠ [] := by
  induction entries generalizing row with
  | nil => simp [rows] at member
  | leaf name regular rest ih =>
    rcases List.mem_cons.mp member with rfl | later
    · simp
    · exact ih later
  | dir name below rest _ ih =>
    rcases List.mem_cons.mp member with rfl | others
    · simp
    rcases List.mem_append.mp others with inner | later
    · obtain ⟨row, _, rfl⟩ := List.mem_map.mp inner
      simp
    · exact ih later

end Entries

/-- The path under which a walk from `src` visits an entry. -/
def walkPath (src : Str) (names : List Str) : Str :=
  names.foldl join src

/-- Where the source is copied to. -/
def copyBase (calls : Calls) (src dstPath : Str) : Str :=
  if calls.checkDstPath = .dir then join dstPath (base src) else dstPath

/-- No slice is out of range, every regular file has been copied to its
relative path, and no two to the same one. -/
structure CopiesTree (run : Run) (src target : Str) (entries : Entries) : Prop where
  inRange : run.2 ≠ .panic
  copied :
    ∀ names, (names, Kind.file) ∈ entries.rows →
      ⟨walkPath src names, join target (relText names), true⟩ ∈ run.1
  distinct :
    ∀ first second, (first, Kind.file) ∈ entries.rows →
      (second, Kind.file) ∈ entries.rows →
      ∀ one ∈ run.1, ∀ other ∈ run.1, one.source = walkPath src first →
        other.source = walkPath src second → one.target = other.target → first = second

/-- The text of the source is as long as the stem of its entries or lacks the
last slash only, which is an error for an empty destination. -/
def Spelled (src target : Str) : Prop :=
  src.length ≤ (stem src).length ∧ (target = [] → src.length = (stem src).length)

instance (src target : Str) : Decidable (Spelled src target) :=
  inferInstanceAs (Decidable (_ ∧ (_ → _)))

/-- No call fails, and no file is in the place of a directory. -/
structure Calls.Calm (calls : Calls) : Prop where
  statSrc : calls.statSrc = none
  lstat : ∀ path, calls.lstat path = none
  readDir : ∀ path, calls.readDir path = none
  openSrc : ∀ path, calls.openSrc path = none
  parent : ∀ number, calls.parent number ≠ .ok false
  create : ∀ number, calls.create number = none
  copy : ∀ number, calls.copy number = none

theorem copyFrom_dir {calls : Calls} {src dst : Place} {link : Bool} {entries : Entries}
    {srcPath dstPath : Str} (seen : calls.statSrc = none)
    (found : calls.checkDstPath = .notFound ∨ calls.checkDstPath = .dir) :
    calls.copyFrom src dst (.dir link entries) srcPath dstPath =
      calls.copyEach src dst srcPath.length (copyBase calls srcPath dstPath)
        (src.walk calls srcPath link entries) [] := by
  rcases found with absent | directory
  · simp [Calls.copyFrom, seen, absent, copyBase]
  · simp [Calls.copyFrom, seen, directory, copyBase]

section Walk

variable {calls : Calls} (calm : calls.Calm)
include calm

theorem visits_calm (place : Place) (parent : Str) (entries : Entries) :
    place.visits calls parent entries =
      entries.rows.map fun row =>
        ⟨walkPath parent row.1, some (decide (row.2 = .dir))⟩ := by
  have known : ∀ path isDir, place.info calls path isDir = some isDir := by
    intro path isDir
    cases place <;> simp [Place.info, calm.lstat]
  induction entries generalizing parent with
  | nil => rfl
  | leaf name regular rest ih =>
    rw [Place.visits, known, ih, Entries.rows]
    cases regular <;> rfl
  | dir name below rest inner ih =>
    simp only [Place.visits, known, calm.readDir, inner, ih, Entries.rows,
      List.map_cons, List.map_append, List.map_map]
    rfl

theorem toPlace_calm (dst : Place) (number : Nat) (target : Str) :
    calls.toPlace dst number target = .returned none := by
  have done : calls.createAndCopy number = .returned none := by
    simp [Calls.createAndCopy, calm.create, calm.copy]
  cases dst with
  | disk => simp [Calls.toPlace, Calls.toLocal, calm.parent, done]
  | server => simp [Calls.toPlace, Calls.toRemote, done]

theorem copyFile_calm (src dst : Place) (srcPath dstPath : Str) (log : List Copy) :
    calls.copyFile src dst srcPath dstPath log =
      (log ++ [⟨srcPath, dstPath, true⟩], .returned none) := by
  simp [Calls.copyFile, calm.openSrc, toPlace_calm calm]

theorem copyEach_calm (src dst : Place) (cut : Nat) (target : Str) (visits : List Visit)
    (known : ∀ visit ∈ visits, visit.isDir ≠ none)
    (long : ∀ visit ∈ visits, cut ≤ visit.path.length) (log : List Copy) :
    calls.copyEach src dst cut target visits log =
      (log ++
        (visits.filter fun visit => visit.isDir = some false).map
          (fun visit =>
            ⟨visit.path, join target (visit.path.drop cut), true⟩),
        .returned none) := by
  induction visits generalizing log with
  | nil => simp [Calls.copyEach]
  | cons visit rest ih =>
    have step :=
      ih
        (fun other member => known other (List.mem_cons_of_mem _ member))
        (fun other member => long other (List.mem_cons_of_mem _ member))
    have inRange := not_lt.mpr (long visit List.mem_cons_self)
    have seen := known visit List.mem_cons_self
    rw [Calls.copyEach, if_neg inRange]
    cases isDir : visit.isDir with
    | none => exact absurd isDir seen
    | some isDirectory =>
      cases isDirectory with
      | true => simp [step, isDir]
      | false => simp [step, isDir, copyFile_calm calm]

theorem copyEach_panic (src dst : Place) (cut : Nat) (target : Str) (visits : List Visit)
    (short : ∃ visit ∈ visits, visit.path.length < cut) (log : List Copy) :
    (calls.copyEach src dst cut target visits log).2 = .panic := by
  induction visits generalizing log with
  | nil => simp at short
  | cons visit rest ih =>
    rw [Calls.copyEach]
    by_cases here : visit.path.length < cut
    · rw [if_pos here]
    · have later : ∃ visit ∈ rest, visit.path.length < cut := by
        obtain ⟨other, member, shorter⟩ := short
        rcases List.mem_cons.mp member with rfl | tail
        · exact absurd shorter here
        · exact ⟨other, tail, shorter⟩
      have step := ih later
      rw [if_neg here]
      cases visit.isDir with
      | none => rfl
      | some isDirectory =>
        cases isDirectory with
        | true => exact step log
        | false =>
          simp only [copyFile_calm calm]
          exact step _

theorem fromLocal_calm (dst : Place) (link : Bool) (entries : Entries) (src dstPath : Str)
    (found : calls.checkDstPath = .notFound ∨ calls.checkDstPath = .dir) :
    calls.fromLocal dst (.dir link entries) src dstPath =
      calls.copyEach .disk dst src.length (copyBase calls src dstPath)
        (if link then [⟨src, some false⟩]
          else ⟨src, some true⟩ ::
            entries.rows.map fun row =>
              ⟨walkPath src row.1, some (decide (row.2 = .dir))⟩) [] := by
  rw [Calls.fromLocal, copyFrom_dir calm.statSrc found]
  simp [Place.walk, calm.lstat, calm.readDir, visits_calm calm]

theorem fromLocal_log (dst : Place) (entries : Entries) (src dstPath : Str)
    (found : calls.checkDstPath = .notFound ∨ calls.checkDstPath = .dir)
    (long : ∀ row ∈ entries.rows, src.length ≤ (walkPath src row.1).length) :
    (calls.fromLocal dst (.dir false entries) src dstPath).2 = .returned none ∧
      ∀ copy, copy ∈ (calls.fromLocal dst (.dir false entries) src dstPath).1 ↔
          ∃ row ∈ entries.rows, row.2 ≠ .dir ∧
            copy =
              ⟨walkPath src row.1,
                join (copyBase calls src dstPath)
                  ((walkPath src row.1).drop src.length), true⟩ := by
  rw [fromLocal_calm calm dst false entries src dstPath found, copyEach_calm calm]
  · refine ⟨rfl, fun copy => ?_⟩
    simp [eq_comm, and_assoc]
  · simp only [Bool.false_eq_true, if_false, List.forall_mem_cons, List.forall_mem_map]
    simp
  · simp only [Bool.false_eq_true, if_false, List.forall_mem_cons, List.forall_mem_map]
    exact ⟨le_rfl, long⟩

end Walk

section Paths

variable {names : List Str} (filled : names ≠ []) (proper : ProperNames names) (src : Str)
include filled proper

theorem walkPath_eq_stem : walkPath src names = stem src ++ relText names := by
  rw [walkPath, foldl_join filled proper, join_relText_eq_stem filled proper]

theorem namesOf_walkPath : namesOf (walkPath src names) = namesOf src ++ names := by
  rw [walkPath, foldl_join filled proper]
  exact (namesOf_join filled proper src).2

/-- What is cut off the path of an entry is right exactly if the source is
spelled so. -/
theorem join_walkPath_iff (target : Str) :
    join target ((walkPath src names).drop src.length) = join target (relText names) ↔
      Spelled src target := by
  rw [walkPath_eq_stem filled proper]
  exact join_drop_iff filled proper src target (length_stem_le src)

end Paths

theorem join_relText_inj {first second : List Str} (left : first ≠ []) (right : second ≠ [])
    (leftProper : ProperNames first) (rightProper : ProperNames second)
    {target : Str} (same : join target (relText first) = join target (relText second)) :
    first = second := by
  have one := (namesOf_join left leftProper target).2
  have other := (namesOf_join right rightProper target).2
  rw [same, other] at one
  exact (List.append_cancel_left one).symm

section Copies

variable {calls : Calls} (calm : calls.Calm) {entries : Entries}
    (named : entries.Named) (dst : Place) (src dstPath : Str)
    (found : calls.checkDstPath = .notFound ∨ calls.checkDstPath = .dir)
include calm named found

/-- Of a directory that is a link only the link is visited. -/
theorem copiesTree_link_iff :
    CopiesTree (calls.fromLocal dst (.dir true entries) src dstPath) src
        (copyBase calls src dstPath) entries ↔
      ∀ names, (names, Kind.file) ∉ entries.rows := by
  rw [fromLocal_calm calm dst true entries src dstPath found,
    copyEach_calm calm _ _ _ _ _ (by simp) (by simp)]
  constructor
  · intro copies names member
    have copied := copies.copied names member
    simp only [if_true, List.filter_cons, decide_true, List.filter_nil, List.map_cons,
      List.map_nil, List.nil_append, List.mem_singleton, Copy.mk.injEq] at copied
    have read := namesOf_walkPath (entries.names_ne_nil member) (named _ member) src
    rw [copied.1] at read
    exact entries.names_ne_nil member (by simpa using read)
  · intro empty
    exact ⟨by simp, fun names member => absurd member (empty names),
      fun first _ member => absurd member (empty first)⟩

theorem copiesTree_walk_iff :
    CopiesTree (calls.fromLocal dst (.dir false entries) src dstPath) src
        (copyBase calls src dstPath) entries ↔
      ((∃ names, (names, Kind.file) ∈ entries.rows) → Spelled src (copyBase calls src dstPath)) ∧
        ∀ row ∈ entries.rows, src.length ≤ (walkPath src row.1).length := by
  by_cases long : ∀ row ∈ entries.rows, src.length ≤ (walkPath src row.1).length
  · obtain ⟨ended, log⟩ := fromLocal_log calm dst entries src dstPath found long
    constructor
    · intro copies
      refine ⟨?_, long⟩
      rintro ⟨names, member⟩
      obtain ⟨row, _, _, same⟩ := (log _).mp (copies.copied names member)
      simp only [Copy.mk.injEq, and_true] at same
      rw [← same.1] at same
      exact (join_walkPath_iff (entries.names_ne_nil member) (named _ member) src _).mp same.2.symm
    · rintro ⟨spelled, _⟩
      have target :
          ∀ names, (names, Kind.file) ∈ entries.rows →
            join (copyBase calls src dstPath) ((walkPath src names).drop src.length) =
              join (copyBase calls src dstPath) (relText names) :=
        fun names member =>
          (join_walkPath_iff (entries.names_ne_nil member) (named _ member)
            src _).mpr (spelled ⟨names, member⟩)
      refine ⟨by simp [ended], ?_, ?_⟩
      · intro names member
        rw [log]
        exact ⟨(names, .file), member, by simp, by rw [target names member]⟩
      · intro first second firstMember secondMember one oneMember other
          otherMember oneSource otherSource same
        obtain ⟨_, _, _, rfl⟩ := (log one).mp oneMember
        obtain ⟨_, _, _, rfl⟩ := (log other).mp otherMember
        simp only at oneSource otherSource same
        rw [oneSource, otherSource, target first firstMember, target second secondMember] at same
        exact join_relText_inj (entries.names_ne_nil firstMember)
          (entries.names_ne_nil secondMember) (named _ firstMember)
          (named _ secondMember) same
  · constructor
    · intro copies
      refine absurd ?_ copies.inRange
      rw [fromLocal_calm calm dst false entries src dstPath found]
      apply copyEach_panic calm
      push Not at long
      obtain ⟨row, member, short⟩ := long
      exact ⟨_, List.mem_cons_of_mem _ (List.mem_map_of_mem member), short⟩
    · intro cond
      exact absurd cond.2 long

end Copies

/-- Where nothing fails, a tree is copied to its paths exactly if its files,
if it has any, are below a directory and not a link to one, under a text that
is spelled right, and the text is longer than the path of no entry. -/
theorem tree_copy_exact_iff (calls : Calls) (calm : calls.Calm) (dst : Place) (link : Bool)
    (entries : Entries) (named : entries.Named) (src dstPath : Str)
    (found : calls.checkDstPath = .notFound ∨ calls.checkDstPath = .dir) :
    CopiesTree (calls.fromLocal dst (.dir link entries) src dstPath) src
        (copyBase calls src dstPath) entries ↔
      ((∃ names, (names, Kind.file) ∈ entries.rows) →
          link = false ∧ Spelled src (copyBase calls src dstPath)) ∧
        (link = false → ∀ row ∈ entries.rows, src.length ≤ (stem src ++ relText row.1).length) := by
  have length :
      (∀ row ∈ entries.rows, src.length ≤ (walkPath src row.1).length) ↔
        ∀ row ∈ entries.rows, src.length ≤ (stem src ++ relText row.1).length :=
    forall₂_congr fun row member => by
      rw [walkPath_eq_stem (entries.names_ne_nil member) (named row member)]
  cases link with
  | true =>
    rw [copiesTree_link_iff calm named dst src dstPath found]
    simp
  | false =>
    rw [copiesTree_walk_iff calm named dst src dstPath found, length]
    simp

/-- Calls of which none fails, with a destination that is missing. -/
def calmCalls : Calls where
  connect := fun _ _ _ => true
  statSrc := none
  lstat := fun _ => none
  readDir := fun _ => none
  openSrc := fun _ => none
  statDst := .error .noent
  parent := fun _ => .ok true
  create := fun _ => none
  copy := fun _ => none

theorem calmCalls_calm : calmCalls.Calm where
  statSrc := rfl
  lstat := fun _ => rfl
  readDir := fun _ => rfl
  openSrc := fun _ => rfl
  parent := fun _ => by simp [calmCalls]
  create := fun _ => rfl
  copy := fun _ => rfl

def twoFiles : Entries :=
  .leaf "ab".toList true (.leaf "cb".toList true .nil)

/-- Copying a directory that holds them. -/
def copyTwo (src dstPath : Str) : Run :=
  calmCalls.fromLocal .disk (.dir false twoFiles) src dstPath

/-- From the directory `a`, typed with a slash behind it. -/
theorem two_files_copied :
    CopiesTree (copyTwo "a/".toList "d".toList) "a/".toList "d".toList twoFiles := by
  have iff := tree_copy_exact_iff calmCalls calmCalls_calm .disk false
    twoFiles (by decide) "a/".toList "d".toList (by decide)
  exact iff.mpr ⟨fun _ => by decide +kernel, fun _ => by decide +kernel⟩

/-- From `.` and from `a//` both files are copied to `d/b`, from `a////` their
paths are too short, and to the empty path they are copied into the root. -/
theorem misspelled_sources :
    (copyTwo ".".toList "d".toList =
        ([⟨"ab".toList, "d/b".toList, true⟩, ⟨"cb".toList, "d/b".toList, true⟩], .returned none) ∧
      ¬ CopiesTree (copyTwo ".".toList "d".toList) ".".toList "d".toList twoFiles) ∧
    (copyTwo "a//".toList "d".toList =
        ([⟨"a/ab".toList, "d/b".toList, true⟩,
          ⟨"a/cb".toList, "d/b".toList, true⟩], .returned none) ∧
      ¬ CopiesTree (copyTwo "a//".toList "d".toList) "a//".toList "d".toList twoFiles) ∧
    (copyTwo "a////".toList "d".toList = ([], .panic) ∧
      ¬ CopiesTree (copyTwo "a////".toList "d".toList) "a////".toList "d".toList twoFiles) ∧
    (copyTwo "a".toList [] =
        ([⟨"a/ab".toList, "/ab".toList, true⟩,
          ⟨"a/cb".toList, "/cb".toList, true⟩], .returned none) ∧
      ¬ CopiesTree (copyTwo "a".toList []) "a".toList [] twoFiles) := by
  have first : (["ab".toList], Kind.file) ∈ twoFiles.rows := by decide
  refine ⟨⟨by decide +kernel, fun copies => ?_⟩,
    ⟨by decide +kernel, fun copies => ?_⟩,
    ⟨by decide +kernel, fun copies => ?_⟩,
    ⟨by decide +kernel, fun copies => ?_⟩⟩
  · exact absurd (copies.copied _ first) (by decide +kernel)
  · exact absurd (copies.copied _ first) (by decide +kernel)
  · exact absurd (copies.copied _ first) (by decide +kernel)
  · exact absurd (copies.copied _ first) (by decide +kernel)

end Sshserv.Cli
