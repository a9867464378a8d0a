import Sshserv.Cli.TreeCopy

/-!
# What the copying client reports

`FileTran` returns nil for runs in which something was not copied: the result
of a transfer to a server is lost, a source that cannot be found is not an
error, and a directory that cannot be read is left out.
-/

namespace Sshserv.Cli

open Lib UnixPath FileTree

def placeOf (text : Str) : Place :=
  if Calls.hasAddr text then .server else .disk

def pathOf (text : Str) : Str :=
  if Calls.hasAddr text then (text.dropWhile (· ≠ '@')).tail else text

def Source.IsFile (path file : Str) : Source → Prop
  | .missing => False
  | .leaf regular => regular = true ∧ file = path
  | .dir _ entries => ∃ names, (names, Kind.file) ∈ entries.rows ∧ file = walkPath path names

/-- Nil is returned only if the source exists and all its regular files have
been copied completely. -/
def Reported (source : Source) (src : Str) (run : Run) : Prop :=
  run.2 = .returned none →
    source ≠ .missing ∧
      ∀ file, source.IsFile (pathOf src) file → ∃ target, ⟨file, target, true⟩ ∈ run.1

/-- The part of an address in front of the path has a port that is a
number. -/
def AddrOk (text : Str) : Prop :=
  ':' ∈ text.takeWhile (· ≠ '@') ∧
    ∃ number,
      Serv.ScpCommand.parseInt ((text.takeWhile (· ≠ '@')).dropWhile (· ≠ ':')).tail = .ok number

/-- The text is taken for an address and is none. -/
def Refused (text : Str) : Prop :=
  Calls.hasAddr text = true ∧ ¬ AddrOk text

namespace Calls

variable (calls : Calls)

/-- The calls for the copy of one file fail. -/
def Fails (dst : Place) (target path : Str) (number : Nat) : Prop :=
  calls.openSrc path ≠ none ∨ calls.create number ≠ none ∨
    calls.copy number ≠ none ∨
    (dst = .disk ∧ '/' ∈ target ∧ calls.parent number = .ok false)

instance (dst : Place) (target path : Str) (number : Nat) :
    Decidable (calls.Fails dst target path number) :=
  inferInstanceAs (Decidable (_ ∨ _ ∨ _ ∨ _))

def Accepts : Source → Prop
  | .missing => True
  | .leaf _ => calls.checkDstPath ≠ .failed
  | .dir _ _ => calls.checkDstPath = .notFound ∨ calls.checkDstPath = .dir

end Calls

/-- The items before the first that fails, which depends on their number. -/
def served {α : Type} (fails : Nat → α → Prop)
    [∀ number item, Decidable (fails number item)] : Nat → List α → List α
  | _, [] => []
  | number, item :: rest =>
    if fails number item then []
    else item :: served fails (number + 1) rest

/-- The paths that a walk takes for files. -/
def leavesOf (visits : List Visit) : List Str :=
  (visits.filter fun visit => visit.isDir = some false).map Visit.path

namespace Source

variable (calls : Calls) (source : Source) (src dst : Str)

def leaves : List Str :=
  match source with
  | .missing => []
  | .leaf _ => [pathOf src]
  | .dir link entries => leavesOf ((placeOf src).walk calls (pathOf src) link entries)

def target (path : Str) : Str :=
  match source with
  | .dir _ _ => join (copyBase calls (pathOf src) (pathOf dst)) (path.drop (pathOf src).length)
  | _ => copyBase calls (pathOf src) (pathOf dst)

/-- Those before the first that cannot be copied. -/
def copied : List Str :=
  served
    (fun number path =>
      calls.Fails (placeOf dst) (source.target calls src dst path) path number)
    0 (source.leaves calls src)

end Source

/-- A failure is returned.  To a server only a malformed address is. -/
def Noticed (calls : Calls) (source : Source) (src dst : Str) : Prop :=
  match placeOf dst with
  | .server => Refused dst
  | .disk =>
    Refused src ∨
      (calls.statSrc = none ∧ source ≠ .missing ∧
        (¬ calls.Accepts source ∨ source.copied calls src dst ≠ source.leaves calls src))

/-- The source exists, and nothing is in the way of its regular files. -/
def Delivered (calls : Calls) (source : Source) (src dst : Str) : Prop :=
  source ≠ .missing ∧
    ∀ file, source.IsFile (pathOf src) file →
      ¬ Refused src ∧ calls.statSrc = none ∧ calls.Accepts source ∧
        file ∈ source.copied calls src dst

theorem toPlace_eq_iff (calls : Calls) (dst : Place) (number : Nat) (target : Str) :
    calls.toPlace dst number target = .returned none ↔
      calls.create number = none ∧ calls.copy number = none ∧
        ¬ (dst = .disk ∧ '/' ∈ target ∧ calls.parent number = .ok false) := by
  have done :
      calls.createAndCopy number = .returned none ↔
        calls.create number = none ∧ calls.copy number = none := by
    cases made : calls.create number <;> simp [Calls.createAndCopy, made]
  cases dst with
  | server => simp [Calls.toPlace, Calls.toRemote, done]
  | disk =>
    by_cases occupied : '/' ∈ target ∧ calls.parent number = .ok false
    · simp [Calls.toPlace, Calls.toLocal, occupied]
    · rw [Calls.toPlace, Calls.toLocal, if_neg occupied, done]
      simp [occupied]

def completed (log : List Copy) : List Str :=
  (log.filter fun copy => copy.complete).map Copy.source

theorem mem_completed {log : List Copy} {file : Str} :
    file ∈ completed log ↔ ∃ target, ⟨file, target, true⟩ ∈ log := by
  constructor
  · intro member
    obtain ⟨⟨source, target, complete⟩, found, rfl⟩ := List.mem_map.mp member
    obtain ⟨inside, rfl⟩ := List.mem_filter.mp found
    exact ⟨target, inside⟩
  · rintro ⟨target, member⟩
    exact List.mem_map.mpr ⟨_, List.mem_filter.mpr ⟨member, rfl⟩, rfl⟩

section Copying

variable (calls : Calls) (src dst : Place)

/-- The copy of a file that fails leaves no complete one behind. -/
theorem copyFile_cases (srcPath dstPath : Str) (log : List Copy) :
    (¬ calls.Fails dst dstPath srcPath log.length ∧
        calls.copyFile src dst srcPath dstPath log =
          (log ++ [⟨srcPath, dstPath, true⟩], .returned none)) ∨
      (calls.Fails dst dstPath srcPath log.length ∧
        (calls.copyFile src dst srcPath dstPath log).2 ≠ .returned none ∧
        completed (calls.copyFile src dst srcPath dstPath log).1 = completed log) := by
  have ok := toPlace_eq_iff calls dst log.length dstPath
  unfold Calls.copyFile
  cases opened : calls.openSrc srcPath with
  | some err =>
    refine Or.inr ⟨Or.inl (by simp [opened]), ?_, rfl⟩
    cases src <;> simp [Calls.openFailed]
  | none =>
    by_cases done : calls.toPlace dst log.length dstPath = .returned none
    · obtain ⟨created, copied, free⟩ := ok.mp done
      refine Or.inl ⟨?_, by simp [done]⟩
      simp only [Calls.Fails, opened, created, copied, free]
      simp
    · refine Or.inr ⟨?_, ?_⟩
      · by_contra neither
        simp only [Calls.Fails, not_or, not_not] at neither
        exact done (ok.mpr neither.2)
      · generalize calls.toPlace dst log.length dstPath = ending at done ⊢
        cases ending with
        | returned err =>
          cases err with
          | none => exact absurd rfl done
          | some err => simp [completed]
        | fatal => simp [completed]
        | panic => simp [completed]

variable (cut : Nat) (base : Str)

/-- When the walk returns, what has been copied completely are the files
before the first that failed, and nil means that none did. -/
theorem copyEach_returned (visits : List Visit) :
    ∀ {log : List Copy} {err : Option TranError},
      (calls.copyEach src dst cut base visits log).2 = .returned err →
      (err = none ↔
        served
            (fun number path =>
              calls.Fails dst (join base (path.drop cut)) path number)
            log.length (leavesOf visits) = leavesOf visits) ∧
      completed (calls.copyEach src dst cut base visits log).1 =
        completed log ++
          served
            (fun number path =>
              calls.Fails dst (join base (path.drop cut)) path number)
            log.length (leavesOf visits) := by
  induction visits with
  | nil =>
    intro log err returned
    simp only [Calls.copyEach, Ending.returned.injEq] at returned
    simp [Calls.copyEach, leavesOf, served, returned.symm]
  | cons visit rest ih =>
    intro log err returned
    rw [Calls.copyEach] at returned ⊢
    by_cases short : visit.path.length < cut
    · rw [if_pos short] at returned
      cases returned
    rw [if_neg short] at returned ⊢
    cases isDir : visit.isDir with
    | none =>
      rw [isDir] at returned
      cases returned
    | some isDirectory =>
      cases isDirectory with
      | true =>
        rw [isDir] at returned
        have tail : leavesOf (visit :: rest) = leavesOf rest := by
          simp [leavesOf, isDir]
        rw [tail]
        exact ih returned
      | false =>
        rw [isDir] at returned
        have tail : leavesOf (visit :: rest) = visit.path :: leavesOf rest := by
          simp [leavesOf, isDir]
        rw [tail, served]
        rcases copyFile_cases calls src dst visit.path (join base (visit.path.drop cut)) log with
          ⟨fine, run⟩ | ⟨failed, ended, same⟩
        · simp only [run] at returned ⊢
          obtain ⟨nil, done⟩ := ih returned
          rw [List.length_append, List.length_singleton] at nil done
          rw [if_neg fine, done, nil]
          simp [completed]
        · rw [if_pos failed]
          simp only at returned ⊢
          generalize
            calls.copyFile src dst visit.path (join base (visit.path.drop cut)) log = run
            at returned ended same ⊢
          obtain ⟨after, ending⟩ := run
          cases ending with
          | returned result =>
            cases result with
            | none => exact absurd rfl ended
            | some failure =>
              cases returned
              exact ⟨by simp, by simpa using same⟩
          | fatal => cases returned
          | panic => cases returned

end Copying

section Transfer

variable (calls : Calls) (source : Source) (src dst : Str)

variable {one other : Place} {srcPath dstPath : Str}

theorem copyFrom_unseen {calls : Calls} {source : Source} (unseen : calls.statSrc ≠ none) :
    calls.copyFrom one other source srcPath dstPath = ([], .returned none) := by
  unfold Calls.copyFrom
  rw [if_pos (Option.isSome_iff_ne_none.mpr unseen)]

theorem copyFrom_leaf {calls : Calls} {regular : Bool} (seen : calls.statSrc = none)
    (found : calls.checkDstPath ≠ .failed) :
    calls.copyFrom one other (.leaf regular) srcPath dstPath =
      calls.copyFile one other srcPath (copyBase calls srcPath dstPath) [] := by
  cases stat : calls.checkDstPath with
  | failed => exact absurd stat found
  | _ => simp [Calls.copyFrom, seen, stat, copyBase]

theorem copyFrom_invalid {calls : Calls} {source : Source} (seen : calls.statSrc = none)
    (refused : ¬ calls.Accepts source) :
    calls.copyFrom one other source srcPath dstPath = Calls.dstInvalid := by
  cases source with
  | missing => exact absurd trivial refused
  | leaf regular =>
    have failed : calls.checkDstPath = .failed := not_not.mp refused
    simp [Calls.copyFrom, seen, failed]
  | dir link entries =>
    have other := not_or.mp refused
    cases stat : calls.checkDstPath with
    | notFound => exact absurd stat other.1
    | dir => exact absurd stat other.2
    | _ => simp [Calls.copyFrom, seen, stat]

theorem copyFrom_returned {err : Option TranError} (returned :
      (calls.copyFrom (placeOf src) (placeOf dst) source (pathOf src)
        (pathOf dst)).2 = .returned err) :
    (err = none ↔
        calls.statSrc ≠ none ∨ source = .missing ∨
          (calls.Accepts source ∧ source.copied calls src dst = source.leaves calls src)) ∧
      ∀ file, file ∈ completed
            (calls.copyFrom (placeOf src) (placeOf dst) source (pathOf src) (pathOf dst)).1 ↔
          calls.statSrc = none ∧ calls.Accepts source ∧ file ∈ source.copied calls src dst := by
  by_cases seen : calls.statSrc = none
  swap
  · rw [copyFrom_unseen seen] at returned ⊢
    cases returned
    simp [seen, completed]
  by_cases accepts : calls.Accepts source
  swap
  · rw [copyFrom_invalid seen accepts] at returned ⊢
    cases returned
    have present : source ≠ .missing := by
      rintro rfl
      exact accepts trivial
    simp [seen, accepts, present, Calls.dstInvalid, completed]
  cases source with
  | missing =>
    simp only [Calls.copyFrom, seen, Option.isSome_none, Bool.false_eq_true, if_false] at returned ⊢
    cases returned
    simp [completed, Source.copied, Source.leaves, served]
  | leaf regular =>
    rw [copyFrom_leaf seen accepts] at returned ⊢
    rcases copyFile_cases calls (placeOf src) (placeOf dst) (pathOf src)
        (copyBase calls (pathOf src) (pathOf dst)) [] with
      ⟨fine, run⟩ | ⟨failed, ended, same⟩
    · rw [run] at returned ⊢
      cases returned
      simp only [List.length_nil] at fine
      simp [seen, accepts, completed, Source.copied, Source.leaves, served, Source.target, fine]
    · rw [returned] at ended
      simp only [List.length_nil] at failed
      have failing : err ≠ none := fun quiet => ended (by rw [quiet])
      rw [same]
      simp [seen, failing, completed, Source.copied, Source.leaves, served, Source.target, failed]
  | dir link entries =>
    rw [copyFrom_dir seen accepts] at returned ⊢
    obtain ⟨nil, done⟩ :=
      copyEach_returned calls (placeOf src) (placeOf dst)
        (pathOf src).length (copyBase calls (pathOf src) (pathOf dst))
        ((placeOf src).walk calls (pathOf src) link entries) returned
    have copied :
        Source.copied calls (.dir link entries) src dst =
          served
            (fun number path =>
              calls.Fails (placeOf dst)
                (join (copyBase calls (pathOf src) (pathOf dst))
                  (path.drop (pathOf src).length)) path number)
            0 (leavesOf ((placeOf src).walk calls (pathOf src) link entries)) :=
      rfl
    rw [List.length_nil, ← copied] at nil done
    rw [done, nil]
    simp [seen, accepts, completed, Source.leaves]

end Transfer

section Program

variable (calls : Calls) (source : Source) (src dst keyFile : Str)

theorem connectRemote_cases (text : Str) :
    (¬ AddrOk text ∧ ∃ err, calls.connectRemote text keyFile = .failed err) ∨
      (AddrOk text ∧
        ((∃ ending, calls.connectRemote text keyFile = .ended ending ∧
            ∀ err, ending ≠ .returned err) ∨
          calls.connectRemote text keyFile = .connected (text.dropWhile (· ≠ '@')).tail)) := by
  unfold Calls.connectRemote AddrOk
  by_cases colon : ':' ∈ text.takeWhile (· ≠ '@')
  swap
  · exact Or.inl ⟨fun ok => colon ok.1, _, if_pos colon⟩
  simp only [colon, not_true_eq_false, if_false, true_and]
  cases Serv.ScpCommand.parseInt ((text.takeWhile (· ≠ '@')).dropWhile (· ≠ ':')).tail with
  | error outOfRange => exact Or.inl ⟨by simp, _, rfl⟩
  | ok number =>
    refine Or.inr ⟨⟨number, rfl⟩, ?_⟩
    simp only
    split
    · exact Or.inl ⟨.fatal, rfl, by simp⟩
    · split
      · exact Or.inl ⟨.panic, rfl, by simp⟩
      · exact Or.inr rfl

def transfer (place : Place) (dstPath : Str) : Run :=
  if Calls.hasAddr src then
    calls.fromRemote place source src dstPath keyFile
  else calls.fromLocal place source src dstPath

theorem fileTran_eq :
    calls.fileTran source src dst keyFile =
      if Calls.hasAddr dst then
        match calls.connectRemote dst keyFile with
        | .failed err => ([], .returned (some err))
        | .ended ending => ([], ending)
        | .connected dstPath => Calls.shadowed (transfer calls source src keyFile .server dstPath)
      else transfer calls source src keyFile .disk dst := by
  unfold Calls.fileTran transfer
  cases Calls.hasAddr src <;> cases Calls.hasAddr dst <;> rfl

variable {err : Option TranError}

theorem transfer_returned {place : Place} {dstPath : Str}
    (returned : (transfer calls source src keyFile place dstPath).2 = .returned err) :
    (Refused src ∧ err ≠ none ∧
        completed (transfer calls source src keyFile place dstPath).1 = []) ∨
      (¬ Refused src ∧
        transfer calls source src keyFile place dstPath =
          calls.copyFrom (placeOf src) place source (pathOf src) dstPath) := by
  unfold transfer at returned ⊢
  by_cases remote : Calls.hasAddr src = true
  · rw [if_pos remote, Calls.fromRemote] at returned ⊢
    rcases connectRemote_cases calls keyFile src with
      ⟨bad, _, failed⟩ | ⟨ok, ⟨ending, ended, never⟩ | connected⟩
    · rw [failed] at returned ⊢
      cases returned
      exact Or.inl ⟨⟨remote, bad⟩, by simp, rfl⟩
    · rw [ended] at returned
      exact absurd returned (never err)
    · rw [connected]
      refine Or.inr ⟨fun refused => refused.2 ok, ?_⟩
      simp [placeOf, pathOf, remote]
  · rw [if_neg remote]
    refine Or.inr ⟨fun refused => remote refused.1, ?_⟩
    simp [placeOf, pathOf, remote, Calls.fromLocal]

theorem reported_nil_iff {run : Run} (nil : run.2 = .returned none) :
    Reported source src run ↔
      source ≠ .missing ∧ ∀ file, source.IsFile (pathOf src) file → file ∈ completed run.1 := by
  simp only [Reported, nil, true_imp_iff, mem_completed]

theorem mem_completed_transfer
    (returned : (transfer calls source src keyFile (placeOf dst) (pathOf dst)).2 = .returned err)
    (file : Str) :
    file ∈ completed (transfer calls source src keyFile (placeOf dst) (pathOf dst)).1 ↔
      ¬ Refused src ∧ calls.statSrc = none ∧ calls.Accepts source ∧
        file ∈ source.copied calls src dst := by
  rcases transfer_returned calls source src keyFile returned with
    ⟨refused, _, empty⟩ | ⟨fine, same⟩
  · simp [empty, refused]
  · rw [same] at returned ⊢
    rw [(copyFrom_returned calls source src dst returned).2 file]
    simp [fine]

theorem transfer_nil_iff
    (returned : (transfer calls source src keyFile (placeOf dst) (pathOf dst)).2 = .returned err) :
    err ≠ none ↔
      Refused src ∨
        (calls.statSrc = none ∧ source ≠ .missing ∧
          (¬ calls.Accepts source ∨ source.copied calls src dst ≠ source.leaves calls src)) := by
  rcases transfer_returned calls source src keyFile returned with
    ⟨refused, failed, _⟩ | ⟨fine, same⟩
  · simp [failed, refused]
  · rw [same] at returned
    rw [Ne, (copyFrom_returned calls source src dst returned).1]
    simp only [fine, false_or, not_or, not_and_or, not_not, Ne]

end Program

theorem shadowed_returned {run : Run} {err : Option TranError}
    (returned : (Calls.shadowed run).2 = .returned err) :
    (∃ result, run.2 = .returned result) ∧ Calls.shadowed run = (run.1, .returned none) := by
  obtain ⟨log, ending⟩ := run
  cases ending with
  | returned result => exact ⟨⟨result, rfl⟩, rfl⟩
  | fatal => cases returned
  | panic => cases returned

/-- A run that returns reports what it has not copied exactly if the failure
is one that is noticed, or there is none in the way of the regular files. -/
theorem failure_reported_iff (calls : Calls) (source : Source) (src dst keyFile : Str)
    (alive : ∃ err, (calls.fileTran source src dst keyFile).2 = .returned err) :
    Reported source src (calls.fileTran source src dst keyFile) ↔
      Noticed calls source src dst ∨ Delivered calls source src dst := by
  obtain ⟨err, returned⟩ := alive
  rw [fileTran_eq] at returned ⊢
  by_cases remote : Calls.hasAddr dst = true
  · have server : placeOf dst = .server := by simp [placeOf, remote]
    rw [if_pos remote] at returned ⊢
    simp only [Noticed, server]
    rcases connectRemote_cases calls keyFile dst with
      ⟨bad, failure, failed⟩ | ⟨ok, ⟨ending, ended, never⟩ | connected⟩
    · rw [failed]
      exact iff_of_true (fun nil => by cases nil) (Or.inl ⟨remote, bad⟩)
    · rw [ended] at returned
      exact absurd returned (never err)
    · have path : (dst.dropWhile (· ≠ '@')).tail = pathOf dst := by
        simp [pathOf, remote]
      have fine : ¬ Refused dst := fun refused => refused.2 ok
      rw [connected, path] at returned ⊢
      simp only at returned ⊢
      obtain ⟨⟨result, inner⟩, lost⟩ := shadowed_returned returned
      rw [lost, reported_nil_iff source src rfl, or_iff_right fine]
      rw [← server] at inner ⊢
      exact and_congr_right fun _ => forall₂_congr fun file _ =>
        mem_completed_transfer calls source src dst keyFile inner file
  · have disk : placeOf dst = .disk := by simp [placeOf, remote]
    have path : pathOf dst = dst := by simp [pathOf, remote]
    rw [if_neg remote] at returned ⊢
    simp only [Noticed, disk]
    have same :
        transfer calls source src keyFile .disk dst =
          transfer calls source src keyFile (placeOf dst) (pathOf dst) := by
      rw [disk, path]
    rw [same] at returned ⊢
    rw [← transfer_nil_iff calls source src dst keyFile returned]
    by_cases nil : err = none
    · subst nil
      rw [reported_nil_iff source src returned, or_iff_right (by simp)]
      exact and_congr_right fun _ => forall₂_congr fun file _ =>
        mem_completed_transfer calls source src dst keyFile returned file
    · refine iff_of_true (fun quiet => ?_) (Or.inl nil)
      rw [returned, Ending.returned.injEq] at quiet
      exact absurd quiet nil

/-- Two files, sent to a server without a failure. -/
theorem two_files_reported :
    Reported (.dir false twoFiles) "a".toList
      (calmCalls.fileTran (.dir false twoFiles) "a".toList "h:22@d".toList []) := by
  refine (failure_reported_iff calmCalls (.dir false twoFiles) "a".toList
    "h:22@d".toList [] ⟨none, by decide +kernel⟩).mpr
    (Or.inr ⟨by simp, ?_⟩)
  rintro file ⟨names, member, rfl⟩
  have either : names = ["ab".toList] ∨ names = ["cb".toList] := by
    simpa [twoFiles, Entries.rows] using member
  have fine : ¬ Refused "a".toList := by
    rintro ⟨remote, _⟩
    exact absurd remote (by decide)
  refine ⟨fine, rfl, Or.inl (by decide), ?_⟩
  rcases either with rfl | rfl
  · decide +kernel
  · decide +kernel

def brokenCalls : Calls :=
  { calmCalls with copy := fun _ => some (.other 5) }

/-- No directory can be read but `a`. -/
def closedCalls : Calls :=
  { calmCalls with
    readDir := fun path =>
      if path = "a".toList then none else some (.other 13) }

/-- The file `f` in a directory `s`. -/
def nestedFile : Entries :=
  .dir "s".toList (.leaf "f".toList true .nil) .nil

/-- A source that does not exist, a copy to a server that breaks off and a
directory that cannot be read: nil is returned each time. -/
theorem failures_unreported :
    (calmCalls.fileTran .missing "a".toList "d".toList [] = ([], .returned none) ∧
      ¬ Reported .missing "a".toList (calmCalls.fileTran .missing "a".toList "d".toList [])) ∧
    (brokenCalls.fileTran (.leaf true) "a".toList "h:22@d".toList [] =
        ([⟨"a".toList, "d".toList, false⟩], .returned none) ∧
      ¬ Reported (.leaf true) "a".toList
        (brokenCalls.fileTran (.leaf true) "a".toList "h:22@d".toList [])) ∧
    (closedCalls.fileTran (.dir false nestedFile) "a".toList "d".toList [] = ([], .returned none) ∧
      ¬ Reported (.dir false nestedFile) "a".toList
        (closedCalls.fileTran (.dir false nestedFile) "a".toList "d".toList [])) := by
  have missing : calmCalls.fileTran .missing "a".toList "d".toList [] = ([], .returned none) := by
    decide +kernel
  have broken :
      brokenCalls.fileTran (.leaf true) "a".toList "h:22@d".toList [] =
        ([⟨"a".toList, "d".toList, false⟩], .returned none) := by
    decide +kernel
  have closed :
      closedCalls.fileTran (.dir false nestedFile) "a".toList "d".toList [] =
        ([], .returned none) := by
    decide +kernel
  rw [missing, broken, closed]
  refine ⟨⟨rfl, fun reported => ?_⟩, ⟨rfl, fun reported => ?_⟩, rfl, fun reported => ?_⟩
  · exact (reported rfl).1 rfl
  · obtain ⟨target, member⟩ := (reported rfl).2 "a".toList ⟨rfl, by decide +kernel⟩
    simp at member
  · obtain ⟨target, member⟩ :=
      (reported rfl).2 "a/s/f".toList ⟨["s".toList, "f".toList], by decide, by decide +kernel⟩
    simp at member

end Sshserv.Cli
