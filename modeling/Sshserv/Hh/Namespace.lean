import Sshserv.Hh.Handler
import Sshserv.Lib.SortedMap

/-!
# Opening HDFS files for writing

`HConnection.Filewrite` asks for the path, removes what is there and creates
the file; each call may fail.  `hdfs_write_safe_iff` says when nothing is
lost.
-/

namespace Sshserv.Hh

open Lib Lib.UnixPath DataProvider
open Serv (FxCode Request)

inductive Node where
  | file (content : List Char)
  | directory
  deriving DecidableEq

/-- A tree of directories and files: whatever is not the root stands in a
directory. -/
structure Namespace where
  nodes : SortedMap (List Str) Node
  root : nodes.get [] = some .directory
  parents :
    ∀ names name node, nodes.get (names ++ [name]) = some node → nodes.get names = some .directory

/-- The calls that fail although the namespace allows them, with the error. -/
structure Faults where
  stat : Option Str
  remove : Option Str
  create : Option Str
  deriving DecidableEq

/-- The namenode takes absolute paths only. -/
def placeOf (p : Str) : Option (List Str) :=
  if isAbs p then some (cleanNames true p) else none

namespace Namespace

variable (ns : Namespace)

def isLeaf (place : List Str) : Bool :=
  ns.nodes.entries.all fun entry => entry.1 = [] ∨ entry.1.dropLast ≠ place

theorem isLeaf_iff {place : List Str} :
    ns.isLeaf place = true ↔ ∀ name, ns.nodes.get (place ++ [name]) = none := by
  simp only [isLeaf, List.all_eq_true, decide_eq_true_eq, Prod.forall]
  constructor
  · intro leaf name
    by_contra present
    obtain ⟨node, found⟩ := Option.ne_none_iff_exists'.mp present
    rcases leaf _ node ((ns.nodes.mem_entries_iff _ _).mpr found) with
      empty | other
    · exact absurd empty (by simp)
    · exact other (List.dropLast_concat)
  · intro leaf key node member
    rcases List.eq_nil_or_concat key with rfl | ⟨names, name, rfl⟩
    · exact Or.inl rfl
    · refine Or.inr fun same => ?_
      rw [List.concat_eq_append, List.dropLast_concat] at same
      rw [ns.nodes.mem_entries_iff, List.concat_eq_append, same, leaf name] at member
      cases member

def erase (place : List Str) (inner : place ≠ []) (leaf : ns.isLeaf place) : Namespace where
  nodes := ns.nodes.delete place
  root := by
    rw [SortedMap.get_delete, if_neg inner.symm]
    exact ns.root
  parents := by
    intro names name node found
    rw [SortedMap.get_delete] at found ⊢
    split at found
    · cases found
    · have other : names ≠ place := by
        rintro rfl
        rw [ns.isLeaf_iff.mp leaf name] at found
        cases found
      rw [if_neg other]
      exact ns.parents names name node found

def add (place : List Str) (free : ns.nodes.get place = none)
    (parent : ns.nodes.get place.dropLast = some .directory) : Namespace where
  nodes := ns.nodes.put place (.file [])
  root := by
    have inner : [] ≠ place := by
      rintro rfl
      rw [ns.root] at free
      cases free
    rw [SortedMap.get_put, if_neg inner]
    exact ns.root
  parents := by
    intro names name node found
    have held : ns.nodes.get names = some .directory := by
      rw [SortedMap.get_put] at found
      split at found
      · rename_i new
        rw [← new, List.dropLast_concat] at parent
        exact parent
      · exact ns.parents names name node found
    have other : names ≠ place := by
      rintro rfl
      rw [held] at free
      cases free
    rw [SortedMap.get_put, if_neg other]
    exact held

def pathError (op p err : Str) : Str :=
  op ++ " ".toList ++ p ++ ": ".toList ++ err

def stat (fault : Option Str) (p : Str) : Except StatError Node :=
  match fault, placeOf p with
  | some _, _ => .error .other
  | none, none => .error .other
  | none, some place =>
    match ns.nodes.get place with
    | none => .error .notExist
    | some node => .ok node

/-- `Client.Remove`.  The namenode refuses to delete the root by answering
false, which the client does not look at. -/
def remove (fault : Option Str) (p : Str) : Except Str Namespace :=
  match fault, placeOf p with
  | some err, _ => .error err
  | none, none => .error (pathError "remove".toList p "invalid path name".toList)
  | none, some place =>
    if (ns.nodes.get place).isNone then
      .error (pathError "remove".toList p "file does not exist".toList)
    else if leaf : ns.isLeaf place = true then
      if inner : place ≠ [] then .ok (ns.erase place inner leaf)
      else .ok ns
    else .error (pathError "remove".toList p "directory not empty".toList)

/-- `Client.Create`: no file is replaced and no parent is created. -/
def create (fault : Option Str) (p : Str) : Except Str Namespace :=
  match fault, placeOf p with
  | some err, _ => .error err
  | none, none => .error (pathError "create".toList p "invalid path name".toList)
  | none, some place =>
    if free : ns.nodes.get place = none then
      if parent : ns.nodes.get place.dropLast = some .directory then
        .ok (ns.add place free parent)
      else .error (pathError "create".toList p "file does not exist".toList)
    else .error (pathError "create".toList p "file already exists".toList)

def failure {α : Type} : Except Str α → Option Str
  | .error err => some err
  | .ok _ => none

def after (result : Except Str Namespace) : Namespace :=
  match result with
  | .error _ => ns
  | .ok next => next

variable (faults : Faults)

/-- The client that `Filewrite` finds; the calls that it does not make
succeed.  `Create` is its last call, so it is answered for what is left after
the others. -/
def client : Client Node where
  openFails := fun _ => none
  stat := ns.stat faults.stat
  removeFails := fun p => failure (ns.remove faults.remove p)
  createFails := fun p =>
    failure
      (match ns.stat faults.stat p with
      | .error _ => ns.create faults.create p
      | .ok _ => (ns.after (ns.remove faults.remove p)).create faults.create p)
  renameFails := fun _ _ => none
  mkdirFails := fun _ => none
  readDir := fun _ => .ok []

/-- What the calls of `Filewrite` do to the namespace. -/
def onCall (ns : Namespace) : ClientCall → Namespace
  | .remove p => ns.after (ns.remove faults.remove p)
  | .create p => ns.after (ns.create faults.create p)
  | .openFile _ | .stat _ | .rename _ _ | .mkdir _ _ | .readDir _ => ns

/-- The namespace after `Filewrite`, and its answer. -/
def filewrite (user : User) (request : Request) : Namespace × Except FxCode HTransfer :=
  let (calls, answer) :=
    HConnection.filewrite user (ns.client faults) request
  (calls.foldl (onCall faults) ns, answer)

def created (p : Str) : Namespace × Except FxCode HTransfer :=
  match ns.create faults.create p with
  | .error _ => (ns, .error .failure)
  | .ok next => (next, .ok ⟨none, some p, p, 0, 0⟩)

theorem filewrite_eq (user : User) (request : Request) :
    ns.filewrite faults user request =
      if user.hasPerm permUpload then
        let p := buildPath user request.filepath
        match ns.stat faults.stat p with
        | .error _ => ns.created faults p
        | .ok _ =>
          match ns.remove faults.remove p with
          | .error _ => (ns, .error .failure)
          | .ok next => next.created faults p
      else (ns, .error .permissionDenied) := by
  unfold filewrite HConnection.filewrite
  by_cases allowed : user.hasPerm permUpload = true
  · simp only [allowed, not_true_eq_false, if_false, if_true]
    generalize buildPath user request.filepath = p
    cases there : ns.stat faults.stat p with
    | error err =>
      simp only [client, there, HConnection.create, created]
      cases made : ns.create faults.create p with
      | error err => simp [failure, onCall, after, made]
      | ok next => simp [failure, onCall, after, made]
    | ok node =>
      cases gone : ns.remove faults.remove p with
      | error err => simp [client, there, failure, onCall, after, gone]
      | ok left =>
        simp only [client, there, HConnection.create, created, gone, failure, after]
        cases made : left.create faults.create p with
        | error err => simp [onCall, after, gone, made]
        | ok next => simp [onCall, after, gone, made]
  · simp [allowed]

/-- After an error the namespace is as before.  After a success the path is an
empty file where there was no directory, and all else is as before. -/
def Unharmed (p : Str) : Namespace × Except FxCode HTransfer → Prop
  | (after, .error _) => after = ns
  | (after, .ok _) =>
    ∃ place, placeOf p = some place ∧
      ns.nodes.get place ≠ some .directory ∧
      after.nodes = ns.nodes.put place (.file [])

def SafeWrite (user : User) (request : Request) : Prop :=
  ns.Unharmed (buildPath user request.filepath) (ns.filewrite faults user request)

/-- What is at a place is not removed, or it is a file that can be created
again. -/
def Survives (place : List Str) : Prop :=
  match ns.nodes.get place with
  | none => True
  | some .directory => place = [] ∨ ns.isLeaf place = false ∨ faults.remove ≠ none
  | some (.file _) => faults.remove ≠ none ∨ faults.create = none

variable {ns faults} {p : Str} {place : List Str}

theorem isLeaf_of_file {content : List Char} (file : ns.nodes.get place = some (.file content)) :
    ns.isLeaf place = true := by
  refine ns.isLeaf_iff.mpr fun name => ?_
  by_contra present
  obtain ⟨node, found⟩ := Option.ne_none_iff_exists'.mp present
  rw [ns.parents place name node found] at file
  cases file

theorem parent_of_inner (inner : place ≠ []) {node : Node}
    (found : ns.nodes.get place = some node) :
    place.dropLast ≠ place ∧ ns.nodes.get place.dropLast = some .directory := by
  obtain ⟨names, name, rfl⟩ := (List.eq_nil_or_concat place).resolve_left inner
  rw [List.concat_eq_append] at found ⊢
  rw [List.dropLast_concat]
  exact ⟨by simp, ns.parents names name node found⟩

theorem unharmed_created : ns.Unharmed p (ns.created faults p) := by
  unfold created
  cases made : ns.create faults.create p with
  | error err => rfl
  | ok next =>
    unfold create at made
    split at made
    · cases made
    · cases made
    · rename_i place _ placed
      split at made
      · rename_i free
        split at made
        · cases made
          exact ⟨place, placed, by simp [free], rfl⟩
        · cases made
      · cases made

theorem unharmed_replaced_iff (placed : placeOf p = some place) {node : Node}
    (found : ns.nodes.get place = some node) (inner : place ≠ []) (leaf : ns.isLeaf place) :
    ns.Unharmed p ((ns.erase place inner leaf).created faults p) ↔
      node ≠ .directory ∧ faults.create = none := by
  have gone : (ns.erase place inner leaf).nodes.get place = none := by
    simp [erase]
  cases fault : faults.create with
  | some err =>
    refine iff_of_false (fun same => ?_) (by simp)
    simp only [created, create, fault, Unharmed] at same
    rw [same, found] at gone
    cases gone
  | none =>
    obtain ⟨other, directory⟩ := parent_of_inner inner found
    have parent : (ns.erase place inner leaf).nodes.get place.dropLast = some .directory := by
      rw [erase, SortedMap.get_delete, if_neg other, directory]
    have restored :
        (ns.erase place inner leaf).nodes.put place (.file []) = ns.nodes.put place (.file []) := by
      refine SortedMap.ext_get fun key => ?_
      simp only [erase, SortedMap.get_put, SortedMap.get_delete]
      split_ifs <;> rfl
    simp only [created, create, fault, placed, dif_pos gone, dif_pos parent, Unharmed,
      Option.some.injEq, exists_eq_left', found, add, and_true, restored, ne_eq]

theorem unharmed_removed_iff (placed : placeOf p = some place)
    {node : Node} (found : ns.nodes.get place = some node) :
    ns.Unharmed p
        (match ns.remove faults.remove p with
        | .error _ => (ns, .error .failure)
        | .ok next => next.created faults p) ↔
      ns.Survives faults place := by
  have present : ¬ (ns.nodes.get place).isNone = true := by simp [found]
  unfold Survives
  rw [found]
  cases fault : faults.remove with
  | some err =>
    simp only [remove]
    refine iff_of_true rfl ?_
    cases node <;> simp
  | none =>
    simp only [remove, placed]
    rw [if_neg present]
    by_cases leaf : ns.isLeaf place = true
    · rw [dif_pos leaf]
      by_cases inner : place ≠ []
      · rw [dif_pos inner]
        refine (unharmed_replaced_iff placed found inner leaf).trans ?_
        cases node <;> simp [inner, leaf]
      · rw [dif_neg inner]
        refine iff_of_true unharmed_created ?_
        rw [not_not] at inner
        rw [inner, ns.root] at found
        cases found
        exact Or.inl inner
    · rw [dif_neg leaf]
      refine iff_of_true rfl ?_
      cases node with
      | file content => exact absurd (isLeaf_of_file found) leaf
      | directory => simp [leaf]

end Namespace

open Namespace

/-- Nothing is lost exactly when the request is not allowed, `Stat` fails, or
what is at the path survives. -/
theorem hdfs_write_safe_iff (ns : Namespace) (faults : Faults) (user : User) (request : Request) :
    ns.SafeWrite faults user request ↔
      (user.hasPerm permUpload = true → faults.stat = none →
        ∀ place, placeOf (buildPath user request.filepath) = some place →
          ns.Survives faults place) := by
  unfold SafeWrite
  rw [filewrite_eq]
  by_cases allowed : user.hasPerm permUpload = true
  · simp only [allowed, if_true, forall_const]
    generalize buildPath user request.filepath = p
    cases fault : faults.stat with
    | some err =>
      simp only [stat]
      exact iff_of_true unharmed_created (by simp)
    | none =>
      cases placed : placeOf p with
      | none =>
        simp only [stat, placed]
        exact iff_of_true unharmed_created (by simp)
      | some place =>
        simp only [Option.some.injEq, forall_eq', forall_const]
        cases found : ns.nodes.get place with
        | none =>
          simp only [stat, placed, found]
          exact iff_of_true unharmed_created (by simp [Survives, found])
        | some node =>
          simp only [stat, placed, found]
          exact unharmed_removed_iff placed found
  · simp only [allowed]
    exact iff_of_true rfl (by simp)

/-- A file `f` and an empty directory `d` below the root. -/
def smallNamespace : Namespace where
  nodes :=
    { entries :=
        [([], .directory), (["d".toList], .directory), (["f".toList], .file ['x'])]
      sorted := by decide }
  root := rfl
  parents := by
    intro names name node found
    rw [← SortedMap.mem_entries_iff] at found
    simp only [List.mem_cons, Prod.mk.injEq, List.append_eq_nil_iff, List.cons_ne_self, and_false,
      false_and, List.append_eq_singleton_iff, List.not_mem_nil, or_false, false_or] at found
    obtain ⟨⟨rfl, _⟩, _⟩ | ⟨⟨rfl, _⟩, _⟩ := found
    · rfl
    · rfl

def rootUser : User :=
  { sampleUser with homeDir := "/".toList }

def writeRequest (path : String) : Request :=
  ⟨.other "Put".toList, path.toList, [], 26, ⟨0, 0, 0, 0, 0, 0⟩⟩

/-- A file is gone after a failed request, and a directory is replaced by a
file. -/
theorem write_harms_namespace :
    (let faults : Faults := ⟨none, none, some "no space".toList⟩
      let (after, answer) :=
        smallNamespace.filewrite faults rootUser (writeRequest "/f")
      answer = .error .failure ∧ after.nodes.get ["f".toList] = none ∧
        ¬ smallNamespace.SafeWrite faults rootUser (writeRequest "/f")) ∧
      let faults : Faults := ⟨none, none, none⟩
      let (after, answer) :=
        smallNamespace.filewrite faults rootUser (writeRequest "/d")
      answer.isOk ∧ after.nodes.get ["d".toList] = some (.file []) ∧
        ¬ smallNamespace.SafeWrite faults rootUser (writeRequest "/d") := by
  refine ⟨⟨by decide +kernel, by decide +kernel, fun safe => ?_⟩,
    by decide +kernel, by decide +kernel, fun safe => ?_⟩
  · have same := congrArg (fun ns => ns.nodes.get ["f".toList]) safe
    revert same
    decide +kernel
  · obtain ⟨place, placed, file, _⟩ := safe
    have here : place = ["d".toList] := Option.some.inj (placed.symm.trans (by decide +kernel))
    exact file (by rw [here]; decide +kernel)

end Sshserv.Hh
