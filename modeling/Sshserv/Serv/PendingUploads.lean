import Sshserv.Serv.UploadTree

/-!
# Trees with pending uploads

An upload in atomic mode to a path that leads nowhere collects its data in a
temporary entry next to the path's own entry, and renames it when it ends.
`TreeOk` is what holds of the tree meanwhile.
-/

namespace Sshserv.Serv

open Lib UnixPath FileTree FileSys

/-- An open upload as the tree shows it: the entry `last` of the directory
`place` is requested, and `content` is collected in the entry `tempLast`. -/
structure Pending where
  path : Str
  tempPath : Str
  names : Loc
  place : Loc
  last : Str
  tempLast : Str
  left : Nat
  ino : Nat
  content : List Char

namespace Pending

def target (u : Pending) : Loc :=
  u.place ++ [u.last]

def entry (u : Pending) : Loc :=
  u.place ++ [u.tempLast]

structure Stored (u : Pending) (fs : FileSys) : Prop where
  slot : Slot fs u.path u.names u.last u.place u.left
  tempSlot : Slot fs u.tempPath u.names u.tempLast u.place u.left
  different : u.tempLast ≠ u.last
  node : fs.node u.entry = some (.file u.ino)
  data : (fs.inode u.ino).data = u.content

theorem Stored.entry_ne_target {u : Pending} {fs : FileSys} (stored : u.Stored fs) :
    u.entry ≠ u.target := by
  simpa [entry, target] using stored.different

theorem Stored.tempPath_ne {u : Pending} {fs : FileSys} (stored : u.Stored fs) :
    u.tempPath ≠ u.path := by
  intro equal
  rw [stored.tempSlot.path, stored.slot.path] at equal
  have same := render_injective stored.tempSlot.proper stored.slot.proper equal
  exact stored.different (by simpa using same)

end Pending

/-- The requested paths lead nowhere or to a finished upload, never to a
temporary entry. -/
structure TreeOk (requested : List Str) (finished : List (List Char))
    (pending : Nat → Option Pending) (fs : FileSys) : Prop where
  halts : ∀ q ∈ requested, fs.resolve q ≠ .loop
  seen :
    ∀ q ∈ requested, ∀ loc left, fs.resolve q = .found loc left →
      ∃ content ∈ finished, fs.view loc = some (.file content)
  hidden :
    ∀ q ∈ requested, ∀ loc left, fs.resolve q = .found loc left →
      ∀ ref u, pending ref = some u → loc ≠ u.entry
  stored : ∀ ref u, pending ref = some u → u.path ∈ requested ∧ u.Stored fs
  apart :
    ∀ ref other u v, pending ref = some u → pending other = some v → u.entry = v.entry → ref = other

theorem treeOk_start (fs : FileSys) : TreeOk [] [] (fun _ => none) fs where
  halts := by simp
  seen := by simp
  hidden := by simp
  stored := by simp
  apart := by simp

variable {requested : List Str} {finished : List (List Char)}
    {pending : Nat → Option Pending} {fs after : FileSys}

namespace TreeOk

variable (ok : TreeOk requested finished pending fs)

include ok

/-- A reader of a requested path sees nothing or a finished upload. -/
theorem look {q : Str} (member : q ∈ requested) :
    fs.look q = none ∨ ∃ content ∈ finished, fs.look q = some (.file content) := by
  unfold FileSys.look
  cases outcome : fs.resolve q with
  | found loc left => exact Or.inr (ok.seen q member loc left outcome)
  | missing parent text left => exact Or.inl rfl
  | absent loc => exact Or.inl rfl
  | notDir => exact Or.inl rfl
  | loop => exact Or.inl rfl

theorem mono (extra : List (List Char)) : TreeOk requested (extra ++ finished) pending fs where
  halts := ok.halts
  seen := by
    intro q member loc left found
    obtain ⟨content, done, view⟩ := ok.seen q member loc left found
    exact ⟨content, List.mem_append_right extra done, view⟩
  hidden := ok.hidden
  stored := ok.stored
  apart := ok.apart

theorem notDir {q : Str}
    (member : q ∈ requested) {loc : Loc} {left : Nat} (found : fs.resolve q = .found loc left) :
    fs.isDirAt loc = false := by
  obtain ⟨content, _, view⟩ := ok.seen q member loc left found
  obtain ⟨ino, entry⟩ := node_of_view_file view
  simp [isDirAt, entry, Node.isDir]

/-- A new entry where no requested path got stuck changes nothing. -/
theorem add {new : Loc} (agree : ∀ loc, ¬ loc = new → after.node loc = fs.node loc)
    (inode : ∀ loc ino, fs.node loc = some (.file ino) → after.inode ino = fs.inode ino)
    (absent : fs.node new = none) (unused : ∀ q ∈ requested, (fs.resolve q).stuckAt ≠ some new) :
    TreeOk requested finished pending after ∧ ∀ q ∈ requested, after.resolve q = fs.resolve q := by
  have same : ∀ q ∈ requested, after.resolve q = fs.resolve q := by
    intro q member
    rcases walk_changed_absent agree
        (fun loc here => here ▸ absent) kernelLinkLimit [] (elems q) with
      walks | ⟨loc, stuck, rfl⟩
    · exact walks
    · exact absurd stuck (unused q member)
  have files : ∀ loc ino, fs.node loc = some (.file ino) → after.node loc = some (.file ino) := by
    intro loc ino entry
    rw [agree loc, entry]
    rintro rfl
    simp [absent] at entry
  have keepsSlot :
      ∀ p names last place left, Slot fs p names last place left →
        Slot after p names last place left := by
    intro p names last place left slot
    refine slot.frame agree (fun loc here => here ▸ neverDir_of_absent absent) ?_
    rintro rfl
    have directory := slot.directory
    simp [isDirAt, absent] at directory
  refine ⟨⟨?_, ?_, ?_, ?_, ok.apart⟩, same⟩
  · intro q member
    rw [same q member]
    exact ok.halts q member
  · intro q member loc left found
    rw [same q member] at found
    obtain ⟨content, done, view⟩ := ok.seen q member loc left found
    refine ⟨content, done, ?_⟩
    obtain ⟨ino, entry⟩ := node_of_view_file view
    rw [← view]
    simp [FileSys.view, entry, files loc ino entry, inode loc ino entry]
  · intro q member loc left found
    rw [same q member] at found
    exact ok.hidden q member loc left found
  · intro ref u known
    obtain ⟨member, stored⟩ := ok.stored ref u known
    refine ⟨member, keepsSlot _ _ _ _ _ stored.slot, keepsSlot _ _ _ _ _ stored.tempSlot,
      stored.different, files _ _ stored.node, ?_⟩
    rw [inode _ _ stored.node]
    exact stored.data

theorem sameShape (shape : SameShape fs after)
    {changed : Nat → Option Pending} (seen :
      ∀ loc content, fs.view loc = some (.file content) →
        (∀ ref u, pending ref = some u → loc ≠ u.entry) →
        after.view loc = some (.file content))
    (kept :
      ∀ ref v, changed ref = some v →
        ∃ u, pending ref = some u ∧ v = { u with content := v.content } ∧
          (after.inode v.ino).data = v.content) :
    TreeOk requested finished changed after := by
  refine ⟨?_, ?_, ?_, ?_, ?_⟩
  · intro q member
    rw [shape.resolve]
    exact ok.halts q member
  · intro q member loc left found
    rw [shape.resolve] at found
    obtain ⟨content, done, view⟩ := ok.seen q member loc left found
    exact ⟨content, done, seen loc content view (ok.hidden q member loc left found)⟩
  · intro q member loc left found ref v known
    rw [shape.resolve] at found
    obtain ⟨u, old, equal, _⟩ := kept ref v known
    have apart := ok.hidden q member loc left found ref u old
    rw [equal]
    exact apart
  · intro ref v known
    obtain ⟨u, old, equal, data⟩ := kept ref v known
    obtain ⟨member, stored⟩ := ok.stored ref u old
    have node : after.node u.entry = some (.file u.ino) := (shape.node_file _ _).mpr stored.node
    rw [equal] at data ⊢
    exact ⟨member, stored.slot.sameShape shape,
      stored.tempSlot.sameShape shape, stored.different, node, data⟩
  · intro ref other u v first second equal
    obtain ⟨u', oldFirst, sameFirst, _⟩ := kept ref u first
    obtain ⟨v', oldSecond, sameSecond, _⟩ := kept other v second
    refine ok.apart ref other u' v' oldFirst oldSecond ?_
    rw [sameFirst, sameSecond] at equal
    exact equal

theorem attributes (shape : SameShape fs after)
    (data : ∀ ino, (after.inode ino).data = (fs.inode ino).data) :
    TreeOk requested finished pending after := by
  refine ok.sameShape shape ?_ ?_
  · intro loc content view _
    rw [shape.view data loc]
    exact view
  · intro ref v known
    refine ⟨v, known, rfl, ?_⟩
    rw [data]
    exact (ok.stored ref v known).2.data

theorem write {ref : Nat} {u : Pending}
    (known : pending ref = some u) (content : List Char) (new : Inode) (data : new.data = content) :
    TreeOk requested finished
      (Function.update pending ref (some { u with content := content }))
      (fs.setInode u.ino new) := by
  have node := (ok.stored ref u known).2.node
  refine ok.sameShape (sameShape_setInode u.ino new) ?_ ?_
  · intro loc old view elsewhere
    have other := elsewhere ref u known
    obtain ⟨ino, entry⟩ := node_of_view_file view
    have different : ino ≠ u.ino := by
      rintro rfl
      exact other (fs.ino_inj loc u.entry u.ino entry node)
    rw [← view]
    simp [FileSys.view, entry, setInode, different]
  · intro other v changed
    by_cases here : other = ref
    · subst here
      simp only [Function.update_self, Option.some.injEq] at changed
      subst changed
      exact ⟨u, known, rfl, by simp [setInode, data]⟩
    · rw [Function.update_of_ne here] at changed
      refine ⟨v, changed, rfl, ?_⟩
      have stored := (ok.stored other v changed).2
      have different : v.ino ≠ u.ino := by
        intro equal
        have entry : fs.node v.entry = some (.file u.ino) := equal ▸ stored.node
        exact here (ok.apart other ref v u changed known (fs.ino_inj _ _ _ entry node))
      simpa [setInode, different] using stored.data

section Commit

variable {ref : Nat} {u : Pending} (known : pending ref = some u)

include known

theorem target_neverDir : fs.NeverDir u.target := by
  obtain ⟨member, stored⟩ := ok.stored ref u known
  have resolve := stored.slot.resolve
  refine neverDir_of_walk stored.slot.directory
    (resolve ▸ ok.halts u.path member) fun loc left found => ?_
  rw [← resolve] at found
  exact ok.notDir member found

theorem target_notDir : fs.isDirAt u.target = false := by
  obtain ⟨member, stored⟩ := ok.stored ref u known
  by_contra directory
  have present : fs.isDirAt u.target = true := by simpa using directory
  obtain ⟨attr, entry⟩ := isDirAt_iff.mp present
  have found : fs.resolve u.path = .found u.target u.left := by
    rw [stored.slot.resolve, walk_name]
    unfold Pending.target at entry ⊢
    simp [entry]
  exact directory (ok.notDir member found)

theorem entry_ne_target {other : Nat} {v : Pending} (second : pending other = some v) :
    v.entry ≠ u.target := by
  intro equal
  obtain ⟨member, stored⟩ := ok.stored ref u known
  have node := (ok.stored other v second).2.node
  have found : fs.resolve u.path = .found u.target u.left := by
    rw [stored.slot.resolve, walk_name]
    rw [equal] at node
    unfold Pending.target at node ⊢
    simp [node]
  exact ok.hidden u.path member _ _ found other v second equal.symm

/-- The renaming at the end of an upload succeeds and moves one entry. -/
theorem rename_temp :
    ∃ after, fs.rename u.tempPath u.path = .ok after ∧
      (∀ loc, after.node loc =
        if loc = u.target then some (.file u.ino)
        else if loc = u.entry then none
        else fs.node loc) ∧
      after.inode = fs.inode := by
  obtain ⟨member, stored⟩ := ok.stored ref u known
  obtain ⟨after, renamed, node, inode, _⟩ :=
    stored.tempSlot.rename stored.slot stored.different
      (by rw [Ne, ← Pending.entry, stored.node]; simp)
      (by
        rw [isDirAt, ← Pending.entry, stored.node]
        simp [Node.isDir])
      (ok.target_notDir known)
  refine ⟨after, renamed, fun loc => ?_, inode⟩
  rw [node, ← Pending.target, ← Pending.entry, stored.node]

/-- After the renaming the upload is finished. -/
theorem commit (node :
      ∀ loc, after.node loc =
        if loc = u.target then some (.file u.ino)
        else if loc = u.entry then none
        else fs.node loc)
    (inode : after.inode = fs.inode) :
    TreeOk requested (u.content :: finished) (Function.update pending ref none) after := by
  obtain ⟨_, stored⟩ := ok.stored ref u known
  have agree : ∀ loc, ¬ (loc = u.target ∨ loc = u.entry) → after.node loc = fs.node loc := by
    intro loc elsewhere
    rw [not_or] at elsewhere
    rw [node, if_neg elsewhere.1, if_neg elsewhere.2]
  have atTarget : after.node u.target = some (.file u.ino) := by
    rw [node, if_pos rfl]
  have atEntry : after.node u.entry = none := by
    rw [node, if_neg stored.entry_ne_target, if_pos rfl]
  have targetView : after.view u.target = some (.file u.content) := by
    simp [FileSys.view, atTarget, inode, stored.data]
  have others :
      ∀ other v, Function.update pending ref none other = some v →
        other ≠ ref ∧ pending other = some v ∧ v.entry ≠ u.entry ∧ v.entry ≠ u.target := by
    intro other v second
    by_cases here : other = ref
    · simp [here] at second
    · rw [Function.update_of_ne here] at second
      refine ⟨here, second, fun equal => ?_, ok.entry_ne_target known second⟩
      exact here (ok.apart other ref v u second known equal)
  -- where the new tree leads a requested path
  have leads :
      ∀ q ∈ requested, after.resolve q ≠ .loop ∧
        ∀ loc left, after.resolve q = .found loc left →
          loc = u.target ∨ (loc ≠ u.target ∧ loc ≠ u.entry ∧ fs.resolve q = .found loc left) := by
    intro q member
    rcases walk_agree_or_visit agree kernelLinkLimit [] (elems q) with
      same | ⟨left, parent, text, rest, _, here, _, visit⟩
    · have resolve : after.resolve q = fs.resolve q := same
      rw [resolve]
      refine ⟨ok.halts q member, fun loc left found => ?_⟩
      by_cases there : loc = u.target
      · exact Or.inl there
      · exact Or.inr ⟨there, ok.hidden q member loc left found ref u known, found⟩
    · rw [FileSys.resolve, visit, walk_name]
      rcases here with here | here
      · rw [here, atTarget]
        by_cases last : rest = [] <;> simp [last, eq_comm]
      · rw [here, atEntry]
        by_cases last : rest = [] <;> simp [last]
  have keepsSlot :
      ∀ p names last place left, Slot fs p names last place left →
        Slot after p names last place left := by
    intro p names last place left slot
    refine slot.frame agree ?_ ?_
    · rintro loc (rfl | rfl)
      · exact ok.target_neverDir known
      · exact neverDir_of_file stored.node
    · rintro (rfl | rfl)
      · have directory := slot.directory
        rw [ok.target_notDir known] at directory
        cases directory
      · have directory := slot.directory
        simp [isDirAt, stored.node, Node.isDir] at directory
  refine ⟨fun q member => (leads q member).1, ?_, ?_, ?_, ?_⟩
  · intro q member loc left found
    rcases (leads q member).2 loc left found with rfl | ⟨notTarget, apart, old⟩
    · exact ⟨u.content, List.mem_cons_self, targetView⟩
    · obtain ⟨content, done, view⟩ := ok.seen q member loc left old
      refine ⟨content, List.mem_cons_of_mem _ done, ?_⟩
      rw [← view]
      exact view_congr (agree loc (by simp [notTarget, apart])) inode
  · intro q member loc left found other v second
    obtain ⟨_, old, _, notTarget⟩ := others other v second
    rcases (leads q member).2 loc left found with rfl | ⟨_, _, before⟩
    · exact notTarget.symm
    · exact ok.hidden q member loc left before other v old
  · intro other v second
    obtain ⟨_, old, notEntry, notTarget⟩ := others other v second
    obtain ⟨member, kept⟩ := ok.stored other v old
    refine ⟨member, keepsSlot _ _ _ _ _ kept.slot,
      keepsSlot _ _ _ _ _ kept.tempSlot, kept.different, ?_, ?_⟩
    · rw [agree _ (by simp [notEntry, notTarget])]
      exact kept.node
    · rw [inode]
      exact kept.data
  · intro first second v v' one two equal
    exact ok.apart first second v v' (others first v one).2.1 (others second v' two).2.1 equal

end Commit

theorem request {ref : Nat} {u : Pending}
    {stop : Loc} (stuck : (fs.resolve u.path).stuckAt = some stop) (stored : u.Stored fs)
    (hidden : ∀ q ∈ requested, ∀ loc left, fs.resolve q = .found loc left → loc ≠ u.entry)
    (apart : ∀ other v, pending other = some v → v.entry ≠ u.entry) :
    TreeOk (u.path :: requested) finished (Function.update pending ref (some u)) fs := by
  have nowhere : ∀ loc left, fs.resolve u.path ≠ .found loc left := by
    intro loc left found
    simp [found, Outcome.stuckAt] at stuck
  have known :
      ∀ other v, Function.update pending ref (some u) other = some v →
        (other = ref ∧ v = u) ∨ (other ≠ ref ∧ pending other = some v) := by
    intro other v given
    by_cases here : other = ref
    · subst here
      simp only [Function.update_self, Option.some.injEq] at given
      exact Or.inl ⟨rfl, given.symm⟩
    · rw [Function.update_of_ne here] at given
      exact Or.inr ⟨here, given⟩
  refine ⟨?_, ?_, ?_, ?_, ?_⟩
  · intro q member loops
    rcases List.mem_cons.mp member with rfl | old
    · simp [loops, Outcome.stuckAt] at stuck
    · exact ok.halts q old loops
  · intro q member loc left found
    rcases List.mem_cons.mp member with rfl | old
    · exact absurd found (nowhere loc left)
    · exact ok.seen q old loc left found
  · intro q member loc left found other v given
    rcases List.mem_cons.mp member with rfl | old
    · exact absurd found (nowhere loc left)
    · rcases known other v given with ⟨_, rfl⟩ | ⟨_, before⟩
      · exact hidden q old loc left found
      · exact ok.hidden q old loc left found other v before
  · intro other v given
    rcases known other v given with ⟨_, rfl⟩ | ⟨_, before⟩
    · exact ⟨List.mem_cons_self, stored⟩
    · obtain ⟨member, kept⟩ := ok.stored other v before
      exact ⟨List.mem_cons_of_mem _ member, kept⟩
  · intro first second v v' one two equal
    rcases known first v one with ⟨rfl, rfl⟩ | ⟨_, before⟩
    · rcases known second v' two with ⟨rfl, _⟩ | ⟨_, other⟩
      · rfl
      · exact absurd equal.symm (apart second v' other)
    · rcases known second v' two with ⟨rfl, rfl⟩ | ⟨_, other⟩
      · exact absurd equal (apart first v before)
      · exact ok.apart first second v v' before other equal

end TreeOk

end Sshserv.Serv
