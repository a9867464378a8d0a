import Sshserv.Serv.Destination

/-!
# What the sink stores

A session of items that are sent to an existing directory.  It is stored as a
whole exactly if it is one item whose place is free.
-/

namespace Sshserv.Serv

open Lib UnixPath FileTree FileSys DataProvider

/-! ## The objects of a session -/

namespace Items

def names : Items → List Str
  | .nil => []
  | .file _ _ name _ rest => name :: rest.names
  | .dir _ _ name _ _ rest => name :: rest.names

/-- The names of the items and of everything in them. -/
def allNames : Items → List Str
  | .nil => []
  | .file _ _ name _ rest => name :: rest.allNames
  | .dir _ _ name items _ rest => name :: (items.allNames ++ rest.allNames)

/-- The sizes of the files, in the order in which they are sent. -/
def sizes : Items → List Nat
  | .nil => []
  | .file _ _ _ content rest => content.length :: rest.sizes
  | .dir _ _ _ items _ rest => items.sizes ++ rest.sizes

def entries : Items → List (Loc × View)
  | .nil => []
  | .file _ _ name content rest => ([name], .file content) :: rest.entries
  | .dir _ _ name items _ rest =>
    ([name], .dir) :: (items.entries.map (fun entry => (name :: entry.1, entry.2)) ++ rest.entries)

def find : Items → Loc → Option View
  | .nil, _ => none
  | .file _ _ name content rest, path =>
    if path = [name] then some (.file content) else rest.find path
  | .dir _ _ name items _ rest, path =>
    if path = [name] then some .dir
    else if path.head? = some name then items.find path.tail
    else rest.find path

/-- The items are trees: their names are single names, and no two entries of a
directory have the same one. -/
def Tree : Items → Prop
  | .nil => True
  | .file _ _ name _ rest => Proper name ∧ rest.Tree
  | .dir _ _ name items _ rest => Proper name ∧ (items.names.Nodup ∧ items.Tree) ∧ rest.Tree

instance decidableTree : ∀ items : Items, Decidable items.Tree
  | .nil => inferInstanceAs (Decidable True)
  | .file _ _ name _ rest =>
    have := decidableTree rest
    inferInstanceAs (Decidable (Proper name ∧ rest.Tree))
  | .dir _ _ name items _ rest =>
    have := decidableTree items
    have := decidableTree rest
    inferInstanceAs (Decidable (Proper name ∧ (items.names.Nodup ∧ items.Tree) ∧ rest.Tree))

theorem find_nil_path (items : Items) : items.find [] = none := by
  induction items with
  | nil => rfl
  | file times mode name content rest ih => simp [find, ih]
  | dir times mode name items closing rest _ ih => simp [find, ih]

variable {items : Items} {path : Loc} {view : View}

theorem find_eq_none {first : Str} (absent : first ∉ items.names) (more : Loc) :
    items.find (first :: more) = none := by
  induction items with
  | nil => rfl
  | file times mode name content rest ih =>
    simp only [names, List.mem_cons, not_or] at absent
    simp [find, absent.1, ih absent.2]
  | dir times mode name items closing rest _ ih =>
    simp only [names, List.mem_cons, not_or] at absent
    simp [find, absent.1, ih absent.2]

theorem head_mem_names (member : (path, view) ∈ items.entries) :
    ∃ first more, path = first :: more ∧ first ∈ items.names := by
  induction items generalizing path view with
  | nil => simp [entries] at member
  | file times mode name content rest ih =>
    simp only [entries, List.mem_cons, Prod.mk.injEq] at member
    rcases member with ⟨rfl, _⟩ | later
    · exact ⟨name, [], rfl, by simp [names]⟩
    · obtain ⟨first, more, shape, known⟩ := ih later
      exact ⟨first, more, shape, by simp [names, known]⟩
  | dir times mode name items closing rest _ ih =>
    simp only [entries, List.mem_cons, Prod.mk.injEq, List.mem_append,
      List.mem_map, Prod.exists] at member
    rcases member with ⟨rfl, _⟩ | ⟨inner, _, _, rfl, _⟩ | later
    · exact ⟨name, [], rfl, by simp [names]⟩
    · exact ⟨name, inner, rfl, by simp [names]⟩
    · obtain ⟨first, more, shape, known⟩ := ih later
      exact ⟨first, more, shape, by simp [names, known]⟩

theorem find_of_mem_entries
    (tree : items.Tree) (nodup : items.names.Nodup) (member : (path, view) ∈ items.entries) :
    items.find path = some view := by
  induction items generalizing path view with
  | nil => simp [entries] at member
  | file times mode name content rest ih =>
    simp only [entries, List.mem_cons, Prod.mk.injEq] at member
    rw [names, List.nodup_cons] at nodup
    rcases member with ⟨rfl, rfl⟩ | later
    · simp [find]
    · obtain ⟨first, more, rfl, known⟩ := head_mem_names later
      have other : first ≠ name := fun same => nodup.1 (same ▸ known)
      simp [find, other, ih tree.2 nodup.2 later]
  | dir times mode name items closing rest inner outer =>
    simp only [entries, List.mem_cons, Prod.mk.injEq, List.mem_append,
      List.mem_map, Prod.exists] at member
    rw [names, List.nodup_cons] at nodup
    obtain ⟨_, ⟨innerNodup, innerTree⟩, restTree⟩ := tree
    rcases member with ⟨rfl, rfl⟩ | ⟨below, seen, found, rfl, rfl⟩ | later
    · simp [find]
    · obtain ⟨first, more, rfl, _⟩ := head_mem_names found
      simp [find, inner innerTree innerNodup found]
    · obtain ⟨first, more, rfl, known⟩ := head_mem_names later
      have other : first ≠ name := fun same => nodup.1 (same ▸ known)
      simp [find, other, outer restTree nodup.2 later]

/-- The object that the items put at a location. -/
def placed (items : Items) (place loc : Loc) : Option View :=
  if place <+: loc then items.find (loc.drop place.length) else none

theorem placed_append (items : Items) (place path : Loc) :
    items.placed place (place ++ path) = items.find path := by
  simp [placed]

end Items

/-- The items have been put into the directory `place`, and nothing else looks
different. -/
def Placed (before after : FileSys) (place : Loc) (items : Items) : Prop :=
  ∀ loc, after.view loc = (items.placed place loc).or (before.view loc)

section Placed

variable {before middle made after : FileSys} {place : Loc} {name : Str}

theorem placed_nil (fs : FileSys) (place : Loc) : Placed fs fs place .nil := by
  intro loc
  simp [Items.placed, Items.find]

theorem placed_file {content : List Char} {rest : Items} (times : List Str) (mode : Str)
    (updated : UpdatedAt before middle (place ++ [name]) (some (.file content)))
    (later : Placed middle after place rest) (only : name ∉ rest.names) :
    Placed before after place (.file times mode name content rest) := by
  intro loc
  rw [later, updated]
  by_cases below : place <+: loc
  · obtain ⟨path, rfl⟩ := below
    rw [Items.placed_append, Items.placed_append, Items.find]
    by_cases here : path = [name]
    · rw [here, Items.find_eq_none only]
      simp
    · rw [if_neg here, if_neg fun same => here (List.append_cancel_left same)]
  · have elsewhere : loc ≠ place ++ [name] := by
      rintro rfl
      exact below (List.prefix_append _ _)
    simp [Items.placed, below, elsewhere]

theorem placed_dir {items : Items} (times : List Str) (mode : Str) (closing : List Str)
    (updated : UpdatedAt before made (place ++ [name]) (some .dir))
    (inner : Placed made after (place ++ [name]) items) :
    Placed before after place (.dir times mode name items closing .nil) := by
  intro loc
  rw [inner, updated]
  by_cases below : place <+: loc
  · obtain ⟨path, rfl⟩ := below
    rw [Items.placed_append, Items.find]
    rcases path with _ | ⟨first, more⟩
    · have apart : ¬ place ++ [name] <+: place := by
        intro longer
        simpa using longer.length_le
      simp [Items.placed, Items.find, apart]
    · by_cases same : first = name
      · subst same
        have shape : place ++ first :: more = place ++ [first] ++ more := by
          simp
        rw [shape, Items.placed_append]
        by_cases here : more = []
        · simp [here, Items.find_nil_path]
        · simp [here]
      · have apart : ¬ place ++ [name] <+: place ++ first :: more := by
          rw [List.prefix_append_right_inj, List.cons_prefix_cons]
          exact fun both => same both.1.symm
        simp [Items.placed, Items.find, apart, same]
  · have elsewhere : loc ≠ place ++ [name] := by
      rintro rfl
      exact below (List.prefix_append _ _)
    have apart : ¬ place ++ [name] <+: loc :=
      fun inside => below ((List.prefix_append _ _).trans inside)
    simp [Items.placed, below, elsewhere, apart]

theorem Placed.dir_followed {times closing : List Str} {mode : Str} {items others : Items}
    (one : Placed before middle place (.dir times mode name items closing .nil))
    (later : Placed middle after place others) (only : name ∉ others.names) :
    Placed before after place (.dir times mode name items closing others) := by
  intro loc
  rw [later, one]
  by_cases below : place <+: loc
  · obtain ⟨path, rfl⟩ := below
    rw [Items.placed_append, Items.placed_append, Items.placed_append]
    rcases path with _ | ⟨first, more⟩
    · simp [Items.find_nil_path]
    · by_cases same : first = name
      · subst same
        rw [Items.find_eq_none only, Option.none_or]
        simp [Items.find]
      · simp [Items.find, same]
  · simp [Items.placed, below]

/-- Items whose names are free only add to the tree. -/
theorem Placed.grown {items : Items} (placed : Placed before after place items)
    (free : ∀ name ∈ items.names, before.node (place ++ [name]) = none) :
    Grown before after := by
  intro loc present
  rw [placed]
  have nothing : items.placed place loc = none := by
    unfold Items.placed
    split
    · rename_i below
      obtain ⟨path, rfl⟩ := below
      rw [List.drop_left]
      rcases path with _ | ⟨first, more⟩
      · exact items.find_nil_path
      · apply Items.find_eq_none
        intro known
        -- nothing is below a name that is free
        have gone := free first known
        apply present
        rw [view_eq_none_iff]
        have leaf : before.isDirAt (place ++ [first]) = false := by
          simp [isDirAt, gone]
        have absent := before.node_below_notDir leaf more
        by_cases here : more = []
        · rw [here]
          exact gone
        · simpa using absent here
    · rfl
  rw [nothing, Option.none_or]

end Placed

/-! ## Room and names -/

def countNew (settings : Settings) (user : User) (used : Option (Int × Int))
    (size : Nat) : Option (Int × Int) :=
  used.map fun (counters : Int × Int) =>
    if World.tracked settings user = true then
      (counters.1 + 1, counters.2 + size)
    else counters

/-- There is room for every file when its turn comes. -/
def Enough (settings : Settings) (user : User) : Option (Int × Int) → List Nat → Prop
  | _, [] => True
  | used, size :: rest =>
    (settings.provider.trackQuota = 0 ∨ Room user true used) ∧
      Enough settings user (countNew settings user used size) rest

instance decidableEnough (settings : Settings) (user : User) :
    ∀ used sizes, Decidable (Enough settings user used sizes)
  | _, [] => inferInstanceAs (Decidable True)
  | used, size :: rest =>
    have := decidableEnough settings user (countNew settings user used size) rest
    inferInstanceAs (Decidable ((_ ∨ _) ∧ _))

variable {settings : Settings} {os : Nat → Os} {place : Loc} {items : Items}

theorem enough_append {user : User} (sizes : List Nat) :
    ∀ {used : Option (Int × Int)} {more : List Nat}, Enough settings user used (sizes ++ more) ↔
        Enough settings user used sizes ∧
          Enough settings user (sizes.foldl (countNew settings user) used) more := by
  induction sizes with
  | nil =>
    intro used more
    simp [Enough]
  | cons size rest ih =>
    intro used more
    simp [Enough, ih, and_assoc]

/-- In atomic mode no object has a temporary name. -/
def TempsFree (settings : Settings) (os : Nat → Os) (fs : FileSys) : Prop :=
  settings.Atomic → ∀ index, '/' ∉ (os index).guid ∧
      ∀ parent text, fs.node (parent ++ [tempName (os index) text]) = none

/-- In atomic mode none of the names is a temporary name. -/
def NamesPlain (settings : Settings) (os : Nat → Os) (names : List Str) : Prop :=
  settings.Atomic → ∀ name ∈ names, ∀ index text, name ≠ tempName (os index) text

theorem TempsFree.tempFresh {fs : FileSys} {p : Str} {names : Loc} {last : Str} {left : Nat}
    (free : TempsFree settings os fs) (slot : Slot fs p names last place left) (index : Nat) :
    TempFresh settings (os index) fs p := by
  intro atomic
  obtain ⟨noSlash, absent⟩ := free atomic index
  refine ⟨noSlash, fun loc named => ?_⟩
  rw [(slot.temp noSlash).entryLoc] at named
  cases named
  exact absent place last

theorem TempsFree.updated {settings : Settings} {os : Nat → Os} {before after : FileSys}
    {place : Loc} {name : Str} {new : Option View} (free : TempsFree settings os before)
    (updated : UpdatedAt before after (place ++ [name]) new) (plain :
      settings.Atomic → ∀ index text, name ≠ tempName (os index) text) :
    TempsFree settings os after := by
  intro atomic index
  obtain ⟨noSlash, absent⟩ := free atomic index
  refine ⟨noSlash, fun parent text => ?_⟩
  rw [← view_eq_none_iff, updated, if_neg, view_eq_none_iff]
  · exact absent parent text
  · intro same
    have equal := (List.append_inj' same rfl).2
    exact plain atomic index text (by simpa using equal.symm)

/-! ## Turns of the loop -/

/-- After some turns the loop from `s` is the loop from `after`. -/
def Reaches (cmd : ScpCommand) (settings : Settings) (os : Nat → Os)
    (turns : Nat) (s after : SinkState) : Prop :=
  ∀ fuel, cmd.sinkFrom settings os (fuel + turns) s = cmd.sinkFrom settings os fuel after

section Turns

variable {cmd : ScpCommand} {settings : Settings} {os : Nat → Os}

theorem Reaches.refl (s : SinkState) : Reaches cmd settings os 0 s s :=
  fun _ => rfl

theorem Reaches.trans {first second : Nat} {s middle after : SinkState}
    (left : Reaches cmd settings os first s middle)
    (right : Reaches cmd settings os second middle after) :
    Reaches cmd settings os (second + first) s after := by
  intro fuel
  rw [← Nat.add_assoc, left, right]

theorem reaches_of_turn {s after : SinkState} (next : cmd.turn settings os s = .next after) :
    Reaches cmd settings os 1 s after := by
  intro fuel
  rw [ScpCommand.sinkFrom_succ, next]

theorem turn_message {m : Sent} {s : SinkState} {rest : List Char} (wellFormed : m.WellFormed)
    (live : s.channel.Live) (bytes : s.channel.bytes = m.steps.flatten ++ rest) :
    ∃ next, next.Live ∧ next.bytes = m.data.flatten ++ rest ∧
      cmd.turn settings os s =
        cmd.handleMessage settings (os s.index) { s with channel := next } m.message := by
  rw [Sent.steps, List.flatten_append, List.append_assoc] at bytes
  obtain ⟨next, dialogue⟩ := received_dialogue cmd os wellFormed live bytes
  exact ⟨next, dialogue.talks.live, dialogue.talks.bytes bytes, turn_whole dialogue⟩

end Turns

/-! ## Items in a directory -/

/-- A session in which nothing is refused for lack of permissions and no call
fails. -/
structure Undisturbed (cmd : ScpCommand) (os : Nat → Os) : Prop where
  home : isAbs cmd.connection.user.homeDir = true
  quiet : ∀ index, (os index).Quiet
  upload : cmd.connection.user.hasPerm permUpload = true
  createDirs : cmd.connection.user.hasPerm permCreateDirs = true

/-- The items are about to arrive, and they can be stored in `place`. -/
structure Ready (cmd : ScpCommand) (settings : Settings) (os : Nat → Os)
    (s : SinkState) (place : Loc) (items : Items) (rest : List Char) :
    Prop where
  standing : Standing cmd s.world.fs s.destPath place
  temps : TempsFree settings os s.world.fs
  plain : NamesPlain settings os items.allNames
  enough :
    Enough settings cmd.connection.user (s.world.quota cmd.connection.user.username) items.sizes
  tree : items.Tree
  wellFormed : items.WellFormed
  live : s.channel.Live
  bytes : s.channel.bytes = items.wire ++ rest

theorem Ready.dir_bytes {cmd : ScpCommand} {s : SinkState} {name mode : Str}
    {times closing : List Str} {others : Items} {rest : List Char}
    (ready : Ready cmd settings os s place (.dir times mode name items closing others) rest) :
    s.channel.bytes =
      (Sent.dir times mode name).steps.flatten ++
        (items.wire ++ ((Sent.endDir closing).steps.flatten ++ (others.wire ++ rest))) := by
  rw [ready.bytes]
  simp [Items.wire, Items.sent, stepsOf]

/-- The items have arrived and are stored. -/
structure Stored (cmd : ScpCommand) (settings : Settings) (os : Nat → Os)
    (s after : SinkState) (place : Loc) (items : Items) (rest : List Char) :
    Prop where
  standing : Standing cmd after.world.fs after.destPath place
  numDirs : after.numDirs = s.numDirs
  dest : cleanNames true after.destPath = cleanNames true s.destPath
  temps : TempsFree settings os after.world.fs
  quota :
    after.world.quota cmd.connection.user.username =
      items.sizes.foldl (countNew settings cmd.connection.user)
        (s.world.quota cmd.connection.user.username)
  live : after.channel.Live
  bytes : after.channel.bytes = rest
  placed : Placed s.world.fs after.world.fs place items

section Run

variable {cmd : ScpCommand} {settings : Settings} {os : Nat → Os}
    {s : SinkState} {place : Loc} {rest : List Char} {name : Str}

theorem handleMessage_file
    (env : Undisturbed cmd os) (standing : Standing cmd s.world.fs s.destPath place)
    (temps : TempsFree settings os s.world.fs) (proper : Proper name)
    (free : s.world.fs.node (place ++ [name]) = none) (room :
      settings.provider.trackQuota = 0 ∨
        Room cmd.connection.user true (s.world.quota cmd.connection.user.username))
    {content : List Char} (live : s.channel.Live)
    (bytes : s.channel.bytes = (content ++ okMsg) ++ rest) (nested : s.numDirs ≠ 0) :
    ∃ after answered, cmd.handleMessage settings (os s.index) s (.file content.length name) =
        .next ⟨s.index + 1, s.numDirs, s.destPath, after, answered⟩ ∧
      answered.Live ∧ answered.bytes = rest ∧
      UpdatedAt s.world.fs after.fs (place ++ [name]) (some (.file content)) ∧
      after.quota cmd.connection.user.username =
        countNew settings cmd.connection.user
          (s.world.quota cmd.connection.user.username) content.length := by
  obtain ⟨left, slot⟩ := standing.slot proper
  obtain ⟨after, answered, talks, done, lands, ⟨loc, landed, updated⟩, quota⟩ :=
    handleUpload_new_in standing env.home (env.quiet s.index) proper
      (temps.tempFresh slot s.index) live bytes env.upload
      (standing.inside.stat_absent proper free) (Or.inr free) room
  rw [lands] at landed
  cases landed
  refine ⟨after, answered, ?_, talks.live, talks.bytes bytes, updated, ?_⟩
  · simp only [ScpCommand.handleMessage, done, if_true, nested, if_false]
  · rw [quota]
    rfl

theorem handleMessage_dir (env : Undisturbed cmd os)
    (standing : Standing cmd s.world.fs s.destPath place) (proper : Proper name)
    (free : s.world.fs.node (place ++ [name]) = none) (below : 0 ≤ s.numDirs) :
    ∃ after, cmd.handleMessage settings (os s.index) s (.dir name) =
        .next ⟨s.index + 1, s.numDirs + 1, join s.destPath name, after, s.channel⟩ ∧
      UpdatedAt s.world.fs after.fs (place ++ [name]) (some .dir) ∧
      after.quota = s.world.quota ∧
      Standing cmd after.fs (join s.destPath name) (place ++ [name]) := by
  obtain ⟨after, made, updated, quota⟩ :=
    handleCreateDir_in standing env.home (env.quiet s.index) proper env.createDirs free s.channel
  have deeper : ¬ s.numDirs + 1 = 0 := by omega
  refine ⟨after, ?_, updated, quota, ?_⟩
  · simp only [ScpCommand.handleMessage, made, if_true, deeper, if_false]
  · have grown := updated.grown (view_eq_none_iff.mpr free)
    refine (standing.grown grown).child proper ?_
    rw [← view_eq_dir_iff, updated, if_pos rfl]

theorem free_in_new_dir {before after : FileSys} (free : before.node (place ++ [name]) = none)
    (updated : UpdatedAt before after (place ++ [name]) (some .dir))
    (other : Str) : after.node (place ++ [name] ++ [other]) = none := by
  have below : place ++ [name] ++ [other] ≠ place ++ [name] := by simp
  have leaf : before.isDirAt (place ++ [name]) = false := by
    simp [isDirAt, free]
  rw [← view_eq_none_iff, updated, if_neg below, view_eq_none_iff]
  exact before.node_below_notDir leaf [other] (by simp)

/-- In a directory that the sink is in, the items are stored. -/
def RunsIn (cmd : ScpCommand) (settings : Settings) (os : Nat → Os) (items : Items) : Prop :=
  ∀ (s : SinkState) (place : Loc) (rest : List Char),
    Ready cmd settings os s place items rest → items.names.Nodup →
    (∀ name ∈ items.names, s.world.fs.node (place ++ [name]) = none) →
    1 ≤ s.numDirs →
    ∃ after, Reaches cmd settings os items.sent.length s after ∧
      Stored cmd settings os s after place items rest

theorem runsIn_nil : RunsIn cmd settings os .nil := by
  intro s place rest ready nodup free nested
  exact ⟨s, Reaches.refl s, ready.standing, rfl, rfl, ready.temps, rfl,
    ready.live, ready.bytes, placed_nil _ _⟩

theorem runsIn_file (env : Undisturbed cmd os) {others : Items}
    (run : RunsIn cmd settings os others) (times : List Str) (mode name : Str)
    (content : List Char) :
    RunsIn cmd settings os (.file times mode name content others) := by
  intro s place rest ready nodup free nested
  rw [Items.names, List.nodup_cons] at nodup
  have nameFree := free name (by simp [Items.names])
  have wellFormed : (Sent.file times mode name content).WellFormed :=
    ready.wellFormed _ (by simp [Items.sent])
  have bytes :
      s.channel.bytes =
        (Sent.file times mode name content).steps.flatten ++ (others.wire ++ rest) := by
    rw [ready.bytes]
    simp [Items.wire, Items.sent, stepsOf]
  obtain ⟨next, live, left, turned⟩ :=
    @turn_message cmd settings os _ s _ wellFormed ready.live bytes
  have data : next.bytes = (content ++ okMsg) ++ (others.wire ++ rest) := by
    rw [left]
    simp [Sent.data]
  obtain ⟨world, answered, handled, answeredLive, answeredBytes, updated, quota⟩ :=
    @handleMessage_file cmd settings os { s with channel := next } place _ name
      env ready.standing ready.temps ready.tree.1 nameFree ready.enough.1
      content live data (by simp only; omega)
  have step := reaches_of_turn (turned.trans handled)
  have grown := updated.grown (view_eq_none_iff.mpr nameFree)
  have othersReady :
      Ready cmd settings os
        ⟨s.index + 1, s.numDirs, s.destPath, world, answered⟩ place others
        rest :=
    { standing := ready.standing.grown grown
      temps := ready.temps.updated updated fun atomic =>
        ready.plain atomic name (by simp [Items.allNames])
      plain := fun atomic other member =>
        ready.plain atomic other (by simp [Items.allNames, member])
      enough := by
        rw [quota]
        exact ready.enough.2
      tree := ready.tree.2
      wellFormed := fun m member =>
        ready.wellFormed m (by simp [Items.sent, member])
      live := answeredLive
      bytes := answeredBytes }
  have othersFree : ∀ other ∈ others.names, world.fs.node (place ++ [other]) = none := by
    intro other member
    have different : other ≠ name := by
      rintro rfl
      exact nodup.1 member
    rw [← view_eq_none_iff, updated, if_neg (by simpa using different), view_eq_none_iff]
    exact free other (by simp [Items.names, member])
  obtain ⟨after, runs, stored⟩ := run _ place rest othersReady nodup.2 othersFree nested
  refine ⟨after, by simpa [Items.sent] using step.trans runs, ?_⟩
  exact ⟨stored.standing, stored.numDirs, stored.dest, stored.temps,
    by rw [stored.quota, quota]; rfl, stored.live, stored.bytes,
    placed_file times mode updated stored.placed nodup.1⟩

/-- A directory has been filled, and the message that closes it is to come. -/
structure DirFilled (cmd : ScpCommand) (settings : Settings) (os : Nat → Os)
    (s filled : SinkState) (place : Loc) (times : List Str) (mode name : Str)
    (items : Items) (closing : List Str) (rest : List Char) : Prop where
  numDirs : filled.numDirs = s.numDirs + 1
  rooted : isAbs filled.destPath = true
  dest : cleanNames true filled.destPath = cleanNames true s.destPath ++ [name]
  outside : Standing cmd filled.world.fs s.destPath place
  temps : TempsFree settings os filled.world.fs
  quota :
    filled.world.quota cmd.connection.user.username =
      items.sizes.foldl (countNew settings cmd.connection.user)
        (s.world.quota cmd.connection.user.username)
  live : filled.channel.Live
  bytes : filled.channel.bytes = (Sent.endDir closing).steps.flatten ++ rest
  placed : Placed s.world.fs filled.world.fs place (.dir times mode name items closing .nil)

theorem dir_filled (env : Undisturbed cmd os) {items others : Items}
    (run : RunsIn cmd settings os items) {times closing : List Str} {mode : Str}
    (ready : Ready cmd settings os s place (.dir times mode name items closing others) rest)
    (free : s.world.fs.node (place ++ [name]) = none) (below : 0 ≤ s.numDirs) :
    ∃ filled, Reaches cmd settings os (items.sent.length + 1) s filled ∧
      DirFilled cmd settings os s filled place times mode name items closing
        (others.wire ++ rest) := by
  obtain ⟨nameProper, ⟨innerNodup, innerTree⟩, _⟩ := ready.tree
  have wellFormed : (Sent.dir times mode name).WellFormed :=
    ready.wellFormed _ (by simp [Items.sent])
  obtain ⟨next, live, left, turned⟩ :=
    @turn_message cmd settings os _ s _ wellFormed ready.live ready.dir_bytes
  obtain ⟨world, handled, updated, quota, standing⟩ :=
    @handleMessage_dir cmd settings os { s with channel := next } place name
      env ready.standing nameProper free below
  have opened := reaches_of_turn (turned.trans handled)
  have innerFree : ∀ other ∈ items.names, world.fs.node (place ++ [name] ++ [other]) = none :=
    fun other _ => free_in_new_dir free updated other
  have innerReady :
      Ready cmd settings os
        ⟨s.index + 1, s.numDirs + 1, join s.destPath name, world, next⟩
        (place ++ [name]) items
        ((Sent.endDir closing).steps.flatten ++ (others.wire ++ rest)) :=
    { standing := standing
      temps := ready.temps.updated updated fun atomic =>
        ready.plain atomic name (by simp [Items.allNames])
      plain := fun atomic other member =>
        ready.plain atomic other (by simp [Items.allNames, member])
      enough := by
        rw [quota]
        exact ((enough_append items.sizes).mp ready.enough).1
      tree := innerTree
      wellFormed := fun m member =>
        ready.wellFormed m (by simp [Items.sent, member])
      live := live
      bytes := by
        rw [left]
        simp [Sent.data] }
  obtain ⟨filled, innerRun, stored⟩ :=
    run _ _ _ innerReady innerNodup innerFree (by simp only; omega)
  have grown := (updated.grown (view_eq_none_iff.mpr free)).trans (stored.placed.grown innerFree)
  refine ⟨filled, opened.trans innerRun, ?_⟩
  exact
    { numDirs := stored.numDirs
      rooted := stored.standing.rooted
      dest := by
        rw [stored.dest, ready.standing.join_name nameProper,
          cleanNames_render (ready.standing.inside.proper_concat nameProper)]
      outside := ready.standing.grown grown
      temps := stored.temps
      quota := by
        rw [stored.quota, quota]
      live := stored.live
      bytes := stored.bytes
      placed := placed_dir times mode closing updated stored.placed }

theorem runsIn_dir (env : Undisturbed cmd os) {items others : Items}
    (inner : RunsIn cmd settings os items) (outer : RunsIn cmd settings os others)
    (times : List Str) (mode name : Str) (closing : List Str) :
    RunsIn cmd settings os (.dir times mode name items closing others) := by
  intro s place rest ready nodup free nested
  rw [Items.names, List.nodup_cons] at nodup
  have nameFree := free name (by simp [Items.names])
  have closingFormed : (Sent.endDir closing).WellFormed := ready.wellFormed _ (by simp [Items.sent])
  obtain ⟨filled, fills, dir⟩ := dir_filled env inner ready nameFree (by omega)
  obtain ⟨closed, closedLive, closedLeft, closedTurn⟩ :=
    @turn_message cmd settings os _ filled _ closingFormed dir.live dir.bytes
  obtain ⟨back, backNames⟩ := dir.outside.parent dir.rooted dir.dest
  have deeper : filled.numDirs - 1 = s.numDirs := by
    rw [dir.numDirs]
    omega
  have stays : ¬ s.numDirs = 0 := by omega
  have shut :
      cmd.turn settings os filled =
        .next ⟨filled.index + 1, s.numDirs, join filled.destPath "..".toList,
          filled.world, closed⟩ := by
    rw [closedTurn]
    simp only [Sent.message, ScpCommand.handleMessage, deeper, stays, if_false]
  have othersReady :
      Ready cmd settings os
        ⟨filled.index + 1, s.numDirs, join filled.destPath "..".toList,
          filled.world, closed⟩ place others rest :=
    { standing := back
      temps := dir.temps
      plain := fun atomic other member =>
        ready.plain atomic other (by simp [Items.allNames, member])
      enough := by
        simp only [dir.quota]
        exact ((enough_append items.sizes).mp ready.enough).2
      tree := ready.tree.2.2
      wellFormed := fun m member =>
        ready.wellFormed m (by simp [Items.sent, member])
      live := closedLive
      bytes := by
        rw [closedLeft]
        simp [Sent.data] }
  have othersFree : ∀ other ∈ others.names, filled.world.fs.node (place ++ [other]) = none := by
    intro other member
    have different : other ≠ name := by
      rintro rfl
      exact nodup.1 member
    rw [← view_eq_none_iff, dir.placed, Items.placed_append]
    simp only [Items.find, List.cons.injEq, different, and_true, if_false,
      List.head?_cons, Option.some.injEq, Option.none_or]
    exact view_eq_none_iff.mpr (free other (by simp [Items.names, member]))
  obtain ⟨after, runs, stored⟩ := outer _ place rest othersReady nodup.2 othersFree nested
  refine ⟨after, ?_, ?_⟩
  · have count :
        others.sent.length + (1 + (items.sent.length + 1)) =
          (Items.dir times mode name items closing others).sent.length := by
      simp only [Items.sent, List.length_cons, List.length_append]
      omega
    rw [← count]
    exact (fills.trans (reaches_of_turn shut)).trans runs
  · refine ⟨stored.standing, stored.numDirs, stored.dest.trans backNames, stored.temps, ?_,
      stored.live, stored.bytes, dir.placed.dir_followed stored.placed nodup.1⟩
    rw [stored.quota, dir.quota, Items.sizes, List.foldl_append]

/-- Any items are stored. -/
theorem items_run (env : Undisturbed cmd os) (items : Items) : RunsIn cmd settings os items := by
  induction items with
  | nil => exact runsIn_nil
  | file times mode name content others run => exact runsIn_file env run times mode name content
  | dir times mode name items closing others inner outer =>
    exact runsIn_dir env inner outer times mode name closing

end Run

/-! ## Whole sessions -/

theorem length_le_wire (items : Items) : items.sent.length ≤ items.wire.length := by
  unfold Items.wire
  induction items.sent with
  | nil => simp
  | cons m messages ih =>
    have long := Channel.length_lt_messageParts m.times m.line
    simp only [stepsOf, List.flatMap_cons, List.flatten_append,
      List.length_append, Sent.steps, List.length_cons]
    unfold stepsOf at ih
    omega

theorem wire_eq_nil_iff : items.wire = [] ↔ items = .nil := by
  constructor
  · intro empty
    have short := length_le_wire items
    rw [empty, List.length_nil] at short
    cases items with
    | nil => rfl
    | file times mode name content rest => simp [Items.sent] at short
    | dir times mode name items closing rest => simp [Items.sent] at short
  · rintro rfl
    rfl

/-- The session ended well, all of it has been received, and every file and
every directory is at its path below `place`. -/
def StoresEverything (place : Loc) (items : Items) (state : ScpState) : Prop :=
  state.result = .ok ∧ state.channel.bytes = [] ∧
    ∀ entry ∈ items.entries, state.world.fs.view (place ++ entry.1) = some entry.2

/-- A file can be put at `name` in the destination: the name is free or
belongs to a file, or in atomic mode to a link that leads nowhere. -/
def FileFits (c : Connection) (settings : Settings) (fs : FileSys)
    (destPath : Str) (place : Loc) (name : Str) : Prop :=
  match fs.view (place ++ [name]) with
  | none => True
  | some (.file _) => True
  | some .dir => False
  | some (.symlink _) =>
    settings.Atomic ∧ fs.stat (objectPath c destPath name) = .error .noent

/-- The session is one item whose place is free. -/
def OneFits (c : Connection) (settings : Settings) (fs : FileSys)
    (destPath : Str) (place : Loc) : Items → Prop
  | .file _ _ name _ .nil => FileFits c settings fs destPath place name
  | .dir _ _ name _ _ .nil => fs.node (place ++ [name]) = none
  | _ => False

section Session

variable {cmd : ScpCommand} {settings : Settings} {os : Nat → Os}
    {s : SinkState} {place : Loc} {name : Str}

theorem fileFits_of_landing {fs after : FileSys} {destPath : Str} {loc : Loc} {content : List Char}
    (standing : Standing cmd fs destPath place) (proper : Proper name)
    (lands : landing settings fs (objectPath cmd.connection destPath name) = some loc) (started :
      fs.stat (objectPath cmd.connection destPath name) = .error .noent ∨
        ∃ ino, fs.node loc = some (.file ino))
    (updated : UpdatedAt fs after loc (some (.file content)))
    (seen : after.view (place ++ [name]) = some (.file content)) :
    FileFits cmd.connection settings fs destPath place name := by
  obtain ⟨left, slot⟩ := standing.slot proper
  unfold FileFits
  rw [updated] at seen
  by_cases here : place ++ [name] = loc
  swap
  · rw [if_neg here] at seen
    rw [seen]
    trivial
  subst here
  rcases started with missing | ⟨ino, entry⟩
  swap
  · have view : fs.view (place ++ [name]) = some (.file (fs.inode ino).data) := by
      simp [view, entry]
    rw [view]
    trivial
  cases looked : fs.view (place ++ [name]) with
  | none => trivial
  | some view =>
    cases view with
    | file data => trivial
    | dir => exact slot.ne_entry_of_missing missing (Or.inl (view_eq_dir_iff.mp looked)) rfl
    | symlink target =>
      refine ⟨?_, missing⟩
      by_contra inPlace
      -- in place the content lands where nothing was
      rw [landing_new missing, if_neg inPlace] at lands
      have absent := node_of_stuckAt lands
      rw [view_eq_none_iff.mpr absent] at looked
      cases looked

theorem room_released {user : User} {w : World} (size : Nat)
    (room : settings.provider.trackQuota = 0 ∨ Room user true (w.quota user.username)) :
    settings.provider.trackQuota = 0 ∨ Room user true (released settings user w size) := by
  rcases room with off | room
  · exact Or.inl off
  right
  rw [released, World.updateUserQuota_own]
  cases used : w.quota user.username with
  | none =>
    rw [used] at room
    exact room
  | some counters =>
    rw [used] at room
    rw [Option.map_some]
    split
    · obtain ⟨files, bytes⟩ := room
      refine ⟨fun full => files ⟨full.1, full.2.1, ?_⟩, fun full => bytes ⟨full.1, ?_⟩⟩
      · simpa using full.2.2
      · have less := full.2
        simp only at less
        omega
    · exact room

theorem handleUpload_fits (env : Undisturbed cmd os)
    (standing : Standing cmd s.world.fs s.destPath place)
    (temps : TempsFree settings os s.world.fs) (proper : Proper name)
    (fits : FileFits cmd.connection settings s.world.fs s.destPath place name) (room :
      settings.provider.trackQuota = 0 ∨
        Room cmd.connection.user true (s.world.quota cmd.connection.user.username))
    {content rest : List Char} {ch : Channel} (live : ch.Live)
    (bytes : ch.bytes = (content ++ okMsg) ++ rest) :
    ∃ after answered,
      cmd.uploadNamed settings (os s.index) s.world ch s.destPath name content.length =
        ⟨⟨after, answered, .ok⟩, content.length⟩ ∧
      answered.bytes = rest ∧
      UpdatedAt s.world.fs after.fs (place ++ [name]) (some (.file content)) := by
  obtain ⟨left, slot⟩ := standing.slot proper
  have fresh := temps.tempFresh slot s.index
  have stores :
      s.world.fs.stat (objectPath cmd.connection s.destPath name) = .error .noent →
        (settings.Atomic ∨ s.world.fs.node (place ++ [name]) = none) →
        ∃ after answered,
          cmd.uploadNamed settings (os s.index) s.world ch s.destPath name content.length =
            ⟨⟨after, answered, .ok⟩, content.length⟩ ∧
          answered.bytes = rest ∧
          UpdatedAt s.world.fs after.fs (place ++ [name]) (some (.file content)) := by
    intro missing free
    obtain ⟨after, answered, talks, done, lands, ⟨loc, landed, updated⟩, _⟩ :=
      handleUpload_new_in standing env.home (env.quiet s.index) proper fresh
        live bytes env.upload missing free room
    rw [lands] at landed
    cases landed
    exact ⟨after, answered, done, talks.bytes bytes, updated⟩
  unfold FileFits at fits
  cases seen : s.world.fs.view (place ++ [name]) with
  | none =>
    have absent := view_eq_none_iff.mp seen
    exact stores (standing.inside.stat_absent proper absent) (Or.inr absent)
  | some view =>
    rw [seen] at fits
    cases view with
    | dir => exact fits.elim
    | symlink target => exact stores fits.2 (Or.inl fits.1)
    | file data =>
      obtain ⟨ino, entry⟩ := node_of_view_file seen
      obtain ⟨after, answered, talks, done, updated⟩ :=
        handleUpload_over_in standing env.home (env.quiet s.index) proper
          fresh live bytes env.upload entry (room_released _ room)
      exact ⟨after, answered, done, talks.bytes bytes, updated⟩

/-- Outside every directory the loop ends with the first file. -/
theorem sinkFrom_file {times : List Str} {mode : Str} {content rest : List Char}
    (wellFormed : (Sent.file times mode name content).WellFormed) (live : s.channel.Live)
    (bytes : s.channel.bytes = (Sent.file times mode name content).steps.flatten ++ rest)
    (top : s.numDirs = 0) :
    ∃ next : Channel, next.Live ∧
      next.bytes = (content ++ okMsg) ++ rest ∧
      ∀ fuel, cmd.sinkFrom settings os (fuel + 1) s =
        (cmd.uploadNamed settings (os s.index) s.world next s.destPath name
          content.length).toScpState := by
  obtain ⟨next, nextLive, left, turned⟩ := @turn_message cmd settings os _ s _ wellFormed live bytes
  refine ⟨next, nextLive, by rw [left]; simp [Sent.data], fun fuel => ?_⟩
  rw [ScpCommand.sinkFrom_succ, turned]
  simp only [Sent.message, ScpCommand.handleMessage, top, if_true]
  by_cases stored : (cmd.uploadNamed settings (os s.index) s.world next s.destPath name
      content.length).result = .ok
  · rw [if_pos stored]
    simp only [← stored]
  · rw [if_neg stored]

theorem sinkFrom_dir (env : Undisturbed cmd os) {items others : Items}
    {times closing : List Str} {mode : Str} {rest : List Char}
    (ready : Ready cmd settings os s place (.dir times mode name items closing others) rest)
    (free : s.world.fs.node (place ++ [name]) = none) (top : s.numDirs = 0) :
    ∃ state : ScpState, state.result = .ok ∧
      state.channel.bytes = others.wire ++ rest ∧
      Placed s.world.fs state.world.fs place (.dir times mode name items closing .nil) ∧
      ∀ fuel, cmd.sinkFrom settings os (fuel + (items.sent.length + 2)) s = state := by
  have closingFormed : (Sent.endDir closing).WellFormed := ready.wellFormed _ (by simp [Items.sent])
  obtain ⟨filled, fills, dir⟩ := dir_filled env (items_run env items) ready free (by omega)
  obtain ⟨closed, closedLive, closedLeft, closedTurn⟩ :=
    @turn_message cmd settings os _ filled _ closingFormed dir.live dir.bytes
  obtain ⟨last, answer⟩ := Channel.sendConfirmationMessage_dialogue closedLive
  have outermost : filled.numDirs - 1 = 0 := by
    rw [dir.numDirs, top]
    omega
  refine ⟨⟨filled.world, last, .ok⟩, rfl, ?_, dir.placed, fun fuel => ?_⟩
  · refine answer.talks.bytes ?_
    rw [closedLeft]
    simp [Sent.data]
  · have split : fuel + (items.sent.length + 2) = fuel + 1 + (items.sent.length + 1) := by
      omega
    rw [split, fills, ScpCommand.sinkFrom_succ, closedTurn]
    simp only [Sent.message, ScpCommand.handleMessage, outermost, if_true, answer.whole]

theorem sinkFrom_dir_taken (env : Undisturbed cmd os) {items others : Items}
    {times closing : List Str} {mode : Str} {rest : List Char}
    (ready : Ready cmd settings os s place (.dir times mode name items closing others) rest)
    (taken : s.world.fs.node (place ++ [name]) ≠ none) (fuel : Nat) :
    (cmd.sinkFrom settings os (fuel + 1) s).result ≠ .ok := by
  obtain ⟨next, _, _, turned⟩ :=
    @turn_message cmd settings os _ s _
      (ready.wellFormed _ (by simp [Items.sent])) ready.live ready.dir_bytes
  have refused :=
    @handleCreateDir_taken cmd (os s.index) s.world s.destPath name place
      ready.standing env.home ready.tree.1 taken next
  rw [ScpCommand.sinkFrom_succ, turned]
  simp only [Sent.message, ScpCommand.handleMessage, refused, if_false]
  exact refused

theorem handleRecursiveUpload_eq {w : World} {ch : Channel} {destPath : Str}
    (given : cmd.getDestPath = some destPath) :
    cmd.handleRecursiveUpload settings w ch os =
      cmd.sinkFrom settings os (ch.pending + 1) ⟨0, 0, destPath, w, ch⟩ := by
  simp only [ScpCommand.handleRecursiveUpload, given, ScpCommand.sinkFrom]

theorem handleRecursiveUpload_dir
    (env : Undisturbed cmd os) {w : World} {ch : Channel} {destPath : Str}
    {items others : Items} {times closing : List Str} {mode : Str}
    (given : cmd.getDestPath = some destPath) (ready :
      Ready cmd settings os ⟨0, 0, destPath, w, ch⟩ place
        (.dir times mode name items closing others) [])
    (free : w.fs.node (place ++ [name]) = none) :
    (cmd.handleRecursiveUpload settings w ch os).result = .ok ∧
      (cmd.handleRecursiveUpload settings w ch os).channel.bytes = others.wire ∧
      Placed w.fs (cmd.handleRecursiveUpload settings w ch os).world.fs place
        (.dir times mode name items closing .nil) := by
  obtain ⟨state, ok, left, placed, ends⟩ :=
    @sinkFrom_dir cmd settings os ⟨0, 0, destPath, w, ch⟩ place name env
      items others times closing mode [] ready free rfl
  -- Every message has at least one byte, so the fuel is enough.
  have long := length_le_wire (.dir times mode name items closing others)
  have bytes := ready.bytes
  simp only [List.append_nil] at bytes left
  have enough :
      ch.pending + 1 = ch.pending - (items.sent.length + 1) + (items.sent.length + 2) := by
    rw [Channel.pending_eq_length, bytes]
    simp only [Items.sent, List.length_cons, List.length_append] at long
    omega
  rw [handleRecursiveUpload_eq given, enough, ends]
  exact ⟨ok, left, placed⟩

end Session

/-- A session to an existing directory is stored as a whole exactly if it is
one item whose place is free. -/
theorem stores_everything_iff {cmd : ScpCommand} {settings : Settings} {os : Nat → Os} {w : World}
    {ch : Channel} {destPath : Str} {place : Loc} {items : Items}
    (env : Undisturbed cmd os) (given : cmd.getDestPath = some destPath)
    (standing : Standing cmd w.fs destPath place) (temps : TempsFree settings os w.fs)
    (plain : NamesPlain settings os items.allNames) (enough :
      Enough settings cmd.connection.user (w.quota cmd.connection.user.username) items.sizes)
    (tree : items.Tree) (wellFormed : items.WellFormed) (live : ch.Live)
    (bytes : ch.bytes = items.wire) :
    StoresEverything place items (cmd.handleRecursiveUpload settings w ch os) ↔
      OneFits cmd.connection settings w.fs destPath place items := by
  have ready : Ready cmd settings os ⟨0, 0, destPath, w, ch⟩ place items [] :=
    ⟨standing, temps, plain, enough, tree, wellFormed, live,
      by rw [List.append_nil]; exact bytes⟩
  cases items with
  | nil =>
    obtain ⟨next, failed⟩ := received_empty cmd os (s := ⟨0, 0, destPath, w, ch⟩) live bytes
    rw [handleRecursiveUpload_eq given, ScpCommand.sinkFrom_succ]
    simp [ScpCommand.turn, failed, StoresEverything, OneFits]
  | file times mode name content others =>
    have arrives : ch.bytes = (Sent.file times mode name content).steps.flatten ++ others.wire := by
      rw [bytes]
      simp [Items.wire, Items.sent, stepsOf]
    obtain ⟨next, nextLive, nextBytes, ends⟩ :=
      @sinkFrom_file cmd settings os ⟨0, 0, destPath, w, ch⟩ name times mode
        content others.wire (wellFormed _ (by simp [Items.sent])) live
        arrives rfl
    rw [handleRecursiveUpload_eq given, ends]
    obtain ⟨left, slot⟩ := standing.slot tree.1
    constructor
    · rintro ⟨done, all, seen⟩
      obtain ⟨after, answered, loc, talks, whole, lands, started, updated⟩ :=
        handleUpload_ok_in standing env.home (env.quiet 0) tree.1
          (temps.tempFresh slot 0) nextLive nextBytes done
      rw [whole] at all seen
      have nothing : others = .nil := by
        rw [← wire_eq_nil_iff, ← talks.bytes nextBytes]
        exact all
      subst nothing
      exact fileFits_of_landing standing tree.1 lands started updated
        (seen ([name], .file content) (by simp [Items.entries]))
    · intro fits
      cases others with
      | file _ _ _ _ _ => exact fits.elim
      | dir _ _ _ _ _ _ => exact fits.elim
      | nil =>
        obtain ⟨after, answered, done, rest, updated⟩ :=
          @handleUpload_fits cmd settings os ⟨0, 0, destPath, w, ch⟩ place
            name env standing temps tree.1 fits enough.1 content _ next
            nextLive nextBytes
        rw [done]
        refine ⟨rfl, rest, ?_⟩
        intro entry member
        obtain rfl : entry = ([name], .file content) := by
          simpa [Items.entries] using member
        exact (updated _).trans (if_pos rfl)
  | dir times mode name items closing others =>
    by_cases free : w.fs.node (place ++ [name]) = none
    · obtain ⟨ok, left, placed⟩ :=
        @handleRecursiveUpload_dir cmd settings os place name env w ch
          destPath items others times closing mode given ready free
      cases others with
      | file _ _ _ _ _ => simp [StoresEverything, left, wire_eq_nil_iff, OneFits]
      | dir _ _ _ _ _ _ => simp [StoresEverything, left, wire_eq_nil_iff, OneFits]
      | nil =>
        simp only [OneFits, free, iff_true]
        refine ⟨ok, left, ?_⟩
        rintro ⟨path, view⟩ member
        have found := Items.find_of_mem_entries tree (by simp [Items.names]) member
        rw [placed, Items.placed_append, found]
        rfl
    · have refused :=
        @sinkFrom_dir_taken cmd settings os ⟨0, 0, destPath, w, ch⟩ place
          name env items others times closing mode [] ready free
      constructor
      · rintro ⟨done, _⟩
        rw [handleRecursiveUpload_eq given] at done
        exact (refused _ done).elim
      · intro fits
        cases others with
        | file _ _ _ _ _ => exact fits.elim
        | dir _ _ _ _ _ _ => exact fits.elim
        | nil => exact (free fits).elim

/-! ## Samples -/

def sourceSends (items : Items) : Channel :=
  ⟨[items.wire], [], [], false, none⟩

def nestedItems : Items :=
  .dir [] "0755".toList "d".toList
    (.file [] "0644".toList "f".toList "hi".toList
      (.dir [] "0755".toList "e".toList .nil [] .nil)) [] .nil

def twoFiles : Items :=
  .file [] "0644".toList "a".toList "x".toList (.file [] "0644".toList "b".toList "y".toList .nil)

theorem root_standing : Standing sinkCommand sampleWorld.fs "/".toList sampleHome := by
  have inside : Inside sinkCommand.connection sampleWorld.fs [] sampleHome :=
    ⟨by simp, ⟨40, by decide +kernel⟩, by decide +kernel, by decide +kernel,
      ⟨sampleHome, by decide +kernel, by decide +kernel,
        by decide +kernel⟩⟩
  exact ⟨by decide, inside, Or.inl (by decide)⟩

/-- One directory is sent to `/`. -/
theorem nested_items_stored :
    StoresEverything sampleHome nestedItems
      (sinkCommand.handleRecursiveUpload defaultSettings sampleWorld
        (sourceSends nestedItems) fun _ => sampleOs) :=
  (@stores_everything_iff sinkCommand defaultSettings
    (fun _ => sampleOs) sampleWorld (sourceSends nestedItems) "/".toList
    sampleHome nestedItems
    ⟨by decide, fun _ => Os.quiet_quiet _ _ _, by decide, by decide⟩
    (by decide) root_standing (fun atomic => absurd atomic (by decide))
    (fun atomic => absurd atomic (by decide)) (by decide) (by decide)
    (by decide) ⟨rfl, by decide⟩ (by decide)).mpr
    (show sampleWorld.fs.node ["srv".toList, "u".toList, "d".toList] = none by
      decide +kernel)

/-- Of two files the second is not read. -/
theorem second_file_not_stored :
    ¬ StoresEverything sampleHome twoFiles
      (sinkCommand.handleRecursiveUpload defaultSettings sampleWorld
        (sourceSends twoFiles) fun _ => sampleOs) := by
  rintro ⟨_, received, _⟩
  exact absurd received (by decide +kernel)

end Sshserv.Serv
