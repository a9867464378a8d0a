import Sshserv.Lib.Listing
import Sshserv.Lib.Tally
import Sshserv.Serv.World

/-!
# The walk of a quota scan

`utils.ScanDirContents` as a machine that takes one look at the tree at a
time.  Its state lists what `filepath.Walk` will look at next: an entry, or the
names in a directory whose entry it has seen.
-/

namespace Sshserv.Serv

open Lib UnixPath FileTree FileSys DataProvider

/-- What the walk does next. -/
inductive Visit where
  /-- Look at the entry behind a path. -/
  | entry (path : Str)
  /-- Read the names in a directory. -/
  | listing (path : Str)
  deriving DecidableEq

inductive Scan where
  | idle
  | walking (todo : List Visit) (numFiles size : Int)
  | ended
  deriving DecidableEq

namespace Scan

/-- The start of `ScanDirContents`: a failed `os.Stat` ends the scan, and
what is not a directory is not walked. -/
def start (os : Os) (fs : FileSys) (path : Str) : Scan :=
  match orFault os.stat (fs.stat path) with
  | .error _ => .ended
  | .ok fileInfo => if fileInfo.isDir then .walking [.entry path] 0 0 else .walking [] 0 0

/-- One look of `filepath.Walk`.  Every error ends the scan, since the walk
function returns it. -/
def visit (os : Os) (fs : FileSys) : Scan → Scan
  | .walking (.entry path :: rest) numFiles size =>
    match orFault os.lstat (fs.lstat path) with
    | .error _ => .ended
    | .ok info =>
      match info.kind with
      | .dir => .walking (.listing path :: rest) numFiles size
      | .regular => .walking rest (numFiles + 1) (size + info.size)
      | .symlink => .walking rest numFiles size
  | .walking (.listing path :: rest) numFiles size =>
    match orFault os.readDir (fs.readDir path) with
    | .error _ => .ended
    | .ok infos =>
      .walking (infos.map (fun info => .entry (join path info.name)) ++ rest) numFiles size
  | scan => scan

end Scan

def World.resetUserQuota (w : World) (settings : Settings) (fault : Option ProviderError)
    (user : User) (numFiles size : Int) : World :=
  if settings.provider.trackQuota = 0 then w
  else
    match fault, w.quota user.username with
    | none, some _ =>
      { w with
        quota := fun name =>
          if name = user.username then some (numFiles, size)
          else w.quota name }
    | _, _ => w

theorem World.resetUserQuota_frame (w : World) (settings : Settings) (fault : Option ProviderError)
    (user : User) (numFiles size : Int) :
    ∃ quota, w.resetUserQuota settings fault user numFiles size = { w with quota := quota } := by
  unfold World.resetUserQuota
  split
  · exact ⟨w.quota, rfl⟩
  · split
    · exact ⟨_, rfl⟩
    · exact ⟨w.quota, rfl⟩

namespace Visit

def path : Visit → Str
  | .entry path => path
  | .listing path => path

/-- The location that the path of a visit spells. -/
def loc (item : Visit) : Loc :=
  cleanNames true item.path

/-- The files that a visit leads to. -/
def Covers (item : Visit) (place : Loc) : Prop :=
  item.loc <+: place ∧ (item = .listing item.path → item.loc ≠ place)

instance (item : Visit) (place : Loc) : Decidable (item.Covers place) :=
  inferInstanceAs (Decidable (_ ∧ _))

/-- A visit that would succeed now. -/
def Here (fs : FileSys) : Visit → Prop
  | .entry path => fs.node (cleanNames true path) ≠ none
  | .listing path => fs.isDirAt (cleanNames true path) = true

/-- The two visits lead to different parts of the tree. -/
def Apart (one two : Visit) : Prop :=
  ¬ one.loc <+: two.loc ∧ ¬ two.loc <+: one.loc

end Visit

/-- The walk will come to this location. -/
def Ahead (todo : List Visit) (place : Loc) : Prop :=
  ∃ item ∈ todo, item.Covers place

instance (todo : List Visit) (place : Loc) : Decidable (Ahead todo place) :=
  inferInstanceAs (Decidable (∃ item ∈ todo, item.Covers place))

/-- The walk will come to this location, and has not heard of it yet. -/
def Unseen (todo : List Visit) (place : Loc) : Prop :=
  ∃ item ∈ todo, item.loc <+: place ∧ item.loc ≠ place

instance (todo : List Visit) (place : Loc) : Decidable (Unseen todo place) :=
  inferInstanceAs (Decidable (∃ item ∈ todo, _ ∧ _))

/-- The files that the walk has counted or will not count any more. -/
def passed (home : Loc) (todo : List Visit) : Set Loc :=
  {place | home <+: place ∧ ¬ Ahead todo place}

/-- The objects that have to stay: those on the list, and the home
directory. -/
def awaited (home : Loc) (todo : List Visit) : Set Loc :=
  {place | place = home ∨ ∃ item ∈ todo, item.loc = place}

/-- The list leads to different parts of the home directory, and nothing on
it has disappeared. -/
structure Awaits (fs : FileSys) (home : Loc) (todo : List Visit) : Prop where
  directory : fs.isDirAt home = true
  spelled : ∀ item ∈ todo, item.path = render item.loc
  below : ∀ item ∈ todo, home <+: item.loc
  here : ∀ item ∈ todo, item.Here fs
  apart : todo.Pairwise Visit.Apart

section Places

variable {todo : List Visit} {home place : Loc}

theorem Visit.Covers.extend {item : Visit} (covers : item.Covers place) (rest : Loc) :
    item.Covers (place ++ rest) := by
  refine ⟨covers.1.trans (List.prefix_append place rest), ?_⟩
  intro listing here
  apply covers.2 listing
  apply covers.1.eq_of_length
  have short := covers.1.length_le
  rw [here, List.length_append] at short
  rw [here, List.length_append]
  omega

theorem Ahead.extend (ahead : Ahead todo place) (rest : Loc) : Ahead todo (place ++ rest) := by
  obtain ⟨item, member, covers⟩ := ahead
  exact ⟨item, member, covers.extend rest⟩

theorem Ahead.mono {other : Loc} (ahead : Ahead todo place)
    (below : place <+: other) : Ahead todo other := by
  obtain ⟨rest, rfl⟩ := below
  exact ahead.extend rest

theorem Unseen.ahead (unseen : Unseen todo place) : Ahead todo place := by
  obtain ⟨item, member, below, different⟩ := unseen
  exact ⟨item, member, below, fun _ => different⟩

theorem Unseen.sibling {parent : Loc} {one : Str} (unseen : Unseen todo (parent ++ [one]))
    (two : Str) : Unseen todo (parent ++ [two]) := by
  obtain ⟨item, member, below, different⟩ := unseen
  have above : item.loc <+: parent := (List.prefix_concat_iff.mp below).resolve_left different
  refine ⟨item, member, above.trans (List.prefix_append parent [two]), ?_⟩
  intro same
  have short := above.length_le
  simp [same] at short

theorem apart_of_mem {fs : FileSys} (awaits : Awaits fs home todo) {one two : Visit}
    (first : one ∈ todo) (second : two ∈ todo) (below : one.loc <+: two.loc) :
    one = two := by
  by_contra different
  have symmetric : Std.Symm Visit.Apart := ⟨fun _ _ apart => apart.symm⟩
  exact (awaits.apart.forall first second different).1 below

theorem Unseen.not_above {fs : FileSys} (awaits : Awaits fs home todo)
    (unseen : Unseen todo place) :
    ∀ loc ∈ awaited home todo, ¬ place <+: loc := by
  obtain ⟨item, member, below, different⟩ := unseen
  intro loc kept above
  have outside : home <+: item.loc := awaits.below item member
  rcases kept with rfl | ⟨other, otherMember, rfl⟩
  · have short := (below.trans above).length_le
    have same := outside.eq_of_length (le_antisymm outside.length_le short)
    exact different (below.eq_of_length (le_antisymm below.length_le (same ▸ above.length_le)))
  · have same := apart_of_mem awaits member otherMember (below.trans above)
    subst same
    exact different (below.eq_of_length (le_antisymm below.length_le above.length_le))

end Places

/-- The numbers are those of the files that the walk has passed. -/
structure Walked (fs : FileSys) (home : Loc) (todo : List Visit) (numFiles size : Int) : Prop where
  awaits : Awaits fs home todo
  counted : fs.tally (passed home todo) = (numFiles, size)

/-- What the operating system must not refuse to the next look.  File systems
have no other names than proper ones. -/
def Calm (os : Os) (fs : FileSys) : List Visit → Prop
  | [] => True
  | .entry _ :: _ => os.lstat = none
  | .listing path :: _ =>
    os.readDir = none ∧ ∀ info ∈ fs.listed (cleanNames true path), Proper info.name

instance (os : Os) (fs : FileSys) (todo : List Visit) : Decidable (Calm os fs todo) :=
  match todo with
  | [] => inferInstanceAs (Decidable True)
  | .entry _ :: _ => inferInstanceAs (Decidable (_ = _))
  | .listing _ :: _ => inferInstanceAs (Decidable (_ ∧ _))

section Visits

variable {fs : FileSys} {home place : Loc} {todo next rest : List Visit} {path : Str}

@[simp]
theorem not_ahead_nil : ¬ Ahead [] place := by
  simp [Ahead]

variable {item : Visit} {os : Os} {numFiles size : Int}

@[simp]
theorem ahead_cons : Ahead (item :: rest) place ↔ item.Covers place ∨ Ahead rest place := by
  simp [Ahead]

@[simp]
theorem ahead_append : Ahead (todo ++ rest) place ↔ Ahead todo place ∨ Ahead rest place := by
  simp [Ahead, or_and_right, exists_or]

@[simp]
theorem covers_entry : (Visit.entry path).Covers place ↔ cleanNames true path <+: place := by
  simp [Visit.Covers, Visit.loc, Visit.path]

@[simp]
theorem covers_listing :
    (Visit.listing path).Covers place ↔
      cleanNames true path <+: place ∧ cleanNames true path ≠ place := by
  simp [Visit.Covers, Visit.loc, Visit.path]

theorem Awaits.not_ahead (awaits : Awaits fs home (item :: rest)) : ¬ Ahead rest item.loc := by
  rintro ⟨other, member, covers⟩
  exact ((List.pairwise_cons.mp awaits.apart).1 other member).2 covers.1

theorem tally_passed_insert (below : home <+: place) (was : Ahead todo place)
    (gone : ¬ Ahead next place)
    (others : ∀ loc, loc ≠ place → weight (fs.view loc) ≠ 0 → (Ahead next loc ↔ Ahead todo loc)) :
    fs.tally (passed home next) = fs.tally (passed home todo) + weight (fs.view place) := by
  have new : place ∉ passed home todo := fun inside => inside.2 was
  rw [← tally_insert new]
  apply tally_congr
  intro loc file
  by_cases here : loc = place
  · simp [here, passed, below, gone]
  · simp [here, passed, others loc here file]

theorem Awaits.leaf (awaits : Awaits fs home (.entry path :: rest))
    (notDir : fs.isDirAt (cleanNames true path) = false) :
    Awaits fs home rest ∧
      fs.tally (passed home rest) =
        fs.tally (passed home (.entry path :: rest)) + weight (fs.view (cleanNames true path)) := by
  constructor
  · exact ⟨awaits.directory,
      fun item member => awaits.spelled item (List.mem_cons_of_mem _ member),
      fun item member => awaits.below item (List.mem_cons_of_mem _ member),
      fun item member => awaits.here item (List.mem_cons_of_mem _ member),
      (List.pairwise_cons.mp awaits.apart).2⟩
  · apply tally_passed_insert
    · exact awaits.below _ List.mem_cons_self
    · simp
    · exact awaits.not_ahead
    · intro loc different file
      rw [ahead_cons, covers_entry, or_iff_right]
      intro below
      exact different (eq_of_leaf notDir (node_of_weight file) below)

theorem Awaits.directory_seen (awaits : Awaits fs home (.entry path :: rest))
    (isDir : fs.isDirAt (cleanNames true path)) :
    Awaits fs home (.listing path :: rest) ∧
      fs.tally (passed home (.listing path :: rest)) =
        fs.tally (passed home (.entry path :: rest)) := by
  have spelled := awaits.spelled _ List.mem_cons_self
  have below : home <+: cleanNames true path := awaits.below _ List.mem_cons_self
  obtain ⟨first, others⟩ := List.pairwise_cons.mp awaits.apart
  constructor
  · refine ⟨awaits.directory, ?_, ?_, ?_, List.pairwise_cons.mpr ⟨first, others⟩⟩
    · rintro item (_ | ⟨_, member⟩)
      · exact spelled
      · exact awaits.spelled item (List.mem_cons_of_mem _ member)
    · rintro item (_ | ⟨_, member⟩)
      · exact below
      · exact awaits.below item (List.mem_cons_of_mem _ member)
    · rintro item (_ | ⟨_, member⟩)
      · exact isDir
      · exact awaits.here item (List.mem_cons_of_mem _ member)
  · have nothing : weight (fs.view (cleanNames true path)) = 0 := by
      rw [view_eq_dir_iff.mpr isDir]
      rfl
    have was : Ahead (.entry path :: rest) (cleanNames true path) := by simp
    rw [tally_passed_insert below was]
    · simp [nothing]
    · rw [ahead_cons, covers_listing, not_or]
      exact ⟨fun covers => covers.2 rfl, awaits.not_ahead⟩
    · intro loc different _
      have other : cleanNames true path ≠ loc := Ne.symm different
      simp [other]

theorem loc_child {loc : Loc} (proper : ProperNames loc) {text : Str} (textProper : Proper text) :
    (Visit.entry (join (render loc) text)).loc = loc ++ [text] := by
  have both : ProperNames (loc ++ [text]) :=
    List.forall_mem_append.mpr ⟨proper, List.forall_mem_singleton.mpr textProper⟩
  rw [Visit.loc, Visit.path, join_render_name proper textProper, cleanNames_render both]

section Listing

variable (awaits : Awaits fs home (.listing path :: rest))
    (proper : ∀ info ∈ fs.listed (cleanNames true path), Proper info.name)
include awaits proper

theorem Awaits.loc_listed {info : FileInfo} (member : info ∈ fs.listed (cleanNames true path)) :
    (Visit.entry (join path info.name)).loc = cleanNames true path ++ [info.name] := by
  have spelled : path = render (cleanNames true path) := awaits.spelled _ List.mem_cons_self
  rw [spelled, cleanNames_render (cleanNames_proper path)]
  exact loc_child (cleanNames_proper path) (proper info member)

theorem Awaits.apart_listed :
    ((fs.listed (cleanNames true path)).map
        (fun info => Visit.entry (join path info.name)) ++ rest).Pairwise
      Visit.Apart := by
  obtain ⟨first, others⟩ := List.pairwise_cons.mp awaits.apart
  rw [List.pairwise_append]
  refine ⟨?_, others, ?_⟩
  · rw [List.pairwise_map]
    have names := fs.nodup_listed_names (cleanNames true path)
    rw [List.Nodup, List.pairwise_map] at names
    refine names.imp_of_mem ?_
    intro one two oneMember twoMember different
    unfold Visit.Apart
    rw [awaits.loc_listed proper oneMember, awaits.loc_listed proper twoMember]
    constructor
    · intro above
      exact different (by simpa using above.eq_of_length (by simp))
    · intro above
      exact different (by simpa using (above.eq_of_length (by simp)).symm)
  · intro item new other old
    obtain ⟨info, inside, rfl⟩ := List.mem_map.mp new
    have apart := first other old
    unfold Visit.Apart
    rw [awaits.loc_listed proper inside]
    constructor
    · intro above
      exact apart.1 ((List.prefix_append _ _).trans above)
    · intro above
      rcases List.prefix_concat_iff.mp above with here | inner
      · exact apart.1 (here ▸ List.prefix_append _ _)
      · exact apart.2 inner

theorem Awaits.ahead_listed_iff (present : fs.node place ≠ none) :
    Ahead ((fs.listed (cleanNames true path)).map
        fun info => Visit.entry (join path info.name)) place ↔
      (Visit.listing path).Covers place := by
  rw [covers_listing]
  constructor
  · rintro ⟨item, member, covers⟩
    obtain ⟨info, inside, rfl⟩ := List.mem_map.mp member
    have above := covers.1
    rw [awaits.loc_listed proper inside] at above
    refine ⟨(List.prefix_append _ _).trans above, ?_⟩
    rintro rfl
    simpa using above.length_le
  · rintro ⟨⟨more, rfl⟩, different⟩
    cases more with
    | nil => simp at different
    | cons text deeper =>
      have listed : fs.node (cleanNames true path ++ [text]) ≠ none := by
        intro absent
        have hollow : fs.isDirAt (cleanNames true path ++ [text]) = false := by
          simp [isDirAt, absent]
        apply present
        by_cases last : deeper = []
        · rw [last, absent]
        · simpa using fs.node_below_notDir hollow deeper last
      obtain ⟨info, inside, rfl⟩ := List.mem_map.mp (mem_listed_names_iff.mpr listed)
      refine ⟨_, List.mem_map_of_mem inside, ?_⟩
      have here := awaits.loc_listed proper inside
      rw [Visit.loc, Visit.path] at here
      rw [covers_entry, here]
      exact ⟨deeper, by simp⟩

theorem Awaits.listed :
    let todo :=
      (fs.listed (cleanNames true path)).map (fun info => Visit.entry (join path info.name)) ++ rest
    Awaits fs home todo ∧
      fs.tally (passed home todo) = fs.tally (passed home (.listing path :: rest)) := by
  intro todo
  have spelled : path = render (cleanNames true path) := awaits.spelled _ List.mem_cons_self
  have below : home <+: cleanNames true path := awaits.below _ List.mem_cons_self
  constructor
  · refine ⟨awaits.directory, ?_, ?_, ?_, awaits.apart_listed proper⟩
    · intro item member
      rcases List.mem_append.mp member with new | old
      · obtain ⟨info, inside, rfl⟩ := List.mem_map.mp new
        rw [awaits.loc_listed proper inside, Visit.path]
        conv_lhs => rw [spelled]
        exact join_render_name (cleanNames_proper path) (proper info inside)
      · exact awaits.spelled item (List.mem_cons_of_mem _ old)
    · intro item member
      rcases List.mem_append.mp member with new | old
      · obtain ⟨info, inside, rfl⟩ := List.mem_map.mp new
        rw [awaits.loc_listed proper inside]
        exact below.trans (List.prefix_append _ _)
      · exact awaits.below item (List.mem_cons_of_mem _ old)
    · intro item member
      rcases List.mem_append.mp member with new | old
      · obtain ⟨info, inside, rfl⟩ := List.mem_map.mp new
        change fs.node (Visit.entry (join path info.name)).loc ≠ none
        rw [awaits.loc_listed proper inside]
        exact mem_listed_names_iff.mp (List.mem_map_of_mem inside)
      · exact awaits.here item (List.mem_cons_of_mem _ old)
  · apply tally_congr
    intro loc file
    simp only [passed, Set.mem_ofPred_eq, todo, ahead_append, ahead_cons,
      awaits.ahead_listed_iff proper (node_of_weight file)]

end Listing

/-- One look adds what leaves the part that is still ahead. -/
theorem Scan.visit_counts (walked : Walked fs home todo numFiles size) (calm : Calm os fs todo) :
    ∃ next files bytes, Scan.visit os fs (.walking todo numFiles size) = .walking next files bytes ∧
        Walked fs home next files bytes := by
  obtain ⟨awaits, counted⟩ := walked
  cases todo with
  | nil => exact ⟨[], numFiles, size, rfl, awaits, counted⟩
  | cons item rest =>
    cases item with
    | entry path =>
      have spelled : path = render (cleanNames true path) := awaits.spelled _ List.mem_cons_self
      have present : fs.node (cleanNames true path) ≠ none := awaits.here _ List.mem_cons_self
      have found : fs.entryLoc path = .ok (cleanNames true path) := by
        conv_lhs => rw [spelled]
        exact entryLoc_physical (cleanNames_proper path) present
      have faultless : os.lstat = none := calm
      simp only [Scan.visit, faultless, orFault, lstat, found, statAt]
      cases node : fs.node (cleanNames true path) with
      | none => exact absurd node present
      | some object =>
        cases object with
        | dir attr =>
          obtain ⟨next, same⟩ := awaits.directory_seen (isDirAt_of_node_dir node)
          simp only [infoAt, node]
          exact ⟨_, _, _, rfl, next, same.trans counted⟩
        | file ino =>
          obtain ⟨next, more⟩ := awaits.leaf (by simp [isDirAt, node, Node.isDir])
          simp only [infoAt, node]
          refine ⟨_, _, _, rfl, next, ?_⟩
          rw [more, counted, weight_view_file node, sizeAt_file node]
          rfl
        | symlink target attr =>
          obtain ⟨next, same⟩ := awaits.leaf (by simp [isDirAt, node, Node.isDir])
          simp only [infoAt, node]
          refine ⟨_, _, _, rfl, next, ?_⟩
          rw [same, counted, view, node]
          simp
    | listing path =>
      have spelled : path = render (cleanNames true path) := awaits.spelled _ List.mem_cons_self
      have isDir : fs.isDirAt (cleanNames true path) = true := awaits.here _ List.mem_cons_self
      have leads : fs.resolve path = .found (cleanNames true path) kernelLinkLimit := by
        conv_lhs => rw [spelled]
        rw [FileSys.resolve, walk_elems_render _ (cleanNames_proper path)]
        exact walk_physical_dir kernelLinkLimit isDir
      obtain ⟨faultless, proper⟩ := calm
      obtain ⟨next, same⟩ := awaits.listed proper
      simp only [Scan.visit, faultless, orFault, readDir_of_resolve leads isDir]
      exact ⟨_, _, _, rfl, next, same.trans counted⟩

theorem awaits_home (proper : ProperNames home) (directory : fs.isDirAt home) :
    Awaits fs home [.entry (render home)] := by
  obtain ⟨attr, node⟩ := isDirAt_iff.mp directory
  have spelled : (Visit.entry (render home)).loc = home := cleanNames_render proper
  refine ⟨directory, ?_, ?_, ?_, List.pairwise_singleton _ _⟩
  · simp [spelled, Visit.path]
  · simp [spelled]
  · simp [Visit.Here, cleanNames_render proper, node]

theorem Scan.start_counts (calm : os.stat = none) (proper : ProperNames home)
    (directory : fs.isDirAt home) :
    Scan.start os fs (render home) = .walking [.entry (render home)] 0 0 ∧
      Walked fs home [.entry (render home)] 0 0 := by
  obtain ⟨attr, node⟩ := isDirAt_iff.mp directory
  have leads : fs.stat (render home) = .ok ⟨home.getLastD ['/'], .dir, fs.dirSize, attr⟩ := by
    rw [stat_eq_ok_iff]
    refine ⟨home, kernelLinkLimit, ?_, by simp [infoAt, node]⟩
    rw [FileSys.resolve, walk_elems_render _ proper]
    exact walk_physical_dir kernelLinkLimit directory
  refine ⟨?_, awaits_home proper directory, ?_⟩
  · simp [Scan.start, calm, orFault, leads, FileInfo.isDir]
  · have nothing : passed home [.entry (render home)] = ∅ := by
      ext loc
      simp [passed, cleanNames_render proper]
    rw [nothing, tally_empty]
    rfl

theorem Walked.shift {after : FileSys} (walked : Walked fs home todo numFiles size)
    (shift : Shift (passed home todo) (awaited home todo) 0 fs after) :
    Walked after home todo numFiles size := by
  obtain ⟨awaits, counted⟩ := walked
  have member : ∀ item ∈ todo, item.loc ∈ awaited home todo :=
    fun item inside => Or.inr ⟨item, inside, rfl⟩
  refine ⟨⟨shift.directory home (Or.inl rfl) awaits.directory,
    awaits.spelled, awaits.below, ?_, awaits.apart⟩, ?_⟩
  · intro item inside
    have now := awaits.here item inside
    cases item with
    | entry path => exact shift.present _ (member _ inside) now
    | listing path => exact shift.directory _ (member _ inside) now
  · rw [shift.tally, add_zero]
    exact counted

/-- A walk that has come to its end has passed everything. -/
theorem Walked.total (walked : Walked fs home [] numFiles size) :
    fs.tally {loc | home <+: loc} = (numFiles, size) := by
  rw [← walked.counted]
  congr 1
  ext loc
  simp [passed]

end Visits

end Sshserv.Serv
