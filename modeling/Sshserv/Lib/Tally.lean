import Sshserv.Lib.Growth

/-!
# Adding up the files of a region

`tally` is the number and the total size of the regular files in a set of
locations.  `Shift region held delta` is what an operation does to a tally
while the objects in `held` stay where they are; shifts add up.
-/

namespace Sshserv.Lib.FileTree

open Lib.UnixPath

namespace FileSys

/-- What an object adds to the number of files and to their size. -/
def weight : Option View → Int × Int
  | some (.file data) => (1, data.length)
  | _ => 0

@[simp]
theorem weight_none : weight none = 0 := rfl

@[simp]
theorem weight_dir : weight (some .dir) = 0 := rfl

@[simp]
theorem weight_symlink (target : Str) : weight (some (.symlink target)) = 0 := rfl

@[simp]
theorem weight_file (data : List Char) :
    weight (some (.file data)) = (1, (data.length : Int)) := rfl

open scoped Classical in
noncomputable def tally (fs : FileSys) (region : Set Loc) : Int × Int :=
  ∑ loc ∈ fs.locs with loc ∈ region, weight (fs.view loc)

variable {fs before middle after : FileSys} {region held : Set Loc}

variable {loc place : Loc} {one two : Set Loc}

theorem view_of_notMem_locs (absent : loc ∉ fs.locs) : fs.view loc = none := by
  rw [view_eq_none_iff]
  by_contra present
  exact absent ((fs.mem_locs loc).mpr present)

open scoped Classical in
theorem tally_eq_sum {places : Finset Loc} (covers : fs.locs ⊆ places) :
    fs.tally region = ∑ loc ∈ places, if loc ∈ region then weight (fs.view loc) else 0 := by
  unfold tally
  rw [Finset.sum_filter]
  apply Finset.sum_subset covers
  intro loc _ absent
  rw [view_of_notMem_locs absent, weight_none, ite_self]

@[simp]
theorem tally_empty (fs : FileSys) : fs.tally ∅ = 0 := by
  simp [tally]

theorem tally_congr (same : ∀ loc, weight (fs.view loc) ≠ 0 → (loc ∈ one ↔ loc ∈ two)) :
    fs.tally one = fs.tally two := by
  classical
  rw [tally_eq_sum subset_rfl, tally_eq_sum subset_rfl]
  apply Finset.sum_congr rfl
  intro loc _
  by_cases nothing : weight (fs.view loc) = 0
  · simp [nothing]
  · simp [same loc nothing]

theorem tally_insert (new : loc ∉ region) :
    fs.tally (insert loc region) = fs.tally region + weight (fs.view loc) := by
  classical
  have covers : fs.locs ⊆ insert loc fs.locs := Finset.subset_insert _ _
  rw [tally_eq_sum covers, tally_eq_sum covers, ← sub_eq_iff_eq_add',
    ← Finset.sum_sub_distrib, Finset.sum_eq_single loc]
  · simp [new]
  · intro other _ different
    simp [different]
  · intro absent
    exact absurd (Finset.mem_insert_self _ _) absent

theorem node_of_weight (file : weight (fs.view loc) ≠ 0) : fs.node loc ≠ none := by
  intro absent
  rw [view_eq_none_iff.mpr absent] at file
  exact file rfl

theorem eq_of_leaf {leaf : Loc} (notDir : fs.isDirAt leaf = false)
    (present : fs.node loc ≠ none) (below : leaf <+: loc) :
    loc = leaf := by
  obtain ⟨more, rfl⟩ := below
  by_cases here : more = []
  · simp [here]
  · exact absurd (fs.node_below_notDir notDir more here) present

theorem not_prefix_of_leaf {leaf : Loc} (notDir : fs.isDirAt leaf = false)
    (directory : fs.isDirAt loc) : ¬ leaf <+: loc := by
  intro above
  have present : fs.node loc ≠ none := by
    intro absent
    simp [isDirAt, absent] at directory
  rw [eq_of_leaf notDir present above, notDir] at directory
  cases directory

theorem eq_of_childless (empty : fs.children place = ∅) (present : fs.node loc ≠ none)
    (below : place <+: loc) : loc = place := by
  obtain ⟨more, rfl⟩ := below
  cases more with
  | nil => simp
  | cons text rest =>
    have absent : fs.node (place ++ [text]) = none := by
      by_contra there
      have child : place ++ [text] ∈ fs.children place := by
        simp [children, fs.mem_locs, there]
      simp [empty] at child
    have notDir : fs.isDirAt (place ++ [text]) = false := by
      simp [isDirAt, absent]
    rw [List.append_cons] at present
    by_cases last : rest = []
    · simp [last, absent] at present
    · exact absurd (fs.node_below_notDir notDir rest last) present

theorem tally_leaf (leaf : fs.isDirAt place = false) :
    fs.tally {loc | place <+: loc} = weight (fs.view place) := by
  have same : fs.tally {loc | place <+: loc} = fs.tally (insert place ∅) := by
    apply tally_congr
    intro loc file
    simp only [Set.mem_ofPred_eq, insert_empty_eq, Set.mem_singleton_iff]
    constructor
    · exact eq_of_leaf leaf (node_of_weight file)
    · rintro rfl
      exact List.prefix_rfl
  rw [same, tally_insert (Set.notMem_empty place), tally_empty, zero_add]

theorem tally_split (fs : FileSys) (region part : Set Loc) :
    fs.tally region =
      fs.tally {loc | loc ∈ region ∧ loc ∈ part} + fs.tally {loc | loc ∈ region ∧ loc ∉ part} := by
  classical
  rw [tally_eq_sum subset_rfl, tally_eq_sum subset_rfl,
    tally_eq_sum subset_rfl, ← Finset.sum_add_distrib]
  apply Finset.sum_congr rfl
  intro loc _
  by_cases inside : loc ∈ region <;> by_cases member : loc ∈ part <;> simp [inside, member]

theorem weight_nonneg (seen : Option View) : 0 ≤ weight seen := by
  unfold weight
  split
  · exact ⟨by simp, by simp⟩
  · exact le_rfl

theorem tally_eq_zero_iff : fs.tally region = 0 ↔ ∀ loc ∈ region, weight (fs.view loc) = 0 := by
  classical
  rw [tally, Finset.sum_eq_zero_iff_of_nonneg fun loc _ => weight_nonneg _]
  constructor
  · intro nothing loc inside
    by_cases present : loc ∈ fs.locs
    · exact nothing loc (Finset.mem_filter.mpr ⟨present, inside⟩)
    · rw [view_of_notMem_locs present, weight_none]
  · intro nothing loc member
    exact nothing loc (Finset.mem_filter.mp member).2

open scoped Classical in
theorem tally_eq_tally (same :
      ∀ loc, (if loc ∈ one then weight (after.view loc) else 0) =
        if loc ∈ two then weight (before.view loc) else 0) :
    after.tally one = before.tally two := by
  have afterCovers : after.locs ⊆ after.locs ∪ before.locs := Finset.subset_union_left
  have beforeCovers : before.locs ⊆ after.locs ∪ before.locs := Finset.subset_union_right
  rw [tally_eq_sum afterCovers, tally_eq_sum beforeCovers]
  exact Finset.sum_congr rfl fun loc _ => same loc

open scoped Classical in
/-- Tallies differ by what the changed locations add. -/
theorem tally_changed (changed : Finset Loc)
    (same : ∀ loc ∈ region, loc ∉ changed → weight (after.view loc) = weight (before.view loc)) :
    after.tally region =
      before.tally region +
        ∑ loc ∈ changed with loc ∈ region,
          (weight (after.view loc) - weight (before.view loc)) := by
  have afterCovers : after.locs ⊆ after.locs ∪ before.locs ∪ changed :=
    Finset.subset_union_left.trans Finset.subset_union_left
  have beforeCovers : before.locs ⊆ after.locs ∪ before.locs ∪ changed :=
    Finset.subset_union_right.trans Finset.subset_union_left
  rw [tally_eq_sum afterCovers, tally_eq_sum beforeCovers,
    ← sub_eq_iff_eq_add', ← Finset.sum_sub_distrib, Finset.sum_filter]
  symm
  apply Finset.sum_subset_zero_on_sdiff Finset.subset_union_right
  · intro loc outside
    by_cases inside : loc ∈ region
    · simp [inside, same loc inside (Finset.mem_sdiff.mp outside).2]
    · simp [inside]
  · intro loc _
    split <;> simp

theorem tally_same (same : ∀ loc ∈ region, weight (after.view loc) = weight (before.view loc)) :
    after.tally region = before.tally region := by
  classical
  rw [tally_changed ∅ fun loc inside _ => same loc inside]
  simp

open scoped Classical in
theorem UpdatedAt.tally {new : Option View} (updated : UpdatedAt before after loc new)
    (region : Set Loc) :
    after.tally region =
      before.tally region + if loc ∈ region then weight new - weight (before.view loc) else 0 := by
  rw [tally_changed {loc}]
  · congr 1
    rw [Finset.sum_filter, Finset.sum_singleton, updated loc, if_pos rfl]
  · intro other _ different
    rw [updated other, if_neg (by simpa using different)]

theorem tally_removed
    (removed : ∀ loc, after.view loc = if place <+: loc then none else before.view loc) :
    after.tally region =
      before.tally region - before.tally {loc | loc ∈ region ∧ place <+: loc} := by
  classical
  rw [eq_sub_iff_add_eq', before.tally_split region {loc | place <+: loc}]
  congr 1
  apply tally_eq_tally
  intro loc
  rw [removed loc]
  by_cases below : place <+: loc <;> simp [below]

theorem tally_along (there back : Loc → Loc)
    (into : ∀ loc ∈ one, there loc ∈ two ∧ back (there loc) = loc)
    (onto : ∀ loc ∈ two, back loc ∈ one ∧ there (back loc) = loc)
    (seen : ∀ loc ∈ one, after.view loc = before.view (there loc)) :
    after.tally one = before.tally two := by
  classical
  unfold tally
  apply Finset.sum_nbij' there back
  · intro loc member
    obtain ⟨present, inside⟩ := Finset.mem_filter.mp member
    rw [after.mem_locs, Ne, ← view_eq_none_iff, seen loc inside, view_eq_none_iff] at present
    rw [Finset.mem_filter, before.mem_locs]
    exact ⟨present, (into loc inside).1⟩
  · intro loc member
    obtain ⟨present, inside⟩ := Finset.mem_filter.mp member
    obtain ⟨home, same⟩ := onto loc inside
    rw [before.mem_locs, Ne, ← view_eq_none_iff, ← same,
      ← seen (back loc) home, view_eq_none_iff] at present
    rw [Finset.mem_filter, after.mem_locs]
    exact ⟨present, home⟩
  · intro loc member
    exact (into loc (Finset.mem_filter.mp member).2).2
  · intro loc member
    exact (onto loc (Finset.mem_filter.mp member).2).2
  · intro loc member
    rw [seen loc (Finset.mem_filter.mp member).2]

theorem tally_moved {source target : Loc}
    (node : ∀ loc, after.node loc = before.movedNode source target loc)
    (inode : after.inode = before.inode) (region : Set Loc) :
    after.tally region =
      before.tally {loc | source <+: loc ∧
          target ++ loc.drop source.length ∈ region} +
        before.tally {loc | loc ∈ region ∧ ¬ target <+: loc ∧
          ¬ source <+: loc} := by
  rw [after.tally_split region {loc | target <+: loc}]
  congr 1
  · apply tally_along (fun loc => source ++ loc.drop target.length)
      fun loc => target ++ loc.drop source.length
    · rintro _ ⟨inside, rest, rfl⟩
      simpa using inside
    · rintro _ ⟨⟨rest, rfl⟩, inside⟩
      simpa using inside
    · rintro _ ⟨_, rest, rfl⟩
      refine view_congr ?_ inode
      rw [node, movedNode, if_pos (List.prefix_append _ _)]
  · classical
    apply tally_eq_tally
    intro loc
    by_cases below : target <+: loc
    · simp [below]
    by_cases gone : source <+: loc
    · have absent : after.view loc = none := by
        rw [view_eq_none_iff, node, movedNode, if_neg below, if_pos gone]
      simp [below, gone, absent]
    · have same : after.view loc = before.view loc := by
        refine view_congr ?_ inode
        rw [node, movedNode, if_neg below, if_neg gone]
      simp [below, gone, same]

theorem sizeAt_file {ino : Nat} (entry : fs.node loc = some (.file ino)) :
    fs.sizeAt loc = (fs.inode ino).data.length := by
  simp [sizeAt, infoAt, entry]

theorem weight_view_file {ino : Nat} (entry : fs.node loc = some (.file ino)) :
    weight (fs.view loc) = (1, (fs.sizeAt loc : Int)) := by
  rw [sizeAt_file entry]
  simp [view, entry]

theorem weight_view_eq_zero (leaf : ∀ ino, fs.node loc ≠ some (.file ino)) :
    weight (fs.view loc) = 0 := by
  unfold view
  split
  · rfl
  · rfl
  · rename_i ino entry
    exact absurd entry (leaf ino)
  · rfl

theorem tally_eq_card {files : Finset Loc}
    (listed : ∀ loc, loc ∈ files ↔ loc ∈ region ∧ ∃ ino, fs.node loc = some (.file ino)) :
    fs.tally region = ((files.card : Int), ∑ file ∈ files, (fs.sizeAt file : Int)) := by
  classical
  have sum : fs.tally region = ∑ loc ∈ files, weight (fs.view loc) := by
    unfold tally
    symm
    apply Finset.sum_subset
    · intro loc member
      obtain ⟨inside, ino, entry⟩ := (listed loc).mp member
      rw [Finset.mem_filter, fs.mem_locs, entry]
      exact ⟨by simp, inside⟩
    · intro loc member other
      apply weight_view_eq_zero
      intro ino entry
      exact other ((listed loc).mpr ⟨(Finset.mem_filter.mp member).2, ino, entry⟩)
  have weights : ∀ loc ∈ files, weight (fs.view loc) = (1, (fs.sizeAt loc : Int)) := by
    intro loc member
    obtain ⟨_, ino, entry⟩ := (listed loc).mp member
    exact weight_view_file entry
  rw [sum, Finset.sum_congr rfl weights, Prod.ext_iff, Prod.fst_sum, Prod.snd_sum]
  simp

theorem mem_filesBelow :
    loc ∈ fs.filesBelow home ↔ home <+: loc ∧ ∃ ino, fs.node loc = some (.file ino) := by
  unfold filesBelow
  rw [Finset.mem_filter, fs.mem_locs]
  cases entry : fs.node loc with
  | none => simp
  | some node =>
    cases node with
    | dir attr => simp [infoAt, entry]
    | file ino => simp [infoAt, entry]
    | symlink target attr => simp [infoAt, entry]

/-- The number and the size of the regular files at or below a location. -/
def fileTotal (fs : FileSys) (loc : Loc) : Int × Int :=
  ((fs.filesBelow loc).card, ∑ file ∈ fs.filesBelow loc, (fs.sizeAt file : Int))

theorem tally_below (fs : FileSys) (home : Loc) :
    fs.tally {loc | home <+: loc} = fs.fileTotal home :=
  tally_eq_card fun _ => mem_filesBelow

theorem weight_ne_zero_iff : weight (fs.view loc) ≠ 0 ↔ ∃ ino, fs.node loc = some (.file ino) := by
  constructor
  · intro file
    by_contra other
    exact file (weight_view_eq_zero fun ino entry => other ⟨ino, entry⟩)
  · rintro ⟨ino, entry⟩
    rw [weight_view_file entry]
    simp [Prod.ext_iff]

theorem tally_eq_zero_iff_files (within : ∀ loc ∈ region, place <+: loc) :
    fs.tally region = 0 ↔ ∀ file ∈ fs.filesBelow place, file ∉ region := by
  rw [tally_eq_zero_iff]
  constructor
  · intro nothing file member inside
    exact weight_ne_zero_iff.mpr (mem_filesBelow.mp member).2 (nothing file inside)
  · intro none loc inside
    by_contra file
    exact none loc (mem_filesBelow.mpr ⟨within loc inside, weight_ne_zero_iff.mp file⟩) inside

/-- The tally of the region grows by `delta`, the objects in `held` stay, and
its directories stay directories. -/
structure Shift (region held : Set Loc) (delta : Int × Int) (before after : FileSys) : Prop where
  tally : after.tally region = before.tally region + delta
  present : ∀ loc ∈ held, before.node loc ≠ none → after.node loc ≠ none
  directory : ∀ loc ∈ held, before.isDirAt loc = true → after.isDirAt loc = true

namespace Shift

theorem refl (region held : Set Loc) (fs : FileSys) : Shift region held 0 fs fs :=
  ⟨(add_zero _).symm, fun _ _ => id, fun _ _ => id⟩

theorem trans {one two : Int × Int} (left : Shift region held one before middle)
    (right : Shift region held two middle after) :
    Shift region held (one + two) before after := by
  refine ⟨?_, ?_, ?_⟩
  · rw [right.tally, left.tally, add_assoc]
  · intro loc member there
    exact right.present loc member (left.present loc member there)
  · intro loc member isDir
    exact right.directory loc member (left.directory loc member isDir)

variable {delta : Int × Int} {leaf source target : Loc} {ino : Nat}

theorem of_sameShape
    (shape : SameShape before after) (tally : after.tally region = before.tally region + delta) :
    Shift region held delta before after := by
  refine ⟨tally, ?_, ?_⟩
  · intro loc _ there gone
    exact there ((shape.node_none loc).mp gone)
  · intro loc _ isDir
    rw [shape.isDirAt]
    exact isDir

theorem of_grown
    (grown : Grown before after) (tally : after.tally region = before.tally region + delta) :
    Shift region held delta before after := by
  refine ⟨tally, ?_, fun _ _ => grown.isDirAt⟩
  intro loc _ there gone
  have seen := mt view_eq_none_iff.mp there
  rw [← view_eq_none_iff, grown loc seen] at gone
  exact seen gone

theorem sameView (region held : Set Loc) (shape : SameShape before after)
    (data : ∀ ino, (after.inode ino).data = (before.inode ino).data) :
    Shift region held 0 before after := by
  apply of_sameShape shape
  rw [add_zero]
  apply tally_same
  intro loc _
  rw [shape.view data loc]

theorem mkdir (region held : Set Loc) {path : Str} {attr : Attr}
    (done : fs.mkdir path attr = .ok after) :
    Shift region held 0 fs after := by
  obtain ⟨parent, text, room, _, rfl⟩ := mkdir_cases done
  have absent := view_eq_none_iff.mpr room.absent
  have updated := view_addDir attr room
  apply of_grown (updated.grown absent)
  rw [updated.tally, absent]
  simp

open scoped Classical in
theorem addFile (region held : Set Loc) {parent : Loc} {text : Str} (new : Inode)
    (room : fs.CanAdd parent text) :
    Shift region held
      (if parent ++ [text] ∈ region then (1, (new.data.length : Int)) else 0)
      fs (fs.addFile parent text new room) := by
  have absent := view_eq_none_iff.mpr room.absent
  have updated :
      UpdatedAt fs (fs.addFile parent text new room) (parent ++ [text])
        (some (.file new.data)) := view_addFile new room
  apply of_grown (updated.grown absent)
  rw [updated.tally, absent]
  simp

open scoped Classical in
theorem rewritten (region held : Set Loc) (shape : SameShape before after)
    (entry : before.node leaf = some (.file ino))
    (data : ∀ other, other ≠ ino → (after.inode other).data = (before.inode other).data) :
    Shift region held
      (if leaf ∈ region then
        (0, ((after.inode ino).data.length : Int) - (before.inode ino).data.length)
      else 0) before after := by
  apply of_sameShape shape
  have updated : UpdatedAt before after leaf (some (.file (after.inode ino).data)) :=
    view_rewritten shape entry rfl data
  have old : before.view leaf = some (.file (before.inode ino).data) := by
    simp [view, entry]
  rw [updated.tally, old]
  simp

open scoped Classical in
theorem truncated (region held : Set Loc) (entry : fs.node leaf = some (.file ino)) (attr : Attr) :
    Shift region held
      (if leaf ∈ region then (0, -((fs.inode ino).data.length : Int)) else 0)
      fs (fs.truncated ino attr) := by
  have shape : SameShape fs (fs.truncated ino attr) := sameShape_setInode ino _
  have shift :=
    rewritten region held shape entry fun other different => by
      simp [FileSys.truncated, setInode, different]
  simpa [FileSys.truncated, setInode] using shift

theorem rewritten_outside (held : Set Loc) (shape : SameShape before after)
    (outside : ∀ loc ∈ region, before.node loc ≠ some (.file ino))
    (data : ∀ other, other ≠ ino → (after.inode other).data = (before.inode other).data) :
    Shift region held 0 before after := by
  apply of_sameShape shape
  rw [add_zero]
  apply tally_same
  intro loc inside
  congr 1
  refine shape.view_eq loc fun other found => data other ?_
  rintro rfl
  exact outside loc inside found

/-- An object that is not a directory is moved, onto something that does not
count. -/
theorem leaf_moved (different : source ≠ target) (node :
      ∀ loc, after.node loc =
        if loc = target then fs.node source
        else if loc = source then none
        else fs.node loc)
    (inode : after.inode = fs.inode) (there : fs.node source ≠ none)
    (targetLeaf : fs.isDirAt target = false) (free : source ∉ held)
    (both : source ∈ region ↔ target ∈ region)
    (replaced : target ∈ region → weight (fs.view target) = 0) :
    Shift region held 0 fs after := by
  refine ⟨?_, ?_, ?_⟩
  · classical
    have arrived : after.view target = fs.view source :=
      view_congr ((node target).trans (if_pos rfl)) inode
    have left : after.view source = none := by
      rw [view_eq_none_iff, node source, if_neg different, if_pos rfl]
    rw [@tally_changed fs after region {source, target}, Finset.sum_filter,
      Finset.sum_pair different, arrived, left, both]
    · by_cases inside : target ∈ region
      · simp [inside, replaced inside]
      · simp [inside]
    · intro loc _ elsewhere
      simp only [Finset.mem_insert, Finset.mem_singleton, not_or] at elsewhere
      congr 1
      apply view_congr _ inode
      rw [node loc, if_neg elsewhere.2, if_neg elsewhere.1]
  · intro loc member present
    rw [node loc]
    split
    · exact there
    · rw [if_neg (ne_of_mem_of_not_mem member free)]
      exact present
  · intro loc member isDir
    have moved : loc ≠ target := by
      rintro rfl
      rw [targetLeaf] at isDir
      cases isDir
    unfold isDirAt at isDir ⊢
    rw [node loc, if_neg moved, if_neg (ne_of_mem_of_not_mem member free)]
    exact isDir

theorem rename_leaf {oldPath newPath : Str} (oldEntry : fs.entryLoc oldPath = .ok source)
    (newEntry : fs.entryLoc newPath = .ok target) (leaf : fs.isDirAt source = false)
    (free : source ∉ held) (both : source ∈ region ↔ target ∈ region)
    (replaced : target ∈ region → weight (fs.view target) = 0)
    (done : fs.rename oldPath newPath = .ok after) :
    Shift region held 0 fs after := by
  obtain ⟨oldParent, oldText, newParent, newText, oldPlace, newPlace, there,
    ⟨_, rfl⟩ | ⟨different, move, rfl⟩⟩ := rename_cases done
  · exact refl region held after
  obtain rfl : source = oldParent ++ [oldText] := by
    simpa [entryLoc, oldPlace] using oldEntry.symm
  obtain rfl : target = newParent ++ [newText] := by
    simpa [entryLoc, newPlace] using newEntry.symm
  exact leaf_moved different (movedNode_leaf leaf move.notDir) rfl there
    move.notDir free both replaced

section Removal

variable {place : Loc} (apart : ∀ loc ∈ held, ¬ place <+: loc)
include apart

private theorem of_dropTree {delta : Int × Int} {survivors : List Loc}
    (stays : ¬ Doomed place survivors [])
    (tally : (fs.dropTree place survivors stays).tally region = fs.tally region + delta) :
    Shift region held delta fs (fs.dropTree place survivors stays) := by
  have node : ∀ loc ∈ held, (fs.dropTree place survivors stays).node loc = fs.node loc :=
    fun loc member => if_neg fun doomed => apart loc member doomed.1
  refine ⟨tally, ?_, ?_⟩
  · intro loc member
    rw [node loc member]
    exact id
  · intro loc member
    unfold isDirAt
    rw [node loc member]
    exact id

theorem dropTree_outside {survivors : List Loc} (stays : ¬ Doomed place survivors [])
    (outside : ∀ loc ∈ region, ¬ place <+: loc) :
    Shift region held 0 fs (fs.dropTree place survivors stays) := by
  apply of_dropTree apart stays
  rw [add_zero]
  apply tally_same
  intro loc inside
  congr 1
  exact view_congr (if_neg fun doomed => outside loc inside doomed.1) rfl

theorem dropTree_all (stays : ¬ Doomed place [] []) :
    Shift region held (-fs.tally {loc | loc ∈ region ∧ place <+: loc}) fs
      (fs.dropTree place [] stays) := by
  apply of_dropTree apart stays
  rw [← sub_eq_add_neg]
  apply tally_removed
  intro loc
  by_cases below : place <+: loc
  · rw [if_pos below, view_eq_none_iff]
    exact if_pos ⟨below, by simp⟩
  · rw [if_neg below]
    exact view_congr (if_neg fun doomed => below doomed.1) rfl

end Removal

end Shift

end FileSys

end Sshserv.Lib.FileTree
