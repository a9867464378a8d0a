import Sshserv.Serv.QuotaBooks

/-!
# What a deletion charges

`Remove` takes one file and its size off the used quota, `Rmdir` what a scan
of the directory counted.  `Remove` also works on an empty directory and
`Rmdir` on a file, and `Rmdir` charges nothing when it stops half-way, which it
always does at the root.
-/

namespace Sshserv.Serv

open Lib UnixPath FileTree FileSys DataProvider

/-- What `utils.ScanDirContents` reports for a path if reading the tree does
not fail; for a path that leads nowhere the zeros come with an error. -/
def scanReport (os : Os) (fs : FileSys) (path : Str) : Int × Int :=
  match scanDirContents { os with scan := none } fs path with
  | .ok counted => counted
  | .error _ => (0, 0)

/-- The used quota changes as the report on the home directory does. -/
def Balanced (c : Connection) (os : Os) (before after : World) : Prop :=
  after.quota c.user.username =
    (before.quota c.user.username).map fun used =>
      used + (scanReport os after.fs c.user.homeDir - scanReport os before.fs c.user.homeDir)

instance (c : Connection) (os : Os) (before after : World) :
    Decidable (Balanced c os before after) :=
  inferInstanceAs (Decidable (_ = _))

theorem scanReport_eq (os : Os) (fs : FileSys) (path : Str) :
    scanReport os fs path = fs.scanTotal path := by
  unfold scanReport
  split
  · rename_i counted scanned
    exact scanDirContents_ok scanned
  · rename_i err failed
    have nowhere : fs.scanRoot path = none := by
      rw [Option.eq_none_iff_forall_not_mem]
      intro root starts
      obtain ⟨loc, left, resolved, directory, entry⟩ := scanRoot_eq_some_iff.mp starts
      cases seen : fs.infoAt loc with
      | none => exact node_ne_none_of_found resolved (infoAt_eq_none_iff.mp seen)
      | some info =>
        have found := stat_eq_ok_iff.mpr ⟨loc, left, resolved, seen⟩
        have isDir := (infoAt_isDir_iff seen).mpr directory
        simp [scanDirContents, found, isDir, entry, orFault] at failed
    rw [scanTotal, nowhere]
    rfl

section Balance

variable {c : Connection} {os : Os} {w after : World} {used : Int × Int}
    (record : w.quota c.user.username = some used)
include record

theorem balanced_iff {paid : Int × Int}
    (quota : after.quota c.user.username = (w.quota c.user.username).map fun used => used + paid) :
    Balanced c os w after ↔
      w.fs.scanTotal c.user.homeDir + paid = after.fs.scanTotal c.user.homeDir := by
  rw [Balanced, quota, record, scanReport_eq, scanReport_eq]
  simp only [Option.map_some, Option.some.injEq, add_right_inj]
  exact eq_sub_iff_add_eq'

theorem balanced_cut_iff {gone : Set Loc} {charge : Int × Int} (taken : Taken gone w.fs after.fs)
    (quota : after.quota c.user.username = (w.quota c.user.username).map fun used => used + -charge)
    (cut : ∃ seen ∈ w.fs.lookups c.user.homeDir, seen ∈ gone) :
    Balanced c os w after ↔ w.fs.scanTotal c.user.homeDir = charge := by
  rw [balanced_iff record quota, taken.scanTotal_cut cut, add_neg_eq_zero]

theorem balanced_kept_iff {gone : Set Loc} {charge : Int × Int} (taken : Taken gone w.fs after.fs)
    (quota : after.quota c.user.username = (w.quota c.user.username).map fun used => used + -charge)
    (off : ∀ seen ∈ w.fs.lookups c.user.homeDir, seen ∉ gone) :
    Balanced c os w after ↔
      w.fs.tally {loc | w.fs.Scans c.user.homeDir loc ∧ loc ∈ gone} = charge := by
  rw [balanced_iff record quota, taken.scanTotal off, add_right_comm, add_eq_right, add_neg_eq_zero]

end Balance

/-- A removal takes an entry that the resolution of the home directory looks
up. -/
def CutsHome (c : Connection) (fs : FileSys) (place : Loc) (survivors : List Loc) : Prop :=
  ∃ seen ∈ fs.lookups c.user.homeDir, Doomed place survivors seen

instance (c : Connection) (fs : FileSys) (place : Loc)
    (survivors : List Loc) : Decidable (CutsHome c fs place survivors) :=
  inferInstanceAs (Decidable (∃ seen ∈ fs.lookups c.user.homeDir, _))

/-- `handleSFTPRemove` gets to remove an entry. -/
structure Removes (c : Connection) (os : Os) (fs : FileSys) (p : Str)
    (parent : Loc) (text : Str) (info : FileInfo) : Prop where
  allowed : c.user.hasPerm permDelete = true
  looked : os.lstat = none
  works : os.remove = none
  entry : fs.entryOf p = .ok (parent, text)
  seen : fs.infoAt (parent ++ [text]) = some info
  empty : fs.children (parent ++ [text]) = ∅

variable {c : Connection} {os : Os} {fs : FileSys} {p text : Str} {parent : Loc} {info : FileInfo}

theorem Removes.lstat (removes : Removes c os fs p parent text info) : fs.lstat p = .ok info := by
  simp [FileSys.lstat, FileSys.entryLoc, removes.entry, statAt, removes.seen]

theorem Removes.remove (removes : Removes c os fs p parent text info) :
    fs.remove p = .ok (fs.dropTree (parent ++ [text]) [] (by simp)) := by
  have present : fs.node (parent ++ [text]) ≠ none := by
    rw [Ne, ← infoAt_eq_none_iff, removes.seen]
    simp
  simp [FileSys.remove, removes.entry, present, removes.empty]

def removeCharge (info : FileInfo) : Int × Int :=
  if info.kind = .symlink then 0 else (1, info.size)

/-- An entry on the way to the home directory takes the whole report with it.
Any other entry is a link, or a regular file that the report counts; an empty
directory is charged and never counted. -/
def EntryBalances (c : Connection) (os : Os) (fs : FileSys) (place : Loc)
    (info : FileInfo) : Prop :=
  if CutsHome c fs place [] then
    scanReport os fs c.user.homeDir = removeCharge info
  else
    info.kind = .symlink ∨ info.kind = .regular ∧ fs.Scans c.user.homeDir place

def RemoveBalances (c : Connection) (os : Os) (fs : FileSys) (p : Str) : Prop :=
  ∀ parent text info, Removes c os fs p parent text info →
    EntryBalances c os fs (parent ++ [text]) info

theorem removeBalances_iff (removes : Removes c os fs p parent text info) :
    RemoveBalances c os fs p ↔ EntryBalances c os fs (parent ++ [text]) info := by
  refine ⟨fun balances => balances parent text info removes, ?_⟩
  intro holds otherParent otherText otherInfo other
  have entry := other.entry
  rw [removes.entry] at entry
  cases entry
  have seen := other.seen
  rw [removes.seen] at seen
  cases seen
  exact holds

/-- `handleSFTPRmdir` gets to remove what is at or below a location, apart
from what is left there, after a scan of its path. -/
structure RemovesAll (c : Connection) (os : Os) (fs : FileSys) (p : Str)
    (place : Loc) (left : List Loc) (counted : Int × Int) : Prop where
  allowed : c.user.hasPerm permDelete = true
  scanned : scanDirContents os fs p = .ok counted
  removal : Removal fs os.survivors p place left

variable {place : Loc} {left : List Loc} {counted : Int × Int}

theorem RemovesAll.present (removes : RemovesAll c os fs p place left counted) :
    fs.node place ≠ none := by
  intro absent
  rcases removes.removal with ⟨parent, text, entry⟩ | _
  · obtain ⟨budget, resolved⟩ := resolve_of_entryOf entry
    rw [walk_name, absent] at resolved
    have scanned := removes.scanned
    have missing : fs.stat p = .error .noent := by
      rw [stat_eq_error_iff, resolved]
      rfl
    simp [scanDirContents, missing] at scanned
  · have top := fs.root_dir
    simp [absent] at top

/-- If it stops half-way, nothing is charged, so no file that the report
counts may be among those removed.  Otherwise the files of a directory are
charged and a single file is not: the report has to count the ones and not
the other. -/
def TreeBalances (c : Connection) (os : Os) (fs : FileSys) (place : Loc) (left : List Loc)
    (counted : Int × Int) : Prop :=
  if ∃ kept ∈ left, place <+: kept then
    if CutsHome c fs place left then
      scanReport os fs c.user.homeDir = 0
    else
      ∀ file ∈ fs.filesBelow place, Doomed place left file → ¬ fs.Scans c.user.homeDir file
  else if CutsHome c fs place left then
    scanReport os fs c.user.homeDir = counted
  else
    ∀ file ∈ fs.filesBelow place, fs.Scans c.user.homeDir file ↔ fs.isDirAt place = true

def RmdirBalances (c : Connection) (os : Os) (fs : FileSys) (p : Str) : Prop :=
  ∀ place left counted, RemovesAll c os fs p place left counted →
    TreeBalances c os fs place left counted

theorem rmdirBalances_iff (removes : RemovesAll c os fs p place left counted) :
    RmdirBalances c os fs p ↔ TreeBalances c os fs place left counted := by
  refine ⟨fun balances => balances place left counted removes, ?_⟩
  intro holds otherPlace otherLeft otherCount other
  obtain ⟨rfl, rfl⟩ := removes.removal.unique other.removal
  have scanned := other.scanned
  rw [removes.scanned] at scanned
  cases scanned
  exact holds

section Handlers

variable {c : Connection} {settings : Settings} {os : Os} {w : World}
    {p : Str} (tracks : settings.provider.trackQuota = 1) (takes : os.updateQuota = none)
include tracks takes

theorem handleSFTPRemove_cases :
    (c.handleSFTPRemove settings os w p).1 = w ∧
        (∀ parent text info, ¬ Removes c os w.fs p parent text info) ∨
      ∃ parent text info, Removes c os w.fs p parent text info ∧
        (c.handleSFTPRemove settings os w p).1.fs = w.fs.dropTree (parent ++ [text]) [] (by simp) ∧
        (c.handleSFTPRemove settings os w p).1.quota c.user.username =
          (w.quota c.user.username).map fun used =>
            used + -removeCharge info := by
  by_cases works : ∃ parent text info, Removes c os w.fs p parent text info
  · obtain ⟨parent, text, info, removes⟩ := works
    refine Or.inr ⟨parent, text, info, removes, ?_⟩
    unfold Connection.handleSFTPRemove
    simp only [removes.allowed, not_true_eq_false, if_false, removes.looked,
      removes.works, removes.lstat, removes.remove, orFault]
    by_cases link : info.kind = .symlink
    · simp [link, removeCharge]
    · simp only [link, ne_eq, not_false_eq_true, if_true, removeCharge,
        if_false, World.updateUserQuota_fs, World.setFs_fs, true_and]
      have counted :=
        (Booked.updateUserQuota tracks ∅ ∅ (w.setFs
          (w.fs.dropTree (parent ++ [text]) [] (by simp))) os.updateQuota
          c.user (-1) (-info.size)).used
      rw [counted, takes]
      rfl
  · refine Or.inl ⟨?_, fun parent text info removes =>
      works ⟨parent, text, info, removes⟩⟩
    unfold Connection.handleSFTPRemove
    split
    · rfl
    rename_i allowed
    split
    · rfl
    rename_i info looked
    split
    · rfl
    rename_i after removed
    obtain ⟨quiet, looks⟩ := orFault_eq_ok.mp looked
    obtain ⟨calm, done⟩ := orFault_eq_ok.mp removed
    obtain ⟨parent, text, entry, empty, rfl⟩ := remove_cases done
    refine absurd ⟨parent, text, info, by simpa using allowed, quiet, calm,
      entry, ?_, empty⟩ works
    exact infoAt_of_lstat (by simp [FileSys.entryLoc, entry]) looks

theorem handleSFTPRmdir_cases :
    (c.handleSFTPRmdir settings os w p).1.fs = w.fs ∧
        (c.handleSFTPRmdir settings os w p).1.quota c.user.username = w.quota c.user.username ∧
        (∀ place left counted, ¬ RemovesAll c os w.fs p place left counted) ∨
      ∃ place left counted, RemovesAll c os w.fs p place left counted ∧
        Taken {loc | Doomed place left loc} w.fs (c.handleSFTPRmdir settings os w p).1.fs ∧
        (c.handleSFTPRmdir settings os w p).1.quota c.user.username =
          (w.quota c.user.username).map fun used =>
            used + -if ∃ kept ∈ left, place <+: kept then 0 else counted := by
  have counts : ∀ fs files size,
      ((w.setFs fs).updateUserQuota settings os.updateQuota c.user (-files)
        (-size)).quota c.user.username =
          (w.quota c.user.username).map fun used =>
            used + -(files, size) := by
    intro fs files size
    rw [(Booked.updateUserQuota tracks ∅ ∅ (w.setFs fs) os.updateQuota c.user
      (-files) (-size)).used, takes]
    rfl
  rcases removed : w.fs.removeAll p os.survivors with ⟨after, result⟩
  unfold Connection.handleSFTPRmdir
  split
  · rename_i denied
    exact Or.inl ⟨rfl, rfl, fun _ _ _ removes => denied (by simpa using removes.allowed)⟩
  rename_i allowed
  split
  · rename_i err failed
    refine Or.inl ⟨rfl, rfl, fun _ _ _ removes => ?_⟩
    rw [removes.scanned] at failed
    cases failed
  rename_i files size scanned
  rw [removed]
  rcases removeAll_cases removed with
    ⟨rfl, missing, never⟩ | ⟨place, left, removal, rfl, ends⟩
  · refine Or.inl (and_assoc.mp ⟨?_, fun place left _ removes => never place left removes.removal⟩)
    cases result with
    | error err => exact ⟨rfl, rfl⟩
    | ok =>
      refine ⟨World.updateUserQuota_fs .., (counts _ files size).trans ?_⟩
      have none : (files, size) = (0 : Int × Int) :=
        (scanDirContents_ok scanned).trans (scanTotal_of_noent (missing rfl))
      simp [none]
  · have removes : RemovesAll c os w.fs p place left (files, size) :=
      ⟨by simpa using allowed, scanned, removal⟩
    have taken := w.fs.taken_dropTree place left removal.stays
    refine Or.inr ⟨place, left, (files, size), removes, ?_⟩
    by_cases stops : ∃ kept ∈ left, place <+: kept
    · have stays : (w.fs.dropTree place left removal.stays).node place ≠ none := by
        obtain ⟨kept, member, below⟩ := stops
        refine ne_of_eq_of_ne (if_neg ?_) removes.present
        exact fun doomed => doomed.2 kept member below
      cases result with
      | ok => exact absurd (ends.mp rfl) stays
      | error err => simp [stops, taken]
    · have goes : (w.fs.dropTree place left removal.stays).node place = none := by
        refine if_pos ⟨List.prefix_rfl, ?_⟩
        exact fun kept member below => stops ⟨kept, member, below⟩
      obtain rfl := ends.mpr goes
      rw [if_neg stops]
      refine ⟨?_, counts _ files size⟩
      rw [World.updateUserQuota_fs]
      exact taken

end Handlers

section Exact

variable {c : Connection} {settings : Settings} {os : Os} {w : World} {p : Str} {used : Int × Int}

variable {fs : FileSys} {homeDir : Str} {place : Loc}

theorem tally_scans_childless (empty : fs.children place = ∅) :
    fs.tally {loc | fs.Scans homeDir loc ∧ Doomed place [] loc} =
      if fs.Scans homeDir place then weight (fs.view place) else 0 := by
  have only : ∀ loc, place <+: loc → fs.node loc ≠ none → loc = place :=
    fun loc below present => eq_of_childless empty present below
  split
  · rename_i inside
    have alone :
        fs.tally {loc | fs.Scans homeDir loc ∧ Doomed place [] loc} =
          fs.tally (insert place ∅) := by
      apply tally_congr
      intro loc file
      simp only [Set.mem_ofPred_eq, insert_empty_eq, Set.mem_singleton_iff]
      constructor
      · rintro ⟨_, below, _⟩
        exact only loc below (node_of_weight file)
      · rintro rfl
        exact ⟨inside, List.prefix_rfl, by simp⟩
    rw [alone, tally_insert (Set.notMem_empty place), tally_empty, zero_add]
  · rename_i outside
    rw [tally_eq_zero_iff]
    rintro loc ⟨inside, below, _⟩
    by_contra file
    rw [only loc below (node_of_weight file)] at inside
    exact outside inside

/-- What is charged for an entry is what it weighed, except for a
directory. -/
theorem removeCharge_eq_iff
    {info : FileInfo} {inside : Prop} [Decidable inside] (seen : fs.infoAt place = some info) :
    (if inside then weight (fs.view place) else 0) = removeCharge info ↔
      info.kind = .symlink ∨ info.kind = .regular ∧ inside := by
  unfold infoAt at seen
  cases node : fs.node place with
  | none => simp [node] at seen
  | some object =>
    simp only [node] at seen
    cases object with
    | dir attr =>
      cases seen
      by_cases counts : inside <;> simp [view, node, removeCharge, Prod.ext_iff]
    | file ino =>
      cases seen
      by_cases counts : inside <;> simp [view, node, removeCharge, counts, Prod.ext_iff]
    | symlink target attr =>
      cases seen
      by_cases counts : inside <;> simp [view, node, removeCharge]

theorem remove_balanced_iff (tracks : settings.provider.trackQuota = 1)
    (takes : os.updateQuota = none) (record : w.quota c.user.username = some used) :
    Balanced c os w (c.handleSFTPRemove settings os w p).1 ↔ RemoveBalances c os w.fs p := by
  rcases handleSFTPRemove_cases tracks takes with
    ⟨same, never⟩ | ⟨parent, text, info, removes, tree, quota⟩
  · rw [same]
    refine iff_of_true ?_ fun parent text info removes =>
      absurd removes (never parent text info)
    simp [Balanced, record]
  · have taken := w.fs.taken_dropTree (parent ++ [text]) [] (by simp)
    rw [← tree] at taken
    rw [removeBalances_iff removes, EntryBalances]
    split
    · rename_i cut
      rw [scanReport_eq]
      exact balanced_cut_iff record taken quota cut
    · rename_i kept
      have off : ∀ seen ∈ w.fs.lookups c.user.homeDir, ¬ Doomed (parent ++ [text]) [] seen :=
        fun seen member doomed => kept ⟨seen, member, doomed⟩
      rw [balanced_kept_iff record taken quota off]
      simp only [Set.mem_ofPred_eq]
      rw [tally_scans_childless removes.empty]
      exact removeCharge_eq_iff removes.seen

theorem tally_scans_all {survivors : List Loc} (complete : ∀ kept ∈ survivors, ¬ place <+: kept) :
    fs.tally {loc | fs.Scans homeDir loc ∧
        Doomed place survivors loc} =
        (if fs.isDirAt place then fs.tally {loc | place <+: loc} else 0) ↔
      ∀ file ∈ fs.filesBelow place, fs.Scans homeDir file ↔ fs.isDirAt place = true := by
  have doomed : ∀ loc, Doomed place survivors loc ↔ place <+: loc :=
    fun loc => and_iff_left_of_imp fun below kept member above =>
      complete kept member (below.trans above)
  have below : ∀ file ∈ fs.filesBelow place, place <+: file :=
    fun file member => (mem_filesBelow.mp member).1
  simp only [doomed]
  split
  · rename_i directory
    have parts :
        fs.tally {loc | place <+: loc} =
          fs.tally {loc | fs.Scans homeDir loc ∧ place <+: loc} +
            fs.tally {loc | place <+: loc ∧ ¬ fs.Scans homeDir loc} := by
      rw [fs.tally_split {loc | place <+: loc} {loc | fs.Scans homeDir loc}]
      simp only [Set.mem_ofPred_eq, and_comm]
    rw [parts, left_eq_add, tally_eq_zero_iff_files fun loc inside => inside.1]
    simp only [directory, iff_true]
    refine forall₂_congr fun file member => ?_
    simp [below file member]
  · rename_i leaf
    rw [tally_eq_zero_iff_files fun loc inside => inside.2]
    simp only [leaf]
    refine forall₂_congr fun file member => ?_
    simp [below file member]

theorem rmdir_balanced_iff (tracks : settings.provider.trackQuota = 1)
    (takes : os.updateQuota = none) (record : w.quota c.user.username = some used) :
    Balanced c os w (c.handleSFTPRmdir settings os w p).1 ↔ RmdirBalances c os w.fs p := by
  rcases handleSFTPRmdir_cases tracks takes with
    ⟨tree, quota, never⟩ | ⟨place, left, counted, removes, taken, quota⟩
  · refine iff_of_true ?_ fun place left counted removes =>
      absurd removes (never place left counted)
    simp [Balanced, record, tree, quota]
  · rw [rmdirBalances_iff removes, TreeBalances]
    by_cases cut : CutsHome c w.fs place left
    · rw [balanced_cut_iff record taken quota cut, scanReport_eq]
      simp only [cut, if_true]
      split <;> rfl
    · have off : ∀ seen ∈ w.fs.lookups c.user.homeDir, ¬ Doomed place left seen :=
        fun seen member doomed => cut ⟨seen, member, doomed⟩
      rw [balanced_kept_iff record taken quota off]
      simp only [cut, if_false, Set.mem_ofPred_eq]
      split
      · rw [tally_eq_zero_iff_files fun loc inside => inside.2.1]
        simp only [Set.mem_ofPred_eq, not_and, imp_not_comm]
      · rename_i complete
        rcases removes.removal with ⟨parent, text, entry⟩ | _
        · rw [scanDirContents_ok removes.scanned, scanTotal_of_entryOf entry]
          apply tally_scans_all
          exact fun kept member below => complete ⟨kept, member, below⟩
        · exact absurd ⟨[], List.mem_cons_self, List.prefix_rfl⟩ complete

end Exact

/-- The two handlers that delete change the used quota as the report on the
home directory changes, exactly under the conditions on what they remove. -/
theorem deletion_balanced_iff (c : Connection) (settings : Settings) (os : Os) (w : World) (p : Str)
    (used : Int × Int) (tracks : settings.provider.trackQuota = 1) (takes : os.updateQuota = none)
    (record : w.quota c.user.username = some used) :
    (Balanced c os w (c.handleSFTPRemove settings os w p).1 ↔ RemoveBalances c os w.fs p) ∧
      (Balanced c os w (c.handleSFTPRmdir settings os w p).1 ↔ RmdirBalances c os w.fs p) :=
  ⟨remove_balanced_iff tracks takes record, rmdir_balanced_iff tracks takes record⟩

def deletionTree : FileSys :=
  (namesakeTree.withFile sampleHome "f".toList
    ⟨"abc".toList, sampleAttr⟩).withDir sampleHome "d".toList sampleAttr

def deletionWorld : World :=
  World.start deletionTree fun _ => some (1, 3)

/-- Removing the file and removing the whole home directory are charged
right. -/
theorem file_deletion_balanced :
    Balanced sampleConnection sampleOs deletionWorld
        (sampleConnection.handleSFTPRemove defaultSettings
          sampleOs deletionWorld "/srv/u/f".toList).1 ∧
      Balanced sampleConnection sampleOs deletionWorld
        (sampleConnection.handleSFTPRmdir defaultSettings
          sampleOs deletionWorld "/srv/u".toList).1 := by
  have exactly := fun p =>
    deletion_balanced_iff sampleConnection defaultSettings
      sampleOs deletionWorld p (1, 3) (by decide) (by decide) rfl
  have file :
      Removes sampleConnection sampleOs deletionTree
        "/srv/u/f".toList sampleHome "f".toList
        ⟨"f".toList, .regular, 3, sampleAttr⟩ :=
    ⟨by decide, rfl, rfl, by decide +kernel, by decide +kernel,
      by decide +kernel⟩
  have tree :
      RemovesAll sampleConnection sampleOs deletionTree "/srv/u".toList sampleHome [] (1, 3) :=
    ⟨by decide, by decide +kernel, .entry ["srv".toList] "u".toList (by decide +kernel)⟩
  constructor
  · refine (exactly _).1.mpr ((removeBalances_iff file).mpr ?_)
    unfold EntryBalances
    decide +kernel
  · refine (exactly _).2.mpr ((rmdirBalances_iff tree).mpr ?_)
    unfold TreeBalances
    decide +kernel

/-- Removing an empty directory takes a file and the size of the directory
off the used quota. -/
theorem empty_directory_charged :
    (sampleConnection.handleSFTPRemove defaultSettings
        sampleOs deletionWorld "/srv/u/d".toList).1.quota "u".toList = some (0, 3 - 4096) ∧
      ¬ Balanced sampleConnection sampleOs deletionWorld
        (sampleConnection.handleSFTPRemove defaultSettings
          sampleOs deletionWorld "/srv/u/d".toList).1 := by
  decide +kernel

end Sshserv.Serv
