import Sshserv.Serv.Deletion

/-!
# What a rename charges

`Rename` leaves the used quota alone.  But `os.Rename` replaces an existing
file, whose size then stays on the used quota, and links can lead it out of
the home directory or into it.
-/

namespace Sshserv.Serv

open Lib UnixPath FileTree FileSys DataProvider

/-- `Filecmd` gets to rename an entry. -/
structure Renames (c : Connection) (os : Os) (fs : FileSys)
    (request : Request) (p target : Str) (old new : Loc) (after : FileSys) :
    Prop where
  accepted : c.buildPath fs request.filepath = .ok p
  aimed : c.getSFTPCmdTargetPath fs request.target = .ok target
  allowed : c.user.hasPerm permRename = true
  works : os.rename = none
  oldEntry : fs.entryLoc p = .ok old
  newEntry : fs.entryLoc target = .ok new
  done : fs.rename p target = .ok after

/-- The resolution of the home directory looks up something at or below a
location. -/
def OnWayHome (c : Connection) (fs : FileSys) (place : Loc) : Prop :=
  ∃ seen ∈ fs.lookups c.user.homeDir, place <+: seen

instance (c : Connection) (fs : FileSys) (place : Loc) : Decidable (OnWayHome c fs place) :=
  inferInstanceAs (Decidable (∃ seen ∈ fs.lookups c.user.homeDir, _))

/-- A rename beside the way to the home directory replaces no file there,
takes none out of it and brings none into it. -/
@[mk_iff]
structure MovesEvenly (c : Connection) (fs : FileSys) (old new : Loc) : Prop where
  within : fs.Scans c.user.homeDir old → fs.Scans c.user.homeDir new → fs.filesBelow new = ∅
  out : fs.Scans c.user.homeDir old → ¬ fs.Scans c.user.homeDir new → fs.filesBelow old = ∅
  into :
    ¬ fs.Scans c.user.homeDir old → fs.Scans c.user.homeDir new →
      fs.fileTotal new = fs.fileTotal old

/-- A rename that takes away an entry on the way to the home directory leaves
nothing to report. -/
def MoveBalances (c : Connection) (os : Os) (fs : FileSys) (old new : Loc) : Prop :=
  if old = new then True
  else if OnWayHome c fs old then scanReport os fs c.user.homeDir = 0
  else MovesEvenly c fs old new

def RenameBalances (c : Connection) (os : Os) (fs : FileSys) (request : Request) : Prop :=
  ∀ p target old new after,
    Renames c os fs request p target old new after → MoveBalances c os fs old new

/-- The new name replaces an entry on the way to the home directory. -/
def RedirectsHome (c : Connection) (os : Os) (fs : FileSys) (request : Request) : Prop :=
  ∃ p target old new after,
    Renames c os fs request p target old new after ∧ old ≠ new ∧ OnWayHome c fs new

section Report

variable {c : Connection} {os : Os} {fs after : FileSys} {old new : Loc}

theorem fileTotal_eq_zero_iff (fs : FileSys) (loc : Loc) :
    fs.fileTotal loc = 0 ↔ fs.filesBelow loc = ∅ := by
  have nothing : fs.tally {file | loc <+: file} = 0 ↔ ∀ file ∈ fs.filesBelow loc, ¬ loc <+: file :=
    tally_eq_zero_iff_files fun _ below => below
  rw [← fs.tally_below, nothing, Finset.eq_empty_iff_forall_notMem]
  refine forall_congr' fun file => imp_congr_right fun member => ?_
  simp [(mem_filesBelow.mp member).1]

section Moved

variable (node : ∀ loc, after.node loc = fs.movedNode old new loc)
include node

theorem scanTotal_moved_away (beside : ¬ OnWayHome c fs new) (away : OnWayHome c fs old) :
    after.scanTotal c.user.homeDir = 0 := by
  have arrives : ∀ seen ∈ fs.lookups c.user.homeDir, ¬ new <+: seen :=
    fun seen member below => beside ⟨seen, member, below⟩
  have nowhere : after.scanRoot c.user.homeDir = none := by
    apply @scanRoot_cut fs
    · intro seen member
      rw [node, movedNode, if_neg (arrives seen member)]
      split
      · exact Or.inr rfl
      · exact Or.inl rfl
    · obtain ⟨seen, member, below⟩ := away
      refine ⟨seen, member, ?_⟩
      rw [node, movedNode, if_neg (arrives seen member), if_pos below]
  rw [scanTotal, nowhere]

variable (inode : after.inode = fs.inode) (leaf : fs.isDirAt new = false) (outside : ¬ old <+: new)
include inode leaf outside

/-- Beside its way the report changes by the files that are replaced, leave
or arrive. -/
theorem scanTotal_moved_iff (nonroot : old ≠ []) (beside : ¬ OnWayHome c fs new)
    (stays : ¬ OnWayHome c fs old) :
    after.scanTotal c.user.homeDir = fs.scanTotal c.user.homeDir ↔ MovesEvenly c fs old new := by
  have change :=
    @scanTotal_moved fs after c.user.homeDir old new node inode
      nonroot leaf outside fun seen member =>
        ⟨fun below => stays ⟨seen, member, below⟩, fun below => beside ⟨seen, member, below⟩⟩
  rw [← tally_leaf leaf, fs.tally_below, fs.tally_below] at change
  rw [add_assoc] at change
  have even :
      after.scanTotal c.user.homeDir = fs.scanTotal c.user.homeDir ↔
        (if fs.Scans c.user.homeDir old then fs.fileTotal old else 0) +
            (if fs.Scans c.user.homeDir new then fs.fileTotal new else 0) =
          if fs.Scans c.user.homeDir new then fs.fileTotal old else 0 := by
    constructor
    · intro same
      rw [same] at change
      exact add_left_cancel change
    · intro same
      rw [same] at change
      exact add_right_cancel change
  rw [even, movesEvenly_iff]
  by_cases leaves : fs.Scans c.user.homeDir old <;>
    by_cases arrives : fs.Scans c.user.homeDir new <;>
    simp [leaves, arrives, fileTotal_eq_zero_iff]

end Moved

section Renamed

variable {request : Request} {p target : Str}
    (renames : Renames c os fs request p target old new after)
include renames

theorem Renames.scanTotal_iff (straight : old ≠ new → ¬ OnWayHome c fs new) :
    after.scanTotal c.user.homeDir = fs.scanTotal c.user.homeDir ↔
      MoveBalances c os fs old new := by
  obtain ⟨oldParent, oldText, newParent, newText, oldPlace, newPlace, _, moves⟩ :=
    rename_cases renames.done
  obtain rfl : old = oldParent ++ [oldText] := by
    simpa [FileSys.entryLoc, oldPlace] using renames.oldEntry.symm
  obtain rfl : new = newParent ++ [newText] := by
    simpa [FileSys.entryLoc, newPlace] using renames.newEntry.symm
  unfold MoveBalances
  rcases moves with ⟨same, rfl⟩ | ⟨different, move, rfl⟩
  · rw [if_pos same]
    exact iff_of_true rfl trivial
  rw [if_neg different]
  split
  · rename_i away
    rw [scanReport_eq, scanTotal_moved_away (fun _ => rfl) (straight different) away, eq_comm]
  · rename_i stays
    exact scanTotal_moved_iff (fun _ => rfl) rfl move.notDir move.outside (by simp)
      (straight different) stays

end Renamed

end Report

section Command

variable {c : Connection} {settings : Settings} {os : Os} {w : World} {request : Request}

theorem renameBalances_iff {fs after : FileSys} {p target : Str} {old new : Loc}
    (renames : Renames c os fs request p target old new after) :
    RenameBalances c os fs request ↔ MoveBalances c os fs old new := by
  refine ⟨fun balances => balances p target old new after renames, ?_⟩
  intro holds p' target' old' new' after' other
  have accepted := other.accepted
  rw [renames.accepted] at accepted
  cases accepted
  have aimed := other.aimed
  rw [renames.aimed] at aimed
  cases aimed
  have oldEntry := other.oldEntry
  rw [renames.oldEntry] at oldEntry
  cases oldEntry
  have newEntry := other.newEntry
  rw [renames.newEntry] at newEntry
  cases newEntry
  have done := other.done
  rw [renames.done] at done
  cases done
  exact holds

theorem filecmd_rename_cases (method : request.method = .rename) :
    (c.filecmd settings os w request).1 = w ∧
        (∀ p target old new after, ¬ Renames c os w.fs request p target old new after) ∨
      ∃ p target old new after, Renames c os w.fs request p target old new after ∧
          (c.filecmd settings os w request).1 =
            (w.setFs after).setPathPermissions os
              (if target ≠ [] then target else p) c.user.getUID
              c.user.getGID := by
  by_cases works : ∃ p target old new after, Renames c os w.fs request p target old new after
  · obtain ⟨p, target, old, new, after, renames⟩ := works
    refine Or.inr ⟨p, target, old, new, after, renames, ?_⟩
    simp only [Connection.filecmd, renames.accepted, renames.aimed, method,
      Connection.handleSFTPRename, renames.allowed, not_true_eq_false, if_false, renames.works,
      renames.done, orFault, Connection.applyCall, Connection.finishCmd]
  · refine Or.inl ⟨?_, fun p target old new after renames =>
      works ⟨p, target, old, new, after, renames⟩⟩
    unfold Connection.filecmd
    split
    · rfl
    rename_i p accepted
    split
    · rfl
    rename_i target aimed
    rw [method]
    simp only
    unfold Connection.handleSFTPRename
    split
    · rfl
    rename_i allowed
    cases renamed : orFault os.rename (w.fs.rename p target) with
    | error err => rfl
    | ok after =>
      obtain ⟨quiet, done⟩ := orFault_eq_ok.mp renamed
      obtain ⟨oldParent, oldText, newParent, newText, oldPlace, newPlace, _⟩ := rename_cases done
      exact absurd
        ⟨p, target, oldParent ++ [oldText], newParent ++ [newText], after,
          accepted, aimed, by simpa using allowed, quiet,
          by simp [FileSys.entryLoc, oldPlace],
          by simp [FileSys.entryLoc, newPlace], done⟩ works

end Command

def renameRequest (filepath target : String) : Request :=
  ⟨.rename, filepath.toList, target.toList, 0, ⟨0, 0, 0, 0, 0, 0⟩⟩

def renameWorld : World :=
  World.start
    (deletionTree.withFile sampleHome "g".toList ⟨"defgh".toList, sampleAttr⟩) fun _ => some (2, 8)

end Sshserv.Serv
