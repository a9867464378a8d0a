import Sshserv.Lib.Tally

/-!
# Counting the files below a directory

What the system calls do to the number of regular files below a directory.
Every file has one inode, so two trees are compared through their inodes
(`card_le_of_inodes`).
-/

namespace Sshserv.Lib.FileTree

open Lib.UnixPath

namespace FileSys

variable {fs before middle after : FileSys} {home loc : Loc}

/-- Files whose inodes were below the directory before are at most as many as
the files then. -/
theorem card_le_of_inodes (after : FileSys) {files : Finset Loc} (known :
      ∀ loc ∈ files, ∃ ino other, after.node loc = some (.file ino) ∧
        home <+: other ∧ before.node other = some (.file ino)) :
    files.card ≤ (before.filesBelow home).card := by
  choose! ino other now below earlier using known
  apply Finset.card_le_card_of_injOn other
  · intro loc member
    exact mem_filesBelow.mpr ⟨below loc member, ino loc, earlier loc member⟩
  · intro one oneMember two twoMember same
    have sameIno : ino one = ino two := by
      have first := earlier one oneMember
      rw [same, earlier two twoMember] at first
      simpa using first.symm
    apply after.ino_inj one two (ino one) (now one oneMember)
    rw [sameIno]
    exact now two twoMember

/-- The directory is still there, and at most `extra` files are new. -/
structure Census (home : Loc) (extra : Nat) (before after : FileSys) : Prop where
  directory : before.isDirAt home = true → after.isDirAt home = true
  files : (after.filesBelow home).card ≤ (before.filesBelow home).card + extra

namespace Census

theorem refl (home : Loc) (fs : FileSys) : Census home 0 fs fs :=
  ⟨id, le_rfl⟩

theorem trans {one two : Nat} (first : Census home one before middle)
    (second : Census home two middle after) :
    Census home (one + two) before after := by
  refine ⟨fun directory => second.directory (first.directory directory), ?_⟩
  have early := first.files
  have late := second.files
  omega

theorem mono {less more : Nat} (census : Census home less before after)
    (bound : less ≤ more) : Census home more before after := by
  refine ⟨census.directory, ?_⟩
  have count := census.files
  omega

theorem of_inodes (directory : before.isDirAt home = true → after.isDirAt home = true) (known :
      ∀ loc ino, home <+: loc → after.node loc = some (.file ino) →
        ∃ other, home <+: other ∧ before.node other = some (.file ino)) :
    Census home 0 before after := by
  refine ⟨directory, card_le_of_inodes after fun loc member => ?_⟩
  obtain ⟨below, ino, entry⟩ := mem_filesBelow.mp member
  obtain ⟨other, otherBelow, earlier⟩ := known loc ino below entry
  exact ⟨ino, other, entry, otherBelow, earlier⟩

theorem sameShape (home : Loc) (shape : SameShape before after) : Census home 0 before after := by
  apply of_inodes
  · intro directory
    rw [shape.isDirAt]
    exact directory
  · intro loc ino below entry
    exact ⟨loc, below, (shape.node_file loc ino).mp entry⟩

theorem of_shift {delta : Int × Int} {extra : Nat}
    (shift : Shift {loc | home <+: loc} {home} delta before after) (bound : delta.1 ≤ extra) :
    Census home extra before after := by
  refine ⟨shift.directory home rfl, ?_⟩
  have files := congrArg Prod.fst shift.tally
  rw [tally_below, tally_below] at files
  simp only [fileTotal, Prod.fst_add] at files
  omega

theorem mkdir (home : Loc) {path : Str} {attr : Attr}
    (done : fs.mkdir path attr = .ok after) : Census home 0 fs after :=
  of_shift (Shift.mkdir _ _ done) (by simp)

theorem addFile (home : Loc) {parent : Loc} {text : Str} (new : Inode)
    (room : fs.CanAdd parent text) :
    Census home 1 fs (fs.addFile parent text new room) := by
  classical
  refine of_shift (Shift.addFile _ _ new room) ?_
  split <;> simp

theorem create (home : Loc) {path : Str} {attr : Attr} {handle : Handle}
    (done : fs.create path attr = .ok (after, handle)) :
    Census home 1 fs after := by
  rcases create_cases done with
    ⟨_, _, ino, _, _, rfl, _⟩ | ⟨_, _, _, room, _, rfl, _⟩
  · exact (sameShape home (sameShape_setInode ino _)).mono (by omega)
  · exact addFile home _ room

theorem rename_sibling {names : Loc} {one two : Str} (oneProper : ProperNames (names ++ [one]))
    (twoProper : ProperNames (names ++ [two])) (directory : fs.isDirAt home)
    (apart : ∀ entry, fs.entryLoc (render (names ++ [one])) = .ok entry → ¬ entry <+: home)
    (done : fs.rename (render (names ++ [one])) (render (names ++ [two])) = .ok after) :
    Census home 0 fs after := by
  obtain ⟨oldParent, oldText, newParent, newText, oldEntry, newEntry, _,
    ⟨_, rfl⟩ | ⟨_, move, rfl⟩⟩ := rename_cases done
  · exact refl home after
  have source : ¬ oldParent ++ [oldText] <+: home := apart _ (by simp [entryLoc, oldEntry])
  have target : ¬ newParent ++ [newText] <+: home := not_prefix_of_leaf move.notDir directory
  have parents : oldParent = newParent := by
    rw [entryOf_render_concat oneProper] at oldEntry
    rw [entryOf_render_concat twoProper] at newEntry
    split at oldEntry
    · split at oldEntry
      · rename_i place located isDir
        simp only [located, isDir, if_true] at newEntry
        cases oldEntry
        cases newEntry
        rfl
      · cases oldEntry
    · cases oldEntry
  subst parents
  apply of_inodes
  · intro _
    unfold isDirAt at directory ⊢
    have same :
        (fs.moveTree (oldParent ++ [oldText]) oldParent newText (by simp)
          move).node home = fs.node home :=
      (if_neg target).trans (if_neg source)
    rw [same]
    exact directory
  · intro loc ino below entry
    change fs.movedNode _ _ loc = some (.file ino) at entry
    unfold movedNode at entry
    split at entry
    · rename_i moved
      refine ⟨_, ?_, entry⟩
      -- what is counted at the new name was counted at the old one
      rcases List.prefix_or_prefix_of_prefix below moved with
        above | above
      · rcases List.prefix_concat_iff.mp above with here | inside
        · exact absurd (here ▸ List.prefix_rfl) target
        · exact inside.trans
            ((List.prefix_append oldParent [oldText]).trans (List.prefix_append _ _))
      · exact absurd above target
    · split at entry
      · cases entry
      · exact ⟨loc, below, entry⟩

end Census

end FileSys

end Sshserv.Lib.FileTree
