import Sshserv.Lib.Growth
import Sshserv.Serv.StoredUpload

/-!
# Destinations of a sink

The destination of the sink loop is a path below the user's root.  `Inside`
says that it leads to a directory which the checks accept, `Standing` that the
loop names the objects in it as a reader would.
-/

namespace Sshserv.Serv

open Lib UnixPath FileTree FileSys DataProvider

def homeNames (c : Connection) : Loc :=
  cleanNames true c.user.homeDir

variable {c : Connection} {names : Loc}

theorem requested_render (rooted : isAbs c.user.homeDir) (proper : ProperNames names) :
    c.requested (render names) = render (homeNames c ++ names) := by
  rw [Connection.requested, join_of_isAbs rooted, clean_render (cleanNames_proper _),
    cleanNames_append_render _ proper, homeNames]

theorem homeNames_append_proper (c : Connection) (proper : ProperNames names) :
    ProperNames (homeNames c ++ names) :=
  List.forall_mem_append.mpr ⟨cleanNames_proper _, proper⟩

theorem buildPath_congr
    {fs : FileSys} {rawPath other : Str} (same : c.requested rawPath = c.requested other) :
    c.buildPath fs rawPath = c.buildPath fs other := by
  unfold Connection.buildPath
  rw [same]

/-- The path with the names `rel` below the user's root leads to the directory
`place`, which the checks of `buildPath` accept. -/
structure Inside (c : Connection) (fs : FileSys) (rel place : Loc) : Prop where
  proper : ProperNames rel
  resolved : ∃ left, fs.resolve (render (homeNames c ++ rel)) = .found place left
  directory : fs.isDirAt place = true
  accepted : c.isSubDir fs (render place) = .ok ()
  home : HomeAccepted c fs

theorem isSubDir_grown {before after : FileSys} (grown : Grown before after) {sub : Str}
    (accepted : c.isSubDir before sub = .ok ()) :
    c.isSubDir after sub = .ok () := by
  obtain ⟨home, located, below⟩ := isSubDir_eq_ok_iff.mp accepted
  exact isSubDir_eq_ok_iff.mpr ⟨home, grown.evalLoc located, below⟩

namespace Inside

variable {c : Connection} {fs : FileSys} {rel place : Loc} {name : Str}

theorem grown {after : FileSys} (inside : Inside c fs rel place) (grown : Grown fs after) :
    Inside c after rel place := by
  obtain ⟨left, resolved⟩ := inside.resolved
  obtain ⟨home, located, directory, accepted⟩ := inside.home
  exact ⟨inside.proper, ⟨left, grown.resolve resolved⟩, grown.isDirAt inside.directory,
    isSubDir_grown grown inside.accepted, home, grown.evalLoc located, grown.isDirAt directory,
    isSubDir_grown grown accepted⟩

section Named

variable (inside : Inside c fs rel place) (rooted : isAbs c.user.homeDir)
    (proper : Proper name)
include inside proper

theorem proper_concat : ProperNames (rel ++ [name]) :=
  List.forall_mem_append.mpr ⟨inside.proper, List.forall_mem_singleton.mpr proper⟩

theorem slot :
    ∃ left,
      Slot fs (render (homeNames c ++ (rel ++ [name]))) (homeNames c ++ rel) name place left := by
  obtain ⟨left, resolved⟩ := inside.resolved
  refine ⟨left, by rw [List.append_assoc], ?_, resolved, inside.directory⟩
  rw [List.append_assoc]
  exact homeNames_append_proper c (inside.proper_concat proper)

theorem stat_absent (absent : fs.node (place ++ [name]) = none) :
    fs.stat (render (homeNames c ++ (rel ++ [name]))) = .error .noent := by
  obtain ⟨left, slot⟩ := inside.slot proper
  rw [stat_eq_error_iff, slot.resolve, walk_name, absent]
  simp [Outcome.located]

theorem child (isDir : fs.isDirAt (place ++ [name])) :
    Inside c fs (rel ++ [name]) (place ++ [name]) := by
  obtain ⟨left, slot⟩ := inside.slot proper
  refine ⟨inside.proper_concat proper, ⟨left, ?_⟩, isDir,
    isSubDir_below inside.accepted [name], inside.home⟩
  obtain ⟨attr, entry⟩ := isDirAt_iff.mp isDir
  rw [slot.resolve, walk_name, entry]
  simp

include rooted

theorem buildPath_present {left : Nat}
    (leads : fs.resolve (render (homeNames c ++ (rel ++ [name]))) = .found (place ++ [name]) left) :
    c.buildPath fs (render (rel ++ [name])) = .ok (render (homeNames c ++ (rel ++ [name]))) := by
  rw [← requested_render rooted (inside.proper_concat proper)] at leads ⊢
  exact buildPath_eq_ok_iff.mpr ⟨rfl, Or.inl
    ⟨place ++ [name], evalLoc_of_resolve leads, isSubDir_below inside.accepted [name]⟩⟩

theorem buildPath_missing
    (missing : fs.stat (render (homeNames c ++ (rel ++ [name]))) = .error .noent) :
    c.buildPath fs (render (rel ++ [name])) = .ok (render (homeNames c ++ (rel ++ [name]))) := by
  obtain ⟨left, slot⟩ := inside.slot proper
  have absent := evalLoc_noent_of_stat missing
  have searched := findNonexistentDirs_of_parent slot.proper slot.resolved inside.accepted
  rw [List.append_assoc] at searched
  have found := findFirstExistingDir_of_home searched inside.home
  rw [← requested_render rooted (inside.proper_concat proper)] at absent found ⊢
  exact buildPath_eq_ok_iff.mpr ⟨rfl, Or.inr ⟨absent, found⟩⟩

end Named

theorem buildPath_self (inside : Inside c fs rel place) (rooted : isAbs c.user.homeDir) :
    c.buildPath fs (render rel) = .ok (render (homeNames c ++ rel)) ∧
      ∃ info, fs.stat (render (homeNames c ++ rel)) = .ok info ∧ info.isDir = true := by
  obtain ⟨left, resolved⟩ := inside.resolved
  constructor
  · rw [← requested_render rooted inside.proper] at resolved ⊢
    exact buildPath_eq_ok_iff.mpr ⟨rfl, Or.inl
      ⟨place, evalLoc_of_resolve resolved, inside.accepted⟩⟩
  · exact stat_isDir_iff.mpr ⟨place, left, resolved, inside.directory⟩

end Inside

def objectPath (c : Connection) (destPath name : Str) : Str :=
  render (homeNames c ++ (cleanNames true destPath ++ [name]))

/-- The destination leads to the directory `place`.  A destination that climbs
above the user's root is read in two ways; it does no harm if the name of a
file is appended anyway. -/
structure Standing (cmd : ScpCommand) (fs : FileSys) (destPath : Str) (place : Loc) : Prop where
  rooted : isAbs destPath = true
  inside : Inside cmd.connection fs (cleanNames true destPath) place
  named :
    cmd.isRecursive = true ∨ destPath.getLast? = some '/' ∨
      cmd.connection.requested destPath = cmd.connection.requested (clean destPath)

namespace Standing

variable {cmd : ScpCommand} {fs : FileSys} {destPath name : Str}
    {place : Loc} (standing : Standing cmd fs destPath place)
include standing

theorem grown {after : FileSys} (grown : Grown fs after) : Standing cmd after destPath place :=
  ⟨standing.rooted, standing.inside.grown grown, standing.named⟩

theorem getFileUploadDestPath (home : isAbs cmd.connection.user.homeDir)
    {os : Os} (quiet : os.Quiet) {w : World} (tree : w.fs = fs) (proper : Proper name) :
    cmd.getFileUploadDestPath os w destPath name = render (cleanNames true destPath ++ [name]) := by
  rw [← join_proper standing.rooted proper]
  unfold ScpCommand.getFileUploadDestPath
  split
  · rename_i plain
    have same :
        cmd.connection.requested destPath =
          cmd.connection.requested (render (cleanNames true destPath)) := by
      rw [← clean_of_isAbs standing.rooted]
      rcases standing.named with recursive | slash | same
      · exact absurd recursive plain.1
      · exact absurd slash plain.2
      · exact same
    obtain ⟨accepted, info, found, isDir⟩ := standing.inside.buildPath_self home
    rw [tree, buildPath_congr same, accepted]
    simp only [quiet.statDest, orFault_none, found, isDir, if_true]
  · rfl

theorem slot (proper : Proper name) :
    ∃ left, Slot fs (objectPath cmd.connection destPath name)
        (homeNames cmd.connection ++ cleanNames true destPath) name place
        left :=
  standing.inside.slot proper

theorem join_name (proper : Proper name) :
    join destPath name = render (cleanNames true destPath ++ [name]) :=
  join_proper standing.rooted proper

theorem child (proper : Proper name) (isDir : fs.isDirAt (place ++ [name])) :
    Standing cmd fs (join destPath name) (place ++ [name]) := by
  have names := standing.inside.proper_concat proper
  rw [standing.join_name proper]
  refine ⟨isAbs_render _, ?_, ?_⟩
  · rw [cleanNames_render names]
    exact standing.inside.child proper isDir
  · right
    right
    rw [clean_render names]

theorem parent {inner : Str} (rooted : isAbs inner)
    (named : cleanNames true inner = cleanNames true destPath ++ [name]) :
    Standing cmd fs (join inner "..".toList) place ∧
      cleanNames true (join inner "..".toList) = cleanNames true destPath := by
  have proper := standing.inside.proper
  have back : join inner "..".toList = render (cleanNames true destPath) := by
    have up := join_dots rooted
    rw [named, List.dropLast_concat] at up
    exact up
  have same : cleanNames true (join inner "..".toList) = cleanNames true destPath := by
    rw [back, cleanNames_render proper]
  refine ⟨⟨by rw [back]; exact isAbs_render _, ?_, ?_⟩, same⟩
  · rw [same]
    exact standing.inside
  · right
    right
    rw [back, clean_render proper]

end Standing

section Message

variable {cmd : ScpCommand} {settings : Settings} {os : Os} {w : World}
    {destPath name : Str} {place : Loc} (standing : Standing cmd w.fs destPath place)
    (home : isAbs cmd.connection.user.homeDir) (quiet : os.Quiet) (proper : Proper name)
include standing home quiet proper

theorem handleCreateDir_in (permitted : cmd.connection.user.hasPerm permCreateDirs)
    (absent : w.fs.node (place ++ [name]) = none) (ch : Channel) :
    ∃ after, cmd.handleCreateDir os w ch (join destPath name) = ⟨after, ch, .ok⟩ ∧
        UpdatedAt w.fs after.fs (place ++ [name]) (some .dir) ∧
        after.quota = w.quota := by
  have inside := standing.inside
  obtain ⟨left, slot⟩ := standing.slot proper
  have accepted :
      cmd.connection.buildPath w.fs (render (cleanNames true destPath ++ [name])) =
        .ok (objectPath cmd.connection destPath name) :=
    inside.buildPath_missing home proper (inside.stat_absent proper absent)
  have room : w.fs.CanAdd place name := ⟨absent, slot.directory⟩
  have made :
      w.fs.mkdir (objectPath cmd.connection destPath name) os.attr =
        .ok (w.fs.addDir place name os.attr room) := by
    simp [mkdir, slot.entryOf, room]
  rw [standing.join_name proper]
  simp only [ScpCommand.handleCreateDir, permitted, not_true_eq_false,
    if_false, accepted, ScpCommand.createDir, quiet.mkdir, orFault_none, made]
  refine ⟨_, rfl, ?_, setPathPermissions_quota _ _ _ _ _⟩
  obtain ⟨shape, data⟩ :=
    setPathPermissions_tree
      (w.setFs (w.fs.addDir place name os.attr room)) os
      (objectPath cmd.connection destPath name)
      cmd.connection.user.getUID cmd.connection.user.getGID
  exact (view_addDir os.attr room).sameView (shape.view data)

omit quiet in
theorem handleCreateDir_taken (present : w.fs.node (place ++ [name]) ≠ none) (ch : Channel) :
    (cmd.handleCreateDir os w ch (join destPath name)).result ≠ .ok := by
  intro done
  obtain ⟨left, slot⟩ := standing.slot proper
  obtain ⟨_, p, fs, accepted, made, _⟩ := handleCreateDir_ok done
  rw [standing.join_name proper] at accepted
  have path : p = objectPath cmd.connection destPath name :=
    (buildPath_eq_ok_iff.mp accepted).1.trans
      (requested_render home (standing.inside.proper_concat proper))
  obtain ⟨parent, text, room, entry, _⟩ := mkdir_cases (orFault_eq_ok.mp made).2
  rw [path, slot.entryOf] at entry
  cases entry
  exact present room.absent

section Upload

variable (fresh : TempFresh settings os w.fs (objectPath cmd.connection destPath name))
    {content rest : List Char} {ch : Channel} (live : ch.Live)
    (bytes : ch.bytes = (content ++ okMsg) ++ rest)
include fresh live bytes

/-- A file whose path leads nowhere.  In place, its name has to be free. -/
theorem handleUpload_new_in (permitted : cmd.connection.user.hasPerm permUpload)
    (missing : w.fs.stat (objectPath cmd.connection destPath name) = .error .noent)
    (free : settings.Atomic ∨ w.fs.node (place ++ [name]) = none) (room :
      settings.provider.trackQuota = 0 ∨
        Room cmd.connection.user true (w.quota cmd.connection.user.username)) :
    ∃ after answered, Channel.Talks ch answered (content ++ okMsg) [Char.ofNat 0, Char.ofNat 0] ∧
        cmd.uploadNamed settings os w ch destPath name content.length =
          ⟨⟨after, answered, .ok⟩, content.length⟩ ∧
        landing settings w.fs (objectPath cmd.connection destPath name) = some (place ++ [name]) ∧
        Leaves settings cmd.connection.user w.fs
          (objectPath cmd.connection destPath name) content true
          (w.quota cmd.connection.user.username) after := by
  have inside := standing.inside
  obtain ⟨left, slot⟩ := standing.slot proper
  have accepted :
      cmd.connection.buildPath w.fs (render (cleanNames true destPath ++ [name])) =
        .ok (objectPath cmd.connection destPath name) :=
    inside.buildPath_missing home proper missing
  rw [ScpCommand.uploadNamed, standing.getFileUploadDestPath home quiet rfl proper]
  have creatable :
      w.fs.Creatable (uploadFilePath settings os (objectPath cmd.connection destPath name)) := by
    refine (creatable_uploadFilePath_iff fresh slot).mpr ?_
    rcases free with atomic | absent
    · exact Or.inl atomic
    · right
      right
      refine ⟨place, name, left, ?_⟩
      rw [slot.resolve, walk_name, absent]
      simp
  obtain ⟨opened, ref, requested, opens⟩ :=
    (scpOpen_new quiet permitted accepted missing slot).opens
      ⟨(hasSpace_iff quiet.getUsedQuota true).mpr room, creatable⟩
  have stores := opens.stored_new quiet fresh slot missing
  obtain ⟨after, answered, talks, done, leaves⟩ :=
    handleUpload_leaves live bytes quiet requested opens stores
  refine ⟨after, answered, talks, done, ?_, leaves⟩
  rw [landing_new missing]
  rcases free with atomic | absent
  · rw [if_pos atomic, slot.entryLoc]
    rfl
  · split
    · rw [slot.entryLoc]
      rfl
    · rw [slot.resolve, walk_name, absent]
      rfl

theorem handleUpload_over_in (permitted : cmd.connection.user.hasPerm permUpload)
    {ino : Nat} (entry : w.fs.node (place ++ [name]) = some (.file ino)) (room :
      settings.provider.trackQuota = 0 ∨
        Room cmd.connection.user true
          (released settings cmd.connection.user w (w.fs.inode ino).data.length)) :
    ∃ after answered, Channel.Talks ch answered (content ++ okMsg) [Char.ofNat 0, Char.ofNat 0] ∧
        cmd.uploadNamed settings os w ch destPath name content.length =
          ⟨⟨after, answered, .ok⟩, content.length⟩ ∧
        UpdatedAt w.fs after.fs (place ++ [name]) (some (.file content)) := by
  have inside := standing.inside
  obtain ⟨left, slot⟩ := standing.slot proper
  have leads :
      w.fs.resolve (objectPath cmd.connection destPath name) = .found (place ++ [name]) left := by
    rw [slot.resolve, walk_name, entry]
    simp
  have target :
      Target w.fs (objectPath cmd.connection destPath name) (place ++ [name])
        left ino := ⟨leads, entry⟩
  have accepted :
      cmd.connection.buildPath w.fs (render (cleanNames true destPath ++ [name])) =
        .ok (objectPath cmd.connection destPath name) :=
    inside.buildPath_present home proper leads
  have found :
      w.fs.stat (objectPath cmd.connection destPath name) =
        .ok ⟨(place ++ [name]).getLastD ['/'], .regular,
          (w.fs.inode ino).data.length, (w.fs.inode ino).attr⟩ :=
    stat_eq_ok_iff.mpr ⟨place ++ [name], left, leads, by simp [infoAt, entry]⟩
  rw [ScpCommand.uploadNamed, standing.getFileUploadDestPath home quiet rfl proper]
  obtain ⟨moved, moves, kept, movedSlot, creatable⟩ := moveAside_quiet quiet fresh slot target
  obtain ⟨opened, ref, requested, opens⟩ :=
    (scpOpen_existing quiet permitted accepted found rfl moves kept creatable movedSlot).opens room
  have stores := opens.stored_existing quiet fresh slot target moves
  obtain ⟨after, answered, talks, done, leaves⟩ :=
    handleUpload_leaves live bytes quiet requested opens stores
  obtain ⟨loc, lands, updated⟩ := leaves.1
  rw [landing_found leads] at lands
  cases lands
  exact ⟨after, answered, talks, done, updated⟩

theorem handleUpload_ok_in
    (done : (cmd.uploadNamed settings os w ch destPath name content.length).result = .ok) :
    ∃ after answered loc,
      Channel.Talks ch answered (content ++ okMsg) [Char.ofNat 0, Char.ofNat 0] ∧
        cmd.uploadNamed settings os w ch destPath name content.length =
          ⟨⟨after, answered, .ok⟩, content.length⟩ ∧
        landing settings w.fs (objectPath cmd.connection destPath name) = some loc ∧
        (w.fs.stat (objectPath cmd.connection destPath name) = .error .noent ∨
          ∃ ino, w.fs.node loc = some (.file ino)) ∧
        UpdatedAt w.fs after.fs loc (some (.file content)) := by
  obtain ⟨left, slot⟩ := standing.slot proper
  rw [ScpCommand.uploadNamed, standing.getFileUploadDestPath home quiet rfl proper] at done ⊢
  obtain ⟨opened, ref, requested, _⟩ := handleUpload_channel done
  have accepted :
      cmd.connection.buildPath w.fs (render (cleanNames true destPath ++ [name])) =
        .ok (objectPath cmd.connection destPath name) := by
    cases built : cmd.connection.buildPath w.fs (render (cleanNames true destPath ++ [name])) with
    | error err => simp [Connection.scpOpen, built] at requested
    | ok p =>
      rw [(buildPath_eq_ok_iff.mp built).1,
        requested_render home (standing.inside.proper_concat proper)]
      rfl
  obtain ⟨⟨base, used, opens⟩, stores, before⟩ := scpOpen_stored quiet fresh slot accepted requested
  obtain ⟨after, answered, talks, whole, ⟨loc, lands, updated⟩, _⟩ :=
    handleUpload_leaves live bytes quiet requested opens stores
  refine ⟨after, answered, loc, talks, whole, lands, ?_, updated⟩
  rcases before with missing | ⟨leaf, rest, ino, target⟩
  · exact Or.inl missing
  · rw [landing_found target.leads] at lands
    cases lands
    exact Or.inr ⟨ino, target.entry⟩

end Upload

end Message

end Sshserv.Serv
