import Sshserv.Serv.QuotaBooks

/-!
# What an upload charges

Opening an existing file takes its size off the used quota, and closing adds
the sum of what all the `WriteAt` calls have written, while the size of the
file is how far the calls reach.
-/

namespace Sshserv.Serv

open Lib UnixPath FileTree FileSys DataProvider

/-- The used quota changes as the regular files below the home directory
do. -/
def UploadBalanced (user : User) (home : Loc) (before after : World) : Prop :=
  after.quota user.username =
    (before.quota user.username).map fun used =>
      used + (after.fs.fileTotal home - before.fs.fileTotal home)

instance (user : User) (home : Loc) (before after : World) :
    Decidable (UploadBalanced user home before after) :=
  inferInstanceAs (Decidable (_ = _))

/-! ## Calls at any offsets -/

def Transfer.writeEach (os : Os) (ref : Nat) : Nat → World → List (List Char × Int) → World
  | _, w, [] => w
  | index, w, (p, off) :: rest => writeEach os ref (index + 1) (writeAt os index w ref p off).1 rest

/-- The offsets and lengths of the calls that write.  On a file that is not
open for writing, or opened for appending, and at negative offsets they
fail. -/
def spans (os : Os) (writes : Bool) : Nat → List (List Char × Int) → List (Nat × Nat)
  | _, [] => []
  | index, (p, off) :: rest =>
    if writes = true ∧ 0 ≤ off then
      (off.toNat, (os.written index p).length) :: spans os writes (index + 1) rest
    else spans os writes (index + 1) rest

def sent (calls : List (Nat × Nat)) : Nat :=
  (calls.map Prod.snd).sum

/-- How far a file of size `far` reaches after a call. -/
def stretched (far : Nat) (call : Nat × Nat) : Nat :=
  if call.2 = 0 then far else max far (call.1 + call.2)

/-- How far calls reach in an empty file. -/
def reach (calls : List (Nat × Nat)) : Nat :=
  calls.foldl stretched 0

theorem length_writeBytes (old : List Char) (offset : Nat) (bytes : List Char) :
    (writeBytes old offset bytes).length = stretched old.length (offset, bytes.length) := by
  unfold writeBytes stretched
  by_cases empty : bytes = []
  · simp [empty]
  · have some : bytes.length ≠ 0 := by simpa using empty
    simp only [empty, if_false, some, List.length_append, List.length_take,
      List.length_replicate, List.length_drop]
    omega

/-- A handle writes to a file at given offsets, or all its writes fail. -/
structure OpenOn (handle : Handle) (ino : Nat) (writes : Bool) : Prop where
  ino : handle.ino = some ino
  isOpen : handle.isOpen = true
  mode : (handle.writable && !handle.append) = writes

section Calls

variable {os : Os} {w : World} {ref : Nat} {t : Transfer} {ino : Nat} {writes : Bool}

theorem OpenOn.writeAt {handle : Handle} (opened : OpenOn handle ino writes) (fs : FileSys)
    (bytes : List Char) (off now : Int) :
    (∃ after, fs.writeAt handle bytes off now = .ok after) ↔ writes = true ∧ 0 ≤ off := by
  unfold FileSys.writeAt
  rw [← opened.mode, opened.ino, opened.isOpen]
  by_cases appends : handle.append = true
  · simp [appends]
  by_cases negative : off < 0
  · simp [appends, negative]
  cases writable : handle.writable with
  | false => simp [appends, negative]
  | true =>
    simp only [appends, negative, if_false, Bool.and_self]
    simp [not_lt.mp negative]

theorem writeAt_counts (os : Os) (entry : w.transfers ref = some t)
    (opened : OpenOn t.file ino writes) (index : Nat) (p : List Char) (off : Int) :
    (Transfer.writeAt os index w ref p off).1.transfers ref =
        some { t with
          lastActivity := os.now
          bytesReceived := t.bytesReceived + sent (spans os writes index [(p, off)]) } ∧
      ((Transfer.writeAt os index w ref p off).1.fs.inode ino).data.length =
        (spans os writes index [(p, off)]).foldl stretched (w.fs.inode ino).data.length := by
  have works := opened.writeAt w.fs (os.written index p) off os.now
  unfold Transfer.writeAt
  rw [entry]
  simp only
  cases done : w.fs.writeAt t.file (os.written index p) off os.now with
  | error err =>
    have fails : ¬ (writes = true ∧ 0 ≤ off) := by
      rw [← works, done]
      simp
    simp [spans, fails, sent, World.setTransfer]
  | ok after =>
    have gets : writes = true ∧ 0 ≤ off := works.mp ⟨after, done⟩
    obtain ⟨own, known, data, _⟩ := writeAt_inode done
    obtain rfl : own = ino := by simpa [opened.ino] using known.symm
    simp [spans, gets, sent, World.setTransfer, data, length_writeBytes]

theorem writeEach_counts (os : Os) (calls : List (List Char × Int)) :
    ∀ (index : Nat) (w : World) (t : Transfer),
      w.transfers ref = some t → OpenOn t.file ino writes →
      (∃ activity,
        (Transfer.writeEach os ref index w calls).transfers ref =
          some { t with
            lastActivity := activity
            bytesReceived := t.bytesReceived + sent (spans os writes index calls) }) ∧
        ((Transfer.writeEach os ref index w calls).fs.inode ino).data.length =
          (spans os writes index calls).foldl stretched (w.fs.inode ino).data.length := by
  induction calls with
  | nil =>
    intro index w t entry opened
    refine ⟨⟨t.lastActivity, ?_⟩, rfl⟩
    simp [Transfer.writeEach, spans, sent, entry]
  | cons call rest ih =>
    intro index w t entry opened
    obtain ⟨p, off⟩ := call
    obtain ⟨counted, size⟩ := writeAt_counts os entry opened index p off
    obtain ⟨⟨activity, later⟩, final⟩ := ih (index + 1) _ _ counted opened
    have parts :
        spans os writes index ((p, off) :: rest) =
          spans os writes index [(p, off)] ++ spans os writes (index + 1) rest := by
      simp only [spans]
      split <;> rfl
    rw [parts, Transfer.writeEach, final, size, List.foldl_append]
    refine ⟨⟨activity, later.trans ?_⟩, rfl⟩
    simp [sent, add_assoc]

theorem wrote_writeEach (os : Os) (ref : Nat) (calls : List (List Char × Int)) :
    ∀ (index : Nat) (w : World), Wrote ref w (Transfer.writeEach os ref index w calls) := by
  induction calls with
  | nil => exact fun _ w => Wrote.refl ref w
  | cons call rest ih =>
    intro index w
    exact (wrote_writeAt os index w ref call.1 call.2).trans (ih (index + 1) _)

end Calls

/-! ## Closing -/

/-- The rename at the end of an upload, if there is one, takes no directory
and replaces no regular file, and both names are below the home directory or
none is. -/
def Settles (home : Loc) (fs : FileSys) (name path : Str) : Prop :=
  name ≠ path →
    ∃ source target, fs.entryLoc name = .ok source ∧
      fs.entryLoc path = .ok target ∧ fs.isDirAt source = false ∧
      (home <+: source ↔ home <+: target) ∧
      ∀ ino, fs.node target ≠ some (.file ino)

section Closing

variable {home : Loc} {fs after : FileSys} {name path : Str}

theorem Settles.sameShape (settles : Settles home fs name path)
    (shape : SameShape fs after) : Settles home after name path := by
  intro different
  obtain ⟨source, target, oldEntry, newEntry, leaf, both, free⟩ := settles different
  have entries : ∀ q, after.entryLoc q = fs.entryLoc q := by
    intro q
    rw [FileSys.entryLoc, shape.entryOf, shape.resolve, FileSys.entryLoc]
  refine ⟨source, target, (entries name).trans oldEntry,
    (entries path).trans newEntry, (shape.isDirAt source).trans leaf, both, ?_⟩
  intro ino
  rw [Ne, shape.node_file]
  exact free ino

theorem Settles.fileTotal (settles : Settles home fs name path) (os : Os) :
    (Transfer.settledTree os fs name path).fileTotal home = fs.fileTotal home := by
  unfold Transfer.settledTree
  split
  · rename_i different
    split
    · rename_i after renamed
      obtain ⟨source, target, oldEntry, newEntry, leaf, both, free⟩ := settles different
      have shift : Shift {loc | home <+: loc} ∅ 0 fs after :=
        Shift.rename_leaf oldEntry newEntry leaf
          (Set.notMem_empty source) both
          (fun _ => weight_view_eq_zero free)
          (orFault_eq_ok.mp renamed).2
      rw [← tally_below, ← tally_below, shift.tally, add_zero]
    · rfl
  · rfl

end Closing

/-! ## An upload that has been opened -/

/-- An upload of `user` has been opened: the transfer writes to the empty file
`ino` at `leaf`, the size `old` has been taken off the used quota, and the
files below the home directory have changed accordingly if `leaf` is one of
them. -/
structure Started (user : User) (home : Loc) (before : World) (isNew : Bool)
    (old : Int) (writes : Bool) (leaf : Loc) (ino : Nat) (t : Transfer)
    (started : World) (ref : Nat) : Prop where
  entry : started.transfers ref = some t
  upload : t.transferType = .upload
  owner : t.user = user
  isNewFile : t.isNewFile = isNew
  nothing : t.bytesReceived = 0
  opened : OpenOn t.file ino writes
  node : started.fs.node leaf = some (.file ino)
  empty : (started.fs.inode ino).data = []
  tree :
    started.fs.fileTotal home =
      before.fs.fileTotal home + if home <+: leaf then ((if isNew then 1 else 0), -old) else 0
  quota :
    started.quota user.username = (before.quota user.username).map fun used => used + (0, -old)
  settles : Settles home started.fs t.file.name t.path

def uploadEnd (settings : Settings) (os : Os) (started : World) (ref : Nat)
    (calls : List (List Char × Int)) : World :=
  (Transfer.close settings os (Transfer.writeEach os ref 0 started calls) ref).1

section Ends

variable {settings : Settings} {os : Os} {user : User} {home : Loc} {before : World} {isNew : Bool}
    {old : Int} {writes : Bool} {leaf : Loc} {ino : Nat} {t : Transfer} {started : World}
    {ref : Nat} (start : Started user home before isNew old writes leaf ino t started ref)
    (calls : List (List Char × Int))
include start

theorem Started.fileTotal_end :
    (uploadEnd settings os started ref calls).fs.fileTotal home =
      before.fs.fileTotal home +
        if home <+: leaf then
          ((if isNew then 1 else 0), (reach (spans os writes 0 calls) : Int) - old)
        else 0 := by
  classical
  have wrote := wrote_writeEach os ref calls 0 started
  obtain ⟨⟨activity, entry⟩, size⟩ := writeEach_counts os calls 0 started t start.entry start.opened
  have shape := sameShape_of_node wrote.node
  have others :
      ∀ other, other ≠ ino →
        ((Transfer.writeEach os ref 0 started calls).fs.inode other).data =
          (started.fs.inode other).data := by
    intro other different
    rw [(wrote.own t start.entry).2 other]
    rw [start.opened.ino]
    simpa using different.symm
  have shift := Shift.rewritten {loc | home <+: loc} ∅ shape start.node others
  have grown := shift.tally
  rw [tally_below, tally_below, start.tree, size, start.empty] at grown
  rw [uploadEnd, Transfer.close_upload_fs entry start.upload,
    (start.settles.sameShape shape).fileTotal os, grown, add_assoc]
  congr 1
  by_cases inside : home <+: leaf
  · simp [inside, reach, sub_eq_neg_add]
  · simp [inside]

theorem Started.quota_end (tracks : settings.provider.trackQuota = 1)
    (closes : os.closeQuota = none) :
    (uploadEnd settings os started ref calls).quota user.username =
      (before.quota user.username).map fun used =>
        used + ((if isNew then 1 else 0), (sent (spans os writes 0 calls) : Int) - old) := by
  obtain ⟨⟨activity, entry⟩, _⟩ := writeEach_counts os calls 0 started t start.entry start.opened
  have counted := @Transfer.close_upload_quota settings os _ ref _ entry start.upload
  have booked :=
    (Booked.updateUserQuota tracks ∅ ∅
      (Transfer.writeEach os ref 0 started calls) os.closeQuota t.user
      (if t.isNewFile then 1 else 0)
      (t.bytesReceived + sent (spans os writes 0 calls))).used
  rw [uploadEnd, ← start.owner]
  refine (counted.trans booked).trans ?_
  rw [(wrote_writeEach os ref calls 0 started).quota, start.owner,
    start.quota, Option.map_map, closes, start.isNewFile, start.nothing]
  congr 1
  funext used
  simp only [Function.comp_apply, if_true, zero_add, add_assoc, Prod.mk_add_mk]
  congr 2
  ring

/-- Below the home directory the calls have to send as many bytes as they
reach, elsewhere as many as have been taken off. -/
theorem Started.balanced_iff {used : Int × Int} (tracks : settings.provider.trackQuota = 1)
    (closes : os.closeQuota = none) (record : before.quota user.username = some used) :
    UploadBalanced user home before (uploadEnd settings os started ref calls) ↔
      if home <+: leaf then
        sent (spans os writes 0 calls) = reach (spans os writes 0 calls)
      else isNew = false ∧ (sent (spans os writes 0 calls) : Int) = old := by
  rw [UploadBalanced, start.quota_end calls tracks closes,
    start.fileTotal_end calls, record, add_sub_cancel_left]
  simp only [Option.map_some, Option.some.injEq, add_right_inj]
  by_cases inside : home <+: leaf
  · simp [inside]
  · cases isNew with
    | false => simp [inside, Prod.ext_iff, sub_eq_zero]
    | true => simp [inside, Prod.ext_iff]

end Ends

/-! ## Opening an existing file -/

variable {fs : FileSys} {home : Loc} {settings : Settings} {os : Os} {p : Str}

/-- Entries of one directory that are no directories are below the home
directory together. -/
theorem below_sibling_iff {place : Loc} {one two : Str} (directory : fs.isDirAt home)
    (first : fs.isDirAt (place ++ [one]) = false) (second : fs.isDirAt (place ++ [two]) = false) :
    home <+: place ++ [one] ↔ home <+: place ++ [two] := by
  have apart : ∀ text, fs.isDirAt (place ++ [text]) = false →
      (home <+: place ++ [text] ↔ home <+: place) := by
    intro text leaf
    rw [List.prefix_concat_iff, or_iff_right]
    rintro rfl
    rw [directory] at leaf
    cases leaf
  rw [apart one first, apart two second]

section Existing

variable {c : Connection} {settings : Settings} {os : Os} {w : World} {p : Str} {home comps : Loc}

theorem moveAside_kept {leaf : Loc} {rest ino : Nat} {moved : World}
    (target : Target w.fs p leaf rest ino) (path : p = render comps) (proper : ProperNames comps)
    (directory : w.fs.isDirAt home) (fresh : TempFresh settings os w.fs p)
    (aside : Connection.moveAside settings os w p (uploadFilePath settings os p) = .ok moved) :
    moved.fs.fileTotal home = w.fs.fileTotal home ∧
      moved.fs.inode = w.fs.inode ∧ moved.quota = w.quota ∧
      Settles home moved.fs (uploadFilePath settings os p) p ∧
      ∃ names last place left final more,
        Slot moved.fs (uploadFilePath settings os p) names last place left ∧
          Target moved.fs (uploadFilePath settings os p) final more ino ∧
          (home <+: final ↔ home <+: leaf) := by
  rcases moveAside_moved target path proper fresh aside with ⟨_, file, rfl⟩ |
    ⟨_, file, noSlash, tree, names, last, place, left, rfl, _, slot, gone, move⟩
  · rw [file]
    obtain ⟨names, last, place, left, slot⟩ := target.slot path proper
    exact ⟨rfl, rfl, rfl, fun different => absurd rfl different, names,
      last, place, left, leaf, rest, slot, target, Iff.rfl⟩
  · rw [file]
    have after := slot.after_move gone target.leads target.notDir move
    obtain ⟨final, more, there, which⟩ := slot.target_moved noSlash gone target move
    have leafEntry := (slot.leaf_entry target.leads target.notDir).2.1
    have both := below_sibling_iff directory leafEntry
      (show w.fs.isDirAt (place ++ [tempName os last]) = false by
        simp [isDirAt, gone])
    have shift : Shift {loc | home <+: loc} ∅ 0 w.fs tree :=
      slot.shift_moved gone target move (Set.notMem_empty _) both
    refine ⟨?_, move.inode, rfl, ?_, names, _, place, left, final, more,
      after.temp noSlash, there, ?_⟩
    · rw [World.setFs_fs, ← tally_below, ← tally_below, shift.tally, add_zero]
    · intro _
      refine ⟨place ++ [tempName os last], place ++ [last],
        (after.temp noSlash).entryLoc, after.entryLoc, ?_, both.symm, ?_⟩
      · rw [isDirAt, World.setFs_fs, move.node, if_pos rfl]
        exact leafEntry
      · intro other
        rw [World.setFs_fs, move.node, if_neg (by simpa using (tempName_ne os last).symm),
          if_pos rfl]
        simp
    · rcases which with rfl | ⟨rfl, rfl⟩
      · rfl
      · exact both.symm

/-- The flags of an open file let it be written at given offsets. -/
def writesAt (flags : OpenFlags) : Bool :=
  flags.write && !flags.append

theorem started_of_opened {before middle : World} {isNew : Bool} {old : Int} {leaf : Loc}
    {ino : Nat} {flags : OpenFlags} {filePath : Str} (node : middle.fs.node leaf = some (.file ino))
    (empty : (middle.fs.inode ino).data = []) (tree :
      middle.fs.fileTotal home =
        before.fs.fileTotal home + if home <+: leaf then ((if isNew then 1 else 0), -old) else 0)
    (quota :
      middle.quota c.user.username =
        (before.quota c.user.username).map fun used => used + (0, -old))
    (settles : Settles home middle.fs filePath p) (uid gid : Int) :
    Started c.user home before isNew old (writesAt flags) leaf ino
      (c.newTransfer os (handleOf filePath ino flags) p .upload isNew)
      ((middle.setPathPermissions os filePath uid gid).addTransfer
        (c.newTransfer os (handleOf filePath ino flags) p .upload isNew)).1
      ((middle.setPathPermissions os filePath uid gid).addTransfer
        (c.newTransfer os (handleOf filePath ino flags) p .upload isNew)).2 := by
  obtain ⟨shape, data⟩ := setPathPermissions_tree middle os filePath uid gid
  have booked := Booked.setPathPermissions c.user {loc | home <+: loc} ∅ middle os filePath uid gid
  have total := booked.shift.tally
  have used := booked.used
  rw [tally_below, tally_below, add_zero] at total
  simp only [add_zero, Option.map_id'] at used
  exact ⟨if_pos rfl, rfl, rfl, rfl, rfl, ⟨rfl, rfl, rfl⟩, (shape.node_file _ _).mpr node,
    (data ino).trans empty, Eq.trans total tree, Eq.trans used quota, settles.sameShape shape⟩

theorem existingFile_started (tracks : settings.provider.trackQuota = 1)
    (takes : os.updateQuota = none) {info : FileInfo} {flags : OpenFlags}
    {started : World} {ref : Nat} (path : p = render comps) (proper : ProperNames comps)
    (directory : w.fs.isDirAt home) (fresh : TempFresh settings os w.fs p)
    (found : w.fs.stat p = .ok info) (regular : info.isDir = false) (opened :
      c.handleSFTPUploadToExistingFile settings os w flags p
        (uploadFilePath settings os p) info.size = (started, .done ref)) :
    ∃ leaf rest place ino t, w.fs.resolve p = .found leaf rest ∧
        (home <+: place ↔ home <+: leaf) ∧
        Started c.user home w false info.size
          (writesAt (getOSOpenFlags flags)) place ino t started ref := by
  classical
  obtain ⟨leaf, rest, ino, target, size⟩ := target_of_stat found regular
  unfold Connection.handleSFTPUploadToExistingFile at opened
  split at opened
  · cases opened
  split at opened
  · cases opened
  rename_i truncates
  split at opened
  · cases opened
  rename_i moved aside
  obtain ⟨same, content, quota, settles, _, _, _, _, place, _, slot, there,
    inside⟩ := moveAside_kept target path proper directory fresh aside
  split at opened
  · cases opened
  rename_i fs file done
  obtain ⟨rfl, rfl⟩ :=
    slot.openFile_truncated there (not_not.mp truncates) (orFault_eq_ok.mp done).2
  have shape : SameShape moved.fs (moved.fs.truncated ino os.attr) := sameShape_setInode ino _
  have node := (shape.node_file place ino).mpr there.entry
  have empty : ((moved.fs.truncated ino os.attr).inode ino).data = [] := by
    simp [truncated, setInode]
  have tree :
      (moved.fs.truncated ino os.attr).fileTotal home =
        w.fs.fileTotal home + if home <+: place then (0, -(info.size : Int)) else 0 := by
    have total := (Shift.truncated {loc | home <+: loc} ∅ there.entry os.attr).tally
    rw [tally_below, tally_below, same, content, ← size] at total
    rw [total]
    congr 1
    by_cases below : home <+: place <;> simp [below]
  have booked :=
    (Booked.updateUserQuota tracks ∅ ∅
      (moved.setFs (moved.fs.truncated ino os.attr)) os.updateQuota c.user 0
      (-info.size)).used
  rw [takes, World.setFs_quota, quota] at booked
  rw [takes] at opened
  have start :=
    @started_of_opened c os p home w
      ((moved.setFs (moved.fs.truncated ino os.attr)).updateUserQuota settings
        none c.user 0 (-info.size)) false info.size place ino
      (getOSOpenFlags flags) (uploadFilePath settings os p)
      (by rw [World.updateUserQuota_fs]; exact node)
      (by rw [World.updateUserQuota_fs]; exact empty)
      (by rw [World.updateUserQuota_fs]; exact tree) booked
      (by rw [World.updateUserQuota_fs]; exact settles.sameShape shape)
      c.user.getUID c.user.getGID
  cases opened
  exact ⟨leaf, rest, place, ino, _, target.leads, inside, start⟩

end Existing

/-! ## Opening a new file -/

section New

variable {c : Connection} {settings : Settings} {os : Os} {w middle : World}
    {p : Str} {home names comps : Loc} {last : Str}

/-- The directory of a new file in atomic mode, once its missing directories
are made: neither name is in use, except for a dangling link. -/
theorem createMissingDirs_slot (path : p = render (names ++ [last]))
    (proper : ProperNames (names ++ [last]))
    (missing : w.fs.stat p = .error .noent) (noSlash : '/' ∉ os.guid)
    (absent : ∀ loc, w.fs.entryLoc (getUploadTempFilePath os p) = .ok loc → w.fs.node loc = none)
    (dirs : c.createMissingDirs os w p = (middle, .ok ())) {attr : Attr} {made : FileSys × Handle}
    (created : middle.fs.create (getUploadTempFilePath os p) attr = .ok made) :
    ∃ place left, Slot middle.fs p names last place left ∧
      middle.fs.node (place ++ [tempName os last]) = none ∧
      middle.fs.isDirAt (place ++ [last]) = false ∧
      ∀ ino, middle.fs.node (place ++ [last]) ≠ some (.file ino) := by
  rcases createMissingDirs_cases path proper dirs with
    rfl | ⟨base, next, more, place, left, _, _, _, ready⟩
  · obtain ⟨tempProper, tempPath⟩ := getUploadTempFilePath_render noSlash proper
    have looked := create_cases created
    rw [path, tempPath] at looked
    obtain ⟨place, left, temp⟩ :=
      slot_of_lookup tempProper (by
        rcases looked with
          ⟨loc, rest, _, found, _⟩ | ⟨parent, text, rest, _, stuck, _⟩
        · exact Or.inl ⟨loc, rest, found⟩
        · exact Or.inr ⟨parent, text, rest, stuck⟩)
    have slot : Slot middle.fs p names last place left :=
      ⟨path, proper, temp.resolved, temp.directory⟩
    rw [stat_eq_error_iff, slot.resolve, walk_name] at missing
    refine ⟨place, left, slot, absent _ (slot.temp noSlash).entryLoc, ?_, ?_⟩
    · by_contra directory
      obtain ⟨attr, entry⟩ := isDirAt_iff.mp (by simpa using directory)
      simp [entry, Outcome.located] at missing
    · intro ino entry
      simp [entry, Outcome.located] at missing
  · refine ⟨_, left, ⟨path, proper, ready.resolved, ready.directory⟩, ready.empty _, ?_, ?_⟩
    · rw [isDirAt, ready.empty]
      rfl
    · intro ino
      rw [ready.empty]
      simp

theorem below_stop_iff {fs : FileSys} {q : Str} {stop leaf : Loc} (directory : fs.isDirAt home)
    (stuck : (fs.resolve q).stuckAt = some stop) (below : stop <+: leaf) :
    home <+: leaf ↔ home <+: stop := by
  refine ⟨fun inside => ?_, fun inside => inside.trans below⟩
  rcases List.prefix_or_prefix_of_prefix inside below with here | above
  · exact here
  · have leaf : fs.isDirAt stop = false := by simp [isDirAt, node_of_stuckAt stuck]
    exact absurd above (not_prefix_of_leaf leaf directory)

theorem settles_addFile {fs : FileSys} {place : Loc} {left : Nat} {new : Inode}
    (directory : fs.isDirAt home) (slot : Slot fs p names last place left)
    (noSlash : '/' ∉ os.guid) (gone : fs.node (place ++ [tempName os last]) = none)
    (leaf : fs.isDirAt (place ++ [last]) = false)
    (free : ∀ ino, fs.node (place ++ [last]) ≠ some (.file ino))
    (room : fs.CanAdd place (tempName os last)) :
    Settles home (fs.addFile place (tempName os last) new room) (getUploadTempFilePath os p) p := by
  have updated :
      UpdatedAt fs (fs.addFile place (tempName os last) new room)
        (place ++ [tempName os last]) (some (.file new.data)) :=
    view_addFile new room
  have grown := updated.grown (view_eq_none_iff.mpr room.absent)
  have after : Slot (fs.addFile place (tempName os last) new room) p names last place left :=
    ⟨slot.path, slot.proper, grown.resolve slot.resolved, grown.isDirAt slot.directory⟩
  have different : place ++ [last] ≠ place ++ [tempName os last] := by
    simpa using (tempName_ne os last).symm
  intro _
  refine ⟨place ++ [tempName os last], place ++ [last],
    (after.temp noSlash).entryLoc, after.entryLoc, ?_, ?_, ?_⟩
  · simp [isDirAt, node_addFile, Node.isDir]
  · apply below_sibling_iff directory _ leaf
    simp [isDirAt, gone]
  · intro ino
    rw [node_addFile, if_neg different]
    exact free ino

theorem settles_created {fs : FileSys} {handle : Handle} (path : p = render (names ++ [last]))
    (proper : ProperNames (names ++ [last])) (directory : middle.fs.isDirAt home)
    (fresh : TempFresh settings os w.fs p) (missing : w.fs.stat p = .error .noent)
    (dirs : c.createMissingDirs os w p = (middle, .ok ()))
    (created : middle.fs.create (uploadFilePath settings os p) os.attr = .ok (fs, handle)) :
    Settles home fs (uploadFilePath settings os p) p := by
  by_cases atomic : settings.Atomic
  · obtain ⟨noSlash, absent⟩ := fresh atomic
    have temp : uploadFilePath settings os p = getUploadTempFilePath os p := if_pos atomic
    rw [temp] at created ⊢
    obtain ⟨place, left, slot, gone, leaf, free⟩ :=
      createMissingDirs_slot path proper missing noSlash absent dirs created
    obtain ⟨space, again⟩ := (slot.temp noSlash).create_new gone os.attr
    rw [again, Except.ok.injEq, Prod.mk.injEq] at created
    rw [← created.1]
    exact settles_addFile directory slot noSlash gone leaf free space
  · exact fun different => absurd (if_neg atomic) different

theorem newFile_started {started : World} {ref : Nat}
    (path : p = render comps) (proper : ProperNames comps)
    (directory : w.fs.isDirAt home) (fresh : TempFresh settings os w.fs p)
    (missing : w.fs.stat p = .error .noent) (opened :
      c.handleSFTPUploadToNewFile settings os w p
        (uploadFilePath settings os p) = (started, .done ref)) :
    ∃ stop place ino t, (w.fs.resolve (uploadFilePath settings os p)).stuckAt = some stop ∧
        (home <+: place ↔ home <+: stop) ∧
        Started c.user home w true 0 true place ino t started ref := by
  classical
  obtain ⟨names, last, name, rfl, nameProper, file, vacant⟩ :=
    TempFresh.vacant path proper missing fresh
  unfold Connection.handleSFTPUploadToNewFile at opened
  split at opened
  · cases opened
  split at opened
  · cases opened
  split at opened
  · cases opened
  rename_i middle dirs
  split at opened
  · cases opened
  rename_i fs handle done
  have created := (orFault_eq_ok.mp done).2
  have made := created
  rw [file] at made vacant
  obtain ⟨parent, text, stop, room, stuck, below, rfl, rfl⟩ :=
    created_place path proper nameProper vacant (Or.inr dirs) made
  rw [← file] at stuck
  have booked := Booked.createMissingDirs c.user {loc | home <+: loc} {home} c os w p
  rw [dirs] at booked
  have isDir := booked.shift.directory home rfl directory
  have shift := Shift.addFile {loc | home <+: loc} ∅ ⟨[], os.attr⟩ room
  have total := shift.tally
  rw [booked.shift.tally, tally_below, tally_below, add_zero] at total
  have used := booked.used
  have settles := settles_created path proper isDir fresh missing dirs created
  have start :=
    @started_of_opened c os p home w
      (middle.setFs (middle.fs.addFile parent text ⟨[], os.attr⟩ room)) true 0
      (parent ++ [text]) middle.fs.nextIno createFlags
      (uploadFilePath settings os p) (by simp [addFile])
      (by simp [addFile])
      (by
        rw [World.setFs_fs, total]
        by_cases inside : home <+: parent ++ [text] <;> simp [inside])
      (by
        rw [neg_zero, Prod.mk_zero_zero]
        exact used)
      settles c.user.getUID c.user.getGID
  rw [← file] at opened
  cases opened
  exact ⟨stop, parent ++ [text], _, _, stuck, below_stop_iff directory stuck below, start⟩

end New

/-! ## The exact condition -/

/-- The file that an upload to a path overwrites, or where the walk to a new
one breaks off. -/
def uploadPlace (settings : Settings) (os : Os) (fs : FileSys) (p : Str) : Option Loc :=
  match fs.resolve p with
  | .found leaf _ => some leaf
  | _ => (fs.resolve (uploadFilePath settings os p)).stuckAt

/-- The upload works on a file below the home directory. -/
def UploadInside (settings : Settings) (os : Os) (fs : FileSys) (home : Loc) (p : Str) : Prop :=
  ∃ place ∈ uploadPlace settings os fs p, home <+: place

instance (settings : Settings) (os : Os) (fs : FileSys) (home : Loc)
    (p : Str) : Decidable (UploadInside settings os fs home p) :=
  inferInstanceAs (Decidable (∃ place ∈ uploadPlace settings os fs p, _))

theorem uploadInside_of_found {leaf : Loc} {left : Nat} (leads : fs.resolve p = .found leaf left) :
    UploadInside settings os fs home p ↔ home <+: leaf := by
  simp [UploadInside, uploadPlace, leads]

theorem uploadInside_of_missing {stop : Loc} (missing : fs.stat p = .error .noent)
    (stuck : (fs.resolve (uploadFilePath settings os p)).stuckAt = some stop) :
    UploadInside settings os fs home p ↔ home <+: stop := by
  have absent := stat_eq_error_iff.mp missing
  have place : uploadPlace settings os fs p = some stop := by
    unfold uploadPlace
    split
    · rename_i leads
      simp [leads, Outcome.located] at absent
    · exact stuck
  simp [UploadInside, place]

/-- Below the home directory, the calls that write send as many bytes as they
reach.  Elsewhere they send as many as the existing file had; a new file is
always charged. -/
def WritesBalance (c : Connection) (settings : Settings) (os : Os)
    (fs : FileSys) (home : Loc) (request : Request) (calls : List (List Char × Int)) : Prop :=
  match fs.stat (c.requested request.filepath) with
  | .ok info =>
    let written := spans os (writesAt (getOSOpenFlags request.pflags)) 0 calls
    if UploadInside settings os fs home (c.requested request.filepath) then
      sent written = reach written
    else sent written = info.size
  | .error _ =>
    UploadInside settings os fs home (c.requested request.filepath) ∧
      sent (spans os true 0 calls) = reach (spans os true 0 calls)

instance (c : Connection) (settings : Settings) (os : Os) (fs : FileSys)
    (home : Loc) (request : Request) (calls : List (List Char × Int)) :
    Decidable (WritesBalance c settings os fs home request calls) :=
  match known : fs.stat (c.requested request.filepath) with
  | .ok info =>
    let written := spans os (writesAt (getOSOpenFlags request.pflags)) 0 calls
    decidable_of_iff
      (if UploadInside settings os fs home (c.requested request.filepath)
        then sent written = reach written
        else sent written = info.size)
      (by rw [WritesBalance, known])
  | .error _ =>
    decidable_of_iff
      (UploadInside settings os fs home (c.requested request.filepath) ∧
        sent (spans os true 0 calls) = reach (spans os true 0 calls))
      (by rw [WritesBalance, known])

/-- For every upload that `Filewrite` opens and any calls of `WriteAt` before
its end: the used quota changes as the files below the home directory do
exactly if the offsets and lengths of the calls balance. -/
theorem upload_balanced_iff (c : Connection) (settings : Settings) (os : Os) (w : World)
    (request : Request) (started : World) (ref : Nat) (calls : List (List Char × Int)) (home : Loc)
    (used : Int × Int) (tracks : settings.provider.trackQuota = 1) (takes : os.updateQuota = none)
    (closes : os.closeQuota = none) (record : w.quota c.user.username = some used)
    (rooted : isAbs c.user.homeDir) (homeward : w.fs.LeadsToDir c.user.homeDir home)
    (fresh : TempFresh settings os w.fs (c.requested request.filepath))
    (opened : c.filewrite settings os w request = (started, .done ref)) :
    UploadBalanced c.user home w (uploadEnd settings os started ref calls) ↔
      WritesBalance c settings os w.fs home request calls := by
  obtain ⟨comps, proper, path⟩ := requested_eq_render rooted request.filepath
  unfold Connection.filewrite at opened
  split at opened
  · cases opened
  split at opened
  · cases opened
  rename_i p accepted
  have equal := (buildPath_eq_ok_iff.mp accepted).1
  rw [← equal] at path fresh
  unfold WritesBalance
  rw [← equal]
  split at opened
  · rename_i missing
    have nothing := (orFault_eq_noent.mp missing).2
    obtain ⟨stop, place, ino, t, stuck, inside, start⟩ :=
      newFile_started path proper homeward.2 fresh nothing opened
    simp only [start.balanced_iff calls tracks closes record, nothing,
      uploadInside_of_missing nothing stuck, inside]
    by_cases below : home <+: stop <;> simp [below]
  · cases opened
  · rename_i info found
    split at opened
    · cases opened
    rename_i regular
    have there := (orFault_eq_ok.mp found).2
    obtain ⟨leaf, rest, place, ino, t, leads, inside, start⟩ :=
      existingFile_started tracks takes path proper homeward.2 fresh there
        (by simpa using regular) opened
    simp only [start.balanced_iff calls tracks closes record, there,
      uploadInside_of_found leads, inside, true_and, Nat.cast_inj]

/-- `/srv/u/f` is replaced, in atomic mode, by two calls one behind the
other. -/
theorem adjacent_calls_balanced :
    UploadBalanced sampleUser sampleHome
      fullWorld
      (uploadEnd atomicSettings sampleOs
        (sampleConnection.filewrite atomicSettings sampleOs fullWorld (openRequest 26 "/f")).1 0
        [("ab".toList, 0), ("cde".toList, 2)]) := by
  have opened :
      (sampleConnection.filewrite atomicSettings sampleOs
        fullWorld (openRequest 26 "/f")).2 = .done 0 := by
    decide +kernel
  refine (upload_balanced_iff sampleConnection
    atomicSettings sampleOs fullWorld (openRequest 26 "/f") _ 0
    [("ab".toList, 0), ("cde".toList, 2)] sampleHome (1, 3)
    rfl rfl rfl rfl (by decide) (by decide +kernel) (by decide +kernel)
    (Prod.ext rfl opened)).mpr ?_
  decide +kernel

/-- Two calls at the same offset of a new file: six bytes are charged, three
are there. -/
theorem same_offset_charged_twice :
    ¬ UploadBalanced sampleUser sampleHome
      fullWorld
      (uploadEnd defaultSettings sampleOs
        (sampleConnection.filewrite defaultSettings sampleOs fullWorld (openRequest 26 "/g")).1 0
        [("abc".toList, 0), ("abc".toList, 0)]) := by
  decide +kernel

end Sshserv.Serv
