import Sshserv.Serv.Creation
import Sshserv.Serv.OpenSteps
import Sshserv.Serv.PendingUploads

/-!
# Opening an upload while others are pending

Opening an upload to a path that leads nowhere creates the missing directories
and the temporary file.  `Grows` says what holds of every tree on the way;
here that is `TreeOk` for the uploads that are pending already.
-/

namespace Sshserv.Serv

open Lib UnixPath FileTree FileSys DataProvider

/-- Every tree that appeared between two worlds is good, and the table of
transfers is the same. -/
structure Grows (good : FileSys → Prop) (before after : World) : Prop where
  moments : ∃ new, after.moments = new ++ before.moments ∧ ∀ fs ∈ new, good fs
  transfers : after.transfers = before.transfers
  nextTransfer : after.nextTransfer = before.nextTransfer

namespace Grows

variable {good : FileSys → Prop} {first second third : World}

theorem refl (w : World) : Grows good w w :=
  ⟨⟨[], rfl, by simp⟩, rfl, rfl⟩

theorem trans (left : Grows good first second) (right : Grows good second third) :
    Grows good first third := by
  obtain ⟨earlier, firstList, firstGood⟩ := left.moments
  obtain ⟨later, secondList, secondGood⟩ := right.moments
  refine ⟨⟨later ++ earlier, ?_, ?_⟩, right.transfers.trans left.transfers,
    right.nextTransfer.trans left.nextTransfer⟩
  · rw [secondList, firstList, List.append_assoc]
  · exact List.forall_mem_append.mpr ⟨secondGood, firstGood⟩

theorem mono {better : FileSys → Prop} (grows : Grows better first second)
    (weaker : ∀ fs, better fs → good fs) : Grows good first second := by
  obtain ⟨new, list, holds⟩ := grows.moments
  exact ⟨⟨new, list, fun fs member => weaker fs (holds fs member)⟩,
    grows.transfers, grows.nextTransfer⟩

theorem setFs {w : World} {fs : FileSys} (holds : good fs) : Grows good w (w.setFs fs) :=
  ⟨⟨[fs], rfl, by simpa using holds⟩, rfl, rfl⟩

theorem setPathPermissions {w : World} (os : Os) (path : Str) (uid gid : Int) (holds :
      ∀ after, SameShape w.fs after →
        (∀ ino, (after.inode ino).data = (w.fs.inode ino).data) →
        good after) :
    Grows good w (w.setPathPermissions os path uid gid) := by
  rcases setPathPermissions_cases w os path uid gid with
    same | ⟨after, same, shape, data⟩
  · rw [same]
    exact refl w
  · rw [same]
    exact setFs (holds after shape data)

end Grows

section Directories

variable {requested : List Str} {finished : List (List Char)}
    {pending : Nat → Option Pending} {c : Connection} {os : Os}

/-- The trees on the way: the pending uploads are undisturbed and the new path
leads nowhere. -/
def OnTheWay (requested : List Str) (finished : List (List Char))
    (pending : Nat → Option Pending) (p : Str) (fs : FileSys) : Prop :=
  TreeOk requested finished pending fs ∧ ∃ stop, (fs.resolve p).stuckAt = some stop

variable {fs after : FileSys} {base place : Loc} {left : Nat}

theorem OnTheWay.attributes {p : Str} (known : OnTheWay requested finished pending p fs)
    (shape : SameShape fs after) (data : ∀ ino, (after.inode ino).data = (fs.inode ino).data) :
    OnTheWay requested finished pending p after := by
  obtain ⟨ok, stop, stuck⟩ := known
  exact ⟨ok.attributes shape data, stop, by rw [shape.resolve]; exact stuck⟩

/-- The outcome of creating the missing directories of a path. -/
structure DirsMade (requested : List Str) (base place : Loc) (left : Nat)
    (fs : FileSys) : Prop where
  resolved : fs.resolve (render base) = .found place left
  directory : fs.isDirAt place = true
  empty : ∀ text, fs.node (place ++ [text]) = none
  unused : ∀ q ∈ requested, ∀ text, (fs.resolve q).stuckAt ≠ some (place ++ [text])

theorem DirsMade.sameShape
    (made : DirsMade requested base place left fs) (shape : SameShape fs after) :
    DirsMade requested base place left after where
  resolved := (shape.resolve _).trans made.resolved
  directory := (shape.isDirAt place).trans made.directory
  empty := fun text => (shape.node_none _).mpr (made.empty text)
  unused := by
    intro q member text
    rw [shape.resolve]
    exact made.unused q member text

theorem mkdir_onTheWay {w : World} {more : Loc} {text next : Str}
    (proper : ProperNames (base ++ text :: next :: more))
    (ok : TreeOk requested finished pending w.fs)
    (resolved : w.fs.resolve (render base) = .found place left)
    (unused : ∀ q ∈ requested, (w.fs.resolve q).stuckAt ≠ some (place ++ [text]))
    (made : w.fs.mkdir (render (base ++ [text])) os.attr = .ok after) :
    OnTheWay requested finished pending (render (base ++ text :: next :: more)) after ∧
      DirsMade requested (base ++ [text]) (place ++ [text]) left after := by
  have firstProper : ProperNames (base ++ [text]) := by
    intro piece member
    apply proper
    simp only [List.mem_append, List.mem_cons, List.not_mem_nil, or_false] at member ⊢
    tauto
  have baseProper : ProperNames base := proper.left
  obtain ⟨parent, name, room, entry, rfl⟩ := mkdir_cases made
  have walked := resolved
  rw [FileSys.resolve, walk_elems_render _ baseProper] at walked
  rw [entryOf_render_concat firstProper, walked] at entry
  simp only [Outcome.located] at entry
  split at entry
  swap
  · cases entry
  simp only [Except.ok.injEq, Prod.mk.injEq] at entry
  obtain ⟨rfl, rfl⟩ := entry
  have agree :
      ∀ loc, ¬ loc = place ++ [text] →
        (w.fs.addDir place text os.attr room).node loc = w.fs.node loc :=
    fun loc other => by simp [other]
  obtain ⟨okAfter, same⟩ := ok.add agree (fun _ _ _ => rfl) room.absent unused
  have leads :
      (w.fs.addDir place text os.attr room).resolve
          (render (base ++ [text])) = .found (place ++ [text]) left :=
    resolve_after_addDir firstProper resolved room
  have directory : (w.fs.addDir place text os.attr room).isDirAt (place ++ [text]) = true := by
    simp [isDirAt, Node.isDir]
  have hollow : w.fs.isDirAt (place ++ [text]) = false := by
    simp [isDirAt, room.absent]
  have empty :
      ∀ piece, (w.fs.addDir place text os.attr room).node (place ++ [text] ++ [piece]) = none := by
    intro piece
    have below := w.fs.node_below_notDir hollow [piece] (by simp)
    simpa using below
  have remainder : base ++ text :: next :: more = base ++ [text] ++ next :: more := by
    simp
  refine ⟨⟨okAfter, place ++ [text] ++ [next], ?_⟩, leads, directory, empty, ?_⟩
  · rw [remainder]
    exact stuckAt_render_below (remainder ▸ proper) leads directory (empty next)
  · intro q member piece stuck
    rw [same q member] at stuck
    obtain ⟨above, _, equal, isDir, _⟩ :=
      parent_dir_of_stuckAt kernelLinkLimit [] (elems q) w.fs.isDirAt_root stuck
    obtain ⟨rfl, _⟩ := List.append_inj' equal rfl
    rw [hollow] at isDir
    cases isDir

theorem mkdirAll_onTheWay (c : Connection) (os : Os) (last : Str) (missing : Loc) :
    ∀ {base place : Loc} {left : Nat} {w : World},
      ProperNames (base ++ missing ++ [last]) →
      TreeOk requested finished pending w.fs →
      w.fs.resolve (render base) = .found place left →
      (∀ first, missing.head? = some first → ∀ q ∈ requested,
        (w.fs.resolve q).stuckAt ≠ some (place ++ [first])) →
      Grows
          (OnTheWay requested finished pending (render (base ++ missing ++ [last])))
          w (c.mkdirAll os w (chain base missing)).1 ∧
        TreeOk requested finished pending (c.mkdirAll os w (chain base missing)).1.fs ∧
        (missing = [] → (c.mkdirAll os w (chain base missing)).1 = w) ∧
        (missing ≠ [] → (c.mkdirAll os w (chain base missing)).2 = .ok () →
          DirsMade requested (base ++ missing) (place ++ missing) left
            (c.mkdirAll os w (chain base missing)).1.fs) := by
  induction missing with
  | nil =>
    intro base place left w _ ok _ _
    exact ⟨Grows.refl w, ok, fun _ => rfl, fun some => absurd rfl some⟩
  | cons text rest ih =>
    intro base place left w proper ok resolved unused
    simp only [chain, Connection.mkdirAll]
    cases made :
        orFault (os.mkdir (render (base ++ [text])))
          (w.fs.mkdir (render (base ++ [text])) os.attr) with
    | error err =>
      refine ⟨Grows.refl w, ok, ?_, ?_⟩
      · intro empty
        cases empty
      · intro _ done
        cases done
    | ok after =>
      have remainder : base ++ text :: rest ++ [last] = base ++ [text] ++ rest ++ [last] := by
        simp
      obtain ⟨next, more, tail⟩ : ∃ next more, rest ++ [last] = next :: more := by
        cases rest with
        | nil => exact ⟨last, [], rfl⟩
        | cons head others => exact ⟨head, others ++ [last], rfl⟩
      have whole : base ++ text :: rest ++ [last] = base ++ text :: next :: more := by
        rw [← tail]
        simp
      obtain ⟨onTheWay, dirs⟩ :=
        mkdir_onTheWay (whole ▸ proper) ok resolved (unused text rfl) (orFault_eq_ok.mp made).2
      rw [← whole] at onTheWay
      have grown :
          Grows
            (OnTheWay requested finished pending (render (base ++ text :: rest ++ [last]))) w
            ((w.setFs after).setPathPermissions os
              (render (base ++ [text])) c.user.getUID
              c.user.getGID) :=
        (Grows.setFs onTheWay).trans
          (Grows.setPathPermissions os _ _ _ fun _ shape data => onTheWay.attributes shape data)
      obtain ⟨shape, data⟩ :=
        setPathPermissions_tree (w.setFs after) os
          (render (base ++ [text])) c.user.getUID c.user.getGID
      have okNow := (onTheWay.attributes shape data).1
      have dirsNow := dirs.sameShape shape
      obtain ⟨more, okEnd, unchanged, finishedDirs⟩ :=
        ih (remainder ▸ proper) okNow dirsNow.resolved
          fun first _ q member => dirsNow.unused q member first
      rw [← remainder] at more
      refine ⟨grown.trans more, okEnd, ?_, ?_⟩
      · intro empty
        cases empty
      · intro _ done
        by_cases lastOne : rest = []
        · subst lastOne
          rw [unchanged rfl]
          exact dirsNow
        · simpa using finishedDirs lastOne done

end Directories

def Pending.handle (u : Pending) : Handle :=
  ⟨u.tempPath, some u.ino, true, false, true⟩

/-- An upload to `p` has been opened as number `ref`. -/
structure Opened (requested : List Str) (finished : List (List Char))
    (pending : Nat → Option Pending) (p : Str) (before after : World) (ref : Nat) : Prop where
  moments :
    ∃ new, after.moments = new ++ before.moments ∧
      ∀ fs ∈ new, OnTheWay requested finished pending p fs
  number : ref = before.nextTransfer
  nextTransfer : after.nextTransfer = before.nextTransfer + 1
  upload :
    ∃ (u : Pending) (t : Transfer), u.path = p ∧ u.content = [] ∧
        TreeOk (p :: requested) finished (Function.update pending ref (some u)) after.fs ∧
        (after.transfers =
          fun other => if other = ref then some t
            else before.transfers other) ∧
        t.transferType = .upload ∧ t.path = p ∧ t.file = u.handle

theorem Opened.after_grows {requested : List Str} {finished : List (List Char)}
    {pending : Nat → Option Pending} {p : Str} {first second third : World} {ref : Nat}
    (grown : Grows (OnTheWay requested finished pending p) first second)
    (opened : Opened requested finished pending p second third ref) :
    Opened requested finished pending p first third ref := by
  obtain ⟨earlier, firstList, firstGood⟩ := grown.moments
  obtain ⟨later, secondList, secondGood⟩ := opened.moments
  refine ⟨⟨later ++ earlier, ?_, ?_⟩, ?_, ?_, ?_⟩
  · rw [secondList, firstList, List.append_assoc]
  · exact List.forall_mem_append.mpr ⟨secondGood, firstGood⟩
  · rw [opened.number, grown.nextTransfer]
  · rw [opened.nextTransfer, grown.nextTransfer]
  · rw [← grown.transfers]
    exact opened.upload

section Temporary

variable {requested : List Str} {finished : List (List Char)} {pending : Nat → Option Pending}
    {c : Connection} {os : Os} {w : World} {p : Str} {names place : Loc} {last : Str} {left : Nat}

def withTemp (c : Connection) (os : Os) (w : World) (p : Str) (fs : FileSys)
    (file : Handle) : World × Nat :=
  ((w.setFs fs).setPathPermissions os (getUploadTempFilePath os p)
    c.user.getUID c.user.getGID).addTransfer (c.newTransfer os file p .upload true)

theorem opened_withTemp (ok : TreeOk requested finished pending w.fs)
    (slot : Slot w.fs p names last place left) (noSlash : '/' ∉ os.guid)
    (gone : w.fs.node (place ++ [tempName os last]) = none)
    (unused : ∀ q ∈ requested, (w.fs.resolve q).stuckAt ≠ some (place ++ [tempName os last]))
    {stop : Loc} (stuck : (w.fs.resolve p).stuckAt = some stop)
    (elsewhere : stop ≠ place ++ [tempName os last]) {fs : FileSys} {file : Handle}
    (made : w.fs.create (getUploadTempFilePath os p) os.attr = .ok (fs, file)) :
    Opened requested finished pending p w (withTemp c os w p fs file).1
      (withTemp c os w p fs file).2 := by
  obtain ⟨room, created⟩ := (slot.temp noSlash).create_new gone os.attr
  rw [created] at made
  obtain ⟨rfl, rfl⟩ :
      w.fs.addFile place (tempName os last) ⟨[], os.attr⟩ room = fs ∧
        handleOf (getUploadTempFilePath os p) w.fs.nextIno createFlags = file := by
    simpa using made
  have agree :
      ∀ loc, ¬ loc = place ++ [tempName os last] →
        (w.fs.addFile place (tempName os last) ⟨[], os.attr⟩ room).node loc = w.fs.node loc :=
    fun loc other => by simp [other]
  have inode :
      ∀ loc ino, w.fs.node loc = some (.file ino) →
        (w.fs.addFile place (tempName os last) ⟨[], os.attr⟩ room).inode ino = w.fs.inode ino := by
    intro loc ino entry
    have old := w.fs.ino_lt loc ino entry
    have other : ino ≠ w.fs.nextIno := by omega
    simp [addFile, other]
  obtain ⟨okMade, same⟩ := ok.add agree inode gone unused
  have stuckMade :
      ((w.fs.addFile place (tempName os last) ⟨[], os.attr⟩ room).resolve
        p).stuckAt = some stop := by
    rcases walk_changed_absent agree (fun loc here => here ▸ gone)
        kernelLinkLimit [] (elems p) with walks | ⟨loc, there, rfl⟩
    · rw [FileSys.resolve, walks]
      exact stuck
    · rw [← FileSys.resolve, stuck, Option.some.injEq] at there
      exact absurd there elsewhere
  have onTheWay :
      OnTheWay requested finished pending p
        (w.fs.addFile place (tempName os last) ⟨[], os.attr⟩ room) :=
    ⟨okMade, stop, stuckMade⟩
  have slotMade :
      Slot (w.fs.addFile place (tempName os last) ⟨[], os.attr⟩ room) p names last place left := by
    refine slot.frame agree (fun loc here => here ▸ neverDir_of_absent gone) fun here => ?_
    simpa using congrArg List.length here
  have grown :=
    (Grows.setFs (w := w) onTheWay).trans
      (Grows.setPathPermissions os (getUploadTempFilePath os p)
        c.user.getUID c.user.getGID
        fun _ shape data => onTheWay.attributes shape data)
  obtain ⟨shape, data⟩ :=
    setPathPermissions_tree
      (w.setFs (w.fs.addFile place (tempName os last) ⟨[], os.attr⟩ room))
      os (getUploadTempFilePath os p) c.user.getUID c.user.getGID
  have okNow := okMade.attributes shape data
  have stuckNow := stuckMade
  rw [← World.setFs_fs w (w.fs.addFile place (tempName os last) ⟨[], os.attr⟩ room),
    ← shape.resolve] at stuckNow
  refine ⟨grown.moments, grown.nextTransfer, ?_,
    ⟨p, getUploadTempFilePath os p, names, place, last, tempName os last,
      left, w.fs.nextIno, []⟩, c.newTransfer os _ p .upload true, rfl, rfl,
      okNow.request (u := ⟨p, _, _, _, _, _, _, _, _⟩) stuckNow ?_ ?_ ?_, ?_,
      rfl, rfl, rfl⟩
  · simp only [withTemp, World.addTransfer]
    rw [grown.nextTransfer]
  · refine ⟨slotMade.sameShape shape,
      (slotMade.temp noSlash).sameShape shape, tempName_ne os last, ?_, ?_⟩
    · rw [shape.node_file]
      simp [Pending.entry]
    · rw [data]
      simp [addFile]
  · intro q member loc more found
    rw [shape.resolve, World.setFs_fs, same q member] at found
    rintro rfl
    exact node_ne_none_of_found found gone
  · intro other v known equal
    have node := (ok.stored other v known).2.node
    rw [equal, Pending.entry, gone] at node
    cases node
  · simp only [withTemp, World.addTransfer]
    rw [grown.transfers]
    rfl

end Temporary

/-- The temporary name is new: no entry has it, and no requested path got
stuck at it. -/
def GuidFresh (os : Os) (fs : FileSys) (requested : List Str) (p : Str) : Prop :=
  '/' ∉ os.guid ∧
    ∀ parent : Loc, fs.node (parent ++ [tempName os (base p)]) = none ∧
        ∀ q ∈ p :: requested, (fs.resolve q).stuckAt ≠ some (parent ++ [tempName os (base p)])

/-- The first directory that has to be made is not where a requested path got
stuck. -/
def DirsFree (fs : FileSys) (requested : List Str) (p : Str) : Prop :=
  fs.stat (dir p) = .error .noent →
    ∀ q ∈ requested, ∀ loc, (fs.resolve p).stuckAt = some loc → (fs.resolve q).stuckAt ≠ some loc

/-- An open request opens an upload to a path that led nowhere, or it leaves
the pending uploads alone. -/
def OpenOk (requested : List Str) (finished : List (List Char))
    (pending : Nat → Option Pending) (before : World) :
    World × Option Nat → Prop
  | (after, some ref) =>
    ∃ p stop, (before.fs.resolve p).stuckAt = some stop ∧
      Opened requested finished pending p before after ref
  | (after, none) =>
    Grows (TreeOk requested finished pending) before after ∧
      TreeOk requested finished pending after.fs

section Requests

variable {requested : List Str} {finished : List (List Char)} {pending : Nat → Option Pending}
    {c : Connection} {settings : Settings} {os : Os} {w : World} {p : Str} {comps : Loc}

theorem openOk_idle (ok : TreeOk requested finished pending w.fs) :
    OpenOk requested finished pending w (w, none) :=
  ⟨Grows.refl w, ok⟩

variable {fs : FileSys} {file : Handle} {names : Loc} {last : Str}

theorem opened_fresh (ok : TreeOk requested finished pending w.fs) (path : p = render comps)
    (proper : ProperNames comps) (missing : w.fs.stat p = .error .noent)
    (fresh : GuidFresh os w.fs requested p)
    (made : w.fs.create (getUploadTempFilePath os p) os.attr = .ok (fs, file)) :
    Opened requested finished pending p w (withTemp c os w p fs file).1
      (withTemp c os w p fs file).2 := by
  obtain ⟨names, last, rfl⟩ := concat_of_missing path missing
  obtain ⟨noSlash, unused⟩ := fresh
  obtain ⟨tempProper, tempPath⟩ := getUploadTempFilePath_render noSlash proper
  obtain ⟨place, left, tempSlot⟩ := slot_of_create tempProper (tempPath ▸ path ▸ made)
  have slot : Slot w.fs p names last place left :=
    ⟨path, proper, tempSlot.resolved, tempSlot.directory⟩
  have lastName : base p = last := by
    rw [path]
    exact base_render_concat names (proper last (by simp))
  rw [lastName] at unused
  obtain ⟨stop, stuck⟩ := stat_noent_iff.mp missing
  refine opened_withTemp ok slot noSlash (unused place).1
    (fun q member => (unused place).2 q (List.mem_cons_of_mem p member))
    stuck ?_ made
  rintro rfl
  exact (unused place).2 p List.mem_cons_self stuck

theorem opened_newDir (ok : TreeOk requested finished pending w.fs) {place : Loc} {left : Nat}
    (path : p = render (names ++ [last])) (proper : ProperNames (names ++ [last]))
    (noSlash : '/' ∉ os.guid) (dirs : DirsMade requested names place left w.fs)
    (made : w.fs.create (getUploadTempFilePath os p) os.attr = .ok (fs, file)) :
    Opened requested finished pending p w (withTemp c os w p fs file).1
      (withTemp c os w p fs file).2 := by
  have slot : Slot w.fs p names last place left := ⟨path, proper, dirs.resolved, dirs.directory⟩
  have stuck := stuckAt_render_below proper dirs.resolved dirs.directory (dirs.empty last)
  rw [← path] at stuck
  refine opened_withTemp ok slot noSlash (dirs.empty _)
    (fun q member => dirs.unused q member _) stuck ?_ made
  simpa using (tempName_ne os last).symm

theorem createMissingDirs_onTheWay (c : Connection) (os : Os)
    (ok : TreeOk requested finished pending w.fs) (path : p = render (names ++ [last]))
    (proper : ProperNames (names ++ [last])) (free : DirsFree w.fs requested p) :
    Grows (OnTheWay requested finished pending p) w (c.createMissingDirs os w p).1 ∧
      TreeOk requested finished pending (c.createMissingDirs os w p).1.fs ∧
      ((c.createMissingDirs os w p).2 = .ok () →
        (c.createMissingDirs os w p).1 = w ∨
          ∃ place left, DirsMade requested names place left (c.createMissingDirs os w p).1.fs) := by
  unfold Connection.createMissingDirs
  cases searched : c.findNonexistentDirs w.fs p with
  | error err => exact ⟨Grows.refl w, ok, nofun⟩
  | ok results =>
    obtain ⟨first, missing, place, left, split, reversed, resolved, _,
      noParent⟩ := findNonexistentDirs_ok proper (path ▸ searched)
    subst split
    have unused :
        ∀ next, missing.head? = some next → ∀ q ∈ requested,
          (w.fs.resolve q).stuckAt ≠ some (place ++ [next]) := by
      intro next head q member stuck
      obtain ⟨more, rfl⟩ : ∃ more, missing = next :: more := by
        cases missing with
        | nil => cases head
        | cons other more => exact ⟨more, by simpa using head⟩
      obtain ⟨above, text, equal, isDir, absent⟩ :=
        parent_dir_of_stuckAt kernelLinkLimit [] (elems q) w.fs.isDirAt_root stuck
      obtain ⟨rfl, _⟩ := List.append_inj' equal rfl
      have whole : first ++ next :: more ++ [last] = first ++ next :: (more ++ [last]) := by
        simp
      have here := stuckAt_render_below (whole ▸ proper) resolved isDir absent
      rw [← whole, ← path] at here
      have parent : dir p = render (first ++ next :: more) := by
        rw [path, dir_render proper, List.dropLast_concat]
      exact free (parent ▸ noParent (by simp)) q member _ here stuck
    obtain ⟨grown, okEnd, unchanged, dirs⟩ :=
      mkdirAll_onTheWay c os last missing proper ok resolved unused
    rw [← path] at grown
    simp only [reversed]
    refine ⟨grown, okEnd, fun done => ?_⟩
    by_cases none : missing = []
    · exact Or.inl (unchanged none)
    · exact Or.inr ⟨_, _, dirs none done⟩

/-- Only requests for a path that leads nowhere do anything, since `kept` says
that an existing file is not moved. -/
theorem OpenSteps.ok {via : Option OpenFlags} {result : World × Option Nat}
    (steps : OpenSteps c settings os w p via result)
    (atomic : settings.Atomic) (ok : TreeOk requested finished pending w.fs)
    (path : p = render comps) (proper : ProperNames comps) (fresh :
      w.fs.stat p = .error .noent →
        GuidFresh os w.fs requested p ∧ (via ≠ none → DirsFree w.fs requested p))
    (kept :
      ∀ info moved, SetAside settings os w p info moved →
        ∃ flags, via = some flags ∧ (c.hasSpace settings os w false = true → flags.trunc = false)) :
    OpenOk requested finished pending w result := by
  have target : uploadFilePath settings os p = getUploadTempFilePath os p := if_pos atomic
  have dirs (missing : w.fs.stat p = .error .noent) (sftp : via ≠ none) :
      ∃ names last, comps = names ++ [last] ∧
        Grows (OnTheWay requested finished pending p) w (c.createMissingDirs os w p).1 ∧
        TreeOk requested finished pending (c.createMissingDirs os w p).1.fs ∧
        ((c.createMissingDirs os w p).2 = .ok () →
          (c.createMissingDirs os w p).1 = w ∨
            ∃ place left,
              DirsMade requested names place left (c.createMissingDirs os w p).1.fs) := by
    obtain ⟨names, last, rfl⟩ := concat_of_missing path missing
    exact ⟨names, last, rfl,
      createMissingDirs_onTheWay c os ok path proper ((fresh missing).2 sftp)⟩
  cases steps with
  | refused => exact openOk_idle ok
  | prepared flags missing =>
    obtain ⟨_, _, _, grown, okDirs, _⟩ := dirs missing (by simp)
    exact ⟨grown.mono fun _ good => good.1, okDirs⟩
  | moved old space truncates =>
    obtain ⟨_, same, refuses⟩ := kept _ _ old
    cases same
    rw [refuses space] at truncates
    cases truncates
  | released old =>
    obtain ⟨flags, none, _⟩ := kept _ _ old
    cases none
  | created ready made =>
    rw [target] at made ⊢
    cases ready with
    | absent missing _ =>
      obtain ⟨stop, stuck⟩ := stat_noent_iff.mp missing
      exact ⟨p, stop, stuck, opened_fresh ok path proper missing (fresh missing).1 made⟩
    | prepared missing _ result =>
      obtain ⟨stop, stuck⟩ := stat_noent_iff.mp missing
      obtain ⟨names, last, rfl, grown, okDirs, ends⟩ := dirs missing (by simp)
      rw [result] at grown okDirs ends
      refine ⟨p, stop, stuck, Opened.after_grows grown ?_⟩
      rcases ends rfl with rfl | ⟨place, left, new⟩
      · exact opened_fresh okDirs path proper missing (fresh missing).1 made
      · exact opened_newDir okDirs path proper (fresh missing).1.1 new made
    | released old _ =>
      obtain ⟨flags, none, _⟩ := kept _ _ old
      cases none
  | reopened old space truncates _ =>
    obtain ⟨_, same, refuses⟩ := kept _ _ old
    cases same
    rw [refuses space] at truncates
    cases truncates

end Requests

end Sshserv.Serv
