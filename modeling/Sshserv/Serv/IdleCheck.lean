import Sshserv.Serv.Sessions

/-!
# The idle check

`CheckIdleConnections` sees the stamp of a registry entry and those of active
transfers.  A request of the HDFS handler leaves none, and a stamp is lost with
its transfer or when another handler of the connection starts.
-/

namespace Sshserv.Serv

open Lib UnixPath FileTree Runs
open DataProvider OpenConnections

/-! ## What the handlers do to the transfers -/

/-- The transfers are those of before. -/
structure TransfersKept (w after : World) : Prop where
  transfers : after.transfers = w.transfers
  next : after.nextTransfer = w.nextTransfer
  active : after.activeTransfers = w.activeTransfers
  closes : after.closes = w.closes

/-- At most a new transfer has been added. -/
def TransfersGrown (w after : World) : Prop :=
  TransfersKept w after ∨ ∃ between t, TransfersKept w between ∧ after = (between.addTransfer t).1

/-- A refused request leaves the transfers alone, an accepted one adds an
upload of the user. -/
def Launches (user : User) (w : World) : World × Option Nat → Prop
  | (after, none) => TransfersKept w after
  | (after, some ref) =>
    ∃ t middle, TransfersKept w middle ∧ middle.addTransfer t = (after, ref) ∧
        t.transferType = .upload ∧ t.user = user

variable {w : World} {now limit : Int} {c : OpenConnection}

theorem Launches.grown {user : User} {result : World × Option Nat}
    (launches : Launches user w result) : TransfersGrown w result.1 := by
  obtain ⟨after, number⟩ := result
  cases number with
  | none => exact Or.inl launches
  | some ref =>
    obtain ⟨t, middle, kept, added, _⟩ := launches
    exact Or.inr ⟨middle, t, kept, by rw [added]⟩

namespace TransfersKept

theorem refl (w : World) : TransfersKept w w :=
  ⟨rfl, rfl, rfl, rfl⟩

theorem trans {w between after : World} (first : TransfersKept w between)
    (second : TransfersKept between after) : TransfersKept w after :=
  ⟨second.transfers.trans first.transfers, second.next.trans first.next,
    second.active.trans first.active, second.closes.trans first.closes⟩

theorem setFs (w : World) (fs : FileSys) : TransfersKept w (w.setFs fs) :=
  ⟨rfl, rfl, rfl, rfl⟩

theorem updateUserQuota (w : World) (settings : Settings)
    (fault : Option ProviderError) (user : User) (filesAdd sizeAdd : Int) :
    TransfersKept w (w.updateUserQuota settings fault user filesAdd sizeAdd) := by
  obtain ⟨quota, equal⟩ := w.updateUserQuota_frame settings fault user filesAdd sizeAdd
  rw [equal]
  exact ⟨rfl, rfl, rfl, rfl⟩

theorem setPathPermissions (w : World) (os : Os) (path : Str) (uid gid : Int) :
    TransfersKept w (w.setPathPermissions os path uid gid) := by
  unfold World.setPathPermissions
  split
  · exact setFs w _
  · exact refl w

theorem createMissingDirs (c : Connection) (os : Os) (w : World) (filePath : Str) :
    TransfersKept w (c.createMissingDirs os w filePath).1 :=
  createMissingDirs_keeps c os (fun _ _ _ kept _ => kept.trans (setFs _ _))
    (fun _ _ _ _ kept => kept.trans (setPathPermissions _ _ _ _ _)) filePath (refl w)

theorem moveAside {settings : Settings} {os : Os} {w after : World} {requestPath filePath : Str}
    (moved : Connection.moveAside settings os w requestPath filePath = .ok after) :
    TransfersKept w after := by
  unfold Connection.moveAside at moved
  split at moved
  · split at moved
    · contradiction
    · injection moved with same
      subst same
      exact setFs w _
  · injection moved with same
    subst same
    exact refl w

end TransfersKept

open TransfersKept

section Handlers

variable (c : Connection) (settings : Settings) (os : Os) (w : World)

theorem fileread_grown (request : Request) : TransfersGrown w (c.fileread os w request).1 := by
  unfold Connection.fileread
  split
  · exact Or.inl (refl w)
  · split
    · exact Or.inl (refl w)
    · split
      · exact Or.inl (refl w)
      · split
        · exact Or.inl (refl w)
        · split
          · exact Or.inl (refl w)
          · exact Or.inr ⟨w, _, refl w, rfl⟩

variable {c settings os w} in
variable {via : Option OpenFlags} {result : World × Option Nat}

theorem OpenSteps.launches {p : Str} (steps : OpenSteps c settings os w p via result) :
    Launches c.user w result := by
  have dirs := createMissingDirs c os w p
  have released {info : FileInfo} {moved : World} (old : SetAside settings os w p info moved) :=
    (moveAside old.aside).trans (updateUserQuota _ settings os.updateQuota c.user 0 (-info.size))
  cases steps with
  | refused => exact refl w
  | prepared => exact dirs
  | moved old => exact moveAside old.aside
  | released old => exact released old
  | @created _ middle _ _ ready _ =>
    have kept : TransfersKept w middle := by
      cases ready with
      | absent => exact refl w
      | prepared _ _ made =>
        rw [made] at dirs
        exact dirs
      | released old => exact released old
    exact ⟨_, _, (kept.trans (setFs _ _)).trans (setPathPermissions _ _ _ _ _), rfl, rfl, rfl⟩
  | reopened old =>
    exact ⟨_, _, (((moveAside old.aside).trans (setFs _ _)).trans
      (updateUserQuota _ _ _ _ _ _)).trans (setPathPermissions _ _ _ _ _),
      rfl, rfl, rfl⟩

variable {c settings os w} in
theorem OpenEnds.launches {rawPath : Str} (ends : OpenEnds c settings os w rawPath via result) :
    Launches c.user w result := by
  rcases ends with rfl | ⟨_, p, _, steps⟩
  · exact refl w
  · exact steps.launches

theorem filecmd_kept (request : Request) : TransfersKept w (c.filecmd settings os w request).1 :=
  filecmd_keeps (refl w) (fun _ _ _ kept _ => kept.trans (setFs _ _))
    (fun _ _ _ _ kept => kept.trans (setPathPermissions _ _ _ _ _))
    (fun _ _ _ kept => kept.trans (updateUserQuota _ _ _ _ _ _)) fun _ _ _ _ _ _ => setFs w _

theorem FileCall.world_grown (call : FileCall) : TransfersGrown w (call.world settings os w c) := by
  cases call with
  | fileread request => exact fileread_grown c os w request
  | filewrite request => exact (filewrite_ends request).launches.grown
  | filecmd request => exact Or.inl (filecmd_kept c settings os w request)
  | filelist request => exact Or.inl (refl w)

theorem scpOpenRead_grown (rawPath : Str) : TransfersGrown w (c.scpOpenRead os w rawPath) := by
  unfold Connection.scpOpenRead
  split
  · exact Or.inl (refl w)
  · split
    · exact Or.inl (refl w)
    · split
      · exact Or.inl (refl w)
      · split
        · exact Or.inl (refl w)
        · split
          · exact Or.inl (refl w)
          · exact Or.inr ⟨w, _, refl w, rfl⟩

theorem handleCreateDir_kept (cmd : ScpCommand) (ch : Channel) (dirPath : Str) :
    TransfersKept w (cmd.handleCreateDir os w ch dirPath).world := by
  unfold ScpCommand.handleCreateDir
  split
  · exact refl w
  · split
    · exact refl w
    · unfold ScpCommand.createDir
      split
      · exact refl w
      · exact (setFs w _).trans (setPathPermissions _ _ _ _ _)

theorem ScpCall.world_grown (call : ScpCall) : TransfersGrown w (call.world settings os w c) := by
  cases call with
  | upload rawPath => exact (scpOpen_ends rawPath).launches.grown
  | download rawPath => exact scpOpenRead_grown c os w rawPath
  | createDir ch dirPath => exact Or.inl (handleCreateDir_kept os w ⟨c, []⟩ ch dirPath)

end Handlers

/-! ## The stamps of a connection -/

/-- The stamps that the active transfers have for a connection. -/
def transferStamps (w : World) (id : Str) : List Int :=
  w.activeTransfers.filterMap fun ref =>
    match w.transfers ref with
    | none => none
    | some t => if t.connectionID = id then some t.lastActivity else none

theorem mem_transferStamps {id : Str} {stamp : Int} :
    stamp ∈ transferStamps w id ↔
      ∃ ref ∈ w.activeTransfers, ∃ t, w.transfers ref = some t ∧
        t.connectionID = id ∧ t.lastActivity = stamp := by
  unfold transferStamps
  rw [List.mem_filterMap]
  refine exists_congr fun ref => and_congr_right fun _ => ?_
  cases entry : w.transfers ref with
  | none => simp
  | some t => simp

theorem lt_idleAfter_iff {idle : Int} {ref : Nat} :
    limit < idleAfter w now c idle ref ↔
      limit < idle ∧
        ∀ t, w.transfers ref = some t → t.connectionID = c.id → limit < now - t.lastActivity := by
  unfold idleAfter
  cases entry : w.transfers ref with
  | none => simp
  | some t =>
    by_cases own : t.connectionID = c.id
    · have alone :
          (∀ other, some t = some other → other.connectionID = c.id →
              limit < now - other.lastActivity) ↔
            limit < now - t.lastActivity := by
        simp [own]
      rw [alone]
      by_cases fresher : now - t.lastActivity < idle
      · simp only [own, fresher, and_self, if_true]
        omega
      · simp only [own, fresher, and_false, if_false]
        omega
    · simp [own]

theorem lt_idleTime_iff :
    limit < idleTime w now c ↔
      limit < now - c.lastActivity ∧ ∀ stamp ∈ transferStamps w c.id, limit < now - stamp := by
  have loop (refs : List Nat) (idle : Int) :
      limit < refs.foldl (idleAfter w now c) idle ↔
        limit < idle ∧
          ∀ ref ∈ refs, ∀ t, w.transfers ref = some t →
            t.connectionID = c.id → limit < now - t.lastActivity := by
    induction refs generalizing idle with
    | nil => simp
    | cons ref rest ih =>
      rw [List.foldl_cons, ih, lt_idleAfter_iff, List.forall_mem_cons, and_assoc]
  rw [idleTime, loop]
  refine and_congr_right fun _ => ?_
  simp only [mem_transferStamps]
  constructor
  · rintro all stamp ⟨ref, active, t, entry, own, rfl⟩
    exact all ref active t entry own
  · intro all ref active t entry own
    exact all _ ⟨ref, active, t, entry, own, rfl⟩

/-! ## How the stamps change -/

/-- Every active transfer has been handed out. -/
def World.Tracked (w : World) : Prop :=
  ∀ ref ∈ w.activeTransfers, ref < w.nextTransfer

/-- The stamps that the connection has are not lost. -/
def StampsGrow (w after : World) (id : Str) : Prop :=
  ∀ stamp ∈ transferStamps w id, stamp ∈ transferStamps after id

section Stamps

variable {w between after : World}

theorem TransfersKept.stamps (kept : TransfersKept w after) (id : Str) :
    transferStamps after id = transferStamps w id := by
  rw [transferStamps, kept.active, kept.transfers]
  rfl

theorem TransfersKept.tracked (kept : TransfersKept w after)
    (tracked : w.Tracked) : after.Tracked := by
  rw [World.Tracked, kept.active, kept.next]
  exact tracked

theorem StampsGrow.refl (w : World) (id : Str) : StampsGrow w w id :=
  fun _ member => member

theorem addTransfer_stampsGrow (tracked : w.Tracked) (t : Transfer) (id : Str) :
    StampsGrow w (w.addTransfer t).1 id := by
  intro stamp member
  obtain ⟨ref, active, old, entry, own⟩ := mem_transferStamps.mp member
  have different : ref ≠ w.nextTransfer := (tracked ref active).ne
  apply mem_transferStamps.mpr
  refine ⟨ref, List.mem_append_left _ active, old, ?_, own⟩
  simp only [World.addTransfer, if_neg different]
  exact entry

theorem addTransfer_tracked (tracked : w.Tracked) (t : Transfer) : (w.addTransfer t).1.Tracked := by
  intro ref active
  rcases List.mem_append.mp active with old | new
  · exact Nat.lt_succ_of_lt (tracked ref old)
  · rw [List.mem_singleton.mp new]
    exact Nat.lt_succ_self _

theorem TransfersGrown.stampsGrow (grown : TransfersGrown w after)
    (tracked : w.Tracked) : (∀ id, StampsGrow w after id) ∧ after.Tracked := by
  rcases grown with kept | ⟨between, t, kept, rfl⟩
  · refine ⟨fun id stamp member => ?_, kept.tracked tracked⟩
    rwa [kept.stamps]
  · have tracked := kept.tracked tracked
    refine ⟨fun id stamp member => ?_, addTransfer_tracked tracked t⟩
    apply addTransfer_stampsGrow tracked t
    rwa [kept.stamps]

/-- A transfer has been stamped at a time. -/
def StampedAt (w after : World) (ref : Nat) (t : Transfer) (now : Int) : Prop :=
  ∃ between new, after = between.setTransfer ref new ∧
    TransfersKept w between ∧ new.connectionID = t.connectionID ∧ new.lastActivity = now

variable {os : Os} {ref : Nat} {t : Transfer}

variable {index other : Nat} {off : Int} {refs : List Nat} {settings : Settings}

theorem readAt_stamps {count : Nat} (entry : w.transfers ref = some t) :
    StampedAt w (Transfer.readAt os index w ref count off).1 ref t os.now := by
  unfold Transfer.readAt
  simp only [entry]
  split
  · exact ⟨w, _, rfl, TransfersKept.refl w, rfl, rfl⟩
  · exact ⟨w, _, rfl, TransfersKept.refl w, rfl, rfl⟩

theorem writeAt_stamps {bytes : List Char} (entry : w.transfers ref = some t) :
    StampedAt w (Transfer.writeAt os index w ref bytes off).1 ref t os.now := by
  unfold Transfer.writeAt
  simp only [entry]
  split
  · exact ⟨w, _, rfl, TransfersKept.refl w, rfl, rfl⟩
  · exact ⟨w.setFs _, _, rfl, TransfersKept.setFs w _, rfl, rfl⟩

namespace StampedAt

variable {ref : Nat} {t : Transfer} {now : Int}

theorem tracked (stamped : StampedAt w after ref t now) (tracked : w.Tracked) : after.Tracked := by
  obtain ⟨between, new, rfl, kept, _, _⟩ := stamped
  exact kept.tracked tracked

theorem own (stamped : StampedAt w after ref t now) (active : ref ∈ w.activeTransfers) :
    now ∈ transferStamps after t.connectionID := by
  obtain ⟨between, new, rfl, kept, sameId, stamp⟩ := stamped
  apply mem_transferStamps.mpr
  refine ⟨ref, ?_, new, ?_, sameId, stamp⟩
  · exact kept.active ▸ active
  · simp [World.setTransfer]

theorem others (stamped : StampedAt w after ref t now) (entry : w.transfers ref = some t) {id : Str}
    (other : id ≠ t.connectionID) {stamp : Int} (member : stamp ∈ transferStamps w id) :
    stamp ∈ transferStamps after id := by
  obtain ⟨between, new, rfl, kept, _, _⟩ := stamped
  obtain ⟨place, active, old, found, own, same⟩ := mem_transferStamps.mp member
  have different : place ≠ ref := by
    rintro rfl
    rw [entry, Option.some.injEq] at found
    exact other (found ▸ own.symm)
  apply mem_transferStamps.mpr
  refine ⟨place, ?_, old, ?_, own, same⟩
  · exact kept.active ▸ active
  · simp only [World.setTransfer, if_neg different, kept.transfers]
    exact found

end StampedAt

/-! ### Closing a transfer -/

theorem swapRemove_eq (refs : List Nat) (ref : Nat) :
    World.swapRemove refs ref = (swapRemoveFirst (fun other => other = ref) refs).getD refs := by
  unfold World.swapRemove swapRemoveFirst
  cases refs.findIdx? (fun other => other = ref) with
  | none => rfl
  | some i =>
    induction refs using List.reverseRecOn with
    | nil => rfl
    | append_singleton front last _ => simp [swapRemoveAt]

/-- Nothing but one occurrence of the transfer leaves the list. -/
theorem swapRemove_cases (refs : List Nat) (ref : Nat) :
    World.swapRemove refs ref = refs ∨ refs.Perm (ref :: World.swapRemove refs ref) := by
  rw [swapRemove_eq]
  cases removed : swapRemoveFirst (fun other => decide (other = ref)) refs with
  | none => exact Or.inl rfl
  | some rest =>
    obtain ⟨entry, same, perm⟩ := swapRemoveFirst_perm removed
    exact Or.inr (of_decide_eq_true same ▸ perm)

theorem mem_of_mem_swapRemove (left : other ∈ World.swapRemove refs ref) : other ∈ refs := by
  rcases swapRemove_cases refs ref with same | perm
  · rwa [same] at left
  · exact perm.mem_iff.mpr (List.mem_cons_of_mem ref left)

theorem mem_swapRemove (member : other ∈ refs) (different : other ≠ ref) :
    other ∈ World.swapRemove refs ref := by
  rcases swapRemove_cases refs ref with same | perm
  · rwa [same]
  · exact (List.mem_cons.mp (perm.mem_iff.mp member)).resolve_left different

theorem TransfersKept.settle (os : Os) (w : World) (t : Transfer) :
    TransfersKept w (Transfer.settle os w t).1 := by
  unfold Transfer.settle
  split
  · split
    · exact setFs w _
    · exact refl w
  · exact refl w

theorem TransfersKept.closed (kept : TransfersKept w after) (ref : Nat) :
    TransfersKept ((w.addClose ref).removeTransfer ref)
      ((after.addClose ref).removeTransfer ref) where
  transfers := kept.transfers
  next := kept.next
  active := congrArg (World.swapRemove · ref) kept.active
  closes := congrArg (ref :: ·) kept.closes

theorem close_transfers {settings : Settings} {os : Os} {ref : Nat}
    {t : Transfer} (entry : w.transfers ref = some t) :
    TransfersKept
      (((w.setTransfer ref { t with file := t.file.closed }).addClose ref).removeTransfer ref)
      (Transfer.close settings os w ref).1 := by
  simp only [Transfer.close, entry, Transfer.account]
  have settled :=
    (TransfersKept.settle os (w.setTransfer ref { t with file := t.file.closed }) t).closed ref
  split
  · exact settled.trans (updateUserQuota _ _ _ _ _ _)
  · exact settled

theorem close_stamps (entry : w.transfers ref = some t) (id : Str) :
    transferStamps (Transfer.close settings os w ref).1 id =
      transferStamps (w.removeTransfer ref) id := by
  rw [(close_transfers entry).stamps]
  unfold transferStamps
  apply List.filterMap_congr
  intro other _
  by_cases own : other = ref
  · subst own
    simp [World.removeTransfer, World.addClose, World.setTransfer, entry]
  · simp [World.removeTransfer, World.addClose, World.setTransfer, own]

theorem removeTransfer_stamps (entry : w.transfers ref = some t) {id : Str}
    (other : id ≠ t.connectionID) {stamp : Int} (member : stamp ∈ transferStamps w id) :
    stamp ∈ transferStamps (w.removeTransfer ref) id := by
  obtain ⟨place, active, old, found, own, same⟩ := mem_transferStamps.mp member
  have different : place ≠ ref := by
    rintro rfl
    rw [entry, Option.some.injEq] at found
    exact other (found ▸ own.symm)
  exact mem_transferStamps.mpr ⟨place, mem_swapRemove active different, old, found, own, same⟩

theorem close_tracked (entry : w.transfers ref = some t) (tracked : w.Tracked) :
    (Transfer.close settings os w ref).1.Tracked := by
  apply (close_transfers entry).tracked
  intro other left
  exact tracked other (mem_of_mem_swapRemove left)

end Stamps

/-! ## The last request of a connection -/

/-- The last request of a connection is stamped in its registry entry or on an
active transfer, or it is more than `idleTimeout` ago. -/
def Stamped (idleTimeout now : Int) (w : World) (c : OpenConnection) (stamp : Int) : Prop :=
  stamp ≤ c.lastActivity ∨ (∃ seen ∈ transferStamps w c.id, stamp ≤ seen) ∨
    idleTimeout < now - stamp

instance (idleTimeout now : Int) (w : World) (c : OpenConnection) (stamp : Int) :
    Decidable (Stamped idleTimeout now w c stamp) :=
  inferInstanceAs (Decidable (_ ∨ _ ∨ _))

def Server.Stamps (idleTimeout : Int) (id : Str) (s : Server) : Prop :=
  ∀ c ∈ s.openConnections.get id, ∀ stamp ∈ s.served id, Stamped idleTimeout s.clock s.world c stamp

instance (idleTimeout : Int) (id : Str) (s : Server) : Decidable (s.Stamps idleTimeout id) :=
  inferInstanceAs (Decidable (∀ c ∈ s.openConnections.get id, ∀ stamp ∈ s.served id, _))

/-- No step takes the only stamp of the connection's last request while that
is recent: a handler starts on the connection when the login or an active
transfer is stamped as late as the request; a transfer is closed while the
request is stamped in the registry or on another transfer; and no request goes
to the HDFS handler. -/
def KeepsStamps (idleTimeout : Int) (id : Str) (s : Server) : ServerEvent → Prop
  | .start other _ _ =>
    other = id → ∀ conn ∈ s.find id, ∀ stamp ∈ s.served id,
      Stamped idleTimeout s.clock s.world conn stamp
  | .close _ ref =>
    ∀ t ∈ s.world.transfers ref, t.connectionID = id → ∀ c ∈ s.openConnections.get id,
      ∀ stamp ∈ s.served id, Stamped idleTimeout s.clock (s.world.removeTransfer ref) c stamp
  | .request i _ _ | .hdfsTransfer i =>
    ∀ handler ∈ s.handlers[i]?, handler.conn.id = id → handler.service ≠ .hdfs
  | _ => True

instance (idleTimeout : Int) (id : Str) (s : Server) :
    ∀ event, Decidable (KeepsStamps idleTimeout id s event)
  | .start _ _ _ =>
    inferInstanceAs (Decidable (_ → ∀ conn ∈ s.find id, ∀ stamp ∈ s.served id, Stamped ..))
  | .close _ ref =>
    inferInstanceAs (Decidable (∀ t ∈ s.world.transfers ref, _ →
      ∀ c ∈ s.openConnections.get id, ∀ stamp ∈ s.served id, Stamped ..))
  | .request i _ _ | .hdfsTransfer i =>
    inferInstanceAs (Decidable (∀ handler ∈ s.handlers[i]?, _ → handler.service ≠ .hdfs))
  | .tick _ | .login _ _ | .baseKey _ _ | .gone _ | .finish _ | .scp _ _ _ |
    .readAt _ _ _ _ _ | .writeAt _ _ _ _ _ => isTrue trivial

/-- What holds in every run, and what holds once the last request of the
connection is `judged` to be stamped. -/
structure Server.Recorded (idleTimeout : Int) (id : Str) (judged : Prop) (s : Server) : Prop where
  keys : ∀ id c, s.openConnections.get id = some c → c.id = id
  tracked : s.world.Tracked
  past : ∀ stamp, s.served id = some stamp → stamp ≤ s.clock
  stamps : judged → s.Stamps idleTimeout id

section Recorded

variable {settings : Settings} {message : Int → Str} {s : Server} {idleTimeout : Int} {id : Str}
  {judged : Prop}

theorem recorded_start (world : World) (tracked : world.Tracked) :
    (Server.start world).Recorded idleTimeout id judged where
  keys := by simp [Server.start]
  tracked := tracked
  past := by simp [Server.start]
  stamps := by simp [Server.Stamps, Server.start]

theorem Stamped.mono {w after : World} {now later stamp : Int} {c : OpenConnection}
    (stamped : Stamped idleTimeout now w c stamp) (grow : StampsGrow w after c.id)
    (passed : now ≤ later) : Stamped idleTimeout later after c stamp := by
  rcases stamped with early | ⟨seen, member, late⟩ | idle
  · exact Or.inl early
  · exact Or.inr (Or.inl ⟨seen, grow seen member, late⟩)
  · exact Or.inr (Or.inr (by omega))

namespace Server.Recorded

variable {after : World} {ref : Nat} (recorded : s.Recorded idleTimeout id judged)

include recorded

theorem grow (grow : StampsGrow s.world after id) (tracked : after.Tracked) :
    Server.Recorded idleTimeout id judged { s with world := after } where
  keys := recorded.keys
  tracked := tracked
  past := recorded.past
  stamps := by
    intro holds c entry stamp served
    apply (recorded.stamps holds c entry stamp served).mono _ le_rfl
    rwa [recorded.keys id c entry]

theorem touch (active : Str) : (s.touch active).Recorded idleTimeout id judged where
  keys := by
    intro other c entry
    simp only [Server.touch, get_updateConnectionActivity] at entry
    by_cases own : other = active
    · rw [if_pos own, Option.map_eq_some_iff] at entry
      obtain ⟨old, found, rfl⟩ := entry
      exact recorded.keys other old found
    · rw [if_neg own] at entry
      exact recorded.keys other c entry
  tracked := recorded.tracked
  past := recorded.past
  stamps := by
    intro holds c entry stamp served
    simp only [Server.touch, get_updateConnectionActivity] at entry
    by_cases own : id = active
    · rw [if_pos own, Option.mem_def, Option.map_eq_some_iff] at entry
      obtain ⟨old, found, rfl⟩ := entry
      exact Or.inl (recorded.past stamp served)
    · rw [if_neg own] at entry
      exact recorded.stamps holds c entry stamp served

/-- A request of a connection that has a stamp of this time, in a world where
the other connections have kept theirs. -/
theorem serve (active : Str)
    (tracked : after.Tracked)
    (own : active = id → judged → ∀ c, s.openConnections.get id = some c →
      Stamped idleTimeout s.clock after c s.clock)
    (others : id ≠ active → StampsGrow s.world after id) :
    (Server.serve { s with world := after } active).Recorded idleTimeout id judged := by
  by_cases same : id = active
  · subst same
    refine ⟨recorded.keys, tracked, ?_, ?_⟩
    · intro stamp served
      simp only [Server.serve, Function.update_self, Option.some.injEq] at served
      exact served ▸ le_refl _
    · intro holds c entry stamp served
      simp only [Server.serve, Function.update_self, Option.mem_def, Option.some.injEq] at served
      exact served ▸ own rfl holds c entry
  · obtain ⟨keys, tracked, past, stamps⟩ := recorded.grow (others same) tracked
    have unchanged : Function.update s.served active (some s.clock) id = s.served id :=
      Function.update_of_ne same ..
    refine ⟨keys, tracked, ?_, ?_⟩
    · simp only [Server.serve, unchanged]
      exact past
    · simp only [Server.serve, Server.Stamps, unchanged]
      exact stamps

theorem request (active : Str) (grown : TransfersGrown s.world after) :
    Server.Recorded idleTimeout id judged
      { (s.touch active).serve active with world := after } := by
  obtain ⟨grow, tracked⟩ := grown.stampsGrow recorded.tracked
  refine (recorded.touch active).serve active tracked ?_ fun _ => grow id
  rintro rfl _ c entry
  simp only [Server.touch, get_updateConnectionActivity, if_true, Option.map_eq_some_iff] at entry
  obtain ⟨old, _, rfl⟩ := entry
  exact Or.inl (le_refl _)

theorem onTransfer
    (stamped : ∀ t, s.world.transfers ref = some t → StampedAt s.world after ref t s.clock) :
    (s.onTransfer ref after).Recorded idleTimeout id judged := by
  unfold Server.onTransfer
  split
  · exact recorded
  · next t entry =>
      have stamped := stamped t entry
      split
      · next active =>
          refine recorded.serve t.connectionID (stamped.tracked recorded.tracked) ?_
            fun different _ member => stamped.others entry different member
          rintro rfl _ c found
          refine Or.inr (Or.inl ⟨s.clock, ?_, le_refl _⟩)
          rw [recorded.keys _ c found]
          exact stamped.own active
      · exact recorded

theorem accept (new : Str) (user : User) : (s.accept new user).Recorded idleTimeout id judged := by
  unfold Server.accept
  split
  · exact recorded
  · exact ⟨recorded.keys, recorded.tracked, recorded.past, recorded.stamps⟩

theorem startHandler {conn : OpenConnection}
    (service : Service) (known : judged → conn.id = id → ∀ stamp ∈ s.served id,
      Stamped idleTimeout s.clock s.world conn stamp) :
    (s.startHandler conn service).Recorded idleTimeout id judged where
  keys := by
    intro other c entry
    rw [Server.startHandler, get_addConnection] at entry
    by_cases new : other = conn.id
    · rw [if_pos new, Option.some.injEq] at entry
      exact entry ▸ new.symm
    · rw [if_neg new] at entry
      exact recorded.keys other c entry
  tracked := recorded.tracked
  past := recorded.past
  stamps := by
    intro holds c entry stamp served
    rw [Server.startHandler, get_addConnection] at entry
    by_cases new : id = conn.id
    · rw [if_pos new, Option.mem_some_iff] at entry
      exact entry ▸ known holds new.symm stamp served
    · rw [if_neg new] at entry
      exact recorded.stamps holds c entry stamp served

theorem endHandler (i : Nat) (handler : Handler) :
    (s.endHandler i handler).Recorded idleTimeout id judged where
  keys := by
    intro other c entry
    rw [Server.endHandler, get_removeConnection] at entry
    exact recorded.keys other c (Option.ite_none_left_eq_some.mp entry).2
  tracked := recorded.tracked
  past := recorded.past
  stamps := by
    intro holds c entry stamp served
    rw [Server.endHandler, get_removeConnection] at entry
    exact recorded.stamps holds c (Option.ite_none_left_eq_some.mp entry).2 stamp served

theorem close {os now : Os} {t : Transfer} (entry : s.world.transfers ref = some t)
    (elsewhere : judged → KeepsStamps idleTimeout id s (.close os ref)) :
    Server.Recorded idleTimeout id judged
      { s with world := (Transfer.close settings now s.world ref).1 } where
  keys := recorded.keys
  tracked := close_tracked entry recorded.tracked
  past := recorded.past
  stamps := by
    intro holds c found stamp served
    by_cases own : t.connectionID = id
    · refine (elsewhere holds t entry own c found stamp served).mono (fun _ member => ?_) le_rfl
      rwa [close_stamps entry]
    · refine (recorded.stamps holds c found stamp served).mono (fun _ member => ?_) le_rfl
      rw [close_stamps entry]
      apply removeTransfer_stamps entry _ member
      rw [recorded.keys id c found]
      exact Ne.symm own

theorem step {event : ServerEvent} (keeps : judged → KeepsStamps idleTimeout id s event) :
    (event.step settings message s).Recorded idleTimeout id judged := by
  cases event with
  | tick elapsed =>
    have passed : s.clock ≤ s.clock + elapsed := le_add_of_nonneg_right (Int.natCast_nonneg _)
    refine ⟨recorded.keys, recorded.tracked, ?_, ?_⟩
    · intro stamp served
      exact le_trans (recorded.past stamp served) passed
    · intro holds c entry stamp served
      exact (recorded.stamps holds c entry stamp served).mono (.refl _ _) passed
  | login other user =>
    simp only [ServerEvent.step]
    split
    · exact recorded
    · exact recorded.accept other _
  | baseKey other user => exact recorded.accept other user
  | gone other =>
    simp only [ServerEvent.step]
    split
    · exact recorded
    · exact ⟨recorded.keys, recorded.tracked, recorded.past, recorded.stamps⟩
  | start other service protocol =>
    simp only [ServerEvent.step]
    split
    · exact recorded
    · next conn found =>
        apply recorded.startHandler
        intro holds own stamp served
        obtain rfl : other = id := (Server.find_eq_some found).2.symm.trans own
        exact keeps holds rfl conn found stamp served
  | finish i =>
    simp only [ServerEvent.step]
    split
    · exact recorded
    · exact recorded.endHandler i _
  | request i os call =>
    simp only [ServerEvent.step]
    split
    · exact recorded
    · next handler found =>
        split
        · exact recorded.request _ (FileCall.world_grown _ settings _ s.world call)
        · next hdfs =>
            exact recorded.serve _ recorded.tracked
              (fun own holds => absurd hdfs (keeps holds handler found own)) fun _ => .refl _ _
        · exact recorded
  | scp i os call =>
    simp only [ServerEvent.step]
    split
    · exact recorded
    · split
      · next handler _ _ _ =>
          obtain ⟨grow, tracked⟩ :=
            (ScpCall.world_grown handler.conn.connection settings
              (os.at s.clock) s.world call).stampsGrow recorded.tracked
          exact (recorded.touch _).grow (grow id) tracked
      · exact recorded
  | readAt os index ref count off => exact recorded.onTransfer fun t entry => readAt_stamps entry
  | writeAt os index ref bytes off => exact recorded.onTransfer fun t entry => writeAt_stamps entry
  | close os ref =>
    simp only [ServerEvent.step]
    split
    · cases entry : s.world.transfers ref with
      | none =>
        simp only [Transfer.close, entry]
        exact recorded
      | some t => exact recorded.close entry keeps
    · exact recorded
  | hdfsTransfer i =>
    simp only [ServerEvent.step]
    split
    · exact recorded
    · next handler found =>
        split
        · next hdfs =>
            exact recorded.serve _ recorded.tracked
              (fun own holds => absurd hdfs (keeps holds handler found own)) fun _ => .refl _ _
        · exact recorded

/-- A pass does not close the connection while its last request is recent. -/
theorem idle_of_closed (holds : judged)
    (closed : id ∈ checkIdleConnections idleTimeout s.openConnections s.world s.clock)
    {stamp : Int} (served : s.served id = some stamp) :
    idleTimeout < s.clock - stamp := by
  obtain ⟨⟨key, c⟩, listed, same⟩ := List.mem_map.mp closed
  obtain ⟨member, idle⟩ := List.mem_filter.mp listed
  have entry := (SortedMap.mem_entries_iff _ key c).mp member
  have keyed : key = id := (recorded.keys key c entry).symm.trans same
  subst keyed
  obtain ⟨ownIdle, transfersIdle⟩ := lt_idleTime_iff.mp (of_decide_eq_true idle)
  rcases recorded.stamps holds c entry stamp served with early | ⟨seen, member, later⟩ | idle
  · have ownIdle : idleTimeout < s.clock - c.lastActivity := ownIdle
    omega
  · have idle := transfersIdle seen member
    omega
  · exact idle

end Server.Recorded

end Recorded

/-- Once the last request of a connection is stamped where the idle check
looks, and as long as no step takes the only stamp of its last request, a pass
closes the connection only without a request in the last `idleTimeout`. -/
theorem active_connections_kept (settings : Settings) (message : Int → Str)
    (fs : FileSys) (quota : Str → Option (Int × Int)) (idleTimeout : Int) (id : Str)
    (early late : List ServerEvent) (start : Server)
    (reached :
      run (ServerEvent.step settings message) (Server.start (World.start fs quota)) early = start)
    (stamped : start.Stamps idleTimeout id) (keeps :
      Admissible (ServerEvent.step settings message) (KeepsStamps idleTimeout id) start late)
    (s : Server) (visited : Visits (ServerEvent.step settings message) start late s)
    (closed : id ∈ checkIdleConnections idleTimeout s.openConnections s.world s.clock)
    (stamp : Int) (served : s.served id = some stamp) :
    idleTimeout < s.clock - stamp := by
  have before : start.Recorded idleTimeout id False :=
    reached ▸ run_invariant (fun _ _ => True) (Server.Recorded idleTimeout id False)
      (fun _ _ recorded _ => recorded.step False.elim)
      (recorded_start _ (by simp [World.Tracked, World.start]))
      (admissible_of_forall (fun _ _ => trivial) _)
  have recorded : s.Recorded idleTimeout id True :=
    visits_invariant (KeepsStamps idleTimeout id) (Server.Recorded idleTimeout id True)
      (fun _ _ recorded keeps => recorded.step fun _ => keeps)
      ⟨before.keys, before.tracked, before.past, fun _ => stamped⟩ keeps visited
  exact recorded.idle_of_closed trivial closed served

/-! ### Samples -/

def sampleServer : Server :=
  Server.start (World.start namesakeTree fun _ => none)

def loggedIn (service : Service) : List ServerEvent :=
  [.login "1".toList sampleUser, .start "1".toList service "SFTP".toList]

def listRequest : Request :=
  ⟨.list, "/".toList, [], 0, ⟨0, 0, 0, 0, 0, 0⟩⟩

/-- An upload whose last write comes long after it was opened, and which is
then closed. -/
def slowUpload : List ServerEvent :=
  loggedIn .sftp ++
    [.request 0 sampleOs (.filewrite (putRequest "/f")), .tick 1000,
      .writeAt sampleOs 0 0 ['x'] 0, .close sampleOs 0]

/-- The client goes on with a listing. -/
def listingLater : List ServerEvent :=
  slowUpload ++ [.request 0 sampleOs (.filelist listRequest)]

theorem idle_after_listing :
    let start := run (ServerEvent.step defaultSettings fun _ => []) sampleServer listingLater
    let s := run (ServerEvent.step defaultSettings fun _ => []) start [.tick 2000]
    s.served "1".toList = some 1000 ∧ (900 : Int) < s.clock - 1000 :=
  ⟨by decide +kernel,
    active_connections_kept defaultSettings (fun _ => []) namesakeTree (fun _ => none) 900
      "1".toList listingLater [.tick 2000] _ rfl (by decide +kernel) (by decide +kernel) _
      (visits_run _ _ _) (by decide +kernel) 1000 (by decide +kernel)⟩

/-- No pass with a timeout of 900 closes a connection with a request in that
time. -/
def KeepsActive (events : List ServerEvent) : Prop :=
  ∀ s, Visits (ServerEvent.step defaultSettings fun _ => []) sampleServer events s →
    ∀ id ∈ checkIdleConnections 900 s.openConnections s.world s.clock,
      ∀ stamp, s.served id = some stamp → 900 < s.clock - stamp

theorem not_keepsActive {events : List ServerEvent} (closed :
      let s :=
        run (ServerEvent.step defaultSettings fun _ => []) sampleServer events
      s.served "1".toList = some s.clock ∧
        "1".toList ∈ checkIdleConnections 900 s.openConnections s.world s.clock) :
    ¬ KeepsActive events := by
  intro kept
  have idle := kept _ (visits_run _ _ _) _ closed.2 _ closed.1
  omega

/-- A listing over HDFS. -/
def listingHdfs : List ServerEvent :=
  loggedIn .hdfs ++ [.tick 1000, .request 0 sampleOs (.filelist listRequest)]

/-- A pass at the very time of a request closes its connection, over HDFS and
over the local file system. -/
theorem active_connections_closed : ¬ KeepsActive listingHdfs ∧ ¬ KeepsActive slowUpload := by
  constructor
  · exact not_keepsActive (by decide +kernel)
  · exact not_keepsActive (by decide +kernel)

end Sshserv.Serv
