import Sshserv.Serv.Registry

/-!
# Who is in the registry

A connection in the registry has a running handler (`Server.Sound`).  The
other direction is what several handlers of one connection break: the first
one that ends takes the entry of all of them.
-/

namespace Sshserv.Serv

open Lib UnixPath FileTree Runs
open DataProvider OpenConnections

namespace OpenConnections

variable (table : OpenConnections)

theorem get_addConnection (conn : OpenConnection) (id : Str) :
    (table.addConnection conn).get id = if id = conn.id then some conn else table.get id := by
  simp [addConnection, SortedMap.get_put]

theorem get_removeConnection (gone id : Str) :
    (table.removeConnection gone).get id = if id = gone then none else table.get id := by
  simp [removeConnection, SortedMap.get_delete]

theorem get_updateConnectionActivity (active id : Str) (now : Int) :
    (table.updateConnectionActivity active now).get id =
      if id = active then
        (table.get id).map fun c => { c with lastActivity := now }
      else table.get id := by
  unfold updateConnectionActivity
  by_cases same : id = active
  · subst same
    cases entry : table.get id with
    | none => simp [entry]
    | some c => simp [SortedMap.get_put]
  · cases entry : table.get active with
    | none => simp [same]
    | some c => simp [SortedMap.get_put, same]

theorem updateConnectionActivity_connection (active id : Str) (now : Int) :
    ((table.updateConnectionActivity active now).get id).map OpenConnection.connection =
      (table.get id).map OpenConnection.connection := by
  rw [get_updateConnectionActivity]
  by_cases same : id = active
  · rw [if_pos same, Option.map_map]
    rfl
  · rw [if_neg same]

end OpenConnections

/-- No connection and no handler has come or gone. -/
structure SameSessions (s after : Server) : Prop where
  accepted : after.accepted = s.accepted
  handlers : after.handlers = s.handlers
  entries : ∀ id,
    (after.openConnections.get id).map OpenConnection.connection =
      (s.openConnections.get id).map OpenConnection.connection

namespace SameSessions

variable {s after : Server}

theorem refl (s : Server) : SameSessions s s :=
  ⟨rfl, rfl, fun _ => rfl⟩

theorem of_table (accepted : after.accepted = s.accepted) (handlers : after.handlers = s.handlers)
    (table : after.openConnections = s.openConnections) :
    SameSessions s after :=
  ⟨accepted, handlers, fun _ => by rw [table]⟩

theorem isSome (same : SameSessions s after) (id : Str) :
    (after.openConnections.get id).isSome = (s.openConnections.get id).isSome := by
  have entries := congrArg Option.isSome (same.entries id)
  rwa [Option.isSome_map, Option.isSome_map] at entries

theorem entry (same : SameSessions s after) {id : Str} {c : OpenConnection}
    (found : after.openConnections.get id = some c) :
    ∃ c', s.openConnections.get id = some c' ∧ c'.connection = c.connection := by
  have entries := same.entries id
  rw [found, Option.map_some] at entries
  exact Option.map_eq_some_iff.mp entries.symm

end SameSessions

/-- The events that only use the sessions there are. -/
def ServerEvent.IsTraffic : ServerEvent → Prop
  | tick _ | request _ _ _ | scp _ _ _ | readAt _ _ _ _ _ => True
  | writeAt _ _ _ _ _ | close _ _ | hdfsTransfer _ => True
  | login _ _ | baseKey _ _ | gone _ | start _ _ _ | finish _ => False

section Steps

variable {settings : Settings} {message : Int → Str} {s : Server}

theorem Server.onTransfer_sameSessions (ref : Nat) (after : World) :
    SameSessions s (s.onTransfer ref after) := by
  unfold Server.onTransfer
  split
  · exact SameSessions.refl s
  · split
    · exact SameSessions.of_table rfl rfl rfl
    · exact SameSessions.refl s

theorem step_traffic {event : ServerEvent} (traffic : event.IsTraffic) :
    SameSessions s (event.step settings message s) := by
  have touched (id : Str) (served : Str → Option Int) (world : World) :
      SameSessions s { s.touch id with served := served, world := world } :=
    ⟨rfl, rfl, fun other =>
      s.openConnections.updateConnectionActivity_connection id other s.clock⟩
  cases event with
  | tick elapsed => exact SameSessions.of_table rfl rfl rfl
  | request i os call =>
    simp only [ServerEvent.step]
    split
    · exact SameSessions.refl s
    · split
      · exact touched _ _ _
      · exact SameSessions.of_table rfl rfl rfl
      · exact SameSessions.refl s
  | scp i os call =>
    simp only [ServerEvent.step]
    split
    · exact SameSessions.refl s
    · split
      · exact touched _ _ _
      · exact SameSessions.refl s
  | readAt os index ref count off => exact Server.onTransfer_sameSessions _ _
  | writeAt os index ref bytes off => exact Server.onTransfer_sameSessions _ _
  | close os ref =>
    simp only [ServerEvent.step]
    split
    · exact SameSessions.of_table rfl rfl rfl
    · exact SameSessions.refl s
  | hdfsTransfer i =>
    simp only [ServerEvent.step]
    split
    · exact SameSessions.refl s
    · split
      · exact SameSessions.of_table rfl rfl rfl
      · exact SameSessions.refl s
  | login | baseKey | gone | start | finish => exact absurd traffic id

end Steps

/-- A connection is in the registry exactly when one of its handlers runs. -/
def Server.Accurate (s : Server) : Prop :=
  ∀ id, (s.openConnections.get id).isSome = true ↔ ∃ handler ∈ s.handlers, handler.conn.id = id

/-- A handler that ends is the last one of its connection. -/
def LastToEnd (s : Server) : ServerEvent → Prop
  | .finish i =>
    ∀ handler ∈ s.handlers[i]?, ∀ other ∈ s.handlers.eraseIdx i, other.conn.id ≠ handler.conn.id
  | _ => True

section Accurate

variable {settings : Settings} {message : Int → Str} {s : Server}

theorem accurate_start (world : World) : (Server.start world).Accurate := by
  intro id
  simp [Server.start]

theorem Server.Accurate.of_same {after : Server} (accurate : s.Accurate)
    (same : SameSessions s after) : after.Accurate := by
  intro id
  rw [same.isSome id, same.handlers]
  exact accurate id

theorem Server.Accurate.startHandler (accurate : s.Accurate)
    (conn : OpenConnection) (service : Service) :
    (s.startHandler conn service).Accurate := by
  intro id
  have before := accurate id
  simp only [Server.startHandler, get_addConnection, List.mem_append, List.mem_singleton]
  by_cases new : id = conn.id
  · rw [if_pos new]
    exact iff_of_true rfl ⟨_, Or.inr rfl, new.symm⟩
  · rw [if_neg new, before]
    constructor
    · rintro ⟨handler, member, same⟩
      exact ⟨handler, Or.inl member, same⟩
    · rintro ⟨handler, member | rfl, same⟩
      · exact ⟨handler, member, same⟩
      · exact absurd same.symm new

/-- The handler that ends takes the entry with it; the registry stays accurate
if nobody else needed the entry. -/
theorem Server.Accurate.endHandler_iff (accurate : s.Accurate)
    {i : Nat} (inside : i < s.handlers.length) :
    (s.endHandler i s.handlers[i]).Accurate ↔
      ∀ other ∈ s.handlers.eraseIdx i, other.conn.id ≠ s.handlers[i].conn.id := by
  have members (handler : Handler) :
      handler ∈ s.handlers ↔ handler = s.handlers[i] ∨ handler ∈ s.handlers.eraseIdx i := by
    rw [← (List.getElem_cons_eraseIdx_perm inside).mem_iff, List.mem_cons]
  constructor
  · intro after other left same
    have entry := (after other.conn.id).mpr ⟨other, left, rfl⟩
    simp [Server.endHandler, get_removeConnection, same] at entry
  · intro alone id
    simp only [Server.endHandler, get_removeConnection]
    by_cases own : id = s.handlers[i].conn.id
    · rw [if_pos own]
      refine iff_of_false (by simp) ?_
      rintro ⟨other, left, same⟩
      exact alone other left (same.trans own)
    · rw [if_neg own, accurate id]
      constructor
      · rintro ⟨handler, member, same⟩
        rcases (members handler).mp member with rfl | left
        · exact absurd same.symm own
        · exact ⟨handler, left, same⟩
      · rintro ⟨handler, left, same⟩
        exact ⟨handler, (members handler).mpr (Or.inr left), same⟩

theorem Server.Accurate.accept (accurate : s.Accurate) (id : Str)
    (user : User) : (s.accept id user).Accurate := by
  unfold Server.accept
  split
  · exact accurate
  · exact accurate

theorem Server.Accurate.step_iff (accurate : s.Accurate) (event : ServerEvent) :
    (event.step settings message s).Accurate ↔ LastToEnd s event := by
  cases event with
  | tick | request | scp | readAt | writeAt | close | hdfsTransfer =>
    exact iff_of_true (accurate.of_same (step_traffic trivial)) trivial
  | login id user =>
    refine iff_of_true ?_ trivial
    simp only [ServerEvent.step]
    split
    · exact accurate
    · exact accurate.accept id _
  | baseKey id user => exact iff_of_true (accurate.accept id user) trivial
  | gone id =>
    refine iff_of_true ?_ trivial
    simp only [ServerEvent.step]
    split
    · exact accurate
    · exact accurate
  | start id service protocol =>
    refine iff_of_true ?_ trivial
    simp only [ServerEvent.step]
    split
    · exact accurate
    · exact accurate.startHandler _ service
  | finish i =>
    by_cases inside : i < s.handlers.length
    · simpa [ServerEvent.step, LastToEnd,
        List.getElem?_eq_getElem inside] using accurate.endHandler_iff inside
    · have missing : s.handlers[i]? = none := List.getElem?_eq_none (Nat.le_of_not_lt inside)
      simpa [ServerEvent.step, LastToEnd, missing] using accurate

end Accurate

/-- The registry is accurate in every state of a run exactly when no handler
ends while another one of the same connection is running. -/
theorem registry_accurate_iff (settings : Settings) (message : Int → Str) (world : World)
    (events : List ServerEvent) :
    (∀ s, Visits (ServerEvent.step settings message) (Server.start world) events s → s.Accurate) ↔
      Admissible (ServerEvent.step settings message) LastToEnd (Server.start world) events := by
  rw [forall_visits_iff, and_iff_right (accurate_start world)]
  exact
    forall_takes_iff_admissible LastToEnd Server.Accurate
      (fun s event => (event.step settings message s).Accurate)
      (fun _ event accurate last => (accurate.step_iff event).mpr last)
      (fun _ event accurate => accurate.step_iff event)
      (accurate_start world) events

/-! ### Two subsystems on one connection -/

def bareWorld : World :=
  World.start (FileSys.rootOnly sampleAttr 4096) fun _ => none

def singleUser : User :=
  { User.zero with
    username := "u".toList, homeDir := "/".toList, maxSessions := 1,
    permissions := [permAny] }

/-- A client opens two SFTP subsystems on its connection and leaves the first
one. -/
def twoSubsystems : List ServerEvent :=
  [.login "1".toList singleUser, .start "1".toList .sftp "SFTP".toList,
    .start "1".toList .sftp "SFTP".toList, .finish 0]

theorem second_subsystem_not_registered :
    ¬ ∀ s, Visits (ServerEvent.step defaultSettings fun _ => [])
        (Server.start bareWorld) twoSubsystems s → s.Accurate := by
  intro accurate
  have final := accurate _ (visits_run _ _ _) "1".toList
  have running :
      ∃ handler ∈ (run (ServerEvent.step defaultSettings fun _ => [])
        (Server.start bareWorld) twoSubsystems).handlers, handler.conn.id = "1".toList := by
    decide +kernel
  have entry := final.mpr running
  revert entry
  decide +kernel

/-- Every entry belongs to a handler and every handler to a connection. -/
structure Server.Sound (s : Server) : Prop where
  ids : (s.accepted.map OpenConnection.id).Nodup
  handled : ∀ handler ∈ s.handlers, ∃ conn ∈ s.accepted,
    conn.id = handler.conn.id ∧ conn.username = handler.conn.username
  registered : ∀ id c, s.openConnections.get id = some c →
    ∃ handler ∈ s.handlers, handler.conn.id = id ∧ handler.conn.username = c.username

def Server.connected (s : Server) (username : Str) : List OpenConnection :=
  s.accepted.filter fun conn => conn.username = username

def Server.busy (s : Server) (username : Str) : Finset Str :=
  ((s.handlers.filter fun handler => handler.conn.username = username).map
    fun handler => handler.conn.id).toFinset

/-- When the user logs in, fewer connections of theirs than the limit are
there, or all of them have their session in the registry.  The base key skips
the registry. -/
def LoginsSettled (username : Str) (limit : Int) (s : Server) : ServerEvent → Prop
  | .login _ user =>
    user.username = username → ((s.connected username).length : Int) < limit ∨
      ∀ conn ∈ s.connected username, (s.openConnections.get conn.id).isSome = true
  | .baseKey _ user => user.username = username → ((s.connected username).length : Int) < limit
  | _ => True

/-- The record of the user that the provider returns has this limit. -/
def HasLimit (username : Str) (limit : Int) : ServerEvent → Prop
  | .login _ user => user.username = username → user.maxSessions = limit
  | _ => True

instance (username : Str) (limit : Int) (s : Server) :
    ∀ event, Decidable (LoginsSettled username limit s event)
  | .login _ _ =>
    inferInstanceAs (Decidable (_ → _ < _ ∨ ∀ conn ∈ s.connected username, _ = true))
  | .baseKey _ _ => inferInstanceAs (Decidable (_ → _ < _))
  | .tick _ | .gone _ | .start _ _ _ | .finish _ | .request _ _ _ |
    .scp _ _ _ | .readAt _ _ _ _ _ | .writeAt _ _ _ _ _ | .close _ _ |
    .hdfsTransfer _ => isTrue trivial

instance (username : Str) (limit : Int) : ∀ event, Decidable (HasLimit username limit event)
  | .login _ _ => inferInstanceAs (Decidable (_ → _ = _))
  | .baseKey _ _ | .tick _ | .gone _ | .start _ _ _ | .finish _ |
    .request _ _ _ | .scp _ _ _ | .readAt _ _ _ _ _ | .writeAt _ _ _ _ _ |
    .close _ _ | .hdfsTransfer _ => isTrue trivial

section Limit

variable {settings : Settings} {message : Int → Str} {s : Server}

theorem sound_start (world : World) : (Server.start world).Sound where
  ids := List.nodup_nil
  handled := by simp [Server.start]
  registered := by simp [Server.start]

theorem Server.find_eq_none_iff (s : Server) (id : Str) :
    s.find id = none ↔ id ∉ s.accepted.map OpenConnection.id := by
  simp [Server.find, List.find?_eq_none]

variable {id username : Str} {limit : Int} {user : User}

theorem Server.find_eq_some
    {conn : OpenConnection} (found : s.find id = some conn) : conn ∈ s.accepted ∧ conn.id = id := by
  have matching := List.find?_some found
  exact ⟨List.mem_of_find?_eq_some found, of_decide_eq_true matching⟩

namespace Server.Sound

theorem of_same {after : Server} (sound : s.Sound) (same : SameSessions s after) : after.Sound where
  ids := by
    rw [same.accepted]
    exact sound.ids
  handled := by
    rw [same.accepted, same.handlers]
    exact sound.handled
  registered := by
    intro id c found
    obtain ⟨before, entry, connection⟩ := same.entry found
    have username : before.username = c.username := by
      rw [OpenConnection.username, connection]
      rfl
    rw [same.handlers, ← username]
    exact sound.registered id before entry

theorem accept (sound : s.Sound) (id : Str) (user : User) : (s.accept id user).Sound := by
  unfold Server.accept
  split
  · exact sound
  · next missing =>
      have fresh := (s.find_eq_none_iff id).mp missing
      constructor
      · have added := sound.ids.concat fresh
        simpa [OpenConnection.id] using added
      · intro handler member
        obtain ⟨conn, there, same⟩ := sound.handled handler member
        exact ⟨conn, List.mem_append_left _ there, same⟩
      · exact sound.registered

theorem startHandler (sound : s.Sound) {id : Str} {found : OpenConnection}
    (there : s.find id = some found) {conn : OpenConnection}
    (sameId : conn.id = id) (sameUser : conn.username = found.username)
    (service : Service) : (s.startHandler conn service).Sound where
  ids := sound.ids
  handled := by
    intro handler member
    rcases List.mem_append.mp member with before | new
    · exact sound.handled handler before
    · obtain rfl := List.mem_singleton.mp new
      obtain ⟨member, own⟩ := Server.find_eq_some there
      exact ⟨found, member, own.trans sameId.symm, sameUser.symm⟩
  registered := by
    intro other c entry
    rw [Server.startHandler, get_addConnection] at entry
    by_cases new : other = conn.id
    · rw [if_pos new, Option.some.injEq] at entry
      subst entry
      exact ⟨⟨conn, service⟩, by simp [Server.startHandler], new.symm, rfl⟩
    · rw [if_neg new] at entry
      obtain ⟨handler, member, same⟩ := sound.registered other c entry
      exact ⟨handler, List.mem_append_left _ member, same⟩

theorem endHandler (sound : s.Sound) {i : Nat} (inside : i < s.handlers.length) :
    (s.endHandler i s.handlers[i]).Sound where
  ids := sound.ids
  handled := fun handler left =>
    sound.handled handler (List.mem_of_mem_eraseIdx left)
  registered := by
    intro id c entry
    rw [Server.endHandler, get_removeConnection] at entry
    by_cases own : id = s.handlers[i].conn.id
    · simp [own] at entry
    · rw [if_neg own] at entry
      obtain ⟨handler, member, same⟩ := sound.registered id c entry
      have other : handler ≠ s.handlers[i] := by
        rintro rfl
        exact own same.1.symm
      rw [← (List.getElem_cons_eraseIdx_perm inside).mem_iff, List.mem_cons] at member
      exact ⟨handler, member.resolve_left other, same⟩

theorem gone (sound : s.Sound) (id : Str)
    (idle : ¬ (s.handlers.any fun handler => handler.conn.id = id) = true) :
    Server.Sound { s with accepted := s.accepted.filter fun conn => conn.id ≠ id } where
  ids := (List.filter_sublist.map OpenConnection.id).nodup sound.ids
  handled := by
    intro handler member
    obtain ⟨conn, there, same⟩ := sound.handled handler member
    have other : conn.id ≠ id := by
      intro own
      exact idle (List.any_eq_true.mpr ⟨handler, member, decide_eq_true (same.1.symm.trans own)⟩)
    exact ⟨conn, List.mem_filter.mpr ⟨there, decide_eq_true other⟩, same⟩
  registered := sound.registered

theorem step (sound : s.Sound) (event : ServerEvent) : (event.step settings message s).Sound := by
  cases event with
  | tick | request | scp | readAt | writeAt | close | hdfsTransfer =>
    exact sound.of_same (step_traffic trivial)
  | login id user =>
    simp only [ServerEvent.step]
    split
    · exact sound
    · exact sound.accept id _
  | baseKey id user => exact sound.accept id user
  | gone id =>
    simp only [ServerEvent.step]
    split
    · exact sound
    · next idle => exact sound.gone id idle
  | start id service protocol =>
    simp only [ServerEvent.step]
    split
    · exact sound
    · next found there =>
        apply sound.startHandler there
        · exact (Server.find_eq_some there).2
        · rfl
  | finish i =>
    simp only [ServerEvent.step]
    split
    · exact sound
    · next handler found =>
        obtain ⟨inside, rfl⟩ := List.getElem?_eq_some_iff.mp found
        exact sound.endHandler inside

theorem busy_card_le (sound : s.Sound) (username : Str) :
    (s.busy username).card ≤ (s.connected username).length := by
  have inside : s.busy username ⊆ ((s.connected username).map OpenConnection.id).toFinset := by
    intro id member
    obtain ⟨handler, running, rfl⟩ := List.mem_map.mp (List.mem_toFinset.mp member)
    obtain ⟨there, user⟩ := List.mem_filter.mp running
    obtain ⟨conn, accepted, sameId, sameUser⟩ := sound.handled handler there
    have own : conn.username = username := sameUser.trans (of_decide_eq_true user)
    exact List.mem_toFinset.mpr (List.mem_map.mpr
      ⟨conn, List.mem_filter.mpr ⟨accepted, decide_eq_true own⟩, sameId⟩)
  calc (s.busy username).card
      ≤ ((s.connected username).map OpenConnection.id).toFinset.card := Finset.card_le_card inside
    _ ≤ ((s.connected username).map OpenConnection.id).length := List.toFinset_card_le _
    _ = (s.connected username).length := List.length_map _

theorem username_of_entry (sound : s.Sound) {conn c : OpenConnection} (accepted : conn ∈ s.accepted)
    (entry : s.openConnections.get conn.id = some c) :
    c.username = conn.username := by
  obtain ⟨handler, running, sameId, sameUser⟩ := sound.registered conn.id c entry
  obtain ⟨owner, there, ownerId, ownerUser⟩ := sound.handled handler running
  have same : owner = conn :=
    List.inj_on_of_nodup_map sound.ids there accepted (ownerId.trans sameId)
  rw [← same, ownerUser, sameUser]

/-- If all connections of a user are in the registry, the sessions counted
there are no fewer. -/
theorem connected_length_le (sound : s.Sound) (username : Str)
    (settled : ∀ conn ∈ s.connected username, (s.openConnections.get conn.id).isSome = true) :
    (s.connected username).length ≤ s.openConnections.getActiveSessions username := by
  have nodup : ((s.connected username).map OpenConnection.id).Nodup :=
    (List.filter_sublist.map OpenConnection.id).nodup sound.ids
  have inside :
      (s.connected username).map OpenConnection.id ⊆
        (s.openConnections.entries.filter fun entry =>
          entry.2.username = username).map Prod.fst := by
    intro id member
    obtain ⟨conn, own, rfl⟩ := List.mem_map.mp member
    obtain ⟨accepted, user⟩ := List.mem_filter.mp own
    have user := of_decide_eq_true user
    obtain ⟨c, entry⟩ := Option.isSome_iff_exists.mp (settled conn own)
    refine List.mem_map.mpr ⟨(conn.id, c), List.mem_filter.mpr ⟨?_, ?_⟩, rfl⟩
    · exact (SortedMap.mem_entries_iff _ _ _).mpr entry
    · exact decide_eq_true ((sound.username_of_entry accepted entry).trans user)
  have shorter := (nodup.subperm inside).length_le
  rwa [List.length_map, List.length_map] at shorter

end Server.Sound

theorem SameSessions.connected_le {after : Server} (same : SameSessions s after)
    (within : ((s.connected username).length : Int) ≤ limit) :
    ((after.connected username).length : Int) ≤ limit := by
  rwa [Server.connected, same.accepted]

theorem loginUser_ok {table : OpenConnections} {accepted : User}
    (passed : loginUser message table user = .ok accepted) :
    accepted = user ∧
      (0 < user.maxSessions →
        (table.getActiveSessions user.username : Int) < user.maxSessions) := by
  unfold loginUser at passed
  split at passed
  · contradiction
  · split at passed
    · contradiction
    · next free =>
        injection passed with same
        refine ⟨same.symm, fun positive => ?_⟩
        by_contra full
        exact free ⟨positive, Int.not_lt.mp full⟩

theorem connected_accept_of_ne (other : user.username ≠ username) :
    (s.accept id user).connected username = s.connected username := by
  unfold Server.accept
  split
  · rfl
  · simp [Server.connected, OpenConnection.username, other]

theorem Server.connected_accept_length_le (s : Server) (username id : Str) (user : User) :
    ((s.accept id user).connected username).length ≤ (s.connected username).length + 1 := by
  unfold Server.accept
  split
  · exact Nat.le_succ _
  · simp only [Server.connected, List.filter_append, List.length_append]
    exact Nat.add_le_add_left (List.length_filter_le _ [_]) _

theorem connected_login_le (positive : 0 < limit) (sound : s.Sound)
    (within : ((s.connected username).length : Int) ≤ limit)
    (settled : LoginsSettled username limit s (.login id user))
    (limited : HasLimit username limit (.login id user)) :
    ((((ServerEvent.login id user).step settings message s).connected
      username).length : Int) ≤ limit := by
  simp only [ServerEvent.step]
  split
  · exact within
  · next accepted passed =>
      obtain ⟨rfl, free⟩ := loginUser_ok passed
      by_cases own : accepted.username = username
      · have longer := s.connected_accept_length_le username id accepted
        rcases settled own with below | registered
        · omega
        · have limit := limited own
          have counted := sound.connected_length_le username registered
          have sessions := free (by omega)
          rw [own] at sessions
          omega
      · rwa [connected_accept_of_ne own]

theorem connected_step_le (positive : 0 < limit) (sound : s.Sound)
    (within : ((s.connected username).length : Int) ≤ limit) {event : ServerEvent}
    (settled : LoginsSettled username limit s event) (limited : HasLimit username limit event) :
    (((event.step settings message s).connected username).length : Int) ≤ limit := by
  cases event with
  | tick | request | scp | readAt | writeAt | close | hdfsTransfer =>
    exact SameSessions.connected_le (step_traffic trivial) within
  | login id user => exact connected_login_le positive sound within settled limited
  | baseKey id user =>
    have longer := s.connected_accept_length_le username id user
    by_cases own : user.username = username
    · have below := settled own
      simp only [ServerEvent.step]
      omega
    · rwa [ServerEvent.step, connected_accept_of_ne own]
  | gone id =>
    simp only [ServerEvent.step]
    split
    · exact within
    · have fewer :
          ((s.accepted.filter fun conn => conn.id ≠ id).filter fun conn =>
            conn.username = username).length ≤ (s.connected username).length :=
        (List.filter_sublist.filter _).length_le
      exact le_trans (Int.ofNat_le.mpr fewer) within
  | start id service protocol =>
    simp only [ServerEvent.step]
    split
    · exact within
    · exact within
  | finish i =>
    simp only [ServerEvent.step]
    split
    · exact within
    · exact within

end Limit

/-- If every login of a user finds fewer connections of theirs than the limit
or the sessions of all of them in the registry, the connections with a running
session never exceed the limit. -/
theorem session_limit (settings : Settings) (message : Int → Str) (world : World)
    (username : Str) (limit : Int) (positive : 0 < limit) (events : List ServerEvent)
    (limited : ∀ event ∈ events, HasLimit username limit event) (settled :
      Admissible (ServerEvent.step settings message) (LoginsSettled username limit)
        (Server.start world) events)
    (s : Server)
    (visited : Visits (ServerEvent.step settings message) (Server.start world) events s) :
    ((s.busy username).card : Int) ≤ limit := by
  have invariant : s.Sound ∧ ((s.connected username).length : Int) ≤ limit :=
    visits_invariant
      (fun s event =>
        LoginsSettled username limit s event ∧ HasLimit username limit event)
      (fun s => s.Sound ∧ ((s.connected username).length : Int) ≤ limit)
      (fun s event before allowed =>
        ⟨before.1.step event, connected_step_le positive before.1 before.2 allowed.1 allowed.2⟩)
      ⟨sound_start world, positive.le⟩ (settled.and_forall limited) visited
  exact le_trans (Int.ofNat_le.mpr (invariant.1.busy_card_le username)) invariant.2

/-- A client has its session before the same user logs in again. -/
def loginsInTurn : List ServerEvent :=
  [.login "1".toList singleUser, .start "1".toList .sftp "SFTP".toList,
    .login "2".toList singleUser, .start "2".toList .scp "SCP".toList]

/-- Two clients log in, then both ask for a session. -/
def loginsAtOnce : List ServerEvent :=
  [.login "1".toList singleUser, .login "2".toList singleUser,
    .start "1".toList .sftp "SFTP".toList, .start "2".toList .scp "SCP".toList]

theorem logins_in_turn_limited :
    let s :=
      run (ServerEvent.step defaultSettings fun _ => []) (Server.start bareWorld) loginsInTurn
    s.handlers.length = 1 ∧ ((s.busy "u".toList).card : Int) ≤ 1 :=
  ⟨by decide +kernel,
    session_limit defaultSettings (fun _ => []) bareWorld "u".toList 1
      (by decide) loginsInTurn (by decide +kernel) (by decide +kernel) _
      (visits_run _ _ _)⟩

theorem logins_at_once_exceed_limit :
    ¬ ∀ s, Visits (ServerEvent.step defaultSettings fun _ => [])
        (Server.start bareWorld) loginsAtOnce s → ((s.busy "u".toList).card : Int) ≤ 1 := by
  intro within
  have final := within _ (visits_run _ _ _)
  revert final
  decide +kernel

end Sshserv.Serv
