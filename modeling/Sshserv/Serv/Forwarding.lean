import Sshserv.Serv.ConnectionLoop

/-!
# Listeners of forwarded ports

The map of forwards is keyed by the text of the requested address, while each
request opens a listener of its own.  A second listener takes the place of the
first, and a goroutine that stops accepting deletes the text only.
-/

namespace Sshserv.Serv

open Lib UnixPath Runs DataProvider

namespace ForwardedTCPHandler

variable {h : ForwardedTCPHandler}

/-- Every listener that is open can be found through the map. -/
def Reachable (h : ForwardedTCPHandler) : Prop :=
  ∀ i ln, h.listeners[i]? = some ln → ln.isOpen = true → ∃ key, h.forwards.get key = some i

/-- The map leads from a text to a listener that was asked for with it. -/
def Keyed (h : ForwardedTCPHandler) : Prop :=
  ∀ key i, h.forwards.get key = some i → ∃ ln, h.listeners[i]? = some ln ∧ ln.addr = key

theorem reachable_new : new.Reachable := by
  intro i ln entry
  simp [new] at entry

theorem keyed_new : new.Keyed := by
  intro key i entry
  simp [new] at entry

theorem listen_listeners (h : ForwardedTCPHandler) (addr : Str) (i : Nat) :
    (h.listen addr).listeners[i]? =
      if i = h.listeners.length then some ⟨addr, true, true⟩
      else h.listeners[i]? := by
  simp only [listen]
  by_cases last : i = h.listeners.length
  · subst last
    simp
  · rw [if_neg last]
    rcases Nat.lt_or_gt_of_ne last with before | behind
    · exact List.getElem?_append_left before
    · rw [List.getElem?_eq_none (by simpa using behind), List.getElem?_eq_none behind.le]

theorem listen_get (h : ForwardedTCPHandler) (addr key : Str) :
    (h.listen addr).forwards.get key =
      if key = addr then some h.listeners.length else h.forwards.get key := by
  simp [listen]

variable {i : Nat} {ln : Listener} {loop : Bool}

theorem Keyed.lt_length (keyed : h.Keyed) {key : Str} (entry : h.forwards.get key = some i) :
    i < h.listeners.length := by
  obtain ⟨ln, found, _⟩ := keyed key i entry
  exact (List.getElem?_eq_some_iff.mp found).1

theorem Keyed.listen (keyed : h.Keyed) (addr : Str) : (h.listen addr).Keyed := by
  intro key i entry
  rw [listen_get] at entry
  rw [listen_listeners]
  by_cases own : key = addr
  · rw [if_pos own, Option.some.injEq] at entry
    exact ⟨_, if_pos entry.symm, own.symm⟩
  · rw [if_neg own] at entry
    have before := keyed.lt_length entry
    rw [if_neg before.ne]
    exact keyed key i entry

/-- A listener is lost exactly when another one is open under the text. -/
theorem Reachable.listen_iff (reachable : h.Reachable) (keyed : h.Keyed)
    (opened : ∀ ln ∈ h.listeners, ln.isOpen = true) (addr : Str) :
    (h.listen addr).Reachable ↔ h.forwards.get addr = none := by
  constructor
  · intro after
    cases held : h.forwards.get addr with
    | none => rfl
    | some i =>
      obtain ⟨ln, entry, named⟩ := keyed addr i held
      have before := keyed.lt_length held
      have still : (h.listen addr).listeners[i]? = some ln := by
        rw [listen_listeners, if_neg before.ne, entry]
      obtain ⟨key, found⟩ := after i ln still (opened ln (List.mem_of_getElem? entry))
      rw [listen_get] at found
      by_cases own : key = addr
      · rw [if_pos own, Option.some.injEq] at found
        exact absurd found.symm before.ne
      · rw [if_neg own] at found
        obtain ⟨other, same, key'⟩ := keyed key i found
        rw [entry, Option.some.injEq] at same
        exact absurd (key'.symm.trans (same ▸ named)) own
  · intro free i ln entry isOpen
    rw [listen_listeners] at entry
    by_cases last : i = h.listeners.length
    · exact ⟨addr, by rw [listen_get, if_pos rfl, last]⟩
    · rw [if_neg last] at entry
      obtain ⟨key, found⟩ := reachable i ln entry isOpen
      have other : key ≠ addr := by
        rintro rfl
        rw [free] at found
        exact absurd found (by simp)
      exact ⟨key, by rw [listen_get, if_neg other, found]⟩

theorem closeListener_listeners (h : ForwardedTCPHandler) (i j : Nat) :
    (h.closeListener i).listeners[j]? =
      h.listeners[j]?.map fun ln =>
        if i = j then { ln with isOpen := false } else ln := by
  rw [closeListener, List.getElem?_modify]
  by_cases same : i = j
  · simp [same]
  · simp [same]

theorem foldl_closeListener (places : List Nat) (h : ForwardedTCPHandler) :
    (places.foldl closeListener h).forwards = h.forwards ∧
      ∀ j : Nat, (places.foldl closeListener h).listeners[j]? =
        h.listeners[j]?.map fun ln =>
          if j ∈ places then { ln with isOpen := false } else ln := by
  induction places generalizing h with
  | nil => simp
  | cons i rest ih =>
    obtain ⟨map, listeners⟩ := ih (h.closeListener i)
    refine ⟨map, fun j => ?_⟩
    rw [List.foldl_cons, listeners, closeListener_listeners, Option.map_map]
    congr 1
    funext ln
    by_cases here : i = j
    · by_cases again : j ∈ rest <;> simp [here, again]
    · have different : j ≠ i := fun same => here same.symm
      simp [here, different]

theorem closeAll_listeners (h : ForwardedTCPHandler) (j : Nat) :
    h.closeAll.listeners[j]? =
      h.listeners[j]?.map fun ln =>
        if j ∈ h.forwards.entries.map Prod.snd then
          { ln with isOpen := false }
        else ln :=
  (foldl_closeListener _ h).2 j

theorem closeAll_forwards (h : ForwardedTCPHandler) : h.closeAll.forwards = h.forwards :=
  (foldl_closeListener _ h).1

theorem Keyed.closeAll (keyed : h.Keyed) : h.closeAll.Keyed := by
  intro key i entry
  rw [closeAll_forwards] at entry
  obtain ⟨ln, found, named⟩ := keyed key i entry
  rw [closeAll_listeners, found, Option.map_some]
  refine ⟨_, rfl, ?_⟩
  split
  · exact named
  · exact named

theorem Reachable.closeAll (reachable : h.Reachable) :
    ∀ ln ∈ h.closeAll.listeners, ln.isOpen = false := by
  intro ln member
  obtain ⟨i, found⟩ := List.mem_iff_getElem?.mp member
  rw [closeAll_listeners, Option.map_eq_some_iff] at found
  obtain ⟨before, entry, rfl⟩ := found
  split
  · rfl
  · next unlisted =>
      by_contra isOpen
      obtain ⟨key, held⟩ := reachable i before entry ((Bool.not_eq_false _).mp isOpen)
      exact unlisted (List.mem_map.mpr
        ⟨(key, i), (SortedMap.mem_entries_iff _ key i).mpr held, rfl⟩)

theorem reachable_of_closed (closed : ∀ ln ∈ h.listeners, ln.isOpen = false) : h.Reachable := by
  intro i ln entry isOpen
  rw [closed ln (List.mem_of_getElem? entry)] at isOpen
  exact absurd isOpen (by simp)

theorem acceptFails_of_accepting (entry : h.listeners[i]? = some ln) (accepting : ln.accepting) :
    h.acceptFails i =
      { forwards := h.forwards.delete ln.addr
        listeners := h.listeners.set i { ln with accepting := false } } := by
  simp [acceptFails, entry, accepting]

theorem acceptFails_of_not (idle : ∀ ln ∈ h.listeners[i]?, ln.accepting ≠ true) :
    h.acceptFails i = h := by
  unfold acceptFails
  split
  · rfl
  · next ln entry => rw [if_neg (idle ln entry)]

theorem not_reachable_acceptFails
    (keyed : h.Keyed) (entry : h.listeners[i]? = some ln) (accepting : ln.accepting)
    (isOpen : ln.isOpen) : ¬ (h.acceptFails i).Reachable := by
  rw [acceptFails_of_accepting entry accepting]
  intro after
  have inside := (List.getElem?_eq_some_iff.mp entry).1
  obtain ⟨key, found⟩ :=
    after i { ln with accepting := false } (by simp [List.getElem?_set_self inside]) isOpen
  simp only [SortedMap.get_delete] at found
  obtain ⟨other, found⟩ := Option.ite_none_left_eq_some.mp found
  obtain ⟨same, again, named⟩ := keyed key i found
  rw [entry, Option.some.injEq] at again
  exact other (named.symm.trans (again ▸ rfl))

theorem Keyed.acceptFails (keyed : h.Keyed) (i : Nat) : (h.acceptFails i).Keyed := by
  unfold ForwardedTCPHandler.acceptFails
  split
  · exact keyed
  · next ln entry =>
      split
      · intro key j found
        simp only [SortedMap.get_delete] at found
        obtain ⟨_, found⟩ := Option.ite_none_left_eq_some.mp found
        obtain ⟨other, there, named⟩ := keyed key j found
        by_cases own : i = j
        · subst own
          have inside := (List.getElem?_eq_some_iff.mp entry).1
          rw [entry, Option.some.injEq] at there
          subst there
          exact ⟨_, List.getElem?_set_self inside, named⟩
        · exact ⟨other, (List.getElem?_set_ne own).trans there, named⟩
      · exact keyed

theorem acceptFails_closed (closed : ∀ ln ∈ h.listeners, ln.isOpen = false)
    (i : Nat) : ∀ ln ∈ (h.acceptFails i).listeners, ln.isOpen = false := by
  unfold ForwardedTCPHandler.acceptFails
  split
  · exact closed
  · next ln entry =>
      split
      · intro other member
        rcases List.mem_or_eq_of_mem_set member with before | rfl
        · exact closed other before
        · exact closed ln (List.mem_of_getElem? entry)
      · exact closed

/-- While the loop runs, every listener is open and in the map; afterwards all
are closed. -/
structure Tidy (h : ForwardedTCPHandler) (loop : Bool) : Prop where
  keyed : h.Keyed
  reachable : h.Reachable
  opened : loop = true → ∀ ln ∈ h.listeners, ln.isOpen = true
  closed : loop = false → ∀ ln ∈ h.listeners, ln.isOpen = false

theorem tidy_new : new.Tidy true where
  keyed := keyed_new
  reachable := reachable_new
  opened := by simp [new]
  closed := by simp

theorem Tidy.listen (tidy : h.Tidy true) {addr : Str}
    (free : h.forwards.get addr = none) : (h.listen addr).Tidy true where
  keyed := tidy.keyed.listen addr
  reachable := (tidy.reachable.listen_iff tidy.keyed (tidy.opened rfl) addr).mpr free
  opened := by
    intro _ ln member
    rcases List.mem_append.mp member with before | new
    · exact tidy.opened rfl ln before
    · rw [List.mem_singleton.mp new]
  closed := by simp

theorem Tidy.closeAll (tidy : h.Tidy loop) : h.closeAll.Tidy false where
  keyed := tidy.keyed.closeAll
  reachable := reachable_of_closed tidy.reachable.closeAll
  opened := by simp
  closed := fun _ => tidy.reachable.closeAll

theorem Tidy.acceptFails_iff (tidy : h.Tidy loop) (i : Nat) :
    (h.acceptFails i).Reachable ↔
      ∀ ln ∈ h.listeners[i]?, ln.accepting = true → ln.isOpen = false := by
  constructor
  · intro after ln entry accepting
    by_contra isOpen
    exact not_reachable_acceptFails tidy.keyed entry accepting
      ((Bool.not_eq_false _).mp isOpen) after
  · intro closed
    cases loop with
    | true =>
      rw [acceptFails_of_not]
      · exact tidy.reachable
      · intro ln entry accepting
        have isOpen := tidy.opened rfl ln (List.mem_of_getElem? entry)
        rw [closed ln entry accepting] at isOpen
        exact absurd isOpen (by simp)
    | false => exact reachable_of_closed (acceptFails_closed (tidy.closed rfl) i)

theorem Tidy.acceptFails (tidy : h.Tidy loop)
    (closed : ∀ ln ∈ h.listeners[i]?, ln.accepting = true → ln.isOpen = false) :
    (h.acceptFails i).Tidy loop where
  keyed := tidy.keyed.acceptFails i
  reachable := (tidy.acceptFails_iff i).mpr closed
  opened := by
    intro looping
    have idle : ∀ ln ∈ h.listeners[i]?, ln.accepting ≠ true := by
      intro ln entry accepting
      have isOpen := tidy.opened looping ln (List.mem_of_getElem? entry)
      rw [closed ln entry accepting] at isOpen
      exact absurd isOpen (by simp)
    rw [acceptFails_of_not idle]
    exact tidy.opened looping
  closed := fun ended => acceptFails_closed (tidy.closed ended) i

end ForwardedTCPHandler

open ForwardedTCPHandler

/-- No listener is out of reach, and none outlives the loop. -/
def Link.NoLeak (s : Link) : Prop :=
  ∀ h ∈ s.forwardHandler, h.Reachable ∧ (s.loop = false → ∀ ln ∈ h.listeners, ln.isOpen = false)

def Link.Tidy (s : Link) : Prop :=
  ∀ h ∈ s.forwardHandler, h.Tidy s.loop

section Steps

variable (config : Configuration) (user : User)

/-- The text under which a request opens a listener, if it does. -/
def asksFor (r : GlobalRequest) : Option Str :=
  if r.type = "tcpip-forward".toList ∧ mayForward config user = true ∧
      r.listens.isSome = true then
    r.payload.map fun bind => joinHostPort bind.1 bind.2
  else none

/-- A listener is opened under a text that the map does not have, and stops
accepting only after it has been closed. -/
def OwnsItsText (s : Link) : LinkEvent → Prop
  | .global r =>
    s.loop = true → ∀ addr ∈ asksFor config user r,
      ∀ h ∈ s.forwardHandler, h.forwards.get addr = none
  | .acceptFails i =>
    ∀ h ∈ s.forwardHandler, ∀ ln ∈ h.listeners[i]?, ln.accepting = true → ln.isOpen = false
  | .channel _ | .closed => True

variable {config user} {s : Link}

theorem Link.Tidy.noLeak (tidy : s.Tidy) : s.NoLeak :=
  fun h present => ⟨(tidy h present).reachable, (tidy h present).closed⟩

theorem tidy_start : Link.start.Tidy := by
  simp [Link.Tidy, Link.start]

theorem onGlobal_opens {r : GlobalRequest} {addr : Str} (asks : asksFor config user r = some addr) :
    (s.onGlobal config user r).1.forwardHandler =
      some ((s.forwardHandler.getD new).listen addr) := by
  unfold asksFor at asks
  split at asks
  · next opens =>
      obtain ⟨forward, permitted, listens⟩ := opens
      obtain ⟨bind, payload, rfl⟩ := Option.map_eq_some_iff.mp asks
      obtain ⟨port, bound⟩ := Option.isSome_iff_exists.mp listens
      simp only [Link.onGlobal, forward, if_true, permitted, handlePortforward, payload, bound]
  · contradiction

theorem onGlobal_fails {r : GlobalRequest} (asks : asksFor config user r = none) :
    ∀ h ∈ (s.onGlobal config user r).1.forwardHandler, h = s.forwardHandler.getD new := by
  intro h present
  have kept (there : s.forwardHandler = some h) : h = s.forwardHandler.getD new := by
    rw [there]
    rfl
  unfold Link.onGlobal at present
  split at present
  · next forward =>
      split at present
      · next permitted =>
          obtain rfl := Option.some.inj present
          simp only [handlePortforward, forward, if_true]
          split
          · next payload bound =>
              simp [asksFor, forward, permitted, payload, bound] at asks
          · rfl
      · exact kept present
  · exact kept present

theorem Link.Tidy.getD (tidy : s.Tidy) (looping : s.loop) :
    (s.forwardHandler.getD new).Tidy true := by
  cases present : s.forwardHandler with
  | none => exact tidy_new
  | some h => exact looping ▸ tidy h present

theorem Link.Tidy.leave (tidy : s.Tidy) : s.leave.Tidy := by
  intro h present
  obtain ⟨before, there, rfl⟩ := Option.map_eq_some_iff.mp present
  exact (tidy before there).closeAll

theorem Link.Tidy.step (tidy : s.Tidy) {event : LinkEvent}
    (owns : OwnsItsText config user s event) :
    (event.step config user s).Tidy := by
  cases event with
  | global r =>
    simp only [LinkEvent.step]
    split
    · next looping =>
        intro h present
        rw [(onGlobal_loop r).1, looping]
        cases asks : asksFor config user r with
        | none =>
          rw [onGlobal_fails asks h present]
          exact tidy.getD looping
        | some addr =>
          rw [onGlobal_opens asks] at present
          obtain rfl := Option.some.inj present
          apply (tidy.getD looping).listen
          cases there : s.forwardHandler with
          | none => simp [new]
          | some before => exact owns looping addr asks before there
    · exact tidy
  | channel ch =>
    simp only [LinkEvent.step, Link.onChannel]
    split
    · split
      · exact tidy
      · exact tidy.leave
    · exact tidy
  | closed =>
    simp only [LinkEvent.step]
    split
    · exact tidy.leave
    · exact tidy
  | acceptFails i =>
    intro h present
    obtain ⟨before, there, rfl⟩ := Option.map_eq_some_iff.mp present
    exact (tidy before there).acceptFails (owns before there)

/-- A step that loses no listener keeps to the condition. -/
theorem Link.Tidy.noLeak_step_iff (tidy : s.Tidy) (event : LinkEvent) :
    (event.step config user s).NoLeak ↔ OwnsItsText config user s event := by
  refine ⟨fun after => ?_, fun owns => (tidy.step owns).noLeak⟩
  cases event with
  | global r =>
    intro looping addr asks h there
    have opened := tidy h there
    rw [looping] at opened
    have handler :
        ((LinkEvent.global r).step config user s).forwardHandler = some (h.listen addr) := by
      simp only [LinkEvent.step]
      rw [if_pos looping, onGlobal_opens asks, there]
      rfl
    exact (opened.reachable.listen_iff opened.keyed (opened.opened rfl) addr).mp (after _ handler).1
  | channel ch => trivial
  | closed => trivial
  | acceptFails i =>
    intro h there
    have handler :
        ((LinkEvent.acceptFails i).step config user s).forwardHandler = some (h.acceptFails i) :=
      Option.map_eq_some_iff.mpr ⟨h, there, rfl⟩
    exact ((tidy h there).acceptFails_iff i).mp (after _ handler).1

end Steps

/-- Every open listener is in the map in every state of a run, and none is
open once the loop has ended, exactly when no listener takes the text of
another one and none stops accepting while it is open. -/
theorem no_leaked_listener_iff (config : Configuration) (user : User) (events : List LinkEvent) :
    (∀ s, Visits (LinkEvent.step config user) Link.start events s → s.NoLeak) ↔
      Admissible (LinkEvent.step config user) (OwnsItsText config user) Link.start events := by
  rw [forall_visits_iff, and_iff_right tidy_start.noLeak]
  exact
    forall_takes_iff_admissible (OwnsItsText config user) Link.Tidy
      (fun s event => (event.step config user s).NoLeak)
      (fun _ _ tidy owns => tidy.step owns)
      (fun _ event tidy => tidy.noLeak_step_iff event) tidy_start events

def anyPort (port : Nat) : LinkEvent :=
  .global ⟨"tcpip-forward".toList, true, some ([], 0), some port⟩

/-- A client asks twice for any free port and leaves. -/
def anyPortTwice : List LinkEvent := [anyPort 4001, anyPort 4002, .closed]

/-- The first listener is still open when the connection has ended. -/
theorem first_listener_leaked :
    ¬ ∀ s, Visits (LinkEvent.step ⟨true, false⟩ (userWith permTCPForward))
        Link.start anyPortTwice s → s.NoLeak := by
  intro noLeak
  have final := noLeak _ (visits_run _ Link.start anyPortTwice)
  have closed := (final _ rfl).2 rfl
  revert closed
  decide +kernel

end Sshserv.Serv
