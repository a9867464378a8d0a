import Sshserv.Api.UserStore
import Sshserv.Serv.QuotaScans

/-!
# Quota scans over the REST interface

`startQuotaScan` leaves a goroutine behind that walks the home directory,
stores what it has found and takes its user off the list.  A run interleaves
requests, the two shared actions of each goroutine and other changes.
-/

namespace Sshserv.Api

open Lib UnixPath Runs DataProvider
open Serv

variable {σ : Type}

/-- The store, the list under the mutex and the users of the goroutines that
have been started and have not ended. -/
structure Scanning (σ : Type) where
  store : σ
  activeQuotaScans : List ActiveQuotaScan
  goroutines : List User

def Scanning.start (store : σ) : Scanning σ := ⟨store, [], []⟩

/-- What `utils.ScanDirContents` gives a goroutine: an error, or the number of
files and their size. -/
abbrev ScanResult := Except Str (Nat × Int)

inductive ScanEvent (σ : Type) where
  /-- A request, at a time in milliseconds. -/
  | request (millis : Int) (body : Body)
  /-- The goroutine at this place has walked the home directory. -/
  | scanned (i : Nat) (call : Call) (result : ScanResult)
  /-- The goroutine at this place takes its user off the list and ends. -/
  | finish (i : Nat)
  /-- Another part of the program leaves the store like this. -/
  | other (store : σ)

section Handlers

variable (config : Config) (p : Provider σ)

def startQuotaScan (s : Scanning σ) (millis : Int) (body : Body) : Scanning σ × Response :=
  match body User.zero with
  | .error err => (s, sendAPIResponse err [] 400)
  | .ok u =>
    match p.userExists s.store u.username with
    | .error err => (s, sendAPIResponse err.text [] 404)
    | .ok user =>
      let added := addQuotaScan millis user.username s.activeQuotaScans
      if added.1 then
        ({ s with
            activeQuotaScans := added.2
            goroutines := s.goroutines ++ [user] },
          sendAPIResponse none "Scan started".toList 201)
      else
        ({ s with activeQuotaScans := added.2 },
          sendAPIResponse none "Another scan is already in progress".toList 409)

/-- What the goroutine of a user does with the result of its walk.  A failed
walk and a failed update are only logged. -/
def storeScan (s : σ) (user : User) (call : Call) : ScanResult → σ
  | .error _ => s
  | .ok (numFiles, size) =>
    match updateUserQuota config p s call user numFiles size true with
    | .ok next => next
    | .error _ => s

/-- The list after the last action of a goroutine, which ignores the error. -/
def dropScan (scans : List ActiveQuotaScan) (user : User) : List ActiveQuotaScan :=
  match removeQuotaScan user.username scans with
  | .ok rest => rest
  | .error _ => scans

def ScanEvent.step (s : Scanning σ) : ScanEvent σ → Scanning σ
  | request millis body => (startQuotaScan p s millis body).1
  | scanned i call result =>
    match s.goroutines[i]? with
    | none => s
    | some user => { s with store := storeScan config p s.store user call result }
  | finish i =>
    match s.goroutines[i]? with
    | none => s
    | some user =>
      { s with
        activeQuotaScans := dropScan s.activeQuotaScans user
        goroutines := s.goroutines.eraseIdx i }
  | other store => { s with store := store }

end Handlers

def Scanning.running (s : Scanning σ) : List Str :=
  s.goroutines.map User.username

/-- The list has one entry for every goroutine and no user twice. -/
structure Scanning.Matched (s : Scanning σ) : Prop where
  nodup : (ActiveQuotaScan.names s.activeQuotaScans).Nodup
  perm : (ActiveQuotaScan.names s.activeQuotaScans).Perm s.running

namespace Scanning.Matched

variable {s : Scanning σ}

theorem start (store : σ) : (Scanning.start store).Matched :=
  ⟨List.nodup_nil, List.Perm.nil⟩

theorem running_nodup (matched : s.Matched) : s.running.Nodup :=
  matched.perm.nodup_iff.mp matched.nodup

theorem mem_names_iff (matched : s.Matched) (username : Str) :
    username ∈ ActiveQuotaScan.names s.activeQuotaScans ↔ username ∈ s.running :=
  matched.perm.mem_iff

theorem request (matched : s.Matched) (p : Provider σ) (millis : Int)
    (body : Body) : (startQuotaScan p s millis body).1.Matched := by
  unfold startQuotaScan
  split
  · exact matched
  · split
    · exact matched
    · next user _ =>
        by_cases listed : user.username ∈ ActiveQuotaScan.names s.activeQuotaScans
        · simp only [addQuotaScan_of_mem listed]
          exact matched
        · simp only [addQuotaScan_of_not_mem listed, if_true]
          constructor
          · have added := matched.nodup.concat listed
            simpa [ActiveQuotaScan.names] using added
          · simpa [ActiveQuotaScan.names, running] using matched.perm.append_right [user.username]

theorem finish (matched : s.Matched) {i : Nat} (inside : i < s.goroutines.length) :
    Scanning.Matched
      { s with
        activeQuotaScans := dropScan s.activeQuotaScans s.goroutines[i]
        goroutines := s.goroutines.eraseIdx i } := by
  have member : s.goroutines[i].username ∈ s.running :=
    List.mem_map_of_mem (List.getElem_mem inside)
  obtain ⟨rest, removed⟩ := removeQuotaScan_of_mem ((matched.mem_names_iff _).mpr member)
  obtain ⟨scan, same, entries⟩ := removeQuotaScan_perm removed
  have names :
      (ActiveQuotaScan.names s.activeQuotaScans).Perm
        (s.goroutines[i].username :: ActiveQuotaScan.names rest) := by
    rw [← same]
    exact entries.map ActiveQuotaScan.username
  have others :
      (s.goroutines[i].username :: (s.goroutines.eraseIdx i).map User.username).Perm s.running :=
    (List.getElem_cons_eraseIdx_perm inside).map User.username
  simp only [dropScan, removed]
  constructor
  · exact (List.nodup_cons.mp (names.nodup_iff.mp matched.nodup)).2
  · exact (names.symm.trans (matched.perm.trans others.symm)).cons_inv

theorem step (matched : s.Matched) (config : Config) (p : Provider σ)
    (event : ScanEvent σ) : (event.step config p s).Matched := by
  cases event with
  | request millis body => exact matched.request p millis body
  | scanned i call result =>
    simp only [ScanEvent.step]
    split
    · exact matched
    · exact ⟨matched.nodup, matched.perm⟩
  | finish i =>
    by_cases inside : i < s.goroutines.length
    · simpa [ScanEvent.step, List.getElem?_eq_getElem inside] using matched.finish inside
    · simpa [ScanEvent.step, List.getElem?_eq_none (Nat.le_of_not_lt inside)] using matched
  | other store => exact ⟨matched.nodup, matched.perm⟩

/-- What is left when one of the running users is removed: every entry but
theirs, each as often as before. -/
theorem remove (matched : s.Matched) {username : Str} (running : username ∈ s.running) :
    ∃ rest, removeQuotaScan username s.activeQuotaScans = .ok rest ∧
      username ∉ ActiveQuotaScan.names rest ∧
      ∀ scan : ActiveQuotaScan, scan.username ≠ username →
        rest.count scan = s.activeQuotaScans.count scan := by
  obtain ⟨rest, removed⟩ := removeQuotaScan_of_mem ((matched.mem_names_iff _).mpr running)
  obtain ⟨own, same, entries⟩ := removeQuotaScan_perm removed
  have names := entries.map ActiveQuotaScan.username
  refine ⟨rest, removed, ?_, ?_⟩
  · rw [← same]
    exact (List.nodup_cons.mp (names.nodup_iff.mp matched.nodup)).1
  · intro scan another
    have different : own ≠ scan := by
      rintro rfl
      exact another same
    rw [entries.count_eq, List.count_cons_of_ne different]

end Scanning.Matched

/-- Over all interleavings: a user has at most one running scan, is refused
exactly while it runs, leaves the list alone when it ends, and the list is
empty when no scan runs. -/
theorem quota_scans_exclusive (config : Config) (p : Provider σ) (store : σ)
    (events : List (ScanEvent σ)) (s : Scanning σ)
    (visited : Visits (ScanEvent.step config p) (Scanning.start store) events s) :
    s.running.Nodup ∧
      (∀ millis username,
        (addQuotaScan millis username s.activeQuotaScans).1 = false ↔ username ∈ s.running) ∧
      (∀ username ∈ s.running,
        (ActiveQuotaScan.names s.activeQuotaScans).count username = 1 ∧
        ∃ rest, removeQuotaScan username s.activeQuotaScans = .ok rest ∧
          username ∉ ActiveQuotaScan.names rest ∧
          ∀ scan : ActiveQuotaScan, scan.username ≠ username →
            rest.count scan = s.activeQuotaScans.count scan) ∧
      (s.goroutines = [] → s.activeQuotaScans = []) := by
  have matched : s.Matched :=
    visits_invariant (fun _ _ => True) Scanning.Matched
      (fun _ event matched _ => matched.step config p event)
      (Scanning.Matched.start store)
      (admissible_of_forall (fun _ _ => trivial) _) visited
  refine ⟨matched.running_nodup, ?_, ?_, ?_⟩
  · intro millis username
    rw [addQuotaScan_refuses_iff, matched.mem_names_iff]
  · intro username running
    have listed := (matched.mem_names_iff username).mpr running
    exact ⟨List.count_eq_one_of_mem matched.nodup listed, matched.remove running⟩
  · intro ended
    have empty := matched.perm
    rw [Scanning.running, ended] at empty
    exact List.map_eq_nil_iff.mp empty.eq_nil

def twoUserStore : BoltProvider :=
  run (UserEvent.step plainConfig plainCredentials) BoltProvider.empty
    [.post plainCall (newUserBody "a".toList), .post plainCall (newUserBody "b".toList)]

/-- Scans of both users are asked for, that of the first one twice, and the
first one ends. -/
def twoScans : List (ScanEvent BoltProvider) :=
  [.request 0 (newUserBody "a".toList), .request 1 (newUserBody "b".toList),
    .request 2 (newUserBody "a".toList), .scanned 0 plainCall (.ok (3, 40)),
    .finish 0]

theorem two_scans_exclusive :
    let both :=
      run (ScanEvent.step plainConfig (BoltProvider.provider plainCredentials))
        (Scanning.start twoUserStore) twoScans
    both.running = ["b".toList] ∧
      ((addQuotaScan 3 "b".toList both.activeQuotaScans).1 = false ↔ "b".toList ∈ both.running) :=
  ⟨by decide +kernel,
    (quota_scans_exclusive plainConfig (BoltProvider.provider plainCredentials)
      twoUserStore twoScans _ (visits_run _ _ _)).2.1 3 "b".toList⟩

end Sshserv.Api
