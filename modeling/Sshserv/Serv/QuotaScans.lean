import Sshserv.DataProvider.User
import Sshserv.Lib.SwapRemove

/-!
# The list of active quota scans

`AddQuotaScan` and `RemoveQuotaScan` of package `serv`.  Both hold the mutex
from their first line to their last, so each is one step.
-/

namespace Sshserv.Serv

open Lib Lib.UnixPath

structure ActiveQuotaScan where
  username : Str
  startTime : Int
  deriving DecidableEq

namespace ActiveQuotaScan

def names (scans : List ActiveQuotaScan) : List Str :=
  scans.map username

end ActiveQuotaScan

open ActiveQuotaScan

/-- Whether the user was added, and the list afterwards. -/
def addQuotaScan (millis : Int) (username : Str)
    (scans : List ActiveQuotaScan) : Bool × List ActiveQuotaScan :=
  if scans.any fun scan => scan.username = username then (false, scans)
  else (true, scans ++ [⟨username, millis⟩])

def removeQuotaScan (username : Str) (scans : List ActiveQuotaScan) :
    Except Str (List ActiveQuotaScan) :=
  match swapRemoveFirst (fun scan => scan.username = username) scans with
  | none => .error ("quota scan to remove not found for user: ".toList ++ username)
  | some rest => .ok rest

variable {millis : Int} {username : Str} {scans rest : List ActiveQuotaScan}

theorem addQuotaScan_of_mem (listed : username ∈ names scans) :
    addQuotaScan millis username scans = (false, scans) := by
  have found : (scans.any fun scan => scan.username = username) = true := by
    obtain ⟨scan, member, same⟩ := List.mem_map.mp listed
    exact List.any_eq_true.mpr ⟨scan, member, decide_eq_true same⟩
  rw [addQuotaScan, if_pos found]

theorem addQuotaScan_of_not_mem (free : username ∉ names scans) :
    addQuotaScan millis username scans = (true, scans ++ [⟨username, millis⟩]) := by
  have missing : ¬ (scans.any fun scan => scan.username = username) = true := by
    intro found
    obtain ⟨scan, member, same⟩ := List.any_eq_true.mp found
    exact free (List.mem_map.mpr ⟨scan, member, of_decide_eq_true same⟩)
  rw [addQuotaScan, if_neg missing]

/-- A user is refused exactly when the list has an entry of theirs. -/
theorem addQuotaScan_refuses_iff :
    (addQuotaScan millis username scans).1 = false ↔ username ∈ names scans := by
  by_cases listed : username ∈ names scans
  · simp [addQuotaScan_of_mem listed, listed]
  · simp [addQuotaScan_of_not_mem listed, listed]

theorem removeQuotaScan_perm (removed : removeQuotaScan username scans = .ok rest) :
    ∃ scan : ActiveQuotaScan, scan.username = username ∧ scans.Perm (scan :: rest) := by
  unfold removeQuotaScan at removed
  split at removed
  · contradiction
  · next found =>
      injection removed with same
      subst same
      obtain ⟨scan, matching, perm⟩ := swapRemoveFirst_perm found
      exact ⟨scan, of_decide_eq_true matching, perm⟩

theorem removeQuotaScan_of_mem (listed : username ∈ names scans) :
    ∃ rest, removeQuotaScan username scans = .ok rest := by
  obtain ⟨scan, member, same⟩ := List.mem_map.mp listed
  unfold removeQuotaScan
  split
  · next missing =>
      have absent := swapRemoveFirst_eq_none_iff.mp missing scan member
      exact absurd same (of_decide_eq_false absent)
  · exact ⟨_, rfl⟩

end Sshserv.Serv
