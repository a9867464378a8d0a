import Sshserv.DataProvider.Sql

/-!
# The rows of an SQL table

What each query of an SQL provider does to the rows when it succeeds.  Rows
stay under their own names and no two of them ever have the same id.
-/

namespace Sshserv.DataProvider

open Lib Lib.UnixPath

namespace SqlTable

variable {t next : SqlTable}

variable {user : User} {db : Database} {credentials : Credentials} {call : Call}

theorem commit_ok (committed : t.commit db = .ok next) :
    next = t ∧ ∀ name row, t.rows.get name = some row → RowFits db.driver row := by
  unfold commit at committed
  split at committed
  · rename_i fits
    cases committed
    exact ⟨rfl, fun name row held => fits (name, row) ((SortedMap.mem_entries_iff ..).mpr held)⟩
  · cases committed

theorem commit_of_fits (fits : ∀ name row, t.rows.get name = some row → RowFits db.driver row) :
    t.commit db = .ok t := by
  unfold commit
  rw [if_pos]
  rintro ⟨name, row⟩ held
  exact fits name row ((SortedMap.mem_entries_iff ..).mp held)

theorem getUserByID_ok {id : Int} (read : t.getUserByID id = .ok user) :
    ∃ name, t.rows.get name = some user ∧ user.id = id := by
  simp only [getUserByID] at read
  split at read
  · cases read
  · rename_i name row rest found
    cases read
    have member : (name, user) ∈ (t.rows.filterValues fun row => row.id = id).entries := by
      simp [found]
    rw [SortedMap.mem_entries_iff, SortedMap.get_filterValues, Option.filter_eq_some_iff] at member
    exact ⟨name, member.1, by simpa using member.2⟩

theorem addUser_ok (added : t.addUser db credentials call user = .ok next) :
    ∃ valid, validateUser credentials user = .ok valid ∧
      t.rows.get valid.username = none ∧
      next =
        { rows := t.rows.put valid.username (t.newRow call valid)
          lastId := t.lastId + 1 + call.skipped } := by
  simp only [addUser] at added
  cases checked : validateUser credentials user with
  | error err =>
    rw [checked] at added
    cases added
  | ok valid =>
    rw [checked] at added
    simp only at added
    split at added
    · cases added
    · rename_i missing
      exact ⟨valid, rfl, by simpa using missing, (commit_ok added).1⟩

theorem updateUser_ok (updated : t.updateUser db credentials user = .ok next) :
    ∃ valid, validateUser credentials user = .ok valid ∧
      next =
        { t with
          rows := t.rows.mapValues fun row =>
            if row.id = valid.id then updateRow row valid else row } := by
  simp only [updateUser] at updated
  cases checked : validateUser credentials user with
  | error err =>
    rw [checked] at updated
    cases updated
  | ok valid =>
    rw [checked] at updated
    exact ⟨valid, rfl, (commit_ok updated).1⟩

/-- Rows are stored under their own names, their ids are distinct, and the ids
still to be given out are not in use. -/
structure Keyed (t : SqlTable) : Prop where
  named : ∀ name row, t.rows.get name = some row → row.username = name
  distinct :
    ∀ name other row found,
      t.rows.get name = some row → t.rows.get other = some found → row.id = found.id → name = other
  counted : ∀ name row, t.rows.get name = some row → row.id ≤ t.lastId

theorem keyed_empty : Keyed empty where
  named := by simp [empty]
  distinct := by simp [empty]
  counted := by simp [empty]

theorem Keyed.insert (keyed : Keyed t) {name : Str} {row : User}
    (ownName : row.username = name) (fresh : t.lastId < row.id) :
    Keyed { rows := t.rows.put name row, lastId := row.id } := by
  have notFresh : ∀ other found, t.rows.get other = some found → found.id < row.id := by
    intro other found held
    have bound := keyed.counted other found held
    omega
  constructor
  · intro other found held
    rw [SortedMap.get_put] at held
    split at held
    · rename_i isName
      cases held
      rw [ownName, isName]
    · exact keyed.named other found held
  · intro first second left right leftHeld rightHeld sameId
    rw [SortedMap.get_put] at leftHeld rightHeld
    split at leftHeld
    · rename_i firstName
      cases leftHeld
      split at rightHeld
      · rename_i secondName
        rw [firstName, secondName]
      · have older := notFresh second right rightHeld
        omega
    · split at rightHeld
      · cases rightHeld
        have older := notFresh first left leftHeld
        omega
      · exact keyed.distinct first second left right leftHeld rightHeld sameId
  · intro other found held
    rw [SortedMap.get_put] at held
    split at held
    · cases held
      exact le_rfl
    · exact (notFresh other found held).le

/-- The rows that a statement chooses change, but neither their names nor their ids. -/
theorem Keyed.change (keyed : Keyed t) {chosen : User → Prop} [DecidablePred chosen]
    {change : User → User}
    (keeps : ∀ row, (change row).username = row.username ∧ (change row).id = row.id) :
    Keyed { t with
      rows := t.rows.mapValues fun row => if chosen row then change row else row } := by
  have held_of_mapped : ∀ {name found},
      (t.rows.mapValues fun row => if chosen row then change row else row).get name = some found →
        ∃ row, t.rows.get name = some row ∧ found.username = row.username ∧ found.id = row.id := by
    intro name found held
    rw [SortedMap.get_mapValues] at held
    obtain ⟨row, before, rfl⟩ := Option.map_eq_some_iff.mp held
    refine ⟨row, before, ?_⟩
    split
    · exact keeps row
    · exact ⟨rfl, rfl⟩
  constructor
  · intro name found held
    obtain ⟨row, before, sameName, _⟩ := held_of_mapped held
    rw [sameName]
    exact keyed.named name row before
  · intro first second left right leftHeld rightHeld sameId
    obtain ⟨row, before, _, rowId⟩ := held_of_mapped leftHeld
    obtain ⟨other, otherBefore, _, otherId⟩ := held_of_mapped rightHeld
    rw [rowId, otherId] at sameId
    exact keyed.distinct first second row other before otherBefore sameId
  · intro name found held
    obtain ⟨row, before, _, rowId⟩ := held_of_mapped held
    rw [rowId]
    exact keyed.counted name row before

theorem Keyed.id_eq_iff (keyed : Keyed t) {name other : Str} {row found : User}
    (held : t.rows.get name = some row) (stored : t.rows.get other = some found) :
    found.id = row.id ↔ other = name := by
  constructor
  · exact keyed.distinct other name found row stored held
  · rintro rfl
    rw [held] at stored
    cases stored
    rfl

theorem Keyed.keep (keyed : Keyed t) (kept : User → Bool) :
    Keyed { t with rows := t.rows.filterValues kept } := by
  have held_of_kept :
      ∀ {name found}, (t.rows.filterValues kept).get name = some found →
        t.rows.get name = some found := by
    intro name found held
    rw [SortedMap.get_filterValues, Option.filter_eq_some_iff] at held
    exact held.1
  constructor
  · intro name found held
    exact keyed.named name found (held_of_kept held)
  · intro first second left right leftHeld rightHeld
    exact keyed.distinct first second left right (held_of_kept leftHeld) (held_of_kept rightHeld)
  · intro name found held
    exact keyed.counted name found (held_of_kept held)

theorem Keyed.addUser (keyed : Keyed t)
    (added : t.addUser db credentials call user = .ok next) : Keyed next := by
  obtain ⟨valid, _, _, rfl⟩ := addUser_ok added
  refine keyed.insert rfl ?_
  simp only [newRow]
  omega

theorem Keyed.updateUser
    (keyed : Keyed t) (updated : t.updateUser db credentials user = .ok next) : Keyed next := by
  obtain ⟨valid, _, rfl⟩ := updateUser_ok updated
  exact keyed.change fun row => ⟨rfl, rfl⟩

theorem chargeRow_keeps (row : User) (call : Call) (filesAdd sizeAdd : Int) (reset : Bool) :
    (chargeRow row call filesAdd sizeAdd reset).username = row.username ∧
      (chargeRow row call filesAdd sizeAdd reset).id = row.id := by
  cases reset <;> exact ⟨rfl, rfl⟩

theorem Keyed.updateQuota (keyed : Keyed t) {username : Str} {filesAdd sizeAdd : Int} {reset : Bool}
    (updated : t.updateQuota db call username filesAdd sizeAdd reset = .ok next) :
    Keyed next := by
  obtain ⟨rfl, _⟩ := commit_ok updated
  exact keyed.change fun row => chargeRow_keeps row call filesAdd sizeAdd reset

theorem Keyed.deleteUser
    (keyed : Keyed t) (deleted : t.deleteUser user = .ok next) : Keyed next := by
  simp only [SqlTable.deleteUser, Except.ok.injEq] at deleted
  subst deleted
  exact keyed.keep _

end SqlTable

end Sshserv.DataProvider
