import Sshserv.DataProvider.BoltIndex
import Sshserv.DataProvider.Interchange
import Sshserv.DataProvider.SqlKeys

/-!
# The Bolt provider in place of an SQL one

A relation between Bolt and SQL stores that the calls keep.
`bolt_sql_interchangeable` says for which calls the two kinds of provider can
stand in for each other.
-/

namespace Sshserv.DataProvider

open Lib UnixPath Runs

/-- The same users in both stores, which are each consistent, in rows that fit
the columns. -/
structure Matches (db : Database) (b : BoltProvider) (t : SqlTable) : Prop where
  indexed : b.Indexed
  keyed : t.Keyed
  fits : ∀ name row, t.rows.get name = some row → RowFits db.driver row
  records :
    ∀ name, (b.users.get name).map (User.renamed fun _ => 0) =
        (t.rows.get name).map (User.renamed fun _ => 0)

def BothMatch (db : Database) :
    Except ProviderError BoltProvider → Except ProviderError SqlTable → Prop
  | .ok b, .ok t => Matches db b t
  | .error _, .error _ => True
  | _, _ => False

variable {db : Database} {b : BoltProvider} {t : SqlTable}

theorem matches_empty (db : Database) : Matches db BoltProvider.empty SqlTable.empty where
  indexed := BoltProvider.indexed_empty
  keyed := SqlTable.keyed_empty
  fits := by simp [SqlTable.empty]
  records := by simp [BoltProvider.empty, SqlTable.empty]

theorem Matches.isSome_eq (same : Matches db b t) (name : Str) :
    (b.users.get name).isSome = (t.rows.get name).isSome := by
  have records := congrArg Option.isSome (same.records name)
  simpa using records

theorem InBits.wrap64_eq {bits : Nat} {n : Int} (inside : InBits bits n) (small : bits ≤ 64) :
    wrap64 n = n := by
  have least : (2 : Int) ^ (bits - 1) ≤ 2 ^ 63 := pow_le_pow_right₀ (by decide) (by omega)
  obtain ⟨low, high⟩ := inside
  exact wrap64_of_bounds (by omega) (by omega)

theorem integerBits_le (driver : Pool.Driver) : integerBits driver ≤ 64 := by
  cases driver <;> decide

variable {name : Str} {record row user : User}

theorem Matches.row_of_record (same : Matches db b t) (found : b.users.get name = some record) :
    ∃ row, t.rows.get name = some row ∧ record.renamed (fun _ => 0) = row.renamed (fun _ => 0) := by
  have records := same.records name
  rw [found, Option.map_some] at records
  obtain ⟨row, held, equal⟩ := Option.map_eq_some_iff.mp records.symm
  exact ⟨row, held, equal.symm⟩

theorem Matches.renamed_eq (same : Matches db b t) (found : b.users.get name = some record)
    (held : t.rows.get name = some row) :
    record.renamed (fun _ => 0) = row.renamed fun _ => 0 := by
  obtain ⟨other, otherHeld, equal⟩ := same.row_of_record found
  rw [held] at otherHeld
  cases otherHeld
  exact equal

/-- A record and a row of one name are written to the two stores. -/
theorem Matches.put (same : Matches db b t) {next : BoltProvider} {after : SqlTable}
    (indexed : next.Indexed) (users : next.users = b.users.put name record)
    (keyed : after.Keyed)
    (rows : ∀ other, after.rows.get other = if other = name then some row else t.rows.get other)
    (equal : record.renamed (fun _ => 0) = row.renamed (fun _ => 0))
    (fits : RowFits db.driver row) : BothMatch db (.ok next) (after.commit db) := by
  have allFit : ∀ other found, after.rows.get other = some found → RowFits db.driver found := by
    intro other found held
    rw [rows] at held
    split at held
    · cases held
      exact fits
    · exact same.fits other found held
  rw [SqlTable.commit_of_fits allFit]
  refine ⟨indexed, keyed, allFit, ?_⟩
  intro other
  rw [users, rows, SortedMap.get_put]
  split
  · rw [Option.map_some, Option.map_some, equal]
  · exact same.records other

theorem bothMatch_addUser (same : Matches db b t) (credentials : Credentials)
    (call : Call) (plain :
      (b.users.get user.username).isSome ∨
        user.usedQuota = (0, 0) ∧ utf8Length user.username ≤ maxKeySize ∧
          ∀ valid, validateUser credentials user = .ok valid →
            RowFits db.driver (t.newRow call valid)) :
    BothMatch db (b.addUser credentials user) (t.addUser db credentials call user) := by
  cases checked : validateUser credentials user with
  | error err => simp [BoltProvider.addUser, SqlTable.addUser, checked, BothMatch]
  | ok valid =>
    have sameName := username_of_validateUser checked
    have present := same.isSome_eq valid.username
    cases known : (t.rows.get valid.username).isSome with
    | true =>
      rw [known] at present
      simp [BoltProvider.addUser, SqlTable.addUser, checked, BothMatch, known, present]
    | false =>
      rw [known] at present
      rw [← sameName, present] at plain
      obtain ⟨zero, short, fits⟩ := plain.resolve_left (by simp)
      have added :
          b.addUser credentials user =
            .ok
              { users :=
                  b.users.put valid.username { valid with id := (b.sequence + 1 : Nat) }
                usersIDIdx := b.usersIDIdx.put (b.sequence + 1 : Nat) valid.username
                sequence := b.sequence + 1 } := by
        simp [BoltProvider.addUser, checked, present, not_lt.mpr short]
      have inserted :
          t.addUser db credentials call user =
            SqlTable.commit
              { rows := t.rows.put valid.username (t.newRow call valid)
                lastId := (t.newRow call valid).id } db := by
        simp only [SqlTable.addUser, checked, known, Bool.false_eq_true, if_false]
        rfl
      have used := usedQuota_of_validateUser checked
      rw [zero] at used
      obtain ⟨files, size⟩ := Prod.mk.inj used
      have indexed := same.indexed.addUser added
      rw [added, inserted]
      refine same.put indexed rfl (same.keyed.insert rfl ?_)
        (fun other => by simp [SortedMap.get_put]) ?_ (fits valid checked)
      · simp only [SqlTable.newRow]
        omega
      · simp [User.renamed, SqlTable.newRow, files, size]

/-- The one row that an SQL statement chooses changes as the record of its
name does. -/
theorem Matches.change (same : Matches db b t) (held : t.rows.get name = some row)
    {chosen : User → Prop} [DecidablePred chosen] {change : User → User}
    (indexed : BoltProvider.Indexed { b with users := b.users.put name record })
    (one : ∀ other found, t.rows.get other = some found → (chosen found ↔ other = name))
    (keeps : ∀ row, (change row).username = row.username ∧ (change row).id = row.id)
    (equal : record.renamed (fun _ => 0) = (change row).renamed fun _ => 0)
    (fits : RowFits db.driver (change row)) :
    BothMatch db (.ok { b with users := b.users.put name record })
      (SqlTable.commit
        { t with rows := t.rows.mapValues fun row => if chosen row then change row else row }
        db) := by
  refine same.put indexed rfl (same.keyed.change keeps) ?_ equal fits
  intro other
  rw [SortedMap.get_mapValues]
  split
  · next isName =>
    rw [isName, held, Option.map_some, if_pos ((one name row held).mpr rfl)]
  · next notName =>
    cases stored : t.rows.get other with
    | none => rfl
    | some found => rw [Option.map_some, if_neg (mt (one other found stored).mp notName)]

theorem validateUser_withId (credentials : Credentials) (user : User) (id : Int) :
    validateUser credentials { user with id := id } =
      (validateUser credentials user).map fun valid =>
        { valid with id := id } := by
  simp only [validateUser]
  split
  · rfl
  split
  · rfl
  split
  · rfl
  split
  · rfl
  split
  · rfl
  split
  · rfl
  split
  · rfl
  · rfl

theorem bothMatch_updateUser (same : Matches db b t) (credentials : Credentials) {id : Int} (plain :
      ∀ valid, validateUser credentials user = .ok valid →
        ∃ record row, b.users.get user.username = some record ∧
          t.rows.get user.username = some row ∧ record.id = user.id ∧
          row.id = id ∧ user.usedQuota = record.usedQuota ∧
          RowFits db.driver (SqlTable.updateRow row valid)) :
    BothMatch db (b.updateUser credentials user)
      (t.updateUser db credentials { user with id := id }) := by
  have renumbered := validateUser_withId credentials user id
  cases checked : validateUser credentials user with
  | error err =>
    rw [checked] at renumbered
    simp [BoltProvider.updateUser, SqlTable.updateUser, checked, renumbered, Except.map, BothMatch]
  | ok valid =>
    rw [checked] at renumbered
    obtain ⟨record, row, found, held, ownId, rowId, counters, fits⟩ := plain valid checked
    have sameName := username_of_validateUser checked
    have sameId := id_of_validateUser checked
    have sameQuota := usedQuota_of_validateUser checked
    rw [← sameName] at found held
    have updated :
        b.updateUser credentials user = .ok { b with users := b.users.put valid.username valid } :=
      BoltProvider.updateUser_ok_iff.mpr ⟨valid, checked, by rw [found]; rfl, rfl⟩
    have indexed := same.indexed.overwrite found rfl (sameId.trans ownId.symm)
    rw [updated]
    simp only [SqlTable.updateUser, renumbered, Except.map]
    refine same.change held indexed ?_ (fun row => ⟨rfl, rfl⟩) ?_ fits
    · intro other found stored
      rw [← rowId]
      exact same.keyed.id_eq_iff held stored
    · have rowName := same.keyed.named _ _ held
      have rowQuota :
          (record.renamed fun _ => 0).usedQuota = (row.renamed fun _ => 0).usedQuota := by
        rw [same.renamed_eq found held]
      obtain ⟨files, size⟩ := Prod.mk.inj ((sameQuota.trans counters).trans rowQuota)
      simp only [User.renamed, SqlTable.updateRow, files, size, rowName]

/-- A sum that an SQL column can hold is the sum of the `int64` numbers. -/
theorem renamed_addQuota {record row : User} (call : Call) (filesAdd sizeAdd : Int) (reset : Bool)
    (equal : record.renamed (fun _ => 0) = row.renamed (fun _ => 0))
    (fits : RowFits db.driver (SqlTable.chargeRow row call filesAdd sizeAdd reset)) :
    (record.addQuota call filesAdd sizeAdd reset).renamed (fun _ => 0) =
      (SqlTable.chargeRow row call filesAdd sizeAdd reset).renamed fun _ => 0 := by
  have counters : (record.renamed fun _ => 0).usedQuota = (row.renamed fun _ => 0).usedQuota := by
    rw [equal]
  have files : record.usedQuotaFiles = row.usedQuotaFiles := (Prod.mk.inj counters).1
  have size : record.usedQuotaSize = row.usedQuotaSize := (Prod.mk.inj counters).2
  have set :
      ∀ files size, (record.setQuota call files size).renamed (fun _ => 0) =
        (row.setQuota call files size).renamed fun _ => 0 := fun files size =>
    congrArg (fun user : User => user.setQuota ⟨0, 0, 0⟩ files size) equal
  cases reset with
  | true => exact set filesAdd sizeAdd
  | false =>
    have inFiles := fits.integers (row.usedQuotaFiles + filesAdd)
      (by simp [SqlTable.chargeRow, User.setQuota])
    have inSize := fits.bigints (row.usedQuotaSize + sizeAdd)
      (by simp [SqlTable.chargeRow, User.setQuota])
    simp only [User.addQuota, SqlTable.chargeRow, Bool.false_eq_true, if_false, files, size,
      inFiles.wrap64_eq (integerBits_le db.driver), inSize.wrap64_eq le_rfl]
    exact set _ _

theorem bothMatch_updateQuota (same : Matches db b t) (call : Call) {username : Str}
    (filesAdd sizeAdd : Int) (reset : Bool) (held : t.rows.get username = some row)
    (fits : RowFits db.driver (SqlTable.chargeRow row call filesAdd sizeAdd reset)) :
    BothMatch db (b.updateQuota call username filesAdd sizeAdd reset)
      (t.updateQuota db call username filesAdd sizeAdd reset) := by
  have present := same.isSome_eq username
  rw [held] at present
  obtain ⟨record, found⟩ := Option.isSome_iff_exists.mp present
  have updated :
      b.updateQuota call username filesAdd sizeAdd reset =
        .ok { b with
          users := b.users.put username (record.addQuota call filesAdd sizeAdd reset) } := by
    simp only [BoltProvider.updateQuota, found]
  have indexed := same.indexed.updateQuota updated
  rw [updated]
  refine same.change held indexed ?_
    (fun row => SqlTable.chargeRow_keeps row call filesAdd sizeAdd reset)
    (renamed_addQuota call filesAdd sizeAdd reset (same.renamed_eq found held) fits) fits
  intro other row stored
  rw [same.keyed.named other row stored]

theorem bothMatch_deleteUser (same : Matches db b t) {id : Int}
    (indexHeld : b.usersIDIdx.get user.id = some name)
    (held : t.rows.get name = some row) (rowId : row.id = id) :
    BothMatch db (b.deleteUser user) (t.deleteUser { user with id := id }) := by
  have deleted :
      b.deleteUser user =
        .ok { b with
          users := b.users.delete name
          usersIDIdx := b.usersIDIdx.delete user.id } := by
    simp only [BoltProvider.deleteUser, indexHeld]
  have indexed := same.indexed.deleteUser deleted
  rw [deleted]
  simp only [SqlTable.deleteUser, BothMatch]
  have kept_iff :
      ∀ {other found}, t.rows.get other = some found → (found.id ≠ id ↔ other ≠ name) := by
    intro other found stored
    rw [← rowId]
    exact not_congr (same.keyed.id_eq_iff held stored)
  refine ⟨indexed, same.keyed.keep _, ?_, ?_⟩
  · intro other found otherHeld
    rw [SortedMap.get_filterValues, Option.filter_eq_some_iff] at otherHeld
    exact same.fits other found otherHeld.1
  intro other
  rw [SortedMap.get_delete, SortedMap.get_filterValues]
  cases stored : t.rows.get other with
  | none =>
    have absent := same.records other
    rw [stored] at absent
    split
    · rfl
    · exact absent
  | some found =>
    have kept := kept_iff stored
    by_cases isName : other = name
    · simp [isName, not_not.mp (mt kept.mp (not_not.mpr isName))]
    · simp only [isName, if_false, Option.filter_some, decide_eq_true (kept.mpr isName), if_true]
      rw [same.records other, stored]

def answer (users : SortedMap Str User) (query : Query) : List User :=
  (((SqlTable.selected users query.username
    (query.order = "ASC".toList)).drop query.offset.toNat).take
      query.limit.toNat).map User.noCredentials

theorem bolt_getUsers_plain (b : BoltProvider) {query : Query} (plain : query.Plain) :
    b.getUsers query.limit query.offset query.order query.username =
      .ok (answer b.users query) := by
  obtain ⟨limit, offset, order, username⟩ := query
  obtain ⟨fromStart, _, enough⟩ := plain
  simp only at fromStart enough
  simp only [BoltProvider.getUsers, answer, SqlTable.selected]
  by_cases filtered : username = []
  · simp only [filtered, if_true] at enough
    simp only [filtered, ne_eq, not_true_eq_false, if_false]
    by_cases nothing : limit ≤ 0
    · have zero : limit.toNat = 0 := by omega
      simp [nothing, zero]
    · have room : (([] : List User).length : Int) < limit := by
        simpa using nothing
      simp only [nothing, if_false, BoltProvider.cursorLoop_eq room, List.nil_append,
        Int.sub_zero, List.length_nil, Int.natCast_zero, decide_eq_true_eq]
      split <;> rfl
  · simp only [filtered, if_false] at enough
    have first : limit.toNat = (limit.toNat - 1) + 1 := by omega
    simp only [filtered, ne_eq, not_false_eq_true, if_true, BoltProvider.userExists]
    cases b.users.get username with
    | none => simp
    | some user =>
      by_cases atStart : offset = 0
      · rw [first]
        simp [atStart]
      · have skips : offset.toNat = (offset.toNat - 1) + 1 := by omega
        rw [skips]
        simp [atStart]

theorem sql_getUsers_plain (t : SqlTable) (db : Database) {query : Query} (plain : query.Plain) :
    t.getUsers db query.limit query.offset query.order query.username =
      .ok (answer t.rows query) := by
  obtain ⟨limit, offset, order, username⟩ := query
  obtain ⟨fromStart, direction, enough⟩ := plain
  simp only at fromStart direction enough
  have notNegative : 0 ≤ limit := by
    split at enough <;> omega
  have parsed : SqlTable.parseOrder order = some (order = "ASC".toList : Bool) := by
    rcases direction with rfl | rfl
    · decide
    · decide
  simp only [SqlTable.getUsers, parsed, SqlTable.window, notNegative,
    fromStart, and_self, if_true, answer]

/-- The id of a Bolt user in the SQL store. -/
def sqlId (b : BoltProvider) (t : SqlTable) (id : Int) : Int :=
  match b.usersIDIdx.get id with
  | some name => ((t.rows.get name).map User.id).getD 0
  | none => 0

theorem sqlId_of_record (same : Matches db b t) (found : b.users.get name = some record)
    (held : t.rows.get name = some row) :
    sqlId b t record.id = row.id := by
  have indexHeld := (same.indexed.inverse record.id name).mpr ⟨record, found, rfl⟩
  simp [sqlId, indexHeld, held]

theorem records_renamed (same : Matches db b t) (name : Str) :
    (b.users.get name).map (User.renamed (sqlId b t)) =
      (t.rows.get name).map (User.renamed id) := by
  cases found : b.users.get name with
  | none =>
    have absent := same.records name
    rw [found, Option.map_none, eq_comm, Option.map_eq_none_iff] at absent
    rw [absent]
    rfl
  | some record =>
    obtain ⟨row, held, equal⟩ := same.row_of_record found
    rw [held, Option.map_some, Option.map_some]
    have sameId := sqlId_of_record same found held
    have left :
        record.renamed (sqlId b t) =
          { record.renamed (fun _ => 0) with
            id := sqlId b t record.id } :=
      rfl
    rw [left, sameId, equal]
    rfl

private theorem answer_map (users : SortedMap Str User) (query : Query) (rename : Int → Int) :
    (answer users query).map (User.renamed rename) =
      ((((SqlTable.selected users query.username
        (query.order = "ASC".toList)).map (User.renamed rename)).drop
          query.offset.toNat).take query.limit.toNat).map User.noCredentials := by
  simp only [answer, List.map_map, List.map_take, List.map_drop]
  rfl

theorem answer_renamed (same : Matches db b t) (query : Query) :
    (answer b.users query).map (User.renamed (sqlId b t)) =
      (answer t.rows query).map (User.renamed id) := by
  have maps :
      b.users.mapValues (User.renamed (sqlId b t)) = t.rows.mapValues (User.renamed id) := by
    apply SortedMap.ext_get
    intro name
    rw [SortedMap.get_mapValues, SortedMap.get_mapValues]
    exact records_renamed same name
  have values :
      (b.users.entries.map Prod.snd).map (User.renamed (sqlId b t)) =
        (t.rows.entries.map Prod.snd).map (User.renamed id) := by
    rw [← SortedMap.values_mapValues, maps, SortedMap.values_mapValues]
  have one :
      (b.users.get query.username).toList.map (User.renamed (sqlId b t)) =
        (t.rows.get query.username).toList.map (User.renamed id) := by
    rw [← Option.toList_map, records_renamed same, Option.toList_map]
  rw [answer_map, answer_map]
  congr 3
  simp only [SqlTable.selected, apply_ite (List.map (User.renamed _)),
    List.map_reverse, values, one]

theorem toOption_boltUserExists (b : BoltProvider) (name : Str) :
    (b.userExists name).toOption = b.users.get name := by
  simp only [BoltProvider.userExists]
  cases b.users.get name <;> rfl

theorem toOption_sqlUserExists (t : SqlTable) (name : Str) :
    (t.userExists name).toOption = t.rows.get name := by
  simp only [SqlTable.userExists]
  cases t.rows.get name <;> rfl

theorem Matches.usedQuota (same : Matches db b t) (name : Str) :
    (b.getUsedQuota name).toOption = (t.getUsedQuota name).toOption := by
  have records := congrArg (Option.map User.usedQuota) (same.records name)
  simp only [BoltProvider.getUsedQuota, BoltProvider.userExists, SqlTable.getUsedQuota]
  cases found : b.users.get name with
  | none =>
    cases held : t.rows.get name with
    | none => rfl
    | some row =>
      rw [found, held] at records
      cases records
  | some record =>
    cases held : t.rows.get name with
    | none =>
      rw [found, held] at records
      cases records
    | some row =>
      rw [found, held] at records
      exact records

theorem Matches.agree (same : Matches db b t) (config : Config) (credentials : Credentials) :
    Agree config (BoltProvider.provider credentials) (SqlTable.provider db credentials) b t := by
  refine ⟨sqlId b t, ?_, ?_, ?_, ?_⟩
  · intro name other user found userHeld foundHeld sameId
    have first : b.users.get name = some user := by
      rw [← toOption_boltUserExists]
      exact congrArg Except.toOption userHeld
    have second : b.users.get other = some found := by
      rw [← toOption_boltUserExists]
      exact congrArg Except.toOption foundHeld
    obtain ⟨row, rowHeld, _⟩ := same.row_of_record first
    obtain ⟨otherRow, otherHeld, _⟩ := same.row_of_record second
    rw [sqlId_of_record same first rowHeld, sqlId_of_record same second otherHeld] at sameId
    have sameName := same.keyed.distinct _ _ _ _ rowHeld otherHeld sameId
    rw [sameName, second] at first
    cases first
    rfl
  · intro name
    simp only [BoltProvider.provider, SqlTable.provider,
      toOption_boltUserExists, toOption_sqlUserExists]
    exact records_renamed same name
  · intro name
    simp only [getUsedQuota]
    split
    · rfl
    · exact same.usedQuota name
  · intro query plain
    simp only [BoltProvider.provider, SqlTable.provider,
      bolt_getUsers_plain b plain, sql_getUsers_plain t db plain]
    exact congrArg some (answer_renamed same query)

/-- A call that means the same to both kinds of provider.  An added user has
no used quota and a name that fits into a key; a user that is updated or
deleted is in both stores, under the ids given, and keeps the used quota; the
quota is updated for a user that exists.  The row that is written fits the
columns. -/
def CallOk (config : Config) (db : Database) (credentials : Credentials)
    (s : BoltProvider × SqlTable) : ProviderCall × Int → Prop
  | (.addUser call user, _) =>
    (s.1.users.get user.username).isSome ∨
      user.usedQuota = (0, 0) ∧ utf8Length user.username ≤ maxKeySize ∧
        ∀ valid, validateUser credentials
              { user with permissions := expirePermissions config call.now user.permissions } =
            .ok valid →
          RowFits db.driver (s.2.newRow call valid)
  | (.updateUser user, id) =>
    config.manageUsers ≠ 0 → ∀ valid, validateUser credentials user = .ok valid →
      ∃ record row, s.1.users.get user.username = some record ∧
        s.2.rows.get user.username = some row ∧ record.id = user.id ∧
        row.id = id ∧ user.usedQuota = record.usedQuota ∧
        RowFits db.driver (SqlTable.updateRow row valid)
  | (.deleteUser user, id) =>
    config.manageUsers ≠ 0 →
      ∃ name row, s.1.usersIDIdx.get user.id = some name ∧
        s.2.rows.get name = some row ∧ row.id = id
  | (.updateUserQuota call user filesAdd sizeAdd reset, _) =>
    config.trackQuota = 0 ∨
      (config.trackQuota = 2 ∧ ¬ reset ∧ ¬ user.hasQuotaRestrictions) ∨
      ∃ row, s.2.rows.get user.username = some row ∧
        RowFits db.driver (SqlTable.chargeRow row call filesAdd sizeAdd reset)

theorem bothMatch_exec {config : Config} {credentials : Credentials}
    {s : BoltProvider × SqlTable} (same : Matches db s.1 s.2)
    {event : ProviderCall × Int} (plain : CallOk config db credentials s event) :
    BothMatch db (event.1.exec config (BoltProvider.provider credentials) s.1)
      ((event.1.withId event.2).exec config (SqlTable.provider db credentials) s.2) := by
  obtain ⟨call, id⟩ := event
  cases call with
  | addUser call user =>
    simp only [ProviderCall.exec, ProviderCall.withId, DataProvider.addUser]
    split
    · trivial
    · exact bothMatch_addUser same credentials call plain
  | updateUser user =>
    simp only [ProviderCall.exec, ProviderCall.withId, DataProvider.updateUser]
    split
    · trivial
    · rename_i managed
      exact bothMatch_updateUser same credentials (plain managed)
  | deleteUser user =>
    simp only [ProviderCall.exec, ProviderCall.withId, DataProvider.deleteUser]
    split
    · trivial
    · rename_i managed
      obtain ⟨name, row, indexHeld, held, rowId⟩ := plain managed
      exact bothMatch_deleteUser same indexHeld held rowId
  | updateUserQuota call user filesAdd sizeAdd reset =>
    simp only [ProviderCall.exec, ProviderCall.withId, DataProvider.updateUserQuota]
    split
    · trivial
    · rename_i tracked
      split
      · exact same
      · rename_i counts
        obtain ⟨row, held, fits⟩ := (plain.resolve_left tracked).resolve_left counts
        exact bothMatch_updateQuota same call filesAdd sizeAdd reset held fits

theorem BothMatch.isOk_eq {first : Except ProviderError BoltProvider}
    {second : Except ProviderError SqlTable} (both : BothMatch db first second) :
    first.isOk = second.isOk := by
  cases first with
  | error err =>
    cases second with
    | error other => rfl
    | ok next => cases both
  | ok next =>
    cases second with
    | error other => cases both
    | ok other => rfl

theorem BothMatch.settle {first : Except ProviderError BoltProvider}
    {second : Except ProviderError SqlTable} (both : BothMatch db first second)
    (same : Matches db b t) :
    Matches db (DataProvider.settle b first) (DataProvider.settle t second) := by
  cases first with
  | error err =>
    cases second with
    | error other => exact same
    | ok next => cases both
  | ok next =>
    cases second with
    | error other => cases both
    | ok other => exact both

def sampleDatabase : Database :=
  ⟨.pgsql, fun _ => "duplicate key".toList, "invalid query".toList, "out of range".toList⟩

def sampleUser : User :=
  { User.zero with
    username := "a".toList
    password := argonPwdPrefix
    homeDir := "/srv".toList
    permissions := [permAny] }

/-- A user is added, with the id 1 in the one store and 5 in the other,
uploads a file, is updated and deleted. -/
def sampleCalls : List (ProviderCall × Int) :=
  [(.addUser ⟨0, 0, 4⟩ sampleUser, 0),
    (.updateUserQuota ⟨0, 7, 0⟩ sampleUser 1 10 false, 0),
    (.updateUser
      { sampleUser with
        id := 1
        maxSessions := 2
        usedQuotaFiles := 1
        usedQuotaSize := 10 }, 5),
    (.deleteUser { sampleUser with id := 1 }, 5)]

end Sshserv.DataProvider
