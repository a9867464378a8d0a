import Sshserv.Cmd.Expire
import Sshserv.DataProvider.SqlKeys

/-!
# Requested lifetimes

An entry `_expire:m` asks for a user that lives `m` minutes.  `AddUser` turns
it into the time of expiry, and `check_user_expire_once` reads that time back.
The two agree as long as the time is an `int64`.
-/

namespace Sshserv.Cmd

open Lib Lib.UnixPath DataProvider

variable {σ : Type}

def sqlDirectory (db : Database) (credentials : Credentials) : Directory SqlTable where
  provider := SqlTable.provider db credentials
  records := SqlTable.rows
  listing := fun t => (t.rows.entries.map Prod.snd).map User.noCredentials
  Sound := SqlTable.Keyed
  pages := by
    intro t i
    show t.getUsers db 30 i [] [] = _
    simp [SqlTable.getUsers, SqlTable.parseOrder, SqlTable.window, SqlTable.selected]
  mem_listing := by
    intro t user
    simp only [List.map_map, List.mem_map, Function.comp_apply, Prod.exists,
      SortedMap.mem_entries_iff]
    constructor
    · rintro ⟨name, record, found, rfl⟩
      exact ⟨name, record, found, rfl⟩
    · rintro ⟨name, record, found, rfl⟩
      exact ⟨name, record, found, rfl⟩
  adds := by
    intro t call user next added
    obtain ⟨valid, checked, _, rfl⟩ := SqlTable.addUser_ok added
    obtain ⟨_, pwd, _, rfl⟩ := validateUser_ok checked
    exact ⟨_, (SortedMap.get_put _ _ _ _).trans (if_pos rfl), rfl⟩
  distinct := fun _ keyed => keyed.distinct
  refuses := by
    intro t _ user err refused
    cases refused
  deletes := by
    intro t keyed user next deleted
    refine ⟨keyed.deleteUser deleted, fun name => ?_⟩
    cases deleted
    exact SortedMap.get_filterValues _ _ _

/-- The entries that `AddUser` rewrites. -/
def CarriesExpiry (p : Str) : Prop :=
  9 ≤ p.length ∧ p.take 8 = expirePrefix

variable {p text : Str} {m t : Int} {n : Nat}

theorem rewriteExpire_skips (plain : ¬ CarriesExpiry p) (now minutes : Int) (rest : List Str) :
    rewriteExpire now minutes (p :: rest) =
      (p :: (rewriteExpire now minutes rest).1, (rewriteExpire now minutes rest).2) := by
  have skipped : p.length < 9 ∨ p.take 8 ≠ expirePrefix := by
    by_cases short : p.length < 9
    · exact Or.inl short
    · exact Or.inr fun same => plain ⟨not_lt.mp short, same⟩
  simp only [rewriteExpire, if_pos skipped]

variable {permissions before after : List Str}

theorem rewriteExpire_plain (plain : ∀ p ∈ permissions, ¬ CarriesExpiry p) (now minutes : Int) :
    rewriteExpire now minutes permissions = (permissions, false) := by
  induction permissions with
  | nil => rfl
  | cons p rest ih =>
    have restPlain : ∀ q ∈ rest, ¬ CarriesExpiry q := fun q member =>
      plain q (List.mem_cons_of_mem p member)
    rw [rewriteExpire_skips (plain p List.mem_cons_self), ih restPlain]

theorem rewriteExpire_single (plain : ∀ p ∈ before ++ after, ¬ CarriesExpiry p) (filled : text ≠ [])
    (read : scanInt text = some m) (now minutes : Int) :
    rewriteExpire now minutes (before ++ (expirePrefix ++ text) :: after) =
      (before ++ (expirePrefix ++ intText (wrap64 (now + m * 60))) :: after, true) := by
  induction before with
  | nil =>
    rw [List.nil_append] at plain
    have long : ¬ ((expirePrefix ++ text).length < 9 ∨
        (expirePrefix ++ text).take 8 ≠ expirePrefix) := by
      have positive := List.length_pos_iff.mpr filled
      have eight : expirePrefix.length = 8 := rfl
      rw [List.take_left' eight]
      simp only [List.length_append, eight, ne_eq, not_true_eq_false, or_false, not_lt]
      omega
    have value : (expirePrefix ++ text).drop 8 = text := rfl
    simp only [List.nil_append, rewriteExpire, if_neg long, value, read, Option.getD_some]
    rw [rewriteExpire_plain plain]
  | cons p rest ih =>
    have restPlain : ∀ q ∈ rest ++ after, ¬ CarriesExpiry q := fun q member =>
      plain q (List.mem_cons_of_mem p member)
    rw [List.cons_append, rewriteExpire_skips (plain p List.mem_cons_self), ih restPlain]
    rfl

theorem expirePermissions_single (plain : ∀ p ∈ before ++ after, ¬ CarriesExpiry p)
    (filled : text ≠ []) (read : scanInt text = some m) (config : Config) (now : Int) :
    expirePermissions config now (before ++ (expirePrefix ++ text) :: after) =
      before ++ (expirePrefix ++ intText (wrap64 (now + m * 60))) :: after := by
  simp [expirePermissions, rewriteExpire_single plain filled read]

theorem length_le_utf8Length (p : Str) : p.length ≤ utf8Length p := by
  induction p with
  | nil => simp [utf8Length]
  | cons c rest ih =>
    have wide := c.utf8Size_pos
    simp only [utf8Length, List.map_cons, List.sum_cons, List.length_cons] at ih ⊢
    omega

/-- The pass looks at no entry that `AddUser` leaves alone. -/
theorem isExamined_of_plain (plain : ¬ CarriesExpiry p) : isExamined p = false := by
  by_contra examined
  simp only [isExamined, Bool.not_eq_false, decide_eq_true_eq, not_or,
    not_lt, ne_eq, not_not] at examined
  obtain ⟨wide, start⟩ := examined
  refine plain ⟨?_, start⟩
  by_contra short
  have whole : p.take 8 = p := List.take_of_length_le (by omega)
  rw [whole] at start
  rw [start] at wide
  exact absurd wide (by decide)

theorem readings_plain (plain : ∀ p ∈ permissions, ¬ CarriesExpiry p) :
    readings permissions = [] := by
  have skipped : permissions.filter isExamined = [] :=
    List.filter_eq_nil_iff.mpr fun p member => by
      simp [isExamined_of_plain (plain p member)]
  rw [readings, skipped, List.map_nil]

theorem two_le_length_intText (large : 9 < n) : 2 ≤ (intText (n : Int)).length := by
  have value := digitsValue_intText n
  have digits : ∀ c ∈ intText (n : Int), isDigit c = true :=
    fun c member => isDigit_of_mem_intText member
  match shape : intText (n : Int) with
  | [] => exact absurd shape (intText_ne_nil n)
  | [c] =>
    rw [shape] at value digits
    have digit := digits c List.mem_cons_self
    simp only [isDigit, decide_eq_true_eq, Char.le_def, UInt32.le_iff_toNat_le] at digit
    simp only [digitsValue, List.foldl_cons, List.foldl_nil] at value
    have nine : '9'.val.toNat = 57 := rfl
    have zero : '0'.toNat = 48 := rfl
    have code : c.val.toNat = c.toNat := rfl
    omega
  | _ :: _ :: _ => simp

theorem readings_single
    (plain : ∀ p ∈ before ++ after, ¬ CarriesExpiry p) (large : 9 < n) (small : n < 2 ^ 63) :
    readings (before ++ (expirePrefix ++ intText (n : Int)) :: after) = [some (n : Int)] := by
  have examined : isExamined (expirePrefix ++ intText (n : Int)) = true := by
    have digits := two_le_length_intText large
    have wide := length_le_utf8Length (expirePrefix ++ intText (n : Int))
    have eight : expirePrefix.length = 8 := rfl
    rw [List.length_append, eight] at wide
    simp only [isExamined, decide_eq_true_eq, not_or, not_lt, ne_eq, not_not]
    exact ⟨by omega, List.take_left' eight⟩
  have value : (expirePrefix ++ intText (n : Int)).drop 8 = intText (n : Int) := rfl
  have split :
      readings (before ++ (expirePrefix ++ intText (n : Int)) :: after) =
        readings before ++ readings ((expirePrefix ++ intText (n : Int)) :: after) := by
    simp [readings]
  rw [split, readings_cons_examined examined, value, scanInt_intText small,
    readings_plain fun p member => plain p (List.mem_append_left _ member),
    readings_plain fun p member => plain p (List.mem_append_right _ member),
    List.nil_append]

theorem due_of_readings (single : readings permissions = [some t]) (now exTm : Int) :
    Due now exTm permissions ↔ t < now := by
  simp [Due, ReadsPast, StartsUnreadable, single]

/-- The user is stored with `t` as its time of expiry.  While its permissions
stay, no pass up to that time deletes it, and every later one does. -/
def LifetimeHonoured (dir : Directory σ) (config : Config) (s : σ) (name : Str) (t : Int) : Prop :=
  ∃ record, (dir.records s).get name = some record ∧
    readings record.permissions = [some t] ∧
    ∀ later stored, dir.Sound later →
      (dir.records later).get name = some stored →
      stored.permissions = record.permissions →
      ∀ clock fuel, (dir.listing later).length < fuel →
        ∃ after,
          checkUserExpireOnce config dir.provider clock fuel later = some after ∧
          ((∀ i, clock i ≤ t) → (dir.records after).get name = some stored) ∧
          ((∀ i, t < clock i) → (dir.records after).get name = none)

theorem lifetimeHonoured_of_readings
    {dir : Directory σ} {config : Config} (manages : config.manageUsers ≠ 0) {s : σ} {name : Str}
    {record : User} (found : (dir.records s).get name = some record)
    (single : readings record.permissions = [some t]) :
    LifetimeHonoured dir config s name t := by
  refine ⟨record, found, single, ?_⟩
  intro later stored sound present same clock fuel enough
  obtain ⟨after, ended, deleted, kept⟩ :=
    dir.checkUserExpireOnce_deletes manages sound clock present enough
  rw [same] at deleted
  simp only [due_of_readings single] at deleted
  refine ⟨after, ended, ?_, ?_⟩
  · intro early
    refine kept fun gone => ?_
    obtain ⟨k, _, _, _, past⟩ := deleted.mp gone
    exact absurd past (not_lt.mpr (early _))
  · intro late
    obtain ⟨k, before, rest, page⟩ :=
      exists_page ((dir.mem_listing later _).mpr ⟨name, stored, present, rfl⟩)
    exact deleted.mpr ⟨k, before, rest, page, late _⟩

theorem lifetime_honoured_iff (dir : Directory σ) {config : Config} {s next : σ} {call : Call}
    {user : User} {before after : List Str} {text : Str} {m : Nat}
    (split : user.permissions = before ++ (expirePrefix ++ text) :: after)
    (plain : ∀ p ∈ before ++ after, ¬ CarriesExpiry p)
    (filled : text ≠ []) (digits : text.all isDigit)
    (value : digitsValue text = m) (positive : 0 < m) (bound : m < 2 ^ 63) (started : 0 < call.now)
    (added : addUser config dir.provider s call user = .ok next) :
    LifetimeHonoured dir config next user.username (call.now + 60 * m) ↔
      call.now + 60 * m < 2 ^ 63 := by
  obtain ⟨now, sameNow⟩ := Int.eq_ofNat_of_zero_le started.le
  constructor
  · rintro ⟨record, _, single, _⟩
    have read : some (call.now + 60 * m) ∈ readings record.permissions := by
      rw [single]
      exact List.mem_cons_self
    exact (isInt64_of_mem_readings read).2
  · intro small
    have scanned : scanInt text = some (m : Int) := by
      rw [← value] at bound ⊢
      exact scanInt_digits filled digits bound
    have manages : config.manageUsers ≠ 0 := by
      intro disabled
      rw [addUser, if_pos disabled] at added
      cases added
    rw [addUser, if_neg manages, split, expirePermissions_single plain filled scanned] at added
    obtain ⟨record, found, same⟩ := dir.adds _ _ _ _ added
    have time : wrap64 (call.now + m * 60) = ((now + 60 * m : Nat) : Int) := by
      simp only [wrap64, sameNow] at small ⊢
      omega
    have sum : call.now + 60 * (m : Int) = ((now + 60 * m : Nat) : Int) := by
      omega
    rw [sum]
    refine lifetimeHonoured_of_readings manages found ?_
    rw [same, time]
    exact readings_single plain (by omega) (by omega)

def guest (lifetime : Str) : User :=
  member 0 "guest".toList [permAny, expirePrefix ++ lifetime]

def firstSecond : Call := { plainCall with now := 1 }

/-- A guest for five minutes, in either kind of store. -/
theorem guest_for_five_minutes :
    (∃ next,
      addUser plainConfig (BoltProvider.provider plainCredentials)
          BoltProvider.empty firstSecond (guest "5".toList) = .ok next ∧
        LifetimeHonoured (boltDirectory plainCredentials) plainConfig next "guest".toList 301) ∧
      ∃ next, addUser plainConfig
            (SqlTable.provider ⟨.sqlite, id, [], []⟩ plainCredentials)
            SqlTable.empty firstSecond (guest "5".toList) = .ok next ∧
          LifetimeHonoured (sqlDirectory ⟨.sqlite, id, [], []⟩ plainCredentials)
            plainConfig next "guest".toList 301 := by
  have plain : ∀ p ∈ [permAny] ++ [], ¬ CarriesExpiry p := by
    simp [CarriesExpiry, permAny]
  refine ⟨⟨_, rfl, ?_⟩, _, rfl, ?_⟩
  · exact (@lifetime_honoured_iff _ (boltDirectory plainCredentials)
      plainConfig BoltProvider.empty _ firstSecond (guest "5".toList)
      [permAny] [] "5".toList 5 rfl plain (by decide) (by decide) rfl
      (by decide) (by decide) (by decide) rfl).mpr (by decide)
  · exact (@lifetime_honoured_iff _
      (sqlDirectory ⟨.sqlite, id, [], []⟩ plainCredentials)
      plainConfig SqlTable.empty _ firstSecond (guest "5".toList)
      [permAny] [] "5".toList 5 rfl plain (by decide) (by decide) rfl
      (by decide) (by decide) (by decide) rfl).mpr (by decide)

/-- The longest lifetime wraps around: the first pass deletes the user. -/
theorem longest_lifetime_wraps :
    ∃ next after, addUser plainConfig (BoltProvider.provider plainCredentials)
          BoltProvider.empty firstSecond
          (guest "9223372036854775807".toList) = .ok next ∧
        (next.users.get "guest".toList).map User.permissions =
          some [permAny, "_expire:-59".toList] ∧
        checkUserExpireOnce plainConfig
            (BoltProvider.provider plainCredentials) (fun _ => 1) 2 next =
          some after ∧
        after.users.get "guest".toList = none := by
  refine ⟨_, _, rfl, ?_, rfl, ?_⟩
  · decide +kernel
  · decide +kernel

end Sshserv.Cmd
