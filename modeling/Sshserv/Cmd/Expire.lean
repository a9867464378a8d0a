import Sshserv.DataProvider.BoltIndex
import Sshserv.Lib.Paging

/-!
# Expired users

`check_user_expire_once` of `cmd/serve.go` reads the users in pages of 30 and
deletes those with an expiry entry in the past.  The variable that an entry is
scanned into is declared once per page, and the error of the scan is ignored.
-/

namespace Sshserv.Cmd

open Lib UnixPath Paging
open DataProvider

variable {σ : Type}

/-! ## The pass -/

/-- The entries that the pass looks at: the length is counted in bytes. -/
def isExamined (p : Str) : Bool :=
  ¬ (utf8Length p < 10 ∨ p.take 8 ≠ expirePrefix)

/-- The loop over the permissions of one user, with the value of `ex_tm` and
the users it appends. -/
def permissionLoop (now : Int) (user : User) : Int → List Str → Int × List User
  | exTm, [] => (exTm, [])
  | exTm, p :: rest =>
    if ¬ isExamined p then permissionLoop now user exTm rest
    else
      let exTm := (scanInt (p.drop 8)).getD exTm
      let (last, expired) := permissionLoop now user exTm rest
      (last, if now > exTm then user :: expired else expired)

def userLoop (now : Int) : Int → List User → Int × List User
  | exTm, [] => (exTm, [])
  | exTm, user :: rest =>
    let (exTm, expired) := permissionLoop now user exTm user.permissions
    let (last, others) := userLoop now exTm rest
    (last, expired ++ others)

/-- The loop over the pages from offset `i` on: what becomes of
`_to_be_deleted`.  The time is read once per page.  `none` if the pages do not
end within `fuel` calls. -/
def pageLoop (p : Provider σ) (s : σ) (clock : Nat → Int) : Nat → Nat → Option (List User)
  | 0, _ => none
  | fuel + 1, i =>
    match p.getUsers s 30 i [] [] with
    | .error _ => some []
    | .ok [] => some []
    | .ok (user :: rest) =>
      (pageLoop p s clock fuel (i + 30)).map ((userLoop (clock i) 0 (user :: rest)).2 ++ ·)

/-- The loop over `_to_be_deleted`.  Errors are ignored. -/
def deleteUsers (config : Config) (p : Provider σ) : σ → List User → σ
  | s, [] => s
  | s, user :: rest =>
    match deleteUser config p s user with
    | .ok next => deleteUsers config p next rest
    | .error _ => deleteUsers config p s rest

def checkUserExpireOnce (config : Config) (p : Provider σ)
    (clock : Nat → Int) (fuel : Nat) (s : σ) : Option σ :=
  (pageLoop p s clock fuel 0).map (deleteUsers config p s)

/-! ## One user and one page -/

/-- What the examined entries of a list read as. -/
def readings (permissions : List Str) : List (Option Int) :=
  (permissions.filter isExamined).map fun p => scanInt (p.drop 8)

def carried (exTm : Int) (entries : List (Option Int)) : Int :=
  entries.foldl (fun last entry => entry.getD last) exTm

def ReadsPast (now : Int) (permissions : List Str) : Prop :=
  ∃ t, some t ∈ readings permissions ∧ t < now

/-- The first entry that is examined cannot be read. -/
def StartsUnreadable (permissions : List Str) : Prop :=
  (readings permissions).head? = some none

/-- A user whose permissions are checked when `ex_tm` is `exTm` is
appended. -/
def Due (now exTm : Int) (permissions : List Str) : Prop :=
  ReadsPast now permissions ∨ StartsUnreadable permissions ∧ exTm < now

variable {p : Str} {users : List User} {fuel : Nat} {t now : Int}
    {permissions neighbours : List Str} {config : Config}

theorem readings_cons_skipped (skipped : isExamined p = false) (rest : List Str) :
    readings (p :: rest) = readings rest := by
  simp [readings, skipped]

theorem readings_cons_examined (examined : isExamined p) (rest : List Str) :
    readings (p :: rest) = scanInt (p.drop 8) :: readings rest := by
  simp [readings, examined]

theorem permissionLoop_carried (now : Int) (user : User) (exTm : Int) (permissions : List Str) :
    (permissionLoop now user exTm permissions).1 = carried exTm (readings permissions) := by
  induction permissions generalizing exTm with
  | nil => rfl
  | cons p rest ih =>
    by_cases examined : isExamined p = true
    · rw [readings_cons_examined examined]
      simp only [permissionLoop, examined, not_true, if_false]
      exact ih _
    · have skipped : isExamined p = false := by simpa using examined
      rw [readings_cons_skipped skipped]
      simp only [permissionLoop, skipped, Bool.false_eq_true, not_false_eq_true, if_true]
      exact ih _

theorem due_cons_examined (examined : isExamined p) (now exTm : Int) (rest : List Str) :
    Due now exTm (p :: rest) ↔
      (scanInt (p.drop 8)).getD exTm < now ∨ Due now ((scanInt (p.drop 8)).getD exTm) rest := by
  simp only [Due, ReadsPast, StartsUnreadable, readings_cons_examined examined]
  cases scanInt (p.drop 8) with
  | none =>
    simp only [List.mem_cons, reduceCtorEq, false_or, List.head?_cons, Option.getD_none, true_and]
    constructor
    · rintro (read | past)
      · exact Or.inr (Or.inl read)
      · exact Or.inl past
    · rintro (past | read | ⟨_, past⟩)
      · exact Or.inr past
      · exact Or.inl read
      · exact Or.inr past
  | some t =>
    simp only [List.mem_cons, Option.some.injEq, List.head?_cons,
      Option.getD_some, reduceCtorEq, false_and, or_false]
    constructor
    · rintro ⟨other, rfl | later, past⟩
      · exact Or.inl past
      · exact Or.inr (Or.inl ⟨other, later, past⟩)
    · rintro (past | ⟨other, later, past⟩ | ⟨_, past⟩)
      · exact ⟨t, Or.inl rfl, past⟩
      · exact ⟨other, Or.inr later, past⟩
      · exact ⟨t, Or.inl rfl, past⟩

theorem mem_permissionLoop (now : Int) (user : User) (exTm : Int) (permissions : List Str)
    (other : User) :
    other ∈ (permissionLoop now user exTm permissions).2 ↔
      other = user ∧ Due now exTm permissions := by
  induction permissions generalizing exTm with
  | nil => simp [permissionLoop, Due, ReadsPast, StartsUnreadable, readings]
  | cons p rest ih =>
    by_cases examined : isExamined p = true
    · rw [due_cons_examined examined]
      simp only [permissionLoop, examined, not_true, if_false, gt_iff_lt]
      split
      · rename_i past
        rw [List.mem_cons, ih]
        tauto
      · rename_i future
        rw [ih]
        tauto
    · have skipped : isExamined p = false := by simpa using examined
      simp only [permissionLoop, skipped, Bool.false_eq_true, not_false_eq_true, if_true, ih,
        Due, ReadsPast, StartsUnreadable, readings_cons_skipped skipped]

theorem userLoop_carried (now exTm : Int) (users : List User) :
    (userLoop now exTm users).1 =
      carried exTm (users.flatMap fun user => readings user.permissions) := by
  induction users generalizing exTm with
  | nil => rfl
  | cons user rest ih =>
    simp only [userLoop, ih, permissionLoop_carried, carried, List.flatMap_cons, List.foldl_append]

/-- A user of a page is appended when it is due at the value that the users
before it leave behind. -/
theorem mem_userLoop (now exTm : Int) (users : List User) (user : User) :
    user ∈ (userLoop now exTm users).2 ↔
      ∃ before after, users = before ++ user :: after ∧
        Due now (userLoop now exTm before).1 user.permissions := by
  induction users generalizing exTm with
  | nil => simp [userLoop]
  | cons first rest ih =>
    simp only [userLoop, List.mem_append, mem_permissionLoop, ih]
    constructor
    · rintro (⟨rfl, due⟩ | ⟨before, after, rfl, due⟩)
      · exact ⟨[], rest, rfl, due⟩
      · exact ⟨first :: before, after, rfl, due⟩
    · rintro ⟨before, after, split, due⟩
      cases before with
      | nil =>
        cases split
        exact Or.inl ⟨rfl, due⟩
      | cons head before =>
        cases split
        exact Or.inr ⟨before, after, rfl, due⟩

/-! ## All pages -/

/-- The pages that a provider presents are those of one list. -/
def Pages (p : Provider σ) (s : σ) (users : List User) : Prop :=
  ∀ i : Nat, p.getUsers s 30 i [] [] = .ok ((users.drop i).take 30)

def pageAt (users : List User) (i : Nat) : List User :=
  (users.drop i).take 30

theorem pageLoop_eq_pages (p : Provider σ) (s : σ) (clock : Nat → Int) (fuel i : Nat) :
    pageLoop p s clock fuel i =
      (pages (fun i => p.getUsers s 30 i [] []) 30 fuel i).map
        (List.flatMap fun page => (userLoop (clock page.1) 0 page.2).2) := by
  induction fuel generalizing i with
  | zero => rfl
  | succ fuel ih =>
    rw [pageLoop, pages]
    rcases p.getUsers s 30 i [] [] with err | _ | ⟨first, rest⟩
    · rfl
    · rfl
    · simp only [ih, Option.map_map]
      rfl

/-- With a call for every user the loop ends, and it has collected the users
that are due on their page. -/
theorem pageLoop_collects {p : Provider σ} {s : σ} (pages : Pages p s users) (clock : Nat → Int)
    {i : Nat} (enough : users.length - i < fuel) :
    ∃ collected, pageLoop p s clock fuel i = some collected ∧
      ∀ user, user ∈ collected ↔
        ∃ k, user ∈ (userLoop (clock (i + 30 * k)) 0 (pageAt users (i + 30 * k))).2 := by
  obtain ⟨found, ends, _, members⟩ := pages_of_list (show 0 < 30 by norm_num) pages enough
  refine ⟨_, by rw [pageLoop_eq_pages, ends, Option.map_some], fun user => ?_⟩
  rw [List.mem_flatMap]
  constructor
  · rintro ⟨⟨j, page⟩, member, due⟩
    obtain ⟨⟨k, rfl⟩, rfl, _⟩ := (members j page).mp member
    exact ⟨k, due⟩
  · rintro ⟨k, due⟩
    refine ⟨(i + 30 * k, pageAt users (i + 30 * k)), ?_, due⟩
    refine (members _ _).mpr ⟨⟨k, rfl⟩, rfl, ?_⟩
    intro empty
    rw [empty] at due
    simp [userLoop] at due

theorem exists_page {user : User} (member : user ∈ users) :
    ∃ k before after, pageAt users (30 * k) = before ++ user :: after := by
  obtain ⟨n, inside, found⟩ := List.mem_iff_getElem.mp member
  refine ⟨n / 30, List.append_of_mem ?_⟩
  refine List.mem_iff_getElem.mpr ⟨n % 30, ?_, ?_⟩
  · simp only [pageAt, List.length_take, List.length_drop]
    omega
  · simp only [pageAt, List.getElem_take, List.getElem_drop, Nat.div_add_mod, found]

/-! ## Providers as directories -/

/-- What the pass needs of a provider: the records behind a store, the list
that its pages are taken from, that a new user is found under its name, and
that users are deleted by their ids, which are distinct in a sound store. -/
structure Directory (σ : Type) where
  provider : Provider σ
  records : σ → SortedMap Str User
  listing : σ → List User
  Sound : σ → Prop
  pages : ∀ s, Pages provider s (listing s)
  mem_listing : ∀ s user,
    user ∈ listing s ↔
      ∃ name record, (records s).get name = some record ∧ user = record.noCredentials
  adds : ∀ s call user next,
    provider.addUser s call user = .ok next →
      ∃ record, (records next).get user.username = some record ∧
        record.permissions = user.permissions
  distinct : ∀ s, Sound s → ∀ name other record found,
    (records s).get name = some record → (records s).get other = some found →
      record.id = found.id → name = other
  refuses : ∀ s, Sound s → ∀ user err,
    provider.deleteUser s user = .error err →
      ∀ name record, (records s).get name = some record → record.id ≠ user.id
  deletes : ∀ s, Sound s → ∀ user next,
    provider.deleteUser s user = .ok next →
      Sound next ∧ ∀ name,
        (records next).get name = ((records s).get name).filter fun record => record.id ≠ user.id

namespace Directory

variable {config : Config} (dir : Directory σ) {s : σ}

theorem get_deleteUsers (manages : config.manageUsers ≠ 0) (sound : dir.Sound s)
    (users : List User) (name : Str) :
    (dir.records (deleteUsers config dir.provider s users)).get name =
      ((dir.records s).get name).filter fun record =>
        ∀ user ∈ users, record.id ≠ user.id := by
  induction users generalizing s with
  | nil => cases found : (dir.records s).get name <;> simp [deleteUsers, found, Option.filter]
  | cons user rest ih =>
    have direct : deleteUser config dir.provider s user = dir.provider.deleteUser s user := by
      rw [deleteUser, if_neg manages]
    simp only [deleteUsers, direct]
    cases deleted : dir.provider.deleteUser s user with
    | error err =>
      rw [ih sound]
      cases found : (dir.records s).get name with
      | none => rfl
      | some record =>
        have other := dir.refuses s sound user err deleted name record found
        simp [Option.filter, other]
    | ok next =>
      obtain ⟨nextSound, next_get⟩ := dir.deletes s sound user next deleted
      rw [ih nextSound, next_get, Option.filter_filter]
      congr 1
      funext record
      simp

theorem checkUserExpireOnce_deletes (manages : config.manageUsers ≠ 0) (sound : dir.Sound s)
    (clock : Nat → Int) {name : Str} {record : User}
    (found : (dir.records s).get name = some record) {fuel : Nat}
    (enough : (dir.listing s).length < fuel) :
    ∃ after, checkUserExpireOnce config dir.provider clock fuel s = some after ∧
      ((dir.records after).get name = none ↔
        ∃ k before rest,
          pageAt (dir.listing s) (30 * k) = before ++ record.noCredentials :: rest ∧
          Due (clock (30 * k)) (userLoop (clock (30 * k)) 0 before).1 record.permissions) ∧
      ((dir.records after).get name ≠ none → (dir.records after).get name = some record) := by
  obtain ⟨collected, collects, members⟩ :=
    pageLoop_collects (dir.pages s) clock (i := 0) ((Nat.sub_le _ _).trans_lt enough)
  refine ⟨deleteUsers config dir.provider s collected,
    by rw [checkUserExpireOnce, collects, Option.map_some], ?_, ?_⟩
  · rw [dir.get_deleteUsers manages sound, found]
    have sameRecord :
        ∀ k before user rest,
          pageAt (dir.listing s) (30 * k) = before ++ user :: rest →
          record.id = user.id → user = record.noCredentials := by
      intro k before user rest page sameId
      have onPage : user ∈ pageAt (dir.listing s) (30 * k) := by simp [page]
      have listed : user ∈ dir.listing s := List.mem_of_mem_drop (List.mem_of_mem_take onPage)
      obtain ⟨other, stored, present, rfl⟩ := (dir.mem_listing s user).mp listed
      obtain rfl := dir.distinct s sound _ _ _ _ found present sameId
      rw [found] at present
      cases present
      rfl
    simp only [Option.filter_eq_none_iff, Option.some.injEq, decide_eq_true_eq,
      forall_eq', not_forall, not_not, members, mem_userLoop, Nat.zero_add]
    constructor
    · rintro ⟨user, ⟨k, before, rest, page, due⟩, sameId⟩
      obtain rfl := sameRecord k before user rest page sameId
      exact ⟨k, before, rest, page, due⟩
    · rintro ⟨k, before, rest, page, due⟩
      exact ⟨record.noCredentials, ⟨k, before, rest, page, due⟩, rfl⟩
  · rw [dir.get_deleteUsers manages sound, found]
    intro stays
    obtain ⟨kept, held⟩ := Option.ne_none_iff_exists'.mp stays
    rw [held]
    exact (Option.filter_eq_some_iff.mp held).1.symm

end Directory

/-! ## The Bolt provider -/

section Bolt

variable {config : Config} {credentials : Credentials} {s : BoltProvider}

/-- What the pages of the provider are taken from: without an order the cursor
goes backwards. -/
def listing (s : BoltProvider) : List User :=
  (s.users.entries.map Prod.snd).reverse.map User.noCredentials

theorem length_listing (s : BoltProvider) : (listing s).length = s.users.entries.length := by
  simp [listing]

theorem mem_listing {user : User} :
    user ∈ listing s ↔
      ∃ name record, s.users.get name = some record ∧ user = record.noCredentials := by
  simp only [listing, List.mem_map, List.mem_reverse, Prod.exists, SortedMap.mem_entries_iff]
  constructor
  · rintro ⟨record, ⟨name, _, found, rfl⟩, rfl⟩
    exact ⟨name, _, found, rfl⟩
  · rintro ⟨name, record, found, rfl⟩
    exact ⟨record, ⟨name, record, found, rfl⟩, rfl⟩

theorem pages_listing (credentials : Credentials) (s : BoltProvider) :
    Pages (BoltProvider.provider credentials) s (listing s) := by
  intro i
  have room : (([] : List User).length : Int) < 30 := by simp
  show s.getUsers 30 i [] [] = _
  rw [BoltProvider.getUsers, if_neg (by simp), if_neg (by simp),
    if_neg (by decide), BoltProvider.cursorLoop_eq room]
  simp [listing]

def boltDirectory (credentials : Credentials) : Directory BoltProvider where
  provider := BoltProvider.provider credentials
  records := BoltProvider.users
  listing := listing
  Sound := BoltProvider.Indexed
  pages := pages_listing credentials
  mem_listing := fun _ _ => mem_listing
  adds := by
    intro s call user next added
    obtain ⟨valid, checked, _, _, rfl⟩ := BoltProvider.addUser_ok added
    obtain ⟨_, pwd, _, rfl⟩ := validateUser_ok checked
    exact ⟨_, (SortedMap.get_put _ _ _ _).trans (if_pos rfl), rfl⟩
  distinct := fun _ indexed _ _ _ _ found present sameId =>
    indexed.name_unique found present sameId
  refuses := by
    intro s indexed user err refused name record found sameId
    have held := (indexed.inverse user.id name).mpr ⟨record, found, sameId⟩
    simp [BoltProvider.provider, BoltProvider.deleteUser, held] at refused
  deletes := by
    intro s indexed user next deleted
    refine ⟨indexed.deleteUser deleted, fun name => ?_⟩
    obtain ⟨userName, held, rfl⟩ := BoltProvider.deleteUser_ok deleted
    obtain ⟨gone, present, goneId⟩ := (indexed.inverse _ _).mp held
    rw [SortedMap.get_delete]
    split
    · rename_i mine
      rw [mine, present]
      simp [Option.filter, goneId]
    · rename_i other
      cases found : s.users.get name with
      | none => rfl
      | some record =>
        have different : record.id ≠ user.id := by
          intro sameId
          exact other (indexed.name_unique found present (sameId.trans goneId.symm))
        simp [Option.filter, different]

end Bolt

/-! ## Which lists of permissions are decided on their own -/

/-- The number that decimal digits after an optional minus sign stand for. -/
def decimal (text : Str) : Option Int :=
  let unsigned (digits : Str) : Option Int :=
    if digits ≠ [] ∧ digits.all isDigit then some (digitsValue digits)
    else none
  match text with
  | '-' :: digits => (unsigned digits).map Neg.neg
  | digits => unsigned digits

/-- Some entry is `_expire:t` with a decimal timestamp `t` in the past. -/
def Expired (now : Int) (permissions : List Str) : Prop :=
  ∃ text t, expirePrefix ++ text ∈ permissions ∧ decimal text = some t ∧ t < now

/-- The lists of permissions that `validateUser` lets through. -/
def Accepted (permissions : List Str) : Prop :=
  permissions ≠ [] ∧ checkPermissions permissions = none

/-- In every store, whoever else is in it, the pass ends and deletes a user
with these permissions exactly when they say that it has expired. -/
def DecidedExactly (now : Int) (permissions : List Str) : Prop :=
  ∀ (config : Config) (credentials : Credentials) (s : BoltProvider),
    config.manageUsers ≠ 0 → s.Indexed →
    (∀ name user, s.users.get name = some user → Accepted user.permissions) →
    ∀ name user, s.users.get name = some user →
      user.permissions = permissions →
      ∀ fuel, s.users.entries.length < fuel →
        ∃ after, checkUserExpireOnce config (BoltProvider.provider credentials)
            (fun _ => now) fuel s = some after ∧
          (after.users.get name = none ↔ Expired now permissions)

def IsInt64 (n : Int) : Prop :=
  -2 ^ 63 ≤ n ∧ n < 2 ^ 63

theorem isInt64_scanInt {text : Str} (read : scanInt text = some t) : IsInt64 t := by
  simp only [scanInt] at read
  split at read <;>
  · simp only [Option.ite_none_left_eq_some, Option.ite_none_right_eq_some,
      Option.some.injEq] at read
    obtain ⟨_, bound, rfl⟩ := read
    exact bound

theorem isInt64_carried {exTm : Int} (bound : IsInt64 exTm) {entries : List (Option Int)}
    (bounds : ∀ t, some t ∈ entries → IsInt64 t) :
    IsInt64 (carried exTm entries) := by
  induction entries generalizing exTm with
  | nil => exact bound
  | cons entry rest ih =>
    have restBounds : ∀ t, some t ∈ rest → IsInt64 t := fun t member =>
      bounds t (List.mem_cons_of_mem entry member)
    cases entry with
    | none => exact ih bound restBounds
    | some t => exact ih (bounds t List.mem_cons_self) restBounds

theorem isInt64_of_mem_readings (read : some t ∈ readings permissions) : IsInt64 t := by
  obtain ⟨p, _, scanned⟩ := List.mem_map.mp read
  exact isInt64_scanInt scanned

theorem isInt64_userLoop (now : Int) (users : List User) : IsInt64 (userLoop now 0 users).1 := by
  rw [userLoop_carried]
  apply isInt64_carried ⟨by norm_num, by norm_num⟩
  intro t member
  obtain ⟨user, _, read⟩ := List.mem_flatMap.mp member
  exact isInt64_of_mem_readings read

theorem checkUserExpireOnce_deletes
    {s : BoltProvider} (credentials : Credentials) (manages : config.manageUsers ≠ 0)
    (indexed : s.Indexed) (clock : Nat → Int) {name : Str} {record : User}
    (found : s.users.get name = some record) (enough : s.users.entries.length < fuel) :
    ∃ after,
      checkUserExpireOnce config (BoltProvider.provider credentials) clock fuel s = some after ∧
      (after.users.get name = none ↔
        ∃ k before rest,
          pageAt (listing s) (30 * k) = before ++ record.noCredentials :: rest ∧
          Due (clock (30 * k)) (userLoop (clock (30 * k)) 0 before).1 record.permissions) := by
  obtain ⟨after, ended, deleted, _⟩ :=
    (boltDirectory credentials).checkUserExpireOnce_deletes manages indexed
      clock found ((length_listing s).trans_lt enough)
  exact ⟨after, ended, deleted⟩

theorem decidedExactly_of_alone (reads : ReadsPast now permissions ↔ Expired now permissions)
    (unreadable : StartsUnreadable permissions → -2 ^ 63 < now → Expired now permissions) :
    DecidedExactly now permissions := by
  intro config credentials s manages indexed _ name record found same fuel enough
  subst same
  obtain ⟨after, ended, deleted⟩ :=
    checkUserExpireOnce_deletes credentials manages indexed (fun _ => now) found enough
  refine ⟨after, ended, deleted.trans ⟨?_, ?_⟩⟩
  · rintro ⟨k, before, rest, _, past | ⟨starts, carriedPast⟩⟩
    · exact reads.mp past
    · exact unreadable starts ((isInt64_userLoop now before).1.trans_lt carriedPast)
  · intro expired
    obtain ⟨k, before, rest, page⟩ := exists_page (mem_listing.mpr ⟨name, record, found, rfl⟩)
    exact ⟨k, before, rest, page, Or.inl (reads.mpr expired)⟩

/-! ## A user and a neighbour -/

def member (id : Int) (name : Str) (permissions : List Str) : User :=
  { User.zero with
    id := id
    username := name
    password := argonPwdPrefix
    homeDir := "/srv".toList
    permissions := permissions }

def pairStore (mine neighbours : List Str) : BoltProvider where
  users :=
    { entries :=
        [("a".toList, member 1 "a".toList mine), ("b".toList, member 2 "b".toList neighbours)]
      sorted := by simp; decide }
  usersIDIdx :=
    { entries := [(1, "a".toList), (2, "b".toList)]
      sorted := by simp }
  sequence := 2

theorem pairStore_get (mine neighbours : List Str) (name : Str) :
    (pairStore mine neighbours).users.get name =
      if name = "a".toList then some (member 1 "a".toList mine)
      else if name = "b".toList then
        some (member 2 "b".toList neighbours)
      else none := by
  simp only [pairStore, SortedMap.get, SortedMap.lookup]
  split_ifs <;> rfl

theorem pairStore_index (mine neighbours : List Str) (id : Int) :
    (pairStore mine neighbours).usersIDIdx.get id =
      if id = 1 then some "a".toList
      else if id = 2 then some "b".toList
      else none :=
  rfl

theorem indexed_pairStore (mine neighbours : List Str) : (pairStore mine neighbours).Indexed where
  inverse := by
    intro id name
    rw [pairStore_get, pairStore_index]
    constructor
    · intro held
      split at held
      · cases held
        rename_i first
        exact ⟨_, if_pos rfl, first.symm⟩
      · split at held
        · cases held
          rename_i second
          exact ⟨_, (if_neg (by decide)).trans (if_pos rfl), second.symm⟩
        · cases held
    · rintro ⟨user, found, rfl⟩
      split at found
      · cases found
        rename_i first
        simp [member, first]
      · split at found
        · cases found
          rename_i second
          simp [member, second]
        · cases found
  named := by
    intro name user found
    rw [pairStore_get] at found
    split at found
    · cases found
      rename_i first
      exact first.symm
    · split at found
      · cases found
        rename_i second
        exact second.symm
      · cases found
  counted := by
    intro name user found
    rw [pairStore_get] at found
    split at found
    · cases found
      simp [member, pairStore]
    · split at found
      · cases found
        simp [member, pairStore]
      · cases found

theorem pageAt_pairStore {mine : List Str} {k : Nat} {before rest : List User} (page :
      pageAt (listing (pairStore mine neighbours)) (30 * k) =
        before ++ (member 1 "a".toList mine).noCredentials :: rest) :
    before = [(member 2 "b".toList neighbours).noCredentials] := by
  have all :
      listing (pairStore mine neighbours) =
        [(member 2 "b".toList neighbours).noCredentials,
          (member 1 "a".toList mine).noCredentials] := rfl
  rw [all, pageAt] at page
  rcases k with _ | k
  · rcases before with _ | ⟨first, _ | ⟨second, before⟩⟩
    · simp [member, User.noCredentials] at page
    · simp only [Nat.mul_zero, List.drop_zero, List.take_succ_cons,
        List.cons_append, List.nil_append, List.cons.injEq] at page
      rw [page.1]
    · simp at page
  · rw [List.drop_eq_nil_of_le (by simp; omega)] at page
    simp at page

theorem pairStore_decides (manages : config.manageUsers ≠ 0) (credentials : Credentials) (now : Int)
    (mine neighbours : List Str) :
    ∃ after, checkUserExpireOnce config (BoltProvider.provider credentials)
        (fun _ => now) 3 (pairStore mine neighbours) = some after ∧
      (after.users.get "a".toList = none ↔ Due now (carried 0 (readings neighbours)) mine) := by
  have found :
      (pairStore mine neighbours).users.get "a".toList = some (member 1 "a".toList mine) := rfl
  have left :
      (userLoop now 0
        [(member 2 "b".toList neighbours).noCredentials]).1 =
        carried 0 (readings neighbours) := by
    simp [userLoop_carried, member, User.noCredentials]
  obtain ⟨after, ended, deleted⟩ :=
    checkUserExpireOnce_deletes credentials manages
      (indexed_pairStore mine neighbours) (fun _ => now) found
      (show _ < 3 by simp [pairStore])
  refine ⟨after, ended, deleted.trans ⟨?_, ?_⟩⟩
  · rintro ⟨k, before, rest, page, due⟩
    rw [pageAt_pairStore page, left] at due
    exact due
  · intro due
    exact ⟨0, [(member 2 "b".toList neighbours).noCredentials], [], rfl, left ▸ due⟩

/-- Entries that leave the least and the greatest `int64` behind. -/
def leastEntry : List Str := ["_expire:-9223372036854775808".toList]

def greatestEntry : List Str := ["_expire:9223372036854775807".toList]

theorem due_of_decidedExactly (exact : DecidedExactly now permissions)
    (accepted : Accepted permissions) (neighboursAccepted : Accepted neighbours) :
    Due now (carried 0 (readings neighbours)) permissions ↔ Expired now permissions := by
  obtain ⟨after, ended, deleted⟩ :=
    pairStore_decides (show plainConfig.manageUsers ≠ 0 by decide)
      plainCredentials now permissions neighbours
  obtain ⟨again, endedAgain, expired⟩ :=
    exact plainConfig plainCredentials (pairStore permissions neighbours)
      (by decide) (indexed_pairStore permissions neighbours)
      (by
        intro name user found
        rw [pairStore_get] at found
        split at found
        · cases found
          exact accepted
        · split at found
          · cases found
            exact neighboursAccepted
          · cases found)
      "a".toList (member 1 "a".toList permissions) rfl rfl 3
      (by simp [pairStore])
  rw [ended] at endedAgain
  cases endedAgain
  exact deleted.symm.trans expired

/-- A user is decided exactly in every store if and only if its entries read
as a past time when one of them is a past timestamp and only then, and the
first one that is examined can be read unless the user has expired anyway. -/
theorem expiry_exact_iff {now : Int} {permissions : List Str} (clock : IsInt64 now)
    (accepted : Accepted permissions) :
    DecidedExactly now permissions ↔
      (ReadsPast now permissions ↔ Expired now permissions) ∧
        (StartsUnreadable permissions → -2 ^ 63 < now → Expired now permissions) := by
  constructor
  · intro exact
    have least :=
      due_of_decidedExactly exact accepted (show Accepted leastEntry by unfold Accepted; decide)
    have greatest :=
      due_of_decidedExactly exact accepted (show Accepted greatestEntry by unfold Accepted; decide)
    rw [show carried 0 (readings leastEntry) = -2 ^ 63 by decide +kernel]
      at least
    rw [show carried 0 (readings greatestEntry) = 2 ^ 63 - 1 by
      decide +kernel] at greatest
    refine ⟨?_, fun starts later => least.mp (Or.inr ⟨starts, later⟩)⟩
    constructor
    · exact fun past => greatest.mp (Or.inl past)
    · intro expired
      rcases greatest.mpr expired with past | ⟨_, past⟩
      · exact past
      · -- No time is later than the greatest one.
        have bound := clock.2
        omega
  · rintro ⟨reads, unreadable⟩
    exact decidedExactly_of_alone reads unreadable

theorem dated_user_decided :
    DecidedExactly 1600000000 ["list".toList, "_expire:1500000000".toList] := by
  refine (expiry_exact_iff ⟨by norm_num, by norm_num⟩
    ⟨by decide, by decide⟩).mpr ⟨?_, ?_⟩
  · refine iff_of_true ⟨1500000000, by decide +kernel, by norm_num⟩ ?_
    exact ⟨"1500000000".toList, 1500000000, by decide +kernel,
      by decide +kernel, by norm_num⟩
  · intro starts
    exact absurd starts (by unfold StartsUnreadable; decide +kernel)

/-- A user whose entry is no timestamp is deleted, unless a neighbour on its
page has left a time in the future behind. -/
theorem unreadable_entry_expires :
    ¬ DecidedExactly 1600000000 ["list".toList, "_expire:never".toList] := by
  intro exact
  have due :
      Due 1600000000 (carried 0 (readings ["list".toList]))
        ["list".toList, "_expire:never".toList] :=
    Or.inr ⟨by unfold StartsUnreadable; decide +kernel, by decide +kernel⟩
  obtain ⟨text, t, member, read, _⟩ :=
    (due_of_decidedExactly exact ⟨by decide, by decide⟩
      ⟨by decide, by decide⟩).mp due
  have entry : text = "never".toList := by
    rcases List.mem_cons.mp member with plain | expire
    · have first : some '_' = some 'l' := congrArg List.head? plain
      exact absurd first (by decide)
    · exact List.append_cancel_left (List.mem_singleton.mp expire)
  rw [entry] at read
  revert read
  exact nofun

end Sshserv.Cmd
