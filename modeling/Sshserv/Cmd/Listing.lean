import Sshserv.Cmd.Expire

/-!
# The pages of the users

`getUsers` of the Bolt provider without a name: one page, in the order of the
names or, for any order but `ASC`, in the opposite one.  Stepping through the
listing by the size of a page meets every user once (`user_pages_exact`).
-/

namespace Sshserv.Cmd

open Lib UnixPath Paging
open DataProvider

/-- The users in the order of their names, which are the keys of the bucket,
or in the opposite order, without their credentials. -/
def usersInOrder (s : BoltProvider) (order : Str) : List User :=
  let sorted := s.users.entries.map Prod.snd
  (if order = "ASC".toList then sorted else sorted.reverse).map User.noCredentials

theorem length_usersInOrder (s : BoltProvider) (order : Str) :
    (usersInOrder s order).length = s.users.entries.length := by
  unfold usersInOrder
  split <;> simp

/-- The loop over the pages, with the pages it gets and their offsets. -/
def userPages (s : BoltProvider) (limit : Int) (order : Str) (fuel : Nat) :
    Option (List (Nat × List User)) :=
  pages (fun i => s.getUsers limit i order []) limit.toNat fuel 0

/-- The pages put together are the listing: every user once, in its order. -/
def VisitsOnce (s : BoltProvider) (order : Str) (found : List (Nat × List User)) : Prop :=
  (found.map Prod.snd).flatten = usersInOrder s order

theorem getUsers_eq_pageOf (s : BoltProvider) (order : Str) {limit offset : Int}
    (positive : 1 ≤ limit) :
    s.getUsers limit offset order [] =
      .ok (pageOf (usersInOrder s order) limit.toNat offset.toNat) := by
  have room : (([] : List User).length : Int) < limit := by
    rw [List.length_nil]
    omega
  have loop (records : List User) :
      BoltProvider.cursorLoop limit offset 0 [] records =
        pageOf (records.map User.noCredentials) limit.toNat offset.toNat := by
    rw [BoltProvider.cursorLoop_eq room]
    simp [pageOf]
  rw [BoltProvider.getUsers, if_neg (by simp), if_neg (by omega), loop, loop, usersInOrder]
  split <;> rfl

theorem userPages_visitsOnce (s : BoltProvider) (order : Str) {limit : Int} (positive : 1 ≤ limit)
    {fuel : Nat} (enough : s.users.entries.length < fuel) :
    ∃ found, userPages s limit order fuel = some found ∧ VisitsOnce s order found := by
  have fetches (i : Nat) :
      s.getUsers limit i order [] = .ok (pageOf (usersInOrder s order) limit.toNat i) :=
    getUsers_eq_pageOf s order positive
  obtain ⟨found, ends, whole, _⟩ :=
    pages_of_list (show 0 < limit.toNat by omega) fetches
      (show (usersInOrder s order).length - 0 < fuel by
        rw [length_usersInOrder]
        omega)
  exact ⟨found, ends, whole⟩

/-- For every store, size of a page and order: a page holds exactly the users
at its positions of the listing, and stepping through the pages ends and meets
every user once.  The expiry pass goes through the pages in this way. -/
theorem user_pages_exact (s : BoltProvider) (order : Str) {limit : Int} (positive : 1 ≤ limit) :
    (∀ offset : Int, 0 ≤ offset →
      s.getUsers limit offset order [] =
        .ok (pageOf (usersInOrder s order) limit.toNat offset.toNat)) ∧
      (∀ fuel, s.users.entries.length < fuel →
        ∃ found, userPages s limit order fuel = some found ∧ VisitsOnce s order found) ∧
      ∀ (credentials : Credentials) (clock : Nat → Int) (fuel : Nat),
        s.users.entries.length < fuel →
          ∃ found, userPages s 30 [] fuel = some found ∧
            VisitsOnce s [] found ∧
            pageLoop (BoltProvider.provider credentials) s clock fuel 0 =
              some (found.flatMap fun page =>
                (userLoop (clock page.1) 0 page.2).2) := by
  refine ⟨fun offset _ => getUsers_eq_pageOf s order positive,
    fun fuel enough => userPages_visitsOnce s order positive enough, ?_⟩
  intro credentials clock fuel enough
  obtain ⟨found, ends, once⟩ := userPages_visitsOnce s [] (show (1 : Int) ≤ 30 by norm_num) enough
  refine ⟨found, ends, once, ?_⟩
  rw [pageLoop_eq_pages]
  exact congrArg (Option.map _) ends

/-- Two users in pages of one. -/
theorem pair_in_single_pages :
    ∃ found, userPages (pairStore ["list".toList] ["list".toList]) 1 "ASC".toList 3 = some found ∧
        VisitsOnce (pairStore ["list".toList] ["list".toList]) "ASC".toList found :=
  (user_pages_exact (pairStore ["list".toList] ["list".toList]) "ASC".toList
    (show (1 : Int) ≤ 1 by norm_num)).2.1 3 (by decide)

end Sshserv.Cmd
