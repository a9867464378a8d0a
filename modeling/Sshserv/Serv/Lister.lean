import Sshserv.DataProvider.User
import Sshserv.Lib.Slice

/-!
# Listing entries in batches

`listerAt.ListAt`, for entries of the local file system and for those of HDFS.
A caller reads a listing with one buffer after the other, at an offset that
each returned count advances.
-/

namespace Sshserv.Serv

open Lib Lib.UnixPath DataProvider

inductive ListError where
  | eof
  | other (text : Str)
  deriving DecidableEq

/-- What a call of `ListAt` leaves in the buffer and returns.  An element of
the buffer may be `nil`. -/
structure ListCall (β : Type) where
  buffer : Slice (Option β)
  n : Nat
  err : Option ListError

/-- The entries that a call has delivered. -/
def ListCall.entries {β : Type} (call : ListCall β) : List (Option β) :=
  call.buffer.elems.take call.n

/-- `ListAt`; `none` is a panic. -/
def Lister (β : Type) : Type :=
  Slice (Option β) → Int → Option (ListCall β)

structure SftpFileInfo (ι : Type) where
  h : ι
  deriving DecidableEq

/-- The loop of `ListAt` over a window of the list, and what follows it. -/
def copyWindow {α β : Type} (read : α → Option β) (f : Slice (Option β)) :
    Option (List α) → Option (ListCall β)
  | none => none
  | some window =>
    match Slice.fill (fun fi => (read fi).map some) window 0 0 f with
    | none => none
    | some (f, n) => some ⟨f, n, if n < f.len then some .eof else none⟩

def listAt {ι : Type} (l : Slice ι) : Lister (SftpFileInfo ι) :=
  fun f offset =>
    if offset ≥ l.len then some ⟨f, 0, some .eof⟩
    else
      let maxlen : Int := wrap64 (offset + f.len)
      let maxlen : Int := if maxlen > l.len then l.len else maxlen
      copyWindow (fun fi => some ⟨fi⟩) f (l.between offset maxlen)

end Sshserv.Serv

namespace Sshserv.Hh

open Lib DataProvider Serv

/-- A value of the interface `os.FileInfo`. -/
inductive OsFileInfo (ι κ : Type) where
  | hdfs (info : ι)
  | other (info : κ)
  deriving DecidableEq

/-- The type assertion to `*hdfs.FileInfo`. -/
def OsFileInfo.asHdfs {ι κ : Type} : OsFileInfo ι κ → Option ι
  | .hdfs info => some info
  | .other _ => none

def listAt {ι κ : Type} (l : Slice (OsFileInfo ι κ)) : Lister (SftpFileInfo ι) :=
  fun f offset =>
    if offset ≥ l.len then some ⟨f, 0, some .eof⟩
    else
      let rightN : Int := wrap64 (l.len - offset)
      let rightN : Int := if f.len < rightN then f.len else rightN
      copyWindow (fun fi => fi.asHdfs.map SftpFileInfo.mk) f
        (l.between offset (wrap64 (offset + rightN)))

end Sshserv.Hh

namespace Sshserv.Serv

open Lib DataProvider

variable {ι κ β : Type}

/-- A call on the entries that are left: it copies as many as the buffer
holds, changes nothing behind them, and says so if there is room for more. -/
structure Fills (left : List β) (f : Slice (Option β)) (call : ListCall β) : Prop where
  n : call.n = (left.take f.len).length
  buffer : call.buffer.elems = (left.take f.len).map some ++ f.elems.drop call.n
  err : call.err = if call.n < f.len then some .eof else none

section Calls

variable {left : List β} {f : Slice (Option β)} {call : ListCall β}

theorem Fills.of_end (done : left = []) (nonempty : 1 ≤ f.len) :
    Fills left f ⟨f, 0, some .eof⟩ := by
  subst done
  exact ⟨by simp, by simp, (if_pos nonempty).symm⟩

theorem copyWindow_fills {α : Type} {read : α → Option β} {window : List α}
    (reads : window.map read = (left.take f.len).map some) :
    ∃ call, copyWindow read f (some window) = some call ∧ Fills left f call := by
  have wrapped :
      window.map (fun fi => (read fi).map some) = ((left.take f.len).map some).map some := by
    have mapped := congrArg (List.map (Option.map some)) reads
    rw [List.map_map, List.map_map] at mapped
    rw [List.map_map]
    exact mapped
  obtain ⟨after, filled, elems⟩ :=
    Slice.fill_eq_some wrapped [] (by simp [Slice.len])
      (List.nil_append f.elems).symm 0
  have size : after.len = f.len := by
    rw [Slice.len, elems]
    simp [Slice.len]
  refine ⟨⟨after, (left.take f.len).length,
    if (left.take f.len).length < f.len then some .eof else none⟩, ?_,
    rfl, by simpa using elems, rfl⟩
  rw [List.length_nil] at filled
  rw [copyWindow, filled]
  simp [size]

/-- Both variants copy the same window. -/
theorem copyWindow_between {α : Type} {read : α → Option β} {entries : List β} {l : Slice α}
    (reads : l.elems.map read = entries.map some) (f : Slice (Option β)) {offset : Nat}
    (inside : offset ≤ l.len) {high : Int} (window : high = min (offset + f.len : Nat) l.len) :
    ∃ call, copyWindow read f (l.between offset high) = some call ∧
      Fills (entries.drop offset) f call := by
  obtain rfl : high = ((min (offset + f.len) l.len : Nat) : Int) := by
    rw [window, Nat.cast_min]
  rw [l.between_of_le (by omega) (by omega)]
  apply copyWindow_fills
  have count :
      (l.elems.drop offset).take (min (offset + f.len) l.len - offset) =
        (l.elems.drop offset).take f.len := by
    rw [List.take_eq_take_iff, List.length_drop]
    unfold Slice.len
    omega
  rw [count, List.map_take, List.map_drop, reads, ← List.map_drop, ← List.map_take]

end Calls

/-- A list of entries behind `ListAt`. -/
structure Pages (entries : List β) (lister : Lister β) : Prop where
  fits : 16 * entries.length < 2 ^ 63
  behind : ∀ f (offset : Int), entries.length ≤ offset → lister f offset = some ⟨f, 0, some .eof⟩
  within :
    ∀ f (offset : Nat), offset < entries.length →
      ∃ call, lister f offset = some call ∧ Fills (entries.drop offset) f call
  before : ∀ f (offset : Int), offset < 0 → lister f offset = none

theorem wrap64_len_add {α γ : Type} (l : Slice α) (f : Slice γ) {n : Int}
    (low : 0 ≤ n) (high : n ≤ l.len + f.len) : wrap64 n = n := by
  have fitsList := l.fits
  have fitsBuffer := f.fits
  unfold Slice.len at high
  exact wrap64_of_bounds (by omega) (by omega)

theorem pages_listAt (l : Slice ι) : Pages (l.elems.map SftpFileInfo.mk) (listAt l) := by
  have size : (l.elems.map SftpFileInfo.mk).length = l.len := List.length_map _
  refine ⟨size ▸ l.fits, ?_, ?_, ?_⟩
  · intro f offset done
    exact if_pos (size ▸ done)
  · intro f offset more
    rw [size] at more
    rw [listAt, if_neg (by omega), wrap64_len_add l f (by omega) (by omega)]
    apply copyWindow_between
    · rw [List.map_map]
      rfl
    · exact more.le
    · split <;> omega
  · intro f offset negative
    rw [listAt, if_neg (by omega)]
    exact congrArg (copyWindow _ f) (l.between_of_neg negative _)

theorem pages_hdfs_listAt (files : Slice ι) :
    Pages (files.elems.map SftpFileInfo.mk)
      (Hh.listAt (files.map .hdfs : Slice (Hh.OsFileInfo ι κ))) := by
  have size : (files.elems.map SftpFileInfo.mk).length = files.len := List.length_map _
  have sameSize : (files.map .hdfs : Slice (Hh.OsFileInfo ι κ)).len = files.len := files.len_map _
  refine ⟨size ▸ files.fits, ?_, ?_, ?_⟩
  · intro f offset done
    exact if_pos (sameSize ▸ size ▸ done)
  · intro f offset more
    rw [size] at more
    rw [Hh.listAt, if_neg (by omega), wrap64_len_add files f (by omega) (by omega)]
    apply copyWindow_between
    · rw [Slice.map, List.map_map, List.map_map]
      rfl
    · omega
    · rw [wrap64_len_add files f (by split <;> omega) (by split <;> omega)]
      split <;> omega
  · intro f offset negative
    rw [Hh.listAt, if_neg (by omega)]
    exact congrArg (copyWindow _ f) (Slice.between_of_neg _ negative _)

section Pages

variable {entries : List β} {lister : Lister β} (pages : Pages entries lister)
include pages

theorem Pages.fills {f : Slice (Option β)} (nonempty : 1 ≤ f.len) (offset : Nat) :
    ∃ call, lister f offset = some call ∧ Fills (entries.drop offset) f call := by
  by_cases more : offset < entries.length
  · exact pages.within f offset more
  · rw [not_lt] at more
    exact ⟨_, pages.behind f offset (by omega),
      Fills.of_end (List.drop_eq_nil_of_le more) nonempty⟩

/-- Lists of the same length give the same counts and errors, at whatever
offset. -/
theorem Pages.same {γ : Type} {others : List γ} {other : Lister γ} (otherPages : Pages others other)
    (same : entries.length = others.length)
    {f : Slice (Option β)} {g : Slice (Option γ)} (buffers : f.len = g.len) (offset : Int) :
    (lister f offset).map (fun call => (call.n, call.err)) =
      (other g offset).map fun call => (call.n, call.err) := by
  rcases lt_or_ge offset 0 with negative | positive
  · rw [pages.before f offset negative, otherPages.before g offset negative]
    rfl
  obtain ⟨k, rfl⟩ := Int.eq_ofNat_of_zero_le positive
  by_cases more : k < entries.length
  · obtain ⟨call, called, fills⟩ := pages.within f k more
    obtain ⟨twin, twinCalled, twinFills⟩ := otherPages.within g k (same ▸ more)
    have count : call.n = twin.n := by
      rw [fills.n, twinFills.n]
      simp [same, buffers]
    rw [called, twinCalled, Option.map_some, Option.map_some, fills.err,
      twinFills.err, count, buffers]
  · rw [pages.behind f k (by omega), otherPages.behind g k (by omega)]
    rfl

end Pages

/-- The calls of a reader that starts at an offset, with its buffers. -/
def listRun (lister : Lister β) : List (Slice (Option β)) → Int → Option (List (ListCall β))
  | [], _ => some []
  | f :: rest, offset =>
    match lister f offset with
    | none => none
    | some call => (listRun lister rest (wrap64 (offset + call.n))).map (call :: ·)

inductive FillsAll : List β → List (Slice (Option β)) → List (ListCall β) → Prop
  | nil (left : List β) : FillsAll left [] []
  | cons {left : List β} {f : Slice (Option β)} {call : ListCall β}
      {rest : List (Slice (Option β))} {calls : List (ListCall β)}
      (first : Fills left f call)
      (others : FillsAll (left.drop f.len) rest calls) :
      FillsAll left (f :: rest) (call :: calls)

theorem Fills.entries {left : List β} {f : Slice (Option β)} {call : ListCall β}
    (fills : Fills left f call) :
    call.entries = (left.take f.len).map some := by
  rw [ListCall.entries, fills.buffer, List.take_left']
  rw [List.length_map, fills.n]

theorem Pages.advance {entries : List β} {lister : Lister β} (pages : Pages entries lister)
    {offset : Nat} (inside : offset ≤ entries.length) {f : Slice (Option β)} {call : ListCall β}
    (fills : Fills (entries.drop offset) f call) :
    wrap64 (offset + call.n) = ((offset + call.n : Nat) : Int) ∧
      offset + call.n ≤ entries.length ∧
      entries.drop (offset + call.n) = (entries.drop offset).drop f.len := by
  have count : call.n = min f.len (entries.length - offset) := by
    rw [fills.n, List.length_take, List.length_drop]
  have fits := pages.fits
  refine ⟨?_, by omega, ?_⟩
  · rw [Nat.cast_add]
    exact wrap64_of_bounds (by omega) (by omega)
  · rw [List.drop_drop, List.drop_eq_drop_iff]
    omega

theorem Pages.run {entries : List β} {lister : Lister β} (pages : Pages entries lister)
    {bufs : List (Slice (Option β))} (nonempty : ∀ f ∈ bufs, 1 ≤ f.len)
    {offset : Nat} (inside : offset ≤ entries.length) :
    ∃ calls, listRun lister bufs offset = some calls ∧
      FillsAll (entries.drop offset) bufs calls := by
  induction bufs generalizing offset with
  | nil => exact ⟨[], rfl, .nil _⟩
  | cons f rest ih =>
    obtain ⟨nonemptyFirst, nonemptyRest⟩ := List.forall_mem_cons.mp nonempty
    obtain ⟨call, called, first⟩ := pages.fills nonemptyFirst offset
    obtain ⟨next, still, left⟩ := pages.advance inside first
    obtain ⟨calls, run, others⟩ := ih nonemptyRest still
    rw [left] at others
    refine ⟨call :: calls, ?_, .cons first others⟩
    rw [listRun, called]
    simp only [next, run, Option.map_some]

/-- A listing read with a sequence of buffers. -/
structure InBatches (entries : List β) (bufs : List (Slice (Option β)))
    (calls : List (ListCall β)) : Prop where
  /-- The calls deliver the entries once each, in order, as far as the buffers
  reach. -/
  inOrder : calls.flatMap ListCall.entries = (entries.take (bufs.map Slice.len).sum).map some
  /-- A call returns no entry and the end exactly when those before it have
  delivered all. -/
  atEnd :
    ∀ before call after, calls = before ++ call :: after →
      ((call.n = 0 ∧ call.err = some .eof) ↔ before.flatMap ListCall.entries = entries.map some)
  /-- A call writes the elements it counts and no other. -/
  inBuffer :
    List.Forall₂
      (fun f call =>
        call.n ≤ f.len ∧ call.buffer.len = f.len ∧
          call.buffer.elems.drop call.n = f.elems.drop call.n ∧
          call.err = if call.n < f.len then some .eof else none)
      bufs calls

theorem Fills.inBuffer {left : List β} {f : Slice (Option β)} {call : ListCall β}
    (fills : Fills left f call) :
    call.n ≤ f.len ∧ call.buffer.len = f.len ∧
      call.buffer.elems.drop call.n = f.elems.drop call.n ∧
      call.err = if call.n < f.len then some .eof else none := by
  have count : call.n ≤ f.len := by
    rw [fills.n]
    exact List.length_take_le _ _
  refine ⟨count, ?_, ?_, fills.err⟩
  · rw [Slice.len, fills.buffer, List.length_append, List.length_map, ← fills.n, List.length_drop]
    exact Nat.add_sub_of_le count
  · rw [fills.buffer, List.drop_left']
    rw [List.length_map, fills.n]

theorem FillsAll.inBatches {entries : List β} {bufs : List (Slice (Option β))}
    {calls : List (ListCall β)} (all : FillsAll entries bufs calls)
    (nonempty : ∀ f ∈ bufs, 1 ≤ f.len) : InBatches entries bufs calls := by
  induction all with
  | nil left => exact ⟨by simp, by simp, .nil⟩
  | @cons left f call rest calls first others ih =>
    obtain ⟨room, more⟩ := List.forall_mem_cons.mp nonempty
    have later := ih more
    refine ⟨?_, ?_, .cons first.inBuffer later.inBuffer⟩
    · rw [List.flatMap_cons, first.entries, later.inOrder, List.map_cons,
        List.sum_cons, List.take_add, List.map_append]
    · intro before last after shape
      cases before with
      | nil =>
        obtain ⟨rfl, rfl⟩ := List.cons.inj shape
        have count := first.n
        rw [List.length_take] at count
        rw [List.flatMap_nil, first.err]
        constructor
        · rintro ⟨done, _⟩
          have empty : left.length = 0 := by omega
          rw [List.eq_nil_of_length_eq_zero empty]
          rfl
        · intro empty
          have done : left.length = 0 := by
            simpa using (congrArg List.length empty).symm
          exact ⟨by omega, if_pos (by omega)⟩
      | cons earlier before =>
        obtain ⟨rfl, rest⟩ := List.cons.inj shape
        rw [later.atEnd before last after rest, List.flatMap_cons, first.entries,
          ← List.append_right_inj, ← List.map_append, List.take_append_drop]

end Sshserv.Serv
