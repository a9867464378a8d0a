import Sshserv.Serv.FileHandler
import Sshserv.Serv.Lister

/-!
# Reading a directory through the request server

`filelist` answers a request for more entries of an open directory.  The
request keeps the offset from one call to the next.
-/

namespace Sshserv.Sftp

open Lib Lib.UnixPath DataProvider Serv

def methodText : Method → Str
  | .setstat => "Setstat".toList
  | .rename => "Rename".toList
  | .rmdir => "Rmdir".toList
  | .mkdir => "Mkdir".toList
  | .symlink => "Symlink".toList
  | .remove => "Remove".toList
  | .list => "List".toList
  | .stat => "Stat".toList
  | .other name => name

/-- The part of a request that `filelist` uses; the lister may be `nil`. -/
structure ListRequest (β : Type) where
  method : Method
  lister : Option (Lister β)
  lsoffset : Int

/-- A packet with names, or a status made from an error. -/
inductive ListResponse (β : Type) where
  | names (entries : List β)
  | status (err : ListError)
  deriving DecidableEq

variable {β : Type}

namespace ListRequest

def lsNext (r : ListRequest β) : Int :=
  r.lsoffset

def lsInc (r : ListRequest β) (offset : Int) : ListRequest β :=
  { r with lsoffset := wrap64 (r.lsoffset + offset) }

end ListRequest

/-- The response to a call of `ListAt`; a `nil` entry panics when its name is
read. -/
def respond (method : Method) (finfo : List (Option β)) (n : Nat)
    (err : Option ListError) : Option (ListResponse β) :=
  match method, err with
  | .list, some (.other text) => some (.status (.other text))
  | .list, err =>
    if err = some .eof ∧ n = 0 then some (.status .eof)
    else (finfo.mapM id).map .names
  | method, _ => some (.status (.other ("unexpected method: ".toList ++ methodText method)))

/-- `filelist`; `none` is a panic. -/
def filelist (maxFilelist : Int) (r : ListRequest β) : Option (ListRequest β × ListResponse β) :=
  match r.lister with
  | none => some (r, .status (.other "unexpected dir packet".toList))
  | some listAt =>
    match Slice.make none maxFilelist with
    | none => none
    | some finfo =>
      match listAt finfo r.lsNext with
      | none => none
      | some call =>
        match call.buffer.between 0 call.n with
        | none => none
        | some finfo => (respond r.method finfo call.n call.err).map (r.lsInc call.n, ·)

/-- Requests one after the other, each with its value of `MaxFilelist`. -/
def filelists : List Int → ListRequest β → Option (List (ListResponse β))
  | [], _ => some []
  | maxFilelist :: rest, r =>
    match filelist maxFilelist r with
    | none => none
    | some (r, response) => (filelists rest r).map (response :: ·)

/-- The responses that a client expects: the entries that are left in batches,
then the end. -/
def answers : List β → List Nat → List (ListResponse β)
  | _, [] => []
  | left, size :: rest =>
    (if left = [] then .status .eof else .names (left.take size)) :: answers (left.drop size) rest

section Filelist

variable {entries left : List β} {lister : Lister β}

theorem respond_of_fills {f : Slice (Option β)} {call : ListCall β} (fills : Fills left f call)
    (nonempty : 1 ≤ f.len) :
    respond .list call.entries call.n call.err =
      some (if left = [] then .status .eof
        else .names (left.take f.len)) := by
  have count := fills.n
  rw [List.length_take] at count
  rw [fills.entries, fills.err]
  by_cases done : left = []
  · subst done
    rw [List.length_nil] at count
    rw [if_pos rfl, if_pos (by omega)]
    simp [respond, count]
  · have nonzero : call.n ≠ 0 := by
      have positive := List.length_pos_iff.mpr done
      omega
    have names : ((left.take f.len).map some).mapM id = some (left.take f.len) := by
      rw [List.mapM_map]
      exact (List.mapM_pure (m := Option) (f := id)).trans (congrArg some (List.map_id _))
    rw [if_neg done]
    split
    · simp only [respond, nonzero, and_false, if_false, names, Option.map_some]
    · simp only [respond, nonzero, and_false, if_false, names, Option.map_some]

theorem filelist_eq (pages : Pages entries lister) {size offset : Nat} (nonempty : 1 ≤ size)
    (fits : 16 * size < 2 ^ 63) (inside : offset ≤ entries.length) :
    ∃ next : Nat, next ≤ entries.length ∧
      entries.drop next = (entries.drop offset).drop size ∧
      filelist size ⟨.list, some lister, offset⟩ =
        some (⟨.list, some lister, next⟩,
          if entries.drop offset = [] then .status .eof
          else .names ((entries.drop offset).take size)) := by
  obtain ⟨f, made, length⟩ := Slice.exists_make (none : Option β) fits
  obtain ⟨call, called, fills⟩ := pages.fills (length.symm ▸ nonempty) offset
  obtain ⟨next, still, left⟩ := pages.advance inside fills
  obtain ⟨count, sameLength, _⟩ := fills.inBuffer
  have window : call.buffer.between 0 call.n = some call.entries := by
    simpa [ListCall.entries] using call.buffer.between_of_le (Nat.zero_le call.n) (by omega)
  refine ⟨offset + call.n, still, length ▸ left, ?_⟩
  have answer := respond_of_fills fills (length.symm ▸ nonempty)
  rw [length] at answer
  simp only [filelist, made, ListRequest.lsNext, called, window, answer,
    Option.map_some, ListRequest.lsInc, next]

theorem filelists_eq (pages : Pages entries lister) {sizes : List Nat}
    (good : ∀ size ∈ sizes, 1 ≤ size ∧ 16 * size < 2 ^ 63) {offset : Nat}
    (inside : offset ≤ entries.length) :
    filelists (sizes.map Nat.cast) ⟨.list, some lister, offset⟩ =
      some (answers (entries.drop offset) sizes) := by
  induction sizes generalizing offset with
  | nil => rfl
  | cons size rest ih =>
    obtain ⟨⟨nonempty, fits⟩, others⟩ := List.forall_mem_cons.mp good
    obtain ⟨next, still, left, answered⟩ := filelist_eq pages nonempty fits inside
    rw [List.map_cons, filelists, answered]
    simp only [ih others still, left, Option.map_some, answers]

end Filelist

/-- A list of entries, and `ListAt` on it: the local one, or the one of the
HDFS handler, whose client returns entries of one type only. -/
inductive ListerFor {ι : Type} (κ : Type) : List (SftpFileInfo ι) → Lister (SftpFileInfo ι) → Prop
  | disk (l : Slice ι) : ListerFor κ (l.elems.map SftpFileInfo.mk) (listAt l)
  | hdfs (files : Slice ι) :
      ListerFor κ (files.elems.map SftpFileInfo.mk)
        (Hh.listAt (files.map .hdfs : Slice (Hh.OsFileInfo ι κ)))

theorem ListerFor.pages {ι κ : Type} {entries : List (SftpFileInfo ι)}
    {lister : Lister (SftpFileInfo ι)} (lists : ListerFor κ entries lister) :
    Pages entries lister := by
  cases lists with
  | disk l => exact pages_listAt l
  | hdfs files => exact pages_hdfs_listAt files

/-- With whatever buffers, a listing is read once, in order and without a
panic, and only its end is answered without entries.  The two listers return
the same counts and errors, and the request server passes all this on. -/
theorem listing_in_batches {ι κ : Type} {entries : List (SftpFileInfo ι)}
    {lister : Lister (SftpFileInfo ι)} (lists : ListerFor κ entries lister) :
    (∀ bufs, (∀ f ∈ bufs, 1 ≤ f.len) →
        ∃ calls, listRun lister bufs 0 = some calls ∧ InBatches entries bufs calls) ∧
      (∀ (γ : Type) (others : List (SftpFileInfo γ)) other,
        ListerFor κ others other → entries.length = others.length →
          ∀ (f : Slice _) (g : Slice _) (offset : Int), f.len = g.len →
            (lister f offset).map (fun call => (call.n, call.err)) =
              (other g offset).map fun call => (call.n, call.err)) ∧
      ∀ sizes : List Nat, (∀ size ∈ sizes, 1 ≤ size ∧ 16 * size < 2 ^ 63) →
          filelists (sizes.map Nat.cast) ⟨.list, some lister, 0⟩ =
            some (answers entries sizes) := by
  refine ⟨?_, ?_, ?_⟩
  · intro bufs nonempty
    obtain ⟨calls, run, all⟩ := lists.pages.run nonempty (Nat.zero_le _)
    exact ⟨calls, run, all.inBatches nonempty⟩
  · intro γ others other otherLists same f g offset buffers
    exact lists.pages.same otherLists.pages same buffers offset
  · intro sizes good
    exact filelists_eq lists.pages good (Nat.zero_le _)

def threeFiles : Slice Nat := ⟨[7, 8, 9], by decide⟩

def emptyBuffer (size : Nat) (fits : 16 * size < 2 ^ 63) : Slice (Option (SftpFileInfo Nat)) :=
  ⟨List.replicate size none, by rwa [List.length_replicate]⟩

/-- Three entries fill a buffer of two and one of one exactly, so that only
the third call reports the end. -/
theorem three_files_in_batches :
    (∃ calls,
        listRun (listAt threeFiles)
            [emptyBuffer 2 (by decide), emptyBuffer 1 (by decide),
              emptyBuffer 4 (by decide)] 0 = some calls ∧
          calls.flatMap ListCall.entries = [some ⟨7⟩, some ⟨8⟩, some ⟨9⟩]) ∧
      filelists [2, 1, 4]
          ⟨.list, some (Hh.listAt (threeFiles.map .hdfs : Slice (Hh.OsFileInfo Nat Nat))), 0⟩ =
        some [.names [⟨7⟩, ⟨8⟩], .names [⟨9⟩], .status .eof] := by
  obtain ⟨onDisk, _, _⟩ := listing_in_batches (.disk (κ := Nat) threeFiles)
  obtain ⟨_, _, served⟩ := listing_in_batches (.hdfs (κ := Nat) threeFiles)
  obtain ⟨calls, run, batches⟩ :=
    onDisk [emptyBuffer 2 (by decide), emptyBuffer 1 (by decide),
      emptyBuffer 4 (by decide)] (by decide)
  exact ⟨⟨calls, run, batches.inOrder⟩, served [2, 1, 4] (by decide)⟩

end Sshserv.Sftp
