import Sshserv.Serv.ScpSession

/-!
# The data phase of an upload

`getUploadFileData` reads the data in whatever pieces the channel delivers and
writes each piece behind the one before.  Nothing that comes of it depends on
the pieces.
-/

namespace Sshserv.Serv

open Lib UnixPath FileTree FileSys DataProvider

/-! ## The pieces -/

/-- The reads of the loop of `getUploadFileData`: the pieces, the channel after
them, and whether all of them have arrived. -/
def readPieces : Nat → Int → Nat → Channel → List (List Char) × Channel × Bool
  | 0, _, _, ch => ([], ch, false)
  | fuel + 1, remaining, bufLen, ch =>
    match ch.read bufLen with
    | none => ([], ch, false)
    | some (buf, ch) =>
      let left := remaining - buf.length
      if left ≤ 0 then ([buf], ch, true)
      else
        let (more, ch, ok) :=
          readPieces fuel left (if left < bufLen then left.toNat else bufLen) ch
        (buf :: more, ch, ok)

/-- The pieces of the data phase on a channel whose client has been told to
send. -/
def uploadPieces (ch : Channel) (sizeToRead : Int) : List (List Char) × Channel × Bool :=
  if sizeToRead > 0 then
    readPieces (ch.pending + 1) sizeToRead (min 32768 sizeToRead.toNat) ch
  else ([], ch, true)

/-- The calls of `WriteAt` for pieces that are written one after the other:
the offset and the bytes. -/
def callsFrom : Int → List (List Char) → List (Int × List Char)
  | _, [] => []
  | off, p :: rest => (off, p) :: callsFrom (off + p.length) rest

/-- The offsets that a call covers, each with its byte. -/
def cells (call : Int × List Char) : List (Int × Char) :=
  call.2.zipIdx.map fun cell => (call.1 + cell.2, cell.1)

theorem cells_append (off : Int) (left right : List Char) :
    cells (off, left ++ right) = cells (off, left) ++ cells (off + left.length, right) := by
  simp only [cells, List.zipIdx_append, List.map_append, Nat.zero_add]
  congr 1
  rw [List.zipIdx_eq_map_add]
  simp only [List.map_map]
  apply List.map_congr_left
  rintro ⟨c, i⟩ _
  simp only [Function.comp_apply, Prod.mk.injEq, and_true]
  push_cast
  omega

theorem cells_callsFrom (pieces : List (List Char)) :
    ∀ off, (callsFrom off pieces).flatMap cells = cells (off, pieces.flatten) := by
  induction pieces with
  | nil =>
    intro off
    rfl
  | cons p rest ih =>
    intro off
    rw [callsFrom, List.flatMap_cons, ih, List.flatten_cons, cells_append]

section Loop

variable (settings : Settings) (os : Os) (ref : Nat)

/-- The loop writes the pieces, and closes the transfer if one is missing. -/
theorem receive_eq (sizeToRead : Int) (fuel : Nat) :
    ∀ (index : Nat) (remaining : Int) (bufLen : Nat) (w : World)
      (ch : Channel),
      receive settings os ref sizeToRead fuel index remaining bufLen w ch =
        match readPieces fuel remaining bufLen ch with
        | (pieces, next, true) =>
          ⟨Transfer.writeAll os ref index (sizeToRead - remaining) pieces w,
            next, pieces.flatten.length, true⟩
        | (pieces, next, false) =>
          ⟨(Transfer.close settings os
              (Transfer.writeAll os ref index (sizeToRead - remaining) pieces w) ref).1,
            next.sendErrorMessage eofText, pieces.flatten.length, false⟩ := by
  induction fuel with
  | zero =>
    intro index remaining bufLen w ch
    rfl
  | succ fuel ih =>
    intro index remaining bufLen w ch
    rw [receive, readPieces]
    cases read : ch.read bufLen with
    | none => rfl
    | some result =>
      obtain ⟨buf, next⟩ := result
      simp only
      split
      · simp [Transfer.writeAll]
      · rw [ih]
        have offset :
            sizeToRead - (remaining - (buf.length : Int)) =
              sizeToRead - remaining + buf.length := by
          omega
        rw [offset]
        rcases readPieces fuel (remaining - buf.length)
          (if remaining - (buf.length : Int) < bufLen then
            (remaining - buf.length).toNat else bufLen) next with
          ⟨pieces, last, _ | _⟩
        · simp [Transfer.writeAll]
        · simp [Transfer.writeAll]

theorem getUploadFileData_eq (w : World) {ch ready : Channel} (sizeToRead : Int)
    (answered : ch.sendConfirmationMessage = (ready, true)) :
    getUploadFileData settings os w ch sizeToRead ref =
      match uploadPieces ready sizeToRead with
      | (pieces, next, true) =>
        ⟨finishUpload settings os (Transfer.writeAll os ref 0 0 pieces w) next
            ref, pieces.flatten.length⟩
      | (pieces, next, false) =>
        ⟨⟨(Transfer.close settings os (Transfer.writeAll os ref 0 0 pieces w) ref).1,
            next.sendErrorMessage eofText, .failed eofText⟩,
          pieces.flatten.length⟩ := by
  simp only [getUploadFileData, answered, uploadPieces]
  by_cases data : sizeToRead > 0
  · rw [if_pos data, if_pos data, receive_eq, Int.sub_self]
    rcases readPieces (ready.pending + 1) sizeToRead
      (min 32768 sizeToRead.toNat) ready with ⟨pieces, next, _ | _⟩
    · rfl
    · rfl
  · rw [if_neg data, if_neg data]
    rfl

end Loop

theorem readPieces_enough (fuel : Nat) :
    ∀ (remaining bufLen : Nat) (ch : Channel), 0 < bufLen →
      bufLen ≤ remaining → remaining ≤ ch.pending → remaining ≤ fuel →
      ∃ pieces next, readPieces fuel remaining bufLen ch = (pieces, next, true) ∧
          Channel.Reads ch next pieces.flatten ∧
          pieces.flatten.length = remaining ∧ ∀ p ∈ pieces, p ≠ [] := by
  induction fuel with
  | zero =>
    intro remaining bufLen ch room small enough fueled
    omega
  | succ fuel ih =>
    intro remaining bufLen ch room small enough fueled
    have filled : ch.bytes ≠ [] := by
      rw [← List.length_pos_iff, ← Channel.pending_eq_length]
      omega
    obtain ⟨taken, after, read, takenSome⟩ := Channel.read_of_bytes ch room filled
    obtain ⟨reads, short⟩ := Channel.read_eq_some read
    have positive : 0 < taken.length := List.length_pos_iff.mpr takenSome
    have lengths := congrArg List.length reads.rest
    rw [List.length_append, ← Channel.pending_eq_length, ← Channel.pending_eq_length] at lengths
    rw [readPieces, read]
    simp only
    by_cases done : (remaining : Int) - taken.length ≤ 0
    · rw [if_pos done]
      refine ⟨[taken], after, rfl, by simpa using reads, ?_, by simpa⟩
      rw [List.flatten_singleton]
      omega
    · rw [if_neg done]
      have left : (remaining : Int) - taken.length = ((remaining - taken.length : Nat) : Int) := by
        omega
      rw [left] at done ⊢
      obtain ⟨pieces, next, rest, more, size, each⟩ :=
        ih (remaining - taken.length)
          (if ((remaining - taken.length : Nat) : Int) < bufLen then
            ((remaining - taken.length : Nat) : Int).toNat else bufLen)
          after (by split <;> omega) (by split <;> omega) (by omega)
          (by omega)
      rw [rest]
      refine ⟨taken :: pieces, next, rfl, ?_, ?_, ?_⟩
      · rw [List.flatten_cons]
        exact reads.trans more
      · rw [List.flatten_cons, List.length_append]
        omega
      · intro p member
        rcases List.mem_cons.mp member with rfl | later
        · exact takenSome
        · exact each p later

variable {ch next : Channel} {p : List Char} {settings : Settings} {os : Os} {w : World} {ref : Nat}

theorem uploadPieces_enough {n : Nat} (enough : n ≤ ch.pending) :
    ∃ pieces next, uploadPieces ch n = (pieces, next, true) ∧
        Channel.Reads ch next pieces.flatten ∧
        pieces.flatten = ch.bytes.take n ∧ ∀ p ∈ pieces, p ≠ [] := by
  rcases Nat.eq_zero_or_pos n with rfl | positive
  · exact ⟨[], ch, rfl, Channel.Reads.refl ch, by simp, by simp⟩
  · obtain ⟨pieces, next, read, reads, size, each⟩ :=
      readPieces_enough (ch.pending + 1) n (min 32768 n) ch (by omega)
        (by omega) enough (by omega)
    refine ⟨pieces, next, ?_, reads, ?_, each⟩
    · rw [uploadPieces, if_pos (by omega)]
      exact read
    · rw [reads.rest, ← size, List.take_left]

/-! ## The same bytes in other pieces -/

namespace Channel

/-- The channels differ only in the way in which they deliver the bytes. -/
structure Alike (ch other : Channel) : Prop where
  bytes : other.bytes = ch.bytes
  same : other = { ch with input := other.input }

namespace Alike

variable {ch other : Channel}

theorem pending (alike : Alike ch other) : other.pending = ch.pending := by
  rw [pending_eq_length, pending_eq_length, alike.bytes]

theorem write (alike : Alike ch other) (message : List Char) :
    Alike (ch.write message).1 (other.write message).1 ∧
      (other.write message).2 = (ch.write message).2 := by
  obtain ⟨bytes, same⟩ := alike
  rw [same]
  unfold Channel.write
  dsimp only
  split
  · exact ⟨⟨bytes, rfl⟩, rfl⟩
  · rcases ch.writeOks with _ | ⟨_ | _, rest⟩
    · exact ⟨⟨bytes, rfl⟩, rfl⟩
    · exact ⟨⟨bytes, rfl⟩, rfl⟩
    · exact ⟨⟨bytes, rfl⟩, rfl⟩

theorem close (alike : Alike ch other) : Alike ch.close other.close := by
  refine ⟨alike.bytes, ?_⟩
  rw [alike.same]
  rfl

theorem sendErrorMessage (alike : Alike ch other) (text : Str) :
    Alike (ch.sendErrorMessage text) (other.sendErrorMessage text) :=
  (((alike.write errMsg).1.write text).1.write newLine).1.close

theorem sendConfirmationMessage (alike : Alike ch other) :
    Alike ch.sendConfirmationMessage.1 other.sendConfirmationMessage.1 ∧
      other.sendConfirmationMessage.2 = ch.sendConfirmationMessage.2 := by
  obtain ⟨kept, same⟩ := alike.write okMsg
  unfold Channel.sendConfirmationMessage sendProtocolMessage
  rcases mine : ch.write okMsg with ⟨next, _ | _⟩
  · rcases theirs : other.write okMsg with ⟨after, _ | _⟩
    · rw [mine, theirs] at kept
      exact ⟨kept.close, rfl⟩
    · rw [mine, theirs] at same
      cases same
  · rcases theirs : other.write okMsg with ⟨after, _ | _⟩
    · rw [mine, theirs] at same
      cases same
    · rw [mine, theirs] at kept
      exact ⟨kept, rfl⟩

theorem after (alike : Alike ch other) {next last : Channel} {taken : List Char}
    (reads : Reads ch next taken) (others : Reads other last taken) :
    Alike next last := by
  constructor
  · have whole := alike.bytes
    rw [reads.rest, others.rest] at whole
    exact List.append_cancel_left whole
  · rw [others.same, alike.same, reads.same]

theorem readLine (fuel : Nat) :
    ∀ {ch other : Channel}, Alike ch other →
      (Channel.readLine fuel other).1 = (Channel.readLine fuel ch).1 ∧
        Alike (Channel.readLine fuel ch).2.1 (Channel.readLine fuel other).2.1 ∧
        (Channel.readLine fuel other).2.2 = (Channel.readLine fuel ch).2.2 := by
  induction fuel with
  | zero =>
    intro ch other alike
    exact ⟨rfl, alike, rfl⟩
  | succ fuel ih =>
    intro ch other alike
    rw [Channel.readLine, Channel.readLine]
    rcases sent : ch.bytes with _ | ⟨first, rest⟩
    · rw [read_eq_none_iff.mpr sent, read_eq_none_iff.mpr (alike.bytes.trans sent)]
      exact ⟨rfl, alike, rfl⟩
    · obtain ⟨next, read, reads⟩ := read_one sent
      obtain ⟨last, readOther, readsOther⟩ := read_one (alike.bytes.trans sent)
      rw [read, readOther]
      have kept := alike.after reads readsOther
      simp only
      split
      · exact ⟨rfl, kept, rfl⟩
      · obtain ⟨line, still, ended⟩ := ih kept
        exact ⟨by rw [line], still, ended⟩

theorem readConfirmationMessage (alike : Alike ch other) :
    Alike ch.readConfirmationMessage.1 other.readConfirmationMessage.1 ∧
      other.readConfirmationMessage.2 = ch.readConfirmationMessage.2 := by
  unfold Channel.readConfirmationMessage
  rcases sent : ch.bytes with _ | ⟨first, rest⟩
  · rw [read_eq_none_iff.mpr sent, read_eq_none_iff.mpr (alike.bytes.trans sent)]
    exact ⟨alike.close, rfl⟩
  · obtain ⟨next, read, reads⟩ := read_one sent
    obtain ⟨last, readOther, readsOther⟩ := read_one (alike.bytes.trans sent)
    rw [read, readOther]
    have kept := alike.after reads readsOther
    simp only
    split
    · rw [kept.pending]
      obtain ⟨line, still, _⟩ := readLine (next.pending + 1) kept
      exact ⟨still.close, by rw [line]⟩
    · exact ⟨kept, rfl⟩

end Alike

end Channel

/-! ## Worlds after the same bytes -/

namespace World

/-- The worlds differ only in the record of the trees between the system
calls. -/
def SameEnd (w other : World) : Prop :=
  ∃ moments, other = { w with moments := moments }

namespace SameEnd

variable {w other : World}

theorem refl (w : World) : SameEnd w w := ⟨w.moments, rfl⟩

theorem symm (same : SameEnd w other) : SameEnd other w := by
  obtain ⟨moments, rfl⟩ := same
  exact ⟨w.moments, rfl⟩

theorem trans {first second third : World} (left : SameEnd first second)
    (right : SameEnd second third) : SameEnd first third := by
  obtain ⟨_, rfl⟩ := left
  obtain ⟨moments, rfl⟩ := right
  exact ⟨moments, rfl⟩

theorem setTransfer (same : SameEnd w other) (ref : Nat) (t : Transfer) :
    SameEnd (w.setTransfer ref t) (other.setTransfer ref t) := by
  obtain ⟨moments, rfl⟩ := same
  exact ⟨moments, rfl⟩

theorem closed (same : SameEnd w other) (ref : Nat) :
    SameEnd ((w.addClose ref).removeTransfer ref) ((other.addClose ref).removeTransfer ref) := by
  obtain ⟨moments, rfl⟩ := same
  exact ⟨moments, rfl⟩

theorem updateUserQuota (same : SameEnd w other) (settings : Settings)
    (fault : Option ProviderError) (user : User) (filesAdd sizeAdd : Int) :
    SameEnd (w.updateUserQuota settings fault user filesAdd sizeAdd)
      (other.updateUserQuota settings fault user filesAdd sizeAdd) := by
  obtain ⟨moments, rfl⟩ := same
  refine ⟨moments, ?_⟩
  unfold World.updateUserQuota World.addUsed
  split
  · dsimp only
    split
    · rfl
    · rfl
  · rfl

end SameEnd

end World

namespace Transfer

variable {w other : World}

theorem writeAt_sameEnd (same : w.SameEnd other) (os : Os) (index ref : Nat) (p : List Char)
    (off : Int) :
    (writeAt os index w ref p off).1.SameEnd (writeAt os index other ref p off).1 := by
  obtain ⟨moments, rfl⟩ := same
  unfold writeAt
  dsimp only
  cases w.transfers ref with
  | none => exact ⟨moments, rfl⟩
  | some t =>
    dsimp only
    cases w.fs.writeAt t.file (os.written index p) off os.now with
    | error err => exact ⟨moments, rfl⟩
    | ok fs => exact ⟨fs :: moments, rfl⟩

theorem writeAll_sameEnd (os : Os) (ref : Nat) (pieces : List (List Char)) :
    ∀ {w other : World}, w.SameEnd other → ∀ (index : Nat) (off : Int),
      (writeAll os ref index off pieces w).SameEnd (writeAll os ref index off pieces other) := by
  induction pieces with
  | nil =>
    intro w other same index off
    exact same
  | cons p rest ih =>
    intro w other same index off
    exact ih (writeAt_sameEnd same os index ref p off) _ _

theorem settle_sameEnd (same : w.SameEnd other) (os : Os) (t : Transfer) :
    (settle os w t).1.SameEnd (settle os other t).1 := by
  obtain ⟨moments, rfl⟩ := same
  unfold settle
  split
  · dsimp only
    split
    · exact ⟨_, rfl⟩
    · exact ⟨moments, rfl⟩
  · exact ⟨moments, rfl⟩

theorem close_sameEnd (same : w.SameEnd other) (settings : Settings) (os : Os) (ref : Nat) :
    (close settings os w ref).1.SameEnd (close settings os other ref).1 := by
  have transfers : other.transfers = w.transfers := by
    obtain ⟨moments, rfl⟩ := same
    rfl
  unfold close
  rw [transfers]
  cases w.transfers ref with
  | none => exact same
  | some t =>
    have settled :=
      (settle_sameEnd (same.setTransfer ref { t with file := t.file.closed }) os t).closed ref
    dsimp only [account]
    split
    · exact settled.updateUserQuota settings _ _ _ _
    · exact settled

end Transfer

/-! ## Writes that do not fail -/

theorem writeBytes_writeBytes (old : List Char) (offset : Nat) (filled : p ≠ []) (q : List Char) :
    writeBytes (writeBytes old offset p) (offset + p.length) q =
      writeBytes old offset (p ++ q) := by
  by_cases empty : q = []
  · simp [writeBytes, empty]
  · have head :
        ((old ++ List.replicate (offset - old.length) (Char.ofNat 0)).take
          offset).length = offset := by
      simp
      omega
    simp only [writeBytes, filled, empty, if_false, List.append_eq_nil_iff, false_and]
    generalize
      (old ++ List.replicate (offset - old.length) (Char.ofNat 0)).take offset = start at head
    have inside : offset + p.length = (start ++ p).length := by
      rw [List.length_append, head]
    have padded :
        ((start ++ p ++ old.drop (offset + p.length)) ++
          List.replicate
            (offset + p.length - (start ++ p ++ old.drop (offset + p.length)).length)
            (Char.ofNat 0)).take (offset + p.length) = start ++ p := by
      rw [List.append_assoc, inside, List.take_left]
    have tail :
        (start ++ p ++ old.drop (offset + p.length)).drop
          (offset + p.length + q.length) = old.drop (offset + (p ++ q).length) := by
      rw [← List.drop_drop, inside, List.drop_left, List.drop_drop, ← inside,
        List.length_append, Nat.add_assoc]
    rw [padded, tail]
    simp

/-- Writing through a handle succeeds at every offset or at none. -/
theorem writesIno_or_error (handle : Handle) :
    (∃ ino, WritesIno handle ino) ∨
      ∃ err, ∀ (fs : FileSys) (bytes : List Char) (off now : Int), 0 ≤ off →
        fs.writeAt handle bytes off now = .error err := by
  by_cases append : handle.append = true
  · exact Or.inr ⟨.inval, fun fs bytes off now _ => by
      simp [FileSys.writeAt, append]⟩
  · cases ino : handle.ino with
    | none =>
      refine Or.inr ⟨.badf, fun fs bytes off now natural => ?_⟩
      have natural : ¬ off < 0 := by omega
      simp [FileSys.writeAt, append, natural, ino]
    | some ino' =>
      by_cases usable : (handle.isOpen && handle.writable) = true
      · rw [Bool.and_eq_true] at usable
        exact Or.inl ⟨ino', ino, usable.1, usable.2, by simpa using append⟩
      · refine Or.inr ⟨.badf, fun fs bytes off now natural => ?_⟩
        have natural : ¬ off < 0 := by omega
        simp only [Bool.not_eq_true] at usable
        simp [FileSys.writeAt, append, natural, ino, usable]

def putBytes (fs : FileSys) (ino offset : Nat) (bytes : List Char) (now : Int) : FileSys :=
  fs.setInode ino
    ⟨writeBytes (fs.inode ino).data offset bytes, { (fs.inode ino).attr with mtime := now }⟩

theorem putBytes_putBytes
    (fs : FileSys) (ino offset : Nat) (filled : p ≠ []) (q : List Char) (now : Int) :
    putBytes (putBytes fs ino offset p now) ino (offset + p.length) q now =
      putBytes fs ino offset (p ++ q) now := by
  have own :
      (putBytes fs ino offset p now).inode ino =
        ⟨writeBytes (fs.inode ino).data offset p, { (fs.inode ino).attr with mtime := now }⟩ :=
    if_pos rfl
  rw [putBytes, own, writeBytes_writeBytes _ _ filled]
  simp only [putBytes, setInode, mk.injEq, true_and, and_true]
  funext other
  by_cases same : other = ino
  · simp [same]
  · simp [same]

theorem WritesIno.writeAt {handle : Handle} {ino : Nat} (writes : WritesIno handle ino)
    (fs : FileSys) (bytes : List Char) {off : Int} (natural : 0 ≤ off) (now : Int) :
    fs.writeAt handle bytes off now = .ok (putBytes fs ino off.toNat bytes now) := by
  have natural : ¬ off < 0 := by omega
  simp only [FileSys.writeAt, writes.append, Bool.false_eq_true, if_false, natural, writes.ino,
    writes.isOpen, writes.writable, Bool.and_self, putBytes]

theorem World.setTransfer_own (w : World) (ref : Nat) (t : Transfer) :
    (w.setTransfer ref t).transfers ref = some t :=
  if_pos rfl

theorem World.setTransfer_setFs (w : World) (ref : Nat) (t : Transfer) (fs : FileSys) :
    (w.setTransfer ref t).setFs fs = (w.setFs fs).setTransfer ref t := rfl

theorem World.setTransfer_setTransfer (w : World) (ref : Nat) (first second : Transfer) :
    (w.setTransfer ref first).setTransfer ref second = w.setTransfer ref second := by
  simp only [World.setTransfer, World.mk.injEq, true_and, and_true]
  funext other
  by_cases same : other = ref
  · simp [same]
  · simp [same]

namespace Transfer

def progressed (t : Transfer) (now : Int) (count : Nat) : Transfer :=
  { t with
    lastActivity := now
    bytesReceived := t.bytesReceived + count }

theorem progressed_progressed (t : Transfer) (now : Int) (first second : Nat) :
    (t.progressed now first).progressed now second = t.progressed now (first + second) := by
  simp only [progressed]
  rw [Int.add_assoc]
  push_cast
  rfl

section Calls

variable {os : Os} {w : World} {ref : Nat} {t : Transfer} (entry : w.transfers ref = some t)
include entry

theorem writeAt_error {err : Errno} {p : List Char} {off : Int} {index : Nat}
    (fails : w.fs.writeAt t.file (os.written index p) off os.now = .error err) :
    writeAt os index w ref p off =
      (w.setTransfer ref { t with lastActivity := os.now }, 0, some err) := by
  simp only [writeAt, entry, fails]

theorem writeAt_writes {ino : Nat} (writes : WritesIno t.file ino) {index : Nat}
    (quiet : os.writeAt index = none) (p : List Char) {off : Int} (natural : 0 ≤ off) :
    writeAt os index w ref p off =
      ((w.setFs (putBytes w.fs ino off.toNat p os.now)).setTransfer ref
          (t.progressed os.now p.length),
        p.length, none) := by
  have written : os.written index p = p := by
    simp [Os.written, quiet]
  simp only [writeAt, entry, written, writes.writeAt _ _ natural, quiet, Option.map_none]
  rfl

end Calls

section Quiet

variable {os : Os} (quiet : ∀ index, os.writeAt index = none)
include quiet

theorem writeAt_writeAt (index : Nat) (w : World) (ref : Nat) {p : List Char} (filled : p ≠ [])
    (q : List Char) {off : Int} (natural : 0 ≤ off) :
    (writeAt os index w ref (p ++ q) off).1.SameEnd
      (writeAt os (index + 1) (writeAt os index w ref p off).1 ref q (off + p.length)).1 := by
  have later : 0 ≤ off + (p.length : Int) := by omega
  cases entry : w.transfers ref with
  | none =>
    simp only [writeAt, entry]
    exact World.SameEnd.refl w
  | some t =>
    rcases writesIno_or_error t.file with ⟨ino, writes⟩ | ⟨err, fails⟩
    · have offsets : (off + (p.length : Int)).toNat = off.toNat + p.length := by
        omega
      have stillWrites : WritesIno (t.progressed os.now p.length).file ino := writes
      rw [writeAt_writes entry writes (quiet index) (p ++ q) natural,
        writeAt_writes entry writes (quiet index) p natural,
        writeAt_writes (World.setTransfer_own _ ref _) stillWrites (quiet (index + 1)) q later,
        progressed_progressed, offsets, ← putBytes_putBytes _ _ _ filled, List.length_append,
        World.setTransfer_setFs, World.setTransfer_setTransfer]
      exact World.SameEnd.setTransfer ⟨_, rfl⟩ ref _
    · rw [writeAt_error entry (fails _ _ _ _ natural), writeAt_error entry (fails _ _ _ _ natural)]
      have still :
          (w.setTransfer ref { t with lastActivity := os.now }).fs.writeAt
              ({ t with lastActivity := os.now } : Transfer).file
              (os.written (index + 1) q) (off + p.length) os.now =
            .error err :=
        fails _ _ _ _ later
      have second := writeAt_error (World.setTransfer_own w ref _) still
      rw [second, World.setTransfer_setTransfer]
      exact World.SameEnd.refl _

/-- Pieces that are written one behind the other are one call. -/
theorem writeAll_once {ref : Nat} (rest : List (List Char)) :
    ∀ (index : Nat) (w : World) {p : List Char} {off : Int}, p ≠ [] → 0 ≤ off →
      (writeAt os 0 w ref (p ++ rest.flatten) off).1.SameEnd
        (writeAll os ref (index + 1) (off + p.length) rest (writeAt os index w ref p off).1) := by
  induction rest with
  | nil =>
    intro index w p off filled natural
    rw [List.flatten_nil, List.append_nil, writeAll]
    have same : writeAt os 0 w ref p off = writeAt os index w ref p off := by
      simp only [writeAt, Os.written, quiet]
    rw [same]
    exact World.SameEnd.refl _
  | cons q rest ih =>
    intro index w p off filled natural
    have joined := ih (index + 1) w (List.append_ne_nil_of_left_ne_nil filled q) natural
    have length : off + ((p ++ q).length : Int) = off + p.length + q.length := by
      rw [List.length_append]
      push_cast
      omega
    have indices :
        writeAt os (index + 1) w ref (p ++ q) off = writeAt os index w ref (p ++ q) off := by
      simp only [writeAt, Os.written, quiet]
    rw [List.append_assoc, length, indices] at joined
    rw [List.flatten_cons, writeAll]
    exact joined.trans (writeAll_sameEnd os ref rest
      (writeAt_writeAt quiet index w ref filled q natural) _ _)

theorem writeAll_pieces {ref : Nat} {pieces others : List (List Char)}
    (same : others.flatten = pieces.flatten) (each : ∀ p ∈ pieces, p ≠ [])
    (eachOther : ∀ p ∈ others, p ≠ []) (w : World) :
    (writeAll os ref 0 0 pieces w).SameEnd (writeAll os ref 0 0 others w) := by
  have once :
      ∀ list : List (List Char), (∀ p ∈ list, p ≠ []) → list.flatten ≠ [] →
        (writeAt os 0 w ref list.flatten 0).1.SameEnd (writeAll os ref 0 0 list w) := by
    intro list nonempty filled
    cases list with
    | nil => exact absurd rfl filled
    | cons p rest => exact writeAll_once quiet rest 0 w (nonempty p (by simp)) le_rfl
  by_cases empty : pieces.flatten = []
  · have nothing :
        ∀ list : List (List Char), (∀ p ∈ list, p ≠ []) → list.flatten = [] → list = [] := by
      intro list nonempty flat
      rcases list with _ | ⟨p, rest⟩
      · rfl
      · rw [List.flatten_cons, List.append_eq_nil_iff] at flat
        exact absurd flat.1 (nonempty p (by simp))
    rw [nothing pieces each empty, nothing others eachOther (same.trans empty)]
    exact World.SameEnd.refl _
  · have left := once pieces each empty
    have right := once others eachOther (by rwa [same])
    rw [same] at right
    exact left.symm.trans right

end Quiet

end Transfer

/-! ## The end of the data phase -/

section Ending

variable (settings : Settings) (os : Os)

theorem settle_error_sameShape {w other : World} (shape : SameShape w.fs other.fs)
    {t t' : Transfer} (file : t'.file.name = t.file.name)
    (path : t'.path = t.path) (kind : t'.transferType = t.transferType) :
    (Transfer.settle os other t').2 = (Transfer.settle os w t).2 := by
  unfold Transfer.settle
  rw [file, path, kind]
  split
  · have same := shape.rename_error_iff t.file.name t.path
    cases os.closeRename with
    | some err => rfl
    | none =>
      simp only [orFault]
      cases mine : w.fs.rename t.file.name t.path with
      | error err => rw [(same err).mpr mine]
      | ok fs =>
        cases theirs : other.fs.rename t.file.name t.path with
        | ok _ => rfl
        | error err =>
          rw [(same err).mp theirs] at mine
          cases mine
  · rfl

theorem close_error_writeAll (w : World) (ref index : Nat) (off : Int) (pieces : List (List Char)) :
    (Transfer.close settings os (Transfer.writeAll os ref index off pieces w)
        ref).2 = (Transfer.close settings os w ref).2 := by
  induction pieces generalizing w index off with
  | nil => rfl
  | cons p rest ih =>
    rw [Transfer.writeAll, ih]
    have wrote := wrote_writeAt os index w ref p off
    cases entry : w.transfers ref with
    | none => simp only [Transfer.writeAt, Transfer.close, entry]
    | some t =>
      obtain ⟨received, activity, own⟩ := (wrote.own t entry).1
      simp only [Transfer.close, entry, own]
      apply settle_error_sameShape os
      · exact sameShape_of_node wrote.node
      · rfl
      · rfl
      · rfl

theorem finishUpload_alike {w other : World} {ch last : Channel} (alike : ch.Alike last) {ref : Nat}
    (closes : (Transfer.close settings os other ref).2 = (Transfer.close settings os w ref).2) :
    (finishUpload settings os other last ref).result = (finishUpload settings os w ch ref).result ∧
      (finishUpload settings os w ch ref).channel.Alike
        (finishUpload settings os other last ref).channel := by
  obtain ⟨status, same⟩ := alike.readConfirmationMessage
  unfold finishUpload
  rcases mine : ch.readConfirmationMessage with ⟨next, answer⟩
  rcases theirs : last.readConfirmationMessage with ⟨after, answerOther⟩
  rw [mine, theirs] at same status
  dsimp only at same status
  subst same
  cases answerOther with
  | some err => exact ⟨rfl, status⟩
  | none =>
    dsimp only
    rcases one : Transfer.close settings os w ref with ⟨closed, result⟩
    rcases two : Transfer.close settings os other ref with
      ⟨closedOther, resultOther⟩
    rw [one, two] at closes
    obtain rfl : resultOther = result := closes
    cases resultOther with
    | some err => exact ⟨rfl, status.sendErrorMessage _⟩
    | none =>
      obtain ⟨answered, sent⟩ := status.sendConfirmationMessage
      dsimp only
      rcases first : next.sendConfirmationMessage with ⟨told, ok⟩
      rcases second : after.sendConfirmationMessage with ⟨toldOther, okOther⟩
      rw [first, second] at answered sent
      dsimp only at answered sent
      subst sent
      cases okOther with
      | true => exact ⟨rfl, answered⟩
      | false => exact ⟨rfl, answered⟩

end Ending

/-! ## Alignment -/

/-- What the data phase does with a stream of at least `n` bytes.

* If the client cannot be told to send, nothing is read and nothing is
  written.
* Else exactly `n` bytes are read before the status of the client, and the
  calls of `WriteAt` cover the offsets from 0 to `n - 1` in order, each with
  its byte.
* On any other channel that delivers the same bytes, the calls cover the same
  cells, the result and the rest of the stream are the same, and, unless a
  write fails, the same world is left. -/
structure Aligned (settings : Settings) (os : Os) (w : World) (ref : Nat)
    (n : Nat) (ch : Channel) : Prop where
  untold :
    ∀ ready, ch.sendConfirmationMessage = (ready, false) →
      getUploadFileData settings os w ch n ref =
          ⟨⟨(Transfer.close settings os w ref).1, ready, .failed eofText⟩, 0⟩ ∧
        ready.bytes = ch.bytes
  told :
    ∀ ready, ch.sendConfirmationMessage = (ready, true) →
      ∃ pieces next, uploadPieces ready n = (pieces, next, true) ∧
          getUploadFileData settings os w ch n ref =
            ⟨finishUpload settings os (Transfer.writeAll os ref 0 0 pieces w) next ref, n⟩ ∧
          ch.bytes = ch.bytes.take n ++ next.bytes ∧
          (callsFrom 0 pieces).flatMap cells = cells (0, ch.bytes.take n)
  anySplit :
    ∀ other, ch.Alike other →
      (getUploadFileData settings os w other n ref).result =
          (getUploadFileData settings os w ch n ref).result ∧
        (getUploadFileData settings os w ch n ref).channel.Alike
          (getUploadFileData settings os w other n ref).channel ∧
        ((∀ index, os.writeAt index = none) →
          (getUploadFileData settings os w ch n ref).world.SameEnd
            (getUploadFileData settings os w other n ref).world)

section Aligned

variable (settings : Settings) (os : Os) (w : World) (ref : Nat) {n : Nat} {ch : Channel}

theorem getUploadFileData_untold {ready : Channel} (sizeToRead : Int)
    (untold : ch.sendConfirmationMessage = (ready, false)) :
    getUploadFileData settings os w ch sizeToRead ref =
      ⟨⟨(Transfer.close settings os w ref).1, ready, .failed eofText⟩, 0⟩ := by
  simp only [getUploadFileData, untold]

theorem bytes_sendConfirmationMessage (ch : Channel) :
    ch.sendConfirmationMessage.1.bytes = ch.bytes := by
  unfold Channel.bytes
  rw [ch.sendConfirmationMessage_input]

theorem told_pieces (enough : n ≤ ch.pending) {ready : Channel}
    (told : ch.sendConfirmationMessage = (ready, true)) :
    ∃ pieces next, uploadPieces ready n = (pieces, next, true) ∧
        getUploadFileData settings os w ch n ref =
          ⟨finishUpload settings os (Transfer.writeAll os ref 0 0 pieces w) next ref, n⟩ ∧
        Channel.Reads ready next pieces.flatten ∧
        pieces.flatten = ch.bytes.take n ∧ ∀ p ∈ pieces, p ≠ [] := by
  have same := bytes_sendConfirmationMessage ch
  rw [told] at same
  have waiting : n ≤ ready.pending := by
    rw [Channel.pending_eq_length, same, ← Channel.pending_eq_length]
    exact enough
  obtain ⟨pieces, next, read, reads, flat, each⟩ := uploadPieces_enough waiting
  rw [same] at flat
  have size : pieces.flatten.length = n := by
    rw [flat, List.length_take, ← Channel.pending_eq_length]
    omega
  refine ⟨pieces, next, read, ?_, reads, flat, each⟩
  rw [getUploadFileData_eq settings os ref w n told, read]
  simp only [size]

theorem told_anySplit (enough : n ≤ ch.pending) {other ready readyOther : Channel}
    (alike : ch.Alike other) (told : ch.sendConfirmationMessage = (ready, true))
    (toldOther : other.sendConfirmationMessage = (readyOther, true))
    (readyAlike : ready.Alike readyOther) :
    (getUploadFileData settings os w other n ref).result =
        (getUploadFileData settings os w ch n ref).result ∧
      (getUploadFileData settings os w ch n ref).channel.Alike
        (getUploadFileData settings os w other n ref).channel ∧
      ((∀ index, os.writeAt index = none) →
        (getUploadFileData settings os w ch n ref).world.SameEnd
          (getUploadFileData settings os w other n ref).world) := by
  obtain ⟨pieces, next, _, phase, reads, flat, each⟩ := told_pieces settings os w ref enough told
  have enoughOther : n ≤ other.pending := by
    rw [alike.pending]
    exact enough
  obtain ⟨others, last, _, phaseOther, readsOther, flatOther, eachOther⟩ :=
    told_pieces settings os w ref enoughOther toldOther
  have same : others.flatten = pieces.flatten := by
    rw [flat, flatOther, alike.bytes]
  rw [same] at readsOther
  rw [phase, phaseOther]
  obtain ⟨result, channel⟩ :=
    finishUpload_alike settings os (readyAlike.after reads readsOther)
      ((close_error_writeAll settings os w ref 0 0 others).trans
        (close_error_writeAll settings os w ref 0 0 pieces).symm)
  refine ⟨result, channel, fun quiet => ?_⟩
  rw [finishUpload_world, finishUpload_world]
  exact Transfer.close_sameEnd
    (Transfer.writeAll_pieces quiet same each eachOther w) settings os ref

/-- For every size, every stream that is long enough, and every way in which
the channel delivers it. -/
theorem data_phase_aligned (enough : n ≤ ch.pending) : Aligned settings os w ref n ch := by
  refine ⟨?_, ?_, ?_⟩
  · intro ready untold
    have same := bytes_sendConfirmationMessage ch
    rw [untold] at same
    exact ⟨getUploadFileData_untold settings os w ref n untold, same⟩
  · intro ready told
    have same := bytes_sendConfirmationMessage ch
    rw [told] at same
    obtain ⟨pieces, next, read, phase, reads, flat, _⟩ := told_pieces settings os w ref enough told
    refine ⟨pieces, next, read, phase, ?_, ?_⟩
    · rw [← flat, ← reads.rest]
      exact same.symm
    · rw [cells_callsFrom, flat]
  · intro other alike
    obtain ⟨readyAlike, answer⟩ := alike.sendConfirmationMessage
    rcases told : ch.sendConfirmationMessage with ⟨ready, ok⟩
    rcases toldOther : other.sendConfirmationMessage with ⟨readyOther, okOther⟩
    rw [told, toldOther] at readyAlike answer
    obtain rfl : okOther = ok := answer
    cases okOther with
    | true => exact told_anySplit settings os w ref enough alike told toldOther readyAlike
    | false =>
      rw [getUploadFileData_untold settings os w ref n told,
        getUploadFileData_untold settings os w ref n toldOther]
      exact ⟨rfl, readyAlike, fun _ => World.SameEnd.refl _⟩

end Aligned

/-- An SCP upload of the new file `/srv/u/f` has been opened. -/
def dataWorld : World :=
  (sinkCommand.connection.scpOpen defaultSettings sampleOs sampleWorld "/f".toList).1

theorem split_stream_aligned :
    Aligned defaultSettings sampleOs dataWorld 0 2 (clientSends ["a", "b", "\x00"]) :=
  data_phase_aligned defaultSettings sampleOs dataWorld 0 (by decide)

/-! ## Channels after a failure -/

theorem sendProtocolMessage_failed
    {message : List Char} (failed : ch.sendProtocolMessage message = (next, false)) :
    next.closed = true := by
  unfold Channel.sendProtocolMessage at failed
  split at failed
  · simp at failed
  · simp only [Prod.mk.injEq, and_true] at failed
    rw [← failed]
    rfl

theorem readConfirmationMessage_failed
    {err : Str} (failed : ch.readConfirmationMessage = (next, some err)) :
    next.closed = true := by
  unfold Channel.readConfirmationMessage at failed
  split at failed
  · simp only [Prod.mk.injEq] at failed
    rw [← failed.1]
    rfl
  · split at failed
    · simp only [Prod.mk.injEq] at failed
      rw [← failed.1]
      rfl
    · simp at failed

theorem finishUpload_closed (failed : (finishUpload settings os w ch ref).result ≠ .ok) :
    (finishUpload settings os w ch ref).channel.closed = true := by
  unfold finishUpload at failed ⊢
  rcases status : ch.readConfirmationMessage with ⟨next, _ | err⟩
  · rw [status] at failed
    dsimp only at failed ⊢
    rcases closing : Transfer.close settings os w ref with ⟨after, _ | err⟩
    · rw [closing] at failed
      dsimp only at failed ⊢
      rcases told : next.sendConfirmationMessage with ⟨last, _ | _⟩
      · exact sendProtocolMessage_failed told
      · rw [told] at failed
        exact absurd rfl failed
    · rfl
  · exact readConfirmationMessage_failed status

theorem getUploadFileData_closed {sizeToRead : Int}
    (failed : (getUploadFileData settings os w ch sizeToRead ref).result ≠ .ok) :
    (getUploadFileData settings os w ch sizeToRead ref).channel.closed = true := by
  rcases told : ch.sendConfirmationMessage with ⟨ready, _ | _⟩
  · rw [getUploadFileData_untold settings os w ref sizeToRead told]
    exact sendProtocolMessage_failed told
  · rw [getUploadFileData_eq settings os ref w sizeToRead told] at failed ⊢
    rcases taken : uploadPieces ready sizeToRead with ⟨pieces, next, _ | _⟩
    · rfl
    · rw [taken] at failed
      exact finishUpload_closed failed

end Sshserv.Serv
