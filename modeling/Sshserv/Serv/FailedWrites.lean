import Sshserv.Serv.DataPhase

/-!
# Failed writes of an upload

`getUploadFileData` ignores the results of its calls of `WriteAt`.
`write_failures_shown_iff`: a failed write shows only if the transfer cannot be
closed either.
-/

namespace Sshserv.Serv

open Lib UnixPath FileTree DataProvider

/-- One of the calls fails or writes fewer bytes than it is given. -/
def WriteFails (os : Os) (w : World) (ref : Nat) (pieces : List (List Char)) : Prop :=
  ∃ before p after, pieces = before ++ p :: after ∧
    let call :=
      Transfer.writeAt os before.length (Transfer.writeAll os ref 0 0 before w)
        ref p before.flatten.length
    call.2.2 ≠ none ∨ call.2.1 < p.length

/-- The second OK byte of the data phase has been sent; an error message would
have closed the channel. -/
def SentFinalOk (ch after : Channel) : Prop :=
  after.closed = false ∧ after.output = ch.output ++ okMsg ++ okMsg

/-- A failed write shows in the result and in the last byte. -/
def FailuresShown (settings : Settings) (os : Os) (w : World) (ref : Nat)
    (sizeToRead : Int) (ch : Channel) : Prop :=
  ∀ ready, ch.sendConfirmationMessage = (ready, true) →
    WriteFails os w ref (uploadPieces ready sizeToRead).1 →
      (getUploadFileData settings os w ch sizeToRead ref).result ≠ .ok ∧
        ¬ SentFinalOk ch (getUploadFileData settings os w ch sizeToRead ref).channel

/-- The file takes writes, and none of the calls that can be made for the
declared size fails. -/
def WritesSucceed (os : Os) (w : World) (ref : Nat) (sizeToRead : Int) : Prop :=
  ∀ t, w.transfers ref = some t →
    (∃ ino, WritesIno t.file ino) ∧
      ∀ index : Nat, (index : Int) < sizeToRead → os.writeAt index = none

section Failures

variable {settings : Settings} {os : Os} {w : World} {ref : Nat}

theorem readPieces_bounds (fuel : Nat) :
    ∀ (remaining bufLen : Nat) (ch : Channel), 0 < bufLen →
      bufLen ≤ remaining →
      (∀ p ∈ (readPieces fuel remaining bufLen ch).1, p ≠ []) ∧
        (readPieces fuel remaining bufLen ch).1.flatten.length ≤ remaining := by
  induction fuel with
  | zero =>
    intro remaining bufLen ch room small
    simp [readPieces]
  | succ fuel ih =>
    intro remaining bufLen ch room small
    rw [readPieces]
    cases read : ch.read bufLen with
    | none => simp
    | some result =>
      obtain ⟨buf, next⟩ := result
      have short := (Channel.read_eq_some read).2
      have filled : buf ≠ [] := by
        have waiting : ch.bytes ≠ [] := fun empty => by
          rw [Channel.read_eq_none_iff.mpr empty] at read
          cases read
        obtain ⟨taken, after, again, nonempty⟩ := Channel.read_of_bytes ch room waiting
        rw [read, Option.some.injEq, Prod.mk.injEq] at again
        rw [again.1]
        exact nonempty
      have positive : 0 < buf.length := List.length_pos_iff.mpr filled
      simp only
      split
      · rw [List.flatten_singleton]
        exact ⟨by simpa using filled, by omega⟩
      · have left : (remaining : Int) - buf.length = ((remaining - buf.length : Nat) : Int) := by
          omega
        rw [left]
        obtain ⟨each, size⟩ :=
          ih (remaining - buf.length)
            (if ((remaining - buf.length : Nat) : Int) < bufLen then
              ((remaining - buf.length : Nat) : Int).toNat else bufLen)
            next (by split <;> omega) (by split <;> omega)
        refine ⟨?_, ?_⟩
        · intro p member
          rcases List.mem_cons.mp member with rfl | later
          · exact filled
          · exact each p later
        · rw [List.flatten_cons, List.length_append]
          omega

variable {pieces : List (List Char)} {n : Nat}

theorem length_le_length_flatten (each : ∀ p ∈ pieces, p ≠ []) :
    pieces.length ≤ pieces.flatten.length := by
  induction pieces with
  | nil => simp
  | cons p rest ih =>
    have more := ih fun q member => each q (by simp [member])
    have positive : 0 < p.length := List.length_pos_iff.mpr (each p (by simp))
    rw [List.length_cons, List.flatten_cons, List.length_append]
    omega

theorem length_uploadPieces_le (ch : Channel) (n : Nat) : (uploadPieces ch n).1.length ≤ n := by
  unfold uploadPieces
  split
  · obtain ⟨each, size⟩ :=
      readPieces_bounds (ch.pending + 1) n (min 32768 (n : Int).toNat) ch (by omega) (by omega)
    exact (length_le_length_flatten each).trans size
  · simp

theorem writeAt_fault {index : Nat} (fault : os.writeAt index ≠ none) (w : World) (ref : Nat)
    (p : List Char) (off : Int) :
    (Transfer.writeAt os index w ref p off).2.2 ≠ none := by
  unfold Transfer.writeAt
  cases w.transfers ref with
  | none => simp
  | some t =>
    simp only
    cases w.fs.writeAt t.file (os.written index p) off os.now with
    | error err => simp
    | ok fs => simpa using fault

theorem not_writeFails {t : Transfer} (entry : w.transfers ref = some t) {ino : Nat}
    (writes : WritesIno t.file ino) (quiet : ∀ index < pieces.length, os.writeAt index = none) :
    ¬ WriteFails os w ref pieces := by
  rintro ⟨before, p, after, rfl, fails⟩
  have wrote := wrote_writeAll os ref before 0 0 w
  obtain ⟨received, activity, own⟩ := (wrote.own t entry).1
  have stillWrites :
      WritesIno
        ({ t with
          bytesReceived := received
          lastActivity := activity } : Transfer).file ino := writes
  have done :=
    Transfer.writeAt_writes own stillWrites
      (quiet before.length (by simp)) p
      (Int.natCast_nonneg before.flatten.length)
  rw [done] at fails
  simp at fails

/-- A client that sends the data byte by byte and then an OK. -/
def byteByByte (n : Nat) : Channel :=
  ⟨List.replicate n ['a'] ++ [okMsg], [], [], false, none⟩

theorem readPieces_singles (tail : List (List Char)) (n : Nat) :
    ∀ (fuel bufLen : Nat) (ch : Channel), 0 < bufLen → n < fuel →
      ch.input.dropWhile List.isEmpty = List.replicate (n + 1) ['a'] ++ tail →
      (readPieces fuel (n + 1 : Nat) bufLen ch).1 = List.replicate (n + 1) ['a'] := by
  induction n with
  | zero =>
    intro fuel bufLen ch room fueled waiting
    obtain ⟨less, rfl⟩ : ∃ less, fuel = less + 1 := ⟨fuel - 1, by omega⟩
    obtain ⟨more, rfl⟩ : ∃ more, bufLen = more + 1 := ⟨bufLen - 1, by omega⟩
    simp [readPieces, Channel.read, waiting]
  | succ n ih =>
    intro fuel bufLen ch room fueled waiting
    obtain ⟨less, rfl⟩ : ∃ less, fuel = less + 1 := ⟨fuel - 1, by omega⟩
    obtain ⟨more, rfl⟩ : ∃ more, bufLen = more + 1 := ⟨bufLen - 1, by omega⟩
    rw [List.replicate_succ, List.cons_append] at waiting
    have read :
        ch.read (more + 1) =
          some (['a'],
            { ch with
              input := [] :: (List.replicate (n + 1) ['a'] ++ tail) }) := by
      simp [Channel.read, waiting]
    have left : ((n + 1 + 1 : Nat) : Int) - (['a'].length : Int) = ((n + 1 : Nat) : Int) := by
      rw [List.length_singleton]
      omega
    rw [readPieces, read]
    simp only [left]
    have later :=
      ih less
        (if ((n + 1 : Nat) : Int) < ((more + 1 : Nat) : Int) then
          ((n + 1 : Nat) : Int).toNat else more + 1)
        { ch with input := [] :: (List.replicate (n + 1) ['a'] ++ tail) }
        (by split <;> omega) (by omega) (by simp [List.replicate_succ])
    rw [if_neg (by omega)]
    simp only [later]
    rfl

theorem uploadPieces_byteByByte (positive : 0 < n) {ready : Channel}
    (told : (byteByByte n).sendConfirmationMessage = (ready, true)) :
    (uploadPieces ready n).1 = List.replicate n ['a'] := by
  obtain ⟨less, rfl⟩ : ∃ less, n = less + 1 := ⟨n - 1, by omega⟩
  have input := (byteByByte (less + 1)).sendConfirmationMessage_input
  rw [told] at input
  dsimp only at input
  have pending : ready.pending = less + 1 + 1 := by
    simp [Channel.pending, input, byteByByte, okMsg]
  rw [uploadPieces, if_pos (by omega)]
  apply readPieces_singles [okMsg] less
  · omega
  · omega
  · rw [input]
    simp [byteByByte, List.replicate_succ]

/-- The upload succeeds whatever the writes do. -/
theorem byteByByte_ok (closes : (Transfer.close settings os w ref).2 = none) :
    (getUploadFileData settings os w (byteByByte n) n ref).result = .ok := by
  have live : (byteByByte n).Live := ⟨rfl, by simp [byteByByte]⟩
  have bytes : (byteByByte n).bytes = (List.replicate n 'a' ++ okMsg) ++ [] := by
    simp [Channel.bytes, byteByByte]
  obtain ⟨chunks, answered, _, talks, upto⟩ := getUploadFileData_upto settings os ref live bytes
  have closed := (close_error_writeAll settings os w ref 0 0 chunks).trans closes
  have all : (byteByByte n).cut (byteByByte n).pending = byteByByte n :=
    Channel.cut_of_pending_le le_rfl
  have done :=
    (upto (byteByByte n).pending w (by have := talks.pending; omega)).1
      (Transfer.close settings os (Transfer.writeAll os ref 0 0 chunks w) ref).1
      (Prod.ext rfl closed)
  rw [all, List.length_replicate] at done
  rw [done]

theorem not_failuresShown (positive : 0 < n) (closes : (Transfer.close settings os w ref).2 = none)
    (fails : WriteFails os w ref (List.replicate n ['a'])) :
    ¬ FailuresShown settings os w ref n (byteByByte n) := by
  intro shown
  have live : (byteByByte n).Live := ⟨rfl, by simp [byteByByte]⟩
  obtain ⟨ready, told⟩ := Channel.sendConfirmationMessage_dialogue live
  refine (shown ready told.whole ?_).1 (byteByByte_ok closes)
  rw [uploadPieces_byteByByte positive told.whole]
  exact fails

theorem getUploadFileData_close_fails
    (fails : (Transfer.close settings os w ref).2 ≠ none) (ch : Channel) (sizeToRead : Int) :
    (getUploadFileData settings os w ch sizeToRead ref).result ≠ .ok ∧
      ¬ SentFinalOk ch (getUploadFileData settings os w ch sizeToRead ref).channel := by
  have failed : (getUploadFileData settings os w ch sizeToRead ref).result ≠ .ok := by
    rcases told : ch.sendConfirmationMessage with ⟨ready, _ | _⟩
    · rw [getUploadFileData_untold settings os w ref sizeToRead told]
      simp
    · rw [getUploadFileData_eq settings os ref w sizeToRead told]
      rcases uploadPieces ready sizeToRead with ⟨pieces, next, _ | _⟩
      · simp
      · rw [← close_error_writeAll settings os w ref 0 0 pieces] at fails
        dsimp only
        unfold finishUpload
        rcases next.readConfirmationMessage with ⟨after, _ | err⟩
        · dsimp only
          rcases closing : Transfer.close settings os
            (Transfer.writeAll os ref 0 0 pieces w) ref with ⟨last, _ | err⟩
          · rw [closing] at fails
            exact absurd rfl fails
          · simp [refuse]
        · simp
  refine ⟨failed, fun sent => ?_⟩
  rw [SentFinalOk, getUploadFileData_closed failed] at sent
  cases sent.1

end Failures

section Shown

variable (settings : Settings) (os : Os) (w : World) (ref : Nat) (sizeToRead : Int)

/-- A failed write shows for every stream exactly if no write can fail or the
transfer cannot be closed. -/
theorem write_failures_shown_iff :
    (∀ ch, FailuresShown settings os w ref sizeToRead ch) ↔
      sizeToRead ≤ 0 ∨ WritesSucceed os w ref sizeToRead ∨
        (Transfer.close settings os w ref).2 ≠ none := by
  constructor
  · intro shown
    by_contra neither
    simp only [not_or, not_not] at neither
    obtain ⟨positive, writesFail, closes⟩ := neither
    obtain ⟨n, rfl⟩ : ∃ n : Nat, sizeToRead = n := ⟨sizeToRead.toNat, by omega⟩
    refine writesFail fun t entry => ?_
    refine ⟨?_, fun index small => ?_⟩
    · -- A file that takes no writes fails at the first call.
      refine (writesIno_or_error t.file).resolve_right ?_
      rintro ⟨err, fails⟩
      refine not_failuresShown (by omega) closes ?_ (shown (byteByByte n))
      obtain ⟨less, rfl⟩ : ∃ less, n = less + 1 := ⟨n - 1, by omega⟩
      refine ⟨[], ['a'], List.replicate less ['a'], rfl, Or.inl ?_⟩
      have failed := Transfer.writeAt_error entry (fails w.fs (os.written 0 ['a']) 0 os.now le_rfl)
      simp only [List.length_nil, Transfer.writeAll, List.flatten_nil, Nat.cast_zero, failed]
      simp
    · -- A fault of a later call is met if the data comes byte by byte.
      by_contra fault
      refine not_failuresShown (by omega) closes ?_ (shown (byteByByte n))
      refine ⟨List.replicate index ['a'], ['a'],
        List.replicate (n - index - 1) ['a'], ?_, Or.inl ?_⟩
      · rw [← List.replicate_succ, ← List.replicate_add]
        congr 1
        omega
      · rw [List.length_replicate]
        exact writeAt_fault fault _ _ _ _
  · rintro (empty | succeed | fails) ch ready told failed
    · obtain ⟨before, p, after, split, _⟩ := failed
      rw [uploadPieces, if_neg (by omega)] at split
      simp at split
    · cases entry : w.transfers ref with
      | none => exact getUploadFileData_close_fails (by simp [Transfer.close, entry]) ch sizeToRead
      | some t =>
        obtain ⟨⟨ino, writes⟩, quiet⟩ := succeed t entry
        refine absurd failed (not_writeFails entry writes ?_)
        intro index inside
        by_cases positive : 0 < sizeToRead
        · obtain ⟨n, rfl⟩ : ∃ n : Nat, sizeToRead = n := ⟨sizeToRead.toNat, by omega⟩
          have few := length_uploadPieces_le ready n
          exact quiet index (by omega)
        · rw [uploadPieces, if_neg positive] at inside
          simp at inside
    · exact getUploadFileData_close_fails fails ch sizeToRead

end Shown

/-- The second write meets a full disk. -/
def fullDisk : Os :=
  { sampleOs with
    writeAt := fun index => if index = 1 then some (0, .other 28) else none }

/-- The client is told that the file has been stored. -/
theorem full_disk_hidden :
    ¬ FailuresShown defaultSettings fullDisk dataWorld 0 2 (clientSends ["a", "b", "\x00"]) := by
  intro shown
  have pieces :
      (uploadPieces (clientSends ["a", "b", "\x00"]).sendConfirmationMessage.1
        2).1 = [['a']] ++ ['b'] :: [] := by decide +kernel
  have stored :
      (getUploadFileData defaultSettings fullDisk dataWorld
        (clientSends ["a", "b", "\x00"]) 2 0).result = .ok := by decide +kernel
  refine (shown _ rfl ⟨[['a']], ['b'], [], pieces, Or.inl ?_⟩).1 stored
  decide +kernel

end Sshserv.Serv
