import Sshserv.Lib.Effects
import Sshserv.Serv.Transfer

/-!
# Sequential writes

`Wrote` is what holds after any writes to one transfer, whatever the operating
system makes of them; `writeAll_content` says what the file holds if none of
them fails.
-/

namespace Sshserv.Serv

open Lib UnixPath FileTree FileSys DataProvider

/-- Writing to the transfer `ref` has led from one world to the other. -/
structure Wrote (ref : Nat) (before after : World) : Prop where
  node : after.fs.node = before.fs.node
  nextIno : after.fs.nextIno = before.fs.nextIno
  quota : after.quota = before.quota
  nextTransfer : after.nextTransfer = before.nextTransfer
  others : ∀ other, other ≠ ref → after.transfers other = before.transfers other
  own :
    ∀ t, before.transfers ref = some t →
      (∃ received activity,
        after.transfers ref =
          some { t with
            bytesReceived := received
            lastActivity := activity }) ∧
      ∀ ino, t.file.ino ≠ some ino → after.fs.inode ino = before.fs.inode ino

namespace Wrote

variable {ref : Nat} {first second third : World}

theorem refl (ref : Nat) (w : World) : Wrote ref w w where
  node := rfl
  nextIno := rfl
  quota := rfl
  nextTransfer := rfl
  others := fun _ _ => rfl
  own := fun t entry => ⟨⟨t.bytesReceived, t.lastActivity, entry⟩, fun _ _ => rfl⟩

theorem trans (left : Wrote ref first second) (right : Wrote ref second third) :
    Wrote ref first third where
  node := right.node.trans left.node
  nextIno := right.nextIno.trans left.nextIno
  quota := right.quota.trans left.quota
  nextTransfer := right.nextTransfer.trans left.nextTransfer
  others := fun other different =>
    (right.others other different).trans (left.others other different)
  own := by
    intro t entry
    obtain ⟨⟨received, activity, middle⟩, data⟩ := left.own t entry
    obtain ⟨⟨more, later, last⟩, dataAfter⟩ := right.own _ middle
    refine ⟨⟨more, later, last⟩, fun ino other => ?_⟩
    exact (dataAfter ino other).trans (data ino other)

end Wrote

theorem wrote_writeAt (os : Os) (index : Nat) (w : World) (ref : Nat) (p : List Char) (off : Int) :
    Wrote ref w (Transfer.writeAt os index w ref p off).1 := by
  unfold Transfer.writeAt
  cases entry : w.transfers ref with
  | none => exact Wrote.refl ref w
  | some t =>
    simp only
    cases done : w.fs.writeAt t.file (os.written index p) off os.now with
    | error err =>
      refine ⟨rfl, rfl, rfl, rfl, fun other different => ?_, ?_⟩
      · simp [World.setTransfer, different]
      · intro known same
        rw [entry, Option.some.injEq] at same
        subst same
        exact ⟨⟨t.bytesReceived, os.now, by simp [World.setTransfer]⟩,
          fun _ _ => rfl⟩
    | ok fs =>
      unfold FileSys.writeAt at done
      split at done
      · cases done
      split at done
      · cases done
      split at done
      swap
      · cases done
      rename_i ino given _
      cases done
      refine ⟨rfl, rfl, rfl, rfl, fun other different => ?_, ?_⟩
      · simp [World.setTransfer, different]
      · intro known same
        rw [entry, Option.some.injEq] at same
        subst same
        refine ⟨⟨t.bytesReceived + (os.written index p).length, os.now,
          by simp [World.setTransfer]⟩, ?_⟩
        intro other different
        have apart : other ≠ ino := by
          rintro rfl
          exact different given
        simp [World.setTransfer, setInode, apart]

namespace Transfer

/-- Write chunks one after the other, the first one at `off`. -/
def writeAll (os : Os) (ref : Nat) : Nat → Int → List (List Char) → World → World
  | _, _, [], w => w
  | index, off, p :: rest, w =>
    writeAll os ref (index + 1) (off + p.length) rest (writeAt os index w ref p off).1

end Transfer

theorem wrote_writeAll (os : Os) (ref : Nat) (chunks : List (List Char)) :
    ∀ (index : Nat) (off : Int) (w : World),
      Wrote ref w (Transfer.writeAll os ref index off chunks w) := by
  induction chunks with
  | nil =>
    intro index off w
    exact Wrote.refl ref w
  | cons p rest ih =>
    intro index off w
    exact (wrote_writeAt os index w ref p off).trans (ih (index + 1) (off + p.length) _)

/-- An open file that is written at given offsets. -/
structure WritesIno (handle : Handle) (ino : Nat) : Prop where
  ino : handle.ino = some ino
  isOpen : handle.isOpen = true
  writable : handle.writable = true
  append : handle.append = false

theorem writeBytes_behind (old bytes : List Char) :
    writeBytes old old.length bytes = old ++ bytes := by
  unfold writeBytes
  by_cases empty : bytes = []
  · simp [empty]
  · simp [empty]

theorem writeAt_behind {os : Os} {index : Nat} (quiet : os.writeAt index = none) {w : World}
    {ref : Nat} {t : Transfer} (entry : w.transfers ref = some t) {ino : Nat}
    (writes : WritesIno t.file ino) (p : List Char) :
    ((Transfer.writeAt os index w ref p
        (w.fs.inode ino).data.length).1.fs.inode ino).data =
        (w.fs.inode ino).data ++ p ∧
      (Transfer.writeAt os index w ref p
        (w.fs.inode ino).data.length).1.transfers ref =
        some { t with
          lastActivity := os.now
          bytesReceived := t.bytesReceived + p.length } ∧
      (Transfer.writeAt os index w ref p (w.fs.inode ino).data.length).2.2 = none := by
  have written : os.written index p = p := by
    simp [Os.written, quiet]
  have done :
      w.fs.writeAt t.file p (w.fs.inode ino).data.length os.now =
        .ok (w.fs.setInode ino
          ⟨(w.fs.inode ino).data ++ p, { (w.fs.inode ino).attr with mtime := os.now }⟩) := by
    have notNegative : ¬ ((w.fs.inode ino).data.length : Int) < 0 := by omega
    simp only [FileSys.writeAt, writes.append, Bool.false_eq_true, if_false,
      notNegative, writes.ino, writes.isOpen, writes.writable, Bool.and_self,
      Int.toNat_natCast, writeBytes_behind]
  simp only [Transfer.writeAt, entry, written, done, quiet, Option.map_none]
  refine ⟨?_, ?_, trivial⟩
  · simp [World.setTransfer, setInode]
  · simp [World.setTransfer]

/-- Chunks that are written one after the other are appended. -/
theorem writeAll_content {os : Os} (quiet : ∀ index, os.writeAt index = none) {ref ino : Nat}
    (chunks : List (List Char)) :
    ∀ (index : Nat) {w : World} {t : Transfer},
      w.transfers ref = some t → WritesIno t.file ino →
      ((Transfer.writeAll os ref index (w.fs.inode ino).data.length chunks
          w).fs.inode ino).data =
          (w.fs.inode ino).data ++ chunks.flatten ∧
        ∃ activity, (Transfer.writeAll os ref index (w.fs.inode ino).data.length chunks
            w).transfers ref =
            some { t with
              lastActivity := activity
              bytesReceived := t.bytesReceived + chunks.flatten.length } := by
  induction chunks with
  | nil =>
    intro index w t entry writes
    refine ⟨by simp [Transfer.writeAll], t.lastActivity, ?_⟩
    simp [Transfer.writeAll, entry]
  | cons p rest ih =>
    intro index w t entry writes
    obtain ⟨data, own, _⟩ := writeAt_behind (quiet index) entry writes p
    have behind :
        ((w.fs.inode ino).data.length : Int) + p.length =
          ((Transfer.writeAt os index w ref p
            (w.fs.inode ino).data.length).1.fs.inode ino).data.length := by
      rw [data, List.length_append]
      push_cast
      rfl
    obtain ⟨more, activity, last⟩ := ih (index + 1) own writes
    rw [← behind] at more last
    refine ⟨?_, activity, ?_⟩
    · rw [Transfer.writeAll, more, data, List.flatten_cons, List.append_assoc]
    · rw [Transfer.writeAll, last, List.flatten_cons, List.length_append]
      push_cast
      rw [Int.add_assoc]

end Sshserv.Serv
