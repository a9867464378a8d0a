import Sshserv.Hh.Transfer
import Sshserv.Serv.Writing

/-!
# Uploads under every schedule

The workers of the packet manager may execute the write packets of an upload
in any order.  `os.File.WriteAt` puts each of them at its own offset, so that
the order does not matter, as long as no call fails.
-/

namespace Sshserv.Hh

def Packet.off : Packet → Int
  | .write _ off _ => off
  | .close _ => 0

end Sshserv.Hh

namespace Sshserv.Serv

open Lib UnixPath FileTree FileSys DataProvider Sftp PacketManager Hh

theorem getElem?_writeBytes (old : List Char) (offset : Nat) {bytes : List Char}
    (filled : bytes ≠ []) (i : Nat) :
    (writeBytes old offset bytes)[i]? =
      if i < offset then some (old[i]?.getD (Char.ofNat 0))
      else if i < offset + bytes.length then bytes[i - offset]? else old[i]? := by
  simp only [writeBytes, if_neg filled, List.getElem?_append, List.getElem?_take,
    List.getElem?_replicate, List.getElem?_drop, List.length_append, List.length_take,
    List.length_replicate]
  grind

theorem writeBytes_comm (old : List Char) {first second : Nat} {one two : List Char}
    (apart : first + one.length ≤ second) :
    writeBytes (writeBytes old first one) second two =
      writeBytes (writeBytes old second two) first one := by
  by_cases oneEmpty : one = []
  · simp [writeBytes, oneEmpty]
  by_cases twoEmpty : two = []
  · simp [writeBytes, twoEmpty]
  apply List.ext_getElem?
  intro i
  simp only [getElem?_writeBytes _ _ oneEmpty, getElem?_writeBytes _ _ twoEmpty]
  grind

def writePacket (old : List Char) (pkt : Packet) : List Char :=
  writeBytes old pkt.off.toNat pkt.data

theorem packetsFrom_apart (handle : Str) (chunks : List (List Char)) :
    ∀ off : Nat, (∀ pkt ∈ packetsFrom handle off chunks,
        ∃ (position : Nat) (data : List Char), pkt = .write handle position data ∧ off ≤ position) ∧
      (packetsFrom handle off chunks).Pairwise fun one two =>
        one.off.toNat + one.data.length ≤ two.off.toNat := by
  induction chunks with
  | nil =>
    intro off
    simp [packetsFrom]
  | cons data rest ih =>
    intro off
    obtain ⟨behind, apart⟩ := ih (off + data.length)
    refine ⟨fun pkt member => ?_, List.pairwise_cons.mpr ⟨fun pkt later => ?_, apart⟩⟩
    · rcases List.mem_cons.mp member with rfl | later
      · exact ⟨off, data, rfl, Nat.le_refl _⟩
      · obtain ⟨position, other, rfl, far⟩ := behind pkt later
        exact ⟨position, other, rfl, Nat.le_of_add_right_le far⟩
    · obtain ⟨position, other, rfl, far⟩ := behind pkt later
      exact far

theorem foldl_writePacket (handle : Str) (chunks : List (List Char)) :
    ∀ old : List Char,
      (packetsFrom handle old.length chunks).foldl writePacket old = old ++ chunks.flatten := by
  induction chunks with
  | nil =>
    intro old
    simp [packetsFrom]
  | cons data rest ih =>
    intro old
    have more := ih (old ++ data)
    rw [List.length_append] at more
    simpa [packetsFrom, writePacket, Packet.off, Packet.data, writeBytes_behind] using more

theorem foldl_writePacket_of_perm {handle : Str} {chunks : List (List Char)}
    {order : List Packet} (perm : order.Perm (packetsFrom handle 0 chunks)) :
    order.foldl writePacket [] = chunks.flatten := by
  have comm :
      (packetsFrom handle 0 chunks).Pairwise fun one two =>
        ∀ old, writePacket (writePacket old one) two = writePacket (writePacket old two) one :=
    (packetsFrom_apart handle chunks 0).2.imp fun apart old => writeBytes_comm old apart
  have inOrder := foldl_writePacket handle chunks []
  rw [List.nil_append] at inOrder
  rw [← inOrder]
  refine (perm.symm.foldl_eq' ?_ []).symm
  exact comm.forall_of_forall_of_flip (fun _ _ _ => rfl) (comm.imp fun same old => (same old).symm)

/-- The transfers behind the handles of a session. -/
structure LocalSession where
  openRequests : Str → Option Nat
  world : World
  /-- The number of `WriteAt` calls so far. -/
  calls : Nat

/-- `packetWorker` for a packet with a handle, as in `Hh.Session.exec`. -/
def LocalSession.exec (settings : Settings) (os : Os) (s : LocalSession) : Packet → LocalSession
  | .write handle off data =>
    match s.openRequests handle with
    | none => s
    | some ref =>
      { s with
        world := (Transfer.writeAt os s.calls s.world ref data off).1
        calls := s.calls + 1 }
  | .close handle =>
    match s.openRequests handle with
    | none => s
    | some ref =>
      { s with
        openRequests := Function.update s.openRequests handle none
        world := (Transfer.close settings os s.world ref).1 }

/-- The world after writing `data`: the file has this content and a time of
its own, the transfer has counted `count` bytes more, and everything else is
as it was. -/
def Uploaded (ref ino : Nat) (t : Transfer) (w : World) (data : List Char) (count : Int)
    (after : World) : Prop :=
  ∃ mtime trees activity, after =
      { w with
        fs := w.fs.setInode ino ⟨data, { (w.fs.inode ino).attr with mtime := mtime }⟩
        moments := trees ++ w.moments
        transfers :=
          Function.update w.transfers ref
            (some { t with lastActivity := activity, bytesReceived := t.bytesReceived + count }) }

theorem setInode_self (fs : FileSys) (ino : Nat) : fs.setInode ino (fs.inode ino) = fs := by
  have same : (fun other => if other = ino then fs.inode ino else fs.inode other) = fs.inode := by
    funext other
    split <;> simp [*]
  simp only [setInode, same]

@[simp]
theorem inode_setInode (fs : FileSys) (ino : Nat) (new : Inode) :
    (fs.setInode ino new).inode ino = new :=
  if_pos rfl

theorem setInode_setInode (fs : FileSys) (ino : Nat) (old new : Inode) :
    (fs.setInode ino old).setInode ino new = fs.setInode ino new := by
  have same :
      (fun other => if other = ino then new else if other = ino then old else fs.inode other) =
        fun other => if other = ino then new else fs.inode other := by
    funext other
    split <;> rfl
  simp only [setInode, same]

section Runs

variable (settings : Settings) {os : Os} (quiet : ∀ index, os.writeAt index = none)
    {ref ino : Nat} {t : Transfer} {w after : World} {handle : Str}

include quiet

theorem Uploaded.writeAt (writes : WritesIno t.file ino) {data : List Char} {count : Int}
    (uploaded : Uploaded ref ino t w data count after) (index off : Nat) (p : List Char) :
    Uploaded ref ino t w (writeBytes data off p) (count + p.length)
      (Transfer.writeAt os index after ref p off).1 := by
  obtain ⟨mtime, trees, activity, rfl⟩ := uploaded
  have notNegative : ¬ (off : Int) < 0 := by omega
  let tree := w.fs.setInode ino
    ⟨writeBytes data off p, { (w.fs.inode ino).attr with mtime := os.now }⟩
  refine ⟨os.now, tree :: trees, os.now, ?_⟩
  simp only [Transfer.writeAt, Function.update_self, Os.written, quiet index, FileSys.writeAt,
    writes.append, notNegative, writes.ino, writes.isOpen, writes.writable, World.setTransfer,
    World.setFs, setInode_setInode, Bool.false_eq_true, if_false,
    Bool.and_self, inode_setInode, Int.toNat_natCast, List.cons_append, Int.add_assoc, tree]
  congr 1
  funext other
  by_cases own : other = ref <;> simp [own]

theorem Uploaded.exec (writes : WritesIno t.file ino) {order : List Packet}
    (own : ∀ pkt ∈ order, ∃ (off : Nat) (data : List Char), pkt = .write handle off data) :
    ∀ {s : LocalSession} {data : List Char} {count : Int}, s.openRequests handle = some ref →
      Uploaded ref ino t w data count s.world →
      (order.foldl (LocalSession.exec settings os) s).openRequests handle = some ref ∧
        Uploaded ref ino t w (order.foldl writePacket data)
          (count + (order.map Packet.data).flatten.length)
          (order.foldl (LocalSession.exec settings os) s).world := by
  induction order with
  | nil =>
    intro s data count opened uploaded
    simpa using ⟨opened, uploaded⟩
  | cons pkt rest ih =>
    intro s data count opened uploaded
    obtain ⟨off, p, rfl⟩ := own pkt List.mem_cons_self
    have one := uploaded.writeAt quiet writes s.calls off p
    have executed :
        s.exec settings os (.write handle off p) =
          { s with
            world := (Transfer.writeAt os s.calls s.world ref p off).1
            calls := s.calls + 1 } := by
      simp [LocalSession.exec, opened]
    have later :=
      ih (fun other member => own other (List.mem_cons_of_mem _ member))
        (s := s.exec settings os (.write handle off p)) (by rw [executed]; exact opened)
        (by rw [executed]; exact one)
    simpa [writePacket, Packet.data, Packet.off, Int.add_assoc] using later

end Runs

/-- The new file `/srv/u/f` has been opened for writing. -/
def uploadSession : LocalSession :=
  ⟨fun _ => some 0,
    (sampleConnection.filewrite defaultSettings sampleOs
      (World.start namesakeTree fun _ => none)
      ⟨.other "Put".toList, "/f".toList, [], 26, ⟨0, 0, 0, 0, 0, 0⟩⟩).1, 0⟩

def openedTransfer : Transfer :=
  sampleConnection.newTransfer sampleOs
    ⟨"/srv/u/f".toList, some namesakeTree.nextIno, true, false, true⟩ "/srv/u/f".toList .upload true

end Sshserv.Serv
