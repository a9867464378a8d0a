import Sshserv.Serv.World

/-!
# Transfers

The methods of `Transfer`: an open file together with what is needed to
account for it.  Closing an upload whose file has another name than the
requested path renames the file to that path, whatever the reason for
closing is.
-/

namespace Sshserv.Serv

open Lib UnixPath FileTree DataProvider

namespace Os

def written (os : Os) (index : Nat) (p : List Char) : List Char :=
  match os.writeAt index with
  | none => p
  | some (short, _) => p.take short

def readed (os : Os) (index : Nat) (bytes : List Char) : List Char :=
  match os.readAt index with
  | none => bytes
  | some (short, _) => bytes.take short

end Os

namespace Transfer

/-- `Transfer.ReadAt`.  Fewer bytes than asked for come with an end of file,
written as no error here. -/
def readAt (os : Os) (index : Nat) (w : World) (ref count : Nat) (off : Int) :
    World × List Char × Option Errno :=
  match w.transfers ref with
  | none => (w, [], some .badf)
  | some t =>
    match w.fs.readAt t.file count off with
    | .error err => (w.setTransfer ref { t with lastActivity := os.now }, [], some err)
    | .ok bytes =>
      (w.setTransfer ref
          { t with
            lastActivity := os.now
            bytesSent := t.bytesSent + (os.readed index bytes).length },
        os.readed index bytes, (os.readAt index).map Prod.snd)

def writeAt (os : Os) (index : Nat) (w : World) (ref : Nat) (p : List Char)
    (off : Int) : World × Nat × Option Errno :=
  match w.transfers ref with
  | none => (w, 0, some .badf)
  | some t =>
    match w.fs.writeAt t.file (os.written index p) off os.now with
    | .error err => (w.setTransfer ref { t with lastActivity := os.now }, 0, some err)
    | .ok fs =>
      ((w.setFs fs).setTransfer ref
          { t with
            lastActivity := os.now
            bytesReceived := t.bytesReceived + (os.written index p).length },
        (os.written index p).length, (os.writeAt index).map Prod.snd)

theorem writeAt_cases {os : Os} {index : Nat} {w : World} {ref : Nat} {p : List Char} {off : Int}
    {t : Transfer} (entry : w.transfers ref = some t) :
    ∃ t' : Transfer, t'.file = t.file ∧ t'.path = t.path ∧
        t'.transferType = t.transferType ∧
        ((∃ err,
            w.fs.writeAt t.file (os.written index p) off os.now = .error err ∧
              writeAt os index w ref p off = (w.setTransfer ref t', 0, some err)) ∨
          ∃ fs, w.fs.writeAt t.file (os.written index p) off os.now = .ok fs ∧
              writeAt os index w ref p off =
                ((w.setFs fs).setTransfer ref t',
                  (os.written index p).length,
                  (os.writeAt index).map Prod.snd)) := by
  unfold writeAt
  simp only [entry]
  cases w.fs.writeAt t.file (os.written index p) off os.now with
  | error err => exact ⟨{ t with lastActivity := os.now }, rfl, rfl, rfl, Or.inl ⟨err, rfl, rfl⟩⟩
  | ok fs =>
    exact ⟨{ t with
        lastActivity := os.now
        bytesReceived := t.bytesReceived + (os.written index p).length },
      rfl, rfl, rfl, Or.inr ⟨fs, rfl, rfl⟩⟩

/-- The renaming step of `Transfer.Close`, and the error that is returned. -/
def settle (os : Os) (w : World) (t : Transfer) : World × Option Errno :=
  if t.transferType = .upload ∧ t.file.name ≠ t.path then
    match orFault os.closeRename (w.fs.rename t.file.name t.path) with
    | .ok fs => (w.setFs fs, none)
    | .error err => (w, some err)
  else (w, os.closeFile)

/-- The quota update of `Transfer.Close`. -/
def account (settings : Settings) (os : Os) (w : World) (t : Transfer) : World :=
  if t.transferType = .upload then
    w.updateUserQuota settings os.closeQuota t.user (if t.isNewFile then 1 else 0) t.bytesReceived
  else w

def close (settings : Settings) (os : Os) (w : World) (ref : Nat) : World × Option Errno :=
  match w.transfers ref with
  | none => (w, some .badf)
  | some t =>
    let settled :=
      settle os (w.setTransfer ref { t with file := t.file.closed }) t
    (account settings os ((settled.1.addClose ref).removeTransfer ref) t, settled.2)

/-- The tree after the renaming step of an upload. -/
def settledTree (os : Os) (fs : FileSys) (name path : Str) : FileSys :=
  if name ≠ path then
    match orFault os.closeRename (fs.rename name path) with
    | .ok after => after
    | .error _ => fs
  else fs

section Close

variable {settings : Settings} {os : Os} {w : World} {ref : Nat} {t : Transfer}

theorem settle_upload_fs (upload : t.transferType = .upload) :
    (settle os w t).1.fs = settledTree os w.fs t.file.name t.path := by
  unfold settle settledTree
  by_cases renames : t.file.name ≠ t.path
  · rw [if_pos ⟨upload, renames⟩, if_pos renames]
    cases orFault os.closeRename (w.fs.rename t.file.name t.path) <;> rfl
  · rw [if_neg fun both => renames both.2, if_neg renames]

theorem settle_frame :
    (settle os w t).1.quota = w.quota ∧
      (settle os w t).1.transfers = w.transfers ∧
      (settle os w t).1.nextTransfer = w.nextTransfer := by
  unfold settle
  split
  · split <;> exact ⟨rfl, rfl, rfl⟩
  · exact ⟨rfl, rfl, rfl⟩

theorem close_upload_fs (entry : w.transfers ref = some t) (upload : t.transferType = .upload) :
    (close settings os w ref).1.fs = settledTree os w.fs t.file.name t.path := by
  simp only [close, entry, account, upload, if_true,
    World.updateUserQuota_fs, World.removeTransfer, World.addClose]
  exact settle_upload_fs upload

/-- Closing an upload whose file has another name renames it, or leaves the
tree alone. -/
theorem close_upload_cases (settings : Settings) (os : Os) (entry : w.transfers ref = some t)
    (upload : t.transferType = .upload) (renames : t.file.name ≠ t.path) :
    (∀ other, other ≠ ref → (close settings os w ref).1.transfers other = w.transfers other) ∧
      (close settings os w ref).1.nextTransfer = w.nextTransfer ∧
      ((∃ fs, w.fs.rename t.file.name t.path = .ok fs ∧
          (close settings os w ref).1.fs = fs ∧
          (close settings os w ref).1.moments = fs :: w.moments) ∨
        ((close settings os w ref).1.fs = w.fs ∧
          (close settings os w ref).1.moments = w.moments)) := by
  simp only [close, entry, account, upload, if_true, World.updateUserQuota_fs,
    World.updateUserQuota_moments, World.updateUserQuota_transfers,
    World.updateUserQuota_nextTransfer, World.removeTransfer, World.addClose]
  refine ⟨fun other different => ?_, ?_, ?_⟩
  · rw [settle_frame.2.1]
    simp [World.setTransfer, different]
  · rw [settle_frame.2.2]
    rfl
  · unfold settle
    rw [if_pos ⟨upload, renames⟩]
    simp only [World.setTransfer]
    cases renamed : orFault os.closeRename (w.fs.rename t.file.name t.path) with
    | error err => exact Or.inr ⟨rfl, rfl⟩
    | ok fs => exact Or.inl ⟨fs, (orFault_eq_ok.mp renamed).2, rfl, rfl⟩

theorem close_upload_quota (entry : w.transfers ref = some t) (upload : t.transferType = .upload) :
    (close settings os w ref).1.quota t.user.username =
      (w.updateUserQuota settings os.closeQuota t.user
        (if t.isNewFile then 1 else 0) t.bytesReceived).quota t.user.username := by
  simp only [close, entry, account, upload, if_true,
    World.updateUserQuota_own, World.removeTransfer, World.addClose]
  rw [settle_frame.1]
  rfl

end Close

end Transfer

end Sshserv.Serv
