import Sshserv.Serv.FileHandler

/-!
# The request server

The request that `packetWorker` builds from a packet and its handler.  No
connection type implements an optional interface, so an `Lstat` is handled as
a `Stat`, a `PosixRename` as a `Rename` and an open for both as one for
writing.
-/

namespace Sshserv.Sftp

open Lib.UnixPath Serv

/-- The packets that a client can send, with the fields that reach a
handler. -/
inductive RequestPacket where
  | init
  | openFile (path : Str) (pflags : Nat)
  | close (handle : Str)
  | read (handle : Str)
  | write (handle : Str)
  | fstat (handle : Str)
  | fsetstat (handle : Str) (flags : Nat) (attrs : FileStat)
  | opendir (path : Str)
  | readdir (handle : Str)
  | stat (path : Str)
  | lstat (path : Str)
  | setstat (path : Str) (flags : Nat) (attrs : FileStat)
  | remove (filename : Str)
  | mkdir (path : Str)
  | rmdir (path : Str)
  | realpath (path : Str)
  | rename (oldpath newpath : Str)
  | readlink (path : Str)
  | symlink (targetpath linkpath : Str)
  | posixRename (oldpath newpath : Str)
  | hardlink (oldpath newpath : Str)
  | statVFS (path : Str)
  | unknownExtended
  deriving DecidableEq

def cleanPath (p : Str) : Str :=
  clean (if isAbs p then p else '/' :: p)

def newRequest (method : Method) (path : Str) : Request :=
  ⟨method, cleanPath path, [], 0, ⟨0, 0, 0, 0, 0, 0⟩⟩

/-- `Request.open`: the handler for the flags of an open packet. -/
def openCall (request : Request) : Option FileCall :=
  let flags := request.pflags
  if flags.write || flags.append || flags.creat || flags.trunc then
    some (.filewrite { request with method := .other "Put".toList })
  else if flags.read then
    some (.fileread { request with method := .other "Get".toList })
  else none

/-- The handler that a packet is given to.  `openRequests` are the requests
behind the handles of the session; packets that read, write or list go to
what the handler has returned for them. -/
def deliver (openRequests : Str → Option Request) : RequestPacket → Option FileCall
  | .openFile path pflags => openCall { newRequest (.other []) path with flags := pflags }
  | .opendir path => some (.filelist (newRequest .list path))
  | .fstat handle =>
    (openRequests handle).map fun request =>
      .filelist (newRequest .stat request.filepath)
  | .fsetstat handle flags attrs =>
    (openRequests handle).map fun request =>
      .filecmd
        { newRequest .setstat request.filepath with
          flags := flags, attributes := attrs }
  | .stat path => some (.filelist (newRequest .stat path))
  | .lstat path => some (.filelist (newRequest .stat path))
  | .readlink path => some (.filelist (newRequest (.other "Readlink".toList) path))
  | .setstat path flags attrs =>
    some (.filecmd { newRequest .setstat path with flags := flags, attributes := attrs })
  | .remove filename => some (.filecmd (newRequest .remove filename))
  | .mkdir path => some (.filecmd (newRequest .mkdir path))
  | .rmdir path => some (.filecmd (newRequest .rmdir path))
  | .rename oldpath newpath =>
    some (.filecmd { newRequest .rename oldpath with target := cleanPath newpath })
  | .symlink targetpath linkpath =>
    some (.filecmd { newRequest .symlink targetpath with target := cleanPath linkpath })
  | .hardlink oldpath newpath =>
    some (.filecmd
      { newRequest (.other "Link".toList) oldpath with
        target := cleanPath newpath })
  | .posixRename oldpath newpath =>
    some (.filecmd { newRequest .rename oldpath with target := newpath })
  | .init | .close _ | .read _ | .write _ | .readdir _ | .realpath _ |
    .statVFS _ | .unknownExtended => none

/-- A rooted clean path. -/
def Cleaned (path : Str) : Prop :=
  ∃ names, path = render names ∧ ProperNames names

theorem cleaned_cleanPath (p : Str) : Cleaned (cleanPath p) := by
  have rooted : isAbs (if isAbs p then p else '/' :: p) = true := by
    split
    · next rooted => exact rooted
    · rfl
  exact ⟨_, clean_of_isAbs rooted, cleanNames_proper _⟩

theorem Cleaned.ne_nil {path : Str} (cleaned : Cleaned path) : path ≠ [] := by
  obtain ⟨names, rfl, _⟩ := cleaned
  intro empty
  have rooted := isAbs_render names
  rw [empty] at rooted
  exact absurd rooted (by decide)

def requestOf : FileCall → Request
  | .fileread request | .filewrite request | .filecmd request |
    .filelist request => request

/-- The path of a request, and the target of a rename, are clean. -/
structure CleanRequest (request : Request) : Prop where
  filepath : Cleaned request.filepath
  target : request.method = .rename → Cleaned request.target

theorem cleanRequest_of_ne {request : Request}
    (filepath : Cleaned request.filepath) (other : request.method ≠ .rename) :
    CleanRequest request :=
  ⟨filepath, fun same => absurd same other⟩

theorem openCall_clean {request : Request} {call : FileCall} (filepath : Cleaned request.filepath)
    (opened : openCall request = some call) :
    CleanRequest (requestOf call) := by
  simp only [openCall] at opened
  split at opened
  · obtain rfl := Option.some.inj opened
    exact cleanRequest_of_ne filepath (by simp [requestOf])
  · split at opened
    · obtain rfl := Option.some.inj opened
      exact cleanRequest_of_ne filepath (by simp [requestOf])
    · contradiction

/-- Every request that reaches a handler is clean, unless it comes from a
`posix-rename`. -/
theorem deliver_clean {openRequests : Str → Option Request}
    {packet : RequestPacket} {call : FileCall} (delivered : deliver openRequests packet = some call)
    (other : ∀ oldpath newpath, packet ≠ .posixRename oldpath newpath) :
    CleanRequest (requestOf call) := by
  have plain (method : Method) (path : Str) (different : method ≠ .rename) :
      CleanRequest (newRequest method path) :=
    cleanRequest_of_ne (cleaned_cleanPath path) different
  cases packet with
  | openFile path pflags => exact openCall_clean (cleaned_cleanPath path) delivered
  | fstat handle =>
    obtain ⟨request, _, rfl⟩ := Option.map_eq_some_iff.mp delivered
    exact plain _ _ (by simp)
  | fsetstat handle flags attrs =>
    obtain ⟨request, _, rfl⟩ := Option.map_eq_some_iff.mp delivered
    exact cleanRequest_of_ne (cleaned_cleanPath _) (by
      simp [requestOf, newRequest])
  | opendir path | stat path | lstat path | readlink path | remove path
  | mkdir path | rmdir path =>
    obtain rfl := Option.some.inj delivered
    exact plain _ _ (by simp)
  | setstat path flags attrs =>
    obtain rfl := Option.some.inj delivered
    exact cleanRequest_of_ne (cleaned_cleanPath _) (by
      simp [requestOf, newRequest])
  | rename oldpath newpath =>
    obtain rfl := Option.some.inj delivered
    exact ⟨cleaned_cleanPath oldpath, fun _ => cleaned_cleanPath newpath⟩
  | symlink targetpath linkpath =>
    obtain rfl := Option.some.inj delivered
    exact cleanRequest_of_ne (cleaned_cleanPath _) (by
      simp [requestOf, newRequest])
  | hardlink oldpath newpath =>
    obtain rfl := Option.some.inj delivered
    exact cleanRequest_of_ne (cleaned_cleanPath _) (by
      simp [requestOf, newRequest])
  | posixRename oldpath newpath => exact absurd rfl (other oldpath newpath)
  | init | close | read | write | readdir | realpath | statVFS
  | unknownExtended => contradiction

end Sshserv.Sftp
