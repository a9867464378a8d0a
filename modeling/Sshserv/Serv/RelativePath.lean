import Sshserv.Serv.DownloadEnds

/-!
# Paths relative to the home directory

`User.GetRelativePath` writes a path as the client sees it, and
`Connection.buildPath` reads it again: the download of a directory hands the
path of every entry on in this way.
-/

namespace Sshserv.Serv

open Lib UnixPath FileTree FileSys DataProvider

section User

variable {user : User} {p q : Str} (rooted : isAbs user.homeDir)
    (pAbs : isAbs p) (pClean : clean p = p)
include rooted pAbs pClean

theorem getRelativePath_back : clean (join user.homeDir (getRelativePath user p)) = p := by
  rw [← pClean, clean_of_isAbs pAbs]
  exact clean_join_getRelativePath rooted (cleanNames_proper p)

theorem getRelativePath_injective (qAbs : isAbs q) (qClean : clean q = q)
    (same : getRelativePath user p = getRelativePath user q) : p = q := by
  rw [← getRelativePath_back rooted pAbs pClean, same, getRelativePath_back rooted qAbs qClean]

end User

section Entries

variable {c : Connection} {fs : FileSys} {names place : Loc} {file : FileInfo}
    (source : SourceAt c fs names place) (listed : file ∈ fs.listed place) (good : Proper file.name)
include source listed good

theorem SourceAt.lstat_entry : fs.lstat (join (render names) file.name) = .ok file := by
  obtain ⟨left, resolved⟩ := source.resolved
  have seen := mem_listed_iff.mp listed
  have present : fs.node (place ++ [file.name]) ≠ none :=
    mem_listed_names_iff.mp (List.mem_map_of_mem listed)
  have entry : fs.entryOf (render (names ++ [file.name])) = .ok (place, file.name) :=
    entryOf_of_resolve
      (List.forall_mem_append.mpr ⟨source.proper, List.forall_mem_singleton.mpr good⟩)
      resolved (fs.parent_dir place file.name present)
  rw [join_render_name source.proper good]
  simp [lstat, FileSys.entryLoc, entry, statAt, seen]

theorem SourceAt.buildPath_entry (rooted : isAbs c.user.homeDir) (noLink : file.kind ≠ .symlink) :
    c.buildPath fs (getRelativePath c.user (join (render names) file.name)) =
      .ok (join (render names) file.name) := by
  have present : fs.node (place ++ [file.name]) ≠ none :=
    mem_listed_names_iff.mp (List.mem_map_of_mem listed)
  have entry : SourceAt c fs (names ++ [file.name]) (place ++ [file.name]) := by
    refine source.entry good present fun target link => noLink ?_
    obtain ⟨attr, node⟩ := view_eq_symlink_iff.mp link
    have seen := mem_listed_iff.mp listed
    simp only [infoAt, node, Option.some.injEq] at seen
    rw [← seen]
  have asked := requested_getRelativePath rooted entry.proper
  rw [entry.buildPath asked, join_render_name source.proper good]

end Entries

section Directory

variable {c : Connection} {names : Loc} (rooted : isAbs c.user.homeDir)
    (proper : ProperNames names)

include proper in
theorem SourceAt.of_buildPath {fs : FileSys} {rawPath : Str} {place : Loc} {left : Nat}
    (accepted : c.buildPath fs rawPath = .ok (render names))
    (resolved : fs.resolve (render names) = .found place left) :
    SourceAt c fs names place := by
  have located := evalLoc_of_resolve resolved
  rcases (buildPath_eq_ok_iff.mp accepted).2 with
    ⟨loc, evaluated, inside⟩ | ⟨missing, _⟩
  · rw [located] at evaluated
    cases evaluated
    exact ⟨proper, ⟨left, resolved⟩, inside⟩
  · rw [located] at missing
    cases missing

include rooted proper

theorem requested_entry {text : Str} (good : Proper text) :
    c.requested (getRelativePath c.user (join (render names) text)) = join (render names) text := by
  rw [join_render_name proper good]
  exact clean_join_getRelativePath rooted
    (List.forall_mem_append.mpr ⟨proper, List.forall_mem_singleton.mpr good⟩)

theorem nodup_entryPaths {files : List FileInfo} (good : ∀ file ∈ files, Proper file.name)
    (distinct : (files.map FileInfo.name).Nodup) :
    (files.map fun file =>
      getRelativePath c.user (join (render names) file.name)).Nodup := by
  refine List.Nodup.map_on ?_ (List.Nodup.of_map _ distinct)
  intro file member other otherMember same
  have joined := requested_entry rooted proper (good file member)
  rw [same, requested_entry rooted proper (good other otherMember)] at joined
  have bases := congrArg base joined
  rw [join_render_name proper (good other otherMember),
    join_render_name proper (good file member), base_render_concat names (good other otherMember),
    base_render_concat names (good file member)] at bases
  exact List.inj_on_of_nodup_map distinct member otherMember bases.symm

end Directory

/-- A path relative to the home directory, joined to it, is the path again,
wherever the path lies and however the home directory is written, so different
paths have different relative paths.  The paths that the download of an
accepted directory goes through are those of its entries, each one once.
`buildPath` accepts no other path for such a one than that of the entry, and
it accepts that of every entry that is not a link. -/
theorem relative_path_round_trip (cmd : ScpCommand) (rooted : isAbs cmd.connection.user.homeDir) :
    (∀ p, isAbs p = true → clean p = p →
        clean (join cmd.connection.user.homeDir (getRelativePath cmd.connection.user p)) = p) ∧
      (∀ p q, isAbs p = true → clean p = p → isAbs q = true → clean q = q →
        p ≠ q → getRelativePath cmd.connection.user p ≠ getRelativePath cmd.connection.user q) ∧
      ∀ os w ch rawPath dirPath stat next paths,
        (∀ loc text, w.fs.node (loc ++ [text]) ≠ none → Proper text) →
        (∀ files, (os.entryOrder files).Perm files) →
        cmd.connection.buildPath w.fs rawPath = .ok dirPath →
        cmd.entriesOf os w ch dirPath stat = some (next, paths) →
          paths.Nodup ∧
            ∃ files, getDirContents os w.fs dirPath = .ok files ∧
              paths.Perm (files.map fun file =>
                getRelativePath cmd.connection.user (join dirPath file.name)) ∧
              ∀ file ∈ files, w.fs.lstat (join dirPath file.name) = .ok file ∧
                  (∀ fs r,
                    cmd.connection.buildPath fs
                        (getRelativePath cmd.connection.user (join dirPath file.name)) = .ok r →
                      r = join dirPath file.name) ∧
                  (file.kind ≠ .symlink →
                    cmd.connection.buildPath w.fs
                        (getRelativePath cmd.connection.user (join dirPath file.name)) =
                      .ok (join dirPath file.name)) := by
  refine ⟨fun p => getRelativePath_back rooted, ?_, ?_⟩
  · intro p q pAbs pClean qAbs qClean different same
    exact different (getRelativePath_injective rooted pAbs pClean qAbs qClean same)
  intro os w ch rawPath dirPath stat next paths named order accepted entries
  obtain ⟨_, files, contents, rfl⟩ := entriesOf_eq_some entries
  obtain ⟨place, left, resolved, perm⟩ := getDirContents_ok order contents
  obtain ⟨names, proper, rfl⟩ := accepted_eq_render rooted accepted
  have source := SourceAt.of_buildPath proper accepted resolved
  have good : ∀ file ∈ files, Proper file.name := by
    intro file member
    exact named place file.name (mem_listed_names_iff.mp
      (List.mem_map_of_mem (perm.mem_iff.mp member)))
  have distinct : (files.map FileInfo.name).Nodup :=
    (perm.map FileInfo.name).nodup_iff.mpr (nodup_listed_names w.fs place)
  have same := (filesFirst_perm files).map fun file =>
    getRelativePath cmd.connection.user (join (render names) file.name)
  refine ⟨same.nodup_iff.mpr (nodup_entryPaths rooted proper good distinct),
    files, contents, same, ?_⟩
  intro file member
  have listed := perm.mem_iff.mp member
  refine ⟨source.lstat_entry listed (good file member), ?_,
    source.buildPath_entry listed (good file member) rooted⟩
  intro fs r built
  rw [(buildPath_eq_ok_iff.mp built).1]
  exact requested_entry rooted proper (good file member)

def slashedCommand : ScpCommand :=
  { sourceCommand with
    connection := { sampleConnection with
      user := { sampleUser with homeDir := "//srv/./u/../u//".toList } } }

/-- A directory `..a` in the home directory. -/
def dottedWorld : World :=
  World.start
    (namesakeTree.withDir sampleHome "..a".toList sampleAttr)
    fun _ => some (0, 0)

/-- The home directory and one of its entries come back, though the home
directory is not written as a clean path. -/
theorem slashed_home_round_trip :
    clean (join "//srv/./u/../u//".toList
        (getRelativePath slashedCommand.connection.user "/srv/u".toList)) = "/srv/u".toList ∧
      getRelativePath slashedCommand.connection.user "/srv/u/..a".toList ≠
        getRelativePath slashedCommand.connection.user "/srv/u".toList ∧
      slashedCommand.connection.buildPath dottedWorld.fs
          (getRelativePath slashedCommand.connection.user "/srv/u/..a".toList) =
        .ok "/srv/u/..a".toList := by
  obtain ⟨back, apart, entries⟩ := relative_path_round_trip slashedCommand (by decide)
  refine ⟨back _ (by decide) (by decide),
    apart _ _ (by decide) (by decide) (by decide) (by decide) (by decide), ?_⟩
  have names : ∀ loc ∈ dottedWorld.fs.locs, ProperNames loc := by
    decide +kernel
  have listed :
      (slashedCommand.entriesOf sampleOs dottedWorld (agreeing 1)
        "/srv/u".toList ⟨[], .dir, 0, sampleAttr⟩).isSome := by
    decide +kernel
  obtain ⟨⟨next, paths⟩, made⟩ := Option.isSome_iff_exists.mp listed
  obtain ⟨_, files, contents, _, each⟩ :=
    entries sampleOs dottedWorld (agreeing 1) "/".toList "/srv/u".toList _
      next paths
      (fun loc text present =>
        names _ ((dottedWorld.fs.mem_locs _).mpr present) text (by simp))
      (fun files => List.Perm.refl files) (by decide +kernel) made
  have dotted :
      getDirContents sampleOs dottedWorld.fs "/srv/u".toList =
        .ok [⟨"..a".toList, .dir, 4096, sampleAttr⟩] := by
    decide +kernel
  rw [contents] at dotted
  cases dotted
  exact (each _ List.mem_cons_self).2.2 (by decide)

end Sshserv.Serv
