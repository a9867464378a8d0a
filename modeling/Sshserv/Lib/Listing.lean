import Sshserv.Lib.Effects

/-!
# Listing a directory

`ioutil.ReadDir` and `File.Readdir` return the entries of a directory: every
object in it, each one once.
-/

namespace Sshserv.Lib.FileTree.FileSys

open Lib.UnixPath

variable {fs : FileSys} {loc : Loc}

theorem readDir_of_resolve {path : Str} {left : Nat} (leads : fs.resolve path = .found loc left)
    (directory : fs.isDirAt loc) :
    fs.readDir path = .ok (fs.listed loc) := by
  simp [readDir, leads, Outcome.located, directory, listed]

theorem infoAt_name {text : Str} {info : FileInfo}
    (entry : fs.infoAt (loc ++ [text]) = some info) : info.name = text := by
  unfold infoAt at entry
  split at entry
  · cases entry
  · cases entry
    simp
  · cases entry
    simp
  · cases entry
    simp

theorem mem_children_iff {child : Loc} :
    child ∈ fs.children loc ↔ ∃ text, child = loc ++ [text] ∧ fs.node (loc ++ [text]) ≠ none := by
  simp only [children, Finset.mem_filter, fs.mem_locs]
  constructor
  · rintro ⟨present, nonempty, parent⟩
    refine ⟨child.getLast nonempty, ?_, ?_⟩
    · rw [← parent, List.dropLast_append_getLast]
    · rw [← parent, List.dropLast_append_getLast]
      exact present
  · rintro ⟨text, rfl, present⟩
    exact ⟨present, by simp, by simp⟩

theorem mem_listed_iff {info : FileInfo} :
    info ∈ fs.listed loc ↔ fs.infoAt (loc ++ [info.name]) = some info := by
  simp only [listed, List.mem_filterMap, Finset.mem_sort, mem_children_iff]
  constructor
  · rintro ⟨_, ⟨text, rfl, _⟩, entry⟩
    rw [infoAt_name entry]
    exact entry
  · intro entry
    refine ⟨_, ⟨info.name, rfl, ?_⟩, entry⟩
    intro absent
    rw [infoAt_eq_none_iff.mpr absent] at entry
    cases entry

theorem mem_listed_names_iff {text : Str} :
    text ∈ (fs.listed loc).map FileInfo.name ↔ fs.node (loc ++ [text]) ≠ none := by
  rw [List.mem_map]
  constructor
  · rintro ⟨info, member, rfl⟩ absent
    rw [mem_listed_iff, infoAt_eq_none_iff.mpr absent] at member
    cases member
  · intro present
    obtain ⟨info, entry⟩ := Option.ne_none_iff_exists'.mp (mt infoAt_eq_none_iff.mp present)
    have name := infoAt_name entry
    refine ⟨info, mem_listed_iff.mpr ?_, name⟩
    rw [name]
    exact entry

private theorem nodup_names_filterMap {children : List Loc} (nodup : children.Nodup)
    (inside : ∀ child ∈ children, ∃ text, child = loc ++ [text]) :
    ((children.filterMap fs.infoAt).map FileInfo.name).Nodup := by
  induction children with
  | nil => simp
  | cons child rest ih =>
    obtain ⟨fresh, distinct⟩ := List.nodup_cons.mp nodup
    have others := ih distinct fun other member =>
      inside other (List.mem_cons_of_mem _ member)
    obtain ⟨text, rfl⟩ := inside child (by simp)
    cases entry : fs.infoAt (loc ++ [text]) with
    | none =>
      rw [List.filterMap_cons_none entry]
      exact others
    | some info =>
      rw [List.filterMap_cons_some entry, List.map_cons, List.nodup_cons]
      refine ⟨?_, others⟩
      intro again
      obtain ⟨other, member, same⟩ := List.mem_map.mp again
      obtain ⟨twin, inRest, twinEntry⟩ := List.mem_filterMap.mp member
      obtain ⟨twinText, rfl⟩ := inside twin (List.mem_cons_of_mem _ inRest)
      have equal : twinText = text := by
        rw [← infoAt_name twinEntry, ← infoAt_name entry, same]
      exact fresh (equal ▸ inRest)

theorem nodup_listed_names (fs : FileSys) (loc : Loc) :
    ((fs.listed loc).map FileInfo.name).Nodup := by
  refine @nodup_names_filterMap fs loc _ (Finset.sort_nodup _ _) ?_
  intro child member
  rw [Finset.mem_sort, mem_children_iff] at member
  obtain ⟨text, shape, _⟩ := member
  exact ⟨text, shape⟩

end Sshserv.Lib.FileTree.FileSys
