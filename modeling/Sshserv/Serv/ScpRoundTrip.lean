import Sshserv.Serv.ScpSource
import Sshserv.Serv.ScpStore

/-!
# From a source to a sink

What a source sends for a tree describes the tree (`sentFor_describes`).  A
sink that receives it where the name of the root is free makes the same tree
there (`tree_round_trip`).
-/

namespace Sshserv.Serv

open Lib UnixPath FileTree FileSys DataProvider

theorem isDigit_of_mem_toString {n : Nat} {c : Char}
    (member : c ∈ (toString n).toList) : isDigit c = true :=
  isDigit_of_mem_intText (n := n) member

theorem word_of_digits {text : Str} (digits : ∀ c ∈ text, isDigit c = true) : Sent.Word text := by
  constructor
  · intro member
    have digit := digits _ member
    simp [isDigit] at digit
  · intro member
    have digit := digits _ member
    simp [isDigit] at digit

theorem word_getFileModeAsString (info : FileInfo) : Sent.Word (getFileModeAsString info) := by
  apply word_of_digits
  unfold getFileModeAsString
  split
  · exact List.all_eq_true.mp (by decide)
  · intro c member
    simp only [modeDigit, List.mem_append] at member
    rcases member with ((special | owner) | group) | other
    · exact isDigit_of_mem_toString special
    · exact isDigit_of_mem_toString owner
    · exact isDigit_of_mem_toString group
    · exact isDigit_of_mem_toString other

theorem newline_notMem_intText (n : Int) : '\n' ∉ intText n := by
  cases n with
  | ofNat n =>
    intro member
    have digit := isDigit_of_mem_intText (n := n) member
    simp [isDigit] at digit
  | negSucc n =>
    have text : intText (.negSucc n) = '-' :: (toString (n + 1)).toList := by
      simp [intText, toString, Int.repr]
    rw [text]
    intro member
    rcases List.mem_cons.mp member with bad | digit
    · cases bad
    · have known := isDigit_of_mem_toString digit
      simp [isDigit] at known

theorem timesOf_wellFormed (cmd : ScpCommand) (info : FileInfo) :
    ∀ time ∈ cmd.timesOf info, Channel.TimeMessage time := by
  intro time member
  unfold ScpCommand.timesOf at member
  split at member
  · rw [List.mem_singleton.mp member]
    have digits := newline_notMem_intText info.attr.mtime
    exact ⟨⟨_, rfl⟩, by simp [timeMessage, digits]⟩
  · cases member

/-- Put before any other items, `item` stands for the object at `place` under
the given name. -/
structure Describes (fs : FileSys) (place : Loc) (name : Str) (item : Items → Items) : Prop where
  names : ∀ rest, (item rest).names = name :: rest.names
  here : ∀ rest path, name ∉ rest.names → (item rest).find (name :: path) = fs.view (place ++ path)
  others :
    ∀ rest first path, first ≠ name → (item rest).find (first :: path) = rest.find (first :: path)
  tree : ∀ rest : Items, rest.Tree → (item rest).Tree
  wellFormed : ∀ rest : Items, rest.WellFormed → (item rest).WellFormed

section Tree

variable {fs : FileSys} {place : Loc}

theorem describes_foldr {entries : List FileInfo} {item : FileInfo → Items → Items}
    (distinct : (entries.map FileInfo.name).Nodup)
    (each : ∀ entry ∈ entries, Describes fs (place ++ [entry.name]) entry.name (item entry)) :
    (entries.foldr item .nil).names = entries.map FileInfo.name ∧
      (∀ first path,
        (entries.foldr item .nil).find (first :: path) =
          if first ∈ entries.map FileInfo.name then
            fs.view (place ++ first :: path)
          else none) ∧
      (entries.foldr item .nil).Tree ∧
      (entries.foldr item .nil).WellFormed := by
  induction entries with
  | nil =>
    refine ⟨rfl, fun first path => rfl, trivial, ?_⟩
    intro m member
    cases member
  | cons entry rest ih =>
    obtain ⟨fresh, others⟩ := List.nodup_cons.mp distinct
    have described := each entry (by simp)
    obtain ⟨names, find, tree, wellFormed⟩ :=
      ih others fun other member =>
        each other (List.mem_cons_of_mem _ member)
    rw [List.foldr_cons]
    refine ⟨?_, ?_, described.tree _ tree, described.wellFormed _ wellFormed⟩
    · rw [described.names, names, List.map_cons]
    · intro first path
      by_cases same : first = entry.name
      · rw [same, described.here _ _ (by rw [names]; exact fresh)]
        simp
      · rw [described.others _ _ _ same, find]
        simp [same]

theorem view_below_absent {first : Str} (absent : fs.node (place ++ [first]) = none) (path : Loc) :
    fs.view (place ++ first :: path) = none := by
  have shape : place ++ first :: path = place ++ [first] ++ path := by simp
  rw [view_eq_none_iff, shape]
  by_cases here : path = []
  · rw [here, List.append_nil]
    exact absent
  · have leaf : fs.isDirAt (place ++ [first]) = false := by
      simp [isDirAt, absent]
    exact fs.node_below_notDir leaf path here

variable {times : List Str} {mode name : Str} {cmd : ScpCommand} {os : Str → Os}

theorem describes_file {data : List Char} (isFile : fs.view place = some (.file data))
    (proper : Proper name) (wellFormed : (Sent.file times mode name data).WellFormed) :
    Describes fs place name (.file times mode name data) := by
  have leaf : fs.isDirAt place = false := by
    rw [Bool.eq_false_iff, ne_eq, ← view_eq_dir_iff, isFile]
    simp
  refine ⟨fun rest => rfl, fun rest path only => ?_,
    fun rest first path other => ?_, fun rest tree => ⟨proper, tree⟩,
    fun rest others m member => ?_⟩
  · by_cases here : path = []
    · simp [Items.find, here, isFile]
    · have nothing : fs.view (place ++ path) = none :=
        view_eq_none_iff.mpr (fs.node_below_notDir leaf path here)
      simp [Items.find, here, Items.find_eq_none only, nothing]
  · simp [Items.find, other]
  · rcases List.mem_cons.mp member with rfl | later
    · exact wellFormed
    · exact others m later

theorem describes_dir {items : Items} (isDir : fs.view place = some .dir) (proper : Proper name)
    (wellFormed : (Sent.dir times mode name).WellFormed) (distinct : items.names.Nodup)
    (inner : ∀ first path, items.find (first :: path) = fs.view (place ++ first :: path))
    (tree : items.Tree) (innerFormed : items.WellFormed) :
    Describes fs place name (.dir times mode name items []) := by
  refine ⟨fun rest => rfl, fun rest path _ => ?_,
    fun rest first path other => ?_,
    fun rest others => ⟨proper, ⟨distinct, tree⟩, others⟩,
    fun rest others m member => ?_⟩
  · cases path with
    | nil => simp [Items.find, isDir]
    | cons first more => simp [Items.find, inner]
  · simp [Items.find, other]
  · simp only [Items.sent, List.mem_cons, List.mem_append] at member
    rcases member with rfl | inside | rfl | later
    · exact wellFormed
    · exact innerFormed m inside
    · intro time timed
      cases timed
    · exact others m later

theorem sentFor_dir {fuel : Nat} {filePath : Str} {parent : Loc} {info : FileInfo}
    (entry : fs.infoAt place = some info) (isDir : fs.view place = some .dir) :
    cmd.sentFor os fs (fuel + 1) filePath (parent ++ [name]) place =
      .dir (cmd.timesOf info) (getFileModeAsString info) name
        ((sourceEntries (os filePath) fs place).foldr
          (fun child =>
            cmd.sentFor os fs fuel
              (cmd.entryPath (parent ++ [name]) child.name)
              (parent ++ [name] ++ [child.name]) (place ++ [child.name]))
          .nil) [] := by
  funext rest
  simp [ScpCommand.sentFor, entry, isDir]

/-- The messages of a source describe the tree. -/
theorem sentFor_describes (env : Unhindered cmd os) (fuel : Nat) :
    ∀ (filePath : Str) (parent place : Loc) (name : Str),
      fs.node place ≠ none → PlainTree fs place → Shallow fs place fuel →
      Proper name → Sent.Word name →
      Describes fs place name (cmd.sentFor os fs fuel filePath (parent ++ [name]) place) := by
  induction fuel with
  | zero =>
    intro filePath parent place name present _ shallow _ _
    have deep := shallow [] (by simpa using present)
    omega
  | succ fuel ih =>
    intro filePath parent place name present plain shallow proper word
    obtain ⟨info, entry⟩ := Option.ne_none_iff_exists'.mp (mt infoAt_eq_none_iff.mp present)
    rcases plain.view_cases present with isDir | ⟨data, isFile⟩
    · have perm := env.entries fs filePath place
      have distinct : ((sourceEntries (os filePath) fs place).map FileInfo.name).Nodup :=
        (perm.map FileInfo.name).nodup_iff.mpr (fs.nodup_listed_names place)
      have listed :
          ∀ text, text ∈ (sourceEntries (os filePath) fs place).map FileInfo.name ↔
              fs.node (place ++ [text]) ≠ none := fun text =>
        (perm.map FileInfo.name).mem_iff.trans mem_listed_names_iff
      have each :
          ∀ child ∈ sourceEntries (os filePath) fs place,
            Describes fs (place ++ [child.name]) child.name
              (cmd.sentFor os fs fuel
                (cmd.entryPath (parent ++ [name]) child.name)
                (parent ++ [name] ++ [child.name])
                (place ++ [child.name])) := by
        intro child member
        have childPresent := (listed child.name).mp (List.mem_map_of_mem member)
        obtain ⟨childProper, childWord⟩ := plain.names [] child.name (by simpa using childPresent)
        exact ih _ _ _ _ childPresent (plain.below child.name)
          (shallow.below child.name) childProper childWord
      obtain ⟨names, find, tree, wellFormed⟩ := describes_foldr distinct each
      rw [sentFor_dir entry isDir]
      refine describes_dir isDir proper
        ⟨timesOf_wellFormed cmd info, word_getFileModeAsString info, word, proper.nonempty⟩
        (by rw [names]; exact distinct) (fun first path => ?_) tree
        wellFormed
      rw [find]
      split
      · rfl
      · rename_i absent
        rw [listed, not_not] at absent
        exact (view_below_absent absent path).symm
    · have sent :
          cmd.sentFor os fs (fuel + 1) filePath (parent ++ [name]) place =
            .file (cmd.timesOf info) (getFileModeAsString info) name data := by
        funext rest
        simp [ScpCommand.sentFor, entry, isFile]
      rw [sent]
      have small : data.length < 2 ^ 63 := plain.sizes [] data (by simpa using isFile)
      exact describes_file isFile proper
        ⟨timesOf_wellFormed cmd info, word_getFileModeAsString info, word, proper.nonempty, small⟩

end Tree

/-- The tree at `root` is sent and received again under the directory `place`:
everything is there as it was. -/
theorem tree_round_trip {source sink : ScpCommand} {sourceSettings sinkSettings : Settings}
    {sourceOs : Str → Os} {sinkOs : Nat → Os} {there here : World}
    {peer : Channel} {filePath destPath name : Str} {parent root place : Loc}
    {depth : Nat} (sending : Unhindered source sourceOs)
    (located : SourceAt source.connection there.fs (parent ++ [name]) root)
    (asked : source.connection.requested filePath = render (parent ++ [name]))
    (directory : there.fs.isDirAt root)
    (plain : PlainTree there.fs root) (word : Sent.Word name)
    (shallow : Shallow there.fs root depth) (willing :
      peer.Willing
        (stepsOf
          (source.sentFor sourceOs there.fs depth filePath (parent ++ [name])
            root .nil).sent).length)
    (receiving : Undisturbed sink sinkOs) (given : sink.getDestPath = some destPath)
    (standing : Standing sink here.fs destPath place)
    (temps : TempsFree sinkSettings sinkOs here.fs) (namesPlain :
      NamesPlain sinkSettings sinkOs
        (source.sentFor sourceOs there.fs depth filePath (parent ++ [name]) root .nil).allNames)
    (enough :
      Enough sinkSettings sink.connection.user
        (here.quota sink.connection.user.username)
        (source.sentFor sourceOs there.fs depth filePath (parent ++ [name]) root .nil).sizes)
    (free : here.fs.node (place ++ [name]) = none) :
    ∃ stream,
      (source.handleDownload sourceSettings sourceOs depth there peer filePath).result = .ok ∧
      (source.handleDownload sourceSettings sourceOs depth there peer
          filePath).channel.output = peer.output ++ stream ∧
      ∀ input : Channel, input.Live → input.bytes = stream →
        (sink.handleRecursiveUpload sinkSettings here input sinkOs).result = .ok ∧
          ∀ path, (sink.handleRecursiveUpload sinkSettings here input
                sinkOs).world.fs.view (place ++ name :: path) =
              there.fs.view (root ++ path) := by
  have proper : Proper name := located.proper name (by simp)
  have described :=
    sentFor_describes sending depth filePath parent root name located.present
      plain shallow proper word
  obtain ⟨after, answered, sent, _, sends⟩ :=
    @handleDownload_delivers source sourceSettings sourceOs there.fs sending
      depth filePath (parent ++ [name]) root (by simp) located plain shallow
      asked there peer rfl willing
  refine ⟨(source.sentFor sourceOs there.fs depth filePath (parent ++ [name])
    root .nil).wire, ?_, ?_, fun input live bytes => ?_⟩
  · exact congrArg ScpState.result sent
  · exact (congrArg (fun state => state.channel.output) sent).trans sends.output
  · have isDir := view_eq_dir_iff.mpr directory
    obtain ⟨info, entry⟩ := Option.ne_none_iff_exists'.mp (mt infoAt_eq_none_iff.mp located.present)
    have deep := shallow [] (by simpa using located.present)
    obtain ⟨fuel, rfl⟩ : ∃ fuel, depth = fuel + 1 := Nat.exists_eq_add_one.mpr deep
    rw [sentFor_dir entry isDir] at described namesPlain enough bytes
    have ready : Ready sink sinkSettings sinkOs ⟨0, 0, destPath, here, input⟩ place _ [] :=
      ⟨standing, temps, namesPlain, enough, described.tree .nil trivial,
        described.wellFormed .nil (fun m member => nomatch member), live,
        by rw [List.append_nil]; exact bytes⟩
    obtain ⟨ok, _, placed⟩ := handleRecursiveUpload_dir receiving given ready free
    refine ⟨ok, fun path => ?_⟩
    rw [placed, Items.placed_append, described.here .nil path (by simp [Items.names]),
      view_below_absent free path, Option.or_none]

def sourceCommand : ScpCommand :=
  ⟨⟨"c".toList, sampleUser, "SCP".toList⟩, ["-r".toList, "-f".toList, "/".toList]⟩

/-- The home directory with a file in it is sent, and arrives in an empty home
directory. -/
theorem home_round_trip :
    ∃ stream, (sourceCommand.handleDownload defaultSettings (fun _ => sampleOs) 2
          fullWorld (clientSends ["\x00\x00\x00\x00"]) "/".toList).result =
        .ok ∧
      (sourceCommand.handleDownload defaultSettings (fun _ => sampleOs) 2
          fullWorld (clientSends ["\x00\x00\x00\x00"])
          "/".toList).channel.output = stream ∧
      ∀ input : Channel, input.Live → input.bytes = stream →
        (sinkCommand.handleRecursiveUpload defaultSettings sampleWorld input
            fun _ => sampleOs).result = .ok ∧
          ∀ path, (sinkCommand.handleRecursiveUpload defaultSettings sampleWorld
                input fun _ => sampleOs).world.fs.view
                (sampleHome ++ "u".toList :: path) =
              fullWorld.fs.view (sampleHome ++ path) := by
  have quiet : sampleOs.Quiet := Os.quiet_quiet _ _ _
  have sending : Unhindered sourceCommand fun _ => sampleOs :=
    ⟨by decide, by decide, by decide, fun _ => quiet,
      fun _ files => List.Perm.refl files⟩
  have located :
      SourceAt sourceCommand.connection fullWorld.fs (["srv".toList] ++ ["u".toList]) sampleHome :=
    ⟨by decide, ⟨40, by decide +kernel⟩, by decide +kernel⟩
  exact tree_round_trip sending located (by decide) (by decide +kernel)
    (by decide +kernel) (by decide) (by decide +kernel)
    ⟨⟨rfl, by decide⟩, by decide +kernel⟩
    ⟨by decide, fun _ => quiet, by decide, by decide⟩ (by decide) root_standing
    (fun atomic => absurd atomic (by decide))
    (fun atomic => absurd atomic (by decide)) (by decide +kernel)
    (by decide +kernel)

end Sshserv.Serv
