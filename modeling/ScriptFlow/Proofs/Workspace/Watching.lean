import ScriptFlow.Proofs.Workspace.Installation

/-!
# What a watcher reacts to

Files found in a directory are chosen by the extension of their last name, changes are chosen by how
the whole name ends. Both choices agree on every name: an extension has no slash in it and no dot
but its first character. What they do not share is the rule for files that are given by their own
paths. These are collected whatever their names are, and their directories are watched, but a change
to one of them is only noticed if its name happens to end like that of a graph file.

Main statement: `watcher_misses_given_files_only`.
-/

namespace ScriptFlow

/-! ## Extensions are endings -/

namespace Text

/-- The last piece of a text is what follows the last separator. -/
theorem getLast?_splitAt (sep : Char) (cs : List Char) :
    (splitAt sep cs).getLast? = some (cs.rtakeWhile (· ≠ sep)) := by
  -- From the end of the text: its last character ends the piece or belongs to it.
  induction cs using List.reverseRecOn with
  | nil => rfl
  | append_singleton cs c ih =>
    by_cases hc : c = sep
    · subst hc
      rw [splitAt_eq_splitOn, List.splitOn_append_cons_self]
      simp
    · obtain ⟨before, last, hcs, hconcat⟩ := splitAt_concat_of_ne hc cs
      rw [hcs, List.getLast?_concat, Option.some_inj] at ih
      rw [hconcat, List.getLast?_concat, List.rtakeWhile_concat_pos _ _ _ (by simpa using hc), ih]

end Text

namespace Path

/-- The last name of a path is what follows its last slash. -/
theorem toList_lastName (path : String) :
    (lastName path).toList = path.toList.rtakeWhile (· ≠ '/') := by
  simp [lastName, names, List.getLast?_map, Text.getLast?_splitAt]

/-- **An extension is an ending.** The one of the last name is what the whole path ends in. -/
theorem extension_eq_iff {path : String} {t : List Char} (hdot : '.' ∉ t) (hslash : '/' ∉ t) :
    extension path = String.ofList ('.' :: t) ↔ '.' :: t <:+ path.toList := by
  -- Nothing in the ending is a slash, so it lies within the last name.
  have hname : ∀ c ∈ '.' :: t, decide (c ≠ '/') = true := by
    intro c hc
    rcases List.mem_cons.mp hc with rfl | hc
    · decide
    · exact decide_eq_true (ne_of_mem_of_not_mem hc hslash)
  rw [← suffix_rtakeWhile_iff hname, ← toList_lastName, cons_suffix_iff hdot]
  unfold extension
  -- A name without a dot has no extension, and does not end in one either.
  by_cases hmem : '.' ∈ (lastName path).toList
  · simp [hmem, List.rtakeWhile, String.ofList_inj]
  · simp [hmem]

end Path

theorem graphExtensions_spec {ending : String} (h : ending ∈ graphExtensions) :
    ∃ t, ending = String.ofList ('.' :: t) ∧ '.' ∉ t ∧ '/' ∉ t := by
  rcases List.mem_pair.mp h with rfl | rfl
  · exact ⟨"yaml".toList, by decide, by decide, by decide⟩
  · exact ⟨"yml".toList, by decide, by decide, by decide⟩

/-- **Changes are chosen like files.** -/
theorem isGraphEvent_eq_isGraphFile {change : Change}
    (hchange : change.write = true ∨ change.create = true) (name : String) :
    isGraphEvent name change = isGraphFile name := by
  have hpassed : (change.write || change.create) = true := by
    simpa using hchange
  rw [isGraphEvent, hpassed, Bool.true_and, Bool.eq_iff_iff, isGraphFile, List.any_eq_true,
    List.contains_iff_mem]
  -- One choice looks for an ending among the known ones, the other asks whether the extension is
  -- one.
  constructor
  · rintro ⟨ending, hmem, hsuffix⟩
    obtain ⟨t, rfl, hdot, hslash⟩ := graphExtensions_spec hmem
    rw [List.isSuffixOf_iff_suffix, String.toList_ofList] at hsuffix
    rwa [(Path.extension_eq_iff hdot hslash).mpr hsuffix]
  · intro hmem
    obtain ⟨t, hext, hdot, hslash⟩ := graphExtensions_spec hmem
    refine ⟨_, hmem, ?_⟩
    rw [List.isSuffixOf_iff_suffix, hext, String.toList_ofList]
    exact (Path.extension_eq_iff hdot hslash).mp hext

/-! ## Collected and watched -/

namespace Workspace

variable {w : Workspace} {paths rest files : List String} {path : String}

/-- A path leads to a file. -/
def IsFile (w : Workspace) (path : String) : Prop :=
  ∃ place content, w.inspect path = .ok (place, .file content)

/-- What the first of several paths adds to the collected files. -/
theorem collect_cons_eq_ok (h : w.collect (path :: rest) = .ok files) :
    ∃ others, w.collect rest = .ok others ∧
      (w.IsFile path ∧ files = path :: others ∨
        ∃ place, w.inspect path = .ok (place, .directory) ∧
          files = w.graphFilesBelow path place ++ others) := by
  rw [collect] at h
  cases hpath : w.inspect path with
  | error e => simp [hpath] at h
  | ok found =>
    obtain ⟨place, entry⟩ := found
    simp only [hpath] at h
    obtain ⟨others, hothers, rfl⟩ := Except.map_eq_ok.mp h
    refine ⟨others, hothers, ?_⟩
    cases entry with
    | file content => exact Or.inl ⟨⟨place, content, hpath⟩, rfl⟩
    | directory => exact Or.inr ⟨place, rfl, rfl⟩

/-- What is collected are the files among the paths and the graph files below the directories. -/
theorem mem_collect_iff (h : w.collect paths = .ok files) {file : String} :
    file ∈ files ↔ file ∈ paths ∧ w.IsFile file ∨
      ∃ dir ∈ paths, ∃ place, w.inspect dir = .ok (place, .directory) ∧
        file ∈ w.graphFilesBelow dir place := by
  -- On the paths, each of which is a file or a directory.
  induction paths generalizing files with
  | nil =>
    cases h
    simp
  | cons path rest ih =>
    obtain ⟨others, hothers, ⟨⟨place, content, hpath⟩, rfl⟩ | ⟨place, hpath, rfl⟩⟩ :=
      collect_cons_eq_ok h
    · have hfile : w.IsFile path := ⟨place, content, hpath⟩
      have hdir : ∀ place, w.inspect path ≠ .ok (place, .directory) := by simp [hpath]
      simp only [List.mem_cons, ih hothers, exists_eq_or_imp]
      grind
    · have hfile : ¬ w.IsFile path := by simp [IsFile, hpath]
      simp only [List.mem_append, List.mem_cons, ih hothers, exists_eq_or_imp]
      grind

/-- Paths that can be collected can be watched. The directory of each file that is given is. -/
theorem exists_watched (h : w.collect paths = .ok files) :
    ∃ dirs, w.watched paths = .ok dirs ∧
      ∀ path ∈ paths, w.IsFile path → Path.parent path ∈ dirs := by
  -- On the paths, each of which adds what is watched for it.
  induction paths generalizing files with
  | nil => exact ⟨[], rfl, by simp⟩
  | cons path rest ih =>
    obtain ⟨others, hothers, hpath⟩ := collect_cons_eq_ok h
    obtain ⟨dirs, hdirs, hmem⟩ := ih hothers
    -- A file adds its directory, and a directory is no file.
    obtain ⟨found, hfound, hparent⟩ : ∃ found, w.watchedFor path = .ok found ∧
        (w.IsFile path → Path.parent path ∈ found) := by
      rcases hpath with ⟨⟨place, content, hpath⟩, -⟩ | ⟨place, hpath, -⟩
      · exact ⟨[Path.parent path], by simp [watchedFor, hpath], by simp⟩
      · have hnot : ¬ w.IsFile path := by simp [IsFile, hpath]
        rw [watchedFor, hpath]
        exact ⟨_, rfl, fun hfile => absurd hfile hnot⟩
    refine ⟨found ++ dirs, by simp [watched, hfound, hdirs, Except.map], ?_⟩
    intro file hfile hplain
    rcases List.mem_cons.mp hfile with rfl | hrest
    · exact List.mem_append_left dirs (hparent hplain)
    · exact List.mem_append_right found (hmem file hrest hplain)

end Workspace

open Workspace in
/-- **A watcher misses given files only.** Take any paths that can be collected, and any change that
writes or creates. For every name the change is noticed exactly if a file of that name would be
taken for a graph file in a directory. So below a directory among the paths all files that are
collected are noticed, and no others. The files that are collected without being noticed are exactly
those which are among the paths themselves and have a name that does not end like that of a graph
file. The names of the changes are all that is missing for them: their directories are watched. -/
theorem watcher_misses_given_files_only {w : Workspace} {paths files : List String}
    (hfiles : w.collect paths = .ok files) {change : Change}
    (hchange : change.write = true ∨ change.create = true) :
    (∀ name, isGraphEvent name change = isGraphFile name) ∧
      (∀ dir ∈ paths, ∀ place, w.inspect dir = .ok (place, .directory) →
        ∀ below content, (place ++ below, .file content) ∈ w.tree.entries → below ≠ [] →
          (isGraphEvent (Path.join dir below) change = true ↔
            Path.join dir below ∈ w.graphFilesBelow dir place)) ∧
      (∀ file, file ∈ files ∧ isGraphEvent file change = false ↔
        file ∈ paths ∧ w.IsFile file ∧ isGraphFile file = false) ∧
      ∃ dirs, w.watched paths = .ok dirs ∧
        ∀ file ∈ paths, w.IsFile file → Path.parent file ∈ dirs := by
  have hagree := isGraphEvent_eq_isGraphFile hchange
  refine ⟨hagree, ?_, ?_, exists_watched hfiles⟩
  · -- Being noticed and being collected is decided by the same name.
    intro dir _ place _ below content hentry hne
    rw [hagree, mem_graphFilesBelow_iff]
    constructor
    · intro hgraph
      exact ⟨below, content, hentry, hne, rfl, hgraph⟩
    · rintro ⟨-, -, -, -, -, hgraph⟩
      exact hgraph
  · intro file
    rw [hagree, mem_collect_iff hfiles]
    constructor
    · rintro ⟨⟨hpath, hfile⟩ | ⟨dir, -, place, -, hbelow⟩, hname⟩
      · exact ⟨hpath, hfile, hname⟩
      · -- A file from a directory has been chosen by its name.
        obtain ⟨-, -, -, -, -, hgraph⟩ := mem_graphFilesBelow_iff.mp hbelow
        exact absurd hgraph (by simp [hname])
    · rintro ⟨hpath, hfile, hname⟩
      exact ⟨Or.inl ⟨hpath, hfile⟩, hname⟩

/-! ## A graph under another name -/

/-- A graph in a file whose name does not tell, and a directory with names that have several dots or
start with one. -/
def plainlyNamed : Workspace :=
  { tree := .ofList
      [ (["graph.txt"], .file "nodes:\n  - name: a\n    text: mkdir a\n"),
        (["v1.yaml"], .directory),
        (["v1.yaml", ".yml"], .file "nodes: []\n"),
        (["v1.yaml", "a.yaml.bak"], .file ""),
        (["v1.yaml", "b.tar.yaml"], .file "nodes: []\n") ] }

theorem collect_plainlyNamed :
    plainlyNamed.collect ["graph.txt", "v1.yaml"] =
      .ok ["graph.txt", "v1.yaml/.yml", "v1.yaml/b.tar.yaml"] := by
  decide +kernel

/-- The file that is given holds a graph and is collected, but writing it is not noticed, although
its directory is watched. -/
theorem watcher_misses_given_files_only_plainlyNamed :
    plainlyNamed.collect ["graph.txt", "v1.yaml"] =
        .ok ["graph.txt", "v1.yaml/.yml", "v1.yaml/b.tar.yaml"] ∧
      (Script.load plainlyNamed "graph.txt").toOption.isSome = true ∧
      isGraphEvent "graph.txt" { write := true } = false ∧
      isGraphEvent "v1.yaml/.yml" { write := true } = true ∧
      isGraphEvent "v1.yaml/b.tar.yaml" { write := true } = true ∧
      ∃ dirs, plainlyNamed.watched ["graph.txt", "v1.yaml"] = .ok dirs ∧ "." ∈ dirs := by
  have hfile : plainlyNamed.IsFile "graph.txt" := ⟨["graph.txt"], _, rfl⟩
  have hchange : ({ write := true } : Change).write = true ∨
      ({ write := true } : Change).create = true := Or.inl rfl
  obtain ⟨hagree, -, hmissed, dirs, hdirs, hparent⟩ :=
    watcher_misses_given_files_only collect_plainlyNamed hchange
  refine ⟨collect_plainlyNamed, by decide +kernel, ?_, ?_, ?_, dirs, hdirs, ?_⟩
  · -- The name has no extension of a graph file, so the file is one of those that are missed.
    exact ((hmissed "graph.txt").mpr ⟨by simp, hfile, by decide +kernel⟩).2
  · rw [hagree]
    decide +kernel
  · rw [hagree]
    decide +kernel
  · exact hparent "graph.txt" (by simp) hfile

/-- Not every file that is analyzed is noticed when it is written. -/
theorem collected_file_not_noticed :
    ¬ ∀ (w : Workspace) (paths files : List String), w.collect paths = .ok files →
      ∀ file ∈ files, ∀ change : Change, (change.write = true ∨ change.create = true) →
        isGraphEvent file change = true := by
  intro h
  have hnoticed := h plainlyNamed _ _ collect_plainlyNamed "graph.txt" (by simp) { write := true }
    (Or.inl rfl)
  exact absurd hnoticed (by decide +kernel)

end ScriptFlow
