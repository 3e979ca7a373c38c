import ScriptFlow.Config.File
import ScriptFlow.Proofs.FileAnalyzer.Answers
import ScriptFlow.Proofs.SortedMap
import ScriptFlow.Proofs.Workspace.Resolution
import ScriptFlow.Proofs.Yaml.Strictness

/-!
# A configuration among the graph files

The name of the configuration file ends like that of a graph file, so a directory that holds one
has one more graph file, whose content describes no graph: it has a field that descriptions do not
have. Nothing else changes. The files that were there are read as before, and analyzing them by
their own paths gives the reports that it gave; analyzing the directory fails.

Little of the YAML format matters for that. Whatever reads graphs and writes configurations, the
analysis stops as long as the reader refuses keys that are no fields and the writer writes sections
as keys.

Main statements: `Codec.stops_analysis` and `install_stops_analysis`.
-/

namespace ScriptFlow

/-! ## The name of the configuration file -/

theorem Path.plain_defaultPath : Path.Plain Config.defaultPath :=
  ⟨by decide, by decide, by decide, by decide⟩

theorem isGraphFile_defaultPath {dir : String} (hdir : dir ≠ "") :
    isGraphFile (Path.join dir [Config.defaultPath]) = true := by
  -- The extension is read from the last name alone, whatever the directory is.
  simp only [isGraphFile, Path.extension, Path.lastName_join hdir Path.plain_defaultPath]
  decide

namespace Workspace

variable {w : Workspace} {path dir : String} {place target : Place} {content : String}

/-! ## Reading after a file was put -/

/-- A path has a content exactly if it leads to a file. -/
theorem contentOf_eq_ok_iff :
    w.contentOf path = .ok content ↔ ∃ place, w.resolve path = .ok (place, .file content) := by
  unfold contentOf
  cases w.resolve path with
  | error f => simp
  | ok r =>
    obtain ⟨place, entry⟩ := r
    cases entry with
    | directory => simp
    | file content' => simp [eq_comm]

/-- Once a file was put, a path that leads to its place leads to it, and all others lead where they
led. -/
theorem resolve_put {e : Entry} (htarget : w.entryAt target ≠ some .directory) (content : String)
    (h : w.resolve path = .ok (place, e)) :
    (w.put target (.file content)).resolve path =
      .ok (place, if target = place then .file content else e) := by
  unfold resolve at h ⊢
  split at h
  · cases h
  · exact follow_put htarget content h

theorem contentOf_put (htarget : w.entryAt target ≠ some .directory) (new : String)
    (h : w.resolve path = .ok (place, .file content)) :
    (w.put target (.file new)).contentOf path = .ok (if target = place then new else content) := by
  rw [contentOf_eq_ok_iff]
  refine ⟨place, ?_⟩
  rw [resolve_put htarget new h]
  split <;> rfl

/-! ## The graph files of a directory -/

theorem collect_directory (h : w.resolve dir = .ok (place, .directory)) :
    w.collect [dir] = .ok (w.graphFilesBelow dir place) := by
  simp [collect, inspect, h, Except.mapError, Except.map]

/-- Files are collected as they are given. -/
theorem collect_files {files : List String}
    (h : ∀ path ∈ files, ∃ place content, w.resolve path = .ok (place, .file content)) :
    w.collect files = .ok files := by
  -- On the paths, each of which adds itself.
  induction files with
  | nil => rfl
  | cons path rest ih =>
    obtain ⟨⟨place, content, hpath⟩, hrest⟩ := List.forall_mem_cons.mp h
    simp [collect, inspect, hpath, Except.mapError, ih hrest, Except.map]

/-- The graph files of a directory are the files below it with a name of that kind. -/
theorem mem_graphFilesBelow_iff {file : String} :
    file ∈ w.graphFilesBelow dir place ↔
      ∃ below content, (place ++ below, .file content) ∈ w.tree.entries ∧ below ≠ [] ∧
        file = Path.join dir below ∧ isGraphFile file = true := by
  unfold graphFilesBelow below
  rw [List.mem_filterMap]
  constructor
  · rintro ⟨e, hmem, hfile⟩
    obtain ⟨⟨full, entry⟩, hentry, rfl⟩ := List.mem_map.mp hmem
    obtain ⟨hentries, hbelow⟩ := List.mem_filter.mp hentry
    -- What stands below the place has its names first.
    simp only [Bool.and_eq_true, List.isPrefixOf_iff_prefix, decide_eq_true_eq] at hbelow
    obtain ⟨⟨names, rfl⟩, hother⟩ := hbelow
    simp only [List.drop_left] at hfile
    cases entry with
    | directory => cases hfile
    | file content =>
      simp only at hfile
      split at hfile
      · rename_i hgraph
        obtain rfl := Option.some.inj hfile
        refine ⟨names, content, hentries, ?_, rfl, hgraph⟩
        rintro rfl
        simp at hother
      · cases hfile
  · -- The entry is found among those below the place, and its name is kept.
    rintro ⟨names, content, hentry, hne, rfl, hgraph⟩
    refine ⟨(names, .file content), ?_, by simp [hgraph]⟩
    refine List.mem_map.mpr ⟨(place ++ names, .file content), ?_, by simp⟩
    simp [List.mem_filter, hentry, hne]

/-- A file put into a directory is its only new graph file. -/
theorem mem_graphFilesBelow_put {name file : String} :
    file ∈ (w.put (place ++ [name]) (.file content)).graphFilesBelow dir place →
      file = Path.join dir [name] ∨ file ∈ w.graphFilesBelow dir place := by
  -- The entry of the file is the new one or an old one.
  intro h
  obtain ⟨names, content', hentry, hne, hfile, hgraph⟩ := mem_graphFilesBelow_iff.mp h
  rcases SortedMap.mem_place hentry with heq | hold
  · left
    obtain ⟨hplace, -⟩ := Prod.mk.inj heq
    rw [hfile, List.append_cancel_left hplace]
  · exact Or.inr (mem_graphFilesBelow_iff.mpr ⟨names, content', hold, hne, hfile, hgraph⟩)

/-- A file put into a directory under the name of a graph file is one of its graph files. -/
theorem join_mem_graphFilesBelow_put {name : String}
    (hgraph : isGraphFile (Path.join dir [name]) = true) :
    Path.join dir [name] ∈ (w.put (place ++ [name]) (.file content)).graphFilesBelow dir place := by
  refine mem_graphFilesBelow_iff.mpr ⟨[name], content, ?_, by simp, rfl, hgraph⟩
  rw [SortedMap.mem_entries_iff]
  simp [put]

end Workspace

/-! ## The analysis of a directory with a refused file -/

namespace Workspace

variable {w : Workspace} {path : String} {analyze : String → String → FileResult} {new : String}
  {refusal : String → AnalysisError}

/-- A file that is analyzed without an error can be read. -/
theorem exists_content_of_resultBy (h : (w.resultBy analyze path).error = none) :
    ∃ place content, w.resolve path = .ok (place, .file content) := by
  cases hcontent : w.contentOf path with
  | error e => simp [resultBy, hcontent] at h
  | ok content =>
    obtain ⟨place, hplace⟩ := contentOf_eq_ok_iff.mp hcontent
    exact ⟨place, content, hplace⟩

/-- After a file was put somewhere, a file that was analyzed without an error has the new content,
or is analyzed as before. -/
theorem resultBy_put {target : Place} (htarget : w.entryAt target ≠ some .directory)
    (h : (w.resultBy analyze path).error = none) :
    w.entryAt target ≠ none ∧ (w.put target (.file new)).contentOf path = .ok new ∨
      (w.put target (.file new)).resultBy analyze path = w.resultBy analyze path := by
  obtain ⟨place, content, hresolve⟩ := exists_content_of_resultBy h
  have hnew := contentOf_put htarget new hresolve
  by_cases hsame : target = place
  · -- The file is the one that was replaced.
    left
    rw [if_pos hsame] at hnew
    have hentry := entryAt_of_follow (follow_of_resolve hresolve).2
    refine ⟨?_, hnew⟩
    rw [hsame, hentry]
    exact Option.some_ne_none _
  · -- The file is another one, so its content is the one it had.
    right
    rw [if_neg hsame] at hnew
    rw [resultBy, hnew, resultBy, contentOf_eq_ok_iff.mpr ⟨place, hresolve⟩]

/-- Where every file is analyzed without an error or has a content that is refused, and one has it,
the analysis stops at one that has it. -/
theorem stops_at_refused (hrefused : ∀ path, (analyze path new).error = some (refusal path))
    {files : List String}
    (hfiles : ∀ path ∈ files, w.contentOf path = .ok new ∨ (w.resultBy analyze path).error = none)
    {file : String} (hfile : file ∈ files) (hread : w.contentOf file = .ok new) :
    ∃ path ∈ files, w.contentOf path = .ok new ∧
      FileResult.reports (files.map (w.resultBy analyze)) = .error (refusal path) := by
  have herror : ∀ path, w.contentOf path = .ok new →
      (w.resultBy analyze path).error = some (refusal path) := by
    intro path hcontent
    rw [resultBy, hcontent]
    exact hrefused path
  -- An analysis that goes through would have gone through at the file that was refused.
  cases hreports : FileResult.reports (files.map (w.resultBy analyze)) with
  | ok reports =>
    have hnone := (FileResult.reports_eq_ok_iff.mp hreports).1 file hfile
    rw [herror file hread] at hnone
    cases hnone
  | error e =>
    -- The first file with an error is none of those without one, so it holds the refused content.
    obtain ⟨before, path, rest, rfl, -, hfirst⟩ := FileResult.exists_first_error hreports
    have hpath : path ∈ before ++ path :: rest := by simp
    rcases hfiles path hpath with hcontent | hnone
    · rw [herror path hcontent] at hfirst
      exact ⟨path, hpath, hcontent, by rw [Option.some.inj hfirst]⟩
    · rw [hnone] at hfirst
      cases hfirst

/-- A file that is refused stops the analysis of the directory it is put into, if its name is that
of a graph file. The files that were there before are analyzed as before by their own paths, unless
the new file replaced one of them. -/
theorem store_stops_analysis {w' : Workspace} {dir name : String} {place : Place}
    {reports : List Report} (hplain : Path.Plain name)
    (hgraph : isGraphFile (Path.join dir [name]) = true)
    (hrefused : ∀ path, (analyze path new).error = some (refusal path))
    (hdir : w.inspect dir = .ok (place, .directory))
    (hok : w.answerBy analyze [dir] = .ok reports)
    (hstore : w.store (Path.join dir [name]) new = .ok w') :
    (∃ files path, w'.collect [dir] = .ok files ∧ path ∈ files ∧ w'.contentOf path = .ok new ∧
      w'.answerBy analyze [dir] = .error (refusal path)) ∧
    (w.entryAt (place ++ [name]) = none →
      ∃ files, w.collect [dir] = .ok files ∧ w'.answerBy analyze files = .ok reports) := by
  have hresolve : w.resolve dir = .ok (place, .directory) := Except.mapError_eq_ok.mp hdir
  obtain ⟨htarget, hput, hread⟩ := store_join hplain hresolve hstore
  have hnew : w'.contentOf (Path.join dir [name]) = .ok new :=
    contentOf_eq_ok_iff.mpr ⟨_, hread⟩
  have hfiles := collect_directory hresolve
  rw [answerBy, hfiles] at hok
  obtain ⟨hfresh, hreports⟩ := FileResult.reports_eq_ok_iff.mp hok
  constructor
  · -- The directory stands where it stood, and all of its graph files but the new one were there.
    have hresolve' : w'.resolve dir = .ok (place, .directory) := by
      rw [hput, resolve_put htarget _ hresolve, if_neg (by simp)]
    have hfiles' := collect_directory hresolve'
    have hmem : Path.join dir [name] ∈ w'.graphFilesBelow dir place := by
      rw [hput]
      exact join_mem_graphFilesBelow_put hgraph
    have hall : ∀ path ∈ w'.graphFilesBelow dir place,
        w'.contentOf path = .ok new ∨ (w'.resultBy analyze path).error = none := by
      -- A file of the directory is the new one, the one it replaced, or another one.
      intro path hpath
      rw [hput] at hpath
      rcases mem_graphFilesBelow_put hpath with rfl | hold
      · exact Or.inl hnew
      · rw [hput]
        rcases resultBy_put htarget (hfresh path hold) with ⟨-, hcontent⟩ | hsame
        · exact Or.inl hcontent
        · exact Or.inr (hsame ▸ hfresh path hold)
    obtain ⟨path, hpath, hcontent, hstop⟩ := stops_at_refused hrefused hall hmem hnew
    refine ⟨_, path, hfiles', hpath, hcontent, ?_⟩
    rw [answerBy, hfiles']
    exact hstop
  · -- Nothing was replaced, so each of the old files is analyzed as before.
    intro hfree
    have hsame : ∀ path ∈ w.graphFilesBelow dir place,
        w'.resultBy analyze path = w.resultBy analyze path := by
      intro path hpath
      rw [hput]
      rcases resultBy_put htarget (hfresh path hpath) with ⟨hused, -⟩ | hsame
      · exact absurd hfree hused
      · exact hsame
    have hgiven : w'.collect (w.graphFilesBelow dir place) = .ok (w.graphFilesBelow dir place) :=
      collect_files fun path hpath =>
        exists_content_of_resultBy (hsame path hpath ▸ hfresh path hpath)
    refine ⟨_, hfiles, ?_⟩
    rw [answerBy, hgiven]
    dsimp only
    rw [List.map_congr_left hsame]
    exact hok

end Workspace

/-! ## Reading graphs and writing configurations -/

/-- What reads graphs and writes configurations, as far as it matters which texts the writer makes
and the reader refuses. -/
structure Codec where
  /-- The graph that a text describes. -/
  read : String → Except GraphTextError Script
  /-- A configuration as a text. -/
  write : Config → String
  /-- The keys of the mapping that a text holds. -/
  keys : String → List String
  /-- A text with a key that is no field of a description is refused. -/
  refuses : ∀ text name, name ∈ keys text → name ∉ Description.yamlType.fields.map (·.name) →
    ∃ e, read text = .error (.decoding e)
  /-- The analysis section of the default configuration is a key. -/
  writes : "analysis" ∈ keys (write .default)

namespace Codec

/-- The default configuration is no graph. -/
theorem exists_refusal (k : Codec) : ∃ e, k.read (k.write .default) = .error (.decoding e) :=
  k.refuses _ "analysis" k.writes (by decide)

/-- **A configuration in a directory stops its analysis, whatever the format.** Take any directory
that is analyzed without an error, by any analyzer and by any path. Once the default configuration
was stored in it under the default name, the analysis of the directory fails at a file that holds
the configuration. Unless the configuration replaced one of them, the graph files that were there
still give the same reports when they are given by their own paths. -/
theorem stops_analysis (k : Codec) (a : Analyzer) {w w' : Workspace} {dir : String} {place : Place}
    {reports : List Report} (hdir : w.inspect dir = .ok (place, .directory))
    (hok : w.answerBy (a.contentBy k.read none) [dir] = .ok reports)
    (hstore : w.store (Path.join dir [Config.defaultPath]) (k.write .default) = .ok w') :
    (∃ files path e, w'.collect [dir] = .ok files ∧ path ∈ files ∧
      w'.contentOf path = .ok (k.write .default) ∧
      k.read (k.write .default) = .error (.decoding e) ∧
      w'.answerBy (a.contentBy k.read none) [dir] =
        .error (.graphFile (.text path (.decoding e)))) ∧
    (w.entryAt (place ++ [Config.defaultPath]) = none →
      ∃ files, w.collect [dir] = .ok files ∧
        w'.answerBy (a.contentBy k.read none) files = .ok reports) := by
  -- That is all that matters of the format: the configuration is refused under every name.
  obtain ⟨e, he⟩ := k.exists_refusal
  have hrefused : ∀ path, (a.contentBy k.read none path (k.write .default)).error =
      some (.graphFile (.text path (.decoding e))) := by
    intro path
    rw [Analyzer.contentBy, he]
  have hne : dir ≠ "" := (Workspace.follow_of_resolve (Except.mapError_eq_ok.mp hdir)).1
  obtain ⟨⟨files, path, hfiles, hpath, hcontent, hstop⟩, hothers⟩ :=
    Workspace.store_stops_analysis Path.plain_defaultPath (isGraphFile_defaultPath hne) hrefused
      hdir hok hstore
  exact ⟨⟨files, path, e, hfiles, hpath, hcontent, he, hstop⟩, hothers⟩

end Codec

/-! ## YAML -/

/-- What is wrong with the default configuration as a graph: descriptions have no field of the name
in its second line. -/
def Config.misfit : Yaml.Error :=
  .misfits [.unknownField 2 "analysis" "graphfile.Description"]

/-- The text of the default configuration has its analysis section as a key, and no description is
decoded from it. -/
theorem Config.decode_default :
    "analysis" ∈ Yaml.keyNames Config.default.render ∧
      Yaml.decodeDocument Description.yamlType.decode {} Config.default.render =
        .error Config.misfit := by
  -- Both at once, since most of the work is to read the text.
  decide +kernel

/-- The default configuration is refused as a graph for its second line alone. -/
theorem Script.parse_default :
    Script.parse Config.default.render = .error (.decoding Config.misfit) := by
  rw [Script.parse, Config.decode_default.2]

/-- Graphs and configurations in YAML. -/
def Yaml.codec : Codec where
  read := Script.parse
  write := Config.render
  keys := Yaml.keyNames
  refuses _ _ := Script.parse_unknown
  writes := Config.decode_default.1

theorem Yaml.codec_read : Yaml.codec.read = Script.parse := rfl

theorem Yaml.codec_write : Yaml.codec.write = Config.render := rfl

theorem Config.install_eq {w : Workspace} {dir : String} (hdir : dir ≠ "") :
    Config.install w (Path.join dir [Config.defaultPath]) =
      w.store (Path.join dir [Config.defaultPath]) Config.default.render := by
  have hne : Path.join dir [Config.defaultPath] ≠ "" := by
    intro hempty
    have hlast := Path.lastName_join hdir Path.plain_defaultPath
    rw [hempty] at hlast
    exact absurd hlast (by decide)
  rw [Config.install, Config.save, Config.newPath, if_neg hne]

/-- **A configuration in a directory stops its analysis.** Take any directory that is analyzed
without an error, by any analyzer and by any path. Once the default configuration was stored in it
under the default name, the analysis of the directory fails at a file that holds the configuration,
which it takes for a graph. Only the choice of the files is to blame: unless the configuration
replaced one of them, the graph files that were there still give the same reports when they are
given by their own paths. -/
theorem install_stops_analysis (a : Analyzer) {w w' : Workspace} {dir : String} {place : Place}
    {reports : List Report} (hdir : w.inspect dir = .ok (place, .directory))
    (hok : ((⟨a, none⟩ : FileAnalyzer).paths w none [dir]).2 = .ok reports)
    (hinstall : Config.install w (Path.join dir [Config.defaultPath]) = .ok w') :
    (∃ files path, w'.collect [dir] = .ok files ∧ path ∈ files ∧
      w'.contentOf path = .ok Config.default.render ∧
      ((⟨a, none⟩ : FileAnalyzer).paths w' none [dir]).2 =
        .error (.graphFile (.text path (.decoding
          (.misfits [.unknownField 2 "analysis" "graphfile.Description"]))))) ∧
      (w.entryAt (place ++ [Config.defaultPath]) = none →
        ∃ files, w.collect [dir] = .ok files ∧
          ((⟨a, none⟩ : FileAnalyzer).paths w' none files).2 = .ok reports) := by
  -- Both the installation and the analyzer of files use the format through the codec only.
  have hne : dir ≠ "" := (Workspace.follow_of_resolve (Except.mapError_eq_ok.mp hdir)).1
  rw [Config.install_eq hne, ← Yaml.codec_write] at hinstall
  rw [a.paths_eq_answerBy, Analyzer.content, ← Yaml.codec_read] at hok
  obtain ⟨⟨files, path, e, hfiles, hpath, hcontent, hrefused, hstop⟩, hothers⟩ :=
    Yaml.codec.stops_analysis a hdir hok hinstall
  -- The reader of YAML texts names the line, the key and the type.
  rw [Yaml.codec_read, Yaml.codec_write, Script.parse_default] at hrefused
  cases hrefused
  constructor
  · exact ⟨files, path, hfiles, hpath, hcontent, (a.paths_eq_answerBy _ _).trans hstop⟩
  · intro hfree
    obtain ⟨files, hfiles, hsame⟩ := hothers hfree
    exact ⟨files, hfiles, (a.paths_eq_answerBy _ _).trans hsame⟩

/-! ## A directory with one graph -/

/-- A directory with a graph of one command. -/
def oneCommand : Workspace :=
  { tree := .ofList [(["a.yaml"], .file "nodes:\n  - name: a\n    text: mkdir a\n")] }

theorem oneCommand_installed :
    ∃ a reports w' e, Analyzer.new? .default = .ok a ∧
      oneCommand.inspect "." = .ok ([], .directory) ∧
      ((⟨a, none⟩ : FileAnalyzer).paths oneCommand none ["."]).2 = .ok reports ∧
      Config.install oneCommand (Path.join "." [Config.defaultPath]) = .ok w' ∧
      ((⟨a, none⟩ : FileAnalyzer).paths w' none ["."]).2 = .error e := by
  -- The analysis and the installation are run once, and all that is needed is read off the results.
  have hrun : ((Analyzer.new? .default).toOption.bind fun a =>
      (Config.install oneCommand (Path.join "." [Config.defaultPath])).toOption.map fun w' =>
        (((⟨a, none⟩ : FileAnalyzer).paths oneCommand none ["."]).2.toOption.isSome,
          ((⟨a, none⟩ : FileAnalyzer).paths w' none ["."]).2.toOption.isSome)) =
      some (true, false) := by
    decide +kernel
  cases hnew : Analyzer.new? .default with
  | error e => simp [hnew, Except.toOption] at hrun
  | ok a =>
    cases hinstall : Config.install oneCommand (Path.join "." [Config.defaultPath]) with
    | error e => simp [hnew, hinstall, Except.toOption] at hrun
    | ok w' =>
      simp only [hnew, hinstall, Except.toOption, Option.bind_some, Option.map_some,
        Option.some_inj, Prod.mk.injEq] at hrun
      obtain ⟨hbefore, hafter⟩ := hrun
      cases hok : ((⟨a, none⟩ : FileAnalyzer).paths oneCommand none ["."]).2 with
      | error e => simp [hok] at hbefore
      | ok reports =>
        cases hfail : ((⟨a, none⟩ : FileAnalyzer).paths w' none ["."]).2 with
        | ok reports' => simp [hfail] at hafter
        | error e => exact ⟨a, reports, w', e, rfl, rfl, hok, rfl, hfail⟩

/-- Installing a configuration can turn a successful analysis into a failing one. -/
theorem install_disturbs_analysis :
    ¬ ∀ (a : Analyzer) (w w' : Workspace) (dir : String) (place : Place) (reports : List Report),
      Analyzer.new? .default = .ok a → w.inspect dir = .ok (place, .directory) →
      ((⟨a, none⟩ : FileAnalyzer).paths w none [dir]).2 = .ok reports →
      Config.install w (Path.join dir [Config.defaultPath]) = .ok w' →
      ((⟨a, none⟩ : FileAnalyzer).paths w' none [dir]).2 = .ok reports := by
  intro h
  obtain ⟨a, reports, w', e, hnew, hdir, hok, hinstall, hfail⟩ := oneCommand_installed
  have hstill := h a oneCommand w' "." [] reports hnew hdir hok hinstall
  rw [hfail] at hstill
  cases hstill

theorem install_stops_analysis_oneCommand :
    ∃ a reports w', oneCommand.inspect "." = .ok ([], .directory) ∧
      ((⟨a, none⟩ : FileAnalyzer).paths oneCommand none ["."]).2 = .ok reports ∧
      Config.install oneCommand (Path.join "." [Config.defaultPath]) = .ok w' ∧
      (∃ path, ((⟨a, none⟩ : FileAnalyzer).paths w' none ["."]).2 =
        .error (.graphFile (.text path (.decoding
          (.misfits [.unknownField 2 "analysis" "graphfile.Description"]))))) ∧
      ∃ files, oneCommand.collect ["."] = .ok files ∧
        ((⟨a, none⟩ : FileAnalyzer).paths w' none files).2 = .ok reports := by
  obtain ⟨a, reports, w', e, -, hdir, hok, hinstall, -⟩ := oneCommand_installed
  -- Nothing stood under the name of the configuration, so no graph file was replaced.
  obtain ⟨⟨files, path, -, -, -, hstop⟩, hothers⟩ := install_stops_analysis a hdir hok hinstall
  exact ⟨a, reports, w', hdir, hok, hinstall, ⟨path, hstop⟩, hothers rfl⟩

end ScriptFlow
