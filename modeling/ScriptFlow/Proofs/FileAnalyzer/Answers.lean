import ScriptFlow.FileAnalyzer
import ScriptFlow.Proofs.Basic
import Mathlib.Data.List.Forall2

/-!
# Answers without a cache

What the analysis of files answers if nothing is remembered: every file is analyzed by itself, and
the answer is the list of all reports, or the error of the first file that has one.

Main statements: `Analyzer.paths_without_cache`, `FileResult.reports_eq_ok_iff` and
`FileResult.exists_first_error`.
-/

namespace ScriptFlow

/-! ## Files by themselves -/

namespace Analyzer

variable (a : Analyzer) (w : Workspace)

/-- What the analysis of a file leaves without a cache. -/
def fresh (path : String) : FileResult :=
  ((⟨a, none⟩ : FileAnalyzer).file w none path).2

theorem fresh_of_error {path : String} {e : FileError} (h : w.contentOf path = .error e) :
    a.fresh w path = { report := { file := path }, error := some (.graphFile (.file e)) } := by
  simp only [fresh, FileAnalyzer.file, h]

theorem fresh_of_ok {path content : String} (h : w.contentOf path = .ok content) :
    a.fresh w path = a.content none path content := by
  simp only [fresh, FileAnalyzer.file, h, FileAnalyzer.lookUp]

/-- Without a cache the analysis of a file leaves no trace. -/
theorem file_without_cache (path : String) :
    (⟨a, none⟩ : FileAnalyzer).file w none path = (⟨a, none⟩, a.fresh w path) := by
  cases h : w.contentOf path with
  | error e => simp [fresh, FileAnalyzer.file, h]
  | ok content =>
    simp [fresh, FileAnalyzer.file, h, FileAnalyzer.lookUp, FileAnalyzer.remember]

theorem files_without_cache (files : List String) :
    (⟨a, none⟩ : FileAnalyzer).files w none files = (⟨a, none⟩, files.map (a.fresh w)) := by
  -- Induction on the files: the analyzer is the same after each of them.
  induction files with
  | nil => rfl
  | cons path rest ih => simp [FileAnalyzer.files, file_without_cache, ih]

/-- Without a cache the answer is made of the results of the files. -/
theorem paths_without_cache {paths files : List String} (h : w.collect paths = .ok files) :
    ((⟨a, none⟩ : FileAnalyzer).paths w none paths).2 =
      FileResult.reports (files.map (a.fresh w)) := by
  simp [FileAnalyzer.paths, h, files_without_cache]

end Analyzer

/-! ## Answers for any way to analyze contents -/

namespace Workspace

/-- What the analysis of a file leaves if contents are analyzed in the given way. -/
def resultBy (analyze : String → String → FileResult) (w : Workspace) (path : String) :
    FileResult :=
  match w.contentOf path with
  | .error e => { report := { file := path }, error := some (.graphFile (.file e)) }
  | .ok content => analyze path content

/-- What the analysis of the files meant by a list of paths answers if contents are analyzed in the
given way. -/
def answerBy (analyze : String → String → FileResult) (w : Workspace) (paths : List String) :
    Except AnalysisError (List Report) :=
  match w.collect paths with
  | .error e => .error (.collecting e)
  | .ok files => FileResult.reports (files.map (w.resultBy analyze))

end Workspace

/-- Without a cache, files are analyzed by their contents alone. -/
theorem Analyzer.paths_eq_answerBy (a : Analyzer) (w : Workspace) (paths : List String) :
    ((⟨a, none⟩ : FileAnalyzer).paths w none paths).2 = w.answerBy (a.content none) paths := by
  -- Reading the file and analyzing its content is all that happens to it.
  have hfresh : a.fresh w = w.resultBy (a.content none) := by
    funext path
    cases h : w.contentOf path with
    | error e => rw [a.fresh_of_error w h, Workspace.resultBy, h]
    | ok content => rw [a.fresh_of_ok w h, Workspace.resultBy, h]
  cases h : w.collect paths with
  | error e => simp [FileAnalyzer.paths, Workspace.answerBy, h]
  | ok files => rw [a.paths_without_cache w h, Workspace.answerBy, h, hfresh]

/-! ## The reports or the first error -/

namespace FileResult

/-- Results that differ at most in their log records. -/
def Same (r r' : FileResult) : Prop :=
  r.report = r'.report ∧ r.error = r'.error

theorem reports_congr {l l' : List FileResult} (h : List.Forall₂ Same l l') :
    reports l = reports l' := by
  induction h with
  | nil => rfl
  | cons hsame _ ih => rw [reports, reports, hsame.1, hsame.2, ih]

variable {files : List String} {result : String → FileResult}

/-- Files that are all analyzed without an error have their reports in order. -/
theorem reports_eq_ok_iff {reports : List Report} :
    FileResult.reports (files.map result) = .ok reports ↔
      (∀ path ∈ files, (result path).error = none) ∧
        reports = files.map fun path => (result path).report := by
  induction files generalizing reports with
  | nil => simp [FileResult.reports, eq_comm]
  | cons path rest ih =>
    rw [List.map_cons, FileResult.reports, List.forall_mem_cons, List.map_cons]
    -- A first file with an error ends the list; else the others decide.
    cases herror : (result path).error with
    | some e => simp
    | none =>
      refine Except.map_eq_ok.trans ?_
      constructor
      · rintro ⟨others, hothers, rfl⟩
        obtain ⟨hok, rfl⟩ := ih.mp hothers
        exact ⟨⟨rfl, hok⟩, rfl⟩
      · rintro ⟨⟨-, hok⟩, rfl⟩
        exact ⟨_, ih.mpr ⟨hok, rfl⟩, rfl⟩

/-- An error is that of the first file that has one. -/
theorem exists_first_error {e : AnalysisError}
    (h : FileResult.reports (files.map result) = .error e) :
    ∃ before path rest, files = before ++ path :: rest ∧
      (∀ earlier ∈ before, (result earlier).error = none) ∧ (result path).error = some e := by
  induction files with
  | nil => cases h
  | cons path rest ih =>
    rw [List.map_cons, FileResult.reports] at h
    cases herror : (result path).error with
    | some e' =>
      rw [herror] at h
      cases h
      -- The first file has the error.
      exact ⟨[], path, rest, rfl, nofun, herror⟩
    | none =>
      -- The error comes from the rest, since the first file has none.
      have hrest : FileResult.reports (rest.map result) = .error e := by
        cases hreports : FileResult.reports (rest.map result) with
        | error e' => simpa [herror, hreports, Except.map] using h
        | ok reports => simp [herror, hreports, Except.map] at h
      obtain ⟨before, path', rest', rfl, hbefore, hpath'⟩ := ih hrest
      exact ⟨path :: before, path', rest', rfl, List.forall_mem_cons.mpr ⟨herror, hbefore⟩, hpath'⟩

end FileResult

end ScriptFlow
