import ScriptFlow.Proofs.FileAnalyzer.Workers

/-!
# Sessions with a cache

A cache outlives the run that filled it: files are edited, analyzed, edited again. In a session any
edits and runs follow one another, and in each run the workers take their steps in any order. The
cache stays coherent all the time, so every run answers as if there were no cache and the files were
analyzed one by one.

Main statement: `cached_runs_transparent`. The run lemma is `Session.coherent_after`.
-/

namespace ScriptFlow

/-! ## Sessions -/

/-- A workspace and the cache of an analyzer that is used on it. -/
structure Session where
  workspace : Workspace
  cache : Cache := .empty

/-- What happens in a session. -/
inductive Session.Action
  /-- The files change in any way. -/
  | edit (w : Workspace)
  /-- The files meant by some paths are analyzed; the workers make steps in the given order. -/
  | analyze (paths : List String) (schedule : List Nat)

namespace Session

variable (a : Analyzer) (fingerprint : String → String)

/-- Analyzes a file in one go. -/
def file (s : Session) (path : String) : Session × FileResult :=
  match s.workspace.contentOf path with
  | .error e => (s, { report := { file := path }, error := some (.graphFile (.file e)) })
  | .ok content =>
    match s.cache.get path (fingerprint content) with
    | (some report, cache) =>
      ({ s with cache := cache }, { report := report, logs := [FileResult.cachedLog path] })
    | (none, cache) =>
      let r := a.content none path content
      ({ s with cache := if r.error.isNone then cache.set path (fingerprint content) r.report
          else cache }, r)

/-- Analyzes the files meant by a list of paths: a single file in one go, several files by workers
that take turns. There is no answer before all workers have finished. -/
def analyze (s : Session) (paths : List String) (schedule : List Nat) :
    Session × Option (Except AnalysisError (List Report)) :=
  match s.workspace.collect paths with
  | .error e => (s, some (.error (.collecting e)))
  | .ok [] => (s, some (.ok []))
  | .ok [path] =>
    let (s, r) := s.file a fingerprint path
    match r.error with
    | some e => (s, some (.error e))
    | none => (s, some (.ok [r.report]))
  | .ok files =>
    let pool := (Pool.start s.cache files).run a fingerprint s.workspace schedule
    ({ s with cache := pool.cache }, pool.answer?)

/-- The session after an action. -/
def perform (s : Session) : Action → Session
  | .edit w => { s with workspace := w }
  | .analyze paths schedule => (s.analyze a fingerprint paths schedule).1

/-- The session after a list of actions. -/
def after (s : Session) (actions : List Action) : Session :=
  actions.foldl (perform a fingerprint) s

/-- The contents that the workers of a run read. -/
def contentsRead (w : Workspace) (paths : List String) : Set String :=
  { content | ∃ files, w.collect paths = .ok files ∧
    ∃ path ∈ files, w.contentOf path = .ok content }

/-- The contents that are read in a list of actions. -/
def contentsOf : Workspace → List Action → Set String
  | _, [] => ∅
  | _, .edit w :: rest => contentsOf w rest
  | w, .analyze paths _ :: rest => contentsRead w paths ∪ contentsOf w rest

end Session

/-! ## Whole sessions -/

namespace Session

variable {a : Analyzer} {fingerprint : String → String} {contents : Set String} {s : Session}

/-- A file that is analyzed in one go is analyzed like by a worker of its own. -/
theorem run_of_one_file (s : Session) (path : String) :
    (Pool.start s.cache [path]).run a fingerprint s.workspace [0, 0, 0, 0] =
      { cache := (s.file a fingerprint path).1.cache
        workers := [(path, .finished (s.file a fingerprint path).2)] } := by
  -- The four turns: read, look up, analyze, store; each case stops where its work is done.
  cases hcontent : s.workspace.contentOf path with
  | error e => simp [Pool.start, Pool.run, Pool.turn, Worker.next, file, hcontent]
  | ok content =>
    cases hget : s.cache.get path (fingerprint content) with
    | mk found cache =>
      cases found with
      | some report => simp [Pool.start, Pool.run, Pool.turn, Worker.next, file, hcontent, hget]
      | none => simp [Pool.start, Pool.run, Pool.turn, Worker.next, file, hcontent, hget]

/-- Only the cache changes. -/
theorem file_fst (s : Session) (path : String) :
    (s.file a fingerprint path).1 = { s with cache := (s.file a fingerprint path).1.cache } := by
  unfold file
  split
  · rfl
  · split <;> rfl

/-- **One file, several files and no file alike**: every analysis of files is a run of workers. A
single file gets exactly the turns that it needs. -/
theorem analyze_eq_run {paths files : List String} (hfiles : s.workspace.collect paths = .ok files)
    (schedule : List Nat) :
    ∃ turns, s.analyze a fingerprint paths schedule =
        ({ s with
          cache := ((Pool.start s.cache files).run a fingerprint s.workspace turns).cache },
          ((Pool.start s.cache files).run a fingerprint s.workspace turns).answer?) ∧
      (turns = schedule ∨ ∀ i < files.length, 4 ≤ turns.count i) := by
  match files, hfiles with
  | [], hfiles =>
    -- Nothing to do, so no turns are needed.
    refine ⟨[], ?_, Or.inr (by simp)⟩
    simp only [analyze, hfiles]
    rfl
  | [path], hfiles =>
    -- Four turns for the only worker.
    refine ⟨[0, 0, 0, 0], ?_, Or.inr ?_⟩
    · rw [run_of_one_file, ← file_fst]
      cases herror : (s.file a fingerprint path).2.error with
      | some e => simp [analyze, hfiles, herror, Pool.answer?, Worker.result?, FileResult.reports]
      | none =>
        simp [analyze, hfiles, herror, Pool.answer?, Worker.result?, FileResult.reports, Except.map]
    · intro i hi
      obtain rfl : i = 0 := by simpa using hi
      decide
  -- Several files are done by workers as it is.
  | first :: second :: rest, hfiles => exact ⟨schedule, by simp [analyze, hfiles], Or.inl rfl⟩

variable (hinj : Set.InjOn fingerprint contents)

include hinj

/-- The workers of a run keep the cache coherent and their results right. -/
theorem sound_run (hcache : s.cache.Coherent a fingerprint contents) {paths files : List String}
    (hfiles : s.workspace.collect paths = .ok files)
    (hread : contentsRead s.workspace paths ⊆ contents) (turns : List Nat) :
    ((Pool.start s.cache files).run a fingerprint s.workspace turns).Sound a fingerprint contents
      s.workspace files := by
  refine Pool.sound_run hinj ?_ (Pool.sound_start hcache files) turns
  intro path hpath content hcontent
  exact hread ⟨files, hfiles, path, hpath, hcontent⟩

/-- A file that is analyzed in one go keeps the cache coherent, and its result is right. -/
theorem sound_file (hcache : s.cache.Coherent a fingerprint contents) {path : String}
    (hread : ∀ content, s.workspace.contentOf path = .ok content → content ∈ contents) :
    (s.file a fingerprint path).1.cache.Coherent a fingerprint contents ∧
      (s.file a fingerprint path).2.Same (a.fresh s.workspace path) := by
  have hsound : ((Pool.start s.cache [path]).run a fingerprint s.workspace [0, 0, 0, 0]).Sound a
      fingerprint contents s.workspace [path] :=
    Pool.sound_run hinj (by simpa using hread) (Pool.sound_start hcache [path]) _
  rw [run_of_one_file] at hsound
  exact ⟨hsound.cache, hsound.workers _ List.mem_cons_self⟩

/-- A run keeps the cache coherent. -/
theorem coherent_analyze (hcache : s.cache.Coherent a fingerprint contents) {paths : List String}
    (hread : contentsRead s.workspace paths ⊆ contents) (schedule : List Nat) :
    (s.analyze a fingerprint paths schedule).1.cache.Coherent a fingerprint contents := by
  cases hfiles : s.workspace.collect paths with
  | error e => simpa only [analyze, hfiles] using hcache
  | ok files =>
    obtain ⟨turns, hrun, -⟩ := analyze_eq_run (a := a) hfiles schedule
    rw [hrun]
    exact (sound_run hinj hcache hfiles hread turns).cache

omit hinj

theorem workspace_analyze (s : Session) (paths : List String) (schedule : List Nat) :
    (s.analyze a fingerprint paths schedule).1.workspace = s.workspace := by
  cases hfiles : s.workspace.collect paths with
  | error e => simp only [analyze, hfiles]
  | ok files =>
    obtain ⟨turns, hrun, -⟩ := analyze_eq_run (a := a) (s := s) hfiles schedule
    rw [hrun]

/-- The contents read in a history are those read in its parts. -/
theorem contentsOf_append (a : Analyzer) (fingerprint : String → String) (s : Session)
    (actions rest : List Action) :
    contentsOf s.workspace (actions ++ rest) = contentsOf s.workspace actions ∪
      contentsOf (s.after a fingerprint actions).workspace rest := by
  -- Induction on the history: an edit changes the files, a run does not.
  induction actions generalizing s with
  | nil => exact (Set.empty_union _).symm
  | cons action actions ih =>
    cases action with
    | edit w => exact ih { s with workspace := w }
    | analyze paths schedule =>
      have hafter := ih (s.analyze a fingerprint paths schedule).1
      rw [workspace_analyze] at hafter
      rw [List.cons_append, contentsOf, contentsOf, hafter, Set.union_assoc]
      rfl

include hinj

/-- An answer is the one that is given without a cache, and there is one if every worker gets its
turns. -/
theorem answer_eq (hcache : s.cache.Coherent a fingerprint contents) {paths : List String}
    (hread : contentsRead s.workspace paths ⊆ contents) (schedule : List Nat) :
    (∀ answer, (s.analyze a fingerprint paths schedule).2 = some answer →
        answer = ((⟨a, none⟩ : FileAnalyzer).paths s.workspace none paths).2) ∧
      ((∀ files, s.workspace.collect paths = .ok files → ∀ i < files.length, 4 ≤ schedule.count i) →
        ∃ answer, (s.analyze a fingerprint paths schedule).2 = some answer) := by
  cases hfiles : s.workspace.collect paths with
  | error e => simp [analyze, FileAnalyzer.paths, hfiles]
  | ok files =>
    obtain ⟨turns, hrun, hturns⟩ := analyze_eq_run (a := a) hfiles schedule
    have hsound := sound_run hinj hcache hfiles hread turns
    rw [hrun, a.paths_without_cache s.workspace hfiles]
    refine ⟨fun answer hanswer => Pool.answer?_eq hsound hanswer, fun hfair => ?_⟩
    apply Pool.exists_answer _ hsound.files
    -- A single file gets its turns in any case, several files get them by assumption.
    rcases hturns with rfl | hturns
    · exact hfair files rfl
    · exact hturns

/-- **The run lemma for sessions**: after any edits and runs the cache is coherent. -/
theorem coherent_after (hcache : s.cache.Coherent a fingerprint contents) {actions : List Action}
    (hread : contentsOf s.workspace actions ⊆ contents) :
    (s.after a fingerprint actions).cache.Coherent a fingerprint contents := by
  -- Induction on the actions; only runs use the cache.
  induction actions generalizing s with
  | nil => exact hcache
  | cons action rest ih =>
    cases action with
    | edit w => exact ih (s := { s with workspace := w }) hcache hread
    | analyze paths schedule =>
      obtain ⟨hrun, hrest⟩ := Set.union_subset_iff.mp hread
      apply ih (coherent_analyze hinj hcache hrun schedule)
      rwa [← workspace_analyze (a := a) s paths schedule] at hrest

end Session

/-! ## One worker for all files -/

namespace FileAnalyzer

variable {a : Analyzer} {contents : Set String} {cache : Cache} {w : Workspace}

/-- The file analyzer takes contents for their own fingerprints. -/
theorem file_with_cache (a : Analyzer) (w : Workspace) (cache : Cache) (path : String) :
    (⟨a, some cache⟩ : FileAnalyzer).file w none path =
      (⟨a, some ((⟨w, cache⟩ : Session).file a id path).1.cache⟩,
        ((⟨w, cache⟩ : Session).file a id path).2) := by
  cases hcontent : w.contentOf path with
  | error e => simp [file, Session.file, hcontent]
  | ok content =>
    cases hget : cache.get path content with
    | mk found cache' =>
      cases found with
      | some report => simp [file, Session.file, lookUp, hcontent, hget]
      | none =>
        simp only [file, Session.file, lookUp, hcontent, hget, id]
        split <;> rfl

/-- With a coherent cache each file has the result it has without a cache. -/
theorem same_files (hcache : cache.Coherent a id Set.univ) (files : List String) :
    List.Forall₂ FileResult.Same ((⟨a, some cache⟩ : FileAnalyzer).files w none files).2
      (files.map (a.fresh w)) := by
  -- Induction on the files: each of them leaves a coherent cache to the next.
  induction files generalizing cache with
  | nil => exact .nil
  | cons path rest ih =>
    obtain ⟨hkept, hsame⟩ :=
      Session.sound_file (s := ⟨w, cache⟩) (Set.injOn_id _) hcache fun _ _ => Set.mem_univ _
    simp only [files, file_with_cache, List.map_cons]
    exact .cons hsame (ih hkept)

/-- The file analyzer with a coherent cache answers as it does without a cache. -/
theorem paths_with_cache (hcache : cache.Coherent a id Set.univ) (paths : List String) :
    ((⟨a, some cache⟩ : FileAnalyzer).paths w none paths).2 =
      ((⟨a, none⟩ : FileAnalyzer).paths w none paths).2 := by
  cases hfiles : w.collect paths with
  | error e => simp [FileAnalyzer.paths, hfiles]
  | ok files =>
    rw [a.paths_without_cache w hfiles]
    simpa [FileAnalyzer.paths, hfiles] using FileResult.reports_congr (same_files hcache files)

end FileAnalyzer

/-! ## The cache and the workers cannot be noticed -/

/-- **Runs with a cache answer as if there were none.** Take any analyzer, any way to tell contents
apart by fingerprints, and any history of edits and runs from an empty cache, such that no two of
the contents that were read have the same fingerprint. Then, in whatever order the workers of the
next run take their steps:

* an answer of the run is that of the same analyzer without a cache, which does the files one by
  one;
* if every worker gets its four steps, the run answers;
* that answer is the error in collecting the files, or else all reports in the order of the files,
  or the error of the first file that has one;
* at every moment the cache holds complete reports only, each made from a content that was read.

The same holds of the file analyzer, which does all files by itself and compares the contents. -/
theorem cached_runs_transparent (a : Analyzer) (fingerprint : String → String) (w : Workspace)
    (history : List Session.Action) (paths : List String) (schedule : List Nat)
    (hinj : Set.InjOn fingerprint
      (Session.contentsOf w (history ++ [.analyze paths schedule]))) :
    let s := (⟨w, .empty⟩ : Session).after a fingerprint history
    let run := s.analyze a fingerprint paths schedule
    let alone := ((⟨a, none⟩ : FileAnalyzer).paths s.workspace none paths).2
    (∀ answer, run.2 = some answer → answer = alone) ∧
      ((∀ files, s.workspace.collect paths = .ok files → ∀ i < files.length, 4 ≤ schedule.count i) →
        run.2 = some alone) ∧
      (∀ e, s.workspace.collect paths = .error e → alone = .error (.collecting e)) ∧
      (∀ files, s.workspace.collect paths = .ok files →
        (∀ reports, alone = .ok reports ↔
          (∀ path ∈ files, (a.fresh s.workspace path).error = none) ∧
            reports = files.map fun path => (a.fresh s.workspace path).report) ∧
        ∀ e, alone = .error e → ∃ before path rest, files = before ++ path :: rest ∧
          (∀ earlier ∈ before, (a.fresh s.workspace earlier).error = none) ∧
            (a.fresh s.workspace path).error = some e) ∧
      run.1.cache.Coherent a fingerprint
        (Session.contentsOf w (history ++ [.analyze paths schedule])) ∧
      ((⟨a, some ((⟨w, .empty⟩ : Session).after a id history).cache⟩ : FileAnalyzer).paths
        s.workspace none paths).2 = alone := by
  intro s run alone
  -- The history and the run read no other contents than those whose fingerprints differ.
  have hcontents := Session.contentsOf_append a fingerprint ⟨w, .empty⟩ history
    [.analyze paths schedule]
  have hhistory : Session.contentsOf w history ⊆
      Session.contentsOf w (history ++ [.analyze paths schedule]) := by
    rw [hcontents]
    exact Set.subset_union_left
  have hread : Session.contentsRead s.workspace paths ⊆
      Session.contentsOf w (history ++ [.analyze paths schedule]) := by
    rw [hcontents]
    exact Set.subset_union_left.trans Set.subset_union_right
  have hcache : s.cache.Coherent a fingerprint
      (Session.contentsOf w (history ++ [.analyze paths schedule])) :=
    Session.coherent_after hinj Cache.coherent_empty hhistory
  obtain ⟨hsound, hexists⟩ := Session.answer_eq hinj hcache hread schedule
  -- What is left is about the analyzer without a cache, and about the file analyzer.
  refine ⟨hsound, ?_, ?_, ?_, Session.coherent_analyze hinj hcache hread schedule, ?_⟩
  · intro hfair
    obtain ⟨answer, hanswer⟩ := hexists hfair
    rw [hanswer, hsound answer hanswer]
  · intro e hfiles
    simp only [alone, FileAnalyzer.paths, hfiles]
  · intro files hfiles
    have halone : alone = FileResult.reports (files.map (a.fresh s.workspace)) :=
      a.paths_without_cache s.workspace hfiles
    rw [halone]
    exact ⟨fun reports => FileResult.reports_eq_ok_iff, fun e => FileResult.exists_first_error⟩
  · -- The file analyzer's own cache is coherent because contents are their own fingerprints there.
    apply FileAnalyzer.paths_with_cache
    exact Session.coherent_after (Set.injOn_id _) Cache.coherent_empty (Set.subset_univ _)

namespace Session

/-- A workspace with one file. -/
def holding (content : String) : Workspace :=
  { tree := .ofList [(["a.yaml"], .file content)] }

/-- A graph of one node. -/
def oneNode : String := "name: a\nnodes: [\x7bname: n\x7d]\n"

/-- A graph without nodes, which cannot be built. -/
def noNode : String := "name: a\n"

/-- The SHA-256 fingerprints of the two contents. -/
def twoFingerprints (content : String) : String :=
  if content = oneNode then "7579c8fb07eda18a55272d53b728c92ff157e67ef186cd25fb9b9885644bbe18"
  else if content = noNode then "1e7e5f3c45fc71cc0d92ffd6a4136ce35256118f2cb9a940b09a9e336022a571"
  else ""

/-- Two workers do the same file at the same time; then it is broken, analyzed again and mended. -/
def brokenForAWhile : List Action :=
  [.analyze ["a.yaml", "a.yaml"] [0, 1, 0, 1, 0, 1, 0, 1], .edit (holding noNode),
    .analyze ["a.yaml", "a.yaml"] [1, 1, 1, 0, 0, 0, 0, 1], .edit (holding oneNode)]

/-- On a workspace with one file only its content is read. -/
theorem contentsRead_holding (content : String) :
    contentsRead (holding content) ["a.yaml", "a.yaml"] ⊆ {content} := by
  rintro other ⟨files, hfiles, path, hpath, hother⟩
  have hcollect : (holding content).collect ["a.yaml", "a.yaml"] = .ok ["a.yaml", "a.yaml"] := rfl
  have hcontent : (holding content).contentOf "a.yaml" = .ok content := rfl
  rw [hcollect] at hfiles
  cases hfiles
  obtain rfl : path = "a.yaml" := by simpa using hpath
  rw [hcontent] at hother
  cases hother
  rfl

/-- Once the file is mended, its reports are back. -/
theorem cached_runs_transparent_brokenForAWhile :
    let a : Analyzer := ⟨[.labels, .presence], 10⟩
    let s := (⟨holding oneNode, .empty⟩ : Session).after a twoFingerprints brokenForAWhile
    let schedule := [1, 0, 0, 1, 0, 1, 0, 1]
    Set.InjOn twoFingerprints (contentsOf (holding oneNode)
        (brokenForAWhile ++ [.analyze ["a.yaml", "a.yaml"] schedule])) ∧
      (a.fresh (holding oneNode) "a.yaml").error = none ∧
      (a.fresh (holding noNode) "a.yaml").error ≠ none ∧
      (s.analyze a twoFingerprints ["a.yaml", "a.yaml"] schedule).2 =
        some ((⟨a, none⟩ : FileAnalyzer).paths (holding oneNode) none ["a.yaml", "a.yaml"]).2 := by
  intro a s schedule
  -- All runs read one of the two contents.
  have hcontents : contentsOf (holding oneNode)
      (brokenForAWhile ++ [.analyze ["a.yaml", "a.yaml"] schedule]) ⊆ {oneNode, noNode} := by
    have hone := (contentsRead_holding oneNode).trans
      (Set.singleton_subset_iff.mpr (Set.mem_insert oneNode {noNode}))
    have hno := (contentsRead_holding noNode).trans (Set.subset_insert oneNode {noNode})
    exact Set.union_subset hone (Set.union_subset hno
      (Set.union_subset hone (Set.empty_subset _)))
  have hinj : Set.InjOn twoFingerprints {oneNode, noNode} := by
    rintro x (rfl | rfl) y (rfl | rfl) h
    · rfl
    · exact absurd h (by decide)
    · exact absurd h (by decide)
    · rfl
  refine ⟨hinj.mono hcontents, by decide +kernel, by decide +kernel, ?_⟩
  obtain ⟨-, hanswers, -⟩ := cached_runs_transparent a twoFingerprints (holding oneNode)
    brokenForAWhile ["a.yaml", "a.yaml"] schedule (hinj.mono hcontents)
  have hworkspace : s.workspace = holding oneNode := rfl
  rw [← hworkspace]
  apply hanswers
  intro files hfiles i hi
  have hcollect : s.workspace.collect ["a.yaml", "a.yaml"] = .ok ["a.yaml", "a.yaml"] := rfl
  rw [hcollect] at hfiles
  cases hfiles
  -- Each worker has its four turns.
  have hturns : ∀ i < 2, 4 ≤ schedule.count i := by decide
  exact hturns i hi

end Session

end ScriptFlow
