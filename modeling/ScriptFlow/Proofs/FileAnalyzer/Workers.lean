import ScriptFlow.Proofs.FileAnalyzer.Answers
import Mathlib.Data.Set.Function

/-!
# Workers with a shared cache

The files of a run are analyzed by workers that share one cache. It knows a content by its
fingerprint only. Between any two steps of a worker the others may drop, replace or add reports.
What stays true is that every remembered report is the complete report of some content with the
fingerprint under which it is kept. As long as different contents have different fingerprints, a
report found in the cache is therefore the one that an analysis would give.

Main statements: `Worker.sound_next` for one step, `Pool.sound_run` for every order of the steps,
and about answers `Pool.answer?_eq` and `Pool.exists_answer`.
-/

namespace ScriptFlow

/-! ## Workers -/

/-- How far a worker has come with its file. -/
inductive Worker
  | waiting
  /-- The content was read. -/
  | opened (content : String)
  /-- The cache had no report for the content. -/
  | missed (content : String)
  /-- The content was analyzed. -/
  | analyzed (content : String) (r : FileResult)
  | finished (r : FileResult)

namespace Worker

/-- The result of a worker that has finished. -/
def result? : Worker → Option FileResult
  | finished r => some r
  | _ => none

/-- The next step of a worker: it reads its file, asks the cache, analyzes the content, or remembers
the report if it is complete. Nothing else happens during a step. -/
def next (a : Analyzer) (fingerprint : String → String) (w : Workspace) (path : String)
    (cache : Cache) : Worker → Cache × Worker
  | waiting =>
    match w.contentOf path with
    | .error e =>
      (cache, finished { report := { file := path }, error := some (.graphFile (.file e)) })
    | .ok content => (cache, opened content)
  | opened content =>
    match cache.get path (fingerprint content) with
    | (some report, cache) =>
      (cache, finished { report := report, logs := [FileResult.cachedLog path] })
    | (none, cache) => (cache, missed content)
  | missed content => (cache, analyzed content (a.content none path content))
  | analyzed content r =>
    (if r.error.isNone then cache.set path (fingerprint content) r.report else cache, finished r)
  | finished r => (cache, finished r)

/-- The number of steps that a worker has at most before it. -/
def stepsLeft : Worker → Nat
  | waiting => 4
  | opened _ => 3
  | missed _ => 2
  | analyzed _ _ => 1
  | finished _ => 0

end Worker

/-- The workers of a run, one for each file in order, and the cache they share. -/
structure Pool where
  cache : Cache
  workers : List (String × Worker)

namespace Pool

/-- All workers wait. -/
def start (cache : Cache) (files : List String) : Pool :=
  { cache := cache, workers := files.map fun path => (path, .waiting) }

/-- One worker makes a step. -/
def turn (a : Analyzer) (fingerprint : String → String) (w : Workspace) (p : Pool) (i : Nat) :
    Pool :=
  match p.workers[i]? with
  | none => p
  | some (path, worker) =>
    let (cache, worker) := worker.next a fingerprint w path p.cache
    { cache := cache, workers := p.workers.set i (path, worker) }

/-- The workers make steps in the given order. -/
def run (a : Analyzer) (fingerprint : String → String) (w : Workspace) (p : Pool)
    (schedule : List Nat) : Pool :=
  schedule.foldl (turn a fingerprint w) p

/-- What a run answers once all workers have finished. -/
def answer? (p : Pool) : Option (Except AnalysisError (List Report)) :=
  if p.workers.all fun worker => worker.2.result?.isSome then
    some (FileResult.reports (p.workers.filterMap fun worker => worker.2.result?))
  else none

end Pool

/-! ## What a worker keeps to -/

/-- Each remembered report is the complete report of one of the given contents, kept under the
fingerprint of that content. -/
def Cache.Coherent (a : Analyzer) (fingerprint : String → String) (contents : Set String)
    (cache : Cache) : Prop :=
  ∀ path key report, cache.entries.find? path = some (key, report) →
    ∃ content ∈ contents, fingerprint content = key ∧
      (a.content none path content).error = none ∧
      (a.content none path content).report = report

namespace Cache

variable {a : Analyzer} {fingerprint : String → String} {contents : Set String} {cache : Cache}
  {path content : String}

theorem coherent_empty : Coherent a fingerprint contents .empty := by
  intro path key report h
  simp [empty] at h

/-- Looking up a report drops at most one. -/
theorem Coherent.get (h : cache.Coherent a fingerprint contents) (path key : String) :
    (cache.get path key).2.Coherent a fingerprint contents := by
  unfold Cache.get
  -- Nothing was remembered, the report was made from this content, or it is dropped.
  split
  · exact h
  · split
    · exact h
    · intro other key report hfind
      rw [SortedMap.find?_erase] at hfind
      split at hfind
      · cases hfind
      · exact h other key report hfind

/-- Storing the complete report of a content that was read keeps a cache coherent. -/
theorem Coherent.set (h : cache.Coherent a fingerprint contents) (hcontent : content ∈ contents)
    (hok : (a.content none path content).error = none) :
    (cache.set path (fingerprint content) (a.content none path content).report).Coherent a
      fingerprint contents := by
  intro other key report hfind
  simp only [Cache.set, SortedMap.find?_insert] at hfind
  split at hfind
  · -- The new report is that of the content it was made from.
    rename_i hpath
    subst hpath
    cases hfind
    exact ⟨content, hcontent, rfl, hok, rfl⟩
  · exact h other key report hfind

/-- A report that is found is the one that an analysis would give. -/
theorem Coherent.found (h : cache.Coherent a fingerprint contents)
    (hinj : Set.InjOn fingerprint contents) (hcontent : content ∈ contents) {report : Report}
    (hfound : (cache.get path (fingerprint content)).1 = some report) :
    (a.content none path content).error = none ∧
      (a.content none path content).report = report := by
  unfold Cache.get at hfound
  split at hfound
  · cases hfound
  · rename_i known remembered hfind
    split at hfound
    · rename_i hknown
      cases hfound
      obtain ⟨other, hother, hprint, hok, hreport⟩ := h path known report hfind
      -- Only one content has this fingerprint.
      obtain rfl : other = content := hinj hother hcontent (hprint.trans hknown)
      exact ⟨hok, hreport⟩
    · cases hfound

end Cache

namespace Worker

variable {a : Analyzer} {fingerprint : String → String} {contents : Set String} {w : Workspace}
  {path : String} {cache : Cache}

/-- What a worker holds is what an analysis of its file without a cache goes through. -/
def Sound (a : Analyzer) (w : Workspace) (path : String) : Worker → Prop
  | waiting => True
  | opened content => w.contentOf path = .ok content
  | missed content => w.contentOf path = .ok content
  | analyzed content r => w.contentOf path = .ok content ∧ r = a.content none path content
  | finished r => r.Same (a.fresh w path)

/-- **The step lemma**: a worker stays sound and keeps the cache coherent, whatever the other
workers did to the cache before. -/
theorem sound_next (hinj : Set.InjOn fingerprint contents)
    (hread : ∀ content, w.contentOf path = .ok content → content ∈ contents)
    (hcache : cache.Coherent a fingerprint contents) {worker : Worker}
    (h : worker.Sound a w path) :
    (worker.next a fingerprint w path cache).1.Coherent a fingerprint contents ∧
      (worker.next a fingerprint w path cache).2.Sound a w path := by
  cases worker with
  | waiting =>
    cases hcontent : w.contentOf path with
    | error e =>
      simp only [next, hcontent]
      exact ⟨hcache, by simp [Sound, a.fresh_of_error w hcontent, FileResult.Same]⟩
    | ok content =>
      simp only [next, hcontent]
      exact ⟨hcache, hcontent⟩
  | opened content =>
    have hkept := hcache.get path (fingerprint content)
    simp only [next]
    split
    · -- Whoever remembered the report, it belongs to the content that was read.
      rename_i report cache' hget
      rw [hget] at hkept
      obtain ⟨hok, hreport⟩ := hcache.found hinj (hread content h) (congrArg Prod.fst hget)
      refine ⟨hkept, ?_⟩
      simp only [Sound, FileResult.Same, a.fresh_of_ok w h, hok, hreport, and_self]
    · -- A report of other content may have been dropped.
      rename_i cache' hget
      rw [hget] at hkept
      exact ⟨hkept, h⟩
  | missed content => exact ⟨hcache, h, rfl⟩
  | analyzed content r =>
    obtain ⟨hcontent, rfl⟩ := h
    refine ⟨?_, ?_⟩
    · -- The result of the analysis may have an error; then it is not remembered.
      simp only [next]
      split
      · -- The report is complete, and it is made from this content whatever the cache holds now.
        rename_i hok
        exact hcache.set (hread content hcontent) (Option.isNone_iff_eq_none.mp hok)
      · exact hcache
    · simp only [next, Sound, a.fresh_of_ok w hcontent, FileResult.Same, and_self]
  | finished r => exact ⟨hcache, h⟩

/-- Every step brings a worker closer to its end. -/
theorem stepsLeft_next (worker : Worker) :
    (worker.next a fingerprint w path cache).2.stepsLeft ≤ worker.stepsLeft - 1 := by
  cases worker with
  | waiting | opened content =>
    simp only [next]
    split <;> simp [stepsLeft]
  | missed content => simp [next, stepsLeft]
  | analyzed content r => simp [next, stepsLeft]
  | finished r => simp [next, stepsLeft]

/-- A worker without steps before it has finished. -/
theorem exists_result_of_stepsLeft {worker : Worker} (h : worker.stepsLeft = 0) :
    ∃ r, worker = finished r := by
  cases worker with
  | finished r => exact ⟨r, rfl⟩
  | _ => simp [stepsLeft] at h

end Worker

/-! ## What a pool of workers keeps to -/

namespace Pool

variable {a : Analyzer} {fingerprint : String → String} {contents : Set String} {w : Workspace}
  {files : List String} {p : Pool}

/-- The cache is coherent, and the workers do the given files in order and are sound. -/
structure Sound (a : Analyzer) (fingerprint : String → String) (contents : Set String)
    (w : Workspace) (files : List String) (p : Pool) : Prop where
  cache : p.cache.Coherent a fingerprint contents
  files : p.workers.map Prod.fst = files
  workers : ∀ x ∈ p.workers, x.2.Sound a w x.1

/-- A pool starts soundly on a coherent cache, as its workers have read nothing. -/
theorem sound_start {cache : Cache} (h : cache.Coherent a fingerprint contents)
    (files : List String) : (start cache files).Sound a fingerprint contents w files where
  cache := h
  files := by
    rw [start, List.map_map]
    exact List.map_id files
  workers x hx := by
    obtain ⟨path, -, rfl⟩ := List.mem_map.mp hx
    trivial

/-- A turn is a step of one worker, or nothing if there is no such worker. -/
theorem turn_of_getElem? {i : Nat} {path : String} {worker : Worker}
    (h : p.workers[i]? = some (path, worker)) :
    p.turn a fingerprint w i =
      { cache := (worker.next a fingerprint w path p.cache).1
        workers := p.workers.set i (path, (worker.next a fingerprint w path p.cache).2) } := by
  simp only [turn, h]

variable (hinj : Set.InjOn fingerprint contents)
  (hread : ∀ path ∈ files, ∀ content, w.contentOf path = .ok content → content ∈ contents)

include hinj hread

/-- A turn keeps a pool sound. -/
theorem sound_turn (h : p.Sound a fingerprint contents w files) (i : Nat) :
    (p.turn a fingerprint w i).Sound a fingerprint contents w files := by
  cases hworker : p.workers[i]? with
  | none => simpa only [turn, hworker] using h
  | some x =>
    obtain ⟨path, worker⟩ := x
    have hmem : (path, worker) ∈ p.workers := List.mem_of_getElem? hworker
    have hfile : path ∈ files := by
      rw [← h.files]
      exact List.mem_map_of_mem hmem
    obtain ⟨hcache, hsound⟩ :=
      Worker.sound_next hinj (hread path hfile) h.cache (h.workers _ hmem)
    rw [turn_of_getElem? hworker]
    refine ⟨hcache, ?_, ?_⟩
    · -- The worker keeps its file.
      rw [List.map_set, ← h.files]
      have hpath : (p.workers.map Prod.fst)[i]? = some path := by simp [hworker]
      obtain ⟨hlt, hget⟩ := List.getElem?_eq_some_iff.mp hpath
      rw [← hget]
      exact List.set_getElem_self hlt
    · -- The worker that took the turn is sound by the step lemma, the others have not moved.
      intro x hx
      rcases List.mem_or_eq_of_mem_set hx with hold | rfl
      · exact h.workers x hold
      · exact hsound

/-- **The run lemma**: in whatever order the workers take their turns, they stay sound and the cache
stays coherent. -/
theorem sound_run (h : p.Sound a fingerprint contents w files) (schedule : List Nat) :
    (p.run a fingerprint w schedule).Sound a fingerprint contents w files := by
  -- Induction on the schedule.
  induction schedule generalizing p with
  | nil => exact h
  | cons i rest ih => exact ih (sound_turn hinj hread h i)

omit hinj hread

/-- The number of steps that a worker has at most before it. -/
def stepsLeft (p : Pool) (i : Nat) : Nat :=
  (p.workers[i]?.map fun x => x.2.stepsLeft).getD 0

/-- A turn of a worker takes one of its steps, and none of the others. -/
theorem stepsLeft_turn (a : Analyzer) (fingerprint : String → String) (w : Workspace) (p : Pool)
    (i j : Nat) :
    (p.turn a fingerprint w i).stepsLeft j ≤ p.stepsLeft j - if i = j then 1 else 0 := by
  cases hworker : p.workers[i]? with
  | none =>
    simp only [turn, hworker]
    split
    · rename_i hij
      subst hij
      simp [stepsLeft, hworker]
    · exact Nat.le_refl _
  | some x =>
    obtain ⟨path, worker⟩ := x
    rw [turn_of_getElem? hworker]
    -- The worker itself, or another one that is not touched.
    by_cases hij : i = j
    · subst hij
      have hlt : i < p.workers.length := (List.getElem?_eq_some_iff.mp hworker).1
      have hleft : p.stepsLeft i = worker.stepsLeft := by simp [stepsLeft, hworker]
      rw [hleft, if_pos rfl]
      simpa [stepsLeft, hlt] using Worker.stepsLeft_next worker
    · simp [stepsLeft, List.getElem?_set_ne hij, hij]

/-- Every turn brings its worker closer to the end. -/
theorem stepsLeft_run (a : Analyzer) (fingerprint : String → String) (w : Workspace) (p : Pool)
    (schedule : List Nat) (i : Nat) :
    (p.run a fingerprint w schedule).stepsLeft i ≤ p.stepsLeft i - schedule.count i := by
  induction schedule generalizing p with
  | nil => exact Nat.le_refl _
  | cons j rest ih =>
    have hturn := stepsLeft_turn a fingerprint w p j i
    have hrest := ih (p.turn a fingerprint w j)
    rw [List.count_cons]
    simp only [beq_iff_eq]
    -- One turn fewer is left, and it was of this worker or not.
    exact hrest.trans (by omega)

theorem stepsLeft_start {cache : Cache} {i : Nat} (hi : i < files.length) :
    (start cache files).stepsLeft i = 4 := by
  simp [start, stepsLeft, hi, Worker.stepsLeft]

end Pool

/-! ## Answers -/

namespace Pool

variable {a : Analyzer} {fingerprint : String → String} {contents : Set String} {w : Workspace}
  {files : List String} {p : Pool}

/-- Workers that have finished soundly have the results of their files, in order. -/
theorem same_results {workers : List (String × Worker)}
    (hdone : ∀ x ∈ workers, x.2.result?.isSome = true) (hsound : ∀ x ∈ workers, x.2.Sound a w x.1) :
    List.Forall₂ FileResult.Same (workers.filterMap fun x => x.2.result?)
      ((workers.map Prod.fst).map (a.fresh w)) := by
  induction workers with
  | nil => exact .nil
  | cons x rest ih =>
    obtain ⟨hx, hrest⟩ := List.forall_mem_cons.mp hdone
    obtain ⟨hxs, hrests⟩ := List.forall_mem_cons.mp hsound
    obtain ⟨path, worker⟩ := x
    cases worker with
    | finished r => exact .cons hxs (ih hrest hrests)
    | _ => simp [Worker.result?] at hx

/-- **Any answer is the one without a cache.** -/
theorem answer?_eq (h : p.Sound a fingerprint contents w files)
    {answer : Except AnalysisError (List Report)} (hanswer : p.answer? = some answer) :
    answer = FileResult.reports (files.map (a.fresh w)) := by
  unfold answer? at hanswer
  split at hanswer
  · rename_i hdone
    obtain rfl := Option.some.inj hanswer
    -- The workers do the files in order, so their results are those of the files.
    rw [← h.files]
    exact FileResult.reports_congr (same_results (List.all_eq_true.mp hdone) h.workers)
  · cases hanswer

/-- A run in which every worker gets its turns comes to an answer. -/
theorem exists_answer {cache : Cache} {schedule : List Nat}
    (hfair : ∀ i < files.length, 4 ≤ schedule.count i)
    (hfiles : ((start cache files).run a fingerprint w schedule).workers.map Prod.fst = files) :
    ∃ answer, ((start cache files).run a fingerprint w schedule).answer? = some answer := by
  have hdone : ((start cache files).run a fingerprint w schedule).workers.all
      (fun worker => worker.2.result?.isSome) = true := by
    rw [List.all_eq_true]
    -- A worker with four turns has no step left.
    intro x hx
    obtain ⟨i, hi⟩ := List.getElem?_of_mem hx
    have hlt : i < files.length := by
      rw [← hfiles, List.length_map]
      exact (List.getElem?_eq_some_iff.mp hi).1
    have hleft := stepsLeft_run a fingerprint w (start cache files) schedule i
    have hturns := hfair i hlt
    rw [stepsLeft_start hlt] at hleft
    simp only [stepsLeft, hi, Option.map_some, Option.getD_some] at hleft
    have hzero : x.2.stepsLeft = 0 := by omega
    obtain ⟨r, hr⟩ := Worker.exists_result_of_stepsLeft hzero
    simp [hr, Worker.result?]
  exact ⟨_, if_pos hdone⟩

end Pool

end ScriptFlow
