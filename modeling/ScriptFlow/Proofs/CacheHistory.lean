import ScriptFlow.FileAnalyzer
import ScriptFlow.Proofs.SortedMap
import Mathlib.Data.Set.Card
import Mathlib.Data.Set.Function

/-!
# What a cache remembers of its history

Looking a report up is not harmless: asking for a path with other content than the remembered one
drops the report. What a cache answers therefore depends on all uses of it, and for each path on the
uses of that path alone. A report is kept as long as its path is only asked for with its own
content.

The cache knows contents by fingerprints, which are assumed to be different for the contents that
occur.

Main statement: `answers_from_history`. The step lemmas are `find?_perform_set` and
`find?_perform_get`, and the run lemma is `find?_after`.
-/

namespace ScriptFlow

namespace Cache

/-! ## Uses of a cache -/

/-- A use of a cache. -/
inductive Request
  /-- The report made from a content is stored. -/
  | set (path content : String) (report : Report)
  /-- The report made from a content is looked up. -/
  | get (path content : String)

namespace Request

/-- The path that a use is about. -/
def path : Request → String
  | set path _ _ => path
  | get path _ => path

/-- The content that a use comes with. -/
def content : Request → String
  | set _ content _ => content
  | get _ content => content

end Request

variable (fingerprint : String → String)

/-- The cache after a use. -/
def perform (c : Cache) : Request → Cache
  | .set path content report => c.set path (fingerprint content) report
  | .get path content => (c.get path (fingerprint content)).2

/-- A new cache after a list of uses. -/
def after (history : List Request) : Cache :=
  history.foldl (perform fingerprint) .empty

theorem after_concat (history : List Request) (r : Request) :
    after fingerprint (history ++ [r]) = (after fingerprint history).perform fingerprint r :=
  List.foldl_concat ..

/-! ## One use -/

section Step

variable {fingerprint} (c : Cache) (path : String)

/-- A report is found exactly if it is stored with the fingerprint asked for. -/
theorem get_fst_eq_some {key : String} {report : Report} :
    (c.get path key).1 = some report ↔ c.entries.find? path = some (key, report) := by
  unfold get
  split
  · rename_i hnone
    simp [hnone]
  · rename_i known kept hsome
    rw [hsome]
    split
    · -- The fingerprint is the stored one, so the report is returned.
      rename_i heq
      simp [heq]
    · -- Another fingerprint: nothing is returned, and what is stored does not fit either.
      rename_i hne
      simp [hne]

/-- Storing a report replaces the one of its path. -/
theorem find?_perform_set (p content : String) (report : Report) :
    (c.perform fingerprint (.set p content report)).entries.find? path =
      if p = path then some (fingerprint content, report) else c.entries.find? path :=
  SortedMap.find?_insert ..

/-- Looking a report up drops it if it was made from other content. -/
theorem find?_perform_get (p content : String) :
    (c.perform fingerprint (.get p content)).entries.find? path =
      if p = path then (c.entries.find? path).filter (·.1 = fingerprint content)
      else c.entries.find? path := by
  show (c.get p (fingerprint content)).2.entries.find? path = _
  unfold get
  by_cases hpath : p = path
  · subst hpath
    rw [if_pos rfl]
    cases hfound : c.entries.find? p with
    | none => exact hfound
    | some entry =>
      -- The report stays, as the test keeps it.
      by_cases hsame : entry.1 = fingerprint content
      · simp [hsame, hfound, Option.filter]
      · simp [hsame, Option.filter]
  · rw [if_neg hpath]
    -- Whether the report of the other path is dropped or not, this one stays.
    split
    · rfl
    · split
      · rfl
      · rw [SortedMap.find?_erase, if_neg hpath]

/-- A use leaves all other paths alone. -/
theorem find?_perform_of_ne {r : Request} (h : path ≠ r.path) :
    (c.perform fingerprint r).entries.find? path = c.entries.find? path := by
  cases r with
  | set p content report =>
    rw [find?_perform_set]
    exact if_neg h.symm
  | get p content =>
    rw [find?_perform_get]
    exact if_neg h.symm

end Step

/-! ## Histories -/

/-- A use is part of the history, and all uses after it have a property. -/
def Since (history : List Request) (start : Request) (P : Request → Prop) : Prop :=
  ∃ before later, history = before ++ start :: later ∧ ∀ r ∈ later, P r

variable {fingerprint} {history : List Request} {start r : Request} {P Q : Request → Prop}
  {path content : String} {report : Report}

/-- The history goes on by one use: it starts here, or it started before and the use has the
property. -/
theorem since_concat :
    Since (history ++ [r]) start P ↔ r = start ∨ Since history start P ∧ P r := by
  constructor
  · rintro ⟨before, later, heq, hlater⟩
    -- Either the history starts with this use, or there is a last use after the start.
    rcases List.eq_nil_or_concat later with rfl | ⟨later, last, rfl⟩
    · exact Or.inl (List.singleton_inj.mp (List.append_inj' heq rfl).2)
    · rw [List.concat_eq_append] at heq hlater
      rw [← List.cons_append, ← List.append_assoc] at heq
      obtain ⟨rfl, hlast⟩ := List.append_inj' heq rfl
      obtain rfl := List.singleton_inj.mp hlast
      obtain ⟨hlater, hr⟩ := List.forall_mem_append.mp hlater
      exact Or.inr ⟨⟨before, later, rfl, hlater⟩, hr r (List.mem_singleton.mpr rfl)⟩
  · rintro (rfl | ⟨⟨before, later, rfl, hlater⟩, hr⟩)
    · exact ⟨history, [], rfl, by simp⟩
    · refine ⟨before, later ++ [r], by simp, ?_⟩
      exact List.forall_mem_append.mpr ⟨hlater, List.forall_mem_singleton.mpr hr⟩

/-- The use is part of the history. -/
theorem Since.mem (h : Since history start P) : start ∈ history := by
  obtain ⟨before, later, rfl, -⟩ := h
  exact List.mem_append_right before List.mem_cons_self

theorem Since.imp (h : Since history start P) (hPQ : ∀ r, P r → Q r) : Since history start Q := by
  obtain ⟨before, later, heq, hlater⟩ := h
  exact ⟨before, later, heq, fun r hr => hPQ r (hlater r hr)⟩

/-- A report made from the content was stored, and after that no use of the path came with other
content. -/
def Stored (history : List Request) (path content : String) : Prop :=
  ∃ report, Since history (.set path content report) fun r => r.path = path → r.content = content

/-- The report was stored, and after that the path was only asked for with its content. -/
def Kept (history : List Request) (path content : String) (report : Report) : Prop :=
  Since history (.set path content report) fun r => r.path = path → r = .get path content

/-- The report was stored, and after that no report was stored for the path. -/
def StoredLast (history : List Request) (path content : String) (report : Report) : Prop :=
  Since history (.set path content report) fun r =>
    ∀ content' report', r ≠ .set path content' report'

/-- What is kept was stored, and nothing was stored after it. -/
theorem Kept.storedLast (h : Kept history path content report) :
    StoredLast history path content report := by
  apply Since.imp h
  rintro r hr content' report' rfl
  -- A look-up stores nothing.
  cases hr rfl

/-- The latest of the reports stored for a content is kept. -/
theorem stored_iff : Stored history path content ↔ ∃ report, Kept history path content report := by
  constructor
  · intro h
    -- Induction from the end of the history: `since_concat` says what its last use does.
    induction history using List.reverseRecOn with
    | nil =>
      obtain ⟨report, h⟩ := h
      cases h.mem
    | append_singleton history r ih =>
      obtain ⟨report, h⟩ := h
      rcases since_concat.mp h with rfl | ⟨hbefore, hr⟩
      · exact ⟨report, since_concat.mpr (Or.inl rfl)⟩
      · -- A later report for the same content takes the place of the kept one.
        obtain ⟨kept, hkept⟩ := ih ⟨report, hbefore⟩
        cases r with
        | set p content' report' =>
          by_cases hpath : p = path
          · subst hpath
            obtain rfl : content' = content := hr rfl
            exact ⟨report', since_concat.mpr (Or.inl rfl)⟩
          · -- The new report is for another path.
            exact ⟨kept, since_concat.mpr (Or.inr ⟨hkept, fun h => absurd h hpath⟩)⟩
        | get p content' =>
          -- A look-up with the same content keeps the report.
          refine ⟨kept, since_concat.mpr (Or.inr ⟨hkept, ?_⟩)⟩
          rintro rfl
          obtain rfl : content' = content := hr rfl
          rfl
  · rintro ⟨report, hkept⟩
    refine ⟨report, Since.imp hkept ?_⟩
    intro r hr hpath
    rw [hr hpath]
    rfl

/-! ## What is kept -/

section Kept

variable {content' : String} {report' : Report}

/-- After a report was stored for the path, this report is kept and no other. -/
theorem kept_concat_set :
    Kept (history ++ [.set path content' report']) path content report ↔
      content' = content ∧ report' = report := by
  unfold Kept
  rw [since_concat]
  constructor
  · rintro (heq | ⟨-, hr⟩)
    · cases heq
      exact ⟨rfl, rfl⟩
    · -- No look-up stores a report.
      cases hr rfl
  · rintro ⟨rfl, rfl⟩
    exact Or.inl rfl

/-- A look-up keeps a report if it comes with its content. -/
theorem kept_concat_get :
    Kept (history ++ [.get path content']) path content report ↔
      Kept history path content report ∧ content' = content := by
  unfold Kept
  rw [since_concat]
  constructor
  · rintro (heq | ⟨h, hr⟩)
    · cases heq
    · cases hr rfl
      exact ⟨h, rfl⟩
  · rintro ⟨h, rfl⟩
    exact Or.inr ⟨h, fun _ => rfl⟩

/-- A use of another path keeps what was kept. -/
theorem kept_concat_of_ne (hpath : r.path ≠ path) :
    Kept (history ++ [r]) path content report ↔ Kept history path content report := by
  unfold Kept
  rw [since_concat]
  constructor
  · rintro (rfl | ⟨h, -⟩)
    · exact absurd rfl hpath
    · exact h
  · intro h
    exact Or.inr ⟨h, fun heq => absurd heq hpath⟩

end Kept

/-- **The cache holds exactly what is kept.** -/
theorem find?_after {contents : Set String} (hinj : Set.InjOn fingerprint contents)
    (hcontents : ∀ r ∈ history, r.content ∈ contents) {key : String} :
    (after fingerprint history).entries.find? path = some (key, report) ↔
      ∃ content, Kept history path content report ∧ fingerprint content = key := by
  -- Induction from the end: the last use is of this path or of another one.
  induction history using List.reverseRecOn with
  | nil =>
    constructor
    · intro h
      cases h
    · rintro ⟨content, h, -⟩
      cases h.mem
  | append_singleton history r ih =>
    obtain ⟨hbefore, hr⟩ := List.forall_mem_append.mp hcontents
    have hr := hr r (List.mem_singleton.mpr rfl)
    have ih := ih hbefore
    rw [after_concat]
    by_cases hpath : r.path = path
    · cases r with
      | set p content' report' =>
        obtain rfl : p = path := hpath
        rw [find?_perform_set, if_pos rfl]
        simp only [kept_concat_set, Option.some.injEq, Prod.mk.injEq]
        constructor
        · rintro ⟨rfl, rfl⟩
          exact ⟨content', ⟨rfl, rfl⟩, rfl⟩
        · rintro ⟨content, ⟨rfl, rfl⟩, rfl⟩
          exact ⟨rfl, rfl⟩
      | get p content' =>
        obtain rfl : p = path := hpath
        rw [find?_perform_get, if_pos rfl, Option.filter_eq_some_iff, ih]
        simp only [kept_concat_get, decide_eq_true_eq]
        constructor
        · -- The kept content and the one asked for have the same fingerprint.
          rintro ⟨⟨content, hkept, rfl⟩, hsame⟩
          have hcontent : content ∈ contents := hbefore _ hkept.mem
          exact ⟨content, ⟨hkept, hinj hr hcontent hsame.symm⟩, rfl⟩
        · rintro ⟨content, ⟨hkept, rfl⟩, rfl⟩
          exact ⟨⟨content', hkept, rfl⟩, rfl⟩
    · -- A use of another path changes neither side.
      rw [find?_perform_of_ne _ _ (Ne.symm hpath), ih]
      simp only [kept_concat_of_ne hpath]

/-- At most one report is kept for a path. -/
theorem Kept.unique {content' : String} {report' : Report} (h : Kept history path content report)
    (h' : Kept history path content' report') : content = content' ∧ report = report' := by
  -- A cache that takes contents for their own fingerprints holds both.
  have hfound {content : String} {report : Report} (h : Kept history path content report) :
      (after id history).entries.find? path = some (content, report) :=
    (find?_after (Set.injOn_id Set.univ) (fun _ _ => Set.mem_univ _)).mpr ⟨content, h, rfl⟩
  have hsame := (hfound h).symm.trans (hfound h')
  cases hsame
  exact ⟨rfl, rfl⟩

/-! ## Effective uses -/

/-- Whether a use changes what is stored for its path after the given history: storing always does,
and looking up does if the stored content is another one. -/
def Request.Effective (history : List Request) : Request → Prop
  | set _ _ _ => True
  | get path content => ∃ stored, Stored history path stored ∧ stored ≠ content

/-- The last effective use of a path stored a report. -/
def EndsInSet (history : List Request) (path : String) : Prop :=
  ∃ before content report later, history = before ++ .set path content report :: later ∧
    ∀ between r rest, later = between ++ r :: rest → r.path = path →
      ¬ r.Effective (before ++ .set path content report :: between)

/-- Then, and only then, a report is kept. -/
theorem endsInSet_iff :
    EndsInSet history path ↔ ∃ content report, Kept history path content report := by
  constructor
  · rintro ⟨before, content, report, later, rfl, hlater⟩
    refine ⟨content, report, ?_⟩
    -- No use after the storing is effective, so none of them is anything but a look-up of the same.
    induction later using List.reverseRecOn with
    | nil => exact ⟨before, [], rfl, nofun⟩
    | append_singleton later r ih =>
      have hkept : Kept (before ++ .set path content report :: later) path content report := by
        apply ih
        intro between r' rest heq
        apply hlater between r' (rest ++ [r])
        rw [heq, List.append_assoc, List.cons_append]
      have hr := hlater later r [] rfl
      rw [← List.cons_append, ← List.append_assoc]
      apply since_concat.mpr
      refine Or.inr ⟨hkept, fun hpath => ?_⟩
      cases r with
      -- Storing a report would be effective.
      | set p content' report' => exact absurd trivial (hr hpath)
      | get p content' =>
        obtain rfl : p = path := hpath
        -- A look-up with other content would be effective too.
        by_contra hne
        apply hr rfl
        refine ⟨content, stored_iff.mpr ⟨report, hkept⟩, ?_⟩
        rintro rfl
        exact hne rfl
  · rintro ⟨content, report, hkept⟩
    obtain ⟨before, later, rfl, hlater⟩ := hkept
    refine ⟨before, content, report, later, rfl, ?_⟩
    -- A use between would have to look up other content than the stored one.
    rintro between r rest rfl hpath heffective
    obtain ⟨hbetween, hrest⟩ := List.forall_mem_append.mp hlater
    have hkept : Kept (before ++ .set path content report :: between) path content report :=
      ⟨before, between, rfl, hbetween⟩
    -- The use looks up what is stored, so it changes nothing.
    rw [hrest r List.mem_cons_self hpath] at heffective
    obtain ⟨stored, hstored, hne⟩ := heffective
    obtain ⟨report', hkept'⟩ := stored_iff.mp hstored
    exact hne (hkept'.unique hkept).1

/-! ## Answers -/

/-- What is not stored stays away until it is stored. -/
theorem find?_foldl_perform_eq_none {c : Cache} (hnone : c.entries.find? path = none)
    {later : List Request} (hlater : ∀ r ∈ later, ∀ content report, r ≠ .set path content report) :
    (later.foldl (perform fingerprint) c).entries.find? path = none := by
  induction later generalizing c with
  | nil => exact hnone
  | cons r rest ih =>
    obtain ⟨hr, hrest⟩ := List.forall_mem_cons.mp hlater
    apply ih _ hrest
    by_cases hpath : path = r.path
    · subst hpath
      cases r with
      | set p content report => exact absurd rfl (hr content report)
      | get p content =>
        rw [find?_perform_get, hnone]
        split <;> rfl
    · rw [find?_perform_of_ne _ _ hpath, hnone]

/-- A look-up that finds nothing leaves nothing for its path. -/
theorem find?_get_eq_none {c : Cache} (hmiss : (c.get path (fingerprint content)).1 = none) :
    (c.perform fingerprint (.get path content)).entries.find? path = none := by
  rw [find?_perform_get, if_pos rfl]
  -- Something left would have passed the test and been found.
  apply Option.eq_none_iff_forall_ne_some.mpr
  rintro ⟨key, report⟩ hsome
  obtain ⟨hfound, hkey⟩ := Option.filter_eq_some_iff.mp hsome
  obtain rfl : key = fingerprint content := of_decide_eq_true hkey
  rw [(get_fst_eq_some c path).mpr hfound] at hmiss
  cases hmiss

/-- The size counts the paths whose last effective use stored a report. -/
theorem size_after {contents : Set String} (hinj : Set.InjOn fingerprint contents)
    (hcontents : ∀ r ∈ history, r.content ∈ contents) :
    (after fingerprint history).size = {p | EndsInSet history p}.ncard := by
  have hkeys : {p | EndsInSet history p} =
      {p | ((after fingerprint history).entries.find? p).isSome = true} := by
    ext p
    rw [Set.mem_ofPred_eq, Set.mem_ofPred_eq, endsInSet_iff, Option.isSome_iff_exists]
    constructor
    · rintro ⟨content, report, hkept⟩
      exact ⟨_, (find?_after hinj hcontents).mpr ⟨content, hkept, rfl⟩⟩
    · rintro ⟨⟨key, report⟩, hfound⟩
      obtain ⟨content, hkept, -⟩ := (find?_after hinj hcontents).mp hfound
      exact ⟨content, report, hkept⟩
  rw [hkeys]
  exact SortedMap.size_eq_ncard _

/-- **A cache answers from its history.** Take any list of uses of a new cache, in which reports are
stored and looked up, such that no two of the contents that occur have the same fingerprint. Then a
report is found for a path and a content if and only if one was stored for them after which no use
of the path came with other content, and it is the report that was stored last for the path. If none
is found, none is left for the path, and none is found for any content of it until one is stored
again. No use affects other paths. The size of the cache is the number of paths whose last effective
use stored a report. -/
theorem answers_from_history (fingerprint : String → String) (history : List Request)
    (path content : String)
    (hinj : Set.InjOn fingerprint {x | x = content ∨ ∃ r ∈ history, r.content = x}) :
    let c := after fingerprint history
    let answer := c.get path (fingerprint content)
    (answer.1.isSome = true ↔ Stored history path content) ∧
      (∀ report, answer.1 = some report → StoredLast history path content report) ∧
      (answer.1 = none → answer.2.entries.find? path = none ∧
        ∀ later, (∀ r ∈ later, ∀ content' report', r ≠ .set path content' report') → ∀ content',
          ((after fingerprint (history ++ .get path content :: later)).get path
            (fingerprint content')).1 = none) ∧
      (∀ r : Request, ∀ other, other ≠ r.path →
        (c.perform fingerprint r).entries.find? other = c.entries.find? other) ∧
      c.size = {p | EndsInSet history p}.ncard := by
  intro c answer
  have hcontents : ∀ r ∈ history, r.content ∈ {x | x = content ∨ ∃ r ∈ history, r.content = x} :=
    fun r hr => Or.inr ⟨r, hr, rfl⟩
  -- An answer is a report that is kept for this very content.
  have hanswer : ∀ report, answer.1 = some report ↔ Kept history path content report := by
    intro report
    -- The stored content and the one asked for both occur, so equal fingerprints mean equal
    -- contents.
    rw [get_fst_eq_some, find?_after hinj hcontents]
    constructor
    · rintro ⟨content', hkept, hsame⟩
      obtain rfl := hinj (hcontents _ hkept.mem) (Or.inl rfl) hsame
      exact hkept
    · intro hkept
      exact ⟨content, hkept, rfl⟩
  refine ⟨?_, fun report hsome => ((hanswer report).mp hsome).storedLast, fun hmiss => ?_,
    fun r other hother => find?_perform_of_ne c other hother, size_after hinj hcontents⟩
  · simp only [Option.isSome_iff_exists, hanswer, stored_iff]
  · -- Nothing is left for the path, and only storing brings something back.
    have hnone := find?_get_eq_none hmiss
    refine ⟨hnone, fun later hlater content' => ?_⟩
    have hleft : (after fingerprint (history ++ .get path content :: later)).entries.find? path =
        none := by
      unfold after
      rw [List.foldl_append]
      exact find?_foldl_perform_eq_none hnone hlater
    apply Option.eq_none_iff_forall_ne_some.mpr
    intro report hsome
    rw [get_fst_eq_some, hleft] at hsome
    cases hsome

/-! ## A content that comes back -/

/-- The SHA-256 fingerprints of two contents. -/
def twoFingerprints (content : String) : String :=
  if content = "nodes: []" then "b804c1951a314afbef548ed8e87ce46462748249355d298ec4070705ae68c706"
  else if content = "changed" then
    "d67e2e944994496c8d8ec76eed0cf9f09679448d584b532bebf941852a37f5ed"
  else ""

/-- A file is analyzed, changed, and changed back. -/
def changedForAWhile : List Request :=
  [.set "a.yaml" "nodes: []" { name := "first" }, .get "a.yaml" "changed"]

/-- The report of the old content was dropped when the changed one was asked for, and then nothing
is remembered. It is found again once it is stored again. -/
theorem answers_from_history_changedForAWhile :
    let again : Request := .set "a.yaml" "nodes: []" { name := "second" }
    let answer (history : List Request) :=
      ((after twoFingerprints history).get "a.yaml" (twoFingerprints "nodes: []")).1
    Set.InjOn twoFingerprints
        {x | x = "nodes: []" ∨ ∃ r ∈ changedForAWhile ++ [again], r.content = x} ∧
      answer changedForAWhile = none ∧ ¬ Stored changedForAWhile "a.yaml" "nodes: []" ∧
      {p | EndsInSet changedForAWhile p}.ncard = 0 ∧
      Stored (changedForAWhile ++ [again]) "a.yaml" "nodes: []" ∧
      answer (changedForAWhile ++ [again]) = some { name := "second" } := by
  intro again answer
  -- The two contents have different fingerprints.
  have hinj : Set.InjOn twoFingerprints {"nodes: []", "changed"} := by
    rintro x (rfl | rfl) y (rfl | rfl) h
    · rfl
    · exact absurd h (by decide)
    · exact absurd h (by decide)
    · rfl
  have hcontents : ∀ r ∈ changedForAWhile ++ [again],
      r.content ∈ ({"nodes: []", "changed"} : Set String) := by
    simp [changedForAWhile, again, Request.content]
  have hlong : Set.InjOn twoFingerprints
      {x | x = "nodes: []" ∨ ∃ r ∈ changedForAWhile ++ [again], r.content = x} := by
    apply hinj.mono
    rintro x (rfl | ⟨r, hr, rfl⟩)
    · exact Or.inl rfl
    · exact hcontents r hr
  have hshort : Set.InjOn twoFingerprints
      {x | x = "nodes: []" ∨ ∃ r ∈ changedForAWhile, r.content = x} := by
    apply hlong.mono
    rintro x (rfl | ⟨r, hr, rfl⟩)
    · exact Or.inl rfl
    · exact Or.inr ⟨r, List.mem_append_left _ hr, rfl⟩
  obtain ⟨hmiss, -, -, -, hsize⟩ :=
    answers_from_history twoFingerprints changedForAWhile "a.yaml" "nodes: []" hshort
  obtain ⟨hhit, -⟩ :=
    answers_from_history twoFingerprints (changedForAWhile ++ [again]) "a.yaml" "nodes: []" hlong
  refine ⟨hlong, by decide +kernel, ?_, ?_, ?_, by decide +kernel⟩
  · rw [← hmiss]
    decide +kernel
  · rw [← hsize]
    decide +kernel
  · rw [← hhit]
    decide +kernel

end Cache

end ScriptFlow
