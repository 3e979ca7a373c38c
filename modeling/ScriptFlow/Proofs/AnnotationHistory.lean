import ScriptFlow.Proofs.Annotation

/-!
# Annotations add up

Annotations are handed in one after the other, for a graph or for one of its flow points, and texts
that are no annotations are refused. What is switched off in the end is the union of what the
accepted annotations switch off by themselves. A union knows neither the order of its parts nor how
often a part was given, and it grows with them.

Main statement: `annotations_add_up`. The step lemma is `suppresses_perform`, and the run lemma is
`suppresses_foldl_perform`.
-/

namespace ScriptFlow

/-- A text switches off the rules it says, and nothing if it says nothing. -/
theorem Scope.switchesOff_iff_exists_says (text rule : String) :
    switchesOff text rule = true ↔ ∃ rules, Says text rules ∧ rules rule := by
  constructor
  · -- What is switched off was read, and what is read says something.
    intro hoff
    cases hparse : parse text with
    | ok scope =>
      obtain ⟨rules, hsaid⟩ :=
        (exists_says_iff text).mpr ((exists_parse_eq_ok_iff text).mp ⟨scope, hparse⟩)
      exact ⟨rules, hsaid, (hsaid.switchesOff_iff rule).mp hoff⟩
    | error e =>
      rw [switchesOff, hparse] at hoff
      cases hoff
  · rintro ⟨rules, hsaid, hrule⟩
    exact (hsaid.switchesOff_iff rule).mpr hrule

namespace Suppressions

/-! ## Requests -/

/-- A text that is handed in as an annotation. -/
inductive Request
  /-- For the whole graph. -/
  | graph (text : String)
  /-- For the flow point with the given id. -/
  | point (id : Int) (text : String)

namespace Request

/-- The text that is handed in. -/
def text : Request → String
  | graph text => text
  | point _ text => text

/-- The request is about the flow point; a request for the graph is about all of them. -/
def Concerns (id : Int) : Request → Prop
  | graph _ => True
  | point i _ => i = id

/-- Whether the request by itself switches off a rule at a flow point. -/
def switchesOff (id : Int) (rule : String) : Request → Bool
  | graph text => Scope.switchesOff text rule
  | point i text => decide (i = id) && Scope.switchesOff text rule

theorem switchesOff_iff {id : Int} {rule : String} {r : Request} :
    r.switchesOff id rule = true ↔ r.Concerns id ∧ Scope.switchesOff r.text rule = true := by
  cases r with
  | graph text => simp [switchesOff, Concerns, Request.text]
  | point i text => simp [switchesOff, Concerns, Request.text]

end Request

/-- The annotations with the one that is handed in, or why it is refused. -/
def add (s : Suppressions) : Request → Except AnnotationError Suppressions
  | .graph text => s.addGraph text
  | .point id text => s.addPoint id text

/-- The annotations after a request. A request that is refused leaves them as they were. -/
def perform (s : Suppressions) (r : Request) : Suppressions :=
  match s.add r with
  | .ok s' => s'
  | .error _ => s

/-- The annotations that were accepted in the course of a history. -/
def after (history : List Request) : Suppressions :=
  history.foldl perform none

/-! ## One request -/

section Step

variable {s s' : Suppressions} {r : Request} {e : AnnotationError}

theorem perform_of_ok (h : s.add r = .ok s') : s.perform r = s' := by
  rw [perform, h]

theorem perform_of_error (h : s.add r = .error e) : s.perform r = s := by
  rw [perform, h]

/-- Whether a request is accepted depends on its text alone. -/
theorem exists_add_eq_ok_iff (s : Suppressions) (r : Request) :
    (∃ s', s.add r = .ok s') ↔ ∃ rules, Scope.Says r.text rules := by
  cases r with
  | graph text => exact exists_addGraph_eq_ok_iff s text
  | point id text => exact exists_addPoint_eq_ok_iff s id text

theorem suppresses_add (h : s.add r = .ok s') (id : Int) (rule : String) :
    s'.suppresses id rule = (s.suppresses id rule || r.switchesOff id rule) := by
  cases r with
  | graph text => exact suppresses_addGraph h id rule
  | point i text => exact suppresses_addPoint h id rule

/-- A request that is refused switches off nothing by itself. -/
theorem switchesOff_of_refused (h : s.add r = .error e) (id : Int) (rule : String) :
    r.switchesOff id rule = false := by
  -- Only texts that say nothing are refused.
  have hsaid : ¬ ∃ rules, Scope.Says r.text rules := by
    rw [← exists_add_eq_ok_iff s r, h]
    rintro ⟨s', hok⟩
    cases hok
  rw [Bool.eq_false_iff]
  intro hoff
  obtain ⟨-, hoff⟩ := Request.switchesOff_iff.mp hoff
  obtain ⟨rules, hrules, -⟩ := (Scope.switchesOff_iff_exists_says r.text rule).mp hoff
  exact hsaid ⟨rules, hrules⟩

/-- A request adds what it switches off by itself, which is nothing if it is refused. -/
theorem suppresses_perform (s : Suppressions) (r : Request) (id : Int) (rule : String) :
    (s.perform r).suppresses id rule = (s.suppresses id rule || r.switchesOff id rule) := by
  cases hadd : s.add r with
  | ok s' => rw [perform_of_ok hadd, suppresses_add hadd]
  | error e => rw [perform_of_error hadd, switchesOff_of_refused hadd, Bool.or_false]

end Step

/-! ## Histories -/

/-- A list of requests adds what each of them switches off by itself. -/
theorem suppresses_foldl_perform (history : List Request) (s : Suppressions) (id : Int)
    (rule : String) :
    (history.foldl perform s).suppresses id rule =
      (s.suppresses id rule || history.any (·.switchesOff id rule)) := by
  -- Induction on the list, for whatever was switched off before it.
  induction history generalizing s with
  | nil => rw [List.foldl_nil, List.any_nil, Bool.or_false]
  | cons r rest ih => rw [List.foldl_cons, ih, suppresses_perform, List.any_cons, Bool.or_assoc]

/-- After a history exactly that is switched off which one of its requests switches off. -/
theorem suppresses_after_iff {history : List Request} {id : Int} {rule : String} :
    (after history).suppresses id rule = true ↔ ∃ r ∈ history, r.switchesOff id rule = true := by
  rw [after, suppresses_foldl_perform, suppresses_none, Bool.false_or, List.any_eq_true]

/-- What is switched off stays so if requests are added, wherever they are made. -/
theorem suppresses_after_of_subset {history more : List Request} (h : history ⊆ more) {id : Int}
    {rule : String} (hoff : (after history).suppresses id rule = true) :
    (after more).suppresses id rule = true := by
  obtain ⟨r, hr, hoff⟩ := suppresses_after_iff.mp hoff
  exact suppresses_after_iff.mpr ⟨r, h hr, hoff⟩

/-- Only which requests were made matters. -/
theorem suppresses_after_congr {history other : List Request}
    (h : ∀ r, r ∈ other ↔ r ∈ history) (id : Int) (rule : String) :
    (after other).suppresses id rule = (after history).suppresses id rule := by
  rw [Bool.eq_iff_iff]
  constructor
  · exact suppresses_after_of_subset fun r => (h r).mp
  · exact suppresses_after_of_subset fun r => (h r).mpr

/-- The request was made in the course of the history, and it was accepted then. -/
def Accepted (history : List Request) (r : Request) : Prop :=
  ∃ earlier later s', history = earlier ++ r :: later ∧ (after earlier).add r = .ok s'

/-- Accepted are the requests of the history whose texts say something, whenever they are made. -/
theorem accepted_iff {history : List Request} {r : Request} :
    Accepted history r ↔ r ∈ history ∧ ∃ rules, Scope.Says r.text rules := by
  constructor
  · rintro ⟨earlier, later, s', rfl, hadd⟩
    refine ⟨List.mem_append_right earlier List.mem_cons_self, ?_⟩
    exact (exists_add_eq_ok_iff (after earlier) r).mp ⟨s', hadd⟩
  · rintro ⟨hr, hsaid⟩
    -- Some occurrence of the request is enough: it is accepted wherever it stands.
    obtain ⟨earlier, later, rfl⟩ := List.append_of_mem hr
    obtain ⟨s', hadd⟩ := (exists_add_eq_ok_iff (after earlier) r).mpr hsaid
    exact ⟨earlier, later, s', rfl, hadd⟩

/-- **Annotations add up.** Take any list of requests, handed in one after the other when there are
no annotations yet. A rule is then switched off at a flow point if and only if an annotation says so
that was accepted for the graph or for that point; handed in alone, it switches off the rules that
it says. Hence a request that is refused may as well be left out, the order of the requests does not
matter, nor does it matter if one of them is made again, and no rule is switched on by further
requests. -/
theorem annotations_add_up (history : List Request) (id : Int) (rule : String) :
    ((after history).suppresses id rule = true ↔
        ∃ text rules, (Accepted history (.graph text) ∨ Accepted history (.point id text)) ∧
          Scope.Says text rules ∧ rules rule) ∧
      (∀ text rules, Scope.Says text rules →
        ((after [.graph text]).suppresses id rule = true ↔ rules rule) ∧
          ((after [.point id text]).suppresses id rule = true ↔ rules rule)) ∧
      (∀ earlier r later e, history = earlier ++ r :: later → (after earlier).add r = .error e →
        after history = after (earlier ++ later)) ∧
      (∀ other, other.Perm history →
        (after other).suppresses id rule = (after history).suppresses id rule) ∧
      (∀ earlier r later, history = earlier ++ later → r ∈ history →
        (after (earlier ++ r :: later)).suppresses id rule =
          (after history).suppresses id rule) ∧
      ∀ more, history ⊆ more → (after history).suppresses id rule = true →
        (after more).suppresses id rule = true := by
  refine ⟨?_, ?_, ?_, ?_, ?_, fun more hmore => suppresses_after_of_subset hmore⟩
  · rw [suppresses_after_iff]
    constructor
    · rintro ⟨r, hr, hoff⟩
      obtain ⟨hconcerns, hoff⟩ := Request.switchesOff_iff.mp hoff
      obtain ⟨rules, hsaid, hrule⟩ := (Scope.switchesOff_iff_exists_says r.text rule).mp hoff
      -- A text that says something is accepted whenever it is handed in.
      have haccepted : Accepted history r := accepted_iff.mpr ⟨hr, rules, hsaid⟩
      cases r with
      | graph text => exact ⟨text, rules, Or.inl haccepted, hsaid, hrule⟩
      | point i text =>
        obtain rfl : i = id := hconcerns
        exact ⟨text, rules, Or.inr haccepted, hsaid, hrule⟩
    · rintro ⟨text, rules, haccepted, hsaid, hrule⟩
      have hoff := (hsaid.switchesOff_iff rule).mpr hrule
      rcases haccepted with haccepted | haccepted
      · exact ⟨_, (accepted_iff.mp haccepted).1, Request.switchesOff_iff.mpr ⟨trivial, hoff⟩⟩
      · exact ⟨_, (accepted_iff.mp haccepted).1, Request.switchesOff_iff.mpr ⟨rfl, hoff⟩⟩
  · -- A history of one request.
    intro text rules hsaid
    simp only [suppresses_after_iff, List.mem_singleton, exists_eq_left, Request.switchesOff,
      decide_true, Bool.true_and, hsaid.switchesOff_iff, and_self]
  · -- A refused request returns the annotations it was given.
    rintro earlier r later e rfl hrefused
    simp only [after, List.foldl_append, List.foldl_cons] at hrefused ⊢
    rw [perform_of_error hrefused]
  · -- The same requests in another order.
    intro other hperm
    exact suppresses_after_congr (fun r => hperm.mem_iff) id rule
  · rintro earlier r later rfl hr
    -- The repeated request is among the others already.
    apply suppresses_after_congr
    intro r'
    rw [List.perm_middle.mem_iff, List.mem_cons]
    constructor
    · rintro (rfl | hr')
      · exact hr
      · exact hr'
    · exact Or.inr

/-- A rule is switched off at one point and another one everywhere; between the two requests a list
without rules is refused. It may be left out, the others may change places and be repeated, and the
first rule stays on at other points. -/
theorem annotations_add_up_refusal :
    let atPoint : Request := .point 1 "//nolint:a"
    let refused : Request := .graph "//nolint:"
    let atGraph : Request := .graph " //nolint: b,"
    let history := [atPoint, refused, atGraph]
    Scope.Says "//nolint:a" (Scope.Names ['a']) ∧ Accepted history atPoint ∧
      (after history).suppresses 1 "a" = true ∧ (after history).suppresses 2 "a" = false ∧
      (after [atPoint]).add refused = .error .noRules ∧ after history = after [atPoint, atGraph] ∧
      (after [atGraph, atPoint, refused]).suppresses 1 "a" = true ∧
      (after [atPoint, atPoint, refused, atGraph]).suppresses 1 "a" = true ∧
      (after (.graph "//nolint:c" :: history)).suppresses 1 "a" = true := by
  intro atPoint refused atGraph history
  obtain ⟨hunion, -, hrefused, horder, hagain, hmore⟩ := annotations_add_up history 1 "a"
  have hlists : Scope.Lists "//nolint:a" ['a'] := by
    unfold Scope.Lists
    decide
  have hnames : Scope.Names ['a'] "a" := Scope.mem_ruleNames.mp (by decide)
  have haccepted : Accepted history atPoint := ⟨[], [refused, atGraph], _, rfl, rfl⟩
  have hoff : (after history).suppresses 1 "a" = true :=
    hunion.mpr ⟨_, _, Or.inr haccepted, .named hlists hnames, hnames⟩
  have herror : (after [atPoint]).add refused = .error .noRules := rfl
  refine ⟨.named hlists hnames, haccepted, hoff, by decide +kernel, herror,
    hrefused [atPoint] refused [atGraph] .noRules rfl herror, ?_, ?_, ?_⟩
  · exact (horder _ (List.perm_append_singleton atGraph [atPoint, refused]).symm).trans hoff
  · exact (hagain [] atPoint history rfl List.mem_cons_self).trans hoff
  · exact hmore _ (List.subset_cons_self _ _) hoff

end Suppressions

end ScriptFlow
