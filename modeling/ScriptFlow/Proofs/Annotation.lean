import ScriptFlow.Proofs.Suppression
import ScriptFlow.Proofs.Text.Pieces

/-!
# What an annotation says

An annotation is trimmed as a whole, its list is trimmed after the colon, and so is every item of
the list. None of this is visible in the end: the rules that are switched off are the items of the
list as it was written, without the white space around them. A scope without names stands for all
rules, and this is also the scope of a list that has items but none with a name in it.

Main statement: `annotation_meaning`, for annotations of graphs and of flow points.
-/

namespace ScriptFlow

theorem Text.mem_of_mem_trimChars {cs : List Char} {c : Char} (h : c ∈ trimChars cs) : c ∈ cs := by
  obtain ⟨front, back, -, -, hcs⟩ := exists_blank_around cs
  rw [hcs]
  exact List.mem_append_left back (List.mem_append_right front h)

namespace Scope

/-! ## The names in a list -/

/-- A comma separated list names a rule: one of its items is the rule, apart from white space, and
the rule is not empty. -/
def Names (list : List Char) (rule : String) : Prop :=
  rule ≠ "" ∧ ∃ item ∈ list.splitOn ',', rule = String.ofList (Text.trimChars item)

/-- The rules read from a list are the ones it names. -/
theorem mem_ruleNames {list : List Char} {rule : String} :
    rule ∈ ruleNames list ↔ Names list rule := by
  unfold ruleNames Names
  rw [List.mem_filter, List.mem_map, Text.splitAt_eq_splitOn]
  simp only [decide_not, Bool.not_eq_eq_eq_not, Bool.not_true, decide_eq_false_iff_not]
  constructor
  · rintro ⟨⟨item, hitem, rfl⟩, hne⟩
    exact ⟨hne, item, hitem, rfl⟩
  · rintro ⟨hne, item, hitem, rfl⟩
    exact ⟨⟨item, hitem, rfl⟩, hne⟩

theorem ruleNames_trimChars (list : List Char) :
    ruleNames (Text.trimChars list) = ruleNames list := by
  -- The comma is no white space, so what is trimmed belongs to the first and the last item.
  have hcomma : Text.isBlank ',' = false := by decide
  have hpieces := Text.map_trimChars_splitAt hcomma list
  have hnames := congrArg (List.map String.ofList) hpieces
  rw [List.map_map, List.map_map] at hnames
  exact congrArg (List.filter (· ≠ "")) hnames

/-- A list of white space alone names nothing. -/
theorem trimChars_ne_nil_of_names {list : List Char} {rule : String} (h : Names list rule) :
    Text.trimChars list ≠ [] := by
  intro hnil
  -- The trimmed list has the same names, and the empty list has none.
  rw [← mem_ruleNames, ← ruleNames_trimChars, hnil] at h
  have hempty : ruleNames [] = [] := by decide
  rw [hempty] at h
  exact absurd h List.not_mem_nil

/-- The separator is in no item, so no list names it. -/
theorem not_names_comma (list : List Char) : ¬ Names list "," := by
  rintro ⟨-, item, hitem, hcomma⟩
  -- Otherwise a piece between commas would hold a comma.
  rw [← Text.splitAt_eq_splitOn] at hitem
  have htrimmed : [','] = Text.trimChars item := by
    simpa using congrArg String.toList hcomma
  have hmem : ',' ∈ Text.trimChars item := by simp [← htrimmed]
  exact Text.not_mem_of_mem_splitAt hitem (Text.mem_of_mem_trimChars hmem)

/-! ## Reading -/

/-- The annotation consists of the marker, a colon and the list. -/
def Lists (text : String) (list : List Char) : Prop :=
  Text.trimChars text.toList = marker ++ ':' :: list

/-- The rules that a text switches off as an annotation. -/
inductive Says (text : String) : (String → Prop) → Prop
  /-- The marker alone stands for all rules. -/
  | all : Text.trimChars text.toList = marker → Says text fun _ => True
  /-- A list with a name in it stands for the rules it names. -/
  | named {list : List Char} {name : String} :
      Lists text list → Names list name → Says text (Names list)
  /-- A list that is not blank but has no name in it stands for all rules. -/
  | nameless {list : List Char} :
      Lists text list → Text.trimChars list ≠ [] → (∀ name, ¬ Names list name) →
        Says text fun _ => True

theorem parse_of_alone {text : String} (h : Text.trimChars text.toList = marker) :
    parse text = .ok ⟨.empty⟩ := by
  simp [parse, h]

/-- A list that is not blank is read as the scope of its names. -/
theorem parse_of_lists {text : String} {list : List Char} (h : Lists text list)
    (hne : Text.trimChars list ≠ []) : parse text = .ok ⟨.ofList (ruleNames list)⟩ := by
  have hprefix : marker.isPrefixOf (marker ++ ':' :: list) = true :=
    List.isPrefixOf_iff_prefix.mpr (List.prefix_append _ _)
  unfold parse
  -- Behind the marker and the colon stands the list.
  rw [h, if_pos hprefix, List.drop_left]
  cases htrimmed : Text.trimChars list with
  | nil => exact absurd htrimmed hne
  | cons c rest => simp [htrimmed, ← ruleNames_trimChars list]

/-- A scope made from a list covers the names in the list, or everything if there are none. -/
theorem covers_ofList_iff (list : List Char) (rule : String) :
    (⟨.ofList (ruleNames list)⟩ : Scope).covers rule = true ↔
      (∀ name, ¬ Names list name) ∨ Names list rule := by
  unfold covers
  rw [Bool.or_eq_true, List.isEmpty_iff, ItemSet.has_eq_true, ItemSet.mem_ofList, mem_ruleNames,
    List.eq_nil_iff_forall_not_mem]
  simp only [ItemSet.mem_ofList, mem_ruleNames]

/-- What a text says is read from it, and it covers the rules it says. -/
theorem Says.parse {text : String} {rules : String → Prop} (h : Says text rules) :
    ∃ scope, Scope.parse text = .ok scope ∧ ∀ rule, scope.covers rule = true ↔ rules rule := by
  cases h with
  | all halone => exact ⟨_, parse_of_alone halone, fun rule => by simp [covers, ItemSet.empty]⟩
  | named hlist hname =>
    refine ⟨_, parse_of_lists hlist (trimChars_ne_nil_of_names hname), fun rule => ?_⟩
    rw [covers_ofList_iff]
    -- Another name is in the list, so the first alternative does not hold.
    exact or_iff_right fun hnone => hnone _ hname
  | nameless hlist hne hnone =>
    refine ⟨_, parse_of_lists hlist hne, fun rule => ?_⟩
    rw [covers_ofList_iff]
    exact iff_of_true (Or.inl hnone) trivial

/-- Exactly the annotations say something. -/
theorem exists_says_iff (text : String) : (∃ rules, Says text rules) ↔ IsAnnotation text := by
  constructor
  · rintro ⟨rules, hmeans⟩
    obtain ⟨scope, hparse, -⟩ := hmeans.parse
    exact (exists_parse_eq_ok_iff text).mp ⟨scope, hparse⟩
  · rintro (halone | ⟨list, hlist, hne⟩)
    · exact ⟨_, .all halone⟩
    · -- What is accepted is decided before the blank items are dropped, so both cases are left.
      by_cases hname : ∃ name, Names list name
      · obtain ⟨name, hname⟩ := hname
        exact ⟨_, .named hlist hname⟩
      · exact ⟨_, .nameless hlist hne (not_exists.mp hname)⟩

/-- A text switches off exactly the rules it says. -/
theorem Says.switchesOff_iff {text : String} {rules : String → Prop} (h : Says text rules)
    (rule : String) : switchesOff text rule = true ↔ rules rule := by
  obtain ⟨scope, hparse, hcovers⟩ := h.parse
  rw [switchesOff, hparse]
  exact hcovers rule

end Scope

/-! ## Annotations of graphs and flow points -/

namespace Suppressions

theorem exists_addGraph_eq_ok_iff (s : Suppressions) (text : String) :
    (∃ s', s.addGraph text = .ok s') ↔ ∃ rules, Scope.Says text rules := by
  rw [Scope.exists_says_iff, ← Scope.exists_parse_eq_ok_iff, addGraph]
  simp [Except.bind_eq_ok, pure, Except.pure]

theorem exists_addPoint_eq_ok_iff (s : Suppressions) (i : Int) (text : String) :
    (∃ s', s.addPoint i text = .ok s') ↔ ∃ rules, Scope.Says text rules := by
  rw [Scope.exists_says_iff, ← Scope.exists_parse_eq_ok_iff, addPoint]
  simp [Except.bind_eq_ok, pure, Except.pure]

/-- **An annotation switches off what it says.** For a graph or a flow point, the texts that say
something are accepted and no others. An accepted text adds the rules it says to those that were
switched off before, at every point or at its own. If its list has a name in it these are the rules
named there, and never all rules. -/
theorem annotation_meaning (s : Suppressions) (i : Int) (text : String) :
    ((∃ s', s.addGraph text = .ok s') ↔ ∃ rules, Scope.Says text rules) ∧
      ((∃ s', s.addPoint i text = .ok s') ↔ ∃ rules, Scope.Says text rules) ∧
      (∀ rules, Scope.Says text rules →
        (∀ s', s.addGraph text = .ok s' → ∀ id rule,
          (s'.suppresses id rule = true ↔ s.suppresses id rule = true ∨ rules rule)) ∧
        ∀ s', s.addPoint i text = .ok s' → ∀ id rule,
          (s'.suppresses id rule = true ↔ s.suppresses id rule = true ∨ i = id ∧ rules rule)) ∧
      ∀ list name, Scope.Lists text list → Scope.Names list name →
        Scope.Says text (Scope.Names list) ∧ ∃ rule, rule ≠ "" ∧ ¬ Scope.Names list rule := by
  refine ⟨exists_addGraph_eq_ok_iff s text, exists_addPoint_eq_ok_iff s i text, ?_, ?_⟩
  · -- What a scope adds is known from its text; what it says, from the way it is read.
    intro rules hmeans
    constructor
    · intro s' hadd id rule
      rw [suppresses_addGraph hadd, Bool.or_eq_true, hmeans.switchesOff_iff]
    · intro s' hadd id rule
      rw [suppresses_addPoint hadd, Bool.or_eq_true, Bool.and_eq_true, decide_eq_true_eq,
        hmeans.switchesOff_iff]
  · -- Whatever a list names, the comma is a rule it leaves on.
    intro list name hlist hname
    exact ⟨.named hlist hname, ",", by decide, Scope.not_names_comma list⟩

/-- Every item is surrounded by white space or blank, and one is repeated: the two names are
switched off at the annotated point, and nothing else is. -/
theorem annotation_meaning_sparse :
    Scope.Lists " //nolint: b ,, a,b " " b ,, a,b".toList ∧ Scope.Names " b ,, a,b".toList "a" ∧
      ∃ s, none.addPoint 2 " //nolint: b ,, a,b " = .ok s ∧
        ∀ id rule, s.suppresses id rule = true ↔ 2 = id ∧ (rule = "a" ∨ rule = "b") := by
  have hlist : Scope.Lists " //nolint: b ,, a,b " " b ,, a,b".toList := by
    unfold Scope.Lists
    decide
  have hnames : ∀ rule, Scope.Names " b ,, a,b".toList rule ↔ rule = "a" ∨ rule = "b" := by
    intro rule
    -- The names are those of the items that are not blank.
    have hread : Scope.ruleNames " b ,, a,b".toList = ["b", "a", "b"] := by decide
    rw [← Scope.mem_ruleNames, hread]
    grind
  have ha : Scope.Names " b ,, a,b".toList "a" := (hnames "a").mpr (Or.inl rfl)
  obtain ⟨-, haccepted, hmeaning, hnamed⟩ := annotation_meaning none 2 " //nolint: b ,, a,b "
  have hmeans := (hnamed _ _ hlist ha).1
  obtain ⟨s, hadd⟩ := haccepted.mpr ⟨_, hmeans⟩
  refine ⟨hlist, ha, s, hadd, fun id rule => ?_⟩
  rw [(hmeaning _ hmeans).2 s hadd, hnames]
  simp

/-- A list of one comma has no name in it. It is accepted nevertheless, and it switches off every
rule at every point. -/
theorem nameless_list_covers_everything :
    Scope.Lists "//nolint:," [','] ∧ (∀ name, ¬ Scope.Names [','] name) ∧
      ∃ s, none.addGraph "//nolint:," = .ok s ∧ ∀ id rule, s.suppresses id rule = true := by
  have hlist : Scope.Lists "//nolint:," [','] := by
    unfold Scope.Lists
    decide
  have hnone : ∀ name, ¬ Scope.Names [','] name := by
    intro name hname
    have hread : Scope.ruleNames [','] = [] := by decide
    rw [← Scope.mem_ruleNames, hread] at hname
    exact absurd hname List.not_mem_nil
  have hmeans := Scope.Says.nameless hlist (by decide) hnone
  obtain ⟨s, hadd⟩ := (exists_addGraph_eq_ok_iff none "//nolint:,").mpr ⟨_, hmeans⟩
  refine ⟨hlist, hnone, s, hadd, fun id rule => ?_⟩
  rw [suppresses_addGraph hadd, (hmeans.switchesOff_iff rule).mpr trivial, Bool.or_true]

end Suppressions

end ScriptFlow
