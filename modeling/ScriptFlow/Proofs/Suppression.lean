import ScriptFlow.Suppression
import ScriptFlow.Proofs.Basic

/-!
# What annotations switch off

The marker is read as an annotation if it stands alone or is followed by a colon and a list. An
annotation that was accepted switches off what it would switch off alone, at the points it was given
for, and it takes nothing back that others switched off.

Main statements: `exists_parse_eq_ok_iff`, `suppresses_addGraph` and `suppresses_addPoint`.
-/

namespace ScriptFlow

/-! ## Texts that are annotations -/

/-- Between white space, the text is the marker alone, or the marker, a colon and something that is
not blank. -/
def Scope.IsAnnotation (text : String) : Prop :=
  Text.trimChars text.toList = marker ∨
    ∃ rest, Text.trimChars text.toList = marker ++ ':' :: rest ∧ Text.trimChars rest ≠ []

/-- Exactly the annotations are read. -/
theorem Scope.exists_parse_eq_ok_iff (text : String) :
    (∃ scope, parse text = .ok scope) ↔ IsAnnotation text := by
  unfold parse IsAnnotation
  by_cases hmarker : marker.isPrefixOf (Text.trimChars text.toList) = true
  · -- What follows the marker decides.
    obtain ⟨tail, hbody⟩ := List.isPrefixOf_iff_prefix.mp hmarker
    simp only [← hbody, List.isPrefixOf_iff_prefix, List.prefix_append, if_true,
      List.drop_left, List.append_cancel_left_eq, List.append_right_eq_self]
    -- Nothing, a list after a colon, or something else follows; only a list can be missing.
    cases tail with
    | nil => simp
    | cons c rest =>
      by_cases hcolon : c = ':'
      · subst hcolon
        cases hlist : Text.trimChars rest with
        | nil => simp [hlist]
        | cons d list => simp [hlist]
      · simp [hcolon]
  · -- The text does not start with the marker, so neither form fits.
    have hnone : ∀ tail, Text.trimChars text.toList ≠ marker ++ tail := by
      intro tail hbody
      apply hmarker
      rw [hbody, List.isPrefixOf_iff_prefix]
      exact List.prefix_append marker tail
    have halone := hnone []
    rw [List.append_nil] at halone
    simp [hmarker, halone, hnone]

/-! ## Rules that are switched off -/

/-- Whether an annotation switches off a rule by itself; a text that is no annotation switches off
nothing. -/
def Scope.switchesOff (text rule : String) : Bool :=
  (parse text).toOption.any (·.covers rule)

@[simp] theorem Scope.switchesOff_empty (rule : String) : switchesOff "" rule = false := by
  have hparse : parse "" = .error (.noMarker "") := rfl
  rw [switchesOff, hparse]
  rfl

/-- What switches off a rule is not empty. -/
theorem Scope.switchesOff_iff (text rule : String) :
    switchesOff text rule = true ↔ text ≠ "" ∧ switchesOff text rule = true := by
  by_cases hempty : text = ""
  · simp [hempty]
  · simp [hempty]

namespace Suppressions

variable {s s' : Suppressions}

/-- Without annotations nothing is switched off. -/
@[simp] theorem suppresses_none (id : Int) (rule : String) :
    none.suppresses id rule = false := rfl

/-- An annotation of the graph adds its rules at every point. -/
theorem suppresses_addGraph {text : String} (h : s.addGraph text = .ok s') (id : Int)
    (rule : String) :
    s'.suppresses id rule = (s.suppresses id rule || Scope.switchesOff text rule) := by
  obtain ⟨scope, hparse, hs⟩ := Except.bind_eq_ok.mp h
  cases hs
  simp only [suppresses, Scope.switchesOff, hparse, Except.toOption, Option.any_some,
    List.any_append, List.any_cons, List.any_nil, Bool.or_false]
  -- The new scope stands behind the others of the graph.
  rw [Bool.or_assoc, Bool.or_assoc, Bool.or_comm (scope.covers rule)]

/-- An annotation of a flow point adds its rules at that point. -/
theorem suppresses_addPoint {i : Int} {text : String} (h : s.addPoint i text = .ok s') (id : Int)
    (rule : String) :
    s'.suppresses id rule =
      (s.suppresses id rule || (decide (i = id) && Scope.switchesOff text rule)) := by
  obtain ⟨scope, hparse, hs⟩ := Except.bind_eq_ok.mp h
  cases hs
  simp only [suppresses, Scope.switchesOff, hparse, Except.toOption, Option.any_some,
    List.any_append, List.any_cons, List.any_nil, Bool.or_false, Bool.or_assoc]

end Suppressions

end ScriptFlow
