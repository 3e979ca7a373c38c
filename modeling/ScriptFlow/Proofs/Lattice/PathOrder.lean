import ScriptFlow.Proofs.Lattice.PathState
import Mathlib.Order.Basic

/-!
# The order of path states

Presence values are ordered from `bottom` over the values that say something to `top`, and states
path by path. A join is a least upper bound in both orders. Equal knowledge can be written in two
ways as soon as `top` is written down, so the order of states becomes a partial order only on
states that leave it out, and all states made by recording and joining do.

Main statements: `Presence.join_le_iff`, `PathState.join_le_iff` and `PathState.eq_of_get_eq`.
-/

namespace ScriptFlow

/-! ## Presence values -/

namespace Presence

theorem named_distinct : bottom ≠ top ∧ bottom ≠ maybe ∧ maybe ≠ top := by decide

/-- `bottom` is below and `top` above everything, and `maybe` is above all values but `top`. -/
instance : PartialOrder Presence where
  le a b := a = b ∨ a = bottom ∨ b = top ∨ b = maybe ∧ a ≠ top
  le_refl a := Or.inl rfl
  le_trans a b c hab hbc := by
    obtain ⟨h₁, h₂, h₃⟩ := named_distinct
    -- Only the three named values matter, and these are told apart by cases.
    grind
  le_antisymm a b hab hba := by
    obtain ⟨h₁, h₂, h₃⟩ := named_distinct
    grind

theorem le_iff {a b : Presence} : a ≤ b ↔ a = b ∨ a = bottom ∨ b = top ∨ b = maybe ∧ a ≠ top :=
  Iff.rfl

/-- **A join is a least upper bound.** -/
theorem join_le_iff {a b u : Presence} : a.join b ≤ u ↔ a ≤ u ∧ b ≤ u := by
  obtain ⟨h₁, h₂, h₃⟩ := named_distinct
  unfold join
  -- Case by case as the join is computed.
  simp only [le_iff]
  grind

/-- How often a value can rise: to `maybe` and then to `top`, and from `bottom` once more. -/
def rises (v : Presence) : Nat :=
  if v = top then 0 else if v = maybe then 1 else if v = bottom then 3 else 2

/-- A value that rises has fewer rises left. -/
theorem rises_lt {a b : Presence} (hle : a ≤ b) (hne : a ≠ b) : b.rises < a.rises := by
  obtain ⟨h₁, h₂, h₃⟩ := named_distinct
  rw [le_iff] at hle
  unfold rises
  grind

theorem rises_le {a b : Presence} (hle : a ≤ b) : b.rises ≤ a.rises := by
  by_cases hne : a = b
  · rw [hne]
  · exact (rises_lt hle hne).le

end Presence

/-! ## States -/

namespace PathState

/-- Path by path. -/
instance : Preorder PathState where
  le a b := ∀ p, a.get p ≤ b.get p
  le_refl _ _ := le_rfl
  le_trans _ _ _ hab hbc p := (hab p).trans (hbc p)

theorem le_iff {a b : PathState} : a ≤ b ↔ ∀ p, a.get p ≤ b.get p :=
  Iff.rfl

/-- **The join of two states is their least upper bound.** -/
theorem join_le_iff {a b u : PathState} : a.join b ≤ u ↔ a ≤ u ∧ b ≤ u := by
  simp only [le_iff, get_join, Presence.join_le_iff, forall_and]

/-- No path is written down with the value `top`. -/
def TopFree : PathState → Prop
  | unreached => True
  | table paths => ∀ p, paths.find? p ≠ some .top

theorem topFree_nothing : nothing.TopFree := by
  intro p
  simp

/-- Recording a value writes down no `top`: the path is left out instead. -/
theorem topFree_record {paths : SortedMap String Presence} (h : (table paths).TopFree) (p : String)
    (v : Presence) : (table (record paths p v)).TopFree := by
  intro q
  have hq := h q
  unfold record
  split
  · -- The value is `top`: the path is taken out of the table.
    rw [SortedMap.find?_erase]
    split
    · simp
    · exact hq
  · -- Any other value is written down as it is.
    rename_i hv
    rw [SortedMap.find?_insert]
    split
    · simpa using hv
    · exact hq

/-- Putting a value writes down no `top`, whatever the value is. -/
theorem topFree_put {s : PathState} (h : s.TopFree) (p : String) (v : Presence) :
    (s.put p v).TopFree := by
  cases s with
  | unreached => exact h
  | table paths => exact topFree_record h p v

theorem topFree_foldl_record (l : List String) (f : String → Presence)
    {paths : SortedMap String Presence} (h : (table paths).TopFree) :
    (table (l.foldl (fun m p => record m p (f p)) paths)).TopFree := by
  -- On the paths, for every table that the paths before them have made.
  induction l generalizing paths with
  | nil => exact h
  | cons p rest ih => exact ih (topFree_record h p _)

theorem topFree_join {a b : PathState} (ha : a.TopFree) (hb : b.TopFree) : (a.join b).TopFree := by
  cases a with
  | unreached => exact hb
  | table a =>
    cases b with
    | unreached => exact ha
    | table b => exact topFree_foldl_record _ _ topFree_nothing

/-- **Without `top` a table is determined by what it tells about each path.** -/
theorem eq_of_get_eq {a b : SortedMap String Presence} (ha : (table a).TopFree)
    (hb : (table b).TopFree) (h : ∀ p, (table a).get p = (table b).get p) : table a = table b := by
  congr 1
  apply SortedMap.ext_find?
  intro p
  have hp := h p
  have hap := ha p
  have hbp := hb p
  simp only [get] at hp
  -- A missing path reads as `top`, which is nowhere written down.
  cases hfa : a.find? p with
  | none =>
    cases hfb : b.find? p with
    | none => rfl
    | some w =>
      rw [hfb] at hbp
      simp only [hfa, hfb, Option.getD_none, Option.getD_some] at hp
      exact absurd (congrArg some hp.symm) hbp
  | some v =>
    cases hfb : b.find? p with
    | none =>
      rw [hfa] at hap
      simp only [hfa, hfb, Option.getD_none, Option.getD_some] at hp
      exact absurd (congrArg some hp) hap
    | some w =>
      simp only [hfa, hfb, Option.getD_some] at hp
      rw [hp]

end PathState

end ScriptFlow
