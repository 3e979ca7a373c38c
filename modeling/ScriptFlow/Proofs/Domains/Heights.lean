import ScriptFlow.Proofs.Dataflow.Ascent
import ScriptFlow.Proofs.Domains.PathPresence
import ScriptFlow.Proofs.Lattice.PathOrder
import Mathlib.Algebra.Order.BigOperators.Group.Finset

/-!
# How often the values of the analyses can rise

None of the three analyses has a bound on its chains that holds for all values: there are
arbitrarily large sets of names and arbitrarily large tables of paths. On a given network only
some values occur. Reachability is `true` everywhere; a set of names holds names of reached
commands; a table of paths writes down operands of reached commands, and each of these can rise
twice, to `maybe` and to `top`.

Main statements: `reachability_climbs`, `labels_climbs` and `pathPresence_climbs`.
-/

namespace ScriptFlow

open Engine

variable (net : Network) (entries : List Nat)

/-- The value of reachability is `true` at every reached point, so it never rises. -/
theorem reachability_climbs :
    reachability.Climbs net entries (· = true) (fun _ => 0) 1 where
  initial := rfl
  merge a b ha hb := by simp [reachability, Flag.join, ha]
  transfer _ _ _ ha := ha
  merge_le_iff a b u ha hb hu := by simp [reachability, Flag.join, ha, hb, hu]
  transfer_mono _ _ _ _ _ _ hab := hab
  equal _ _ := beq_iff_eq
  room_lt _ _ := Nat.one_pos
  room_lt_room a b ha hb _ hne := absurd (ha.trans hb.symm) hne

/-! ## Names -/

namespace Network

/-- The names of the commands at the reached points; a text without a command has none. -/
def commandNames : Finset String :=
  ((region net entries).image fun p => (Command.parse (net.text p)).name).erase ""

/-- The operands of the commands at the reached points. -/
def operandPaths : Finset String :=
  (region net entries).biUnion fun p => (Command.parse (net.text p)).operands.toFinset

variable {net entries}

theorem mem_commandNames {p : Nat} (hp : net.ReachedFrom entries p)
    (hname : (Command.parse (net.text p)).name ≠ "") :
    (Command.parse (net.text p)).name ∈ net.commandNames entries := by
  rw [commandNames, Finset.mem_erase, Finset.mem_image]
  exact ⟨hname, p, mem_region.mpr hp, rfl⟩

theorem mem_operandPaths {p : Nat} (hp : net.ReachedFrom entries p) {path : String}
    (hpath : path ∈ (Command.parse (net.text p)).operands) : path ∈ net.operandPaths entries := by
  rw [operandPaths, Finset.mem_biUnion]
  exact ⟨p, mem_region.mpr hp, List.mem_toFinset.mpr hpath⟩

end Network

/-- The number of given names that are missing from a set. -/
def ItemSet.missing (names : Finset String) (v : ItemSet String) : Nat :=
  (names \ v.items.toFinset).card

/-- A set of names can rise once for each name that may come into it. -/
theorem labels_climbs :
    labels.Climbs net entries (fun v => ∀ name ∈ v.items, name ∈ net.commandNames entries)
      (ItemSet.missing (net.commandNames entries)) ((net.commandNames entries).card + 1) where
  initial name hname := by simp [labels, ItemSet.empty] at hname
  merge a b ha hb name hname := by
    rcases (ItemSet.mem_union a b name).mp hname with h | h
    · exact ha name h
    · exact hb name h
  transfer p hp v hv name hname := by
    simp only [labels, Network.site] at hname
    split at hname
    · exact hv name hname
    · rename_i hblank
      rcases (ItemSet.mem_insert v _ name).mp hname with rfl | h
      · -- The text names a command at a reached point.
        exact Network.mem_commandNames hp hblank
      · exact hv name h
  merge_le_iff _ _ _ _ _ _ := (labels_ordered net).merge_le_iff
  transfer_mono p _ _ _ _ _ hab := (labels_ordered net).transfer p hab
  equal := (labels_ordered net).equal
  room_lt v _ := Nat.lt_succ_of_le (Finset.card_le_card Finset.sdiff_subset)
  room_lt_room a b ha hb hab hne := by
    -- Some name is in the larger set only, and it is one of those that count.
    obtain ⟨name, hmem, hnot⟩ : ∃ name, name ∈ b.items ∧ name ∉ a.items := by
      by_contra hnone
      push Not at hnone
      exact hne (le_antisymm hab hnone)
    apply Finset.card_lt_card
    rw [Finset.ssubset_iff_of_subset]
    · -- It is missing from the smaller set only.
      refine ⟨name, ?_, ?_⟩
      · simp [hb name hmem, hnot]
      · simp [hmem]
    · -- What is missing from the larger set is missing from the smaller one.
      apply Finset.sdiff_subset_sdiff (Finset.Subset.refl _)
      intro x hx
      exact List.mem_toFinset.mpr (hab x (List.mem_toFinset.mp hx))

/-! ## Paths -/

namespace PathPresence

/-- A state that can occur: each value is known, `top` is not written down, and nothing is known
about paths outside the given ones. -/
structure Within (paths : Finset String) (s : PathState) : Prop where
  regular : Regular s
  topFree : s.TopFree
  outside : ∀ p, p ∉ paths → s.get p = .top

/-- How often a state can rise, counted path by path. -/
def climbsLeft (paths : Finset String) (s : PathState) : Nat :=
  ∑ p ∈ paths, (s.get p).rises

variable {paths : Finset String}

/-- Each path can rise twice, from a definite value to `maybe` and from there to `top`. -/
theorem climbsLeft_le {s : PathState} (h : Within paths s) :
    climbsLeft paths s ≤ 2 * paths.card := by
  have hsum := Finset.sum_le_card_nsmul paths (fun p => (s.get p).rises) 2 fun p _ => by
    rcases h.regular p with hp | hp | hp | hp <;> rw [hp] <;> decide
  rw [smul_eq_mul, Nat.mul_comm] at hsum
  exact hsum

/-- States that differ do so on one of the paths, where the larger one has less left to climb. -/
theorem climbsLeft_lt {a b : PathState} (ha : Within paths a) (hb : Within paths b) (hab : a ≤ b)
    (hne : a ≠ b) : climbsLeft paths b < climbsLeft paths a := by
  obtain ⟨p, hp⟩ : ∃ p, a.get p ≠ b.get p := by
    by_contra hsame
    -- Tables with the same values for all paths are the same, as `top` is not written down.
    push Not at hsame
    obtain ⟨ta, rfl⟩ := ha.regular.exists_table
    obtain ⟨tb, rfl⟩ := hb.regular.exists_table
    exact hne (PathState.eq_of_get_eq ha.topFree hb.topFree hsame)
  have hmem : p ∈ paths := by
    by_contra hout
    exact hp ((ha.outside p hout).trans (hb.outside p hout).symm)
  apply Finset.sum_lt_sum
  · intro q _
    exact Presence.rises_le (hab q)
  · exact ⟨p, hmem, Presence.rises_lt (hab p) hp⟩

theorem assignment_eq_none {c : Command} {path : String} (h : path ∉ c.operands) :
    c.assignment path = none := by
  have hlast : c.operands.getLast? ≠ some path := fun he => h (List.mem_of_getLast? he)
  have hinit : path ∉ c.operands.dropLast := fun he => h (List.mem_of_mem_dropLast he)
  simp [Command.assignment, h, hlast, hinit]

theorem topFree_apply {s : PathState} (h : s.TopFree) (c : Command) : (c.apply s).TopFree := by
  unfold Command.apply
  -- Induction on the effects of the command.
  induction c.effects generalizing s with
  | nil => exact h
  | cons e rest ih => exact ih (PathState.topFree_put h _ _)

theorem within_apply {s : PathState} (h : Within paths s) {c : Command}
    (hc : ∀ path ∈ c.operands, path ∈ paths) : Within paths (c.apply s) := by
  refine ⟨regular_apply h.regular c, topFree_apply h.topFree c, fun p hp => ?_⟩
  obtain ⟨table, rfl⟩ := h.regular.exists_table
  have hfree : c.assignment p = none := assignment_eq_none fun hmem => hp (hc p hmem)
  rw [Command.get_apply, hfree]
  exact h.outside p hp

end PathPresence

/-- A state of the presence analysis can rise twice for each operand at a reached point. -/
theorem pathPresence_climbs :
    pathPresence.Climbs net entries (PathPresence.Within (net.operandPaths entries))
      (PathPresence.climbsLeft (net.operandPaths entries))
      (2 * (net.operandPaths entries).card + 1) where
  initial := by
    refine ⟨fun p => ?_, PathState.topFree_nothing, fun p _ => rfl⟩
    exact Or.inr (Or.inr (Or.inr rfl))
  merge a b ha hb := by
    refine ⟨fun p => ?_, PathState.topFree_join ha.topFree hb.topFree, fun p hp => ?_⟩
    · rw [pathPresence, PathState.get_join]
      exact (ha.regular p).join (hb.regular p)
    -- A path outside is `top` on both sides.
    · rw [pathPresence, PathState.get_join, ha.outside p hp, hb.outside p hp]
      decide
  transfer p hp s hs := PathPresence.within_apply hs fun path => Network.mem_operandPaths hp
  merge_le_iff _ _ _ _ _ _ := PathState.join_le_iff
  transfer_mono p _ a b ha hb hab path := by
    -- An assigned path has the same value after both states, any other one keeps its own.
    obtain ⟨ta, rfl⟩ := ha.regular.exists_table
    obtain ⟨tb, rfl⟩ := hb.regular.exists_table
    simp only [pathPresence, Command.get_apply]
    cases (Command.parse (net.site p).text).assignment path with
    | none => exact hab path
    | some e => exact le_rfl
  equal _ _ := decide_eq_true_iff
  room_lt s hs := Nat.lt_succ_of_le (PathPresence.climbsLeft_le hs)
  room_lt_room a b ha hb := PathPresence.climbsLeft_lt ha hb

end ScriptFlow
