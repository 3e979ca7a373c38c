import ScriptFlow.Proofs.Lattice.PathOrder
import Mathlib.Data.Fintype.EquivFin
import Mathlib.Order.BoundedOrder.Lattice
import Mathlib.Order.Bounds.Basic

/-!
# Path states form a semilattice

The order of states is a partial order on the states that leave `top` out, and there a join is a
supremum: never reached is the least state and nothing known the greatest. All laws of joins follow
from that. Two states are compared by their sizes and by looking up the entries of one in the
other, which is enough for equality, and equality is agreement on every path.

Main statement: `states_form_semilattice`.
-/

namespace ScriptFlow

namespace Presence

theorem le_iff_join_eq {a b : Presence} : a ≤ b ↔ a.join b = b := by
  constructor
  · intro hle
    exact le_antisymm (join_le_iff.mpr ⟨hle, le_rfl⟩) (join_le_iff.mp le_rfl).2
  · intro hjoin
    exact (join_le_iff.mp hjoin.le).1

end Presence

namespace PathState

/-! ## Comparing states -/

/-- Whether two states hold the same entries: they have equally many, and those of the first are
found in the second. -/
def sameEntries : PathState → PathState → Bool
  | unreached, unreached => true
  | table a, table b => decide (a.size = b.size) && a.entries.all fun e => b.find? e.1 = some e.2
  | _, _ => false

/-- The comparison tells equality, also where `top` is written down. -/
theorem sameEntries_iff {a b : PathState} : a.sameEntries b = true ↔ a = b := by
  cases a with
  | unreached => cases b <;> simp [sameEntries]
  | table a =>
    cases b with
    | unreached => simp [sameEntries]
    | table b =>
      simp only [sameEntries, Bool.and_eq_true, decide_eq_true_eq, List.all_eq_true,
        table.injEq]
      constructor
      · -- As many entries, and all of the first in the second.
        rintro ⟨hsize, hpart⟩
        exact SortedMap.eq_of_size_eq hsize hpart
      · rintro rfl
        exact ⟨rfl, fun e he => (SortedMap.mem_entries_iff a e.1 e.2).mp he⟩

/-- A table leaves paths out, because it is finite. -/
theorem exists_get_eq_top (paths : SortedMap String Presence) :
    ∃ p, (table paths).get p = .top := by
  -- There are infinitely many paths and finitely many keys.
  obtain ⟨p, hp⟩ := Infinite.exists_notMem_finset paths.keys.toFinset
  exact ⟨p, get_of_not_mem_keys (by simpa using hp)⟩

/-- **States without `top` are equal if they agree on every path.** No table agrees with the state
that is never reached. -/
theorem TopFree.ext_get {a b : PathState} (ha : a.TopFree) (hb : b.TopFree)
    (h : ∀ p, a.get p = b.get p) : a = b := by
  -- The state that is never reached has `bottom` everywhere, which no table has.
  have hreached : ∀ paths, ¬ ∀ p, (table paths).get p = .bottom := by
    intro paths hbottom
    obtain ⟨p, htop⟩ := exists_get_eq_top paths
    exact Presence.named_distinct.1 ((hbottom p).symm.trans htop)
  cases a with
  | unreached =>
    cases b with
    | unreached => rfl
    | table b => exact absurd (fun p => (h p).symm) (hreached b)
  | table a =>
    cases b with
    | unreached => exact absurd h (hreached a)
    | table b => exact eq_of_get_eq ha hb h

/-! ## States made by the operations -/

/-- A use of an operation on a row of states, which are known by their places. -/
inductive Operation
  /-- A new state that is never reached. -/
  | unreached
  /-- A new state at which nothing is known. -/
  | nothing
  /-- The value of a path is replaced in place. -/
  | put (i : Nat) (p : String) (v : Presence)
  /-- A new state that is a copy. -/
  | copy (i : Nat)
  /-- A new state that is a join. -/
  | join (i j : Nat)

/-- The row after an operation; a new state stands at its end. -/
def Operation.perform (made : List PathState) : Operation → List PathState
  | unreached => made ++ [.unreached]
  | nothing => made ++ [.nothing]
  | put i p v => made.modify i fun s => s.put p v
  | copy i => made ++ made[i]?.toList
  | join i j => made ++ (made[i]?.bind fun a => made[j]?.map a.join).toList

/-- No operation writes `top` down. -/
theorem topFree_perform {made : List PathState} (h : ∀ s ∈ made, s.TopFree) (op : Operation) :
    ∀ s ∈ op.perform made, s.TopFree := by
  have hplace : ∀ (i : Nat) (s : PathState), made[i]? = some s → s.TopFree := by
    intro i s hi
    exact h s (List.mem_of_getElem? hi)
  -- All operations but `put` leave the row as it is and add to its end.
  cases op with
  | unreached => exact List.forall_mem_append.mpr ⟨h, List.forall_mem_singleton.mpr trivial⟩
  | nothing => exact List.forall_mem_append.mpr ⟨h, List.forall_mem_singleton.mpr topFree_nothing⟩
  | put i p v =>
    intro s hs
    obtain ⟨k, hk⟩ := List.mem_iff_getElem?.mp hs
    simp only [Operation.perform, List.getElem?_modify] at hk
    obtain ⟨s', hs', rfl⟩ := Option.map_eq_some_iff.mp hk
    split
    · -- The path put into this state is the only change.
      exact topFree_put (hplace k s' hs') p v
    · exact hplace k s' hs'
  | copy i =>
    refine List.forall_mem_append.mpr ⟨h, fun s hs => ?_⟩
    exact hplace i s (Option.mem_toList.mp hs)
  | join i j =>
    refine List.forall_mem_append.mpr ⟨h, fun s hs => ?_⟩
    obtain ⟨a, ha, hjoin⟩ := Option.bind_eq_some_iff.mp (Option.mem_toList.mp hs)
    obtain ⟨b, hb, rfl⟩ := Option.map_eq_some_iff.mp hjoin
    exact topFree_join (hplace i a ha) (hplace j b hb)

/-- No sequence of operations does. -/
theorem topFree_foldl_perform (ops : List Operation) {made : List PathState}
    (h : ∀ s ∈ made, s.TopFree) : ∀ s ∈ ops.foldl Operation.perform made, s.TopFree := by
  induction ops generalizing made with
  | nil => exact h
  | cons op rest ih => exact ih (topFree_perform h op)

/-! ## The laws of joins -/

/-- The states that leave `top` out. -/
abbrev Normal := { s : PathState // s.TopFree }

namespace Normal

instance : PartialOrder Normal where
  le_antisymm a b hab hba := by
    apply Subtype.ext
    exact a.2.ext_get b.2 fun p => le_antisymm (hab p) (hba p)

/-- The supremum of two states is their join. -/
instance : SemilatticeSup Normal where
  sup a b := ⟨a.1.join b.1, topFree_join a.2 b.2⟩
  le_sup_left _ _ := (join_le_iff.mp le_rfl).1
  le_sup_right _ _ := (join_le_iff.mp le_rfl).2
  sup_le _ _ _ ha hb := join_le_iff.mpr ⟨ha, hb⟩

instance : BoundedOrder Normal where
  bot := ⟨unreached, trivial⟩
  bot_le _ _ := Presence.le_iff.mpr (Or.inr (Or.inl rfl))
  top := ⟨nothing, topFree_nothing⟩
  le_top _ _ := Presence.le_iff.mpr (Or.inr (Or.inr (Or.inl rfl)))

end Normal

/-- A join is the least upper bound in the order of states. -/
theorem isLUB_join (a b : PathState) : IsLUB {a, b} (a.join b) := by
  rw [isLUB_iff_le_iff]
  intro u
  rw [join_le_iff]
  simp [upperBounds]

/-- **States form a semilattice, and comparing them is comparing what they tell.** The join of any
two states is taken path by path. The operations never write `top` down, in whatever order they
are used. Among the states that leave it out, those that compare as equal are those that agree on
every path, so the state that is never reached is equal to no table; joins are associative,
commutative and idempotent, with this state as identity and the empty table as absorbing element;
and a join is the least upper bound in the order that compares states path by path. -/
theorem states_form_semilattice :
    (∀ a b : PathState, ∀ p, (a.join b).get p = (a.get p).join (b.get p)) ∧
      (∀ ops : List Operation, ∀ s ∈ ops.foldl Operation.perform [], s.TopFree) ∧
      (∀ a b : PathState, a.sameEntries b = decide (a = b)) ∧
      (∀ paths, unreached.sameEntries (table paths) = false) ∧
      ∀ a b c : PathState, a.TopFree → b.TopFree → c.TopFree →
        (a.sameEntries b = true ↔ ∀ p, a.get p = b.get p) ∧
          ((a.join b).join c).sameEntries (a.join (b.join c)) = true ∧
          (a.join b).sameEntries (b.join a) = true ∧ (a.join a).sameEntries a = true ∧
          (unreached.join a).sameEntries a = true ∧ (a.join unreached).sameEntries a = true ∧
          (nothing.join a).sameEntries nothing = true ∧
          (a.join nothing).sameEntries nothing = true ∧
          (a ≤ b ↔ ∀ p, (a.get p).join (b.get p) = b.get p) ∧ IsLUB {a, b} (a.join b) := by
  refine ⟨get_join, fun ops => topFree_foldl_perform ops (by simp), ?_, fun _ => rfl, ?_⟩
  · intro a b
    rw [Bool.eq_iff_iff, sameEntries_iff, decide_eq_true_eq]
  · intro a b c ha hb hc
    simp only [sameEntries_iff]
    -- The laws are those of suprema among the states that leave `top` out.
    let x : Normal := ⟨a, ha⟩
    let y : Normal := ⟨b, hb⟩
    let z : Normal := ⟨c, hc⟩
    refine ⟨⟨fun h p => congrArg (get · p) h, ha.ext_get hb⟩, ?_, ?_, ?_, ?_, ?_, ?_, ?_, ?_,
      isLUB_join a b⟩
    · exact congrArg Subtype.val (sup_assoc x y z)
    · exact congrArg Subtype.val (sup_comm x y)
    · exact congrArg Subtype.val (sup_idem x)
    · exact congrArg Subtype.val (bot_sup_eq x)
    · exact congrArg Subtype.val (sup_bot_eq x)
    · exact congrArg Subtype.val (top_sup_eq x)
    · exact congrArg Subtype.val (sup_top_eq x)
    · simp only [le_iff, Presence.le_iff_join_eq]

/-- Three states that differ on a path: one creates it, one removes it and one knows nothing of it
but of another path, whose value has no name. -/
theorem states_form_semilattice_three :
    let a := nothing.put "a" .present
    let b := nothing.put "a" .absent
    let c := nothing.put "b" ⟨7⟩
    a.TopFree ∧ b.TopFree ∧ c.TopFree ∧ (a.join b).get "a" = .maybe ∧
      ((a.join b).join c).sameEntries (a.join (b.join c)) = true ∧
      (nothing.join c).sameEntries nothing = true ∧ IsLUB {a, b} (a.join b) := by
  intro a b c
  have ha : a.TopFree := topFree_put topFree_nothing "a" .present
  have hb : b.TopFree := topFree_put topFree_nothing "a" .absent
  have hc : c.TopFree := topFree_put topFree_nothing "b" ⟨7⟩
  obtain ⟨hget, -, -, -, hlaws⟩ := states_form_semilattice
  obtain ⟨-, hassoc, -, -, -, -, -, -, -, hlub⟩ := hlaws a b c ha hb hc
  obtain ⟨-, -, -, -, -, -, habsorb, -⟩ := hlaws c a b hc ha hb
  refine ⟨ha, hb, hc, ?_, hassoc, habsorb, hlub⟩
  have hvalues : a.get "a" = .present ∧ b.get "a" = .absent := by
    simp only [a, b, nothing, get_put, if_true, and_self]
  rw [hget, hvalues.1, hvalues.2]
  decide

end PathState

end ScriptFlow
