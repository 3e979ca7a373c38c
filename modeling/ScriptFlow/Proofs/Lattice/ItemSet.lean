import ScriptFlow.Lattice.ItemSet
import Mathlib.Data.List.Perm.Subperm
import Mathlib.Data.List.Sort
import Mathlib.Order.Bounds.Basic

/-!
# Item sets ordered by inclusion

A set is determined by its members, so inclusion is a partial order, and the union of two sets is
their least upper bound. Comparing the sizes and looking up the items of one set in the other is
enough to tell equality.
-/

namespace ScriptFlow

namespace ItemSet

variable {α : Type} [LT α] [TotalLT α]

/-- Sets with the same members are equal. -/
theorem eq_of_mem_iff {s t : ItemSet α} (h : ∀ a, a ∈ s.items ↔ a ∈ t.items) : s = t := by
  -- The items are in strict order, and the members fix such a list.
  have : Std.Irrefl fun a b : α => a < b := ⟨TotalLT.irrefl⟩
  have : Std.Antisymm fun a b : α => a < b :=
    ⟨fun a b hab hba => absurd (TotalLT.trans hab hba) (TotalLT.irrefl a)⟩
  exact ext (s.sorted.eq_of_mem_iff t.sorted h)

theorem nodup_items (s : ItemSet α) : s.items.Nodup := by
  apply s.sorted.imp
  rintro a _ hlt rfl
  exact TotalLT.irrefl a hlt

/-- Inclusion. -/
instance : PartialOrder (ItemSet α) where
  le s t := ∀ a ∈ s.items, a ∈ t.items
  le_refl _ _ ha := ha
  le_trans _ _ _ hst htu a ha := htu a (hst a ha)
  le_antisymm _ _ hst hts := eq_of_mem_iff fun a => ⟨hst a, hts a⟩

variable [DecidableLT α] [DecidableEq α]

/-- The union is the least upper bound. -/
theorem isLUB_union (s t : ItemSet α) : IsLUB {s, t} (s.union t) := by
  constructor
  · rintro u (rfl | rfl) a ha
    · exact (mem_union _ _ _).mpr (Or.inl ha)
    · exact (mem_union _ _ _).mpr (Or.inr ha)
  · intro u hu a ha
    rcases (mem_union _ _ _).mp ha with ha | ha
    · exact hu (Set.mem_insert s {t}) a ha
    · exact hu (Set.mem_insert_of_mem s rfl) a ha

theorem insert_mono (a : α) : Monotone fun s : ItemSet α => s.insert a := by
  intro s t hst b hb
  exact (mem_insert _ _ _).mpr (((mem_insert _ _ _).mp hb).imp_right (hst b))

/-! ## Comparing sets -/

/-- Whether two sets hold the same items: they have equally many, and those of the first are members
of the second. -/
def sameItems {α : Type} [LT α] [DecidableEq α] (s t : ItemSet α) : Bool :=
  decide (s.size = t.size) && s.items.all t.has

omit [DecidableLT α] in
/-- The comparison tells equality. -/
theorem sameItems_iff {s t : ItemSet α} : s.sameItems t = true ↔ s = t := by
  simp only [sameItems, Bool.and_eq_true, decide_eq_true_eq, List.all_eq_true, has_eq_true]
  constructor
  · rintro ⟨hsize, hpart⟩
    -- No item occurs twice, so the larger list has no room for others.
    have hperm : s.items.Perm t.items :=
      (s.nodup_items.subperm hpart).perm_of_length_le hsize.ge
    exact eq_of_mem_iff fun a => hperm.mem_iff
  · rintro rfl
    exact ⟨rfl, fun a ha => ha⟩

end ItemSet

end ScriptFlow
