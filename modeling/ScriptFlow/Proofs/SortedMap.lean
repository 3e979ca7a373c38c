import ScriptFlow.SortedMap
import Mathlib.Data.List.Perm.Subperm
import Mathlib.Data.List.Sort
import Mathlib.Data.Set.Card

/-!
# Maps are known by what is looked up

A sorted map has an entry exactly where a look-up finds its value, so it is determined by the
look-ups, and its size is the number of keys that have a value.

Main statements: `mem_entries_iff`, `ext_find?` and `size_eq_ncard`.
-/

namespace ScriptFlow.SortedMap

/-! ## Entries and keys -/

section Entries

variable {κ ν : Type} [LT κ] [DecidableEq κ]

/-- The keys of a map are those that have a value. -/
theorem mem_keys_iff (m : SortedMap κ ν) (k : κ) : k ∈ m.keys ↔ (m.find? k).isSome = true := by
  obtain ⟨l, hl⟩ := m
  simp only [keys, find?]
  -- The order of the entries does not matter here, so the induction does without it.
  clear hl
  induction l with
  | nil => simp [lookup]
  | cons hd tl ih =>
    obtain ⟨k', v⟩ := hd
    by_cases h : k' = k
    · simp [lookup, h]
    · simp only [lookup, h, if_false, List.map_cons, List.mem_cons, Ne.symm h, false_or]
      exact ih

variable [TotalLT κ]

/-- The entries of a map are what its look-ups find. -/
theorem mem_entries_iff (m : SortedMap κ ν) (k : κ) (v : ν) :
    (k, v) ∈ m.entries ↔ m.find? k = some v := by
  obtain ⟨l, hl⟩ := m
  simp only [find?]
  induction l with
  | nil => simp [lookup]
  | cons hd tl ih =>
    obtain ⟨k', v'⟩ := hd
    obtain ⟨hbelow, htl⟩ := List.pairwise_cons.mp hl
    by_cases hk : k' = k
    · -- All later keys are larger, so the first entry is the only one with this key.
      subst hk
      have hlater : (k', v) ∉ tl := fun h => TotalLT.irrefl k' (hbelow (k', v) h)
      simp only [lookup, if_true, List.mem_cons, hlater, or_false, Prod.mk.injEq, true_and,
        Option.some.injEq]
      exact eq_comm
    · have hne : (k, v) ≠ (k', v') := fun h => hk (Prod.mk.inj h).1.symm
      simp only [lookup, hk, if_false, List.mem_cons, hne, false_or]
      exact ih htl

omit [DecidableEq κ] in
theorem nodup_entries (m : SortedMap κ ν) : m.entries.Nodup := by
  apply m.sorted.imp
  rintro a _ hlt rfl
  exact TotalLT.irrefl a.1 hlt

end Entries

/-! ## Equality and size -/

variable {κ ν : Type} [LT κ] [TotalLT κ] [DecidableEq κ]

/-- Maps that answer every look-up alike are equal. -/
theorem ext_find? {m m' : SortedMap κ ν} (h : ∀ k, m.find? k = m'.find? k) : m = m' := by
  have : Std.Irrefl fun a b : κ × ν => a.1 < b.1 := ⟨fun a => TotalLT.irrefl a.1⟩
  have : Std.Antisymm fun a b : κ × ν => a.1 < b.1 :=
    ⟨fun a b hab hba => absurd (TotalLT.trans hab hba) (TotalLT.irrefl a.1)⟩
  apply ext
  -- Sorted lists with the same members are equal.
  apply m.sorted.eq_of_mem_iff m'.sorted
  rintro ⟨k, v⟩
  rw [mem_entries_iff, mem_entries_iff, h]

/-- Maps of the same size are equal if one of them is part of the other. -/
theorem eq_of_size_eq {m m' : SortedMap κ ν} (hsize : m.size = m'.size)
    (hpart : ∀ e ∈ m.entries, m'.find? e.1 = some e.2) : m = m' := by
  have hsubset : m.entries ⊆ m'.entries := by
    intro e he
    exact (mem_entries_iff m' e.1 e.2).mpr (hpart e he)
  -- No entry occurs twice, so the larger list has no room for others.
  have hperm : m.entries.Perm m'.entries :=
    (m.nodup_entries.subperm hsubset).perm_of_length_le hsize.ge
  apply ext_find?
  intro k
  apply Option.ext
  intro v
  rw [← mem_entries_iff, ← mem_entries_iff, hperm.mem_iff]

/-- The size of a map is the number of keys that have a value. -/
theorem size_eq_ncard (m : SortedMap κ ν) : m.size = {k | (m.find? k).isSome = true}.ncard := by
  -- The keys are in strict order, so none of them occurs twice.
  have hnodup : m.keys.Nodup := by
    apply List.pairwise_map.mpr
    apply m.sorted.imp
    intro a b hlt heq
    exact TotalLT.irrefl b.1 (heq ▸ hlt)
  have hkeys : {k | (m.find? k).isSome = true} = ↑m.keys.toFinset := by
    ext k
    rw [Finset.mem_coe, List.mem_toFinset, mem_keys_iff]
    rfl
  rw [hkeys, Set.ncard_coe_finset, List.toFinset_card_of_nodup hnodup, keys, List.length_map]
  rfl

end ScriptFlow.SortedMap
