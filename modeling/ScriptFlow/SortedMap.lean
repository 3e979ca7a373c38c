/-!
# Strict total orders and sorted maps

The order laws that sorted listings rest on, and finite maps kept as a list of entries with strictly
ascending keys. A map has one representation, so two maps are equal exactly when they agree on every
key, and listing the entries needs no further sorting. Main statements: what a look-up finds after
`insert` and after `erase`.
-/

namespace ScriptFlow

/-! ## Strict total orders -/

/-- The strict order of a type relates any two different items: no item is below itself, the order
is transitive, and of two different items one is below the other. -/
class TotalLT (α : Type) [LT α] : Prop where
  irrefl (a : α) : ¬ a < a
  trans {a b c : α} : a < b → b < c → a < c
  connected {a b : α} : ¬ a < b → a ≠ b → b < a

namespace TotalLT

instance : TotalLT Int where
  irrefl := Int.lt_irrefl
  trans := Int.lt_trans
  connected h hne := by omega

/-- Strings are ordered by their characters. -/
instance : TotalLT String where
  irrefl := String.lt_irrefl
  trans := String.lt_trans
  connected h hne := Classical.byContradiction fun h' =>
    hne (String.le_antisymm (String.not_lt.1 h') (String.not_lt.1 h))

/-- Lists are ordered by their first difference. -/
instance {α : Type} [LT α] [t : TotalLT α] : TotalLT (List α) where
  irrefl := @List.lt_irrefl α _ ⟨t.irrefl⟩
  trans := @List.lt_trans α _ ⟨t.trans⟩
  connected h hne := Classical.byContradiction fun h' =>
    have : Std.Trichotomous fun a b : α => a < b :=
      ⟨fun _ _ hab hba => Classical.byContradiction fun hne => hba (t.connected hab hne)⟩
    hne (List.le_antisymm (List.not_lt.1 h') (List.not_lt.1 h))

end TotalLT

/-! ## Maps -/

/-- A finite map from `κ` to `ν`, its entries in ascending order of their keys. -/
structure SortedMap (κ : Type) (ν : Type) [LT κ] where
  /-- The entries in ascending order. -/
  entries : List (κ × ν)
  /-- Each key is below all later ones, so no key occurs twice. -/
  sorted : entries.Pairwise fun a b => a.1 < b.1

namespace SortedMap

variable {κ ν : Type} [LT κ] [DecidableLT κ] [DecidableEq κ]

/-! ## Entry lists -/

/-- The value of the first entry with the given key. -/
def lookup (k : κ) : List (κ × ν) → Option ν
  | [] => none
  | (k', v) :: rest => if k' = k then some v else lookup k rest

/-- Places an entry before the first entry with a larger key, replacing one with the same key. -/
def place (k : κ) (v : ν) : List (κ × ν) → List (κ × ν)
  | [] => [(k, v)]
  | (k', v') :: rest =>
    if k < k' then (k, v) :: (k', v') :: rest
    else if k' = k then (k, v) :: rest
    else (k', v') :: place k v rest

theorem mem_place {k : κ} {v : ν} {e : κ × ν} {l : List (κ × ν)} (h : e ∈ place k v l) :
    e = (k, v) ∨ e ∈ l := by
  induction l with
  | nil => exact Or.inl (by simpa [place] using h)
  | cons hd tl ih =>
    simp only [place] at h
    split at h
    · simpa using h
    · split at h
      · rcases List.mem_cons.1 h with h | h
        · exact Or.inl h
        · exact Or.inr (List.mem_cons_of_mem _ h)
      · rcases List.mem_cons.1 h with h | h
        · exact Or.inr (h ▸ List.mem_cons_self)
        · exact (ih h).imp_right (List.mem_cons_of_mem _)

theorem lookup_place (k k' : κ) (v : ν) (l : List (κ × ν)) :
    lookup k' (place k v l) = if k = k' then some v else lookup k' l := by
  induction l with
  | nil => rfl
  | cons hd tl ih =>
    obtain ⟨k₁, v₁⟩ := hd
    by_cases h₁ : k < k₁
    · simp [place, h₁, lookup]
    · by_cases h₂ : k₁ = k
      · subst h₂
        simp only [place, h₁, if_false, if_true, lookup]
        by_cases h₃ : k₁ = k' <;> simp [h₃]
      · by_cases h₃ : k₁ = k'
        · subst h₃
          simp [place, h₁, h₂, lookup, Ne.symm h₂]
        · simp [place, h₁, h₂, lookup, h₃, ih]

/-! ## Operations -/

/-- The map without entries. -/
def empty : SortedMap κ ν := ⟨[], .nil⟩

instance : EmptyCollection (SortedMap κ ν) := ⟨empty⟩

instance : Inhabited (SortedMap κ ν) := ⟨empty⟩

omit [DecidableLT κ] [DecidableEq κ] in
theorem ext {a b : SortedMap κ ν} (h : a.entries = b.entries) : a = b := by
  cases a; cases b; cases h; rfl

instance [DecidableEq ν] : DecidableEq (SortedMap κ ν) := fun a b =>
  if h : a.entries = b.entries then isTrue (ext h) else isFalse fun he => h (he ▸ rfl)

/-- The value stored under a key. -/
def find? (m : SortedMap κ ν) (k : κ) : Option ν :=
  lookup k m.entries

/-- Whether a value is stored under a key. -/
def contains (m : SortedMap κ ν) (k : κ) : Bool :=
  (m.find? k).isSome

/-- The keys in ascending order. -/
def keys (m : SortedMap κ ν) : List κ :=
  m.entries.map Prod.fst

/-- The number of entries. -/
def size (m : SortedMap κ ν) : Nat :=
  m.entries.length

/-- The entries whose key passes a test. -/
def filterKeys (m : SortedMap κ ν) (keep : κ → Bool) : SortedMap κ ν :=
  ⟨m.entries.filter fun e => keep e.1, m.sorted.filter _⟩

/-- The map without the entry of a key. -/
def erase (m : SortedMap κ ν) (k : κ) : SortedMap κ ν :=
  ⟨m.entries.filter fun e => decide (e.1 ≠ k), m.sorted.filter _⟩

variable [TotalLT κ]

theorem sorted_place (k : κ) (v : ν) {l : List (κ × ν)}
    (h : l.Pairwise fun a b => a.1 < b.1) : (place k v l).Pairwise fun a b => a.1 < b.1 := by
  induction l with
  | nil => exact List.pairwise_singleton ..
  | cons hd tl ih =>
    obtain ⟨k', v'⟩ := hd
    obtain ⟨hhd, htl⟩ := List.pairwise_cons.1 h
    by_cases h₁ : k < k'
    · simp only [place, h₁, if_true]
      refine List.pairwise_cons.2 ⟨fun e he => ?_, h⟩
      rcases List.mem_cons.1 he with rfl | he
      · exact h₁
      · exact TotalLT.trans h₁ (hhd e he)
    · by_cases h₂ : k' = k
      · subst h₂
        simp only [place, h₁, if_false, if_true]
        exact List.pairwise_cons.2 ⟨hhd, htl⟩
      · simp only [place, h₁, h₂, if_false]
        refine List.pairwise_cons.2 ⟨fun e he => ?_, ih htl⟩
        rcases mem_place he with rfl | he
        · exact TotalLT.connected h₁ (Ne.symm h₂)
        · exact hhd e he

/-- The map with a value stored under a key, whatever was stored there before. -/
def insert (m : SortedMap κ ν) (k : κ) (v : ν) : SortedMap κ ν :=
  ⟨place k v m.entries, sorted_place k v m.sorted⟩

/-- The map of a list of entries; of two with the same key the later one counts. -/
def ofList (l : List (κ × ν)) : SortedMap κ ν :=
  l.foldl (fun m e => m.insert e.1 e.2) empty

/-! ## What look-up finds -/

omit [DecidableLT κ] [TotalLT κ] in
@[simp] theorem find?_empty (k : κ) : (empty : SortedMap κ ν).find? k = none := rfl

@[simp] theorem find?_insert (m : SortedMap κ ν) (k k' : κ) (v : ν) :
    (m.insert k v).find? k' = if k = k' then some v else m.find? k' :=
  lookup_place k k' v m.entries

omit [DecidableLT κ] [TotalLT κ] in
@[simp] theorem find?_erase (m : SortedMap κ ν) (k k' : κ) :
    (m.erase k).find? k' = if k = k' then none else m.find? k' := by
  obtain ⟨l, hl⟩ := m
  simp only [find?, erase]
  clear hl
  induction l with
  | nil => simp [lookup]
  | cons hd tl ih =>
    obtain ⟨k₁, v₁⟩ := hd
    by_cases h₁ : k₁ = k
    · subst h₁
      by_cases h₂ : k₁ = k' <;> simp_all [lookup]
    · by_cases h₂ : k = k'
      · subst h₂
        simp_all [lookup]
      · by_cases h₃ : k₁ = k' <;> simp_all [lookup]

end SortedMap

end ScriptFlow
