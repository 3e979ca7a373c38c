import ScriptFlow.SortedMap

/-!
# Item sets

Finite sets kept as strictly ascending lists. A set has one representation, so equality of sets is
equality of their listings. Main statements: what is a member after `insert`, `union` and `inter`.
-/

namespace ScriptFlow

/-- A finite set of items, listed in ascending order. -/
structure ItemSet (α : Type) [LT α] where
  /-- The members in ascending order. -/
  items : List α
  /-- Each member is below all later ones. -/
  sorted : items.Pairwise (· < ·)

namespace ItemSet

variable {α : Type} [LT α] [DecidableLT α] [DecidableEq α]

/-- Places an item before the first larger one, unless it is there already. -/
def place (a : α) : List α → List α
  | [] => [a]
  | b :: rest => if a < b then a :: b :: rest else if a = b then b :: rest else b :: place a rest

@[simp] theorem mem_place {a b : α} {l : List α} : b ∈ place a l ↔ b = a ∨ b ∈ l := by
  induction l with
  | nil => simp [place]
  | cons c tl ih =>
    simp only [place]
    split
    · simp
    · split
      · rename_i h
        subst h
        simp
      · simp only [List.mem_cons, ih]
        constructor
        · rintro (h | h | h)
          · exact Or.inr (Or.inl h)
          · exact Or.inl h
          · exact Or.inr (Or.inr h)
        · rintro (h | h | h)
          · exact Or.inr (Or.inl h)
          · exact Or.inl h
          · exact Or.inr (Or.inr h)

/-! ## Operations -/

/-- The set without members. -/
def empty : ItemSet α := ⟨[], .nil⟩

instance : EmptyCollection (ItemSet α) := ⟨empty⟩

instance : Inhabited (ItemSet α) := ⟨empty⟩

omit [DecidableLT α] [DecidableEq α] in
theorem ext {a b : ItemSet α} (h : a.items = b.items) : a = b := by
  cases a; cases b; cases h; rfl

instance : DecidableEq (ItemSet α) := fun a b =>
  if h : a.items = b.items then isTrue (ext h) else isFalse fun he => h (he ▸ rfl)

/-- Whether an item is a member. -/
def has (s : ItemSet α) (a : α) : Bool :=
  s.items.contains a

/-- The number of members. -/
def size (s : ItemSet α) : Nat :=
  s.items.length

/-- The members of both sets. -/
def inter (s t : ItemSet α) : ItemSet α :=
  ⟨s.items.filter t.has, s.sorted.filter _⟩

/-- The set as text, members in ascending order. -/
def format [ToString α] (s : ItemSet α) : String :=
  "\x7b" ++ ", ".intercalate (s.items.map toString) ++ "\x7d"

variable [TotalLT α]

theorem sorted_place (a : α) {l : List α} (h : l.Pairwise (· < ·)) :
    (place a l).Pairwise (· < ·) := by
  induction l with
  | nil => exact List.pairwise_singleton ..
  | cons b tl ih =>
    obtain ⟨hb, htl⟩ := List.pairwise_cons.1 h
    by_cases h₁ : a < b
    · simp only [place, h₁, if_true]
      refine List.pairwise_cons.2 ⟨fun c hc => ?_, h⟩
      rcases List.mem_cons.1 hc with rfl | hc
      · exact h₁
      · exact TotalLT.trans h₁ (hb c hc)
    · by_cases h₂ : a = b
      · subst h₂
        simpa only [place, h₁, if_false, if_true] using h
      · simp only [place, h₁, h₂, if_false]
        refine List.pairwise_cons.2 ⟨fun c hc => ?_, ih htl⟩
        rcases mem_place.1 hc with rfl | hc
        · exact TotalLT.connected h₁ h₂
        · exact hb c hc

/-- The set with one more member. -/
def insert (s : ItemSet α) (a : α) : ItemSet α :=
  ⟨place a s.items, sorted_place a s.sorted⟩

/-- The members of either set. -/
def union (s t : ItemSet α) : ItemSet α :=
  t.items.foldl insert s

/-- The set of the items of a list. -/
def ofList (l : List α) : ItemSet α :=
  l.foldl insert empty

/-! ## Membership -/

omit [DecidableLT α] [TotalLT α] in
@[simp] theorem has_eq_true (s : ItemSet α) (a : α) : s.has a = true ↔ a ∈ s.items := by
  simp [has]

@[simp] theorem mem_insert (s : ItemSet α) (a b : α) :
    b ∈ (s.insert a).items ↔ b = a ∨ b ∈ s.items :=
  mem_place

omit [DecidableLT α] [TotalLT α] in
@[simp] theorem mem_inter (s t : ItemSet α) (a : α) :
    a ∈ (s.inter t).items ↔ a ∈ s.items ∧ a ∈ t.items := by
  simp [inter]

theorem mem_foldl_insert (l : List α) (s : ItemSet α) (a : α) :
    a ∈ (l.foldl insert s).items ↔ a ∈ l ∨ a ∈ s.items := by
  induction l generalizing s with
  | nil => simp
  | cons b tl ih =>
    simp only [List.foldl_cons, ih, mem_insert, List.mem_cons]
    constructor
    · rintro (h | h | h)
      · exact Or.inl (Or.inr h)
      · exact Or.inl (Or.inl h)
      · exact Or.inr h
    · rintro ((h | h) | h)
      · exact Or.inr (Or.inl h)
      · exact Or.inl h
      · exact Or.inr (Or.inr h)

@[simp] theorem mem_union (s t : ItemSet α) (a : α) :
    a ∈ (s.union t).items ↔ a ∈ s.items ∨ a ∈ t.items :=
  (mem_foldl_insert t.items s a).trans Or.comm

@[simp] theorem mem_ofList (l : List α) (a : α) : a ∈ (ofList l).items ↔ a ∈ l := by
  simp [ofList, mem_foldl_insert, empty]

end ItemSet

end ScriptFlow
