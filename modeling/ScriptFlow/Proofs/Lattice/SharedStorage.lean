import ScriptFlow.Proofs.Lattice.ItemSet
import Mathlib.Data.List.GetD
import Mathlib.Data.List.Nodup
import Mathlib.Data.Set.Card
import Mathlib.Order.Lattice

/-!
# Item sets are values

Under inclusion, item sets form a distributive lattice with the empty set at its bottom. The order
of the listing is that of the items, so sets with the same members have the same listing.

Sets may also be kept in a storage that they share. There a cell holds the members of a set in no
particular order, a set that was never filled has no cell, and inserting an item that is there
already gives the same cell again. Operations do write to cells, but each of them writes to a cell
that it has just taken, so no set changes that was there before. In whatever order members are
enumerated, the stored sets answer as the values do.

Main statement: `sets_form_distributive_lattice`. The step lemma is `Storage.Step.represents`, and
the run lemma is `Storage.Runs.represents`.
-/

namespace ScriptFlow

namespace ItemSet

/-! ## The lattice -/

section Lattice

variable {α : Type} [LT α] [DecidableLT α] [DecidableEq α] [TotalLT α]

/-- Unions are suprema and intersections are infima. -/
instance : DistribLattice (ItemSet α) where
  sup := union
  inf := inter
  le_sup_left s t a ha := (mem_union s t a).mpr (Or.inl ha)
  le_sup_right s t a ha := (mem_union s t a).mpr (Or.inr ha)
  sup_le _ _ _ hs ht a ha := ((mem_union _ _ a).mp ha).elim (hs a) (ht a)
  inf_le_left s t a ha := ((mem_inter s t a).mp ha).1
  inf_le_right s t a ha := ((mem_inter s t a).mp ha).2
  le_inf _ _ _ hs ht a ha := (mem_inter _ _ a).mpr ⟨hs a ha, ht a ha⟩
  le_sup_inf s t u a ha := by
    obtain ⟨hst, hsu⟩ := (mem_inter _ _ a).mp ha
    -- An item in both unions is in the first set, or it is in both of the others.
    rcases (mem_union s t a).mp hst with hs | ht
    · exact (mem_union s _ a).mpr (Or.inl hs)
    · rcases (mem_union s u a).mp hsu with hs | hu
      · exact (mem_union s _ a).mpr (Or.inl hs)
      · exact (mem_union s _ a).mpr (Or.inr ((mem_inter t u a).mpr ⟨ht, hu⟩))

instance : OrderBot (ItemSet α) where
  bot := empty
  bot_le _ _ ha := absurd ha List.not_mem_nil

theorem has_union (s t : ItemSet α) (a : α) : (s.union t).has a = (s.has a || t.has a) := by
  rw [Bool.eq_iff_iff, Bool.or_eq_true, has_eq_true, has_eq_true, has_eq_true, mem_union]

omit [DecidableLT α] [TotalLT α] in
theorem has_inter (s t : ItemSet α) (a : α) : (s.inter t).has a = (s.has a && t.has a) := by
  rw [Bool.eq_iff_iff, Bool.and_eq_true, has_eq_true, has_eq_true, has_eq_true, mem_inter]

theorem insert_eq_union (s : ItemSet α) (a : α) : s.insert a = s.union (ofList [a]) := by
  apply eq_of_mem_iff
  intro b
  rw [mem_insert, mem_union, mem_ofList, List.mem_singleton, or_comm]

/-! ## Listings -/

omit [DecidableLT α] in
theorem size_eq_ncard (s : ItemSet α) : s.size = {a | s.has a = true}.ncard := by
  have hmembers : {a | s.has a = true} = ↑s.items.toFinset := by
    ext a
    rw [Finset.mem_coe, List.mem_toFinset, ← has_eq_true]
    rfl
  rw [hmembers, Set.ncard_coe_finset, List.toFinset_card_of_nodup s.nodup_items]
  rfl

omit [DecidableLT α] [DecidableEq α] in
/-- Whoever lists the members in ascending order lists them as the set does. -/
theorem eq_items_of_perm {s : ItemSet α} {l : List α} (hperm : l.Perm s.items)
    (hsorted : l.Pairwise fun a b => ¬ b < a) : l = s.items := by
  have hnodup : l.Nodup := hperm.nodup_iff.mpr s.nodup_items
  -- Neighbours that are different and not descending ascend, so the list is itself a set.
  have hstrict : l.Pairwise (· < ·) := by
    apply (hsorted.and hnodup).imp
    rintro a b ⟨hnot, hne⟩
    exact TotalLT.connected hnot hne.symm
  have heq : (⟨l, hstrict⟩ : ItemSet α) = s := eq_of_mem_iff fun a => hperm.mem_iff
  exact congrArg items heq

omit [DecidableLT α] in
/-- Sets compare as equal exactly if they have the same items. -/
theorem sameItems_iff_has {s t : ItemSet α} :
    s.sameItems t = true ↔ ∀ a, s.has a = t.has a := by
  rw [sameItems_iff]
  constructor
  · rintro rfl a
    rfl
  · intro h
    apply eq_of_mem_iff
    intro a
    rw [← has_eq_true, h a, has_eq_true]

end Lattice

/-! ## Operations on a row of sets -/

/-- A use of an operation. The sets it works on are known by their places in a row, where a place
that is not taken yet stands for the empty set. -/
inductive Operation (α : Type)
  /-- The set of some items. -/
  | ofList (items : List α)
  /-- The set that is never filled. -/
  | empty
  /-- A set with one more item. -/
  | insert (i : Nat) (a : α)
  /-- The union of two sets. -/
  | union (i j : Nat)
  /-- The intersection of two sets. -/
  | inter (i j : Nat)

namespace Operation

variable {α : Type} [LT α] [DecidableLT α] [DecidableEq α] [TotalLT α]

/-- What an operation makes of the sets of a row. -/
def result (made : List (ItemSet α)) : Operation α → ItemSet α
  | ofList items => .ofList items
  | empty => .empty
  | insert i a => (made.getD i .empty).insert a
  | union i j => (made.getD i .empty).union (made.getD j .empty)
  | inter i j => (made.getD i .empty).inter (made.getD j .empty)

/-- The row after an operation; the new set stands at its end. -/
def perform (made : List (ItemSet α)) (op : Operation α) : List (ItemSet α) :=
  made ++ [op.result made]

end Operation

/-! ## Sets in a storage -/

/-- A storage of sets. -/
structure Storage (α : Type) where
  /-- The cells. Each lists its members once, in the order in which they happened to be written. -/
  cells : List (List α) := []
  /-- The cells of the sets that were made so far. Sets may share a cell, and a set that was never
  filled has none. -/
  places : List (Option Nat) := []
  /-- The cells of sets are cells of the storage. -/
  bounded : ∀ n, some n ∈ places → n < cells.length := by simp

namespace Storage

variable {α : Type}

/-- What a cell holds. -/
def content (s : Storage α) : Option Nat → List α
  | none => []
  | some n => s.cells.getD n []

/-- The cell of a set. -/
def cellOf (s : Storage α) (i : Nat) : Option Nat :=
  s.places.getD i none

/-- The members of a set. -/
def members (s : Storage α) (i : Nat) : List α :=
  s.content (s.cellOf i)

/-- The cell of a set is one of the storage. -/
theorem lt_of_cellOf {s : Storage α} {i n : Nat} (h : s.cellOf i = some n) :
    n < s.cells.length := by
  have hi : i < s.places.length := by
    -- A place that is not taken has no cell.
    by_contra hle
    rw [cellOf, List.getD_eq_default _ _ (not_lt.mp hle)] at h
    cases h
  apply s.bounded
  rw [← h, cellOf, List.getD_eq_getElem _ _ hi]
  exact List.getElem_mem hi

/-- One more set, for which no cell is taken. -/
def share (s : Storage α) (cell : Option Nat) (h : ∀ n, cell = some n → n < s.cells.length) :
    Storage α where
  cells := s.cells
  places := s.places ++ [cell]
  bounded n hn := by
    rcases List.mem_append.mp hn with hn | hn
    · exact s.bounded n hn
    · exact h n (List.mem_singleton.mp hn).symm

variable [DecidableEq α]

/-- Items are written to a cell one after the other; an item that is there already is not written
again. -/
def write (cells : List (List α)) (n : Nat) (items : List α) : List (List α) :=
  items.foldl (fun cells a => cells.modify n (List.insert a)) cells

/-- What a cell holds after items were written to it. -/
def written (cell items : List α) : List α :=
  items.foldl (fun cell a => cell.insert a) cell

/-- Writing to the last cell leaves all others alone. -/
theorem write_last (cells : List (List α)) (cell items : List α) :
    write (cells ++ [cell]) cells.length items = cells ++ [written cell items] := by
  -- Induction on the items: each of them changes the last cell only.
  induction items generalizing cell with
  | nil => rfl
  | cons a rest ih =>
    -- The last cell is where the items before left it.
    have hlast : (cells ++ [cell]).modify cells.length (List.insert a) =
        cells ++ [cell.insert a] := by
      simp [List.modify_eq_take_drop]
    rw [write, List.foldl_cons, hlast]
    exact ih (cell.insert a)

/-- One more set in a new cell, to which its items are written. -/
def store (s : Storage α) (items : List α) : Storage α where
  cells := write (s.cells ++ [[]]) s.cells.length items
  places := s.places ++ [some s.cells.length]
  bounded n hn := by
    rw [write_last, List.length_append, List.length_singleton]
    rcases List.mem_append.mp hn with hn | hn
    · exact Nat.lt_succ_of_lt (s.bounded n hn)
    · cases List.mem_singleton.mp hn
      exact Nat.lt_succ_self _

/-- What an operation does to a storage. Where it goes through the members of a set, it meets them
in any order. -/
inductive Step (s : Storage α) : Operation α → Storage α → Prop
  /-- The items are written to a new cell. -/
  | ofList (items : List α) : Step s (.ofList items) (s.store items)
  /-- A set that is never filled needs no cell. -/
  | empty : Step s .empty (s.share none nofun)
  /-- A set that has the item already is taken as it is. -/
  | insertKnown {i : Nat} {a : α} :
      a ∈ s.members i → Step s (.insert i a) (s.share (s.cellOf i) fun _ => lt_of_cellOf)
  /-- Otherwise the set is copied, and the item is written to the copy. -/
  | insertNew {i : Nat} {a : α} {l : List α} :
      a ∉ s.members i → l.Perm (s.members i) → Step s (.insert i a) (s.store (l ++ [a]))
  /-- The first set is copied, and the members of the second one are written to the copy. -/
  | union {i j : Nat} {l m : List α} :
      l.Perm (s.members i) → m.Perm (s.members j) → Step s (.union i j) (s.store (l ++ m))
  /-- Those members of the first set that are in the second one are written to a new cell. -/
  | inter {i j : Nat} {l : List α} :
      l.Perm (s.members i) → Step s (.inter i j) (s.store (l.filter (· ∈ s.members j)))

/-- What a list of operations can lead to. -/
inductive Runs : Storage α → List (Operation α) → Storage α → Prop
  /-- Nothing is left to do. -/
  | done {s : Storage α} : Runs s [] s
  /-- The first operation is carried out, and then the others. -/
  | step {s s' s'' : Storage α} {op : Operation α} {ops : List (Operation α)} :
      Step s op s' → Runs s' ops s'' → Runs s (op :: ops) s''

/-- An operation can always be carried out. -/
theorem exists_step (s : Storage α) (op : Operation α) : ∃ s', Step s op s' := by
  cases op with
  | ofList items => exact ⟨_, .ofList items⟩
  | empty => exact ⟨_, .empty⟩
  | insert i a =>
    by_cases hknown : a ∈ s.members i
    · exact ⟨_, .insertKnown hknown⟩
    · exact ⟨_, .insertNew hknown (List.Perm.refl _)⟩
  | union i j => exact ⟨_, .union (List.Perm.refl _) (List.Perm.refl _)⟩
  | inter i j => exact ⟨_, .inter (List.Perm.refl _)⟩

/-! ## One operation -/

/-- A storage has one more set than another one, and all other sets have kept their members. -/
structure Extends (s s' : Storage α) (new : List α) : Prop where
  length_places : s'.places.length = s.places.length + 1
  members_of_lt : ∀ i < s.places.length, s'.members i = s.members i
  members_length : s'.members s.places.length = new

section Extension

variable {s s' : Storage α} {i : Nat} {cell : Option Nat}

omit [DecidableEq α]

theorem members_of_le (h : s.places.length ≤ i) : s.members i = [] := by
  rw [members, cellOf, List.getD_eq_default _ _ h]
  rfl

/-- A storage that has more cells and one more place keeps all earlier sets. -/
theorem extends_of_places {more : List (List α)} (hcells : s'.cells = s.cells ++ more)
    (hplaces : s'.places = s.places ++ [cell]) : s.Extends s' (s'.content cell) where
  length_places := by rw [hplaces, List.length_append, List.length_singleton]
  members_of_lt i hi := by
    -- An earlier set keeps its cell, and the cell was there before.
    have hcell : s'.cellOf i = s.cellOf i := by
      rw [cellOf, hplaces, List.getD_append _ _ _ _ hi, cellOf]
    rw [members, members, hcell]
    cases hfound : s.cellOf i with
    | none => rfl
    | some n =>
      show s'.cells.getD n [] = s.cells.getD n []
      rw [hcells, List.getD_append _ _ _ _ (lt_of_cellOf hfound)]
  members_length := by
    rw [members, cellOf, hplaces, List.getD_append_right _ _ _ _ le_rfl, Nat.sub_self]
    rfl

/-- Sharing a cell adds one set with the members in that cell. -/
theorem extends_share (s : Storage α) (cell : Option Nat)
    (h : ∀ n, cell = some n → n < s.cells.length) :
    s.Extends (s.share cell h) (s.content cell) :=
  extends_of_places (List.append_nil _).symm rfl

/-- Storing items adds one set with these as members. -/
theorem extends_store [DecidableEq α] (s : Storage α) (items : List α) :
    s.Extends (s.store items) (written [] items) := by
  -- The new cell is the last one, so only it is written to.
  have hcells : (s.store items).cells = s.cells ++ [written [] items] := write_last s.cells [] items
  have hcontent : (s.store items).content (some s.cells.length) = written [] items := by
    show (s.store items).cells.getD s.cells.length [] = _
    rw [hcells, List.getD_append_right _ _ _ _ le_rfl, Nat.sub_self]
    rfl
  rw [← hcontent]
  exact extends_of_places hcells rfl

end Extension

/-- A cell has the items written to it and those it had before. -/
theorem mem_written {a : α} {cell items : List α} :
    a ∈ written cell items ↔ a ∈ items ∨ a ∈ cell := by
  induction items generalizing cell with
  | nil => simp [written]
  | cons b rest ih =>
    show a ∈ written (cell.insert b) rest ↔ _
    rw [ih, List.mem_insert_iff, List.mem_cons, or_left_comm, or_assoc]

theorem nodup_written {cell : List α} (h : cell.Nodup) (items : List α) :
    (written cell items).Nodup := by
  induction items generalizing cell with
  | nil => exact h
  | cons b rest ih => exact ih h.insert

/-! ## Values in a storage -/

section Representation

variable {α : Type} [LT α]

/-- A storage keeps the sets of a row, each with its members in some order. -/
structure Represents (s : Storage α) (made : List (ItemSet α)) : Prop where
  length_places : s.places.length = made.length
  members_perm : ∀ i, (s.members i).Perm (made.getD i .empty).items

variable {s s' : Storage α} {made : List (ItemSet α)} {op : Operation α} {i : Nat}

theorem Represents.mem_members (h : s.Represents made) {a : α} :
    a ∈ s.members i ↔ a ∈ (made.getD i .empty).items :=
  (h.members_perm i).mem_iff

/-- One more stored set stands for one more value. -/
theorem Represents.extend (h : s.Represents made) {new : List α} (hnew : s.Extends s' new)
    {t : ItemSet α} (ht : new.Perm t.items) : s'.Represents (made ++ [t]) where
  length_places := by
    rw [hnew.length_places, h.length_places, List.length_append, List.length_singleton]
  members_perm i := by
    rcases Nat.lt_trichotomy i made.length with hlt | rfl | hgt
    · -- A set that was there before.
      rw [List.getD_append _ _ _ _ hlt, hnew.members_of_lt i (h.length_places ▸ hlt)]
      exact h.members_perm i
    · -- The new set.
      rw [List.getD_append_right _ _ _ _ le_rfl, Nat.sub_self, ← h.length_places,
        hnew.members_length]
      exact ht
    · -- A place that is still free stands for the empty set on both sides.
      have hplaces : s'.places.length ≤ i := by
        rw [hnew.length_places, h.length_places]
        exact hgt
      rw [members_of_le hplaces, List.getD_eq_default _ _ (by simpa using hgt)]
      exact List.Perm.refl _

variable [TotalLT α] [DecidableEq α]

/-- What is written to an empty cell is a set, in some order. -/
theorem written_perm {items : List α} {t : ItemSet α} (h : ∀ a, a ∈ items ↔ a ∈ t.items) :
    (written [] items).Perm t.items := by
  -- Neither list has repetitions, so only the members count.
  apply (List.perm_ext_iff_of_nodup (nodup_written List.nodup_nil items) t.nodup_items).mpr
  intro a
  rw [mem_written, h a]
  exact or_iff_left List.not_mem_nil

variable [DecidableLT α]

/-- An operation adds the set that it makes of the values, and keeps all others. -/
theorem Step.exists_extends (hstep : Step s op s') (h : s.Represents made) :
    ∃ new, s.Extends s' new ∧ new.Perm (op.result made).items := by
  cases hstep with
  | ofList items =>
    exact ⟨_, extends_store s items, written_perm fun a => (mem_ofList items a).symm⟩
  | empty => exact ⟨_, extends_share s none nofun, List.Perm.refl _⟩
  | @insertKnown i a hknown =>
    refine ⟨_, extends_share s _ _, ?_⟩
    -- Inserting a member changes nothing, so the shared cell holds the result.
    have hsame : (made.getD i .empty).insert a = made.getD i .empty := by
      apply eq_of_mem_iff
      intro b
      rw [mem_insert]
      constructor
      · rintro (rfl | hb)
        · exact h.mem_members.mp hknown
        · exact hb
      · exact Or.inr
    show (s.members i).Perm ((made.getD i .empty).insert a).items
    rw [hsame]
    exact h.members_perm i
  | insertNew _ hl =>
    refine ⟨_, extends_store s _, written_perm fun b => ?_⟩
    simp only [Operation.result, List.mem_append, List.mem_singleton, hl.mem_iff, h.mem_members,
      mem_insert, or_comm]
  | union hl hm =>
    -- The copy holds both sets, in some order and without repetitions.
    refine ⟨_, extends_store s _, written_perm fun b => ?_⟩
    simp only [Operation.result, List.mem_append, hl.mem_iff, hm.mem_iff, h.mem_members, mem_union]
  | inter hl =>
    -- Written are those members of the first set that the second one has.
    refine ⟨_, extends_store s _, written_perm fun b => ?_⟩
    simp only [Operation.result, List.mem_filter, decide_eq_true_eq, hl.mem_iff, h.mem_members,
      mem_inter]

/-- **The step lemma**: whatever an operation does to the storage, it keeps the values. -/
theorem Step.represents (hstep : Step s op s') (h : s.Represents made) :
    s'.Represents (op.perform made) := by
  obtain ⟨new, hnew, hperm⟩ := hstep.exists_extends h
  exact h.extend hnew hperm

/-- **Stored sets are values.** Whatever operations are carried out, and in whatever order they meet
the members of sets, the storage keeps the sets that the operations make. -/
theorem Runs.represents {ops : List (Operation α)} (hrun : Runs s ops s')
    (h : s.Represents made) : s'.Represents (ops.foldl Operation.perform made) := by
  induction hrun generalizing made with
  | done => exact h
  | step hstep _ ih => exact ih (hstep.represents h)

end Representation

/-! ## Answers -/

section Answers

variable {α : Type} [LT α] {s : Storage α} {made : List (ItemSet α)} {i j : Nat}

/-- A listing of a set in ascending order. -/
def Lists (s : Storage α) (i : Nat) (l : List α) : Prop :=
  l.Perm (s.members i) ∧ l.Pairwise fun a b => ¬ b < a

/-- Whether two sets are equal: they have equally many members, and those of the first one, in the
order in which they are met, are in the second one. -/
def equal [DecidableEq α] (s : Storage α) (met : List α) (i j : Nat) : Bool :=
  decide ((s.members i).length = (s.members j).length) && met.all (· ∈ s.members j)

variable [TotalLT α]

/-- The ascending listing of a stored set is that of its value. -/
theorem Represents.lists_iff (h : s.Represents made) {l : List α} :
    s.Lists i l ↔ l = (made.getD i .empty).items := by
  constructor
  · rintro ⟨hperm, hsorted⟩
    exact eq_items_of_perm (hperm.trans (h.members_perm i)) hsorted
  · rintro rfl
    -- The members of a value are in strictly ascending order.
    refine ⟨(h.members_perm i).symm, (made.getD i .empty).sorted.imp ?_⟩
    intro a b hab hba
    exact TotalLT.irrefl a (TotalLT.trans hab hba)

omit [TotalLT α] in
/-- Stored sets compare as their values do. -/
theorem Represents.equal_eq [DecidableEq α] (h : s.Represents made) {met : List α}
    (hmet : met.Perm (s.members i)) :
    s.equal met i j = (made.getD i .empty).sameItems (made.getD j .empty) := by
  -- In whatever order the members are met, all of them are looked up.
  have hall : met.all (· ∈ s.members j) =
      (made.getD i .empty).items.all (made.getD j .empty).has := by
    rw [Bool.eq_iff_iff]
    simp only [List.all_eq_true, decide_eq_true_eq, has_eq_true, hmet.mem_iff, h.mem_members]
  rw [equal, hall, (h.members_perm i).length_eq, (h.members_perm j).length_eq]
  rfl

end Answers

end Storage

/-- **Item sets form a distributive lattice, and their listing determines them.** Sets compare as
equal if and only if they have the same members, and if and only if their listings are equal. A
listing is strictly ascending and consists of the members, and the size is their number. Union and
intersection are what their names say; they are associative, commutative and idempotent, absorb each
other and distribute over each other, the empty set is the identity of union, and to insert an item
is to join the set of this item.

All this holds as well of sets that share a storage, after any list of operations and in whatever
order members are met: a stored set has the members, the size and the listing of the value, and two
of them compare as the values do. No operation changes the members or the listing of a set that was
there before. -/
theorem sets_form_distributive_lattice (α : Type) [LT α] [DecidableLT α] [DecidableEq α]
    [TotalLT α] :
    (∀ a b : ItemSet α, a.sameItems b = decide (a = b) ∧
        (a.sameItems b = true ↔ ∀ x, a.has x = b.has x) ∧
        (a.sameItems b = true ↔ a.items = b.items)) ∧
      (∀ a : ItemSet α, a.items.Pairwise (· < ·) ∧ (∀ x, x ∈ a.items ↔ a.has x = true) ∧
        a.items.length = a.size ∧ a.size = {x | a.has x = true}.ncard) ∧
      (∀ (items : List α) (x : α), (ofList items).has x = true ↔ x ∈ items) ∧
      (∀ (a b : ItemSet α) (x : α), (a.union b).has x = (a.has x || b.has x) ∧
        (a.inter b).has x = (a.has x && b.has x)) ∧
      (∀ a b c : ItemSet α,
        ((a.union b).union c).sameItems (a.union (b.union c)) = true ∧
          ((a.inter b).inter c).sameItems (a.inter (b.inter c)) = true ∧
          (a.union b).sameItems (b.union a) = true ∧ (a.inter b).sameItems (b.inter a) = true ∧
          (a.union a).sameItems a = true ∧ (a.inter a).sameItems a = true ∧
          (a.union (a.inter b)).sameItems a = true ∧ (a.inter (a.union b)).sameItems a = true ∧
          (a.union (b.inter c)).sameItems ((a.union b).inter (a.union c)) = true ∧
          (a.inter (b.union c)).sameItems ((a.inter b).union (a.inter c)) = true ∧
          (empty.union a).sameItems a = true ∧ (a.union empty).sameItems a = true ∧
          ∀ x, (a.insert x).sameItems (a.union (ofList [x])) = true) ∧
      ∀ (ops : List (Operation α)) (s : Storage α), Storage.Runs {} ops s →
        let value (i : Nat) := (ops.foldl Operation.perform []).getD i .empty
        (∀ i, (∀ x, x ∈ s.members i ↔ (value i).has x = true) ∧
            (s.members i).length = (value i).size ∧ ∀ l, s.Lists i l ↔ l = (value i).items) ∧
          (∀ i j met, met.Perm (s.members i) → s.equal met i j = (value i).sameItems (value j)) ∧
          (∀ op, ∃ s', s.Step op s') ∧
          ∀ op s', s.Step op s' → ∀ i < s.places.length,
            (∀ x, x ∈ s'.members i ↔ x ∈ s.members i) ∧ ∀ l, s'.Lists i l ↔ s.Lists i l := by
  refine ⟨?_, ?_, ?_, ?_, ?_, ?_⟩
  · intro a b
    refine ⟨?_, sameItems_iff_has, ?_⟩
    · rw [Bool.eq_iff_iff, sameItems_iff, decide_eq_true_eq]
    · rw [sameItems_iff]
      exact ⟨congrArg items, ext⟩
  · intro a
    exact ⟨a.sorted, fun x => (has_eq_true a x).symm, rfl, a.size_eq_ncard⟩
  · intro items x
    rw [has_eq_true, mem_ofList]
  · intro a b x
    exact ⟨has_union a b x, has_inter a b x⟩
  · intro a b c
    -- Sets that compare as equal are equal, so these are the laws of suprema and infima.
    simp only [sameItems_iff]
    exact ⟨sup_assoc a b c, inf_assoc a b c, sup_comm a b, inf_comm a b, sup_idem a, inf_idem a,
      sup_inf_self, inf_sup_self, sup_inf_left a b c, inf_sup_left a b c, bot_sup_eq a,
      sup_bot_eq a, insert_eq_union a⟩
  · intro ops s hrun value
    -- The storage keeps the values that the operations make, so its answers are theirs.
    have h : s.Represents (ops.foldl Operation.perform []) :=
      hrun.represents ⟨rfl, fun _ => List.Perm.refl _⟩
    refine ⟨fun i => ⟨fun x => ?_, (h.members_perm i).length_eq, fun l => h.lists_iff⟩,
      fun i j met hmet => h.equal_eq hmet, s.exists_step, fun op s' hstep i hi => ?_⟩
    · -- Members and sizes are those of the values.
      rw [has_eq_true, h.mem_members]
    · -- The earlier sets have kept their members, and listings depend on these alone.
      obtain ⟨new, hnew, -⟩ := hstep.exists_extends h
      simp only [Storage.Lists, hnew.members_of_lt i hi, implies_true, and_self]

/-- Two of three sets share a cell, because the item was there already, and writing to the copy for
the third one leaves them alone. Sets of numbers obey the laws too. -/
theorem sets_form_distributive_lattice_sharedCell :
    let ops : List (Operation String) :=
      [.ofList ["rm", "mkdir", "rm"], .insert 0 "rm", .insert 1 "cp"]
    let a : ItemSet Int := ofList [3, -1, 3]
    let b : ItemSet Int := ofList [2]
    let c : ItemSet Int := ofList [-1]
    (∃ s, Storage.Runs {} ops s ∧
        s.cellOf 0 = some 0 ∧ s.cellOf 1 = some 0 ∧ s.cellOf 2 = some 1 ∧
        s.Lists 1 ["mkdir", "rm"] ∧ s.Lists 2 ["cp", "mkdir", "rm"] ∧
        s.equal ["rm", "mkdir"] 0 2 = false) ∧
      (a.inter (b.union c)).sameItems ((a.inter b).union (a.inter c)) = true := by
  intro ops a b c
  constructor
  · obtain ⟨-, -, -, -, -, hstored⟩ := sets_form_distributive_lattice String
    let filled : Storage String := .store {} ["rm", "mkdir", "rm"]
    -- The item is there already, so the second set shares the cell.
    let shared := filled.share (filled.cellOf 0) fun _ => Storage.lt_of_cellOf
    have hknown : "rm" ∈ filled.members 0 := by decide
    have hnew : "cp" ∉ shared.members 1 := by decide
    have hrun : Storage.Runs {} ops (shared.store (shared.members 1 ++ ["cp"])) :=
      .step (.ofList _) (.step (.insertKnown hknown)
        (.step (.insertNew hnew (List.Perm.refl _)) .done))
    obtain ⟨hanswers, hequal, -⟩ := hstored _ _ hrun
    refine ⟨_, hrun, rfl, rfl, rfl, ((hanswers 1).2.2 _).mpr (by decide +kernel),
      ((hanswers 2).2.2 _).mpr (by decide +kernel), ?_⟩
    rw [hequal 0 2 _ (by decide)]
    decide +kernel
  · obtain ⟨-, -, -, -, hlaws, -⟩ := sets_form_distributive_lattice Int
    obtain ⟨-, -, -, -, -, -, -, -, -, hdistrib, -⟩ := hlaws a b c
    exact hdistrib

end ItemSet

end ScriptFlow
