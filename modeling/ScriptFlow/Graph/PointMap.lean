/-!
# Maps on flow points

Flow points are numbered from zero, so what is known about them is kept in an array of cells that
grows as needed. Main statements: what is read back after writing or clearing a cell, for every
point number.
-/

namespace ScriptFlow

/-- A partial map from point numbers to `α`. -/
structure PointMap (α : Type) where
  /-- The cell of each point; points beyond the end have none. -/
  cells : Array (Option α) := #[]
deriving Inhabited

/-- A set of point numbers. -/
abbrev PointSet := PointMap Unit

namespace PointMap

variable {α : Type}

/-- The map without values. -/
def empty : PointMap α := ⟨#[]⟩

/-- The value at a point. -/
def get? (m : PointMap α) (p : Nat) : Option α :=
  (m.cells[p]?).join

/-- Whether a point has a value. -/
def contains (m : PointMap α) (p : Nat) : Bool :=
  (m.get? p).isSome

/-- The map with the value of one point replaced. -/
def set (m : PointMap α) (p : Nat) (v : α) : PointMap α :=
  if h : p < m.cells.size then ⟨m.cells.set p (some v) h⟩
  else ⟨(m.cells ++ Array.replicate (p - m.cells.size) none).push (some v)⟩

/-- The map without the value of one point. -/
def erase (m : PointMap α) (p : Nat) : PointMap α :=
  if h : p < m.cells.size then ⟨m.cells.set p none h⟩ else m

/-- The set with one more point. -/
def mark (s : PointSet) (p : Nat) : PointSet :=
  s.set p ()

/-- Puts a point into the set or takes it out. -/
def assign (s : PointSet) (p : Nat) (member : Bool) : PointSet :=
  if member then s.mark p else s.erase p

@[simp] theorem get?_empty (p : Nat) : (empty : PointMap α).get? p = none := rfl

@[simp] theorem get?_set (m : PointMap α) (p q : Nat) (v : α) :
    (m.set p v).get? q = if q = p then some v else m.get? q := by
  unfold set get?
  split
  · by_cases h : q = p
    · subst h
      simp [*]
    · simp [h, Ne.symm h]
  · rename_i hp
    have hs : (m.cells ++ Array.replicate (p - m.cells.size) none).size = p := by
      rw [Array.size_append, Array.size_replicate]
      omega
    rw [Array.getElem?_push, hs]
    by_cases h : q = p
    · simp [h]
    · simp only [h, if_false, Array.getElem?_append, Array.getElem?_replicate]
      split
      · rfl
      · rw [Array.getElem?_eq_none (Nat.le_of_not_lt ‹_›)]
        split <;> rfl

@[simp] theorem get?_erase (m : PointMap α) (p q : Nat) :
    (m.erase p).get? q = if q = p then none else m.get? q := by
  unfold erase get?
  split
  · by_cases h : q = p
    · subst h
      simp [*]
    · simp [h, Ne.symm h]
  · by_cases h : q = p
    · subst h
      simp [Array.getElem?_eq_none (Nat.le_of_not_lt ‹_›)]
    · simp [h]

@[simp] theorem contains_empty (p : Nat) : (empty : PointMap α).contains p = false := rfl

@[simp] theorem contains_set (m : PointMap α) (p q : Nat) (v : α) :
    (m.set p v).contains q = (decide (q = p) || m.contains q) := by
  by_cases h : q = p <;> simp [contains, h]

@[simp] theorem contains_mark (s : PointSet) (p q : Nat) :
    (mark s p).contains q = (decide (q = p) || s.contains q) :=
  contains_set s p q ()

@[simp] theorem contains_erase (m : PointMap α) (p q : Nat) :
    (m.erase p).contains q = (!decide (q = p) && m.contains q) := by
  by_cases h : q = p <;> simp [contains, h]

end PointMap

end ScriptFlow
