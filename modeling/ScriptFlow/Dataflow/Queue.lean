/-!
# First-in first-out queues

A queue as two lists, the second one reversed. Main statements: what `push` and `pop?` do to the
list of waiting elements.
-/

namespace ScriptFlow

/-- A queue: `front` in order, then `back` in reverse order. -/
structure Queue (α : Type) where
  front : List α := []
  back : List α := []
deriving Inhabited

namespace Queue

variable {α : Type}

/-- The waiting elements, the next one first. -/
def toList (q : Queue α) : List α :=
  q.front ++ q.back.reverse

/-- The queue of the elements of a list. -/
def ofList (l : List α) : Queue α := ⟨l, []⟩

/-- Appends an element. -/
def push (q : Queue α) (a : α) : Queue α :=
  { q with back := a :: q.back }

/-- The next element and the queue without it. -/
def pop? (q : Queue α) : Option (α × Queue α) :=
  match q.front with
  | a :: front => some (a, { q with front := front })
  | [] =>
    match q.back.reverse with
    | [] => none
    | a :: front => some (a, ⟨front, []⟩)

@[simp] theorem toList_ofList (l : List α) : (ofList l).toList = l := by
  simp [ofList, toList]

@[simp] theorem toList_push (q : Queue α) (a : α) : (q.push a).toList = q.toList ++ [a] := by
  simp [push, toList]

theorem pop?_eq_none {q : Queue α} : q.pop? = none ↔ q.toList = [] := by
  obtain ⟨front, back⟩ := q
  cases front with
  | cons a front => simp [pop?, toList]
  | nil =>
    cases h : back.reverse with
    | nil => simp [pop?, toList, h]
    | cons a front => simp [pop?, toList, h]

theorem toList_of_pop? {q q' : Queue α} {a : α} (h : q.pop? = some (a, q')) :
    q.toList = a :: q'.toList := by
  obtain ⟨front, back⟩ := q
  cases front with
  | cons b front =>
    simp only [pop?, Option.some.injEq, Prod.mk.injEq] at h
    obtain ⟨rfl, rfl⟩ := h
    simp [toList]
  | nil =>
    cases hb : back.reverse with
    | nil => simp [pop?, hb] at h
    | cons b front =>
      simp only [pop?, hb, Option.some.injEq, Prod.mk.injEq] at h
      obtain ⟨rfl, rfl⟩ := h
      simp [toList, hb]

end Queue

end ScriptFlow
