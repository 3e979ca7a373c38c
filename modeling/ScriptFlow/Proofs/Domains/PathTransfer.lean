import ScriptFlow.Proofs.Domains.Heights
import ScriptFlow.Proofs.Lattice.Semilattice

/-!
# What a command does to joined states

A command assigns fixed values to some paths and leaves all others alone, whatever the state before
it. So it makes no difference whether states are joined before the command or after it, and a second
execution changes nothing. Only the last assignment of a path counts, which matters where the
destination of a move is also one of its sources.

States are compared as they are written down, so it is not enough to know the value of every path:
`find?_update` tells the entries of a table after a command, also where `top` is written down.

Main statement: `transfer_preserves_joins`.
-/

namespace ScriptFlow

/-- A join of tables leaves `top` out, also where the tables write it down. -/
theorem PathState.topFree_join_table (a b : SortedMap String Presence) :
    ((PathState.table a).join (.table b)).TopFree :=
  topFree_foldl_record _ _ topFree_nothing

namespace Command

/-! ## Tables after a command -/

/-- The table after a list of effects. -/
def update (effects : List (String × Effect)) (paths : SortedMap String Presence) :
    SortedMap String Presence :=
  effects.foldl (fun m e => PathState.record m e.1 e.2.presence) paths

/-- Recording effects in a table leads to a table. -/
theorem foldl_put_table (effects : List (String × Effect)) (paths : SortedMap String Presence) :
    effects.foldl (fun (s : PathState) e => s.put e.1 e.2.presence) (.table paths) =
      .table (update effects paths) := by
  induction effects generalizing paths with
  | nil => rfl
  | cons e rest ih => exact ih (PathState.record paths e.1 e.2.presence)

/-- A command leads from tables to tables. -/
theorem apply_table (c : Command) (paths : SortedMap String Presence) :
    c.apply (.table paths) = .table (update c.effects paths) :=
  foldl_put_table c.effects paths

/-- A command that is never reached does nothing. -/
theorem apply_unreached (c : Command) : c.apply .unreached = .unreached := by
  -- Each effect is recorded in a table, and here there is none.
  unfold apply
  induction c.effects with
  | nil => rfl
  | cons e rest ih => exact ih

theorem presence_ne_top (e : Effect) : e.presence ≠ .top := by
  cases e with
  | create => decide
  | remove => decide

/-- The entry of a path is its last assignment, or the one it had before. -/
theorem find?_update (effects : List (String × Effect)) (paths : SortedMap String Presence)
    (path : String) :
    (update effects paths).find? path =
      ((lastEffect path effects).map Effect.presence).or (paths.find? path) := by
  induction effects generalizing paths with
  | nil => rfl
  | cons e rest ih =>
    show (update rest (PathState.record paths e.1 e.2.presence)).find? path = _
    -- Effects are never `top`, so each of them is written down.
    rw [ih, PathState.record, if_neg (presence_ne_top e.2), SortedMap.find?_insert, lastEffect]
    cases lastEffect path rest with
    | some f => rfl
    | none => by_cases he : e.1 = path <;> simp [he]

/-! ## Laws of a command -/

variable (c : Command)

/-- **A command executed twice does what it does once.** -/
theorem apply_apply (s : PathState) : c.apply (c.apply s) = c.apply s := by
  cases s with
  | unreached => rw [apply_unreached, apply_unreached]
  | table paths =>
    -- Two tables are the same if every path has the same entry in both.
    rw [apply_table, apply_table]
    apply congrArg PathState.table
    apply SortedMap.ext_find?
    intro path
    rw [find?_update, find?_update]
    cases lastEffect path c.effects with
    | none => rfl
    -- The second execution records the effect that is already there.
    | some e => rfl

/-- **A command commutes with joins.** -/
theorem apply_join (a b : PathState) : c.apply (a.join b) = (c.apply a).join (c.apply b) := by
  cases a with
  | unreached =>
    rw [apply_unreached]
    rfl
  | table a =>
    cases b with
    | unreached =>
      rw [apply_unreached, apply_table]
      exact apply_table c a
    | table b =>
      -- Both sides are tables without `top`, so they are equal if every path has the same value.
      obtain ⟨ab, hab⟩ : ∃ ab, (PathState.table a).join (.table b) = .table ab := ⟨_, rfl⟩
      have hfree : (c.apply ((PathState.table a).join (.table b))).TopFree :=
        PathPresence.topFree_apply (PathState.topFree_join_table a b) c
      have hfree' : ((c.apply (.table a)).join (c.apply (.table b))).TopFree := by
        rw [apply_table, apply_table]
        exact PathState.topFree_join_table _ _
      apply hfree.ext_get hfree'
      intro path
      rw [PathState.get_join, hab, get_apply, get_apply, get_apply, ← hab, PathState.get_join]
      -- An assigned path has the same value on both sides, and its join with itself.
      cases c.assignment path with
      | none => rfl
      | some e => exact (Presence.le_iff_join_eq.mp le_rfl).symm

/-- Only the assigned paths change, and they are operands. -/
theorem get_apply_of_not_mem (s : PathState) {path : String} (h : path ∉ c.operands) :
    (c.apply s).get path = s.get path := by
  cases s with
  | unreached => rw [apply_unreached]
  | table paths =>
    rw [get_apply, PathPresence.assignment_eq_none h]
    rfl

/-- A larger state before a command leads to a larger one after it. -/
theorem apply_mono : Monotone c.apply := by
  intro a b hab
  cases a with
  -- The state that is never reached is below every other one.
  | unreached =>
    rw [apply_unreached]
    intro path
    exact Presence.le_iff.mpr (Or.inr (Or.inl rfl))
  | table a =>
    cases b with
    | unreached =>
      -- A table says nothing about some path, which is not below `bottom`.
      obtain ⟨path, htop⟩ := PathState.exists_get_eq_top a
      have hle := hab path
      rw [htop, PathState.get_unreached] at hle
      exact absurd (Presence.le_iff.mp hle) (by decide)
    | table b =>
      intro path
      rw [get_apply, get_apply]
      cases c.assignment path with
      | none => exact hab path
      | some e => exact le_rfl

end Command

/-! ## The transfer function -/

namespace PathPresence

open PathState

/-- **The transfer function preserves joins.** At every flow point and for all states, also those
that are never reached and those that write `top` down, the state after a join compares as equal to
the join of the states after; so the function is monotone. Applied twice it gives what it gives
once. It leaves the state that is never reached as it is, writes `top` down only where that was done
before, and changes values at operands of its command only: there a reached state gets the value of
the command's assignment, if it makes one. -/
theorem transfer_preserves_joins (site : Site) :
    let command := Command.parse site.text
    let after := pathPresence.transfer site
    (∀ a b, (after (a.join b)).sameEntries ((after a).join (after b)) = true) ∧
      Monotone after ∧
      (∀ a, (after (after a)).sameEntries (after a) = true) ∧
      after unreached = unreached ∧
      (∀ a, a.TopFree → (after a).TopFree) ∧
      (∀ a, ∀ p, p ∉ command.operands → (after a).get p = a.get p) ∧
      ∀ paths p, (after (table paths)).get p =
        ((command.assignment p).map Command.Effect.presence).getD ((table paths).get p) := by
  intro command after
  refine ⟨fun a b => ?_, command.apply_mono, fun a => ?_, command.apply_unreached,
    fun a ha => topFree_apply ha command, fun a p hp => command.get_apply_of_not_mem a hp,
    command.get_apply⟩
  · -- The comparison tells equality, and the two sides are equal.
    rw [sameEntries_iff]
    exact command.apply_join a b
  · rw [sameEntries_iff]
    exact command.apply_apply a

/-- A move whose destination is one of its sources, after a state that knows of two paths and one
that writes `top` down: the destination exists, the other source does not, and a path that is no
operand keeps its value. -/
theorem transfer_preserves_joins_moveOnto :
    let after := pathPresence.transfer ⟨0, "mv a b a"⟩
    let x := (nothing.put "b" .present).put "c" .absent
    let y := table (.ofList [("c", .top)])
    x.TopFree ∧ ¬ y.TopFree ∧ "c" ∉ (Command.parse "mv a b a").operands ∧
      (after (x.join y)).sameEntries ((after x).join (after y)) = true ∧ (after x).TopFree ∧
      (after x).get "c" = .absent ∧ (after x).get "a" = .present ∧ (after x).get "b" = .absent := by
  intro after x y
  have hx : x.TopFree := topFree_put (topFree_put topFree_nothing _ _) _ _
  have hy : ¬ y.TopFree := fun h => h "c" (by decide)
  have hother : "c" ∉ (Command.parse "mv a b a").operands := by decide +kernel
  obtain ⟨hjoin, -, -, -, hfree, hkeeps, hvalues⟩ := transfer_preserves_joins ⟨0, "mv a b a"⟩
  -- What the move does to its two operands, read off its text.
  have hassigned : (Command.parse "mv a b a").assignment "a" = some .create ∧
      (Command.parse "mv a b a").assignment "b" = some .remove := by decide +kernel
  refine ⟨hx, hy, hother, hjoin x y, hfree x hx, (hkeeps x "c" hother).trans (by decide), ?_, ?_⟩
  · refine (hvalues _ "a").trans ?_
    rw [hassigned.1]
    rfl
  · refine (hvalues _ "b").trans ?_
    rw [hassigned.2]
    rfl

end PathPresence

end ScriptFlow
