import ScriptFlow.Lattice.PathState
import ScriptFlow.Proofs.SortedMap

/-!
# What a path state tells about one path

A path state is known by the values it gives to paths. Main statements: `get_put` and `get_join`,
what a path has after a value is recorded and after two states are joined.
-/

namespace ScriptFlow

namespace PathState

@[simp] theorem get_unreached (p : String) : unreached.get p = .bottom := rfl

@[simp] theorem get_nothing (p : String) : nothing.get p = .top := rfl

theorem get_of_not_mem_keys {paths : SortedMap String Presence} {p : String}
    (h : p ∉ paths.keys) : (table paths).get p = .top := by
  rw [SortedMap.mem_keys_iff, Option.not_isSome_iff_eq_none] at h
  simp [get, h]

/-- Recording `top` leaves the path out, which reads as `top` again. -/
theorem get_record (paths : SortedMap String Presence) (p q : String) (v : Presence) :
    (table (record paths p v)).get q = if p = q then v else (table paths).get q := by
  unfold record
  by_cases hv : v = .top
  · by_cases h : p = q <;> simp [get, hv, h]
  · by_cases h : p = q <;> simp [get, hv, h]

/-- A recorded value is read back, and no other path changes. -/
theorem get_put (paths : SortedMap String Presence) (p q : String) (v : Presence) :
    ((table paths).put p v).get q = if p = q then v else (table paths).get q :=
  get_record paths p q v

/-- Recording a value for each path of a list changes exactly these paths. -/
theorem get_foldl_record (l : List String) (f : String → Presence)
    (paths : SortedMap String Presence) (q : String) :
    (table (l.foldl (fun m p => record m p (f p)) paths)).get q =
      if q ∈ l then f q else (table paths).get q := by
  -- Induction on the list: a later occurrence of a path records the same value again.
  induction l generalizing paths with
  | nil => simp
  | cons p rest ih =>
    rw [List.foldl_cons, ih, get_record]
    by_cases hrest : q ∈ rest
    · simp [hrest]
    · by_cases hp : p = q
      · simp [hp]
      · simp [hrest, hp, Ne.symm hp]

/-- **A join is taken path by path**, also where a path is missing from one of the tables. -/
theorem get_join (a b : PathState) (p : String) : (a.join b).get p = (a.get p).join (b.get p) := by
  cases a with
  | unreached => simp [join, Presence.join]
  | table a =>
    cases b with
    | unreached =>
      by_cases h : (table a).get p = .bottom <;> simp [join, Presence.join, h]
    | table b =>
      simp only [join]
      rw [get_foldl_record]
      split
      · rfl
      · -- A path in neither table reads as `top` before and after the join.
        rename_i hmem
        simp only [List.mem_append, List.mem_filter, not_or] at hmem
        have ha : p ∉ a.keys := hmem.1
        have hcontains : a.contains p = false := by
          rw [SortedMap.mem_keys_iff] at ha
          simpa [SortedMap.contains] using ha
        have hb : p ∉ b.keys := fun hb => hmem.2 ⟨hb, by simp [hcontains]⟩
        rw [get_of_not_mem_keys ha, get_of_not_mem_keys hb]
        rfl

end PathState

end ScriptFlow
