import ScriptFlow.Domains
import ScriptFlow.Proofs.Dataflow.Walks
import ScriptFlow.Proofs.Lattice.PathState

/-!
# Presence of paths along walks

The value that the presence analysis gives a path before a point is determined by the last
assignments of the path on all walks to the point: `present` and `absent` if all of them are
creations or removals, `maybe` if both kinds occur, and `top` if the path is unassigned on one of
the walks.

Main statement: `presence_input_exact`.
-/

namespace ScriptFlow

/-! ## Assignments of a command -/

namespace Command

/-- What a command makes of a path in the end, if it assigns it at all. -/
def assignment (c : Command) (path : String) : Option Effect :=
  if c.name = "mkdir" ∨ c.name = "touch" then
    if path ∈ c.operands then some .create else none
  else if c.name = "rm" ∨ c.name = "rmdir" then
    if path ∈ c.operands then some .remove else none
  else if c.name = "cp" then
    if 2 ≤ c.operands.length ∧ c.operands.getLast? = some path then some .create else none
  else if c.name = "mv" then
    if c.operands.length < 2 then none
    else if c.operands.getLast? = some path then some .create
    else if path ∈ c.operands.dropLast then some .remove
    else none
  else none

/-- The last effect on a path in a list of effects. -/
def lastEffect (path : String) : List (String × Effect) → Option Effect
  | [] => none
  | e :: rest => (lastEffect path rest).or (if e.1 = path then some e.2 else none)

/-- The later list of effects decides, and the earlier one if it leaves the path alone. -/
theorem lastEffect_append (path : String) (a b : List (String × Effect)) :
    lastEffect path (a ++ b) = (lastEffect path b).or (lastEffect path a) := by
  induction a with
  | nil => simp [lastEffect]
  | cons e rest ih => rw [List.cons_append, lastEffect, ih, lastEffect, Option.or_assoc]

/-- The same effect on several paths is the last one on each of them. -/
theorem lastEffect_map (path : String) (paths : List String) (e : Effect) :
    lastEffect path (paths.map (·, e)) = if path ∈ paths then some e else none := by
  induction paths with
  | nil => rfl
  | cons p rest ih =>
    rw [List.map_cons, lastEffect, ih]
    by_cases hrest : path ∈ rest
    · simp [hrest]
    · by_cases hp : p = path
      · simp [hrest, hp]
      · simp [hrest, hp, Ne.symm hp]

/-- The effects of a command leave each path with its assignment. -/
theorem lastEffect_effects (c : Command) (path : String) :
    lastEffect path c.effects = c.assignment path := by
  unfold effects assignment
  -- One case for each kind of command, in the order in which they are told apart.
  split
  · exact lastEffect_map path _ _
  · split
    · exact lastEffect_map path _ _
    · split
      · -- A copy creates its destination, if it has sources.
        by_cases hlen : c.operands.length < 2
        · simp [hlen, Nat.not_le.mpr hlen, lastEffect]
        · rw [if_neg hlen, lastEffect_map]
          simp [Nat.not_lt.mp hlen, Option.mem_toList]
      · split
        · by_cases hlen : c.operands.length < 2
          · simp [hlen, lastEffect]
          · -- The destination comes last, so it wins over the sources.
            rw [if_neg hlen, if_neg hlen, lastEffect_append, lastEffect_map, lastEffect_map]
            by_cases hlast : c.operands.getLast? = some path
            · simp [hlast]
            · simp [hlast, Option.mem_toList]
        · rfl

/-- After a list of effects a path has what the last one on it made, or what it had before. -/
theorem get_foldl_put (l : List (String × Effect)) (paths : SortedMap String Presence)
    (path : String) :
    (l.foldl (fun (s : PathState) e => s.put e.1 e.2.presence) (.table paths)).get path =
      ((lastEffect path l).map Effect.presence).getD ((PathState.table paths).get path) := by
  induction l generalizing paths with
  | nil => rfl
  | cons e rest ih =>
    rw [List.foldl_cons, PathState.put, ih, ← PathState.put, PathState.get_put, lastEffect]
    -- A later effect on the path hides this one.
    cases lastEffect path rest with
    | some f => rfl
    | none =>
      by_cases he : e.1 = path <;> simp [he]

/-- A command changes the paths it assigns and no others. -/
theorem get_apply (c : Command) (paths : SortedMap String Presence) (path : String) :
    (c.apply (.table paths)).get path =
      ((c.assignment path).map Effect.presence).getD ((PathState.table paths).get path) := by
  rw [apply, get_foldl_put, lastEffect_effects]

end Command

/-- The last assignment of a path on a walk, given by the points passed, the latest one first. -/
def Network.lastAssignment (net : Network) (path : String) (passed : List Nat) :
    Option Command.Effect :=
  passed.findSome? fun p => (Command.parse (net.text p)).assignment path

/-! ## Values as sets of last assignments -/

namespace Presence

/-- The four values that stand for the ways to a reached point. -/
def Known (v : Presence) : Prop :=
  v = .absent ∨ v = .present ∨ v = .maybe ∨ v = .top

/-- The value leaves room for an effect in `E` as the last assignment, or for none at all. -/
def Allows (E : Command.Effect → Prop) (v : Presence) : Prop :=
  v = .top ∨ E .create ∧ (v = .present ∨ v = .maybe) ∨ E .remove ∧ (v = .absent ∨ v = .maybe)

variable {E : Command.Effect → Prop} {a b v : Presence}

theorem Known.join (ha : a.Known) (hb : b.Known) : (a.join b).Known := by
  rcases ha with rfl | rfl | rfl | rfl <;> rcases hb with rfl | rfl | rfl | rfl <;>
    simp [Known, Presence.join, absent, present, maybe, top, bottom]

theorem known_presence (e : Command.Effect) : e.presence.Known := by
  cases e <;> simp [Known, Command.Effect.presence]

theorem allows_top : Allows E .top := Or.inl rfl

/-- An effect leaves room for itself only. -/
theorem allows_presence {e : Command.Effect} : Allows E e.presence ↔ E e := by
  cases e <;> simp [Allows, Command.Effect.presence, absent, present, maybe, top]

/-- A join leaves room for what one of its sides does. -/
theorem allows_join (ha : a.Known) (hb : b.Known) :
    (a.join b).Allows E ↔ a.Allows E ∨ b.Allows E := by
  rcases ha with rfl | rfl | rfl | rfl <;> rcases hb with rfl | rfl | rfl | rfl <;>
    simp [Allows, Presence.join, absent, present, maybe, top, bottom] <;> grind

/-- A known value is determined by what it leaves room for. -/
theorem eq_top_iff : v = .top ↔ v.Allows fun _ => False := by
  simp [Allows]

theorem eq_present_iff (h : v.Known) : v = .present ↔ ¬ v.Allows (· = .remove) := by
  rcases h with rfl | rfl | rfl | rfl <;> simp [Allows, absent, present, maybe, top]

theorem eq_absent_iff (h : v.Known) : v = .absent ↔ ¬ v.Allows (· = .create) := by
  rcases h with rfl | rfl | rfl | rfl <;> simp [Allows, absent, present, maybe, top]

theorem eq_maybe_iff (h : v.Known) : v = .maybe ↔
    v ≠ .top ∧ v.Allows (· = .create) ∧ v.Allows (· = .remove) := by
  rcases h with rfl | rfl | rfl | rfl <;> simp [Allows, absent, present, maybe, top]

end Presence

/-! ## The analysis sees the last assignment -/

namespace PathPresence

/-- The state is that of a reached point, with a known value for every path. -/
def Regular (s : PathState) : Prop :=
  ∀ path, (s.get path).Known

theorem Regular.exists_table {s : PathState} (h : Regular s) : ∃ paths, s = .table paths := by
  cases s with
  | unreached => exact absurd (h "") (by simp [Presence.Known, Presence.bottom, Presence.absent,
      Presence.present, Presence.maybe, Presence.top])
  | table paths => exact ⟨paths, rfl⟩

theorem regular_apply {s : PathState} (h : Regular s) (c : Command) : Regular (c.apply s) := by
  intro path
  obtain ⟨paths, rfl⟩ := h.exists_table
  rw [Command.get_apply]
  cases c.assignment path with
  | none => exact h path
  | some e => exact Presence.known_presence e

/-- A command that assigns the path brings its effect about, any other one lets the value pass. -/
theorem observes (path : String) (E : Command.Effect → Prop) :
    pathPresence.Observes Regular (fun s => (s.get path).Allows E)
      (fun site => ∃ e, (Command.parse site.text).assignment path = some e ∧ E e)
      (fun site => (Command.parse site.text).assignment path = none) where
  initial _ := Or.inr (Or.inr (Or.inr rfl))
  merge a b ha hb p := by
    rw [pathPresence, PathState.get_join]
    exact (ha p).join (hb p)
  transfer site s hs := regular_apply hs _
  merge_iff a b ha hb := by
    -- The join is taken path by path, so it may be observed on one path alone.
    rw [pathPresence, PathState.get_join]
    exact Presence.allows_join (ha path) (hb path)
  transfer_iff site s hs := by
    obtain ⟨paths, rfl⟩ := hs.exists_table
    simp only [pathPresence, Command.get_apply]
    cases (Command.parse site.text).assignment path with
    | none => simp
    | some e => simp [Presence.allows_presence]

/-- Along a walk the last assignment decides; before any assignment everything is allowed. -/
theorem seenOn_iff (net : Network) (path : String) (E : Command.Effect → Prop)
    (passed : List Nat) :
    Engine.SeenOn net ((pathPresence.initial.get path).Allows E)
        (fun site => ∃ e, (Command.parse site.text).assignment path = some e ∧ E e)
        (fun site => (Command.parse site.text).assignment path = none) passed ↔
      ∀ e, net.lastAssignment path passed = some e → E e := by
  induction passed with
  | nil => simp [Engine.SeenOn, Network.lastAssignment, pathPresence, Presence.allows_top]
  | cons p passed ih =>
    rw [Engine.SeenOn, ih]
    unfold Network.lastAssignment
    simp only [Network.site, List.findSome?_cons]
    -- The command passed last assigns the path, or the rest of the walk decides.
    cases (Command.parse (net.text p)).assignment path with
    | none => simp
    | some e => simp

private theorem eq_some_create_iff (o : Option Command.Effect) :
    o = some .create ↔ ¬ ∀ e, o = some e → e = .remove := by
  rcases o with _ | _ | _ <;> simp

private theorem eq_some_remove_iff (o : Option Command.Effect) :
    o = some .remove ↔ ¬ ∀ e, o = some e → e = .create := by
  rcases o with _ | _ | _ <;> simp

/-- Once no walk leaves the path unassigned, the allowed effects are the last assignments. -/
private theorem exists_last_iff {W : List Nat → Prop} {last : List Nat → Option Command.Effect}
    (hassigned : ∀ passed, W passed → last passed ≠ none) (f : Command.Effect) :
    (∃ passed, W passed ∧ ∀ e, last passed = some e → e = f) ↔
      ∃ passed, W passed ∧ last passed = some f := by
  refine exists_congr fun passed => and_congr_right fun hwalk => ?_
  obtain ⟨e, he⟩ := Option.ne_none_iff_exists'.mp (hassigned passed hwalk)
  simp [he]

section Success

variable {net : Network} {entries : List Nat} {m : Memory PathState} {cap : Nat} {c : Cancellation}
  {name : String}

/-- Before a reached point every path leaves room for exactly the last assignments that occur on
the walks to the point. -/
theorem allows_input_iff (hnet : net.Built) (hunused : m.Unused)
    (hok : (Engine.run net pathPresence cap c entries m).error? name = none) {n : Nat}
    (hn : net.ReachedFrom entries n) :
    ∃ before, (Engine.run net pathPresence cap c entries m).memory.input.get? n = some before ∧
      Regular before ∧ ∀ path E, (before.get path).Allows E ↔
        ∃ passed, net.Walk entries passed n ∧
          ∀ e, net.lastAssignment path passed = some e → E e := by
  have hequal : ∀ a b, pathPresence.equal a b = true → a = b := fun a b h => of_decide_eq_true h
  have hshown : ∀ path E, _ := fun path E =>
    Engine.observed_input_iff hnet hequal hunused (observes path E) hok hn
  -- The state is the same for all paths and effects, although each of them is observed apart.
  obtain ⟨before, hinput, hregular, -⟩ := hshown "" fun _ => False
  refine ⟨before, hinput, hregular, fun path E => ?_⟩
  obtain ⟨v, hv, -, hiff⟩ := hshown path E
  obtain rfl : before = v := Option.some.inj (hinput.symm.trans hv)
  rw [hiff]
  simp only [seenOn_iff]

/-- **The presence analysis is exact over all walks.** After a successful run on an unused memory
the value of a path before a reached point tells its last assignments on the walks from an entry
to the point, the command of the point itself excluded: `top` iff some walk never assigns it, which
is so at an entry, `present` or `absent` iff every walk assigns it and creates or removes it last,
and `maybe` iff every walk assigns it and both kinds of last assignment occur. -/
theorem presence_input_exact (hnet : net.Built) (hunused : m.Unused)
    (hok : (Engine.run net pathPresence cap c entries m).error? name = none) (n : Nat)
    (hn : net.ReachedFrom entries n) :
    ∃ before, (Engine.run net pathPresence cap c entries m).memory.input.get? n = some before ∧
      ∀ path,
        (before.get path = .top ↔
          ∃ passed, net.Walk entries passed n ∧ net.lastAssignment path passed = none) ∧
        (n ∈ entries → before.get path = .top) ∧
        (before.get path = .present ↔
          ∀ passed, net.Walk entries passed n →
            net.lastAssignment path passed = some .create) ∧
        (before.get path = .absent ↔
          ∀ passed, net.Walk entries passed n →
            net.lastAssignment path passed = some .remove) ∧
        (before.get path = .maybe ↔
          (∀ passed, net.Walk entries passed n → net.lastAssignment path passed ≠ none) ∧
            (∃ passed, net.Walk entries passed n ∧
              net.lastAssignment path passed = some .create) ∧
            ∃ passed, net.Walk entries passed n ∧
              net.lastAssignment path passed = some .remove) := by
  obtain ⟨before, hinput, hregular, hallows⟩ := allows_input_iff hnet hunused hok hn
  refine ⟨before, hinput, fun path => ?_⟩
  have htop : before.get path = .top ↔
      ∃ passed, net.Walk entries passed n ∧ net.lastAssignment path passed = none := by
    rw [Presence.eq_top_iff, hallows]
    simp only [imp_false, Option.eq_none_iff_forall_ne_some]
  refine ⟨htop, fun he => htop.mpr ⟨[], .entry he, rfl⟩, ?_, ?_, ?_⟩
  · -- No walk removes it last or leaves it alone, so all of them create it last.
    rw [Presence.eq_present_iff (hregular path), hallows]
    simp only [not_exists, not_and, ← eq_some_create_iff]
  · rw [Presence.eq_absent_iff (hregular path), hallows]
    simp only [not_exists, not_and, ← eq_some_remove_iff]
  · -- Both effects are allowed, and every walk assigns the path.
    rw [Presence.eq_maybe_iff (hregular path), Ne, htop, hallows, hallows]
    constructor
    · rintro ⟨hnone, hcreate, hremove⟩
      have hassigned : ∀ passed, net.Walk entries passed n →
          net.lastAssignment path passed ≠ none :=
        fun passed hwalk he => hnone ⟨passed, hwalk, he⟩
      exact ⟨hassigned, (exists_last_iff hassigned _).mp hcreate,
        (exists_last_iff hassigned _).mp hremove⟩
    · rintro ⟨hassigned, hcreate, hremove⟩
      refine ⟨?_, (exists_last_iff hassigned _).mpr hcreate,
        (exists_last_iff hassigned _).mpr hremove⟩
      rintro ⟨passed, hwalk, he⟩
      exact hassigned passed hwalk he

/-- Infinitely many walks around a loop lead to the removal, and all of them create the directory
last. -/
theorem presence_input_exact_ring :
    Network.ring.Built ∧ ({} : Memory PathState).Unused ∧
      (Engine.run Network.ring pathPresence 10 none [0] {}).error? "presence" = none ∧
      ∀ passed, Network.ring.Walk [0] passed 1 →
        Network.ring.lastAssignment "a" passed = some .create := by
  have hok : (Engine.run Network.ring pathPresence 10 none [0] {}).error? "presence" = none := by
    decide +kernel
  have hreached : Network.ring.ReachedFrom [0] 1 :=
    (Network.ReachedFrom.of_mem (List.mem_singleton.mpr rfl)).step (by decide)
  refine ⟨Network.ring_built, Memory.unused_empty, hok, ?_⟩
  obtain ⟨before, hinput, hexact⟩ :=
    presence_input_exact Network.ring_built Memory.unused_empty hok 1 hreached
  have hvalue : ((Engine.run Network.ring pathPresence 10 none [0] {}).memory.input.get? 1).map
      (·.get "a") = some .present := by
    decide +kernel
  -- The value found by evaluation, read as a statement about all walks.
  rw [hinput] at hvalue
  exact (hexact "a").2.2.1.mp (Option.some.inj hvalue)

end Success

end PathPresence

end ScriptFlow
