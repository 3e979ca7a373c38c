import ScriptFlow.Proofs.Dataflow.LeastSolution

/-!
# Collected command names

The names collected at a point are those of the commands on the ways to it. A name is seen on a
walk if some point passed has it, and a point is passed on some walk to another one exactly if it
is reached and leads there by at least one edge, around cycles as often as one likes.

Main statement: `labels_exact`.
-/

namespace ScriptFlow

namespace Network

variable {net : Network} {entries : List Nat}

/-- There is a way of at least one edge. -/
def LeadsTo (net : Network) : Nat → Nat → Prop :=
  Relation.TransGen fun p q => q ∈ net.successors p

/-- A point reaches itself and the points that it leads to. -/
theorem reaches_iff_eq_or_leadsTo {p q : Nat} : net.Reaches p q ↔ q = p ∨ net.LeadsTo p q :=
  Relation.reflTransGen_iff_eq_or_transGen

/-- The points passed on a walk are reached, and they lead to its end. -/
theorem Walk.reached_and_leadsTo {passed : List Nat} {p q : Nat}
    (h : net.Walk entries passed q) (hp : p ∈ passed) :
    net.ReachedFrom entries p ∧ net.LeadsTo p q := by
  -- Induction on the walk: the point passed last leads to the end by one edge.
  induction h with
  | entry he => exact absurd hp (by simp)
  | @step passed r q hwalk hq ih =>
    rcases List.mem_cons.mp hp with rfl | hp
    · exact ⟨hwalk.reachedFrom, .single hq⟩
    · obtain ⟨hreached, hleads⟩ := ih hp
      exact ⟨hreached, hleads.tail hq⟩

/-- From a reached point that leads to another one a walk comes to it through the point. -/
theorem ReachedFrom.exists_walk_through {p q : Nat} (hp : net.ReachedFrom entries p)
    (h : net.LeadsTo p q) : ∃ passed, net.Walk entries passed q ∧ p ∈ passed := by
  -- The walk to `p` goes on along the way that leads from there.
  induction h with
  | single hq =>
    obtain ⟨passed, hwalk⟩ := hp.exists_walk
    exact ⟨p :: passed, hwalk.step hq, List.mem_cons_self⟩
  | @tail r q _ hq ih =>
    obtain ⟨passed, hwalk, hmem⟩ := ih
    exact ⟨r :: passed, hwalk.step hq, List.mem_cons_of_mem r hmem⟩

end Network

namespace Labels

/-- The text of a point names the given command. -/
def Names (name : String) (site : Site) : Prop :=
  name ≠ "" ∧ (Command.parse site.text).name = name

/-- After a command its own name is in the set, and every name that was there before. -/
theorem has_transfer_iff (name : String) (site : Site) (v : ItemSet String) :
    (labels.transfer site v).has name = true ↔ Names name site ∨ v.has name = true := by
  unfold Names
  simp only [labels, ItemSet.has_eq_true]
  by_cases hblank : (Command.parse site.text).name = ""
  · -- A text without a command adds nothing, and no name that counts is empty.
    have hnot : ¬ (name ≠ "" ∧ (Command.parse site.text).name = name) := by
      rintro ⟨hname, heq⟩
      exact hname (heq.symm.trans hblank)
    rw [if_pos hblank]
    exact (or_iff_right hnot).symm
  · rw [if_neg hblank, ItemSet.mem_insert]
    constructor
    · rintro (rfl | hv)
      · exact Or.inl ⟨hblank, rfl⟩
      · exact Or.inr hv
    · rintro (⟨-, rfl⟩ | hv)
      · exact Or.inl rfl
      · exact Or.inr hv

/-- A command brings its own name and lets all others pass. -/
theorem observes (name : String) :
    labels.Observes (fun _ => True) (fun v => v.has name = true) (Names name) (fun _ => True) where
  initial := trivial
  merge _ _ _ _ := trivial
  transfer _ _ _ := trivial
  merge_iff a b _ _ := by simp [labels]
  transfer_iff site v _ := by
    rw [has_transfer_iff, true_and]

/-- A name is seen on a walk if a point passed on it names the command. -/
theorem seenOn_iff (net : Network) (name : String) (passed : List Nat) :
    Engine.SeenOn net (labels.initial.has name = true) (Names name) (fun _ => True) passed ↔
      ∃ p ∈ passed, Names name (net.site p) := by
  -- Induction on the walk: every command passed lets the name through.
  induction passed with
  | nil => simp [Engine.SeenOn, labels, ItemSet.empty]
  | cons p passed ih =>
    rw [Engine.SeenOn, ih, true_and]
    simp

section Success

variable {net : Network} {entries : List Nat} {m : Memory (ItemSet String)} {cap : Nat}
  {c : Cancellation} {name : String}

/-- **The names collected are those of the commands on the ways to a point.** After a successful
run on an unused memory a name is in the set after a reached point exactly if it is not empty and
the text of some reached point from which the point can be reached names that command, and in the
set before it exactly if there is such a point at least one edge away. -/
theorem labels_exact (hnet : net.Built) (hunused : m.Unused)
    (hok : (Engine.run net labels cap c entries m).error? name = none) (n : Nat)
    (hn : net.ReachedFrom entries n) :
    ∃ before after,
      (Engine.run net labels cap c entries m).memory.input.get? n = some before ∧
      (Engine.run net labels cap c entries m).memory.current.get? n = some after ∧
      ∀ command,
        (after.has command = true ↔ command ≠ "" ∧ ∃ p, net.ReachedFrom entries p ∧
          net.Reaches p n ∧ (Command.parse (net.text p)).name = command) ∧
        (before.has command = true ↔ command ≠ "" ∧ ∃ p, net.ReachedFrom entries p ∧
          net.LeadsTo p n ∧ (Command.parse (net.text p)).name = command) := by
  have hequal : ∀ a b, labels.equal a b = true → a = b := fun a b h => of_decide_eq_true h
  obtain ⟨-, -, hinput, hcurrent⟩ := Engine.solved_of_error?_none hnet hequal hok hn
  refine ⟨_, _, hinput, hcurrent, fun command => ?_⟩
  -- Before the point: seen on a walk, that is at a point which is passed on the way.
  have hbefore : (Engine.inputAt net labels (decide (n ∈ entries))
      (Engine.run net labels cap c entries m).memory.current n).has command = true ↔
      command ≠ "" ∧ ∃ p, net.ReachedFrom entries p ∧ net.LeadsTo p n ∧
        (Command.parse (net.text p)).name = command := by
    obtain ⟨v, hv, -, hseen⟩ :=
      Engine.observed_input_iff hnet hequal hunused (observes command) hok hn
    obtain rfl := Option.some.inj (hinput.symm.trans hv)
    rw [hseen]
    simp only [seenOn_iff]
    constructor
    · rintro ⟨passed, hwalk, p, hp, hname, hnames⟩
      obtain ⟨hreached, hleads⟩ := hwalk.reached_and_leadsTo hp
      exact ⟨hname, p, hreached, hleads, hnames⟩
    · rintro ⟨hname, p, hreached, hleads, hnames⟩
      obtain ⟨passed, hwalk, hp⟩ := hreached.exists_walk_through hleads
      exact ⟨passed, hwalk, p, hp, hname, hnames⟩
  refine ⟨?_, hbefore⟩
  -- After the point: its own name comes on top of those.
  unfold Engine.outputAt
  rw [has_transfer_iff, hbefore]
  constructor
  · rintro (⟨hname, hnames⟩ | ⟨hname, p, hreached, hleads, hnames⟩)
    · -- The point's own command.
      exact ⟨hname, n, hn, .refl, hnames⟩
    · exact ⟨hname, p, hreached, hleads.to_reflTransGen, hnames⟩
  · rintro ⟨hname, p, hreached, hreaches, hnames⟩
    rcases Network.reaches_iff_eq_or_leadsTo.mp hreaches with rfl | hleads
    · -- The point reaches itself, so the name is its own.
      exact Or.inl ⟨hname, hnames⟩
    · exact Or.inr ⟨hname, p, hreached, hleads, hnames⟩

/-- Before the first command of a loop the name of the second one is collected, because the second
one leads back; the command after the exit does not. -/
theorem labels_exact_loopWithExit :
    Engine.loopWithExit.Built ∧ ({} : Memory (ItemSet String)).Unused ∧
      (Engine.run Engine.loopWithExit labels 20 none [0] {}).error? "labels" = none ∧
      Engine.loopWithExit.ReachedFrom [0] 0 ∧
      (∃ p, Engine.loopWithExit.ReachedFrom [0] p ∧ Engine.loopWithExit.LeadsTo p 0 ∧
        (Command.parse (Engine.loopWithExit.text p)).name = "rm") ∧
      ¬ ∃ p, Engine.loopWithExit.ReachedFrom [0] p ∧ Engine.loopWithExit.LeadsTo p 0 ∧
        (Command.parse (Engine.loopWithExit.text p)).name = "touch" := by
  have hok : (Engine.run Engine.loopWithExit labels 20 none [0] {}).error? "labels" = none := by
    decide +kernel
  have hbuilt : Engine.loopWithExit.Built := Engine.threeCommands_built _
  have hreached : Engine.loopWithExit.ReachedFrom [0] 0 := .of_mem List.mem_cons_self
  refine ⟨hbuilt, Memory.unused_empty, hok, hreached, ?_⟩
  obtain ⟨before, after, hinput, -, hexact⟩ :=
    labels_exact hbuilt Memory.unused_empty hok 0 hreached
  have hvalue : ((Engine.run Engine.loopWithExit labels 20 none [0] {}).memory.input.get? 0).map
      (fun v => (v.has "rm", v.has "touch")) = some (true, false) := by
    decide +kernel
  rw [hinput, Option.map_some, Option.some.injEq, Prod.mk.injEq] at hvalue
  obtain ⟨hrm, htouch⟩ := hvalue
  -- Neither set is computed again: membership tells where the names come from.
  refine ⟨((hexact "rm").2.mp hrm).2, fun h => ?_⟩
  have hseen := (hexact "touch").2.mpr ⟨by decide, h⟩
  rw [htouch] at hseen
  exact absurd hseen (by simp)

end Success

end Labels

end ScriptFlow
