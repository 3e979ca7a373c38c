import ScriptFlow.Dataflow.Workbench
import ScriptFlow.Domains
import ScriptFlow.Proofs.Dataflow.Rerun
import Mathlib.Data.List.Forall2

/-!
# Analyses on one workbench do not interfere

Analyses that share a workbench share its analyzed markers, and a run reads them. It reads the
marker of a point only after it removed it, though, so no run can tell what the markers were before.
Values are kept apart by their keys.

Two workbenches are the `SameUnder` a key if they have the same network and the same values under
that key. Actions that are no run of the key keep a workbench the same, and runs of the key take
workbenches that are the same to workbenches that are the same, with results that agree.

Main statement: `keys_do_not_interfere`.
-/

namespace ScriptFlow

namespace Workbench

variable {κ : Type} [DecidableEq κ] {V : κ → Type} {w w' : Workbench κ V} {k : κ}

/-! ## Values under a key -/

/-- The values stored last under a key are found there. -/
@[simp] theorem slots_setSlots_self (w : Workbench κ V) (k : κ) (s : Slots (V k)) :
    (w.setSlots k s).slots k = s := by
  simp [setSlots]

/-- Storing values under one key leaves every other key as it was. -/
theorem slots_setSlots_of_ne (w : Workbench κ V) {j k : κ} (h : j ≠ k) (s : Slots (V k)) :
    (w.setSlots k s).slots j = w.slots j := by
  simp [setSlots, h]

/-! ## What a run leaves alone -/

/-- What a run under key `k` leaves as it was: the network, the visited markers and the values under
all other keys everywhere, and on points that cannot be reached from its entries also the values
under its own key and the analyzed marker. -/
structure Untouched (k : κ) (entries : List Nat) (w w' : Workbench κ V) : Prop where
  network : w'.network = w.network
  visited : w'.visited = w.visited
  others : ∀ j, j ≠ k → w'.slots j = w.slots j
  current : ∀ p, ¬ w.network.ReachedFrom entries p →
    (w'.slots k).current.get? p = (w.slots k).current.get? p
  input : ∀ p, ¬ w.network.ReachedFrom entries p →
    (w'.slots k).input.get? p = (w.slots k).input.get? p
  analyzed : ∀ p, ¬ w.network.ReachedFrom entries p →
    w'.analyzed.contains p = w.analyzed.contains p

/-- The values under the key of a run are those its engine leaves. -/
theorem slots_run (w : Workbench κ V) (k : κ) (d : Domain (V k)) (cap : Nat) (c : Cancellation)
    (entries : List Nat) :
    (w.run k d cap c entries).1.slots k = (w.run k d cap c entries).2.memory.toSlots :=
  slots_setSlots_self _ _ _

/-- A run leaves everything alone that `Untouched` lists, however it ends. -/
theorem untouched_run (w : Workbench κ V) (k : κ) (d : Domain (V k)) (cap : Nat)
    (c : Cancellation) (entries : List Nat) :
    Untouched k entries w (w.run k d cap c entries).1 := by
  -- The engine says what a run does to unreached points; the workbench adds the other keys.
  have houtside : ∀ p, ¬ w.network.ReachedFrom entries p → _ := fun p hp =>
    Engine.run_of_not_reached (d := d) (m := ⟨w.slots k, w.analyzed⟩) hp cap c
  refine ⟨rfl, rfl, ?_, ?_, ?_, ?_⟩
  · intro j hj
    exact slots_setSlots_of_ne w hj _
  · intro p hp
    rw [slots_run]
    exact (houtside p hp).1
  · intro p hp
    rw [slots_run]
    exact (houtside p hp).2.1
  · intro p hp
    exact (houtside p hp).2.2

/-! ## Actions -/

/-- One use of a workbench whose network is finished. -/
inductive Action (κ : Type) (V : κ → Type)
  | run (k : κ) (d : Domain (V k)) (cap : Nat) (c : Cancellation) (entries : List Nat)
  | markAnalyzed (p : Nat) (on : Bool)
  | markVisited (p : Nat) (on : Bool)
  | reset (root : Nat)
  | setCurrent (k : κ) (p : Nat) (v : V k)
  | setInput (k : κ) (p : Nat) (v : V k)
  | clear (k : κ) (p : Nat)

namespace Action

/-- Whether an action is a run of a domain stored under key `k`. -/
def isRunOf (k : κ) : Action κ V → Bool
  | run j .. => decide (j = k)
  | _ => false

/-- An action that stores or drops no value under key `k`, unless it runs a domain. -/
def Spares (k : κ) : Action κ V → Prop
  | setCurrent j .. | setInput j .. | clear j _ => j ≠ k
  | _ => True

end Action

/-- The workbench after an action. -/
def perform (w : Workbench κ V) : Action κ V → Workbench κ V
  | .run k d cap c entries => (w.run k d cap c entries).1
  | .markAnalyzed p on => w.markAnalyzed p on
  | .markVisited p on => w.markVisited p on
  | .reset root => w.reset root
  | .setCurrent k p v => w.setCurrent k p v
  | .setInput k p v => w.setInput k p v
  | .clear k p => w.clear k p

/-- The workbench after a list of actions. -/
def performAll (w : Workbench κ V) (actions : List (Action κ V)) : Workbench κ V :=
  actions.foldl perform w

/-- The result of an action that runs a domain stored under key `k`. -/
def outcome? (w : Workbench κ V) (k : κ) : Action κ V → Option (Outcome (V k))
  | .run j d cap c entries =>
    if h : j = k then some (h ▸ (w.run j d cap c entries).2) else none
  | _ => none

/-- The results of all runs under key `k`, in order. -/
def outcomes (k : κ) : Workbench κ V → List (Action κ V) → List (Outcome (V k))
  | _, [] => []
  | w, a :: rest => (w.outcome? k a).toList ++ outcomes k (w.perform a) rest

/-! ## What an observer of one key sees -/

/-- The workbenches have the same network and hold the same values under key `k`. -/
structure SameUnder (k : κ) (w w' : Workbench κ V) : Prop where
  network : w.network = w'.network
  current : ∀ p, (w.slots k).current.get? p = (w'.slots k).current.get? p
  input : ∀ p, (w.slots k).input.get? p = (w'.slots k).input.get? p

omit [DecidableEq κ] in
theorem SameUnder.refl (k : κ) (w : Workbench κ V) : SameUnder k w w :=
  ⟨rfl, fun _ => rfl, fun _ => rfl⟩

omit [DecidableEq κ] in
theorem SameUnder.trans {w'' : Workbench κ V} (h : SameUnder k w w') (h' : SameUnder k w' w'') :
    SameUnder k w w'' where
  network := h.network.trans h'.network
  current p := (h.current p).trans (h'.current p)
  input p := (h.input p).trans (h'.input p)

omit [DecidableEq κ] in
theorem SameUnder.of_slots_eq (hnetwork : w.network = w'.network)
    (hslots : w.slots k = w'.slots k) :
    SameUnder k w w' :=
  ⟨hnetwork, fun p => by rw [hslots], fun p => by rw [hslots]⟩

/-- What is stored under another key is not seen. -/
theorem sameUnder_setSlots (w : Workbench κ V) {j : κ} (h : j ≠ k) (s : Slots (V j)) :
    SameUnder k (w.setSlots j s) w :=
  .of_slots_eq rfl (slots_setSlots_of_ne w (Ne.symm h) s)

/-- An action that is no run under the key is not seen. -/
theorem sameUnder_perform (w : Workbench κ V) {a : Action κ V} (hspare : a.Spares k)
    (hrun : a.isRunOf k = false) : SameUnder k (w.perform a) w := by
  cases a with
  | run j d cap c entries =>
    -- The run belongs to another key, and those values are not looked at.
    have hne : j ≠ k := by simpa [Action.isRunOf] using hrun
    have huntouched := untouched_run w j d cap c entries
    exact .of_slots_eq huntouched.network (huntouched.others k (Ne.symm hne))
  | markAnalyzed p on => exact .of_slots_eq rfl rfl
  | markVisited p on => exact .of_slots_eq rfl rfl
  | reset root => exact .of_slots_eq rfl rfl
  | setCurrent j p v => exact sameUnder_setSlots w hspare _
  | setInput j p v => exact sameUnder_setSlots w hspare _
  | clear j p => exact sameUnder_setSlots w hspare _

/-- Runs under the key see no difference between workbenches that are the same under it, whatever
the analyzed markers are. -/
theorem SameUnder.agree_run (h : SameUnder k w w') (d : Domain (V k)) (cap : Nat)
    (c : Cancellation) (entries : List Nat) :
    Engine.Agree (fun _ => True) (w.run k d cap c entries).2 (w'.run k d cap c entries).2 := by
  -- Predecessors of reached points hold the same values in both, whether they are reached or not.
  have haround : Engine.SameAround w.network entries
      ⟨w.slots k, w.analyzed⟩ ⟨w'.slots k, w'.analyzed⟩ :=
    fun _ p _ _ _ => h.current p
  have hagree := Engine.agree_of_sameAround haround d cap c
  have hrun : (w'.run k d cap c entries).2 =
      Engine.run w.network d cap c entries ⟨w'.slots k, w'.analyzed⟩ := by
    rw [h.network]
    rfl
  rw [hrun]
  refine ⟨hagree.iterations, hagree.propagations, hagree.flowPoints, hagree.error, ?_, ?_⟩
  · -- Reached points get the same values, and on the others both runs keep what was there.
    intro p _
    by_cases hp : w.network.ReachedFrom entries p
    · exact hagree.current p hp
    · exact ((Engine.run_of_not_reached hp cap c).1.trans (h.current p)).trans
        (Engine.run_of_not_reached hp cap c).1.symm
  · -- The values before a point, in the same way.
    intro p _
    by_cases hp : w.network.ReachedFrom entries p
    · exact hagree.input p hp
    · exact ((Engine.run_of_not_reached hp cap c).2.1.trans (h.input p)).trans
        (Engine.run_of_not_reached hp cap c).2.1.symm

/-- Runs under the key keep workbenches the same under it. -/
theorem SameUnder.run (h : SameUnder k w w') (d : Domain (V k)) (cap : Nat) (c : Cancellation)
    (entries : List Nat) :
    SameUnder k (w.run k d cap c entries).1 (w'.run k d cap c entries).1 := by
  have hagree := h.agree_run d cap c entries
  refine ⟨h.network, ?_, ?_⟩
  · intro p
    rw [slots_run, slots_run]
    exact hagree.current p trivial
  · intro p
    rw [slots_run, slots_run]
    exact hagree.input p trivial

/-- An action that runs no domain under the key has no result for it. -/
theorem outcome?_of_not_run (w : Workbench κ V) {a : Action κ V} (h : a.isRunOf k = false) :
    w.outcome? k a = none := by
  cases a with
  | run j d cap c entries => simpa [outcome?, Action.isRunOf] using h
  | _ => rfl

/-- **The run lemma**: after all actions, and after the runs under the key alone, an observer of the
key sees the same and has seen the same results. -/
theorem SameUnder.performAll (h : SameUnder k w w') {actions : List (Action κ V)}
    (hspare : ∀ a ∈ actions, a.Spares k) :
    List.Forall₂ (Engine.Agree fun _ => True) (outcomes k w actions)
        (outcomes k w' (actions.filter (·.isRunOf k))) ∧
      SameUnder k (w.performAll actions) (w'.performAll (actions.filter (·.isRunOf k))) := by
  -- Induction on the actions, for every pair of workbenches that are the same under the key.
  induction actions generalizing w w' with
  | nil => exact ⟨.nil, h⟩
  | cons a rest ih =>
    have hrest : ∀ b ∈ rest, b.Spares k := fun b hb => hspare b (List.mem_cons_of_mem a hb)
    cases hrun : a.isRunOf k with
    | false =>
      -- The action is left out on the right, and on the left it changes nothing that is seen.
      have hsame := (sameUnder_perform w (hspare a List.mem_cons_self) hrun).trans h
      rw [List.filter_cons_of_neg (by simp [hrun])]
      show List.Forall₂ _ ((w.outcome? k a).toList ++ _) _ ∧ _
      rw [outcome?_of_not_run w hrun]
      exact ih hsame hrest
    | true =>
      -- A run under the key is done on both sides, and its results agree.
      rw [List.filter_cons_of_pos hrun]
      cases a with
      | run j d cap c entries =>
        -- The keys are the same, so the result can be read without a cast.
        obtain rfl : j = k := by simpa [Action.isRunOf] using hrun
        obtain ⟨hresults, hsame⟩ := ih (h.run d cap c entries) hrest
        have hagree := h.agree_run d cap c entries
        refine ⟨?_, hsame⟩
        simp only [outcomes, outcome?, dif_pos, Option.toList_some, List.singleton_append]
        exact .cons hagree hresults
      | _ => cases hrun

/-- **Analyses under different keys do not interfere.** Whatever is done on a workbench beside
storing values under key `k` by hand, the runs under that key give the same results and errors and
leave the same values as if they were the only thing done. And a run, however it ends, leaves
everything else untouched. -/
theorem keys_do_not_interfere (w : Workbench κ V) (k : κ) (actions : List (Action κ V))
    (hspare : ∀ a ∈ actions, a.Spares k) :
    (List.Forall₂ (Engine.Agree fun _ => True) (w.outcomes k actions)
        (w.outcomes k (actions.filter (·.isRunOf k))) ∧
      SameUnder k (w.performAll actions) (w.performAll (actions.filter (·.isRunOf k)))) ∧
      ∀ (j : κ) (d : Domain (V j)) (cap : Nat) (c : Cancellation) (entries : List Nat),
        Untouched j entries w (w.run j d cap c entries).1 :=
  ⟨(SameUnder.refl k w).performAll hspare, untouched_run w⟩

/-! ## Two analyses that take turns -/

/-- Names are stored under one key, reachability under the other. -/
def TwoKeys : Bool → Type
  | true => ItemSet String
  | false => Bool

/-- Two ways that meet, with nothing stored yet. -/
def twoWays : Workbench Bool TwoKeys :=
  { network := Engine.confluence }

/-- Names are collected from one end and then from the other. In between, markers are set and
removed, a value is stored and a run of the other analysis is cut short. -/
def takingTurns : List (Action Bool TwoKeys) :=
  [.run true labels 10 none [2], .markAnalyzed 1 true, .setCurrent false 0 true,
    .run false reachability 1 none [0, 2], .reset 0, .run true labels 10 none [0]]

/-- The runs of the names give the same with the other actions between them and without. -/
theorem keys_do_not_interfere_takingTurns :
    (∀ a ∈ takingTurns, a.Spares true) ∧
      ((twoWays.run false reachability 1 none [0, 2]).2.ending = .exhausted) ∧
      (twoWays.outcomes true takingTurns).length = 2 ∧
      List.Forall₂ (Engine.Agree fun _ => True) (twoWays.outcomes true takingTurns)
        (twoWays.outcomes true [.run true labels 10 none [2], .run true labels 10 none [0]]) ∧
      SameUnder true (twoWays.performAll takingTurns)
        (twoWays.performAll [.run true labels 10 none [2], .run true labels 10 none [0]]) := by
  have hspare : ∀ a ∈ takingTurns, a.Spares true := by
    simp [takingTurns, Action.Spares]
  obtain ⟨⟨hresults, hsame⟩, -⟩ := keys_do_not_interfere twoWays true takingTurns hspare
  exact ⟨hspare, by decide +kernel, rfl, hresults, hsame⟩

end Workbench

end ScriptFlow
