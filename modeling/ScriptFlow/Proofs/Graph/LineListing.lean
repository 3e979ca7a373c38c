import ScriptFlow.Graph.Listing
import ScriptFlow.Proofs.Dataflow.Interference
import ScriptFlow.Proofs.Text.Joined

/-!
# Line listings into a place that fails

A visit cannot end the traversal, so a line listing visits every point that can be reached, whatever
becomes of its writes. It keeps the result of the first write that fails, and all visits after that
leave the place alone. What the place has accepted is then a beginning of the whole listing.

Main statement: `listing_cut_at_first_failure`, for every place that accepts some number of writes
and fails on the next one.
-/

namespace ScriptFlow

/-! ## Places that fail -/

/-- A write that was attempted, and what came of it. -/
abbrev Attempt (ε : Type) := String × Except ε Unit

/-- The error of a write that failed. -/
def Attempt.error? {ε : Type} (a : Attempt ε) : Option ε :=
  match a.2 with
  | .ok () => none
  | .error e => some e

namespace Writer

variable {σ ε : Type}

/-- The place accepts `n` writes, whatever is written, and fails on the next one. -/
def FailsAfter (write : Writer σ ε) : Nat → σ → Prop
  | 0, s => ∀ piece, ∃ s' e, write s piece = (s', .error e)
  | n + 1, s => ∀ piece, ∃ s', write s piece = (s', .ok ()) ∧ FailsAfter write n s'

/-- The place with a record of all writes that are attempted on it. -/
def recorded (write : Writer σ ε) : Writer (σ × List (Attempt ε)) ε := fun s piece =>
  (((write s.1 piece).1, s.2 ++ [(piece, (write s.1 piece).2)]), (write s.1 piece).2)

end Writer

/-- A sink fails when it has no room left. -/
theorem Sink.failsAfter_room {n : Nat} {s : Sink} (h : s.room = some n) :
    Writer.FailsAfter Sink.write n s := by
  -- Induction on the room, which every accepted write takes one line of.
  induction n generalizing s with
  | zero =>
    intro piece
    exact ⟨{ s with attempts := s.attempts + 1 }, .full, by simp [Sink.write, h]⟩
  | succ n ih =>
    intro piece
    have hroom : (s.write piece).1.room = some n := by simp [Sink.write, h]
    exact ⟨(s.write piece).1, by simp [Sink.write, h], ih hroom⟩

/-! ## Lines written until one is refused -/

/-- What comes of writing lines into a place that accepts `n` writes: the attempts and the result.
This is the rule without a traversal. -/
inductive Written {ε : Type} : Nat → List String → List (Attempt ε) → Except ε Unit → Prop
  /-- There is nothing left to write. -/
  | done {n : Nat} : Written n [] [] (.ok ())
  /-- A line is accepted, and the others follow. -/
  | accepted {n : Nat} {line : String} {rest : List String} {attempts : List (Attempt ε)}
      {result : Except ε Unit} : Written n rest attempts result →
        Written (n + 1) (line :: rest) ((line, .ok ()) :: attempts) result
  /-- A line is refused, and the others are not tried. -/
  | refused {line : String} {rest : List String} {e : ε} :
      Written 0 (line :: rest) [(line, .error e)] (.error e)

namespace Written

variable {ε : Type} {n : Nat} {lines : List String} {attempts : List (Attempt ε)}
  {result : Except ε Unit}

/-- The attempts are the first lines, one more than are accepted. -/
theorem map_fst (h : Written n lines attempts result) :
    attempts.map Prod.fst = lines.take (n + 1) := by
  induction h with
  | done => rfl
  | accepted _ ih => rw [List.map_cons, ih, List.take_succ_cons]
  | refused => rfl

theorem filter_isOk (h : Written n lines attempts result) :
    (attempts.filter fun a => a.2.isOk).map Prod.fst = lines.take (min n lines.length) := by
  induction h with
  | done => simp
  | accepted _ ih =>
    rw [List.filter_cons_of_pos rfl, List.map_cons, ih, List.length_cons, Nat.succ_min_succ,
      List.take_succ_cons]
  | refused => simp [Except.isOk, Except.toBool]

/-- All lines are written exactly if there is room for them. -/
theorem eq_ok_iff (h : Written n lines attempts result) : result = .ok () ↔ lines.length ≤ n := by
  induction h with
  | done => simp
  | accepted _ ih => rw [ih, List.length_cons, Nat.succ_le_succ_iff]
  | refused => simp

/-- The error is that of the first attempt that failed. -/
theorem eq_error_iff (h : Written n lines attempts result) (e : ε) :
    result = .error e ↔ n < lines.length ∧ attempts.findSome? Attempt.error? = some e := by
  induction h with
  | done => simp
  | accepted _ ih =>
    rw [ih, List.length_cons, Nat.succ_lt_succ_iff, List.findSome?_cons]
    rfl
  | refused => simp [Attempt.error?]

end Written

/-! ## The visits of a listing -/

namespace Network

variable {σ ε : Type} (net : Network) (write : Writer σ ε)

/-- After a failure nothing is written. -/
theorem foldl_printPoint_error (points : List Nat) (s : σ) (e : ε) :
    points.foldl (net.printPoint write) (s, .error e) = (s, .error e) := by
  induction points with
  | nil => rfl
  | cons p rest ih => exact ih

/-- Keeping a record makes no difference to the place and to the result. -/
theorem foldl_printPoint_recorded (points : List Nat) (s : σ) (attempts : List (Attempt ε))
    (result : Except ε Unit) :
    let recorded := points.foldl (net.printPoint write.recorded) ((s, attempts), result)
    points.foldl (net.printPoint write) (s, result) = (recorded.1.1, recorded.2) := by
  induction points generalizing s attempts result with
  | nil => rfl
  | cons p rest ih =>
    cases result with
    | ok => exact ih _ _ _
    | error e => exact ih _ _ _

/-- The visits of points write their lines until one is refused. -/
theorem written_foldl_printPoint {n : Nat} {s : σ} (h : write.FailsAfter n s) (points : List Nat)
    (attempts : List (Attempt ε)) :
    let recorded := points.foldl (net.printPoint write.recorded) ((s, attempts), .ok ())
    ∃ new, recorded.1.2 = attempts ++ new ∧ Written n (points.map net.line) new recorded.2 := by
  -- On the points, for every place: each visit uses up one of the writes that are accepted.
  induction points generalizing n s attempts with
  | nil => exact ⟨[], by simp, .done⟩
  | cons p rest ih =>
    rw [List.foldl_cons, List.map_cons]
    cases n with
    -- No write is left, so the line of this point is refused.
    | zero =>
      obtain ⟨s', e, hrefused⟩ := h (net.line p)
      have hvisit : net.printPoint write.recorded ((s, attempts), .ok ()) p =
          ((s', attempts ++ [(net.line p, .error e)]), .error e) := by
        simp only [printPoint, Writer.recorded, hrefused]
      rw [hvisit, foldl_printPoint_error]
      exact ⟨[(net.line p, .error e)], rfl, .refused⟩
    | succ n =>
      -- The line is accepted, and the place accepts one write less from here on.
      obtain ⟨s', haccepted, hrest⟩ := h (net.line p)
      have hvisit : net.printPoint write.recorded ((s, attempts), .ok ()) p =
          ((s', attempts ++ [(net.line p, .ok ())]), .ok ()) := by
        simp only [printPoint, Writer.recorded, haccepted]
      obtain ⟨new, hnew, hwritten⟩ := ih hrest (attempts ++ [(net.line p, .ok ())])
      rw [hvisit]
      exact ⟨(net.line p, .ok ()) :: new, by simp [hnew], .accepted hwritten⟩

/-- A sink without a limit accepts every line. -/
theorem foldl_printPoint_unlimited (points : List Nat) {s : Sink} (h : s.room = none) :
    let listed := points.foldl (net.printPoint Sink.write) (s, .ok ())
    listed.1.accepted = s.accepted ++ points.map net.line ∧ listed.2 = .ok () := by
  -- Induction on the points: a sink without a limit stays one.
  induction points generalizing s with
  | nil => simp
  | cons p rest ih =>
    have hroom : (s.write (net.line p)).1.room = none := by simp [Sink.write, h]
    have hpiece : (s.write (net.line p)).1.accepted = s.accepted ++ [net.line p] := by
      simp [Sink.write, h]
    have hvisit : net.printPoint Sink.write (s, .ok ()) p =
        ((s.write (net.line p)).1, .ok ()) := by
      simp [printPoint, Sink.write, h]
    obtain ⟨haccepted, hresult⟩ := ih hroom
    rw [List.foldl_cons, hvisit]
    refine ⟨?_, hresult⟩
    rw [haccepted, hpiece, List.map_cons, List.append_assoc, List.singleton_append]

/-! ## Lines -/

theorem line_of_final {p : Nat} (h : net.outgoing p = []) :
    net.line p = net.text p ++ " => \x7b \x7d\n" := by
  simp [line, successors, h]

/-- The texts of the successors stand in the order of the edges, once for every edge. -/
theorem line_of_outgoing {p : Nat} {e : Edge} {rest : List Edge} (h : net.outgoing p = e :: rest) :
    net.line p = net.text p ++ " => \x7b " ++ net.text e.target ++
      String.join (rest.map fun e => ", " ++ net.text e.target) ++ " \x7d\n" := by
  simp only [line, successors, h, List.map_cons, Text.intercalate_comma, List.map_map,
    Function.comp_def, String.append_assoc]

end Network

namespace Workbench

variable {κ : Type} [DecidableEq κ] {V : κ → Type}

theorem network_perform (w : Workbench κ V) (a : Action κ V) :
    (w.perform a).network = w.network := by
  cases a with
  | run k d cap c entries => exact (untouched_run w k d cap c entries).network
  | _ => rfl

/-- Nothing that is done on a finished network changes it. -/
theorem network_performAll (w : Workbench κ V) (actions : List (Action κ V)) :
    (w.performAll actions).network = w.network := by
  induction actions generalizing w with
  | nil => rfl
  | cons a rest ih => exact (ih (w.perform a)).trans (network_perform w a)

/-- **A line listing is cut at the first write that fails.** Take any network and any root, and any
place that accepts `limit` writes and fails on the next one. The lines of the points that can be
reached, in the order of the traversal, are tried one after another up to the first one that is
refused, and none after it. Those that are accepted are the first `limit` lines of the listing
without a limit, or all of them if there are no more. The result is the error of the first write
that failed if there are more than `limit` points, and otherwise there is no error. A line has the
texts of the successors of its point in the order of the edges and as often as there are edges.

A listing is given the network and gives back the place, so it has no way to change a marker, a
value or an edge. Neither does it depend on markers and values: whatever is done on the workbench
in between, listing again gives the same. -/
theorem listing_cut_at_first_failure {σ ε : Type} (write : Writer σ ε) {limit : Nat} {s : σ}
    (hwrite : write.FailsAfter limit s) (w : Workbench κ V) (root : Nat) :
    let net := w.network
    let points := net.reachable root
    let lines := points.map net.line
    let call := net.printTo write.recorded root (s, [])
    let attempts := call.1.2
    net.printTo write root s = (call.1.1, call.2) ∧
      attempts.map Prod.fst = lines.take (limit + 1) ∧
      (attempts.filter fun a => a.2.isOk).map Prod.fst = lines.take (min limit points.length) ∧
      (∀ e, call.2 = .error e ↔
        limit < points.length ∧ attempts.findSome? Attempt.error? = some e) ∧
      (call.2 = .ok () ↔ points.length ≤ limit) ∧
      ((net.print root {}).1.accepted = lines ∧ (net.print root {}).2 = .ok ()) ∧
      (∀ p, (net.outgoing p = [] → net.line p = net.text p ++ " => \x7b \x7d\n") ∧
        ∀ e rest, net.outgoing p = e :: rest →
          net.line p = net.text p ++ " => \x7b " ++ net.text e.target ++
            String.join (rest.map fun e => ", " ++ net.text e.target) ++ " \x7d\n") ∧
      ∀ actions : List (Action κ V),
        (w.performAll actions).network.printTo write.recorded root (s, []) = call := by
  intro net points lines call attempts
  obtain ⟨new, hnew, hwritten⟩ := net.written_foldl_printPoint write hwrite points []
  -- The attempts of this call are those that the visits add to an empty record.
  obtain rfl : attempts = new := hnew
  have hlength : lines.length = points.length := List.length_map ..
  refine ⟨net.foldl_printPoint_recorded write points s [] (.ok ()), hwritten.map_fst, ?_, ?_, ?_,
    ?_, fun p => ⟨net.line_of_final, fun e rest => net.line_of_outgoing⟩, fun actions => ?_⟩
  · -- The accepted lines are counted by lines, which are as many as the points.
    rw [← hlength]
    exact hwritten.filter_isOk
  · rw [← hlength]
    exact hwritten.eq_error_iff
  · rw [← hlength]
    exact hwritten.eq_ok_iff
  · exact net.foldl_printPoint_unlimited points (s := {}) rfl
  · -- The call takes the network alone, and actions leave that as it is.
    rw [network_performAll]

/-! ## A loop with a double edge -/

/-- Two commands in a loop; two edges lead from the first one to the second. -/
def doubleEdge : Workbench Bool TwoKeys :=
  { network :=
      ((((Network.empty.newGraph.1.newPoint 0 "mkdir a").1.newPoint 0 "rm a").1.link 0 1).link 0
        1).link 1 0 }

/-- A sink with room for one line gets the first one, with both edges, and refuses the second. -/
theorem listing_cut_at_first_failure_doubleEdge :
    Writer.FailsAfter Sink.write 1 { room := some 1 } ∧
      (doubleEdge.network.print 0 { room := some 1 }).2 = .error .full ∧
      (((doubleEdge.network.printTo (Writer.recorded Sink.write) 0
          ({ room := some 1 }, [])).1.2.filter fun a => a.2.isOk).map Prod.fst) =
        ["mkdir a => \x7b rm a, rm a \x7d\n"] ∧
      (doubleEdge.network.printTo (Writer.recorded Sink.write) 0
          ({ room := some 1 }, [])).1.2.map Prod.fst =
        ["mkdir a => \x7b rm a, rm a \x7d\n", "rm a => \x7b mkdir a \x7d\n"] := by
  have hwrite : Writer.FailsAfter Sink.write 1 { room := some 1 } := Sink.failsAfter_room rfl
  have hpoints : doubleEdge.network.reachable 0 = [0, 1] := by decide +kernel
  have hlines : (doubleEdge.network.reachable 0).map doubleEdge.network.line =
      ["mkdir a => \x7b rm a, rm a \x7d\n", "rm a => \x7b mkdir a \x7d\n"] := by
    decide +kernel
  obtain ⟨hcall, htried, haccepted, -, hok, -⟩ :=
    listing_cut_at_first_failure Sink.write hwrite doubleEdge 0
  rw [hlines] at htried haccepted
  refine ⟨hwrite, ?_, ?_, htried⟩
  · -- There are two points, so the listing is not complete, and a sink has one error only.
    have hfailed := mt hok.mp (by rw [hpoints]; decide)
    rw [Network.print, hcall]
    generalize (doubleEdge.network.printTo _ 0 _).2 = result at hfailed
    cases result with
    | ok => exact absurd rfl hfailed
    | error e => rfl
  · rw [haccepted, hpoints]
    rfl

end Workbench

end ScriptFlow
