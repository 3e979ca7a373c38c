import ScriptFlow.Dataflow.Engine

/-!
# Traces of a run

What a run tells about itself: its error if it has no fixed point to offer, the records it leaves
in a log, and the span it leaves in a trace. All three are functions of the outcome.
-/

namespace ScriptFlow

/-- A value in a log record or a span. -/
inductive Field
  | number (n : Nat)
  | text (s : String)
deriving DecidableEq, Repr

/-- How important a log record is. -/
inductive LogLevel
  | debug
  | error
deriving DecidableEq, Repr

/-- An entry of a log. -/
structure LogRecord where
  level : LogLevel
  message : String
  fields : List (String × Field)
deriving DecidableEq, Repr

/-- Something that happened during a span. -/
structure SpanEvent where
  name : String
  attributes : List (String × Field)
deriving DecidableEq, Repr

/-- The trace of one run. -/
structure Span where
  name : String
  attributes : List (String × Field)
  events : List SpanEvent
  /-- The description of the failure, if the span is marked as failed. -/
  failure : Option String
deriving DecidableEq, Repr

/-- Why a run has no fixed point to offer. -/
inductive RunError
  | cancelled
  | noFixedPoint (domain : String) (iterations flowPoints : Nat)
deriving DecidableEq, Repr

/-- The wording of a run error. -/
def RunError.message : RunError → String
  | cancelled => "context canceled"
  | noFixedPoint domain iterations flowPoints =>
    "domain " ++ domain ++ ": no fixed point within iteration limit (" ++ toString iterations ++
      " iterations over " ++ toString flowPoints ++ " flow points)"

namespace Outcome

variable {T : Type}

/-- The error of a run of the named domain. -/
def error? (o : Outcome T) (domain : String) : Option RunError :=
  match o.ending with
  | .idle | .fixedPoint => none
  | .cancelled => some .cancelled
  | .exhausted => some (.noFixedPoint domain o.iterations o.flowPoints)

/-- The counters of a successful run. -/
def counters (o : Outcome T) : List (String × Field) :=
  [("iterations", .number o.iterations), ("propagations", .number o.propagations),
    ("flow_points", .number o.flowPoints)]

/-- The log records of a run of the named domain. -/
def logs (o : Outcome T) (domain : String) : List LogRecord :=
  match o.ending with
  | .idle | .cancelled => []
  | .fixedPoint =>
    [⟨.debug, "Fixed point reached", ("domain", .text domain) :: o.counters⟩]
  | .exhausted =>
    [⟨.error, "Analysis did not converge",
      [("domain", .text domain), ("iterations", .number o.iterations),
        ("flow_points", .number o.flowPoints)]⟩]

/-- The events and the failure in the span of a run of the named domain. -/
def events (o : Outcome T) (domain : String) : List SpanEvent × Option String :=
  match o.ending with
  | .idle => ([], none)
  | .fixedPoint => ([⟨"fixed_point_reached", o.counters⟩], none)
  | .cancelled => ([⟨"context_cancelled", [("iterations", .number o.iterations)]⟩], none)
  | .exhausted =>
    ([⟨"exception", [("exception.message",
        .text (RunError.noFixedPoint domain o.iterations o.flowPoints).message)]⟩],
      some "no fixed point")

/-- The span of a run of the named domain from so many entries; a run without entries has none. -/
def span? (o : Outcome T) (domain : String) (entries : Nat) : Option Span :=
  match o.ending with
  | .idle => none
  | _ =>
    some
      { name := "dataflow.Engine.Run"
        attributes := [("domain", .text domain), ("entries", .number entries)]
        events := (o.events domain).1
        failure := (o.events domain).2 }

end Outcome

end ScriptFlow
