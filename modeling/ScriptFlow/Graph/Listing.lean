import ScriptFlow.Graph.Traversal

/-!
# Listings of a graph

The part of a network reachable from one point as text: one line per point with the texts of its
successors, or a description in the DOT language. Listings are written to a place that may fail;
the line listing makes one write per line until one of them fails, the DOT listing makes a single
write.
-/

namespace ScriptFlow

/-! ## Places text is written to -/

/-- What one write does to a place with states in `σ`: the state after it, and an error if the text
was not accepted. -/
abbrev Writer (σ ε : Type) := σ → String → σ × Except ε Unit

/-- A place that accepts a number of writes and then fails, or never fails. -/
structure Sink where
  /-- How many writes are still accepted; `none` if there is no limit. -/
  room : Option Nat := none
  /-- What was accepted, one piece per write. -/
  accepted : List String := []
  /-- How many writes were attempted. -/
  attempts : Nat := 0
deriving Inhabited

/-- Why a write failed. -/
inductive SinkError
  | full
deriving DecidableEq, Repr

/-- The wording of a write error. -/
def SinkError.message : SinkError → String
  | full => "write limit reached"

namespace Sink

/-- Everything that was accepted. -/
def text (s : Sink) : String :=
  String.join s.accepted

/-- One write. -/
def write (s : Sink) (piece : String) : Sink × Except SinkError Unit :=
  match s.room with
  | some 0 => ({ s with attempts := s.attempts + 1 }, .error .full)
  | room =>
    ({ room := room.map (· - 1)
       accepted := s.accepted ++ [piece]
       attempts := s.attempts + 1 }, .ok ())

end Sink

namespace Network

/-! ## Line listing -/

/-- The line of a point: its text and the texts of its successors. -/
def line (net : Network) (p : Nat) : String :=
  match net.successors p with
  | [] => net.text p ++ " => \x7b \x7d\n"
  | next =>
    net.text p ++ " => \x7b " ++ ", ".intercalate (next.map net.text) ++ " \x7d\n"

/-- The visit of one point by a line listing: its line is written, unless a write failed before. A
visit cannot end the traversal, so after a failure the later points are visited for nothing. -/
def printPoint {σ ε : Type} (net : Network) (write : Writer σ ε) :
    σ × Except ε Unit → Nat → σ × Except ε Unit
  | (s, .ok ()), p => write s (net.line p)
  | (s, .error e), _ => (s, .error e)

/-- Writes the line listing of all points reachable from `root`, one write per line. -/
def printTo {σ ε : Type} (net : Network) (write : Writer σ ε) (root : Nat) (s : σ) :
    σ × Except ε Unit :=
  (net.reachable root).foldl (net.printPoint write) (s, .ok ())

/-- Writes the line listing to a sink. -/
def print (net : Network) (root : Nat) (sink : Sink) : Sink × Except SinkError Unit :=
  net.printTo Sink.write root sink

/-! ## DOT listing -/

/-- The characters of a DOT string that stand for a text: quotes are escaped. -/
def dotEscape (cs : List Char) : List Char :=
  cs.flatMap fun c => if c = '"' then ['\\', '"'] else [c]

/-- The DOT label of a point. The id keeps points with equal texts apart. -/
def dotLabel (id : Nat) (text : String) : String :=
  "\"" ++ toString id ++ ": " ++ String.ofList (dotEscape text.toList) ++ "\""

/-- The DOT label of a point of a network. -/
def dotLabelOf (net : Network) (p : Nat) : String :=
  dotLabel (net.idOf p) (net.text p)

/-- A statement of a DOT listing. -/
inductive DotStatement
  | node (p : Nat)
  | edge (source target : Nat)
deriving DecidableEq, Repr

/-- The statements of a point: one per outgoing edge, or the point itself when no edge touches
it. -/
def dotStatements (net : Network) (p : Nat) : List DotStatement :=
  if (net.outgoing p).isEmpty && (net.incoming p).isEmpty then [.node p]
  else (net.outgoing p).map fun e => .edge p e.target

/-- A statement as a line of text. -/
def dotLine (net : Network) : DotStatement → String
  | .node p => "\t" ++ net.dotLabelOf p ++ "\n"
  | .edge p q => "\t" ++ net.dotLabelOf p ++ " -> " ++ net.dotLabelOf q ++ "\n"

/-- The DOT listing of the points reachable from `root`. -/
def dotText (net : Network) (root : Nat) : String :=
  "digraph mgraph \x7b\n\tmode=\"heir\";\n\tsplines=\"ortho\";\n\n" ++
    String.join (((net.reachable root).flatMap net.dotStatements).map net.dotLine) ++ "\x7d\n"

/-- Writes the DOT listing in one write. -/
def printDot (net : Network) (root : Nat) (sink : Sink) : Sink × Except SinkError Unit :=
  sink.write (net.dotText root)

end Network

end ScriptFlow
