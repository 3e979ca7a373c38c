import ScriptFlow.Text.Blank

/-!
# Durations

Spans of time as text: an optional sign and a row of terms, each a decimal number with a unit,
such as `1h15m30.5s`. A duration is a number of nanoseconds that fits a signed 64-bit word.
-/

namespace ScriptFlow.Duration

/-- The largest magnitude of a duration. -/
def bound : Nat := Nat.pow 2 63

/-- The number of nanoseconds in a unit. -/
def unitOf? (unit : List Char) : Option Nat :=
  [("ns", 1), ("us", 1000), ("\u00b5s", 1000), ("\u03bcs", 1000), ("ms", 1000000),
    ("s", 1000000000), ("m", 60000000000), ("h", 3600000000000)].lookup (String.ofList unit)

/-- Whether a character belongs to a number. -/
def isNumeral (c : Char) : Bool :=
  c.isDigit || c == '.'

/-- The value of a row of digits. -/
def digits (cs : List Char) : Nat :=
  cs.foldl (fun n c => 10 * n + (c.toNat - '0'.toNat)) 0

/-- The nanoseconds in a term, rounded down. The number has a digit, before or after its point. -/
def term? (number : List Char) (unit : Nat) : Option Nat :=
  match Text.splitAt '.' number with
  | [whole] =>
    if whole.isEmpty || bound < digits whole then none else some (digits whole * unit)
  | [whole, part] =>
    if (whole.isEmpty && part.isEmpty) || bound < digits whole then none
    else some (digits whole * unit + digits part * unit / Nat.pow 10 part.length)
  | _ => none

/-- The sum of a row of terms, given as its maximal runs of number characters and others. -/
def sum? : List (List Char) → Option Nat
  | [] => some 0
  | [_] => none
  | number :: unit :: rest => do
    if !number.all isNumeral then none
    let n ← term? number (← unitOf? unit)
    let total := n + (← sum? rest)
    if bound < total then none else some total

/-- The magnitude of a duration without its sign. A zero needs no unit. -/
def magnitude? (cs : List Char) : Option Nat :=
  if cs = ['0'] then some 0
  else if cs.isEmpty then none
  else sum? (cs.splitBy fun a b => isNumeral a == isNumeral b)

/-- Reads a duration. -/
def parse? (text : String) : Option Int :=
  match text.toList with
  | '-' :: rest => (magnitude? rest).map fun n => -(n : Int)
  | '+' :: rest => (magnitude? rest).bind fun n => if n < bound then some (n : Int) else none
  | cs => (magnitude? cs).bind fun n => if n < bound then some (n : Int) else none

end ScriptFlow.Duration
