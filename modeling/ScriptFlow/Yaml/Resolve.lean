import ScriptFlow.Yaml.Node
import ScriptFlow.Yaml.Number

/-!
# The meaning of scalars

A plain scalar may stand for nothing, a truth value, a number or a point in time; otherwise it is
text. Quoted and block scalars are text. A tag of the standard asks for one of these meanings, or
for bytes in base 64; any other tag leaves the text as it is.

All values are texts, so bytes are taken as the text they write. Bytes that write no text have no
value of their own: each stands as a replacement character, as it would where the value is shown.
-/

namespace ScriptFlow.Yaml

/-- What a scalar stands for. -/
inductive Meaning
  | null
  | truth
  | integer (n : Int)
  | floating (f : Floating)
  | time
  | merge
  | bytes (decoded : String)
  | text
deriving DecidableEq, Repr

/-- The tag of a meaning. -/
def Meaning.tag : Meaning → String
  | null => "!!null"
  | truth => "!!bool"
  | integer _ => "!!int"
  | floating _ => "!!float"
  | time => "!!timestamp"
  | merge => "!!merge"
  | bytes _ => "!!binary"
  | text => "!!str"

/-! ## Points in time -/

/-- Reads a number of one or two digits. -/
def shortNumber? : List Char → Option (Nat × List Char)
  | a :: b :: rest =>
    if a.isDigit then
      if b.isDigit then some (decimal [a, b], rest) else some (decimal [a], b :: rest)
    else none
  | [a] => if a.isDigit then some (decimal [a], []) else none
  | [] => none

/-- Reads a given character. -/
def expect? (c : Char) : List Char → Option (List Char)
  | d :: rest => if c = d then some rest else none
  | [] => none

/-- The number of days of a month. -/
def daysIn (year month : Nat) : Nat :=
  if month = 2 then
    if year % 4 = 0 ∧ (year % 100 ≠ 0 ∨ year % 400 = 0) then 29 else 28
  else if month = 4 ∨ month = 6 ∨ month = 9 ∨ month = 11 then 30
  else 31

/-- Reads a date: a year of four digits, a month and a day. -/
def date? (cs : List Char) : Option (List Char) := do
  let year := cs.takeWhile Char.isDigit
  if year.length ≠ 4 then none
  let (month, cs) ← shortNumber? (← expect? '-' (cs.drop 4))
  let (day, cs) ← shortNumber? (← expect? '-' cs)
  if 1 ≤ month ∧ month ≤ 12 ∧ 1 ≤ day ∧ day ≤ daysIn (decimal year) month then some cs else none

/-- Reads a time of day, with a fraction of a second if there is one. -/
def clock? (cs : List Char) : Option (List Char) := do
  let (hour, cs) ← shortNumber? cs
  let (minute, cs) ← shortNumber? (← expect? ':' cs)
  let (second, cs) ← shortNumber? (← expect? ':' cs)
  if hour < 24 ∧ minute < 60 ∧ second < 60 then
    match cs with
    | p :: d :: rest =>
      if (p = '.' || p = ',') && d.isDigit then some (rest.dropWhile Char.isDigit) else some cs
    | _ => some cs
  else none

/-- Reads a time zone: `Z`, or a sign, two digits, a colon and two digits. -/
def zone? : List Char → Option (List Char)
  | 'Z' :: rest => some rest
  | sign :: a :: b :: ':' :: c :: d :: rest =>
    if (sign = '+' || sign = '-') && [a, b, c, d].all Char.isDigit &&
        decide (decimal [a, b] ≤ 24) && decide (decimal [c, d] ≤ 60)
    then some rest else none
  | _ => none

/-- Whether a text is a point in time: a date, alone, or with a time of day behind a `T` and a time
zone, or with a time of day behind spaces. -/
def isTime (cs : List Char) : Bool :=
  match date? cs with
  | none => false
  | some [] => true
  | some (c :: rest) =>
    if c = 'T' || c = 't' then ((clock? rest).bind zone?) == some []
    else if c = ' ' then clock? (rest.dropWhile (· = ' ')) == some []
    else false

/-! ## Plain scalars -/

/-- The words with a meaning of their own. -/
def word? (s : String) : Option Meaning :=
  if ["true", "True", "TRUE", "false", "False", "FALSE"].contains s then some .truth
  else if ["", "~", "null", "Null", "NULL"].contains s then some .null
  else if [".nan", ".NaN", ".NAN"].contains s then some (.floating .undefined)
  else if [".inf", ".Inf", ".INF", "+.inf", "+.Inf", "+.INF"].contains s then
    some (.floating (.infinite false))
  else if ["-.inf", "-.Inf", "-.INF"].contains s then some (.floating (.infinite true))
  else if s = "<<" then some .merge
  else none

/-- The meaning of a text that starts with a digit or a sign. -/
def number? (cs : List Char) : Option Meaning :=
  -- Underscores may stand anywhere in a number.
  let plain := cs.filter (· ≠ '_')
  match integer? plain with
  | some n => some (.integer n)
  | none => (fraction? plain).map .floating

/-- The meaning of a plain scalar. Points in time are told apart from text only if `times` is
set. -/
def meaningOf (times : Bool) (s : String) : Meaning :=
  match word? s with
  | some m => m
  | none =>
    let cs := s.toList
    match cs.head? with
    | none => .null
    | some c =>
      if c.isDigit || c = '+' || c = '-' then
        if times && isTime cs then .time else (number? cs).getD .text
      else if c = '.' then
        if underscoresOk cs then
          match fraction? (cs.filter (· ≠ '_')) with
          | some f => .floating f
          | none => .text
        else .text
      else .text

/-! ## Base 64 -/

namespace Base64

/-- The value of a character. -/
def digit? (c : Char) : Option Nat :=
  let n := c.toNat
  if 'A' ≤ c ∧ c ≤ 'Z' then some (n - 'A'.toNat)
  else if 'a' ≤ c ∧ c ≤ 'z' then some (n - 'a'.toNat + 26)
  else if '0' ≤ c ∧ c ≤ '9' then some (n - '0'.toNat + 52)
  else if c = '+' then some 62
  else if c = '/' then some 63
  else none

/-- The bytes written by the characters of a text: four characters for each three bytes, the last
group filled up with equals signs. -/
def groups? : List Char → Option (List UInt8)
  | [] => some []
  | [a, b, '=', '='] => do
    let n := (← digit? a) * 64 + (← digit? b)
    return [(n / 16).toUInt8]
  | [a, b, c, '='] => do
    let n := ((← digit? a) * 64 + (← digit? b)) * 64 + (← digit? c)
    return [(n / 1024).toUInt8, (n / 4).toUInt8]
  | a :: b :: c :: d :: rest => do
    let n := (((← digit? a) * 64 + (← digit? b)) * 64 + (← digit? c)) * 64 + (← digit? d)
    return (n / 65536).toUInt8 :: (n / 256).toUInt8 :: n.toUInt8 :: (← groups? rest)
  | _ => none

/-- The characters written by bytes, with a replacement character for each byte that begins none.
The second argument is the number of bytes that belong to the character read last. -/
def characters : Nat → List UInt8 → List Char
  | _, [] => []
  | read + 1, _ :: rest => characters read rest
  | 0, b :: rest =>
    match ByteArray.utf8DecodeChar? ⟨((b :: rest).take 4).toArray⟩ 0 with
    | some c => c :: characters (c.utf8Size - 1) rest
    | none => '\uFFFD' :: characters 0 rest

/-- The text whose bytes are written in base 64; line ends in between are ignored. -/
def decode? (text : String) : Option String :=
  (groups? (text.toList.filter fun c => c ≠ '\n' && c ≠ '\r')).map fun bytes =>
    String.ofList (characters 0 bytes)

end Base64

/-! ## Scalars -/

/-- The tag a scalar has in the end: the one given, or that of its meaning. -/
def scalarTag (tag text : String) (style : ScalarStyle) : String :=
  if tag ≠ "" ∧ tag ≠ "!" then tag
  else if style = .plain then (meaningOf true text).tag
  else Meaning.text.tag

/-- The tags that ask for a meaning other than text. -/
def askingTags : List String := ["!!null", "!!bool", "!!int", "!!float", "!!timestamp"]

/-- What a scalar stands for, given its tag in the end. A tag that does not fit the text is an
error, except that an integer may be asked for as a fraction. -/
def scalarMeaning (tag text : String) : Except Problem Meaning :=
  if tag = "!!binary" then
    match Base64.decode? text with
    | none => .error .badTaggedValue
    | some decoded => .ok (.bytes decoded)
  else if !askingTags.contains tag then .ok .text
  else
    let m := meaningOf (tag = Meaning.time.tag) text
    if m.tag = tag then .ok m
    else match m with
      | .integer n => if tag = "!!float" then .ok (.floating (.whole n)) else .error .badTaggedValue
      | _ => .error .badTaggedValue

end ScriptFlow.Yaml
