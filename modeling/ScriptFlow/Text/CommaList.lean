/-!
# Comma separated lists

One line of comma separated fields. A field that starts with a quote runs to the closing quote and
may hold commas and line ends, and a quote in it is written twice. A quote anywhere else is an
error. Empty lines before the list and everything after its line are ignored.
-/

namespace ScriptFlow.CommaList

/-- A list of characters with one kind of line end; a carriage return at the very end is
dropped. -/
def normalize : List Char → List Char
  | [] => []
  | ['\r'] => []
  | '\r' :: '\n' :: rest => '\n' :: normalize rest
  | c :: rest => c :: normalize rest

/-- Where in a field a reader stands. -/
inductive Position
  /-- Before its first character. -/
  | start
  /-- In a field without quotes. -/
  | plain
  /-- Between its quotes. -/
  | quoted
  /-- After a quote that may be the closing one. -/
  | closing

/-- The fields of a line. The accumulator holds the characters of the field being read, last
first. -/
def fields? : Position → List Char → List Char → Option (List String)
  | .quoted, _, [] => none
  | _, field, [] => some [String.ofList field.reverse]
  | .quoted, field, c :: rest =>
    if c = '"' then fields? .closing field rest else fields? .quoted (c :: field) rest
  | .closing, field, c :: rest =>
    if c = '"' then fields? .quoted ('"' :: field) rest
    else if c = ',' then (fields? .start [] rest).map (String.ofList field.reverse :: ·)
    else if c = '\n' then some [String.ofList field.reverse]
    else none
  | .start, field, c :: rest =>
    if c = '"' then fields? .quoted field rest
    else if c = ',' then (fields? .start [] rest).map (String.ofList field.reverse :: ·)
    else if c = '\n' then some [String.ofList field.reverse]
    else fields? .plain (c :: field) rest
  | .plain, field, c :: rest =>
    if c = '"' then none
    else if c = ',' then (fields? .start [] rest).map (String.ofList field.reverse :: ·)
    else if c = '\n' then some [String.ofList field.reverse]
    else fields? .plain (c :: field) rest

/-- Reads a list. The empty text is the empty list, and a text of empty lines is none. -/
def parse? (text : String) : Option (List String) :=
  if text = "" then some []
  else match (normalize text.toList).dropWhile (· = '\n') with
    | [] => none
    | cs => fields? .start [] cs

end ScriptFlow.CommaList
