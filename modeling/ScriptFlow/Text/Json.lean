import ScriptFlow.Text.Quoted

/-!
# JSON text

JSON values and the way they are written: two spaces of indentation per level, members in the order
given, and escapes for the characters that could be taken for markup or for a line end.
-/

namespace ScriptFlow

/-- A JSON value without fractions and truth values. -/
inductive Json
  | null
  | number (n : Int)
  | text (s : String)
  | array (items : List Json)
  | object (members : List (String × Json))
deriving Inhabited

namespace Json

/-- The way one character is written inside a JSON string. -/
def escapeChar (c : Char) : List Char :=
  match c with
  | '"' => ['\\', '"']
  | '\\' => ['\\', '\\']
  | '\x08' => ['\\', 'b']
  | '\x0c' => ['\\', 'f']
  | '\n' => ['\\', 'n']
  | '\x0d' => ['\\', 'r']
  | '\t' => ['\\', 't']
  | c =>
    if c.toNat < 0x20 || c = '<' || c = '>' || c = '&' || c.toNat == 0x2028 || c.toNat == 0x2029
    then '\\' :: 'u' :: Text.hexDigits 4 c.toNat
    else [c]

/-- A text as a JSON string. -/
def quote (s : String) : String :=
  String.ofList ('"' :: s.toList.flatMap escapeChar ++ ['"'])

/-- The start of a line at the given level. -/
def indent (level : Nat) : String :=
  String.ofList ('\n' :: List.replicate (2 * level) ' ')

mutual

/-- A value as text, for use at the given level. -/
def render (level : Nat) : Json → String
  | null => "null"
  | number n => toString n
  | text s => quote s
  | array [] => "[]"
  | array (item :: rest) =>
    "[" ++ indent (level + 1) ++ render (level + 1) item ++ renderItems (level + 1) rest ++
      indent level ++ "]"
  | object [] => "\x7b\x7d"
  | object ((key, value) :: rest) =>
    "\x7b" ++ indent (level + 1) ++ quote key ++ ": " ++ render (level + 1) value ++
      renderMembers (level + 1) rest ++ indent level ++ "\x7d"

/-- The items of an array after the first one. -/
def renderItems (level : Nat) : List Json → String
  | [] => ""
  | item :: rest => "," ++ indent level ++ render level item ++ renderItems level rest

/-- The members of an object after the first one. -/
def renderMembers (level : Nat) : List (String × Json) → String
  | [] => ""
  | (key, value) :: rest =>
    "," ++ indent level ++ quote key ++ ": " ++ render level value ++ renderMembers level rest

end

end Json

end ScriptFlow
