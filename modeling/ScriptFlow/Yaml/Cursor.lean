/-!
# Positions in YAML text

The classes of characters that YAML tells apart, and a cursor that moves through a text while it
counts lines and columns. The end of the text counts as a blank where a blank ends something.
-/

namespace ScriptFlow.Yaml

/-! ## Character classes -/

/-- A space or a tab. -/
def isBlank (c : Char) : Bool :=
  c = ' ' || c = '\t'

/-- The characters that end a line. -/
def isBreak (c : Char) : Bool :=
  c = '\n' || c = '\x0d' || c.toNat == 0x85 || c.toNat == 0x2028 || c.toNat == 0x2029

/-- A letter, a digit, an underscore or a dash. -/
def isWord (c : Char) : Bool :=
  c.isAlphanum || c = '_' || c = '-'

/-- The brackets and the comma of flow collections. -/
def isFlowIndicator (c : Char) : Bool :=
  c = ',' || c = '[' || c = ']' || c = '\x7b' || c = '\x7d'

/-- The characters that may stand in a YAML text. -/
def isAllowed (c : Char) : Bool :=
  let n := c.toNat
  n == 9 || n == 10 || n == 13 || (0x20 ≤ n && n ≤ 0x7E) || n == 0x85 ||
    (0xA0 ≤ n && n ≤ 0xD7FF) || (0xE000 ≤ n && n ≤ 0xFFFD) || 0x10000 ≤ n

/-- Whether a possible character is a blank. -/
def blank? (c : Option Char) : Bool :=
  c.any isBlank

/-- Whether a possible character is a line end. -/
def break? (c : Option Char) : Bool :=
  c.any isBreak

/-- Whether a possible character ends a line: a line end, or no character. -/
def breakOrEnd? : Option Char → Bool
  | none => true
  | some c => isBreak c

/-- Whether a possible character ends a word: a blank, a line end, or no character. -/
def blankOrEnd? : Option Char → Bool
  | none => true
  | some c => isBlank c || isBreak c

/-! ## Cursors -/

/-- A place in a text. -/
structure Cursor where
  /-- The text from this place on. -/
  rest : List Char
  /-- The number of characters before this place. -/
  index : Nat := 0
  /-- The number of lines before this one. -/
  line : Nat := 0
  /-- The number of characters before this place in its line. -/
  column : Nat := 0
deriving Inhabited

namespace Cursor

/-- The character at the cursor. -/
def head? (c : Cursor) : Option Char :=
  c.rest.head?

/-- The character `n` places after the cursor. -/
def ahead? (c : Cursor) (n : Nat) : Option Char :=
  c.rest[n]?

/-- Moves over `n` characters of the same line. -/
def skip (c : Cursor) (n : Nat) : Cursor :=
  { c with rest := c.rest.drop n, index := c.index + n, column := c.column + n }

/-- Moves over a line end; a carriage return with a line feed is one. Elsewhere nothing happens. -/
def skipLine (c : Cursor) : Cursor :=
  match c.rest with
  | '\x0d' :: '\n' :: rest => ⟨rest, c.index + 2, c.line + 1, 0⟩
  | b :: rest => if isBreak b then ⟨rest, c.index + 1, c.line + 1, 0⟩ else c
  | [] => c

/-- The text a line end stands for: the two Unicode separators for themselves, all others for a
line feed. -/
def lineEnd (c : Cursor) : List Char :=
  match c.rest with
  | b :: _ =>
    if isBreak b then if b.toNat == 0x2028 || b.toNat == 0x2029 then [b] else ['\n'] else []
  | [] => []

/-- Moves over the characters up to the first that fails a test; none of them may end a line. -/
def skipWhile (c : Cursor) (test : Char → Bool) : Cursor :=
  c.skip (c.rest.takeWhile test).length

/-- Moves to the end of the line. -/
def skipToBreak (c : Cursor) : Cursor :=
  c.skipWhile fun ch => !isBreak ch

/-- Whether a document marker of the given character stands at the cursor: three of them at the
start of a line, followed by a blank. -/
def atMarker (c : Cursor) (ch : Char) : Bool :=
  c.column == 0 && c.rest.take 3 == [ch, ch, ch] && blankOrEnd? (c.ahead? 3)

/-- Whether a document starts or ends at the cursor. -/
def atDocumentMarker (c : Cursor) : Bool :=
  c.atMarker '-' || c.atMarker '.'

end Cursor

end ScriptFlow.Yaml
