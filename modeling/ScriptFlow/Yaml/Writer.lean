import ScriptFlow.Yaml.Resolve

/-!
# Writing text as YAML

A text is written as a plain scalar where that reads back as the same text. Text that would be
taken for something else is put in double quotes, text that collides with an indicator in single
quotes, and text of several lines becomes a literal block. Characters that cannot be shown need
double quotes.
-/

namespace ScriptFlow.Yaml

/-! ## What a text is made of -/

/-- Whether a character is shown as it is. -/
def isShown (c : Char) : Bool :=
  let n := c.toNat
  n == 0x0A || (0x20 ≤ n && n ≤ 0x7E) || (0xA0 ≤ n && n ≤ 0xFFFD && n != 0xFEFF)

/-- Neighbouring characters of a text. -/
def neighbours (cs : List Char) : List (Char × Char) :=
  cs.zip cs.tail

/-- Whether a line end directly follows a space. -/
def hasSpaceBreak (cs : List Char) : Bool :=
  (neighbours cs).any fun p => p.1 = ' ' && isBreak p.2

/-- Whether a space directly follows a line end. -/
def hasBreakSpace (cs : List Char) : Bool :=
  (neighbours cs).any fun p => isBreak p.1 && p.2 = ' '

/-- Whether a text holds a character that is neither shown nor a tab. -/
def hasHidden (cs : List Char) : Bool :=
  cs.any fun c => c ≠ '\t' && !isShown c

/-- Whether the first character keeps a text from being plain. -/
def startsWithIndicator : List Char → Bool
  | [] => false
  | c :: rest =>
    "#,[]\x7b\x7d&*!|>'\"%@`".toList.contains c ||
      ((c = '?' || c = ':' || c = '-') && (rest.isEmpty || blank? rest.head?))

/-- Whether a later character keeps a text from being plain: a colon before a blank or at the end,
or a number sign after a blank. -/
def hasIndicator : List Char → Bool
  | a :: b :: rest =>
    (b = ':' && (rest.isEmpty || blank? rest.head?)) ||
      (b = '#' && (isBlank a || isBreak a)) || hasIndicator (b :: rest)
  | _ => false

/-- Whether a text starts like a document marker. -/
def startsWithMarker (cs : List Char) : Bool :=
  cs.take 3 == ['-', '-', '-'] || cs.take 3 == ['.', '.', '.']

/-- Whether a plain scalar can hold a text, whatever it would mean. -/
def fitsPlain (cs : List Char) : Bool :=
  !(startsWithMarker cs || startsWithIndicator cs || hasIndicator cs || cs.any isBreak ||
    cs.contains '\t' || hasHidden cs || cs.head? = some ' ' || cs.getLast? = some ' ')

/-- Whether single quotes can hold a text. -/
def fitsSingle (cs : List Char) : Bool :=
  !(hasBreakSpace cs || hasSpaceBreak cs || cs.contains '\t' || hasHidden cs)

/-- Whether a literal block can hold a text. -/
def fitsBlock (cs : List Char) : Bool :=
  !(cs.getLast? = some ' ' || hasSpaceBreak cs || hasHidden cs)

/-- The words that older readers take for truth values. -/
def oldTruths : List String :=
  ["y", "Y", "yes", "Yes", "YES", "on", "On", "ON", "n", "N", "no", "No", "NO", "off", "Off", "OFF"]

/-- Whether the parts after a colon are minutes or seconds, the last one possibly with a
fraction. -/
def sixtieths : List (List Char) → Bool
  | [] => false
  | [part] =>
    let ds := part.takeWhile Char.isDigit
    let tail := part.drop ds.length
    let digits := ds.length == 1 || (ds.length == 2 && ds.head?.any (· ≤ '5'))
    digits && (tail.isEmpty ||
      (tail.head? = some '.' && (tail.drop 1).all fun c => c.isDigit || c = '_'))
  | part :: rest =>
    part.all Char.isDigit &&
      (part.length == 1 || (part.length == 2 && part.head?.any (· ≤ '5'))) && sixtieths rest

/-- The parts of a text between colons. -/
def colonParts : List Char → List (List Char)
  | [] => [[]]
  | c :: rest =>
    match colonParts rest with
    | [] => [[c]]
    | part :: more => if c = ':' then [] :: part :: more else (c :: part) :: more

/-- Whether older readers take a text for a number in base sixty. -/
def isSexagesimal (cs : List Char) : Bool :=
  match colonParts (splitSign cs).2 with
  | first :: rest =>
    first.head?.any Char.isDigit && (first.all fun c => c.isDigit || c = '_') && sixtieths rest
  | [] => false

/-- Whether a text reads back as text when it is written plain. -/
def readsAsText (s : String) : Bool :=
  meaningOf true s = .text && !isSexagesimal s.toList && !oldTruths.contains s

/-! ## The ways of writing -/

/-- The digit of a value below sixteen, in upper case. -/
def upperHexDigit (n : Nat) : Char :=
  if n < 10 then Char.ofNat (48 + n) else Char.ofNat (55 + n)

/-- The last `width` hexadecimal digits of a number, in upper case. -/
def upperHex : Nat → Nat → List Char
  | 0, _ => []
  | width + 1, n => upperHex width (n / 16) ++ [upperHexDigit (n % 16)]

/-- A character as an escape. -/
def escapeOf (c : Char) : List Char :=
  match c.toNat with
  | 0x00 => ['\\', '0']
  | 0x07 => ['\\', 'a']
  | 0x08 => ['\\', 'b']
  | 0x09 => ['\\', 't']
  | 0x0A => ['\\', 'n']
  | 0x0B => ['\\', 'v']
  | 0x0C => ['\\', 'f']
  | 0x0D => ['\\', 'r']
  | 0x1B => ['\\', 'e']
  | 0x22 => ['\\', '"']
  | 0x5C => ['\\', '\\']
  | 0x85 => ['\\', 'N']
  | 0xA0 => ['\\', '_']
  | 0x2028 => ['\\', 'L']
  | 0x2029 => ['\\', 'P']
  | n =>
    if n ≤ 0xFF then '\\' :: 'x' :: upperHex 2 n
    else if n ≤ 0xFFFF then '\\' :: 'u' :: upperHex 4 n
    else '\\' :: 'U' :: upperHex 8 n

/-- A text in double quotes. A text that starts with a byte order mark is written in escapes
throughout. -/
def doubleQuoted (cs : List Char) : List Char :=
  let all := cs.head? = some '\uFEFF'
  '"' :: (cs.flatMap fun c =>
    if all || !isShown c || isBreak c || c = '"' || c = '\\' then escapeOf c else [c]) ++ ['"']

/-- The characters of a text in single quotes; after a line end the next line is indented. -/
def singleQuotedFrom (indent : Nat) : Bool → List Char → List Char
  | _, [] => []
  | broken, c :: rest =>
    if c = ' ' then c :: singleQuotedFrom indent broken rest
    else if isBreak c then
      -- A single line end would be read as a space.
      (if c = '\n' && !broken then ['\n', '\n'] else [c]) ++ singleQuotedFrom indent true rest
    else
      (if broken then List.replicate indent ' ' else []) ++
        (if c = '\'' then ['\'', '\''] else [c]) ++ singleQuotedFrom indent false rest

/-- A text in single quotes. -/
def singleQuoted (indent : Nat) (cs : List Char) : List Char :=
  '\'' :: singleQuotedFrom indent false cs ++ ['\'']

/-- The lines of a literal block. -/
def blockFrom (indent : Nat) : Bool → List Char → List Char
  | _, [] => []
  | broken, c :: rest =>
    if isBreak c then c :: blockFrom indent true rest
    else (if broken then List.replicate indent ' ' else []) ++ c :: blockFrom indent false rest

/-- The indicators of a literal block: whether its indentation is given, and what happens to the
line ends behind it. -/
def blockHints (cs : List Char) : List Char :=
  (if cs.head? = some ' ' || break? cs.head? then ['4'] else []) ++
    (match cs.reverse with
      | [] => ['-']
      | [c] => if isBreak c then ['+'] else ['-']
      | c :: b :: _ => if !isBreak c then ['-'] else if isBreak b then ['+'] else [])

/-- A text as a literal block, up to the end of its last line. -/
def literalBlock (indent : Nat) (cs : List Char) : List Char :=
  let header := '|' :: blockHints cs
  let body := if break? cs.head? then blockFrom indent true cs else '\n' :: blockFrom indent true cs
  header ++ body ++ (if break? cs.getLast? then [] else ['\n'])

/-- A text as a value behind its key or dash, up to the end of the line. Further lines are indented
as given. -/
def writeText (indent : Nat) (s : String) : String :=
  let cs := s.toList
  let value :=
    if cs.contains '\n' then
      if fitsBlock cs then literalBlock indent cs else doubleQuoted cs ++ ['\n']
    else if !readsAsText s then doubleQuoted cs ++ ['\n']
    else if fitsPlain cs then cs ++ ['\n']
    else if fitsSingle cs then singleQuoted indent cs ++ ['\n']
    else doubleQuoted cs ++ ['\n']
  String.ofList (' ' :: value)

end ScriptFlow.Yaml
