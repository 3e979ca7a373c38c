import ScriptFlow.Yaml.Token

/-!
# Scalars of YAML text

Reads the three kinds of scalars: plain ones, which end at the first indicator, quoted ones, and
block scalars, whose indentation marks their extent. Lines of a plain, quoted or folded scalar are
joined: a single line end becomes a space, of several the first one is dropped.
-/

namespace ScriptFlow.Yaml

/-- The line ends between two lines of a scalar, as far as they are read. -/
structure Fold where
  /-- The first line end; empty if no line ended yet. -/
  first : List Char := []
  /-- The line ends after the first one. -/
  more : List Char := []
deriving Inhabited

/-- The text that joins two lines. -/
def Fold.text (f : Fold) : List Char :=
  if f.first.head? = some '\n' then if f.more.isEmpty then [' '] else f.more
  else f.first ++ f.more

/-- A scalar that was read: its text and the place after it. The flag tells whether its end was
found only on a later line. -/
structure ScalarEnd where
  text : List Char
  cursor : Cursor
  broken : Bool := false

/-! ## Blanks between words -/

/-- The blanks and line ends after a word: blanks before the first line end, the line ends, and
whether there was any. `indent` is the column below which no tab may stand at the start of a
line. -/
def gapAfter (indent : Nat) :
    Nat → Cursor → List Char → Option Fold → Except Problem (Cursor × List Char × Option Fold)
  | 0, c, blanks, fold => .ok (c, blanks, fold)
  | fuel + 1, c, blanks, fold =>
    match c.head? with
    | none => .ok (c, blanks, fold)
    | some ch =>
      if isBlank ch then
        match fold with
        | none => gapAfter indent fuel (c.skip 1) (blanks ++ [ch]) none
        | some f =>
          if ch = '\t' && decide (c.column < indent) then .error .tabInIndentation
          else gapAfter indent fuel (c.skip 1) blanks (some f)
      else if isBreak ch then
        let fold :=
          match fold with
          | none => { first := c.lineEnd }
          | some f => { f with more := f.more ++ c.lineEnd }
        gapAfter indent fuel c.skipLine blanks (some fold)
      else .ok (c, blanks, fold)

/-! ## Plain scalars -/

/-- The characters of a word of a plain scalar, up to a blank or an indicator. -/
def plainWord (flow : Bool) : List Char → List Char
  | [] => []
  | c :: rest =>
    if isBlank c || isBreak c then []
    else if c = ':' && blankOrEnd? rest.head? then []
    else if flow && (isFlowIndicator c || c = '?') then []
    else c :: plainWord flow rest

/-- The words of a plain scalar and what joins them. `text` holds what was read, last
character first. `joint` is what was read since the last word; it counts only if another word
follows. -/
def plainWords (flow : Bool) (indent : Nat) :
    Nat → Cursor → List Char → List Char → Bool → Except Problem ScalarEnd
  | 0, c, text, _, broken => .ok ⟨text.reverse, c, broken⟩
  | fuel + 1, c, text, joint, broken =>
    if c.atDocumentMarker || c.head? = some '#' then .ok ⟨text.reverse, c, broken⟩
    else
      let word := plainWord flow c.rest
      -- What joins two words is added only once the second one is there.
      let text := if word.isEmpty then text else word.reverse ++ (joint.reverse ++ text)
      let joint := if word.isEmpty then joint else []
      let broken := if word.isEmpty then broken else false
      let c := c.skip word.length
      if !(blank? c.head? || break? c.head?) then .ok ⟨text.reverse, c, broken⟩
      else
        match gapAfter indent fuel c [] none with
        | .error e => .error e
        | .ok (c, blanks, fold) =>
          let broken := broken || fold.isSome
          let joint := joint ++ (fold.map Fold.text).getD blanks
          -- A line left of the collection belongs to what comes after it.
          if !flow && decide (c.column < indent) then .ok ⟨text.reverse, c, broken⟩
          else plainWords flow indent fuel c text joint broken

/-- Reads a plain scalar. `indent` is the least column of its further lines outside of flow
collections; `bound` exceeds the length of the text. -/
def plainScalar (bound : Nat) (flow : Bool) (indent : Nat) (c : Cursor) :
    Except Problem ScalarEnd :=
  plainWords flow indent bound c [] [] false

/-! ## Quoted scalars -/

/-- The value of a hexadecimal digit. -/
def hexValue? (c : Char) : Option Nat :=
  if '0' ≤ c ∧ c ≤ '9' then some (c.toNat - 48)
  else if 'a' ≤ c ∧ c ≤ 'f' then some (c.toNat - 87)
  else if 'A' ≤ c ∧ c ≤ 'F' then some (c.toNat - 55)
  else none

/-- The number written by hexadecimal digits. -/
def hexNumber? (cs : List Char) : Option Nat :=
  cs.foldl (fun n c => do return (← n) * 16 + (← hexValue? c)) (some 0)

/-- What a one-character escape stands for. -/
def simpleEscape? (c : Char) : Option Char :=
  match c with
  | '0' => some '\x00'
  | 'a' => some '\x07'
  | 'b' => some '\x08'
  | 't' | '\t' => some '\t'
  | 'n' => some '\n'
  | 'v' => some '\x0b'
  | 'f' => some '\x0c'
  | 'r' => some '\x0d'
  | 'e' => some '\x1b'
  | ' ' => some ' '
  | '"' => some '"'
  | '\'' => some '\''
  | '\\' => some '\\'
  | 'N' => some (Char.ofNat 0x85)
  | '_' => some (Char.ofNat 0xA0)
  | 'L' => some (Char.ofNat 0x2028)
  | 'P' => some (Char.ofNat 0x2029)
  | _ => none

/-- How many digits follow the letter of a numeric escape. -/
def escapeLength? (c : Char) : Option Nat :=
  match c with
  | 'x' => some 2
  | 'u' => some 4
  | 'U' => some 8
  | _ => none

/-- Reads what follows the backslash of an escape: the character meant and the length read. -/
def escape (rest : List Char) : Except Problem (Char × Nat) :=
  match rest with
  | [] => .error .unknownEscape
  | c :: digits =>
    match simpleEscape? c with
    | some ch => .ok (ch, 1)
    | none =>
      match escapeLength? c with
      | none => .error .unknownEscape
      | some n =>
        let digits := digits.take n
        match hexNumber? digits with
        | none => .error .badEscapeCode
        | some code =>
          if digits.length = n ∧ Nat.isValidChar code then .ok (Char.ofNat code, n + 1)
          else .error .badEscapeCode

/-- How the word of a quoted scalar ended. -/
inductive WordEnd
  | closed
  | escapedBreak
  | blank

/-- Reads the characters of a quoted scalar up to a blank, a line end or the closing quote. -/
def quotedWord (quote : Char) :
    Nat → Cursor → List Char → Except Problem (Cursor × List Char × WordEnd)
  | 0, c, word => .ok (c, word, .blank)
  | fuel + 1, c, word =>
    match c.rest with
    | [] => .ok (c, word, .blank)
    | ch :: rest =>
      if isBlank ch || isBreak ch then .ok (c, word, .blank)
      else if ch = quote then
        -- In single quotes a quote is written twice.
        if quote = '\'' && rest.head? = some '\'' then
          quotedWord quote fuel (c.skip 2) (word ++ ['\''])
        else .ok (c, word, .closed)
      else if ch = '\\' && quote = '"' then
        -- A backslash at the end of a line swallows the line end.
        if break? rest.head? then .ok ((c.skip 1).skipLine, word, .escapedBreak)
        else
          match escape rest with
          | .error e => .error e
          | .ok (escaped, n) => quotedWord quote fuel (c.skip (n + 1)) (word ++ [escaped])
      else quotedWord quote fuel (c.skip 1) (word ++ [ch])

/-- Reads a quoted scalar after its opening quote. The accumulator holds what was read, last
character first. -/
def quotedWords (quote : Char) : Nat → Cursor → List Char → Except Problem ScalarEnd
  | 0, _, _ => .error .unterminatedQuote
  | fuel + 1, c, text =>
    if c.atDocumentMarker then .error .documentMarkerInQuote
    else if c.rest.isEmpty then .error .unterminatedQuote
    else
      match quotedWord quote fuel c [] with
      | .error e => .error e
      | .ok (c, word, .closed) => .ok { text := text.reverse ++ word, cursor := c.skip 1 }
      | .ok (c, word, ending) =>
        let fold := match ending with
          | .escapedBreak => some {}
          | _ => none
        match gapAfter 0 fuel c [] fold with
        | .error e => .error e
        | .ok (c, blanks, fold) =>
          let joint := (fold.map Fold.text).getD blanks
          quotedWords quote fuel c (joint.reverse ++ (word.reverse ++ text))

/-- Reads a quoted scalar that starts at the cursor. `bound` exceeds the length of the text. -/
def quotedScalar (bound : Nat) (quote : Char) (c : Cursor) : Except Problem ScalarEnd :=
  quotedWords quote bound (c.skip 1) []

/-! ## Block scalars -/

/-- What happens to the line ends at the end of a block scalar. -/
inductive Chomp
  | clip
  | strip
  | keep
deriving DecidableEq, Repr

/-- The chomping indicator at the cursor, if there is one. -/
def chompAt (c : Cursor) : Option Chomp :=
  match c.head? with
  | some '+' => some .keep
  | some '-' => some .strip
  | _ => none

/-- The indentation indicator at the cursor; zero is not allowed. -/
def incrementAt (c : Cursor) : Except Problem (Option Nat) :=
  match c.head? with
  | some d =>
    if d.isDigit then if d = '0' then .error .badBlockHeader else .ok (some (d.toNat - 48))
    else .ok none
  | none => .ok none

/-- Reads the two indicators of a block scalar, in either order. -/
def blockHeader (c : Cursor) : Except Problem (Cursor × Chomp × Nat) :=
  match chompAt c with
  | some chomp => do
    let c := c.skip 1
    match ← incrementAt c with
    | some n => return (c.skip 1, chomp, n)
    | none => return (c, chomp, 0)
  | none => do
    match ← incrementAt c with
    | none => return (c, .clip, 0)
    | some n =>
      let c := c.skip 1
      match chompAt c with
      | some chomp => return (c.skip 1, chomp, n)
      | none => return (c, .clip, n)

/-- Reads indentation and empty lines before a line of a block scalar: the line ends met and the
largest column reached. While `indent` is zero the indentation is not known yet. -/
def blockBreaks (indent : Nat) :
    Nat → Cursor → List Char → Nat → Except Problem (Cursor × List Char × Nat)
  | 0, c, breaks, widest => .ok (c, breaks, widest)
  | fuel + 1, c, breaks, widest =>
    let spaces := (c.rest.takeWhile (· = ' ')).length
    let c := c.skip (if indent = 0 then spaces else min spaces (indent - c.column))
    let widest := max widest c.column
    if (indent = 0 || decide (c.column < indent)) && c.head? = some '\t' then
      .error .tabInIndentation
    else if break? c.head? then
      blockBreaks indent fuel c.skipLine (breaks ++ c.lineEnd) widest
    else .ok (c, breaks, widest)

/-- The lines of a block scalar read so far. -/
structure BlockText where
  text : List Char := []
  /-- The end of the last line. -/
  lineEnd : List Char := []
  /-- The empty lines after it. -/
  breaks : List Char := []
  /-- Whether the last line started with a blank. -/
  indented : Bool := false

/-- Reads the lines of a block scalar. -/
def blockLines (literal : Bool) (indent : Nat) :
    Nat → Cursor → BlockText → Except Problem (Cursor × BlockText)
  | 0, c, b => .ok (c, b)
  | fuel + 1, c, b =>
    if c.column ≠ indent || c.rest.isEmpty then .ok (c, b)
    else
      let indented := blank? c.head?
      -- Lines are folded unless one of the two starts with a blank.
      let folds := !literal && !b.indented && !indented && b.lineEnd.head? = some '\n'
      let joint := if folds then (if b.breaks.isEmpty then [' '] else []) else b.lineEnd
      let after := c.skipToBreak
      let line := c.rest.take (after.index - c.index)
      match blockBreaks indent fuel after.skipLine [] 0 with
      | .error e => .error e
      | .ok (next, breaks, _) =>
        blockLines literal indent fuel next
          { text := b.text ++ joint ++ b.breaks ++ line
            lineEnd := after.lineEnd
            breaks := breaks
            indented := indented }

/-- The text of a block scalar after chomping. -/
def BlockText.chomped (b : BlockText) : Chomp → List Char
  | .strip => b.text
  | .clip => b.text ++ b.lineEnd
  | .keep => b.text ++ b.lineEnd ++ b.breaks

/-- Reads a block scalar that starts at the cursor. `parent` is the indentation of the collection
around it, if there is one; `bound` exceeds the length of the text. -/
def blockScalar (bound : Nat) (literal : Bool) (parent : Option Nat) (c : Cursor) :
    Except Problem ScalarEnd := do
  let (c, chomp, increment) ← blockHeader (c.skip 1)
  let c := c.skipWhile isBlank
  let c := if c.head? = some '#' then c.skipToBreak else c
  if !breakOrEnd? c.head? then throw .badBlockHeader
  let c := c.skipLine
  let given := if increment = 0 then 0 else parent.getD 0 + increment
  let (c, breaks, widest) ← blockBreaks given bound c [] 0
  -- Without an indicator the first line with content sets the indentation.
  let least := match parent with
    | some n => n + 1
    | none => 1
  let indent := if given = 0 then max widest least else given
  let (c, b) ← blockLines literal indent bound c { breaks := breaks }
  return { text := b.chomped chomp, cursor := c, broken := true }

end ScriptFlow.Yaml
