import ScriptFlow.Yaml.Scalar

/-!
# Reading tokens

Splits a YAML text into tokens, one at a time. Indentation opens and closes block collections, and
a key is recognised only when its colon is met: until then the place where it might have started is
remembered, and the tokens that announce it are put into the queue afterwards.

Tokens are read only as far as they are needed. A token is handed out once two more are known
behind it and it can no longer turn out to be a key, so an error in the text shows up only when the
reader comes close to it.
-/

namespace ScriptFlow.Yaml

/-- A place where a key may have started. -/
structure KeyCandidate where
  /-- Whether the place can hold nothing but a key. -/
  required : Bool
  /-- The number of tokens before the key. -/
  token : Nat
  /-- The place in the text. -/
  index : Nat
  line : Nat
  column : Nat
deriving DecidableEq, Repr

/-- The state of the reading. -/
structure Lexer where
  cursor : Cursor
  /-- A number of steps no loop of the lexer exceeds. -/
  bound : Nat
  /-- Whether the first token was read. -/
  started : Bool := false
  /-- The columns of the open block collections, innermost first. -/
  indents : List Nat := []
  /-- For every open flow collection, innermost first, and for the block level around them: the
  place where a key may have started. -/
  candidates : List (Option KeyCandidate) := [none]
  /-- Whether a key may start here. -/
  keyAllowed : Bool := true
  /-- The tokens that were read and not handed out yet. -/
  queue : List Token := []
  /-- The number of tokens handed out. -/
  handedOut : Nat := 0
deriving Inhabited

namespace Lexer

/-- The deepest nesting of flow and of block collections. -/
def maxDepth : Nat := 10000

/-- How many characters a key may have. -/
def maxKeyLength : Nat := 1024

/-- Starts reading a text; a byte order mark at its start is no part of it. -/
def ofText (text : String) : Except Problem Lexer :=
  let chars := match text.toList with
    | '\uFEFF' :: rest => rest
    | chars => chars
  if chars.all isAllowed then .ok { cursor := { rest := chars }, bound := chars.length + 8 }
  else .error .forbiddenCharacter

/-- Whether the cursor stands inside a flow collection. -/
def inFlow (l : Lexer) : Bool :=
  1 < l.candidates.length

/-- Appends a token that starts at the cursor. -/
def emit (l : Lexer) (kind : TokenKind) : Lexer :=
  { l with queue := l.queue ++ [⟨kind, l.cursor.line⟩] }

/-- Appends a token of the given length. -/
def emitIndicator (l : Lexer) (kind : TokenKind) (length : Nat) : Lexer :=
  { l.emit kind with cursor := l.cursor.skip length }

/-! ## Keys -/

/-- Replaces the candidate of the innermost level. -/
def setCandidate (l : Lexer) (k : Option KeyCandidate) : Lexer :=
  { l with candidates := k :: l.candidates.tail }

/-- Gives up the candidate of the innermost level; a required one must not be given up. -/
def dropCandidate (l : Lexer) : Except Problem Lexer :=
  match l.candidates.head?.join with
  | none => .ok l
  | some k => if k.required then .error .missingColon else .ok (l.setCandidate none)

/-- Remembers the cursor as a place where a key may start. -/
def saveCandidate (l : Lexer) : Except Problem Lexer :=
  if l.keyAllowed then do
    -- At the column of an open block nothing but its next key can stand.
    let required := !l.inFlow && l.indents.head? = some l.cursor.column
    let l ← l.dropCandidate
    return l.setCandidate (some
      { required := required
        token := l.handedOut + l.queue.length
        index := l.cursor.index
        line := l.cursor.line
        column := l.cursor.column })
  else .ok l

/-- Whether a candidate can still be a key: its colon must follow on the same line and within the
length of a key. -/
def isLive (l : Lexer) (k : KeyCandidate) : Except Problem Bool :=
  if k.line < l.cursor.line || k.index + maxKeyLength < l.cursor.index then
    if k.required then .error .missingColon else .ok false
  else .ok true

/-- The candidate of the innermost level, if it can still be a key. -/
def liveCandidate (l : Lexer) : Except Problem (Option KeyCandidate) :=
  match l.candidates.head?.join with
  | none => .ok none
  | some k => (l.isLive k).map fun live => if live then some k else none

/-! ## Indentation -/

/-- Opens a block collection if the column is right of the innermost one; its token is put before
the queued token with the given number. -/
def openBlock (l : Lexer) (column line position : Nat) (kind : TokenKind) :
    Except Problem Lexer :=
  if l.inFlow then .ok l
  else if l.indents.head?.all (· < column) then
    if maxDepth ≤ l.indents.length then .error .tooDeep
    else
      .ok { l with
        indents := column :: l.indents
        queue := l.queue.take position ++ [Token.mk kind line] ++ l.queue.drop position }
  else .ok l

/-- Closes the block collections right of a column; without a column, all of them. -/
def closeBlocks (l : Lexer) (column : Option Nat) : Lexer :=
  if l.inFlow then l
  else
    let closes (indent : Nat) : Bool := column.all (· < indent)
    let closed := l.indents.takeWhile closes
    { l with
      indents := l.indents.dropWhile closes
      queue := l.queue ++ closed.map fun _ => ⟨.blockEnd, l.cursor.line⟩ }

/-! ## Between tokens -/

/-- Moves over a comment and the comment lines right after it, whatever their indentation. -/
def skipComments : Nat → Cursor → Cursor
  | 0, c => c
  | fuel + 1, c =>
    let c := c.skipToBreak
    let between := c.rest.takeWhile fun ch => isBlank ch || isBreak ch
    if c.ahead? between.length = some '#' then
      let lines := between.filter fun ch => isBreak ch
      -- A carriage return and a line feed make one line end.
      let crlf := (between.zip between.tail).filter fun p => p.1 = '\x0d' && p.2 = '\n'
      let start := (between.reverse.takeWhile fun ch => !isBreak ch).length
      skipComments fuel
        { rest := c.rest.drop between.length
          index := c.index + between.length
          line := c.line + (lines.length - crlf.length)
          column := start }
    else c

/-- Moves over blanks, comments and line ends to the next token. Tabs count as blanks only where no
key may start. -/
def skipBlanks : Nat → Lexer → Lexer
  | 0, l => l
  | fuel + 1, l =>
    -- A tab where a key may start would be indentation.
    let tabs := l.inFlow || !l.keyAllowed
    let c := l.cursor.skipWhile fun ch => ch = ' ' || (tabs && ch = '\t')
    let c := if c.head? = some '#' then skipComments l.bound c else c
    if break? c.head? then
      -- After a line end a key may start; inside flow collections nothing changes.
      skipBlanks fuel
        { l with cursor := c.skipLine, keyAllowed := if l.inFlow then l.keyAllowed else true }
    else { l with cursor := c }

/-- Moves over a comment on the line of the token just read. The comment after the dash of an entry
belongs to what follows and is left for later. -/
def skipLineComment (l : Lexer) : Lexer :=
  let entry := l.queue.getLast?.any fun t => decide (t.kind = .blockEntry)
  let c := l.cursor.skipWhile isBlank
  if !entry && c.head? = some '#' then { l with cursor := c.skipToBreak } else l

/-! ## Single tokens -/

/-- The end of the text: everything is closed. -/
def readEnd (l : Lexer) : Except Problem Lexer := do
  let c := l.cursor
  -- The end of the text stands on a line of its own.
  let c := if c.column = 0 then c else { c with column := 0, line := c.line + 1 }
  let l := closeBlocks { l with cursor := c } none
  let l ← l.dropCandidate
  return { l with keyAllowed := false }.emit .streamEnd

/-- Closes everything before a token that belongs to no collection. -/
def leaveAll (l : Lexer) : Except Problem Lexer := do
  let l ← (l.closeBlocks none).dropCandidate
  return { l with keyAllowed := false }

/-- A number of a version directive, of at most nine digits. -/
def versionNumber (c : Cursor) : Except Problem (Cursor × Nat) :=
  let digits := c.rest.takeWhile Char.isDigit
  if digits.isEmpty || 9 < digits.length then .error .badDirective
  else
    .ok (c.skip digits.length, digits.foldl (fun n d => n * 10 + (d.toNat - 48)) 0)

/-- Reads a tag handle: an exclamation mark, a word, and another mark if there is one. -/
def tagHandle (c : Cursor) : Except Problem (Cursor × List Char) :=
  if c.head? ≠ some '!' then .error .badTag
  else
    let word := (c.rest.drop 1).takeWhile isWord
    let after := c.skip (1 + word.length)
    if after.head? = some '!' then .ok (after.skip 1, '!' :: word ++ ['!'])
    else .ok (after, '!' :: word)

/-- The characters of a tag. -/
def isTagChar (c : Char) : Bool :=
  isWord c || ";/?:@&=+$,.!~*'()[]".toList.contains c

/-- Reads a directive. -/
def readDirective (l : Lexer) : Except Problem Lexer := do
  let l ← l.leaveAll
  let line := l.cursor.line
  let c := l.cursor.skip 1
  let name := c.rest.takeWhile isWord
  let c := c.skip name.length
  if name.isEmpty || !blankOrEnd? c.head? then throw .badDirective
  let c := c.skipWhile isBlank
  let (c, kind) ← (
    if name = "YAML".toList then do
      let (c, major) ← versionNumber c
      if c.head? ≠ some '.' then throw .badDirective
      let (c, minor) ← versionNumber (c.skip 1)
      return (c, .version major minor)
    else if name = "TAG".toList then do
      let (c, handle) ← tagHandle c
      if handle.length ≠ 1 && handle.getLast? ≠ some '!' then throw .badTag
      if !blank? c.head? then throw .badTag
      let c := c.skipWhile isBlank
      let expansion := c.rest.takeWhile isTagChar
      let c := c.skip expansion.length
      if expansion.isEmpty || !blankOrEnd? c.head? then throw .badTag
      return (c, .tagDirective (String.ofList handle) (String.ofList expansion))
    else throw .badDirective : Except Problem (Cursor × TokenKind))
  let c := c.skipWhile isBlank
  let c := if c.head? = some '#' then c.skipToBreak else c
  if !breakOrEnd? c.head? then throw .badDirective
  return { l with cursor := c.skipLine, queue := l.queue ++ [⟨kind, line⟩] }

/-- Reads a document marker. -/
def readMarker (l : Lexer) (kind : TokenKind) : Except Problem Lexer := do
  let l ← l.leaveAll
  return l.emitIndicator kind 3

/-- Reads the opening of a flow collection. -/
def readOpen (l : Lexer) (kind : TokenKind) : Except Problem Lexer := do
  let l ← l.saveCandidate
  if maxDepth < l.candidates.length then throw .tooDeep
  return { l with candidates := none :: l.candidates, keyAllowed := true }.emitIndicator kind 1

/-- Reads the closing of a flow collection. -/
def readClose (l : Lexer) (kind : TokenKind) : Except Problem Lexer := do
  let l ← l.dropCandidate
  let l := if l.inFlow then { l with candidates := l.candidates.tail } else l
  return { l with keyAllowed := false }.emitIndicator kind 1

/-- Reads the comma between two entries of a flow collection. -/
def readFlowEntry (l : Lexer) : Except Problem Lexer := do
  let l ← l.dropCandidate
  return { l with keyAllowed := true }.emitIndicator .flowEntry 1

/-- Reads the dash of an entry of a block sequence. -/
def readBlockEntry (l : Lexer) : Except Problem Lexer := do
  let l ← (
    if l.inFlow then .ok l
    else if !l.keyAllowed then .error .entryNotAllowed
    else l.openBlock l.cursor.column l.cursor.line l.queue.length .blockSequence)
  let l ← l.dropCandidate
  return { l with keyAllowed := true }.emitIndicator .blockEntry 1

/-- Reads the question mark before a key. -/
def readKey (l : Lexer) : Except Problem Lexer := do
  let l ← (
    if l.inFlow then .ok l
    else if !l.keyAllowed then .error .keyNotAllowed
    else l.openBlock l.cursor.column l.cursor.line l.queue.length .blockMapping)
  let l ← l.dropCandidate
  return { l with keyAllowed := !l.inFlow }.emitIndicator .key 1

/-- Reads the colon between key and value. If a key may have started before it, this is now sure,
and the key is announced in the queue. -/
def readValue (l : Lexer) : Except Problem Lexer := do
  match ← l.liveCandidate with
  | some k =>
    -- The key and, if it is the first one, its mapping are announced before the tokens of the key.
    let position := k.token - l.handedOut
    let l := { l with
      queue := l.queue.take position ++ [Token.mk .key k.line] ++ l.queue.drop position }
    let l ← l.openBlock k.column k.line position .blockMapping
    return { l.setCandidate none with keyAllowed := false }.emitIndicator .value 1
  | none =>
    -- There is no key before the colon: it belongs to an empty key.
    let l := l.setCandidate none
    let l ← (
      if l.inFlow then .ok l
      else if !l.keyAllowed then .error .valueNotAllowed
      else l.openBlock l.cursor.column l.cursor.line l.queue.length .blockMapping)
    return { l with keyAllowed := !l.inFlow }.emitIndicator .value 1

/-- Reads an anchor or an alias. -/
def readName (l : Lexer) (kind : String → TokenKind) : Except Problem Lexer := do
  let l ← l.saveCandidate
  let name := (l.cursor.rest.drop 1).takeWhile isWord
  let next := l.cursor.ahead? (1 + name.length)
  if name.isEmpty || !(blankOrEnd? next || next.any "?:,]\x7d%@`".toList.contains) then
    throw .badName
  return { l with keyAllowed := false }.emitIndicator (kind (String.ofList name)) (1 + name.length)

/-- Reads a tag. -/
def readTag (l : Lexer) : Except Problem Lexer := do
  let l ← l.saveCandidate
  let (c, handle, suffix) ← (
    -- A tag in angle brackets is written out in full.
    if l.cursor.ahead? 1 = some '<' then do
      let c := l.cursor.skip 2
      let suffix := c.rest.takeWhile isTagChar
      let c := c.skip suffix.length
      if suffix.isEmpty || c.head? ≠ some '>' then throw .badTag
      return (c.skip 1, [], suffix)
    else do
      let (c, handle) ← tagHandle l.cursor
      let suffix := c.rest.takeWhile isTagChar
      let c := c.skip suffix.length
      -- With one mark only, the word is not a handle but the start of the suffix.
      if 1 < handle.length && handle.getLast? = some '!' then
        if suffix.isEmpty then throw .badTag
        return (c, handle, suffix)
      else
        let suffix := handle.drop 1 ++ suffix
        if suffix.isEmpty then return (c, [], ['!'])
        return (c, ['!'], suffix) : Except Problem (Cursor × List Char × List Char))
  if !blankOrEnd? c.head? then throw .badTag
  let l := { l with keyAllowed := false }.emit (.tag (String.ofList handle) (String.ofList suffix))
  return { l with cursor := c }

/-- Reads a block scalar. -/
def readBlockScalar (l : Lexer) (literal : Bool) : Except Problem Lexer := do
  let l ← l.dropCandidate
  let s ← blockScalar l.bound literal l.indents.head? l.cursor
  let l := { l with keyAllowed := true }.emit (.scalar (String.ofList s.text) .block)
  return { l with cursor := s.cursor }

/-- Reads a quoted scalar. -/
def readQuoted (l : Lexer) (quote : Char) : Except Problem Lexer := do
  let l ← l.saveCandidate
  let s ← quotedScalar l.bound quote l.cursor
  let l := { l with keyAllowed := false }.emit (.scalar (String.ofList s.text) .quoted)
  return { l with cursor := s.cursor }

/-- Reads a plain scalar. -/
def readPlain (l : Lexer) : Except Problem Lexer := do
  let l ← l.saveCandidate
  let indent := match l.indents.head? with
    | some n => n + 1
    | none => 0
  let s ← plainScalar l.bound l.inFlow indent l.cursor
  let l := { l with keyAllowed := s.broken }.emit (.scalar (String.ofList s.text) .plain)
  let l := { l with cursor := s.cursor }
  return if s.broken then l else l.skipLineComment

/-- Whether a plain scalar can start with a character, given the one after it. -/
def startsPlain (l : Lexer) (ch : Char) (next : Option Char) : Bool :=
  if ch = '-' then !blank? next
  else if ch = '?' || ch = ':' then !l.inFlow && !blankOrEnd? next
  else !isBlank ch && !isFlowIndicator ch && !"#&*!|>'\"%@`".toList.contains ch

/-- Reads a token of a collection, a name, a tag or a quoted scalar. -/
def readMark (l : Lexer) (ch : Char) : Option (Except Problem Lexer) :=
  let next := l.cursor.ahead? 1
  if ch = '[' then some (l.readOpen .openBracket)
  else if ch = '\x7b' then some (l.readOpen .openBrace)
  else if ch = ']' then some (l.readClose .closeBracket)
  else if ch = '\x7d' then some (l.readClose .closeBrace)
  else if ch = ',' then some l.readFlowEntry
  else if ch = '-' && blankOrEnd? next then some l.readBlockEntry
  else if ch = '?' && (l.inFlow || blankOrEnd? next) then some l.readKey
  else if ch = ':' && (l.inFlow || blankOrEnd? next) then some l.readValue
  else if ch = '*' then some (l.readName .alias)
  else if ch = '&' then some (l.readName .anchor)
  else if ch = '!' then some l.readTag
  else if ch = '\'' || ch = '"' then some (l.readQuoted ch)
  else none

/-- Reads a token that starts with the given character and is no document marker. -/
def readInside (l : Lexer) (ch : Char) : Except Problem Lexer :=
  match l.readMark ch with
  | some result => result.map skipLineComment
  | none =>
    if ch = '|' && !l.inFlow then l.readBlockScalar true
    else if ch = '>' && !l.inFlow then l.readBlockScalar false
    else if l.startsPlain ch (l.cursor.ahead? 1) then l.readPlain
    else .error .unexpectedCharacter

/-- Reads the next token of the text into the queue. -/
def readNext (l : Lexer) : Except Problem Lexer :=
  if !l.started then .ok { l.emit .streamStart with started := true }
  else
    let l := skipBlanks l.bound l
    let l := l.closeBlocks (some l.cursor.column)
    match l.cursor.head? with
    | none => l.readEnd
    | some ch =>
      if ch = '%' && l.cursor.column == 0 then l.readDirective
      else if l.cursor.atMarker '-' then l.readMarker .documentStart
      else if l.cursor.atMarker '.' then l.readMarker .documentEnd
      else l.readInside ch

/-! ## Handing out tokens -/

/-- Whether the first token of the queue may turn out to belong to a key. -/
def headIsOpen (l : Lexer) : Except Problem Bool :=
  match l.candidates.findSome? fun k => k.filter (·.token = l.handedOut) with
  | none => .ok false
  | some k => l.isLive k

/-- Reads tokens until the first one of the queue can be handed out. -/
def fill : Nat → Lexer → Except Problem Lexer
  | 0, l => .ok l
  | fuel + 1, l => do
    -- Two tokens must be known behind the first one.
    if 2 < l.queue.length then
      if ← l.headIsOpen then fill fuel (← l.readNext) else return l
    else fill fuel (← l.readNext)

/-- The next token, which stays in the queue. -/
def peek (l : Lexer) : Except Problem (Token × Lexer) := do
  let l ← l.fill l.bound
  match l.queue with
  | token :: _ => return (token, l)
  | [] => return (⟨.streamEnd, l.cursor.line⟩, l)

/-- Takes the next token off the queue. -/
def take (l : Lexer) : Lexer :=
  { l with queue := l.queue.tail, handedOut := l.handedOut + 1 }

end Lexer

end ScriptFlow.Yaml
