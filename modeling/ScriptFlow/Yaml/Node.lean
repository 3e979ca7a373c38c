import ScriptFlow.Yaml.Lexer

/-!
# YAML documents

The first document of a YAML text as a tree of scalars, sequences and mappings. Every node knows the
line it starts in. An alias refers to the node its anchor was last given to; since a node may
contain an alias of itself, anchored nodes are kept in a table and aliases hold a number into it.
The aliases have numbers of their own, by which each is known while it is followed.
-/

namespace ScriptFlow.Yaml

/-- A node of a document. Lines are counted from one; the tag is empty if none is given. -/
inductive Node
  | scalar (line : Nat) (tag : String) (text : String) (style : ScalarStyle)
  | sequence (line : Nat) (tag : String) (items : List Node)
  | mapping (line : Nat) (tag : String) (pairs : List (Node × Node))
  | alias (line : Nat) (name : String) (anchor number : Nat)
deriving Inhabited

/-- A document: its root and the nodes with an anchor, by number. -/
structure Document where
  root : Node
  anchored : List (Nat × Node) := []
  /-- More than there are nodes. -/
  bound : Nat
deriving Inhabited

/-- The state of building a document. -/
structure Builder where
  lexer : Lexer
  /-- The number each anchor name stands for now. -/
  anchors : List (String × Nat) := []
  anchored : List (Nat × Node) := []
  /-- The number of aliases read. -/
  aliases : Nat := 0
  /-- What the tag handles stand for. -/
  handles : List (String × String) := []
deriving Inhabited

namespace Builder

/-- Steps of building a document. -/
abbrev Build := StateT Builder (Except Problem)

/-- The next token, which stays to be read. -/
def peek : Build Token := do
  let b ← get
  let (token, lexer) ← b.lexer.peek
  set { b with lexer := lexer }
  return token

/-- Moves over the next token. -/
def skip : Build Unit :=
  modify fun b => { b with lexer := b.lexer.take }

/-- The prefix of the tags of the YAML standard. -/
def standardTags : String := "tag:yaml.org,2002:"

/-- The handles that every document knows. -/
def defaultHandles : List (String × String) := [("!", "!"), ("!!", standardTags)]

/-- A tag in its short form: the standard prefix is written as two exclamation marks. -/
def shortTag (tag : String) : String :=
  let longPrefix := standardTags.toList
  if longPrefix.isPrefixOf tag.toList then
    "!!" ++ String.ofList (tag.toList.drop longPrefix.length)
  else tag

/-- The tag meant by a handle and a suffix. -/
def expandTag (handle suffix : String) : Build String := do
  if handle = "" then return shortTag suffix
  match (← get).handles.lookup handle with
  | none => throw .undefinedTagHandle
  | some expansion => return shortTag (expansion ++ suffix)

/-- Gives an anchor name to the node that follows; the outcome is the number of that node. -/
def bind (name : String) : Build Nat := do
  let b ← get
  let number := b.anchors.length
  set { b with anchors := (name, number) :: b.anchors }
  return number

/-- Records an anchored node once it is complete. -/
def record (number : Option Nat) (n : Node) : Build Node := do
  match number with
  | none => return n
  | some k =>
    modify fun b => { b with anchored := (k, n) :: b.anchored }
    return n

/-- The node that an empty place stands for. -/
def emptyNode (line : Nat) : Node :=
  .scalar (line + 1) "" "" .plain

/-- The anchor and the tag before a node, in either order. -/
structure Properties where
  anchor : Option Nat := none
  tag : String := ""

/-- Reads a tag, if one comes next. -/
def tag? : Build (Option String) := do
  match (← peek).kind with
  | .tag handle suffix =>
    skip
    return some (← expandTag handle suffix)
  | _ => return none

/-- Reads an anchor, if one comes next. -/
def anchor? : Build (Option String) := do
  match (← peek).kind with
  | .anchor name =>
    skip
    return some name
  | _ => return none

/-- Reads the properties of a node. -/
def properties : Build Properties := do
  let name ← anchor?
  let tag ← tag?
  let name ← match name with
    | some name => pure (some name)
    | none => if tag.isSome then anchor? else pure none
  let anchor ← match name with
    | some name => pure (some (← bind name))
    | none => pure none
  return ⟨anchor, tag.getD ""⟩

/-- The node an alias refers to. -/
def aliasNode (line : Nat) (name : String) : Build Node := do
  let b ← get
  match b.anchors.lookup name with
  | none => throw .unknownAnchor
  | some k =>
    set { b with aliases := b.aliases + 1 }
    return .alias (line + 1) name k b.aliases

/-- Whether a token ends a node of a block mapping or of a sequence at its level. -/
def endsBlockNode : TokenKind → Bool
  | .key | .value | .blockEnd => true
  | _ => false

/-- Whether a token ends an entry of a flow collection with the given closing. -/
def endsFlowNode (closing : TokenKind) (k : TokenKind) : Bool :=
  k = .flowEntry || k = closing

mutual

/-- Reads a node. Block collections are allowed where `block` is set, and sequences that are not
indented where `level` is set. -/
def node : Nat → (block level : Bool) → Build Node
  | 0, _, _ => throw .tooDeep
  | fuel + 1, block, level => do
    let token ← peek
    match token.kind with
    | .alias name =>
      skip
      aliasNode token.line name
    | _ =>
      let props ← properties
      let line := token.line + 1
      let first ← peek
      match first.kind with
      | .scalar text style =>
        skip
        record props.anchor (.scalar line props.tag text style)
      | .openBracket =>
        skip
        record props.anchor (.sequence line props.tag (← flowItems fuel true))
      | .openBrace =>
        skip
        record props.anchor (.mapping line props.tag (← flowPairs fuel true))
      | kind =>
        if level && kind = .blockEntry then
          record props.anchor (.sequence line props.tag (← levelItems fuel))
        else if block && kind = .blockSequence then
          skip
          record props.anchor (.sequence line props.tag (← blockItems fuel))
        else if block && kind = .blockMapping then
          skip
          record props.anchor (.mapping line props.tag (← blockPairs fuel))
        -- An anchor or a tag alone stands for an empty scalar.
        else if props.anchor.isSome || props.tag ≠ "" then
          record props.anchor (.scalar line props.tag "" .plain)
        else throw .missingContent

/-- Reads the entries of an indented sequence. -/
def blockItems : Nat → Build (List Node)
  | 0 => throw .tooDeep
  | fuel + 1 => do
    let token ← peek
    match token.kind with
    | .blockEntry =>
      skip
      let next ← peek
      let item ← (
        if next.kind = .blockEntry || next.kind = .blockEnd then pure (emptyNode token.line)
        else node fuel true false)
      return item :: (← blockItems fuel)
    | .blockEnd =>
      skip
      return []
    | _ => throw .missingEntry

/-- Reads the entries of a sequence at the level of the key before it. -/
def levelItems : Nat → Build (List Node)
  | 0 => throw .tooDeep
  | fuel + 1 => do
    let token ← peek
    if token.kind = .blockEntry then
      skip
      let next ← peek
      let item ← (
        if next.kind = .blockEntry || endsBlockNode next.kind then pure (emptyNode token.line)
        else node fuel true false)
      return item :: (← levelItems fuel)
    else return []

/-- Reads the keys and values of a block mapping. -/
def blockPairs : Nat → Build (List (Node × Node))
  | 0 => throw .tooDeep
  | fuel + 1 => do
    let token ← peek
    match token.kind with
    | .key =>
      skip
      let next ← peek
      let key ← (
        if endsBlockNode next.kind then pure (emptyNode token.line) else node fuel true true)
      let colon ← peek
      let value ← (
        if colon.kind = .value then do
          skip
          let next ← peek
          if endsBlockNode next.kind then pure (emptyNode colon.line) else node fuel true true
        else pure (emptyNode colon.line))
      return (key, value) :: (← blockPairs fuel)
    | .blockEnd =>
      skip
      return []
    | _ => throw .missingKey

/-- Reads the value after the colon of a flow mapping; without a colon it is empty. -/
def flowValue : Nat → TokenKind → Build Node
  | 0, _ => throw .tooDeep
  | fuel + 1, closing => do
    let colon ← peek
    if colon.kind = .value then
      skip
      let next ← peek
      if endsFlowNode closing next.kind then return emptyNode next.line
      node fuel false false
    else return emptyNode colon.line

/-- Reads the entries of a flow sequence up to its closing bracket. -/
def flowItems : Nat → (first : Bool) → Build (List Node)
  | 0, _ => throw .tooDeep
  | fuel + 1, first => do
    let token ← peek
    if token.kind = .closeBracket then
      skip
      return []
    if !first then
      if token.kind ≠ .flowEntry then throw .missingComma
      skip
    let token ← peek
    if token.kind = .closeBracket then
      skip
      return []
    let item ← (
      if token.kind = .key then do
        skip
        let next ← peek
        let key ← (
          -- The token that shows the key to be empty is passed over with it.
          if next.kind = .value || endsFlowNode .closeBracket next.kind then do
            skip
            pure (emptyNode next.line)
          else node fuel false false)
        let value ← flowValue fuel .closeBracket
        pure (Node.mapping (token.line + 1) "" [(key, value)])
      else node fuel false false)
    return item :: (← flowItems fuel false)

/-- Reads the keys and values of a flow mapping up to its closing brace. -/
def flowPairs : Nat → (first : Bool) → Build (List (Node × Node))
  | 0, _ => throw .tooDeep
  | fuel + 1, first => do
    let token ← peek
    if token.kind = .closeBrace then
      skip
      return []
    if !first then
      if token.kind ≠ .flowEntry then throw .missingComma
      skip
    let token ← peek
    if token.kind = .closeBrace then
      skip
      return []
    let pair ← (
      if token.kind = .key then do
        skip
        let next ← peek
        let key ← (
          if next.kind = .value || endsFlowNode .closeBrace next.kind then
            pure (emptyNode next.line)
          else node fuel false false)
        let value ← flowValue fuel .closeBrace
        pure (key, value)
      else do
        -- Without a colon the entry is a key with an empty value.
        let key ← node fuel false false
        let next ← peek
        pure (key, emptyNode next.line))
    return pair :: (← flowPairs fuel false)

end

/-- Reads the directives before a document. -/
def directives : Nat → Bool → List (String × String) → Build (List (String × String))
  | 0, _, _ => throw .tooDeep
  | fuel + 1, versioned, handles => do
    match (← peek).kind with
    | .version major minor =>
      if versioned then throw .duplicateDirective
      if major ≠ 1 || minor ≠ 1 then throw .unsupportedVersion
      skip
      directives fuel true handles
    | .tagDirective handle expansion =>
      if (handles.lookup handle).isSome then throw .duplicateDirective
      skip
      directives fuel versioned (handles ++ [(handle, expansion)])
    | _ => return handles

/-- Whether a token cannot belong to the content of a document. -/
def isOutside : TokenKind → Bool
  | .version .. | .tagDirective .. | .documentStart | .streamEnd => true
  | _ => false

/-- Reads the first document; there is none if the text holds nothing but blanks and comments. -/
def document (fuel : Nat) : Build (Option Node) := do
  let _ ← peek
  skip
  let token ← peek
  let root ← (
    if token.kind = .streamEnd then pure none
    else if isOutside token.kind then do
      let handles ← directives fuel false []
      modify fun b => { b with handles := handles ++ defaultHandles }
      if (← peek).kind ≠ .documentStart then throw .missingDocumentStart
      skip
      let first ← peek
      if isOutside first.kind || first.kind = .documentEnd then
        pure (some (emptyNode first.line))
      else do return some (← node fuel true false)
    else do
      modify fun b => { b with handles := defaultHandles }
      return some (← node fuel true false) : Build (Option Node))
  -- An error right behind the document counts as one in it.
  let _ ← peek
  return root

end Builder

/-- The first document of a text. -/
def Document.parse (text : String) : Except Problem (Option Document) := do
  let lexer ← Lexer.ofText text
  let bound := 4 * lexer.bound
  let (root, b) ← (Builder.document bound).run { lexer := lexer }
  return root.map fun root => ⟨root, b.anchored, bound⟩

end ScriptFlow.Yaml
