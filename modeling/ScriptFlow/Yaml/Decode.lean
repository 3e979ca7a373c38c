import ScriptFlow.Text.Quoted
import ScriptFlow.Yaml.Resolve

/-!
# Decoding YAML documents

Turns a document into a value of a record type. Everything in the document that does not fit the
type is collected, so that all of it can be reported at once; what fits is decoded all the same. A
scalar that stands for nothing leaves a text, a number or a record as it was, empties a list, and
is left out as an item of a list.

A short text can mean a huge document if its aliases are nested. Nodes are counted as they are
decoded, and decoding ends once too large a part of them was reached through aliases.
-/

namespace ScriptFlow.Yaml

/-! ## Errors -/

/-- Something in a document that does not fit the type it is decoded to. -/
inductive Misfit
  /-- A node cannot be read as the given type; scalars are shown. -/
  | unreadable (line : Nat) (tag : String) (shown : Option String) (type : String)
  /-- A record has no field with this name. -/
  | unknownField (line : Nat) (key type : String)
  /-- A field of a record is given twice, through keys that are written differently. -/
  | repeatedField (line : Nat) (key type : String)
  /-- A mapping has the same key twice. -/
  | duplicateKey (line : Nat) (key : String) (first : Nat)
deriving DecidableEq, Repr

/-- The first characters of a text that fit into a number of bytes. A character that is cut is
shown as one replacement character for each of its bytes that fit. -/
def firstBytes : Nat → List Char → List Char
  | _, [] => []
  | n, c :: rest =>
    if c.utf8Size ≤ n then c :: firstBytes (n - c.utf8Size) rest
    else List.replicate n '\uFFFD'

/-- A scalar as it is shown in a message: a text of more than ten bytes is cut after seven. -/
def abridged (s : String) : String :=
  if 10 < s.utf8ByteSize then String.ofList (firstBytes 7 s.toList) ++ "..." else s

/-- The wording of a misfit. -/
def Misfit.message : Misfit → String
  | unreadable line tag shown type =>
    "line " ++ toString line ++ ": cannot unmarshal " ++ tag ++
      (match shown with
        | some s => " `" ++ abridged s ++ "`"
        | none => "") ++
      " into " ++ type
  | unknownField line key type =>
    "line " ++ toString line ++ ": field " ++ key ++ " not found in type " ++ type
  | repeatedField line key type =>
    "line " ++ toString line ++ ": field " ++ key ++ " already set in type " ++ type
  | duplicateKey line key first =>
    "line " ++ toString line ++ ": mapping key " ++ Text.quoted key ++
      " already defined at line " ++ toString first

/-- Why a text cannot be decoded. -/
inductive Error
  /-- The text holds no document. -/
  | noDocument
  /-- The text is no YAML, or means something impossible. -/
  | syntaxProblem (p : Problem)
  /-- The document does not fit the type. -/
  | misfits (list : List Misfit)
deriving DecidableEq, Repr

/-- The wording of an error. -/
def Error.message : Error → String
  | noDocument => "EOF"
  | syntaxProblem p => "yaml: " ++ p.message
  | misfits list => "yaml: unmarshal errors:" ++ String.join (list.map fun m => "\n  " ++ m.message)

/-! ## Decoding -/

/-- What is known while a document is decoded. -/
structure DecodingState where
  /-- What did not fit so far. -/
  misfits : List Misfit := []
  /-- The number of nodes decoded so far; an alias counts beside the node it refers to. -/
  decoded : Nat := 0
  /-- The number of those that were reached through an alias. -/
  aliased : Nat := 0
  /-- The aliases that are followed at the moment. -/
  followed : List Nat := []

/-- Steps of decoding: misfits are collected, problems end it. -/
abbrev Decoding := StateT DecodingState (Except Problem)

/-- A way to decode a node, given the value that holds so far. The flag tells whether the node had
anything to say. -/
abbrev Decoder (α : Type) := Document → Node → α → Decoding (α × Bool)

/-- Collects a misfit. -/
def misfit (m : Misfit) : Decoding Unit :=
  modify fun s => { s with misfits := s.misfits ++ [m] }

namespace Node

/-- The line of a node. -/
def line : Node → Nat
  | .scalar line .. | .sequence line .. | .mapping line .. | .alias line .. => line

/-- The tag of a node. -/
def tagOf : Node → String
  | .scalar _ tag text style => scalarTag tag text style
  | .sequence _ tag _ => if tag = "" ∨ tag = "!" then "!!seq" else tag
  | .mapping _ tag _ => if tag = "" ∨ tag = "!" then "!!map" else tag
  | .alias .. => ""

/-- The text of a scalar or the name of an alias; empty for collections. -/
def textOf : Node → String
  | .scalar _ _ text _ => text
  | .alias _ name .. => name
  | _ => ""

/-- Whether two nodes are written as the same kind of node. -/
def sameKind : Node → Node → Bool
  | .scalar .., .scalar .. | .sequence .., .sequence .. => true
  | .mapping .., .mapping .. | .alias .., .alias .. => true
  | _, _ => false

/-- Whether a key asks for the fields of another mapping. -/
def isMerge : Node → Bool
  | .scalar _ tag text style => text = "<<" && scalarTag tag text style = Meaning.merge.tag
  | _ => false

/-- The node that an alias refers to; every other node is itself. -/
def target (d : Document) : Node → Node
  | .alias line name k i => (d.anchored.lookup k).getD (.alias line name k i)
  | n => n

/-- The misfit of a node that cannot be read as a type. -/
def unreadable (n : Node) (type : String) : Misfit :=
  let shown := if n.tagOf = "!!seq" ∨ n.tagOf = "!!map" then none else some n.textOf
  .unreadable n.line n.tagOf shown type

end Node

/-! ### Aliases -/

/-- The number of decoded nodes up to which nearly all of them may come from aliases. -/
def smallDocument : Nat := 400000

/-- The number of decoded nodes from which on only a tenth of them may come from aliases. -/
def largeDocument : Nat := 4000000

/-- Whether too many of the decoded nodes were reached through aliases: more than 99 of 100 in a
small document, more than one of ten in a large one, and in between a part that falls evenly. -/
def isExcessive (decoded aliased : Nat) : Bool :=
  if aliased ≤ 100 ∨ decoded ≤ 1000 then false
  else if decoded ≤ smallDocument then decide (99 * decoded < 100 * aliased)
  else if largeDocument ≤ decoded then decide (decoded < 10 * aliased)
  else
    let width := largeDocument - smallDocument
    decide (decoded * (99 * width - 89 * (decoded - smallDocument)) < 100 * width * aliased)

/-- The state with one more decoded node. -/
def DecodingState.counted (s : DecodingState) : DecodingState :=
  { s with
    decoded := s.decoded + 1
    aliased := if s.followed.isEmpty then s.aliased else s.aliased + 1 }

/-- Counts a node that is decoded now. -/
def count : Decoding Unit := fun s =>
  if isExcessive s.counted.decoded s.counted.aliased then .error .excessiveAliasing
  else .ok ((), s.counted)

/-- Follows an alias while something is decoded, unless it is followed already. -/
def follow {α : Type} (i : Nat) (x : Decoding α) : Decoding α := fun s =>
  if s.followed.contains i then .error .selfContainingAnchor
  else
    (x { s with followed := i :: s.followed }).map fun r =>
      (r.1, { r.2 with followed := s.followed })

/-- Decodes a node, or the one that an alias refers to. -/
def visit {α : Type} (d : Document) (n : Node) (body : Node → Decoding α) : Decoding α := do
  count
  match n with
  | .alias _ _ _ i =>
    follow i do
      count
      body (n.target d)
  | n => body n

/-! ### Misfits of nodes -/

/-- The repeated keys of a mapping: every key is compared with all later ones. -/
def duplicateKeys : List (Node × Node) → List Misfit
  | [] => []
  | (key, _) :: rest =>
    (rest.filterMap fun (later, _) =>
      if key.sameKind later && key.textOf == later.textOf then
        some (.duplicateKey later.line later.textOf key.line)
      else none) ++ duplicateKeys rest

/-- Reports a node that is no scalar and cannot be read as a type. A mapping with repeated keys is
reported for those instead. -/
def refuse (n : Node) (type : String) : Decoding Unit := do
  match n with
  | .mapping _ _ pairs =>
    match duplicateKeys pairs with
    | [] => misfit (n.unreadable type)
    | list => list.forM misfit
  | _ => misfit (n.unreadable type)

/-! ### Texts, numbers and lists -/

/-- Decodes a text: any scalar is read as it is written. -/
def decodeText : Decoder String := fun d n old => visit d n fun n => do
  match n with
  | .scalar _ _ text _ =>
    match ← scalarMeaning n.tagOf text with
    | .null => return (old, false)
    | .bytes decoded => return (decoded, true)
    | _ => return (text, true)
  | _ =>
    refuse n "string"
    return (old, false)

/-- One more than the largest integer of 64 bits. -/
def integerBound : Int := 9223372036854775808

/-- The least integer of 64 bits. -/
def leastInteger : Int := -integerBound

/-- The integer of 64 bits meant by a scalar. A fraction is cut to its whole part; one below all
such integers counts as the least one. -/
def integerOf? : Meaning → Option Int
  | .integer n => if n < integerBound then some n else none
  | .floating (.whole n) =>
    if integerBound < n then none
    else if leastInteger ≤ n ∧ n < integerBound then some n
    else some leastInteger
  | .floating (.infinite true) => some leastInteger
  | _ => none

/-- Decodes an integer. -/
def decodeInteger : Decoder Int := fun d n old => visit d n fun n => do
  match n with
  | .scalar _ _ text _ =>
    match ← scalarMeaning n.tagOf text with
    | .null => return (old, false)
    | m =>
      match integerOf? m with
      | some k => return (k, true)
      | none =>
        misfit (n.unreadable "int")
        return (old, false)
  | _ =>
    refuse n "int"
    return (old, false)

/-- Decodes a list. Every item starts from the given value. -/
def decodeList {α : Type} (type : String) (item : Decoder α) (start : α) : Decoder (List α) :=
  fun d n old => visit d n fun n => do
    match n with
    | .sequence _ _ items =>
      let list ← items.filterMapM fun child => do
        let (value, good) ← item d child start
        -- Items with nothing to say are left out.
        return if good then some value else none
      return (list, true)
    | .scalar _ _ text _ =>
      match ← scalarMeaning n.tagOf text with
      | .null => return ([], true)
      | _ =>
        misfit (n.unreadable type)
        return (old, false)
    | _ =>
      refuse n type
      return (old, false)

/-! ### Records -/

/-- A field of a record. -/
structure Field (σ : Type) where
  name : String
  decode : Document → Node → σ → Decoding σ

/-- The field that is read and written by two functions. -/
def Field.of {σ α : Type} (name : String) (decode : Decoder α) (read : σ → α)
    (write : σ → α → σ) : Field σ :=
  { name := name
    decode := fun d n s => do
      let (value, _) ← decode d n (read s)
      return write s value }

/-- A type of records: its name in messages, whether unknown keys are refused, and its fields. -/
structure RecordType (σ : Type) where
  name : String
  strict : Bool
  fields : List (Field σ)

/-- What is known while the keys of a mapping are read. -/
structure RecordState (σ : Type) where
  value : σ
  /-- The keys that were given by the mappings merged so far, if this is one of them. -/
  given : Option (List String)
  /-- The fields that were set. -/
  done : List String := []
  /-- The mapping to merge. -/
  mergeWith : Option Node := none

/-- Decodes the value of a key, given with its line, if the key is a field. -/
def RecordType.assign {σ : Type} (r : RecordType σ) (d : Document) (s : RecordState σ) (line : Nat)
    (name : String) (value : Node) : Decoding (RecordState σ) := do
  match r.fields.find? (·.name == name) with
  | some f =>
    if s.done.contains name then
      misfit (.repeatedField line name r.name)
      return s
    else
      let v ← f.decode d value s.value
      return { s with value := v, done := name :: s.done }
  | none =>
    if r.strict then
      misfit (.unknownField line name r.name)
      return s
    else return s

/-- Reads one key of a mapping and its value. -/
def RecordType.pair {σ : Type} (r : RecordType σ) (d : Document) (s : RecordState σ)
    (p : Node × Node) : Decoding (RecordState σ) := do
  if p.1.isMerge then return { s with mergeWith := some p.2 }
  else
    -- A null key is passed over with its value, and what was given before wins over what is merged.
    let (name, good) ← decodeText d p.1 ""
    if !good || (s.given.getD []).contains name then return s
    else r.assign d { s with given := s.given.map (name :: ·) } p.1.line name p.2

/-- Whether a node is a mapping or an alias of one. -/
def isMapping (d : Document) (n : Node) : Bool :=
  match n.target d with
  | .mapping .. => true
  | _ => false

/-- The mappings a merge key asks for. -/
def mergeSources (d : Document) (n : Node) : Except Problem (List Node) :=
  let sources := match n with
    | .sequence _ _ items => items
    | n => [n]
  if sources.all (isMapping d) then .ok sources else .error .mergeOfNoMapping

/-- The texts among the keys of a mapping. Keys are looked up by their values here, which
collections do not allow. -/
def keyTexts (d : Document) (pairs : List (Node × Node)) : Decoding (List String) :=
  pairs.filterMapM fun (key, _) => visit d key fun key => do
    match key with
    | .scalar _ _ text _ =>
      match ← scalarMeaning key.tagOf text with
      | .text => return some text
      | .bytes decoded => return some decoded
      | _ => return none
    | _ => throw .collectionAsKey

/-- What decoding a record from a mapping comes to: the record, whether the mapping had anything to
say, and the keys that were given by now. -/
abbrev Merged (σ : Type) := σ × Bool × Option (List String)

/-- Decodes the mappings that the given pairs of a mapping ask to merge, for the fields that were
not given before. -/
def RecordState.merge {σ : Type} (d : Document) (pairs : List (Node × Node)) (s : RecordState σ)
    (decode : Node → Option (List String) → σ → Decoding (Merged σ)) : Decoding (Merged σ) := do
  match s.mergeWith with
  | none => return (s.value, true, s.given)
  | some source =>
    let sources ← mergeSources d source
    -- The keys of the mapping itself win over all the mappings it merges.
    let start ← s.given.elim (keyTexts d pairs) pure
    let (value, inner) ← sources.foldlM
      (fun (value, inner) source => do
        let (value, _, inner) ← decode source inner value
        return (value, inner))
      (s.value, some start)
    return (value, true, s.given.bind fun _ => inner)

/-- Decodes a record from a mapping, and then from the mappings it merges. -/
def RecordType.decodeFrom {σ : Type} (r : RecordType σ) (d : Document) :
    Nat → Node → Option (List String) → σ → Decoding (Merged σ)
  | 0, _, _, _ => throw .tooDeep
  | fuel + 1, n, given, old => visit d n fun n => do
    match n with
    | .mapping _ _ pairs =>
      match duplicateKeys pairs with
      | [] =>
        let s ← pairs.foldlM (r.pair d) { value := old, given := given }
        s.merge d pairs (r.decodeFrom d fuel)
      | list =>
        list.forM misfit
        return (old, false, given)
    | .scalar _ _ text _ =>
      match ← scalarMeaning n.tagOf text with
      | .null => return (old, false, given)
      | _ =>
        misfit (n.unreadable r.name)
        return (old, false, given)
    | _ =>
      misfit (n.unreadable r.name)
      return (old, false, given)

/-- More than the mappings that are merged into each other at a time: no alias is followed within
itself, and between two aliases each mapping stands in the one before. -/
def Document.mergeDepth (d : Document) : Nat :=
  d.bound * d.bound

/-- Decodes a record. -/
def RecordType.decode {σ : Type} (r : RecordType σ) : Decoder σ := fun d n old => do
  let (value, good, _) ← r.decodeFrom d d.mergeDepth n none old
  return (value, good)

/-! ### Documents -/

/-- Decodes the first document of a text, starting from a given value. -/
def decodeDocument {α : Type} (decoder : Decoder α) (start : α) (text : String) :
    Except Error α :=
  match Document.parse text with
  | .error p => .error (.syntaxProblem p)
  | .ok none => .error .noDocument
  | .ok (some d) =>
    -- The document itself counts as a node, too.
    match (decoder d d.root start).run { decoded := 1 } with
    | .error p => .error (.syntaxProblem p)
    | .ok ((value, _), s) => if s.misfits.isEmpty then .ok value else .error (.misfits s.misfits)

end ScriptFlow.Yaml
