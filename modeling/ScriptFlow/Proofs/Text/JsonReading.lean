import ScriptFlow.Proofs.Text.JsonTokens

/-!
# Reading JSON texts

The second half of a reader for JSON texts: values are put together from tokens. Arrays and objects
that are not closed yet stand on a stack with what was read of them, so the reader goes through the
tokens once.

A written value reads back as the value. That is shown in two steps, which meet in the list of
tokens of the value: the written text has these tokens, and they read as the value.

Main statement: `read_render`.
-/

namespace ScriptFlow

namespace Json

/-! ## The reader -/

/-- An array or object that is not closed yet, with what was read of it, the latest first. -/
inductive Unclosed
  | array (items : List Json)
  /-- The value of `key` comes next. -/
  | object (members : List (String × Json)) (key : String)

mutual

/-- Reads a value, or the end of an array that has no items yet. -/
def readValue : List Unclosed → List Token → Option Json
  | unclosed, .null :: ts => readRest unclosed .null ts
  | unclosed, .number n :: ts => readRest unclosed (.number n) ts
  | unclosed, .text s :: ts => readRest unclosed (.text s) ts
  | unclosed, .beginArray :: ts => readValue (.array [] :: unclosed) ts
  | .array [] :: unclosed, .endArray :: ts => readRest unclosed (.array []) ts
  | unclosed, .beginObject :: ts => readMember [] unclosed ts
  | _, _ => none

/-- Reads a member of an object after the given ones, or its end if there are none. -/
def readMember : List (String × Json) → List Unclosed → List Token → Option Json
  | members, unclosed, .text key :: .colon :: ts => readValue (.object members key :: unclosed) ts
  | [], unclosed, .endObject :: ts => readRest unclosed (.object []) ts
  | _, _, _ => none

/-- Reads what follows a value. Outside of all arrays and objects nothing does. -/
def readRest : List Unclosed → Json → List Token → Option Json
  | [], v, [] => some v
  | .array items :: unclosed, v, .comma :: ts => readValue (.array (v :: items) :: unclosed) ts
  | .array items :: unclosed, v, .endArray :: ts =>
    readRest unclosed (.array (v :: items).reverse) ts
  | .object members key :: unclosed, v, .comma :: ts => readMember ((key, v) :: members) unclosed ts
  | .object members key :: unclosed, v, .endObject :: ts =>
    readRest unclosed (.object ((key, v) :: members).reverse) ts
  | _, _, _ => none

end

/-- Reads a text as one JSON value. -/
def read (text : String) : Option Json :=
  (tokens text.toList).bind (readValue [])

/-! ## The tokens of a value -/

mutual

/-- The tokens that a value is written with. -/
def tokensOf : Json → List Token
  | null => [.null]
  | number n => [.number n]
  | text s => [.text s]
  | array [] => [.beginArray, .endArray]
  | array (item :: rest) => .beginArray :: tokensOf item ++ itemTokens rest ++ [.endArray]
  | object [] => [.beginObject, .endObject]
  | object ((key, value) :: rest) =>
    .beginObject :: .text key :: .colon :: tokensOf value ++ memberTokens rest ++ [.endObject]

/-- The tokens of the items of an array after the first one. -/
def itemTokens : List Json → List Token
  | [] => []
  | item :: rest => .comma :: tokensOf item ++ itemTokens rest

/-- The tokens of the members of an object after the first one. -/
def memberTokens : List (String × Json) → List Token
  | [] => []
  | (key, value) :: rest =>
    .comma :: .text key :: .colon :: tokensOf value ++ memberTokens rest

end

mutual

/-- The tokens of a value read as the value. -/
theorem readValue_tokensOf (unclosed : List Unclosed) (ts : List Token) :
    ∀ v : Json, readValue unclosed (tokensOf v ++ ts) = readRest unclosed v ts
  | null => by simp [tokensOf, readValue]
  | number n => by simp [tokensOf, readValue]
  | text s => by simp [tokensOf, readValue]
  | array [] => by simp [tokensOf, readValue]
  | array (item :: rest) => by
    -- The first item is read inside the array, the others after it.
    simp only [tokensOf, List.cons_append, List.append_assoc, readValue]
    rw [readValue_tokensOf, List.nil_append, readRest_items]
    rfl
  | object [] => by simp [tokensOf, readValue, readMember]
  | object ((key, value) :: rest) => by
    -- The key of the first member is read with its colon, and then its value inside the object.
    simp only [tokensOf, List.cons_append, List.append_assoc, readValue, readMember]
    rw [readValue_tokensOf, List.nil_append, readRest_members]
    rfl

/-- What follows the first item of an array reads as the rest of the array. -/
theorem readRest_items (unclosed : List Unclosed) (ts : List Token) (done : List Json) (v : Json) :
    ∀ items : List Json,
      readRest (.array done :: unclosed) v (itemTokens items ++ .endArray :: ts) =
        readRest unclosed (.array (done.reverse ++ v :: items)) ts
  | [] => by simp [itemTokens, readRest]
  | item :: rest => by
    -- The item that was read joins those before it, and the next one takes its place.
    simp only [itemTokens, List.cons_append, List.append_assoc, readRest]
    rw [readValue_tokensOf, readRest_items]
    simp

/-- What follows the first member of an object reads as the rest of the object. -/
theorem readRest_members (unclosed : List Unclosed) (ts : List Token)
    (done : List (String × Json)) (key : String) (v : Json) :
    ∀ members : List (String × Json),
      readRest (.object done key :: unclosed) v (memberTokens members ++ .endObject :: ts) =
        readRest unclosed (.object (done.reverse ++ (key, v) :: members)) ts
  | [] => by simp [memberTokens, readRest]
  | (key', value) :: rest => by
    simp only [memberTokens, List.cons_append, List.append_assoc, readRest, readMember]
    rw [readValue_tokensOf, readRest_members]
    simp

end

/-! ## Written values -/

theorem tokens_mark (mark : String) (t : Token)
    (h : ∀ rest, readToken (mark.toList ++ rest) = some (t, rest)) (rest : List Char) :
    tokens (mark.toList ++ rest) = (tokens rest).map (t :: ·) :=
  tokens_of_readToken (h rest)

/-- A key is followed by a colon and a blank. -/
theorem tokens_colon (rest : List Char) :
    tokens (": ".toList ++ rest) = (tokens rest).map (.colon :: ·) := by
  show tokens (":".toList ++ ' ' :: rest) = _
  rw [tokens_mark ":" .colon fun _ => rfl, tokens_blank rfl]

theorem follows_indent (level : Nat) (rest : List Char) :
    Follows ((indent level).toList ++ rest) := by
  rw [indent, String.toList_ofList]
  exact Or.inr rfl

theorem follows_renderItems (level : Nat) (items : List Json) {rest : List Char}
    (hrest : Follows rest) : Follows ((renderItems level items).toList ++ rest) := by
  -- Without an item what follows is given, otherwise it is a comma.
  cases items with
  | nil => simpa [renderItems] using hrest
  | cons item items =>
    simp only [renderItems, String.toList_append, List.append_assoc]
    exact Or.inl rfl

theorem follows_renderMembers (level : Nat) (members : List (String × Json)) {rest : List Char}
    (hrest : Follows rest) : Follows ((renderMembers level members).toList ++ rest) := by
  cases members with
  | nil => simpa [renderMembers] using hrest
  | cons member members =>
    simp only [renderMembers, String.toList_append, List.append_assoc]
    exact Or.inl rfl

mutual

/-- A written value has the tokens of the value. -/
theorem tokens_render (level : Nat) {rest : List Char} (hrest : Follows rest) :
    ∀ v : Json, tokens ((render level v).toList ++ rest) = (tokens rest).map (tokensOf v ++ ·)
  | null => by
    rw [render, tokens_mark "null" .null fun _ => rfl]
    rfl
  | number n => by
    rw [render, tokens_number n hrest]
    rfl
  | text s => by
    rw [render, tokens_quote]
    rfl
  | array [] => by
    -- An empty array is written on one line, so no line start stands between its brackets.
    rw [render]
    show tokens ("[".toList ++ ("]".toList ++ rest)) = _
    rw [tokens_mark "[" .beginArray fun _ => rfl, tokens_mark "]" .endArray fun _ => rfl,
      Option.map_map]
    rfl
  | array (item :: items) => by
    -- After the first item comes a comma, or the line of the closing bracket.
    have hitems := follows_renderItems (level + 1) items (follows_indent level ("]".toList ++ rest))
    -- The pieces of the text are gone through from the left, each one taking its tokens off.
    simp only [render, String.toList_append, List.append_assoc]
    rw [tokens_mark "[" .beginArray fun _ => rfl, tokens_indent, tokens_render (level + 1) hitems,
      tokens_renderItems (level + 1) (follows_indent level _), tokens_indent,
      tokens_mark "]" .endArray fun _ => rfl]
    simp [tokensOf, Function.comp_def]
  | object [] => by
    rw [render]
    show tokens ("\x7b".toList ++ ("\x7d".toList ++ rest)) = _
    rw [tokens_mark "\x7b" .beginObject fun _ => rfl, tokens_mark "\x7d" .endObject fun _ => rfl,
      Option.map_map]
    rfl
  | object ((key, value) :: members) => by
    have hmembers :=
      follows_renderMembers (level + 1) members (follows_indent level ("\x7d".toList ++ rest))
    simp only [render, String.toList_append, List.append_assoc]
    rw [tokens_mark "\x7b" .beginObject fun _ => rfl, tokens_indent, tokens_quote, tokens_colon,
      tokens_render (level + 1) hmembers, tokens_renderMembers (level + 1) (follows_indent level _),
      tokens_indent, tokens_mark "\x7d" .endObject fun _ => rfl]
    simp [tokensOf, Function.comp_def]

/-- The items after the first one have their tokens. -/
theorem tokens_renderItems (level : Nat) {rest : List Char} (hrest : Follows rest) :
    ∀ items : List Json, tokens ((renderItems level items).toList ++ rest) =
      (tokens rest).map (itemTokens items ++ ·)
  | [] => by simp [renderItems, itemTokens]
  | item :: items => by
    simp only [renderItems, String.toList_append, List.append_assoc]
    -- Each item stands on a line of its own after a comma.
    rw [tokens_mark "," .comma fun _ => rfl, tokens_indent,
      tokens_render level (follows_renderItems level items hrest), tokens_renderItems level hrest]
    simp [itemTokens, Function.comp_def]

/-- The members after the first one have their tokens. -/
theorem tokens_renderMembers (level : Nat) {rest : List Char} (hrest : Follows rest) :
    ∀ members : List (String × Json), tokens ((renderMembers level members).toList ++ rest) =
      (tokens rest).map (memberTokens members ++ ·)
  | [] => by simp [renderMembers, memberTokens]
  | (key, value) :: members => by
    simp only [renderMembers, String.toList_append, List.append_assoc]
    -- A member is an item with a key and a colon in front.
    rw [tokens_mark "," .comma fun _ => rfl, tokens_indent, tokens_quote, tokens_colon,
      tokens_render level (follows_renderMembers level members hrest),
      tokens_renderMembers level hrest]
    simp [memberTokens, Function.comp_def]

end

/-- **A written value reads back as the value.** -/
theorem read_render (v : Json) : read (v.render 0 ++ "\n") = some v := by
  have hend : tokens "\n".toList = some [] := (tokens_blank rfl []).trans tokens_nil
  have htokens : tokens (v.render 0 ++ "\n").toList = some (tokensOf v) := by
    rw [String.toList_append, tokens_render 0 (Or.inr rfl), hend, Option.map_some, List.append_nil]
  -- The tokens are those of the value and no others, so nothing is left after it.
  rw [read, htokens, Option.bind_some]
  have hvalue := readValue_tokensOf [] [] v
  rw [List.append_nil] at hvalue
  rw [hvalue, readRest]

end Json

end ScriptFlow
