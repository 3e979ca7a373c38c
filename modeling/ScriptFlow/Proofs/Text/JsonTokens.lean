import ScriptFlow.Text.Json
import ScriptFlow.Proofs.Basic

/-!
# The tokens of a JSON text

The first half of a reader for JSON texts: the text is cut into tokens, and white space between them
is dropped. A string token is read by the rules for escapes, with one code unit or a surrogate pair
for a numbered character; a number token is an integer without zeros in front. There are no tokens
for truth values and fractions, since no value of `Json` has any.

Strings and numbers are read back from the way they are written, whatever follows a string, and
whatever cannot go on with a number.

Main statements: `readText_escaped`, `readNumber_toString` and `tokens_of_readToken`.
-/

namespace ScriptFlow

namespace Json

/-! ## Strings -/

/-- The value of a hexadecimal digit in either case. -/
def hexValue (c : Char) : Option Nat :=
  if c.isDigit then some (c.toNat - 48)
  else if 'a' ≤ c ∧ c ≤ 'f' then some (c.toNat - 87)
  else if 'A' ≤ c ∧ c ≤ 'F' then some (c.toNat - 55)
  else none

/-- Reads a code unit of four hexadecimal digits. -/
def readUnit : List Char → Option (Nat × List Char)
  | a :: b :: c :: d :: rest =>
    match hexValue a, hexValue b, hexValue c, hexValue d with
    | some a, some b, some c, some d => some (((a * 16 + b) * 16 + c) * 16 + d, rest)
    | _, _, _, _ => none
  | _ => none

/-- Reads the second unit of a surrogate pair with the given first one. -/
def readPair (high : Nat) : List Char → Option (Char × List Char)
  | '\\' :: 'u' :: rest =>
    match readUnit rest with
    | some (low, rest) =>
      if 0xDC00 ≤ low ∧ low < 0xE000 then
        some (Char.ofNat (0x10000 + (high - 0xD800) * 0x400 + (low - 0xDC00)), rest)
      else none
    | none => none
  | _ => none

/-- Reads a character that is given by its number. -/
def readNumbered (cs : List Char) : Option (Char × List Char) :=
  match readUnit cs with
  | some (unit, rest) =>
    if 0xD800 ≤ unit ∧ unit < 0xDC00 then readPair unit rest
    else if 0xDC00 ≤ unit ∧ unit < 0xE000 then none
    else some (Char.ofNat unit, rest)
  | none => none

/-- Reads an escaped character after its backslash. -/
def readEscape : List Char → Option (Char × List Char)
  | '"' :: rest => some ('"', rest)
  | '\\' :: rest => some ('\\', rest)
  | '/' :: rest => some ('/', rest)
  | 'b' :: rest => some ('\x08', rest)
  | 'f' :: rest => some ('\x0c', rest)
  | 'n' :: rest => some ('\n', rest)
  | 'r' :: rest => some ('\x0d', rest)
  | 't' :: rest => some ('\t', rest)
  | 'u' :: rest => readNumbered rest
  | _ => none

/-- Reading a code unit takes characters away. -/
theorem length_of_readUnit {cs rest : List Char} {n : Nat} (h : readUnit cs = some (n, rest)) :
    rest.length < cs.length := by
  unfold readUnit at h
  split at h
  · split at h
    · cases h
      simp only [List.length_cons]
      omega
    · cases h
  · cases h

theorem length_of_readPair {cs rest : List Char} {high : Nat} {c : Char}
    (h : readPair high cs = some (c, rest)) : rest.length < cs.length := by
  unfold readPair at h
  split at h
  · split at h
    · rename_i hunit
      split at h
      · simp only [Option.some.injEq, Prod.mk.injEq] at h
        have hlength := length_of_readUnit hunit
        rw [← h.2]
        simp only [List.length_cons]
        omega
      · cases h
    · cases h
  · cases h

/-- Reading a numbered character takes characters away, be it one unit or two. -/
theorem length_of_readNumbered {cs rest : List Char} {c : Char}
    (h : readNumbered cs = some (c, rest)) : rest.length < cs.length := by
  unfold readNumbered at h
  split at h
  · rename_i hunit
    have hlength := length_of_readUnit hunit
    split at h
    · -- The second unit of a pair is read from what follows the first one.
      exact (length_of_readPair h).trans hlength
    · split at h
      · cases h
      · cases h
        exact hlength
  · cases h

/-- Reading an escaped character takes characters away. -/
theorem length_of_readEscape {cs rest : List Char} {c : Char}
    (h : readEscape cs = some (c, rest)) : rest.length < cs.length := by
  unfold readEscape at h
  split at h
  -- All escapes but the numbered ones take a single character.
  case h_9 => exact (length_of_readNumbered h).trans (Nat.lt_succ_self _)
  case h_10 => cases h
  all_goals
    cases h
    exact Nat.lt_succ_self _

/-- Reads a string after its opening quote, and gives its content and what follows its closing
quote. Control characters have to be escaped. -/
def readText : List Char → Option (List Char × List Char)
  | [] => none
  | '"' :: rest => some ([], rest)
  | '\\' :: rest =>
    match _h : readEscape rest with
    | some (c, rest) => (readText rest).map fun read => (c :: read.1, read.2)
    | none => none
  | c :: rest =>
    if c.toNat < 0x20 then none else (readText rest).map fun read => (c :: read.1, read.2)
termination_by cs => cs.length
decreasing_by
  · exact (length_of_readEscape _h).trans (Nat.lt_succ_self _)
  · exact Nat.lt_succ_self _

/-! ## Strings read back -/

theorem hexValue_hexDigit {d : Nat} (h : d < 16) : hexValue (Text.hexDigit d) = some d := by
  revert d
  decide

theorem readUnit_hexDigits {n : Nat} (h : n < 0x10000) (rest : List Char) :
    readUnit (Text.hexDigits 4 n ++ rest) = some (n, rest) := by
  have hdigit (k : Nat) : hexValue (Text.hexDigit (k % 16)) = some (k % 16) :=
    hexValue_hexDigit (Nat.mod_lt k (by omega))
  simp only [Text.hexDigits, List.nil_append, List.cons_append, readUnit, hdigit, Option.some.injEq,
    Prod.mk.injEq, and_true]
  -- What is left is that a number below the bound is made of its four last digits.
  omega

/-- A character given by one code unit is never half of a surrogate pair. -/
theorem readNumbered_hexDigits {c : Char} (h : c.toNat < 0x10000) (rest : List Char) :
    readNumbered (Text.hexDigits 4 c.toNat ++ rest) = some (c, rest) := by
  have hvalid : c.toNat < 0xD800 ∨ 0xDFFF < c.toNat ∧ c.toNat < 0x110000 := c.valid
  -- The character is no surrogate, so the unit is not taken for the first of a pair.
  rw [readNumbered, readUnit_hexDigits h]
  show (if _ then _ else _) = _
  rw [if_neg (by omega), if_neg (by omega), Char.ofNat_toNat]

/-- A backslash and what is escaped by it read as one character. -/
theorem readText_of_escape {cs rest : List Char} {c : Char} (h : readEscape cs = some (c, rest)) :
    readText ('\\' :: cs) = (readText rest).map fun read => (c :: read.1, read.2) := by
  rw [readText]
  -- The match keeps its equation for the termination proof, so it is opened instead of rewritten.
  split
  · rename_i heq
    rw [h] at heq
    cases heq
    rfl
  · rename_i heq
    rw [h] at heq
    cases heq

/-- A character other than quotes, backslashes and control characters stands for itself. -/
theorem readText_of_plain {c : Char} {rest : List Char} (hquote : c ≠ '"') (hbackslash : c ≠ '\\')
    (hcontrol : ¬ c.toNat < 0x20) :
    readText (c :: rest) = (readText rest).map fun read => (c :: read.1, read.2) := by
  rw [readText]
  · rw [if_neg hcontrol]
  · exact hquote
  · exact hbackslash

/-- A written character reads as the character. -/
theorem readText_escapeChar (c : Char) (rest : List Char) :
    readText (escapeChar c ++ rest) = (readText rest).map fun read => (c :: read.1, read.2) := by
  unfold escapeChar
  split
  -- The last case is that of the characters without a short escape.
  case h_8 hquote hbackslash _ _ _ _ _ =>
    split
    · -- All characters that are given by their numbers have one code unit.
      rename_i hspecial
      have hsmall : c.toNat < 0x10000 := by
        simp only [Bool.or_eq_true, decide_eq_true_eq, beq_iff_eq] at hspecial
        rcases hspecial with ((((h | rfl) | rfl) | rfl) | h) | h
        · omega
        · decide
        · decide
        · decide
        · omega
        · omega
      apply readText_of_escape
      exact readNumbered_hexDigits hsmall rest
    · rename_i hplain
      apply readText_of_plain
      · exact hquote
      · exact hbackslash
      · intro hcontrol
        simp [hcontrol] at hplain
  -- Each short escape is read back by one case of the reader.
  all_goals exact readText_of_escape rfl

/-- **A written text reads as the text**, whatever follows its closing quote. -/
theorem readText_escaped (cs rest : List Char) :
    readText (cs.flatMap escapeChar ++ '"' :: rest) = some (cs, rest) := by
  -- On the text: its first character is read, whatever the rest of it is.
  induction cs with
  | nil =>
    show readText ('"' :: rest) = _
    rw [readText]
  | cons c cs ih =>
    rw [List.flatMap_cons, List.append_assoc, readText_escapeChar, ih]
    rfl

/-! ## Numbers -/

/-- Whether digits make up a number: no zero stands in front of others. -/
def isNumeral (digits : List Char) : Bool :=
  match digits with
  | [] => false
  | '0' :: rest => rest.isEmpty
  | _ => true

/-- Whether a number goes on with a fraction or an exponent. -/
def goesOn (cs : List Char) : Bool :=
  cs.head?.any fun c => c = '.' || c = 'e' || c = 'E'

/-- Reads a number without a sign. -/
def readNatural (cs : List Char) : Option (Nat × List Char) :=
  let digits := cs.takeWhile Char.isDigit
  let rest := cs.dropWhile Char.isDigit
  if isNumeral digits && !goesOn rest then some (Nat.ofDigitChars 10 digits 0, rest) else none

/-- Reads a number. -/
def readNumber : List Char → Option (Int × List Char)
  | '-' :: rest => (readNatural rest).map fun read => (-(read.1 : Int), read.2)
  | cs => (readNatural cs).map fun read => ((read.1 : Int), read.2)

/-- What follows a value in a written text: a comma or a line end. -/
def Follows (rest : List Char) : Prop :=
  rest.head? = some ',' ∨ rest.head? = some '\n'

/-- A number is written without zeros in front. -/
theorem isNumeral_toDigits (n : Nat) : isNumeral (Nat.toDigits 10 n) = true := by
  rcases Nat.eq_zero_or_pos n with rfl | hpos
  · rfl
  · have hhead := head?_toDigits_ne hpos
    unfold isNumeral
    split
    · rename_i hnil
      exact absurd hnil Nat.toDigits_ne_nil
    · rename_i hzero
      rw [hzero] at hhead
      exact absurd rfl hhead
    · rfl

/-- What follows a value has no digit in front and does not go on with a number. -/
theorem Follows.not_isDigit {rest : List Char} (h : Follows rest) :
    rest.takeWhile Char.isDigit = [] ∧ rest.dropWhile Char.isDigit = rest ∧
      goesOn rest = false := by
  -- Only the first character is looked at, and it is one of two.
  obtain ⟨c, tail, rfl, hc⟩ : ∃ c tail, rest = c :: tail ∧ (c = ',' ∨ c = '\n') := by
    rcases h with h | h
    · obtain ⟨tail, rfl⟩ := List.head?_eq_some_iff.mp h
      exact ⟨',', tail, rfl, Or.inl rfl⟩
    · obtain ⟨tail, rfl⟩ := List.head?_eq_some_iff.mp h
      exact ⟨'\n', tail, rfl, Or.inr rfl⟩
  rcases hc with rfl | rfl
  · exact ⟨rfl, rfl, rfl⟩
  · exact ⟨rfl, rfl, rfl⟩

/-- A natural number reads as the number. -/
theorem readNatural_toDigits (n : Nat) {rest : List Char} (hrest : Follows rest) :
    readNatural (Nat.toDigits 10 n ++ rest) = some (n, rest) := by
  have hdigits : ∀ c ∈ Nat.toDigits 10 n, c.isDigit = true := fun c hc =>
    Nat.isDigit_of_mem_toDigits (by omega) (by omega) hc
  -- The digits end where the number ends.
  obtain ⟨hnone, hall, hends⟩ := hrest.not_isDigit
  simp only [readNatural, List.takeWhile_append_of_pos hdigits,
    List.dropWhile_append_of_pos hdigits, hnone, hall, List.append_nil, isNumeral_toDigits, hends,
    Nat.ofDigitChars_ten_toDigits]
  rfl

/-- **A written number reads as the number**, if nothing follows that goes on with it. -/
theorem readNumber_toString (n : Int) {rest : List Char} (hrest : Follows rest) :
    readNumber ((toString n).toList ++ rest) = some (n, rest) := by
  rw [Int.toString_eq_repr, Int.repr_eq_if]
  split
  · rename_i hsign
    rw [Nat.toList_repr]
    have hread := readNatural_toDigits n.toNat hrest
    -- The first character is a digit and no minus sign.
    unfold readNumber
    split
    · rename_i tail hminus
      obtain ⟨c, cs, hcs⟩ :=
        List.exists_cons_of_ne_nil (Nat.toDigits_ne_nil (n := n.toNat) (b := 10))
      have hdigit : c.isDigit = true :=
        Nat.isDigit_of_mem_toDigits (by omega) (by omega) (hcs ▸ List.mem_cons_self)
      rw [hcs, List.cons_append, List.cons.injEq] at hminus
      rw [hminus.1] at hdigit
      exact absurd hdigit (by decide)
    · rw [hread]
      show some ((n.toNat : Int), rest) = _
      rw [Int.toNat_of_nonneg hsign]
  · -- A negative number is written as a minus sign and the number without it.
    rename_i hsign
    rw [String.toList_append, Nat.toList_repr]
    show (readNatural (Nat.toDigits 10 (-n).toNat ++ rest)).map _ = _
    rw [readNatural_toDigits _ hrest]
    show some (-((-n).toNat : Int), rest) = _
    rw [Int.toNat_of_nonneg (by omega), Int.neg_neg]

/-! ## Tokens -/

/-- The pieces that a JSON text is made of. -/
inductive Token
  | beginArray
  | endArray
  | beginObject
  | endObject
  | comma
  | colon
  | null
  | number (n : Int)
  | text (s : String)
deriving DecidableEq

/-- White space between tokens. -/
def isBlank (c : Char) : Bool :=
  c = ' ' || c = '\t' || c = '\n' || c = '\x0d'

/-- Reads one token. -/
def readToken : List Char → Option (Token × List Char)
  | '[' :: rest => some (.beginArray, rest)
  | ']' :: rest => some (.endArray, rest)
  | '\x7b' :: rest => some (.beginObject, rest)
  | '\x7d' :: rest => some (.endObject, rest)
  | ',' :: rest => some (.comma, rest)
  | ':' :: rest => some (.colon, rest)
  | 'n' :: 'u' :: 'l' :: 'l' :: rest => some (.null, rest)
  | '"' :: rest => (readText rest).map fun read => (.text (String.ofList read.1), read.2)
  | cs => (readNumber cs).map fun read => (.number read.1, read.2)

/-- Reading a string takes characters away. -/
theorem length_of_readText {cs : List Char} {read : List Char × List Char}
    (h : readText cs = some read) : read.2.length < cs.length := by
  -- Along the reader itself, where each step goes on with less text.
  fun_induction readText cs generalizing read with
  | case1 => cases h
  | case2 rest =>
    cases h
    exact Nat.lt_succ_self _
  | case3 rest c rest' hescape ih =>
    obtain ⟨read', hread, rfl⟩ := Option.map_eq_some_iff.mp h
    have hlength := length_of_readEscape hescape
    exact (ih hread).trans (hlength.trans (Nat.lt_succ_self _))
  | case4 => cases h
  | case5 => cases h
  | case6 c rest _ _ _ ih =>
    obtain ⟨read', hread, rfl⟩ := Option.map_eq_some_iff.mp h
    exact (ih hread).trans (Nat.lt_succ_self _)

/-- Reading a number without a sign takes at least one digit away. -/
theorem length_of_readNatural {cs : List Char} {read : Nat × List Char}
    (h : readNatural cs = some read) : read.2.length < cs.length := by
  simp only [readNatural] at h
  split at h
  · rename_i hdigits
    cases h
    have hpos : 0 < (cs.takeWhile Char.isDigit).length := by
      apply List.length_pos_iff.mpr
      intro hnil
      simp [hnil, isNumeral] at hdigits
    have hsplit := congrArg List.length
      (List.takeWhile_append_dropWhile (p := Char.isDigit) (l := cs))
    rw [List.length_append] at hsplit
    show (cs.dropWhile Char.isDigit).length < cs.length
    omega
  · cases h

theorem length_of_readNumber {cs : List Char} {read : Int × List Char}
    (h : readNumber cs = some read) : read.2.length < cs.length := by
  unfold readNumber at h
  split at h
  · obtain ⟨read', hread, rfl⟩ := Option.map_eq_some_iff.mp h
    exact (length_of_readNatural hread).trans (Nat.lt_succ_self _)
  · obtain ⟨read', hread, rfl⟩ := Option.map_eq_some_iff.mp h
    exact length_of_readNatural hread

/-- Reading a token takes characters away, so cutting a text into tokens comes to an end. -/
theorem length_of_readToken {cs rest : List Char} {t : Token}
    (h : readToken cs = some (t, rest)) : rest.length < cs.length := by
  unfold readToken at h
  split at h
  -- Strings and numbers have readers of their own, all other tokens are fixed texts.
  case h_8 =>
    obtain ⟨read, hread, hpair⟩ := Option.map_eq_some_iff.mp h
    cases hpair
    exact (length_of_readText hread).trans (Nat.lt_succ_self _)
  case h_9 =>
    obtain ⟨read, hread, hpair⟩ := Option.map_eq_some_iff.mp h
    cases hpair
    exact length_of_readNumber hread
  all_goals
    cases h
    simp only [List.length_cons]
    omega

/-- Cuts a text into tokens. -/
def tokens : List Char → Option (List Token)
  | [] => some []
  | c :: rest =>
    if isBlank c then tokens rest
    else match _h : readToken (c :: rest) with
      | some (t, rest) => (tokens rest).map (t :: ·)
      | none => none
termination_by cs => cs.length
decreasing_by
  · exact Nat.lt_succ_self _
  · exact length_of_readToken _h

theorem tokens_nil : tokens [] = some [] := by
  rw [tokens]

theorem tokens_blank {c : Char} (h : isBlank c = true) (rest : List Char) :
    tokens (c :: rest) = tokens rest := by
  rw [tokens, if_pos h]

/-- No token begins with white space. -/
theorem readToken_blank {c : Char} (h : isBlank c = true) (rest : List Char) :
    readToken (c :: rest) = none := by
  simp only [isBlank, Bool.or_eq_true, decide_eq_true_eq] at h
  rcases h with ((rfl | rfl) | rfl) | rfl
  · rfl
  · rfl
  · rfl
  · rfl

/-- The tokens of a text are its first one and those of the rest. -/
theorem tokens_of_readToken {cs rest : List Char} {t : Token} (h : readToken cs = some (t, rest)) :
    tokens cs = (tokens rest).map (t :: ·) := by
  cases cs with
  | nil => cases h
  | cons c cs =>
    -- A token was read, so the text does not begin with white space.
    have hblank : ¬ isBlank c = true := by
      intro hblank
      rw [readToken_blank hblank] at h
      cases h
    rw [tokens, if_neg hblank]
    split
    · rename_i heq
      rw [h] at heq
      cases heq
      rfl
    · rename_i heq
      rw [h] at heq
      cases heq

/-! ## Written strings, numbers and line starts -/

/-- The start of a line is white space up to the first token on it. -/
theorem tokens_indent (level : Nat) (rest : List Char) :
    tokens ((indent level).toList ++ rest) = tokens rest := by
  rw [indent, String.toList_ofList, List.cons_append, tokens_blank rfl]
  -- On the number of blanks.
  induction 2 * level with
  | zero => rfl
  | succ n ih =>
    rw [List.replicate_succ, List.cons_append, tokens_blank rfl]
    exact ih

/-- A written string is one token. -/
theorem tokens_quote (s : String) (rest : List Char) :
    tokens ((quote s).toList ++ rest) = (tokens rest).map (.text s :: ·) := by
  apply tokens_of_readToken
  rw [quote, String.toList_ofList]
  show (readText ((s.toList.flatMap escapeChar ++ ['"']) ++ rest)).map _ = _
  rw [List.append_assoc, List.singleton_append, readText_escaped, Option.map_some,
    String.ofList_toList]

/-- What reads as a number is no other token. -/
theorem readToken_of_readNumber {cs rest : List Char} {n : Int}
    (h : readNumber cs = some (n, rest)) : readToken cs = some (.number n, rest) := by
  unfold readToken
  split
  case h_9 => rw [h, Option.map_some]
  -- Every other token begins with a character that no number begins with.
  all_goals cases h

theorem tokens_number (n : Int) {rest : List Char} (hrest : Follows rest) :
    tokens ((toString n).toList ++ rest) = (tokens rest).map (.number n :: ·) := by
  apply tokens_of_readToken
  apply readToken_of_readNumber
  exact readNumber_toString n hrest

end Json

end ScriptFlow
