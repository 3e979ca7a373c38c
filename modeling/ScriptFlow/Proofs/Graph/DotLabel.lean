import ScriptFlow.Graph.Listing
import ScriptFlow.Proofs.Graph.Coherence

/-!
# Reading the labels of a listing back

A label is a quoted string of the DOT language, in which a backslash matters only directly before a
quote. An escaped text therefore reads back as itself whatever it holds, with one exception: a
backslash at its very end stands directly before the quote that is to close the label. Such a label
is not closed, and a reader goes on into what follows it.

Main statement: `label_reads_back_unless_backslash`.
-/

namespace ScriptFlow

namespace Network

/-! ## The rule for quoted strings -/

/-- Reads a quoted string after its opening quote, and gives its content and what follows its
closing quote. A backslash directly before a quote stands for the quote, and every other character
for itself. -/
def readDotBody : List Char → Option (List Char × List Char)
  | [] => none
  | '\\' :: '"' :: rest => (readDotBody rest).map fun read => ('"' :: read.1, read.2)
  | '"' :: rest => some ([], rest)
  | c :: rest => (readDotBody rest).map fun read => (c :: read.1, read.2)

/-- Reads a quoted string. -/
def readDotString : List Char → Option (List Char × List Char)
  | '"' :: rest => readDotBody rest
  | _ => none

/-- A character that neither closes the string nor escapes what follows it stands for itself. -/
theorem readDotBody_cons {c : Char} {rest : List Char} (hquote : c ≠ '"')
    (hescape : c = '\\' → rest.head? ≠ some '"') :
    readDotBody (c :: rest) = (readDotBody rest).map fun read => (c :: read.1, read.2) := by
  rw [readDotBody.eq_def]
  split <;> simp_all

/-! ## Escaped texts -/

theorem dotEscape_cons (c : Char) (cs : List Char) :
    dotEscape (c :: cs) = (if c = '"' then ['\\', '"'] else [c]) ++ dotEscape cs :=
  List.flatMap_cons

theorem dotEscape_append (cs cs' : List Char) :
    dotEscape (cs ++ cs') = dotEscape cs ++ dotEscape cs' :=
  List.flatMap_append

/-- Without quotes there is nothing to escape. -/
theorem dotEscape_of_not_mem {cs : List Char} (h : '"' ∉ cs) : dotEscape cs = cs := by
  induction cs with
  | nil => rfl
  | cons c cs ih =>
    simp only [List.mem_cons, not_or] at h
    rw [dotEscape_cons, if_neg (Ne.symm h.1), ih h.2]
    rfl

/-- An escaped text does not begin with a quote. -/
theorem head?_dotEscape_ne {cs : List Char} (hne : cs ≠ []) (tail : List Char) :
    (dotEscape cs ++ tail).head? ≠ some '"' := by
  cases cs with
  | nil => contradiction
  | cons c cs =>
    rw [dotEscape_cons]
    by_cases hc : c = '"'
    · simp [hc]
    · simp [hc]

/-- An escaped text reads as the text, unless its last character is a backslash and a quote comes
next. -/
theorem readDotBody_escape {cs tail : List Char}
    (h : cs.getLast? ≠ some '\\' ∨ tail.head? ≠ some '"') :
    readDotBody (dotEscape cs ++ tail) =
      (readDotBody tail).map fun read => (cs ++ read.1, read.2) := by
  -- Induction on the text: its first character is a quote that was escaped, or it stands for
  -- itself.
  induction cs with
  | nil => simp [dotEscape]
  | cons c cs ih =>
    have hrest : readDotBody (dotEscape cs ++ tail) =
        (readDotBody tail).map fun read => (cs ++ read.1, read.2) := by
      apply ih
      -- The last character is still the same one, if there is one left.
      by_cases hcs : cs = []
      · simp [hcs]
      · rwa [List.getLast?_cons_of_ne_nil hcs] at h
    rw [dotEscape_cons]
    by_cases hc : c = '"'
    · subst hc
      simp [readDotBody, hrest, Function.comp_def]
    · -- A backslash escapes nothing here: what follows begins with a quote only at the very end.
      have hescape : c = '\\' → (dotEscape cs ++ tail).head? ≠ some '"' := by
        rintro rfl
        by_cases hcs : cs = []
        · simpa [hcs, dotEscape] using h
        · exact head?_dotEscape_ne hcs tail
      rw [if_neg hc, List.singleton_append, List.cons_append, readDotBody_cons hc hescape, hrest]
      simp [Function.comp_def]

/-- Texts that are the same when escaped are the same. -/
theorem dotEscape_injective : Function.Injective dotEscape := by
  intro cs cs' h
  -- Closed behind one more character, both read as they are.
  have hread : ∀ l, readDotBody (dotEscape l ++ ['.', '"']) = some (l ++ ['.'], []) := by
    intro l
    rw [readDotBody_escape (Or.inr (by simp))]
    -- The full stop is no backslash, so the closing quote is read as one.
    simp [readDotBody]
  have hsame := (hread cs).symm.trans (h ▸ hread cs')
  simpa using hsame

/-! ## Labels -/

/-- What a label is meant to say. -/
def dotContent (id : Nat) (text : String) : String :=
  toString id ++ ": " ++ text

/-- A label is its escaped content between quotes, since the id needs no escaping. -/
theorem toList_dotLabel (id : Nat) (text : String) :
    (dotLabel id text).toList = '"' :: (dotEscape (dotContent id text).toList ++ ['"']) := by
  have hid : dotEscape (toString id).toList = (toString id).toList := by
    apply dotEscape_of_not_mem
    intro hquote
    exact absurd (isDigit_of_mem_toString hquote) (by decide)
  have hcolon : dotEscape ": ".toList = ": ".toList := by decide
  simp only [dotLabel, dotContent, String.toList_append, String.toList_ofList, dotEscape_append,
    hid, hcolon]
  simp

/-- A content tells the id and the text. -/
theorem dotContent_injective {id id' : Nat} {text text' : String}
    (h : dotContent id text = dotContent id' text') : id = id' ∧ text = text' := by
  -- The id ends at the first colon.
  have hid : ∀ (n : Nat) (t : String),
      (dotContent n t).toList.takeWhile Char.isDigit = (toString n).toList ∧
        (dotContent n t).toList.dropWhile Char.isDigit = ':' :: ' ' :: t.toList := by
    intro n t
    have hdigits : ∀ c ∈ (toString n).toList, c.isDigit = true := fun c => isDigit_of_mem_toString
    have hsplit : (dotContent n t).toList = (toString n).toList ++ ':' :: ' ' :: t.toList := by
      simp [dotContent]
    rw [hsplit, List.takeWhile_append_of_pos hdigits, List.dropWhile_append_of_pos hdigits]
    simp [List.takeWhile, List.dropWhile, show ':'.isDigit = false by decide]
  obtain ⟨hfirst, hrest⟩ := hid id text
  obtain ⟨hfirst', hrest'⟩ := hid id' text'
  rw [h] at hfirst hrest
  constructor
  · -- Numbers with the same digits are the same.
    have hsame := hfirst.symm.trans hfirst'
    rw [toList_toString, toList_toString] at hsame
    simpa using congrArg (Nat.ofDigitChars 10 · 0) hsame
  · have hsame := hrest.symm.trans hrest'
    simp only [List.cons.injEq, true_and] at hsame
    exact String.toList_inj.mp hsame

/-- Labels differ whenever the ids or the texts do. -/
theorem dotLabel_injective {id id' : Nat} {text text' : String}
    (h : dotLabel id text = dotLabel id' text') : id = id' ∧ text = text' := by
  have hlist := congrArg String.toList h
  rw [toList_dotLabel, toList_dotLabel, List.cons.injEq] at hlist
  have hescaped := List.append_cancel_right hlist.2
  exact dotContent_injective (String.toList_inj.mp (dotEscape_injective hescaped))

/-- A content ends in a backslash if and only if the text does. -/
theorem getLast?_dotContent (id : Nat) (text : String) :
    (dotContent id text).toList.getLast? = some '\\' ↔ text.toList.getLast? = some '\\' := by
  by_cases htext : text.toList = []
  · simp [dotContent, htext]
  · rw [dotContent, String.toList_append, List.getLast?_append_of_ne_nil _ htext]

/-- A label whose text does not end in a backslash is closed by its last character. -/
theorem readDotString_label (id : Nat) {text : String} (hlast : text.toList.getLast? ≠ some '\\')
    (rest : List Char) :
    readDotString ((dotLabel id text).toList ++ rest) =
      some ((dotContent id text).toList, rest) := by
  rw [toList_dotLabel, List.cons_append, List.append_assoc]
  have hcontent := mt (getLast?_dotContent id text).mp hlast
  simp [readDotString, readDotBody_escape (Or.inl hcontent), readDotBody]

/-- A label whose text ends in a backslash is not: the backslash takes the closing quote into the
content, and the string ends at the first quote that closes in what follows. -/
theorem readDotString_label_of_backslash (id : Nat) {text : String}
    (hlast : text.toList.getLast? = some '\\') (rest : List Char) :
    readDotString ((dotLabel id text).toList ++ rest) =
      (readDotBody rest).map fun read =>
        ((dotContent id text).toList.dropLast ++ '"' :: read.1, read.2) := by
  rw [toList_dotLabel, List.cons_append, List.append_assoc]
  obtain ⟨before, hbefore⟩ :=
    List.getLast?_eq_some_iff.mp ((getLast?_dotContent id text).mpr hlast)
  have hescape : dotEscape ['\\'] = ['\\'] := by decide
  -- What comes before the backslash reads as it is, since a backslash follows it and no quote.
  have hread : readDotBody (dotEscape before ++ '\\' :: '"' :: rest) =
      (readDotBody rest).map fun read => (before ++ '"' :: read.1, read.2) := by
    rw [readDotBody_escape (Or.inr (by simp))]
    simp [readDotBody, Function.comp_def]
  rw [hbefore, dotEscape_append, hescape, List.append_assoc, List.dropLast_concat]
  exact hread

/-- The points of one graph are told apart by their ids. -/
theorem Built.eq_of_idOf_eq {net : Network} (h : net.Built) {g p q : Nat} (hp : p ∈ net.pointsOf g)
    (hq : q ∈ net.pointsOf g) (hid : net.idOf p = net.idOf q) : p = q := by
  -- Both have the place of that id in the graph, where one point is listed.
  have hplace := h.placed.mem_pointsOf_iff.mp hp
  have hplace' := h.placed.mem_pointsOf_iff.mp hq
  rw [hid] at hplace
  have hsame := ((h.placed _ _ _).mpr hplace).symm.trans ((h.placed _ _ _).mpr hplace')
  exact Option.some.inj hsame

/-- A label is one quoted string with the content that is meant exactly if its text does not end in
a backslash. -/
theorem readDotString_label_iff (id : Nat) (text : String) :
    readDotString (dotLabel id text).toList = some ((dotContent id text).toList, []) ↔
      text.toList.getLast? ≠ some '\\' := by
  constructor
  · intro hread hlast
    -- Nothing follows, so the string that goes on has no end.
    have hopen := readDotString_label_of_backslash id hlast []
    rw [List.append_nil, hread] at hopen
    simp [readDotBody] at hopen
  · intro hlast
    simpa using readDotString_label id hlast []

/-- **A label reads back as what it says, unless its text ends in a backslash.** Only then is it not
one quoted string with the id and the text. Otherwise a reader stops at its last character, whatever
follows. With a backslash at the end of the text the closing quote is taken for a part of the text,
and the reader goes on into what follows. Labels differ whenever the ids or the texts do, so the
labels of two points of one graph are never the same. -/
theorem label_reads_back_unless_backslash (id : Nat) (text : String) :
    (readDotString (dotLabel id text).toList = some ((dotContent id text).toList, []) ↔
        text.toList.getLast? ≠ some '\\') ∧
      (text.toList.getLast? ≠ some '\\' → ∀ rest,
        readDotString ((dotLabel id text).toList ++ rest) =
          some ((dotContent id text).toList, rest)) ∧
      (text.toList.getLast? = some '\\' → ∀ rest,
        readDotString ((dotLabel id text).toList ++ rest) =
          (readDotBody rest).map fun read =>
            ((dotContent id text).toList.dropLast ++ '"' :: read.1, read.2)) ∧
      (∀ id' text', dotLabel id text = dotLabel id' text' ↔ id = id' ∧ text = text') ∧
      ∀ net : Network, net.Built → ∀ g, ∀ p ∈ net.pointsOf g, ∀ q ∈ net.pointsOf g, p ≠ q →
        net.dotLabelOf p ≠ net.dotLabelOf q := by
  refine ⟨readDotString_label_iff id text, readDotString_label id,
    readDotString_label_of_backslash id, fun id' text' => ?_,
    fun net hnet g p hp q hq hne hsame => ?_⟩
  · constructor
    · exact dotLabel_injective
    · rintro ⟨rfl, rfl⟩
      rfl
  · exact hne (hnet.eq_of_idOf_eq hp hq (dotLabel_injective hsame).1)

/-! ## Two commands -/

/-- Two points with the same text, in which quotes and backslashes stand. -/
def twins : Network :=
  ((Network.empty.newGraph.1.newPoint 0 "grep \"\\\" a").1.newPoint 0 "grep \"\\\" a").1

theorem twins_built : twins.Built := by
  refine .newPoint 0 _ (.newPoint 0 _ (.newGraph .empty) ?_) ?_
  · decide
  · decide

/-- Equal texts get different labels, and each reads back. -/
theorem label_reads_back_unless_backslash_twins :
    twins.Built ∧ twins.pointsOf 0 = [0, 1] ∧ twins.text 0 = twins.text 1 ∧
      (twins.text 0).toList.getLast? ≠ some '\\' ∧ twins.dotLabelOf 0 ≠ twins.dotLabelOf 1 ∧
      readDotString (twins.dotLabelOf 1).toList = some ("1: grep \"\\\" a".toList, []) := by
  have hpoints : twins.pointsOf 0 = [0, 1] := by decide +kernel
  have hlast : (twins.text 0).toList.getLast? ≠ some '\\' := by decide +kernel
  obtain ⟨hread, -, -, -, hdistinct⟩ := label_reads_back_unless_backslash 1 (twins.text 1)
  refine ⟨twins_built, hpoints, by decide +kernel, hlast, ?_, ?_⟩
  · apply hdistinct twins twins_built 0
    · simp [hpoints]
    · simp [hpoints]
    · simp
  · exact hread.mpr (by decide +kernel)

/-- A command whose text ends in a backslash gets a label that is not closed. -/
theorem label_not_closed :
    let net := (Network.empty.newGraph.1.newPoint 0 "rm a\\").1
    net.Built ∧ net.text 0 = "rm a\\" ∧ net.dotLabelOf 0 = "\"0: rm a\\\"" ∧
      readDotString (net.dotLabelOf 0).toList = none := by
  refine ⟨.newPoint 0 _ (.newGraph .empty) (by decide), ?_, ?_, ?_⟩
  · decide +kernel
  · decide +kernel
  · decide +kernel

end Network

end ScriptFlow
