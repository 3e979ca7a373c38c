/-!
# White space

The characters that separate words, and the two cuts made at them: `fields` splits a text into its
words, `trimChars` drops the white space around a list of characters. Main statement: no field is
empty or holds white space.
-/

namespace ScriptFlow.Text

/-- The characters with the White_Space property: the ASCII controls from tab to carriage return,
the space, the next-line control, the no-break space and the spaces of the general punctuation and
ideographic blocks. -/
def isBlank (c : Char) : Bool :=
  let n := c.toNat
  (9 ≤ n && n ≤ 13) || n == 0x20 || n == 0x85 || n == 0xA0 || n == 0x1680 ||
    (0x2000 ≤ n && n ≤ 0x200A) || n == 0x2028 || n == 0x2029 || n == 0x202F || n == 0x205F ||
    n == 0x3000

/-- The maximal runs of characters that are not white space, from left to right.
The accumulator holds the characters of the run being read, last first. -/
def fieldsFrom : List Char → List Char → List (List Char)
  | run, [] => if run.isEmpty then [] else [run.reverse]
  | run, c :: rest =>
    if isBlank c then
      if run.isEmpty then fieldsFrom [] rest else run.reverse :: fieldsFrom [] rest
    else fieldsFrom (c :: run) rest

/-- The words of a text. -/
def fields (text : String) : List String :=
  (fieldsFrom [] text.toList).map String.ofList

/-- A list of characters without the white space at its front. -/
def trimLeft (cs : List Char) : List Char :=
  cs.dropWhile isBlank

/-- A list of characters without the white space around it. -/
def trimChars (cs : List Char) : List Char :=
  (trimLeft (trimLeft cs).reverse).reverse

/-- The pieces of a text between the occurrences of a separator; a text without the separator is
its only piece. -/
def splitAt (sep : Char) : List Char → List (List Char)
  | [] => [[]]
  | c :: rest =>
    if c = sep then [] :: splitAt sep rest
    else match splitAt sep rest with
      | [] => [[c]]
      | piece :: more => (c :: piece) :: more

/-- Fields are never empty and hold no white space. -/
theorem fieldsFrom_spec (run cs : List Char) (hrun : ∀ c ∈ run, isBlank c = false) :
    ∀ w ∈ fieldsFrom run cs, w ≠ [] ∧ ∀ c ∈ w, isBlank c = false := by
  induction cs generalizing run with
  | nil =>
    intro w hw
    by_cases h : run = []
    · simp [fieldsFrom, h] at hw
    · simp [fieldsFrom, h] at hw
      subst hw
      exact ⟨by simpa using h, fun c hc => hrun c (List.mem_reverse.1 hc)⟩
  | cons d rest ih =>
    intro w hw
    by_cases hd : isBlank d
    · by_cases h : run = []
      · simp [fieldsFrom, hd, h] at hw
        exact ih [] (by simp) w hw
      · simp [fieldsFrom, hd, h] at hw
        rcases hw with rfl | hw
        · exact ⟨by simpa using h, fun c hc => hrun c (List.mem_reverse.1 hc)⟩
        · exact ih [] (by simp) w hw
    · simp [fieldsFrom, hd] at hw
      refine ih (d :: run) ?_ w hw
      intro c hc
      rcases List.mem_cons.1 hc with rfl | hc
      · simpa using hd
      · exact hrun c hc

end ScriptFlow.Text
