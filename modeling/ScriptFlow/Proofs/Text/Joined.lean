import ScriptFlow.Text.Blank
import Mathlib.Data.List.TakeWhile

/-!
# Texts joined by commas

Pieces are joined by a comma and a blank, and nothing in a piece is escaped. A joined text can be
taken apart all the same if each piece shows where it ends: a piece without a blank ends before the
comma in front of the next blank, however many commas it has itself.

Main statement: `EndsVisibly.eq_of_intercalate_eq`.
-/

namespace ScriptFlow.Text

/-- After the first piece, each piece comes with the separator in front. -/
theorem intercalate_comma (first : String) (rest : List String) :
    ", ".intercalate (first :: rest) = first ++ String.join (rest.map (", " ++ ·)) := by
  induction rest generalizing first with
  | nil => simp
  | cons next rest ih =>
    rw [String.intercalate_cons_cons, ih, List.map_cons, String.join_cons]
    simp [String.append_assoc]

/-- What follows a piece of a joined text: nothing, or a separator and more. -/
def Follows (t : String) : Prop :=
  t = "" ∨ ∃ rest, t = ", " ++ rest

theorem follows_join (pieces : List String) : Follows (String.join (pieces.map (", " ++ ·))) := by
  cases pieces with
  | nil => exact Or.inl rfl
  | cons piece rest =>
    rw [List.map_cons, String.join_cons, String.append_assoc]
    exact Or.inr ⟨_, rfl⟩

/-- The renderings of the values with `S` show where they end, and which value they render. -/
def EndsVisibly {α : Type} (S : α → Prop) (render : α → String) : Prop :=
  ∀ a b, S a → S b → ∀ t t', Follows t → Follows t' →
    render a ++ t = render b ++ t' → a = b ∧ t = t'

namespace EndsVisibly

variable {α : Type} {S : α → Prop} {render : α → String} {as bs : List α}

/-- Pieces are taken off the front one by one. -/
theorem eq_of_join_eq (h : EndsVisibly S render) (has : ∀ a ∈ as, S a) (hbs : ∀ b ∈ bs, S b)
    (heq : String.join ((as.map render).map (", " ++ ·)) =
      String.join ((bs.map render).map (", " ++ ·))) : as = bs := by
  -- On both lists at once: each must run out with the other.
  induction as generalizing bs with
  | nil =>
    cases bs with
    | nil => rfl
    | cons b bs => exact absurd heq.symm (by simp [String.join_cons])
  | cons a as ih =>
    cases bs with
    | nil => exact absurd heq (by simp [String.join_cons])
    | cons b bs =>
      -- The separators in front cancel, and what follows the first pieces starts with another one.
      simp only [List.map_cons, String.join_cons, String.append_assoc,
        String.append_right_inj] at heq
      obtain ⟨rfl, hrest⟩ := h a b (has a List.mem_cons_self) (hbs b List.mem_cons_self) _ _
        (follows_join _) (follows_join _) heq
      rw [ih (fun x hx => has x (List.mem_cons_of_mem a hx))
        (fun x hx => hbs x (List.mem_cons_of_mem a hx)) hrest]

/-- **Joined texts are taken apart in one way.** -/
theorem eq_of_intercalate_eq (h : EndsVisibly S render) (hne : ∀ a, S a → render a ≠ "")
    (has : ∀ a ∈ as, S a) (hbs : ∀ b ∈ bs, S b)
    (heq : ", ".intercalate (as.map render) = ", ".intercalate (bs.map render)) : as = bs := by
  have hsome : ∀ a xs, S a → ", ".intercalate ((a :: xs).map render) ≠ "" := by
    intro a xs ha hempty
    rw [List.map_cons, intercalate_comma, String.append_eq_empty_iff] at hempty
    exact hne a ha hempty.1
  cases as with
  | nil =>
    cases bs with
    | nil => rfl
    | cons b bs => exact absurd heq.symm (hsome b bs (hbs b List.mem_cons_self))
  | cons a as =>
    cases bs with
    | nil => exact absurd heq (hsome a as (has a List.mem_cons_self))
    | cons b bs =>
      -- With a separator in front of both, the first pieces are no special case.
      apply h.eq_of_join_eq has hbs
      rw [List.map_cons, List.map_cons, intercalate_comma, intercalate_comma] at heq
      simp only [List.map_cons, String.join_cons, String.append_assoc, heq]

end EndsVisibly

/-! ## Words -/

/-- A text that is not empty and holds no white space. -/
def IsWord (text : String) : Prop :=
  text ≠ "" ∧ ∀ c ∈ text.toList, isBlank c = false

theorem isWord_of_mem_fields {word text : String} (h : word ∈ fields text) : IsWord word := by
  obtain ⟨cs, hcs, rfl⟩ := List.mem_map.mp h
  obtain ⟨hne, hblank⟩ := fieldsFrom_spec [] text.toList (by simp) cs hcs
  exact ⟨by simpa using hne, by simpa using hblank⟩

theorem IsWord.not_mem_blank {text : String} (h : IsWord text) : ' ' ∉ text.toList :=
  fun hmem => absurd (h.2 ' ' hmem) (by decide)

/-- The first blank of a text is in one place. -/
theorem append_blank_inj {i j u v : List Char} (hi : ' ' ∉ i) (hj : ' ' ∉ j)
    (h : i ++ ' ' :: u = j ++ ' ' :: v) : i = j ∧ u = v := by
  -- A text without a blank is what stands before the first blank.
  have hbefore : ∀ {k w : List Char}, ' ' ∉ k → (k ++ ' ' :: w).takeWhile (· ≠ ' ') = k := by
    intro k w hk
    have hall : ∀ c ∈ k, decide (c ≠ ' ') = true := by
      intro c hc
      exact decide_eq_true (ne_of_mem_of_not_mem hc hk)
    rw [List.takeWhile_append_of_pos hall]
    simp
  -- Both sides are cut in front of their first blank.
  obtain rfl : i = j := by rw [← hbefore (w := u) hi, h, hbefore hj]
  exact ⟨rfl, by simpa using h⟩

/-- Pieces without a blank show where they end. -/
theorem endsVisibly_of_blankFree {S : String → Prop} (h : ∀ w, S w → ' ' ∉ w.toList) :
    EndsVisibly S fun w => w := by
  intro i j hi hj t t' ht ht' heq
  change i ++ t = j ++ t' at heq
  rcases ht with rfl | ⟨u, rfl⟩
  · rcases ht' with rfl | ⟨v, rfl⟩
    · exact ⟨by simpa using heq, rfl⟩
    · -- The separator after the second word would be a part of the first one.
      rw [String.append_empty] at heq
      exact absurd (h i hi) (by simp [heq])
  · rcases ht' with rfl | ⟨v, rfl⟩
    · rw [String.append_empty] at heq
      exact absurd (h j hj) (by simp [← heq])
    · -- The first blank is that of the separator, so the comma before it belongs to it as well.
      have hchars := congrArg String.toList heq
      obtain ⟨hword, hrest⟩ := append_blank_inj (i := i.toList ++ [',']) (j := j.toList ++ [','])
        (u := u.toList) (v := v.toList) (by simp [h i hi]) (by simp [h j hj])
        (by simpa using hchars)
      obtain rfl : i = j := String.toList_inj.mp (List.append_cancel_right hword)
      exact ⟨rfl, by rw [String.toList_inj.mp hrest]⟩

end ScriptFlow.Text
