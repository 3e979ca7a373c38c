import ScriptFlow.Text.Blank
import Mathlib.Data.List.Induction
import Mathlib.Data.List.TakeWhile

/-!
# Pieces of a text

Cutting a text at a separator and trimming the pieces. White space around the whole text belongs to
its first and last piece, so it makes no difference whether the text is trimmed before it is cut,
as long as the separator is no white space itself.

Main statements: `splitAt_eq_splitOn` and `map_trimChars_splitAt`.
-/

namespace ScriptFlow.Text

/-! ## Cutting -/

theorem splitAt_eq_splitOn (sep : Char) (cs : List Char) : splitAt sep cs = cs.splitOn sep := by
  induction cs with
  | nil => rfl
  | cons c rest ih =>
    rw [splitAt, List.splitOn_cons_eq_if_modifyHead, ← ih]
    by_cases hc : c = sep
    · simp [hc]
    · rw [if_neg hc, if_neg (by simpa using hc)]
      cases hrest : splitAt sep rest with
      | nil => exact absurd (ih.symm.trans hrest) (List.splitOn_ne_nil sep rest)
      | cons piece more => rfl

/-- No piece holds the separator. -/
theorem not_mem_of_mem_splitAt {sep : Char} {cs piece : List Char} (h : piece ∈ splitAt sep cs) :
    sep ∉ piece := by
  -- On the text: each character starts a piece or is put in front of the first one after it.
  induction cs generalizing piece with
  | nil =>
    obtain rfl : piece = [] := by simpa [splitAt] using h
    exact List.not_mem_nil
  | cons c rest ih =>
    rw [splitAt] at h
    split at h
    · -- The separator starts a new piece, which is empty so far.
      rcases List.mem_cons.mp h with rfl | hrest
      · exact List.not_mem_nil
      · exact ih hrest
    · rename_i hc
      split at h
      · obtain rfl : piece = [c] := by simpa using h
        simpa [eq_comm] using hc
      · rename_i first more hrest
        rw [hrest] at ih
        rcases List.mem_cons.mp h with rfl | hmore
        · have hfirst := ih List.mem_cons_self
          simp [hfirst, Ne.symm hc]
        · exact ih (List.mem_cons_of_mem _ hmore)

/-- A character in front that does not cut belongs to the first piece. -/
theorem splitAt_cons_of_ne {sep c : Char} (hc : c ≠ sep) (cs : List Char) :
    ∃ first more, splitAt sep cs = first :: more ∧
      splitAt sep (c :: cs) = (c :: first) :: more := by
  -- A text has always a first piece, if only an empty one.
  cases hcs : splitAt sep cs with
  | nil =>
    rw [splitAt_eq_splitOn] at hcs
    exact absurd hcs (List.splitOn_ne_nil sep cs)
  | cons first more => exact ⟨first, more, rfl, by simp [splitAt, hc, hcs]⟩

/-- A character at the end that does not cut belongs to the last piece. -/
theorem splitAt_concat_of_ne {sep c : Char} (hc : c ≠ sep) (cs : List Char) :
    ∃ before last, splitAt sep cs = before ++ [last] ∧
      splitAt sep (cs ++ [c]) = before ++ [last ++ [c]] := by
  -- On the text: what stands in front of the last character leaves the end alone.
  induction cs with
  | nil => exact ⟨[], [], rfl, by simp [splitAt, hc]⟩
  | cons d rest ih =>
    obtain ⟨before, last, hrest, hconcat⟩ := ih
    by_cases hd : d = sep
    · exact ⟨[] :: before, last, by simp [splitAt, hd, hrest], by simp [splitAt, hd, hconcat]⟩
    · -- The first piece grows by `d`; it may be the last one as well.
      cases before with
      | nil => exact ⟨[], d :: last, by simp [splitAt, hd, hrest], by simp [splitAt, hd, hconcat]⟩
      | cons first more =>
        exact ⟨(d :: first) :: more, last, by simp [splitAt, hd, hrest],
          by simp [splitAt, hd, hconcat]⟩

/-! ## Trimming -/

theorem trimChars_cons_of_blank {c : Char} (hc : isBlank c = true) (cs : List Char) :
    trimChars (c :: cs) = trimChars cs := by
  simp [trimChars, trimLeft, hc]

theorem trimChars_concat_of_blank {c : Char} (hc : isBlank c = true) (cs : List Char) :
    trimChars (cs ++ [c]) = trimChars cs := by
  unfold trimChars trimLeft
  rw [List.dropWhile_append]
  split
  · rename_i hnil
    simp [hc, List.isEmpty_iff.mp hnil]
  · simp [hc]

/-- Around a trimmed text there was nothing but white space. -/
theorem exists_blank_around (cs : List Char) :
    ∃ front back, (∀ c ∈ front, isBlank c = true) ∧ (∀ c ∈ back, isBlank c = true) ∧
      cs = front ++ trimChars cs ++ back := by
  refine ⟨cs.takeWhile isBlank, ((trimLeft cs).reverse.takeWhile isBlank).reverse,
    fun c hc => List.mem_takeWhile_imp hc,
    fun c hc => List.mem_takeWhile_imp (List.mem_reverse.mp hc), ?_⟩
  -- From the left end only the front was taken off, so the back is found from the right.
  have hback : trimChars cs ++ ((trimLeft cs).reverse.takeWhile isBlank).reverse = trimLeft cs := by
    rw [trimChars, ← List.reverse_append]
    exact (congrArg List.reverse List.takeWhile_append_dropWhile).trans (List.reverse_reverse _)
  rw [List.append_assoc, hback]
  exact List.takeWhile_append_dropWhile.symm

/-! ## Trimmed pieces -/

section Pieces

variable {sep : Char} (hsep : isBlank sep = false)

include hsep

theorem ne_of_blank {c : Char} (hc : isBlank c = true) : c ≠ sep := by
  rintro rfl
  rw [hsep] at hc
  cases hc

/-- White space in front of a text changes none of its trimmed pieces. -/
theorem map_trimChars_splitAt_cons {c : Char} (hc : isBlank c = true) (cs : List Char) :
    (splitAt sep (c :: cs)).map trimChars = (splitAt sep cs).map trimChars := by
  obtain ⟨first, more, hcs, hcons⟩ := splitAt_cons_of_ne (ne_of_blank hsep hc) cs
  rw [hcs, hcons, List.map_cons, List.map_cons, trimChars_cons_of_blank hc]

theorem map_trimChars_splitAt_concat {c : Char} (hc : isBlank c = true) (cs : List Char) :
    (splitAt sep (cs ++ [c])).map trimChars = (splitAt sep cs).map trimChars := by
  obtain ⟨before, last, hcs, hconcat⟩ := splitAt_concat_of_ne (ne_of_blank hsep hc) cs
  rw [hcs, hconcat, List.map_append, List.map_append, List.map_singleton, List.map_singleton,
    trimChars_concat_of_blank hc]

/-- Trimming a text before it is cut changes none of its trimmed pieces. -/
theorem map_trimChars_splitAt (cs : List Char) :
    (splitAt sep (trimChars cs)).map trimChars = (splitAt sep cs).map trimChars := by
  obtain ⟨front, back, hfront, hback, hcs⟩ := exists_blank_around cs
  generalize trimChars cs = body at hcs
  subst hcs
  -- White space is put back one character at a time, first at the front and then at the end.
  have hfronted :
      (splitAt sep (front ++ body)).map trimChars = (splitAt sep body).map trimChars := by
    induction front with
    | nil => rfl
    | cons c front ih =>
      obtain ⟨hc, hrest⟩ := List.forall_mem_cons.mp hfront
      rw [List.cons_append, map_trimChars_splitAt_cons hsep hc, ih hrest]
  rw [← hfronted]
  induction back using List.reverseRecOn with
  | nil => rw [List.append_nil]
  | append_singleton back c ih =>
    obtain ⟨hrest, hc⟩ := List.forall_mem_append.mp hback
    rw [← List.append_assoc, map_trimChars_splitAt_concat hsep (hc c List.mem_cons_self), ih hrest]

end Pieces

end ScriptFlow.Text
