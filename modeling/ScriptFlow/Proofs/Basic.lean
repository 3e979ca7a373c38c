import Mathlib.Data.List.Basic
import Mathlib.Data.List.DropRight
import Mathlib.Data.List.Forall2
import Mathlib.Data.List.Induction
import Mathlib.Data.List.Nodup
import Mathlib.Data.List.TakeWhile

/-!
# Outcomes, lists and texts

What the development needs of computations that can fail, of positions and endings in lists, and of
numbers and lines as text, beyond what the libraries have.
-/

namespace ScriptFlow

/-! ## Computations that succeed -/

section Outcomes

variable {ε ε' α β : Type}

/-- A sequence of two computations succeeds if the first one does, and then the second one. -/
theorem Except.bind_eq_ok {x : Except ε α} {f : α → Except ε β} {b : β} :
    x >>= f = .ok b ↔ ∃ a, x = .ok a ∧ f a = .ok b := by
  cases x with
  | error e => simp [bind, Except.bind]
  | ok a => simp [bind, Except.bind]

theorem Except.map_eq_ok {x : Except ε α} {f : α → β} {b : β} :
    x.map f = .ok b ↔ ∃ a, x = .ok a ∧ f a = b := by
  cases x with
  | error e => simp [Except.map]
  | ok a => simp [Except.map]

/-- Another wording of the errors changes no success. -/
theorem Except.mapError_eq_ok {x : Except ε α} {f : ε → ε'} {a : α} :
    x.mapError f = .ok a ↔ x = .ok a := by
  cases x with
  | error e => exact ⟨nofun, nofun⟩
  | ok b =>
    constructor
    · intro h
      cases h
      rfl
    · intro h
      cases h
      rfl

end Outcomes

/-! ## Positions in a list -/

section Positions

variable {α β : Type}

/-- A list with one more entry has it at its end and the old ones before it. -/
theorem getElem?_snoc (l : List α) (a : α) (i : Nat) :
    (l ++ [a])[i]? = if i = l.length then some a else l[i]? := by
  rcases Nat.lt_trichotomy i l.length with hi | rfl | hi
  · rw [List.getElem?_append_left hi, if_neg (Nat.ne_of_lt hi)]
  · simp
  · rw [if_neg (Nat.ne_of_gt hi), List.getElem?_eq_none (Nat.le_of_lt hi), List.getElem?_eq_none]
    rw [List.length_append, List.length_singleton]
    exact hi

/-- In a list without repetitions an entry is found where it stands. -/
theorem idxOf?_eq_some_iff_of_nodup [DecidableEq α] {l : List α} (h : l.Nodup) {a : α} {i : Nat} :
    l.idxOf? a = some i ↔ l[i]? = some a := by
  rw [List.idxOf?_eq_some_iff, List.getElem?_eq_some_iff]
  constructor
  · rintro ⟨hi, ha, -⟩
    exact ⟨hi, ha⟩
  · rintro ⟨hi, ha⟩
    refine ⟨hi, ha, ?_⟩
    intro j hj hsame
    -- An earlier place would hold the entry a second time.
    have hji : j = i := (List.Nodup.getElem_inj_iff h).mp (hsame.trans ha.symm)
    omega

/-- A test that every position passes keeps the whole list. -/
theorem filterMap_zipIdx_of_forall {l : List α} (test : Nat → Bool)
    (h : ∀ i < l.length, test i = true) :
    l.zipIdx.filterMap (fun x => if test x.2 then some x.1 else none) = l := by
  have hsome : l.zipIdx.filterMap (fun x => if test x.2 then some x.1 else none) =
      l.zipIdx.filterMap (some ∘ Prod.fst) := by
    apply List.filterMap_congr
    intro x hx
    have hlt : x.2 < l.length :=
      (List.getElem?_eq_some_iff.mp (List.mem_zipIdx_iff_getElem?.mp hx)).1
    simp [h x.2 hlt]
  rw [hsome, List.filterMap_eq_map, List.zipIdx_map_fst]

/-- A test that only the last position fails drops the last entry. -/
theorem filterMap_zipIdx_dropLast (l : List α) :
    l.zipIdx.filterMap (fun x => if decide (x.2 + 1 < l.length) then some x.1 else none) =
      l.dropLast := by
  rcases List.eq_nil_or_concat l with rfl | ⟨front, last, rfl⟩
  · rfl
  · have hfront := filterMap_zipIdx_of_forall (l := front)
      (fun i => decide (i + 1 < (front ++ [last]).length)) (by simp)
    -- All positions of the front pass the test, and the last one does not.
    rw [List.concat_eq_append, List.zipIdx_append, List.filterMap_append, hfront]
    simp

/-- Of the parts that a list is made of by position, the one of a single position. -/
theorem flatMap_zipIdx_single (l : List α) (g : α → List β) (i : Nat) :
    (l.zipIdx.flatMap fun x => if x.2 = i then g x.1 else []) = (l[i]?.map g).getD [] := by
  -- Induction from the end, where the last position is the length of the rest.
  induction l using List.reverseRecOn with
  | nil => rfl
  | append_singleton l a ih =>
    rw [List.zipIdx_append, List.flatMap_append, ih, getElem?_snoc]
    by_cases hi : i = l.length
    · subst hi
      simp
    · simp [hi, Ne.symm hi]

end Positions

/-! ## Lists entry by entry -/

section Entries

variable {α β : Type}

theorem map_some_filterMap {find : α → Option β} {l : List α} (h : ∀ a ∈ l, find a ≠ none) :
    (l.filterMap find).map some = l.map find := by
  induction l with
  | nil => rfl
  | cons a rest ih =>
    obtain ⟨ha, hrest⟩ := List.forall_mem_cons.mp h
    obtain ⟨b, hb⟩ := Option.ne_none_iff_exists'.mp ha
    rw [List.filterMap_cons_some hb, List.map_cons, List.map_cons, hb, ih hrest]

/-- Lists with the same images are alike entry by entry, if entries with the same image are. -/
theorem map_eq_map_iff_forall₂ {f : α → β} {R : α → α → Prop}
    (h : ∀ a b, f a = f b ↔ R a b) {l k : List α} :
    l.map f = k.map f ↔ List.Forall₂ R l k := by
  rw [← List.forall₂_eq_eq_eq, List.forall₂_map_left_iff, List.forall₂_map_right_iff]
  simp only [h]

end Entries

/-! ## Endings of a list -/

section Endings

variable {α : Type} [DecidableEq α] {l t : List α}

/-- An entry and what follows its last occurrence. -/
theorem cons_suffix_iff {sep : α} (ht : sep ∉ t) :
    sep :: t <:+ l ↔ sep ∈ l ∧ l.rtakeWhile (· ≠ sep) = t := by
  have hlast : ∀ {front t : List α}, sep ∉ t →
      (front ++ sep :: t).rtakeWhile (· ≠ sep) = t := by
    intro front t ht
    have hreverse : ∀ c ∈ t.reverse, decide (c ≠ sep) = true := fun c hc =>
      decide_eq_true (ne_of_mem_of_not_mem (List.mem_reverse.mp hc) ht)
    -- Seen from behind the entries up to the separator pass the test, and the separator does not.
    rw [List.rtakeWhile, List.reverse_append, List.reverse_cons, List.append_assoc,
      List.takeWhile_append_of_pos hreverse]
    simp
  constructor
  · rintro ⟨front, rfl⟩
    exact ⟨by simp, hlast ht⟩
  · rintro ⟨hmem, hrest⟩
    -- The last occurrence is the first one from behind.
    obtain ⟨as, bs, hsplit, has⟩ := List.eq_append_cons_of_mem (List.mem_reverse.mpr hmem)
    have hl : l = bs.reverse ++ sep :: as.reverse := by
      rw [← List.reverse_reverse l, hsplit]
      simp
    rw [hl, hlast (by simpa using has)] at hrest
    exact ⟨bs.reverse, by rw [hl, hrest]⟩

omit [DecidableEq α] in
/-- An ending that passes a test throughout is within the longest such ending. -/
theorem suffix_rtakeWhile_iff {p : α → Bool} (ht : ∀ c ∈ t, p c = true) :
    t <:+ l.rtakeWhile p ↔ t <:+ l := by
  constructor
  · intro h
    exact h.trans (List.rtakeWhile_suffix p l)
  · rintro ⟨front, rfl⟩
    have hreverse : ∀ c ∈ t.reverse, p c = true := fun c hc => ht c (List.mem_reverse.mp hc)
    rw [List.rtakeWhile, List.reverse_append, List.takeWhile_append_of_pos hreverse,
      List.reverse_append, List.reverse_reverse]
    exact List.suffix_append _ t

end Endings

/-! ## Numbers as text -/

theorem toList_toString (id : Nat) : (toString id).toList = Nat.toDigits 10 id := by
  rw [Nat.toString_eq_repr, Nat.toList_repr]

theorem isDigit_of_mem_toString {id : Nat} {c : Char} (h : c ∈ (toString id).toList) :
    c.isDigit = true := by
  rw [toList_toString] at h
  exact Nat.isDigit_of_mem_toDigits (by omega) (by omega) h

/-- A positive number is written without leading zeros. -/
theorem head?_toDigits_ne {n : Nat} (hn : 0 < n) : (Nat.toDigits 10 n).head? ≠ some '0' := by
  induction n using Nat.strong_induction_on with
  | _ n ih =>
    by_cases hsmall : n < 10
    · have hdigit : ∀ d < 10, 0 < d → d.digitChar ≠ '0' := by decide
      rw [Nat.toDigits_of_lt_base hsmall, List.head?_cons]
      exact fun h => hdigit n hsmall hn (Option.some.inj h)
    · -- The first digit is that of the number without its last digit.
      have hfirst := ih (n / 10) (by omega) (by omega)
      obtain ⟨c, cs, hcs⟩ :=
        List.exists_cons_of_ne_nil (Nat.toDigits_ne_nil (n := n / 10) (b := 10))
      rw [Nat.toDigits_of_base_le (by omega) (Nat.not_lt.mp hsmall), hcs]
      rw [hcs] at hfirst
      exact hfirst

/-! ## Lines -/

end ScriptFlow
