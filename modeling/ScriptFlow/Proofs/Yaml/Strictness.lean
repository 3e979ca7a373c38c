import ScriptFlow.Description.Yaml
import ScriptFlow.Proofs.Basic

/-!
# Strict records refuse unknown keys

Decoding goes on after a misfit and reports all misfits in the end, so it is enough that one is
found: no later step takes a misfit back. In a strict record a key that is no field is a misfit, and
it is found whatever the other keys are, unless decoding stops before it with another error. Either
way nothing is decoded.

Main statements: `RecordType.decodeDocument_unknown` and `Script.parse_unknown`.
-/

namespace ScriptFlow.Yaml

/-! ## Steps that take no misfit back -/

/-- A step of decoding that succeeds leaves all misfits that were found before. -/
def Keeps {α : Type} (x : Decoding α) : Prop :=
  ∀ s a s', x.run s = .ok (a, s') → s.misfits <+: s'.misfits

/-- A sequence of two steps succeeds exactly if the first one does and the second one from there. -/
theorem run_bind_eq_ok {α β : Type} {x : Decoding α} {f : α → Decoding β} {s s' : DecodingState}
    {b : β} : (x >>= f).run s = .ok (b, s') ↔
      ∃ a s₁, x.run s = .ok (a, s₁) ∧ (f a).run s₁ = .ok (b, s') := by
  rw [StateT.run_bind, Except.bind_eq_ok]
  simp only [Prod.exists]

namespace Keeps

variable {α β : Type}

theorem pure (a : α) : Keeps (Pure.pure a : Decoding α) := by
  intro s b s' h
  cases h
  exact List.prefix_rfl

/-- What was reported before a step is still reported after it. -/
theorem misfits_ne_nil {x : Decoding α} (hx : Keeps x) {s s' : DecodingState} {a : α}
    (hrun : x.run s = .ok (a, s')) (h : s.misfits ≠ []) : s'.misfits ≠ [] := by
  intro hnone
  have hkept := hx s a s' hrun
  rw [hnone, List.prefix_nil] at hkept
  exact h hkept

theorem bind {x : Decoding α} {f : α → Decoding β} (hx : Keeps x) (hf : ∀ a, Keeps (f a)) :
    Keeps (x >>= f) := by
  intro s b s' h
  obtain ⟨a, s₁, hfirst, hsecond⟩ := run_bind_eq_ok.mp h
  exact (hx s a s₁ hfirst).trans (hf a s₁ b s' hsecond)

theorem throw (p : Problem) : Keeps (MonadExcept.throw p : Decoding α) := by
  intro s b s' h
  cases h

theorem lift (x : Except Problem α) : Keeps (liftM x : Decoding α) := by
  intro s b s' h
  cases x with
  | error e => cases h
  | ok a =>
    cases h
    exact List.prefix_rfl

theorem misfit (m : Misfit) : Keeps (misfit m) := by
  intro s b s' h
  cases h
  exact List.prefix_append s.misfits [m]

-- The counters change, and the misfits stay.
theorem count : Keeps count := by
  intro s b s' h
  simp only [StateT.run, Yaml.count] at h
  split at h
  · cases h
  · cases h
    exact List.prefix_rfl

theorem follow {i : Nat} {x : Decoding α} (hx : Keeps x) : Keeps (follow i x) := by
  intro s b s' h
  simp only [StateT.run, Yaml.follow] at h
  split at h
  · cases h
  · obtain ⟨⟨a, s₁⟩, hrun, hresult⟩ := Except.map_eq_ok.mp h
    cases hresult
    exact hx { s with followed := i :: s.followed } a s₁ hrun

/-- A visit leaves the misfits if its body does, on whatever node that is. -/
theorem visit {d : Document} {n : Node} {body : Node → Decoding α} (h : ∀ n, Keeps (body n)) :
    Keeps (visit d n body) := by
  unfold Yaml.visit
  refine bind count fun _ => ?_
  split
  · exact follow (bind count fun _ => h _)
  · exact h n

/-- Steps that leave all misfits do so one after the other. -/
theorem forM {f : α → Decoding PUnit} (h : ∀ a, Keeps (f a)) (l : List α) : Keeps (l.forM f) := by
  induction l with
  | nil => exact pure _
  | cons a l ih => exact bind (h a) fun _ => ih

theorem foldlM {f : β → α → Decoding β} (h : ∀ b a, Keeps (f b a)) (l : List α) (b : β) :
    Keeps (l.foldlM f b) := by
  induction l generalizing b with
  | nil => exact pure _
  | cons a l ih =>
    rw [List.foldlM_cons]
    exact bind (h b a) fun _ => ih _

theorem filterMapM {f : α → Decoding (Option β)} (h : ∀ a, Keeps (f a)) (l : List α) :
    Keeps (l.filterMapM f) := by
  induction l with
  | nil => exact pure _
  | cons a l ih =>
    -- What is found in the rest of the list is put behind what was found in its first entry.
    rw [List.filterMapM_cons]
    refine bind (h a) fun found => ?_
    cases found with
    | none => exact ih
    | some b => exact bind ih fun _ => pure _

theorem refuse (n : Node) (type : String) : Keeps (refuse n type) := by
  unfold Yaml.refuse
  split
  · split
    · exact misfit _
    · exact forM misfit _
  · exact misfit _

theorem decodeText (d : Document) (n : Node) (old : String) : Keeps (decodeText d n old) := by
  refine visit fun n => ?_
  -- Only scalars are texts, and all other nodes are refused.
  cases n with
  | scalar line tag text style =>
    refine bind (lift _) fun meaning => ?_
    split
    · exact pure _
    · exact pure _
    · exact pure _
  | _ => exact bind (refuse _ _) fun _ => pure _

/-- A list is decoded entry by entry. -/
theorem decodeList {type : String} {item : Decoder α} {start : α}
    (hitem : ∀ d n old, Keeps (item d n old)) (d : Document) (n : Node) (old : List α) :
    Keeps (decodeList type item start d n old) := by
  refine visit fun n => ?_
  cases n with
  | sequence line tag items =>
    refine bind (filterMapM (fun child => ?_) _) fun _ => pure _
    exact bind (hitem _ _ _) fun _ => pure _
  | scalar line tag text style =>
    refine bind (lift _) fun meaning => ?_
    split
    · exact pure _
    · exact bind (misfit _) fun _ => pure _
  | _ => exact bind (refuse _ _) fun _ => pure _

end Keeps

/-! ## Records -/

variable {σ α : Type} {r : RecordType σ} {d : Document}

/-- A field of which no decoding takes a misfit back. -/
def Field.KeepsMisfits (f : Field σ) : Prop :=
  ∀ d n s, Keeps (f.decode d n s)

theorem Field.keepsMisfits_of {name : String} {decode : Decoder α} {read : σ → α}
    {write : σ → α → σ} (h : ∀ d n old, Keeps (decode d n old)) :
    (Field.of name decode read write).KeepsMisfits :=
  fun d n s => .bind (h d n (read s)) fun _ => .pure _

namespace RecordType

/-- A value is decoded into its field, or reported if it has none or the key was there before. -/
theorem keeps_assign (hr : ∀ f ∈ r.fields, f.KeepsMisfits) (s : RecordState σ) (line : Nat)
    (name : String) (value : Node) : Keeps (r.assign d s line name value) := by
  unfold assign
  split
  · rename_i f hf
    split
    · exact .bind (.misfit _) fun _ => .pure _
    · exact .bind (hr f (List.mem_of_find?_eq_some hf) d value s.value) fun _ => .pure _
  · split
    · exact .bind (.misfit _) fun _ => .pure _
    · exact .pure _

/-- A pair of a mapping leaves the misfits, whatever its key reads as. -/
theorem keeps_pair (hr : ∀ f ∈ r.fields, f.KeepsMisfits) (s : RecordState σ) (p : Node × Node) :
    Keeps (r.pair d s p) := by
  unfold pair
  split
  · exact .pure _
  · refine .bind (.decodeText _ _ _) fun read => ?_
    dsimp only
    split
    · exact .pure _
    · exact keeps_assign hr _ _ _ _

theorem keeps_keyTexts (pairs : List (Node × Node)) : Keeps (keyTexts d pairs) := by
  refine .filterMapM (fun p => .visit fun n => ?_) pairs
  cases n with
  | scalar line tag text style =>
    refine .bind (.lift _) fun meaning => ?_
    split
    · exact .pure _
    · exact .pure _
    · exact .pure _
  | _ => exact .throw _

/-- Merging leaves the misfits if decoding the merged mappings does. -/
theorem keeps_merge {pairs : List (Node × Node)} (s : RecordState σ)
    {decode : Node → Option (List String) → σ → Decoding (Merged σ)}
    (h : ∀ n given old, Keeps (decode n given old)) : Keeps (s.merge d pairs decode) := by
  unfold RecordState.merge
  split
  · exact .pure _
  · refine .bind (.lift _) fun sources => .bind ?_ fun start => ?_
    · -- The keys of a mapping that is being merged were gathered already.
      cases s.given with
      | none => exact keeps_keyTexts _
      | some given => exact .pure _
    · refine .bind (.foldlM (fun state source => ?_) _ _) fun _ => .pure _
      exact .bind (h _ _ _) fun _ => .pure _

/-- Decoding a record leaves all misfits that were found before it. -/
theorem keeps_decodeFrom (hr : ∀ f ∈ r.fields, f.KeepsMisfits) (fuel : Nat) (n : Node)
    (given : Option (List String)) (old : σ) : Keeps (r.decodeFrom d fuel n given old) := by
  -- On the depth of merged mappings.
  induction fuel generalizing n given old with
  | zero => exact .throw _
  | succ fuel ih =>
    refine .visit fun n => ?_
    cases n with
    | mapping line tag pairs =>
      dsimp only
      split
      · -- The pairs come first, and then the mappings that are to be merged.
        exact .bind (.foldlM (keeps_pair hr) _ _) fun s => keeps_merge s ih
      · exact .bind (.forM .misfit _) fun _ => .pure _
    | scalar line tag text style =>
      refine .bind (.lift _) fun meaning => ?_
      split
      · exact .pure _
      · exact .bind (.misfit _) fun _ => .pure _
    | _ => exact .bind (.misfit _) fun _ => .pure _

theorem keeps_decode (hr : ∀ f ∈ r.fields, f.KeepsMisfits) (d : Document) (n : Node) (old : σ) :
    Keeps (r.decode d n old) :=
  .bind (keeps_decodeFrom hr _ _ _ _) fun _ => .pure _

end RecordType

/-! ## Keys that are no fields -/

/-- The name that a key of a mapping gives: the text of a scalar that is neither null nor asks for
the fields of another mapping. -/
def keyName? (d : Document) (key : Node) : Option String :=
  if key.isMerge then none
  else
    match key.target d with
    | .scalar line tag text style =>
      match scalarMeaning (Node.scalar line tag text style).tagOf text with
      | .ok .null => none
      | .ok (.bytes decoded) => some decoded
      | .ok _ => some text
      | .error _ => none
    | _ => none

/-- The names of the keys of the mapping that a text holds. -/
def keyNames (text : String) : List String :=
  match Document.parse text with
  | .ok (some d) =>
    match d.root.target d with
    | .mapping _ _ pairs => pairs.filterMap fun p => keyName? d p.1
    | _ => []
  | _ => []

theorem run_forM_misfit (list : List Misfit) (s : DecodingState) :
    (list.forM misfit).run s = .ok ((), { s with misfits := s.misfits ++ list }) := by
  induction list generalizing s with
  | nil =>
    rw [List.append_nil]
    rfl
  | cons m list ih =>
    refine run_bind_eq_ok.mpr ⟨(), { s with misfits := s.misfits ++ [m] }, rfl, ?_⟩
    have hrest := ih { s with misfits := s.misfits ++ [m] }
    rwa [List.append_assoc] at hrest

/-- What a visit decodes is the node an alias refers to, or the node itself. -/
theorem exists_run_of_visit {n : Node} {body : Node → Decoding α} {s s' : DecodingState} {a : α}
    (h : (visit d n body).run s = .ok (a, s')) :
    ∃ s₁ s₂, (body (n.target d)).run s₁ = .ok (a, s₂) ∧ s₂.misfits = s'.misfits := by
  obtain ⟨⟨⟩, s₁, -, h⟩ := run_bind_eq_ok.mp h
  -- Only an alias leads to another node, and its end is put off until the body is through.
  cases n with
  | «alias» line name k i =>
    simp only [StateT.run, follow] at h
    split at h
    · cases h
    · obtain ⟨⟨b, s₂⟩, hrun, hresult⟩ := Except.map_eq_ok.mp h
      obtain ⟨⟨⟩, s₃, -, hbody⟩ := run_bind_eq_ok.mp hrun
      cases hresult
      exact ⟨s₃, s₂, hbody, rfl⟩
  | _ => exact ⟨s₁, s', h, rfl⟩

/-- A key that gives a name is read as the name. -/
theorem decodeText_of_keyName? {key : Node} {name old value : String} {good : Bool}
    {s s' : DecodingState} (hname : keyName? d key = some name)
    (h : (decodeText d key old).run s = .ok ((value, good), s')) : value = name ∧ good = true := by
  obtain ⟨s₁, s₂, hrun, -⟩ := exists_run_of_visit h
  unfold keyName? at hname
  split at hname
  · cases hname
  · split at hname
    · rename_i line tag text style htarget
      rw [htarget] at hrun
      obtain ⟨meaning, s₃, hmeaning, hresult⟩ := run_bind_eq_ok.mp hrun
      cases hscalar : scalarMeaning (Node.scalar line tag text style).tagOf text with
      | error e =>
        rw [hscalar] at hmeaning
        cases hmeaning
      | ok m =>
        rw [hscalar] at hmeaning hname
        cases hmeaning
        cases meaning with
        -- A null gives no name, and every other scalar gives its text.
        | null => cases hname
        | _ =>
          cases hname
          cases hresult
          exact ⟨rfl, rfl⟩
    · cases hname

namespace RecordType

/-- A key that is no field is reported. -/
theorem pair_unknown {s s' : RecordState σ} {t t' : DecodingState} {p : Node × Node}
    {name : String} (hstrict : r.strict = true) (hgiven : s.given = none)
    (hname : keyName? d p.1 = some name) (hunknown : name ∉ r.fields.map (·.name))
    (h : (r.pair d s p).run t = .ok (s', t')) : t'.misfits ≠ [] := by
  -- The key does not ask for a merge, because it gives a name.
  have hmerge : p.1.isMerge = false := by
    by_contra hmerge
    rw [Bool.not_eq_false] at hmerge
    simp [keyName?, hmerge] at hname
  have hfind : r.fields.find? (·.name == name) = none := by
    rw [List.find?_eq_none]
    intro f hf hsame
    exact hunknown (List.mem_map.mpr ⟨f, hf, beq_iff_eq.mp hsame⟩)
  rw [pair, hmerge] at h
  obtain ⟨⟨value, good⟩, t₁, hread, h⟩ := run_bind_eq_ok.mp h
  -- The text of the key is read, no field has it as its name, and the record is strict.
  obtain ⟨rfl, rfl⟩ := decodeText_of_keyName? hname hread
  simp only [hgiven, assign, hfind, hstrict] at h
  obtain ⟨⟨⟩, t₂, hmisfit, h⟩ := run_bind_eq_ok.mp h
  cases hmisfit
  cases h
  simp

/-- Assigning a value gathers no keys. -/
theorem assign_given {s s' : RecordState σ} {t t' : DecodingState} {line : Nat} {name : String}
    {value : Node} (h : (r.assign d s line name value).run t = .ok (s', t')) :
    s'.given = s.given := by
  unfold assign at h
  split at h
  · split at h
    · obtain ⟨⟨⟩, t₁, -, h⟩ := run_bind_eq_ok.mp h
      cases h
      rfl
    · obtain ⟨v, t₁, -, h⟩ := run_bind_eq_ok.mp h
      cases h
      rfl
  · split at h
    · obtain ⟨⟨⟩, t₁, -, h⟩ := run_bind_eq_ok.mp h
      cases h
      rfl
    · cases h
      rfl

/-- The keys of a mapping that is not being merged are not gathered. -/
theorem pair_given {s s' : RecordState σ} {t t' : DecodingState} {p : Node × Node}
    (hgiven : s.given = none) (h : (r.pair d s p).run t = .ok (s', t')) : s'.given = none := by
  unfold pair at h
  split at h
  · cases h
    exact hgiven
  · obtain ⟨⟨value, good⟩, t₁, -, h⟩ := run_bind_eq_ok.mp h
    dsimp only at h
    split at h
    · cases h
      exact hgiven
    · rw [assign_given h]
      simp [hgiven]

/-- Among the keys of a mapping none that is no field goes unreported. -/
theorem pairs_unknown (hr : ∀ f ∈ r.fields, f.KeepsMisfits) (hstrict : r.strict = true)
    {pairs : List (Node × Node)} {s s' : RecordState σ} {t t' : DecodingState} {name : String}
    (hgiven : s.given = none) (hname : name ∈ pairs.filterMap fun p => keyName? d p.1)
    (hunknown : name ∉ r.fields.map (·.name))
    (h : (pairs.foldlM (r.pair d) s).run t = .ok (s', t')) : t'.misfits ≠ [] := by
  -- On the pairs: from the first one with the name on, the misfits stay.
  induction pairs generalizing s t with
  | nil => cases hname
  | cons p rest ih =>
    rw [List.foldlM_cons] at h
    obtain ⟨s₁, t₁, hfirst, hrest⟩ := run_bind_eq_ok.mp h
    by_cases hp : keyName? d p.1 = some name
    · have hreported := pair_unknown hstrict hgiven hp hunknown hfirst
      exact Keeps.misfits_ne_nil (.foldlM (keeps_pair hr) rest s₁) hrest hreported
    · refine ih (pair_given hgiven hfirst) ?_ hrest
      obtain ⟨q, hq, hqname⟩ := List.mem_filterMap.mp hname
      rcases List.mem_cons.mp hq with rfl | hq
      · exact absurd hqname hp
      · exact List.mem_filterMap.mpr ⟨q, hq, hqname⟩

/-- A strict record is not decoded from a mapping with a key that is no field, unless something is
reported. -/
theorem decodeFrom_unknown (hr : ∀ f ∈ r.fields, f.KeepsMisfits) (hstrict : r.strict = true)
    {fuel : Nat} {n : Node} {line : Nat} {tag : String} {pairs : List (Node × Node)}
    (htarget : n.target d = .mapping line tag pairs) {name : String}
    (hname : name ∈ pairs.filterMap fun p => keyName? d p.1)
    (hunknown : name ∉ r.fields.map (·.name)) {old : σ} {m : Merged σ} {t t' : DecodingState}
    (h : (r.decodeFrom d fuel n none old).run t = .ok (m, t')) : t'.misfits ≠ [] := by
  cases fuel with
  | zero => cases h
  | succ fuel =>
    obtain ⟨t₁, t₂, hrun, hmisfits⟩ := exists_run_of_visit h
    rw [htarget] at hrun
    rw [← hmisfits]
    -- Without keys that are there twice the pairs are decoded, otherwise the mapping is refused.
    dsimp only at hrun
    split at hrun
    · obtain ⟨s, t₃, hpairs, hmerge⟩ := run_bind_eq_ok.mp hrun
      have hreported := pairs_unknown hr hstrict rfl hname hunknown hpairs
      -- Merging comes after the pairs and leaves what they reported.
      exact Keeps.misfits_ne_nil (keeps_merge s (keeps_decodeFrom hr fuel)) hmerge hreported
    · rename_i list hduplicates
      obtain ⟨⟨⟩, t₃, hreported, hresult⟩ := run_bind_eq_ok.mp hrun
      rw [run_forM_misfit] at hreported
      cases hreported
      cases hresult
      exact fun hnone => hduplicates (List.append_eq_nil_iff.mp hnone).2

/-- **A strict record refuses unknown keys.** A text that holds a mapping with a key that is no
field of the record is not decoded. -/
theorem decodeDocument_unknown (hr : ∀ f ∈ r.fields, f.KeepsMisfits) (hstrict : r.strict = true)
    {text name : String} (hname : name ∈ keyNames text) (hunknown : name ∉ r.fields.map (·.name))
    (start : σ) : ∃ e, decodeDocument r.decode start text = .error e := by
  unfold keyNames at hname
  split at hname
  · rename_i d hparse
    split at hname
    · rename_i line tag pairs htarget
      rw [decodeDocument, hparse]
      dsimp only
      split
      · exact ⟨_, rfl⟩
      · -- Nothing was found to be wrong in decoding, and still something was reported.
        rename_i value good s hrun
        obtain ⟨⟨m, t⟩, hdecode, hresult⟩ := Except.bind_eq_ok.mp hrun
        have hreported := decodeFrom_unknown hr hstrict htarget hname hunknown hdecode
        cases hresult
        rw [if_neg (by simpa using hreported)]
        exact ⟨_, rfl⟩
    · cases hname
  · cases hname

end RecordType

end ScriptFlow.Yaml

namespace ScriptFlow

open Yaml (Field Keeps)

theorem NodeDescription.keepsMisfits : ∀ f ∈ NodeDescription.yamlType.fields, f.KeepsMisfits := by
  intro f hf
  simp only [NodeDescription.yamlType, List.mem_cons, List.not_mem_nil, or_false] at hf
  rcases hf with rfl | rfl | rfl | rfl
  · exact Field.keepsMisfits_of Keeps.decodeText
  · exact Field.keepsMisfits_of Keeps.decodeText
  · exact Field.keepsMisfits_of (Keeps.decodeList Keeps.decodeText)
  · exact Field.keepsMisfits_of Keeps.decodeText

/-- The fields of a description leave all misfits, those of its nodes included. -/
theorem Description.keepsMisfits : ∀ f ∈ Description.yamlType.fields, f.KeepsMisfits := by
  intro f hf
  simp only [Description.yamlType, List.mem_cons, List.not_mem_nil, or_false] at hf
  rcases hf with rfl | rfl | rfl | rfl
  · exact Field.keepsMisfits_of Keeps.decodeText
  · exact Field.keepsMisfits_of (Keeps.decodeList Keeps.decodeText)
  · exact Field.keepsMisfits_of Keeps.decodeText
  · exact Field.keepsMisfits_of
      (Keeps.decodeList (Yaml.RecordType.keeps_decode NodeDescription.keepsMisfits))

/-- A graph is only made from a text with known keys. -/
theorem Script.parse_unknown {text name : String} (hname : name ∈ Yaml.keyNames text)
    (hunknown : name ∉ Description.yamlType.fields.map (·.name)) :
    ∃ e, Script.parse text = .error (.decoding e) := by
  obtain ⟨e, he⟩ :=
    Yaml.RecordType.decodeDocument_unknown Description.keepsMisfits rfl hname hunknown {}
  exact ⟨e, by rw [Script.parse, he]⟩

end ScriptFlow
