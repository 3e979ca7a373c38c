import ScriptFlow.Proofs.Analyzer.Passes
import ScriptFlow.Proofs.Description.Build
import ScriptFlow.Proofs.Domains.Heights
import ScriptFlow.Proofs.Lattice.Semilattice
import ScriptFlow.Proofs.Text.Joined

/-!
# Renderings lose nothing

The rows of a report show sets of names and tables of paths as text, and nothing in them is escaped.
There are sets and tables that look the same and are not. None of them comes out of an analysis:
names and paths are words of the commands, so they hold no blank, and a path is only written down
with one of the values `absent`, `present` and `maybe`. Under these conditions a rendering is read
back in one way, whatever commas, colons and braces the words have.

Main statement: `renderings_lose_nothing`.
-/

namespace ScriptFlow

open Text

/-! ## Sets of words -/

namespace ItemSet

/-- **A set of words is read back from its rendering.** -/
theorem eq_of_format_eq {s t : ItemSet String} (hs : ∀ name ∈ s.items, IsWord name)
    (ht : ∀ name ∈ t.items, IsWord name) (h : s.format = t.format) : s = t := by
  -- Both renderings stand in the same braces.
  simp only [format, String.append_left_inj, String.append_right_inj] at h
  apply ext
  -- A word holds no blank, so it ends in front of the separator.
  have hwords : EndsVisibly IsWord fun word => word :=
    endsVisibly_of_blankFree fun _ hword => hword.not_mem_blank
  exact hwords.eq_of_intercalate_eq (fun _ hword => hword.1) hs ht h

end ItemSet

/-! ## Tables of words -/

namespace Presence

/-- The values that are written down for a path of a reached point. -/
def Listed (v : Presence) : Prop :=
  v = .absent ∨ v = .present ∨ v = .maybe

theorem Listed.not_mem_blank {v : Presence} (h : v.Listed) : ' ' ∉ v.name.toList := by
  rcases h with rfl | rfl | rfl <;> decide

theorem Listed.eq_of_name_eq {v w : Presence} (hv : v.Listed) (hw : w.Listed)
    (h : v.name = w.name) : v = w := by
  revert h
  rcases hv with rfl | rfl | rfl <;> rcases hw with rfl | rfl | rfl <;> decide

end Presence

namespace PathState

/-- The state of a reached point that writes words down, and each with a listed value. -/
def Readable (s : PathState) : Prop :=
  ∃ paths, s = table paths ∧ ∀ e ∈ paths.entries, IsWord e.1 ∧ e.2.Listed

/-- An entry has a blank after its path, and none in front of it; the rest of it is a word too. -/
theorem endsVisibly_entry :
    EndsVisibly (fun e : String × Presence => IsWord e.1 ∧ e.2.Listed)
      fun e => e.1 ++ ": " ++ e.2.name := by
  rintro ⟨p, v⟩ ⟨q, w⟩ ⟨hp, hv⟩ ⟨hq, hw⟩ t t' ht ht' heq
  -- The first blank is the one after the colon that ends the path.
  have hchars := congrArg String.toList heq
  obtain ⟨hpath, hrest⟩ := append_blank_inj (i := p.toList ++ [':']) (j := q.toList ++ [':'])
    (u := (v.name ++ t).toList) (v := (w.name ++ t').toList) (by simp [hp.not_mem_blank])
    (by simp [hq.not_mem_blank]) (by simpa using hchars)
  obtain rfl : p = q := String.toList_inj.mp (List.append_cancel_right hpath)
  -- The name of the value ends in front of a separator or with the text.
  have hnames :
      EndsVisibly (fun name => ∃ v : Presence, v.Listed ∧ v.name = name) fun name => name :=
    endsVisibly_of_blankFree fun _ ⟨_, hlisted, hname⟩ => hname ▸ hlisted.not_mem_blank
  obtain ⟨hname, rfl⟩ := hnames v.name w.name ⟨v, hv, rfl⟩ ⟨w, hw, rfl⟩ t t' ht ht'
    (String.toList_inj.mp hrest)
  exact ⟨congrArg (Prod.mk p) (hv.eq_of_name_eq hw hname), rfl⟩

/-- **A readable table is read back from its rendering.** -/
theorem Readable.eq_of_format_eq {s t : PathState} (hs : s.Readable) (ht : t.Readable)
    (h : s.format = t.format) : s = t := by
  obtain ⟨a, rfl, ha⟩ := hs
  obtain ⟨b, rfl, hb⟩ := ht
  simp only [format, String.append_left_inj, String.append_right_inj] at h
  -- No entry is empty, since it holds the colon at least.
  have hne : ∀ e : String × Presence, IsWord e.1 ∧ e.2.Listed → e.1 ++ ": " ++ e.2.name ≠ "" := by
    intro e he
    simp
  rw [SortedMap.ext (endsVisibly_entry.eq_of_intercalate_eq hne ha hb h)]

/-- A state whose known paths are all words is readable: a path that is written down is known. -/
theorem readable_of_within {words : Finset String} (hwords : ∀ word ∈ words, IsWord word)
    {s : PathState} (h : PathPresence.Within words s) : s.Readable := by
  -- The entries are those of a table, and every known path is in it.
  obtain ⟨paths, rfl⟩ := h.regular.exists_table
  refine ⟨paths, rfl, ?_⟩
  rintro ⟨p, v⟩ hentry
  have hfind : paths.find? p = some v := (SortedMap.mem_entries_iff paths p v).mp hentry
  have hget : (table paths).get p = v := by simp [get, hfind]
  have htop : v ≠ .top := by
    rintro rfl
    exact h.topFree p hfind
  constructor
  · -- Nothing is known about a path that is no operand.
    by_contra hword
    exact htop (hget.symm.trans (h.outside p fun hmem => hword (hwords p hmem)))
  · -- The value is known and not unknown, which leaves the three that are listed.
    have hknown := h.regular p
    rw [hget] at hknown
    rcases hknown with hv | hv | hv | hv
    · exact Or.inl hv
    · exact Or.inr (Or.inl hv)
    · exact Or.inr (Or.inr hv)
    · exact absurd hv htop

end PathState

/-! ## The words of a script -/

namespace Command

theorem isWord_name {text : String} (h : (parse text).name ≠ "") : IsWord (parse text).name := by
  unfold parse at h ⊢
  split
  · rename_i hnone
    simp [hnone] at h
  · rename_i name words hfields
    exact isWord_of_mem_fields (hfields ▸ List.mem_cons_self)

theorem isWord_of_mem_operands {text path : String} (h : path ∈ (parse text).operands) :
    IsWord path := by
  unfold parse at h
  split at h
  · cases h
  · rename_i name words hfields
    exact isWord_of_mem_fields (hfields ▸ List.mem_cons_of_mem name (List.mem_of_mem_filter h))

end Command

namespace Network

variable {net : Network} {entries : List Nat}

theorem isWord_of_mem_commandNames {name : String} (h : name ∈ net.commandNames entries) :
    IsWord name := by
  rw [commandNames, Finset.mem_erase, Finset.mem_image] at h
  obtain ⟨hne, p, -, rfl⟩ := h
  exact Command.isWord_name hne

theorem isWord_of_mem_operandPaths {path : String} (h : path ∈ net.operandPaths entries) :
    IsWord path := by
  rw [operandPaths, Finset.mem_biUnion] at h
  obtain ⟨p, -, hpath⟩ := h
  exact Command.isWord_of_mem_operands (List.mem_toFinset.mp hpath)

end Network

/-! ## The values of a run -/

/-- The value stands before or after a reached point of the graph, in an analysis of the graph
that has a table for `x`. -/
def Description.Leaves (d : Description) (x : Analysis) (v : x.Value) : Prop :=
  ∃ (s : Script) (a : Analyzer) (c : Cancellation) (p : Nat),
    d.build = .ok s ∧
    (∃ t ∈ (a.graph s c).report.domains.getD [], t.domain = x.name) ∧
    s.network.ReachedFrom s.entries p ∧
    ((Engine.run s.network x.domain a.cap c s.entries {}).memory.input.get? p = some v ∨
      (Engine.run s.network x.domain a.cap c s.entries {}).memory.current.get? p = some v)

namespace Analyzer

/-- An analysis with a table in the report has succeeded, also if a later one has not. -/
theorem error?_of_mem_tables {a : Analyzer} {s : Script} {c : Cancellation} {x : Analysis}
    {t : DomainReport} (ht : t ∈ (a.graph s c).report.domains.getD []) (hname : t.domain = x.name) :
    (Engine.run s.network x.domain a.cap c s.entries {}).error? x.name = none := by
  obtain ⟨done, rest, outs, -, hdone, -, hdomains, -⟩ := graph_spec a s c
  rw [hdomains] at ht
  obtain ⟨out, hout, rfl⟩ := List.mem_map.mp ht
  obtain ⟨y, -, hresult⟩ := hdone.exists_of_mem hout
  -- The table names its analysis, and no two analyses have the same name.
  obtain rfl : y = x :=
    Analysis.name_injective ((domain_of_analysis_eq_ok hresult).symm.trans hname)
  rw [a.analysis_eq] at hresult
  exact (pass_eq_ok hresult).1

end Analyzer

namespace Description.Leaves

variable {d : Description}

/-- The names a labels analysis leaves are words. -/
theorem isWord {v : ItemSet String} (h : d.Leaves .labels v) : ∀ name ∈ v.items, IsWord name := by
  obtain ⟨s, a, c, p, hbuild, ⟨t, ht, hname⟩, hp, hv⟩ := h
  have hbuilt : s.network.Built := (lists_of_build hbuild).built
  -- Values of the run are sets of command names of reached points.
  have hnames := (labels_climbs s.network s.entries).values_of_run hbuilt
    (Analyzer.error?_of_mem_tables ht hname) hp hv
  exact fun name hmem => Network.isWord_of_mem_commandNames (hnames name hmem)

/-- The states a presence analysis leaves can be read back. -/
theorem readable {v : PathState} (h : d.Leaves .presence v) : v.Readable := by
  obtain ⟨s, a, c, p, hbuild, ⟨t, ht, hname⟩, hp, hv⟩ := h
  have hbuilt : s.network.Built := (lists_of_build hbuild).built
  -- Values of the run know nothing but operands of reached points.
  have hwithin := (pathPresence_climbs s.network s.entries).values_of_run hbuilt
    (Analyzer.error?_of_mem_tables ht hname) hp hv
  exact PathState.readable_of_within (fun _ => Network.isWord_of_mem_operandPaths) hwithin

end Description.Leaves

/-- **Renderings lose nothing.** Take any two graphs that can be built, and analyses of them in
which the presence of paths succeeds, with any cap and any cancellation. Two states before or after
reached points are rendered in the same way exactly if they hold the same entries. It is the same
with the names of commands: two sets are rendered in the same way exactly if they hold the same
names. The texts of the nodes are arbitrary, and so are the characters of the words in them. -/
theorem renderings_lose_nothing (d₁ d₂ : Description) :
    (∀ v w : PathState, d₁.Leaves .presence v → d₂.Leaves .presence w →
      (v.format = w.format ↔ v.sameEntries w = true)) ∧
    ∀ v w : ItemSet String, d₁.Leaves .labels v → d₂.Leaves .labels w →
      (v.format = w.format ↔ v.sameItems w = true) := by
  constructor
  · -- Equal renderings give equal states, since both can be read back.
    intro v w hv hw
    rw [PathState.sameEntries_iff]
    exact ⟨hv.readable.eq_of_format_eq hw.readable, congrArg PathState.format⟩
  · intro v w hv hw
    rw [ItemSet.sameItems_iff]
    exact ⟨ItemSet.eq_of_format_eq hv.isWord hw.isWord, congrArg ItemSet.format⟩

/-- Words with a blank in them are not told from the separators. -/
example : ((PathState.nothing.put "a" .present).put "b" .present).format =
    (PathState.nothing.put "a: Present, b" .present).format := by
  decide +kernel

/-! ## Words with the characters of a rendering -/

/-- The colons and commas of the rendering are a part of the words here. -/
def commasAfter : Description :=
  { name := "commas after"
    nodes :=
      [ { name := "make", text := "mkdir p:, q\x7d", next := ["run"] },
        { name := "run", text := "x, \x7by" } ] }

/-- The same characters as before, with the commas on the other side of the blanks. -/
def commasBefore : Description :=
  { name := "commas before"
    nodes :=
      [ { name := "make", text := "mkdir p: ,q\x7d", next := ["run"] },
        { name := "run", text := "x ,\x7by" } ] }

/-- A value found by running an analyzer is one that the graph leaves. -/
theorem Description.leaves_of_run {d : Description} {x : Analysis} {v : x.Value} (a : Analyzer)
    (c : Cancellation) (p : Nat)
    (h : (d.build.toOption.bind fun s =>
      if x.name ∈ ((a.graph s c).report.domains.getD []).map (·.domain) then
        (Engine.run s.network x.domain a.cap c s.entries {}).memory.current.get? p
      else none) = some v) : d.Leaves x v := by
  cases hbuild : d.build with
  | error e => simp [hbuild, Except.toOption] at h
  | ok s =>
    simp only [hbuild, Except.toOption, Option.bind_some, Option.ite_none_right_eq_some] at h
    obtain ⟨hname, hv⟩ := h
    have hbuilt : s.network.Built := (lists_of_build hbuild).built
    -- Only reached points get a value, and this one has one.
    refine ⟨s, a, c, p, hbuild, List.mem_map.mp hname, ?_, Or.inr hv⟩
    exact Engine.reached_of_value hbuilt Memory.unused_empty hv

/-- After the last node the two graphs have other states and other names, which shows in the
renderings. -/
theorem renderings_lose_nothing_commas :
    let v := (PathState.nothing.put "p:," .present).put "q\x7d" .present
    let w := (PathState.nothing.put "p:" .present).put ",q\x7d" .present
    let m := ItemSet.ofList ["mkdir", "x,"]
    let n := ItemSet.ofList ["mkdir", "x"]
    (commasAfter.Leaves .presence v ∧ commasBefore.Leaves .presence w ∧
      v.format = "\x7bp:,: Present, q\x7d: Present\x7d" ∧ v.sameEntries w = false) ∧
    commasAfter.Leaves .labels m ∧ commasBefore.Leaves .labels n ∧
      m.format = "\x7bmkdir, x,\x7d" ∧ m.sameItems n = false := by
  intro v w m n
  -- Both analyses, with room for the few visits of these graphs.
  let a : Analyzer := ⟨[.labels, .presence], 10⟩
  have hv : commasAfter.Leaves .presence v :=
    Description.leaves_of_run a none 1 (by decide +kernel)
  have hw : commasBefore.Leaves .presence w :=
    Description.leaves_of_run a none 1 (by decide +kernel)
  have hm : commasAfter.Leaves .labels m :=
    Description.leaves_of_run a none 1 (by decide +kernel)
  have hn : commasBefore.Leaves .labels n :=
    Description.leaves_of_run a none 1 (by decide +kernel)
  obtain ⟨hstates, hsets⟩ := renderings_lose_nothing commasAfter commasBefore
  -- The values are read off the renderings, which are different.
  refine ⟨⟨hv, hw, by decide +kernel, ?_⟩, hm, hn, by decide +kernel, ?_⟩
  · have hdiffer : v.format ≠ w.format := by decide +kernel
    exact Bool.eq_false_iff.mpr fun hsame => hdiffer ((hstates v w hv hw).mpr hsame)
  · have hdiffer : m.format ≠ n.format := by decide +kernel
    exact Bool.eq_false_iff.mpr fun hsame => hdiffer ((hsets m n hm hn).mpr hsame)

end ScriptFlow
