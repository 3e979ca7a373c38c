import ScriptFlow.Report.Json
import ScriptFlow.Proofs.Text.JsonReading

/-!
# Reading reports back from JSON

The JSON text of a list of reports can be read back: every member that was left out for being empty
is filled in as empty, and `null` is a list that was never begun. Only the severities without a name
are lost, since all of them are written with one word. So the text determines the reports up to
these severities.

An empty list of reports and an empty list of findings are not told apart from lists that were never
begun, neither in the reports nor in the text. For tables and rows, `none` and `some []` are.

Main statement: `json_determines_reports`.
-/

namespace ScriptFlow

/-! ## Reading the parts of a record -/

namespace Json

/-- Reads a text. -/
def asText : Json → Option String
  | text s => some s
  | _ => none

/-- Reads a number. -/
def asNumber : Json → Option Int
  | number n => some n
  | _ => none

/-- Reads a list. -/
def asList {α : Type} (read : Json → Option α) : Json → Option (List α)
  | array items => items.mapM read
  | _ => none

/-- Reads a list that may not have been begun. -/
def asListOrNull {α : Type} (read : Json → Option α) : Json → Option (Option (List α))
  | null => some none
  | v => (asList read v).map some

/-- Reads the members of an object. -/
def asMembers : Json → Option (List (String × Json))
  | object members => some members
  | _ => none

/-- Reads one of the members, as `empty` if it was left out. -/
def member {α : Type} (members : List (String × Json)) (key : String) (empty : α)
    (read : Json → Option α) : Option α :=
  match members.lookup key with
  | none => some empty
  | some v => read v

section Members

variable {α : Type} {members : List (String × Json)} {key : String} {empty : α}
  {read : Json → Option α}

@[simp] theorem member_nil : member [] key empty read = some empty := rfl

theorem member_cons_self {v : Json} : member ((key, v) :: members) key empty read = read v := by
  simp [member]

theorem member_cons_of_ne {other : String} {v : Json} (h : key ≠ other) :
    member ((other, v) :: members) key empty read = member members key empty read := by
  rw [member, List.lookup_cons, beq_false_of_ne h, member]

/-- A text that is left out when it is empty is found again, if no later member takes its place. -/
theorem member_optional_self {value : String} (h : member members key "" asText = some "") :
    member (optional key value ++ members) key "" asText = some value := by
  unfold optional
  split
  · next hempty => rw [List.nil_append, h, hempty]
  · exact member_cons_self

theorem member_optional_of_ne {other value : String} (h : key ≠ other) :
    member (optional other value ++ members) key empty read = member members key empty read := by
  unfold optional
  split
  · rfl
  · exact member_cons_of_ne h

/-- With no member after it, a text is found under its key, and every other key is read as empty. -/
theorem member_optional {other value : String} :
    member (optional other value) key "" asText = some (if key = other then value else "") := by
  -- The text is followed by no member, so each case is one of the two above.
  rw [← List.append_nil (optional other value)]
  split
  · next h => rw [h, member_optional_self rfl]
  · next h => rw [member_optional_of_ne h, member_nil]

end Members

section Lists

variable {α β : Type} {write : α → Json} {read : Json → Option β} {back : α → β}

theorem asList_map (h : ∀ a, read (write a) = some (back a)) (items : List α) :
    asList read (array (items.map write)) = some (items.map back) := by
  show (items.map write).mapM read = _
  -- On the entries: the list is read if the first one and all after it are.
  induction items with
  | nil => rfl
  | cons item items ih => simp [List.mapM_cons, h, ih]

/-- A list that was never begun is told apart from an empty one. -/
theorem asListOrNull_listOf (h : ∀ a, read (write a) = some (back a)) :
    ∀ items : Option (List α),
      asListOrNull read (listOf write items) = some (items.map (·.map back))
  | none => rfl
  | some items => by
    show (asList read (array (items.map write))).map some = _
    rw [asList_map h]
    rfl

end Lists

end Json

open Json

/-! ## Severities -/

namespace Severity

/-- The severities that are written with a name of their own. -/
def Named (s : Severity) : Prop :=
  s ∈ [error, warning, info]

instance : DecidablePred Named := fun s => inferInstanceAs (Decidable (s ∈ [error, warning, info]))

/-- Two severities are the same, or both have no name of their own. -/
def Alike (s t : Severity) : Prop :=
  s = t ∨ ¬ s.Named ∧ ¬ t.Named

/-- The severity that is read for all those without a name of their own. -/
def unnamed : Severity := ⟨-1⟩

/-- Reads a severity. -/
def ofName (name : String) : Option Severity :=
  [error, warning, info, unnamed].find? (·.name = name)

/-- A severity as it is read back from its name. -/
def asRead (s : Severity) : Severity :=
  if s.Named then s else unnamed

theorem not_named_unnamed : ¬ unnamed.Named := by decide

/-- Severities without a name are written with one word. -/
theorem name_of_not_named {s : Severity} (h : ¬ s.Named) : s.name = unnamed.name := by
  -- Not to be named is to be none of the three that a name is chosen by.
  simp only [Named, List.mem_cons, List.not_mem_nil, or_false, not_or] at h
  rw [name, if_neg h.1, if_neg h.2.1, if_neg h.2.2]
  rfl

theorem name_asRead (s : Severity) : s.asRead.name = s.name := by
  unfold asRead
  split
  · rfl
  · next h => exact (name_of_not_named h).symm

/-- What is read for a name is the severity it was written for, or the unnamed one. -/
theorem ofName_name (s : Severity) : ofName s.name = some s.asRead := by
  -- Only the severity as it is read has to be looked at, and that is one of four.
  rw [← name_asRead]
  unfold asRead
  split
  · next h =>
    simp only [Named, List.mem_cons, List.not_mem_nil, or_false] at h
    obtain rfl | rfl | rfl := h <;> decide
  · decide

/-- A severity with a name is read back as itself, and no other severity is read back as that. -/
theorem asRead_eq_asRead_iff_of_named {s t : Severity} (hs : s.Named) :
    s.asRead = t.asRead ↔ s = t := by
  rw [asRead, if_pos hs, asRead]
  split
  · rfl
  · next ht =>
    -- The unnamed severity is none of those with a name, and `t` is none of them either.
    have hother : s ≠ unnamed := fun h => not_named_unnamed (h ▸ hs)
    have hne : s ≠ t := fun h => ht (h ▸ hs)
    simp only [hother, hne]

theorem asRead_eq_iff {s t : Severity} : s.asRead = t.asRead ↔ s.Alike t := by
  unfold Alike
  -- With a name on one of the sides, the two must be the same severity.
  by_cases hs : s.Named
  · rw [asRead_eq_asRead_iff_of_named hs]
    simp [hs]
  · by_cases ht : t.Named
    · rw [eq_comm, asRead_eq_asRead_iff_of_named ht]
      simp [ht, eq_comm]
    · -- Without a name both are read as the unnamed severity.
      simp [asRead, hs, ht]

end Severity

/-! ## Findings -/

namespace Issue

/-- Two findings that differ at most in severities without a name. -/
structure Alike (i j : Issue) : Prop where
  same : { i with severity := j.severity } = j
  severity : i.severity.Alike j.severity

/-- Reads a finding. -/
def ofJson (v : Json) : Option Issue := do
  let members ← v.asMembers
  let rule ← member members "rule" "" asText
  let filename ← member members "filename" "" asText
  let flowPoint ← member members "flow_point" 0 asNumber
  let text ← member members "text" "" asText
  let message ← member members "message" "" asText
  let note ← member members "note" "" asText
  let severity ← member members "severity" .error fun v => v.asText.bind Severity.ofName
  return { rule, filename, flowPoint, text, message, note, severity }

/-- A finding as it is read back. -/
def asRead (i : Issue) : Issue :=
  { i with severity := i.severity.asRead }

theorem ofJson_toJson (i : Issue) : ofJson i.toJson = some i.asRead := by
  simp [ofJson, toJson, asMembers, member_cons_self, member_cons_of_ne, member_optional_self,
    member_optional_of_ne, asText, asNumber, Severity.ofName_name, asRead]

theorem toJson_asRead (i : Issue) : i.asRead.toJson = i.toJson := by
  simp only [toJson, asRead, Severity.name_asRead]

/-- Findings are read back as one exactly if they differ at most in severities without a name. -/
theorem asRead_eq_iff {i j : Issue} : i.asRead = j.asRead ↔ i.Alike j := by
  constructor
  · intro h
    have hseverity : i.severity.asRead = j.severity.asRead := congrArg severity h
    refine ⟨?_, Severity.asRead_eq_iff.1 hseverity⟩
    -- Apart from its severity, a finding is read back unchanged.
    exact congrArg (fun k : Issue => { k with severity := j.severity }) h
  · rintro ⟨hsame, hseverity⟩
    rw [asRead, asRead, Severity.asRead_eq_iff.2 hseverity, ← hsame]

end Issue

/-! ## Rows and tables -/

/-- Reads a row. -/
def Row.ofJson (v : Json) : Option Row := do
  let members ← v.asMembers
  let flowPoint ← member members "flow_point" 0 asNumber
  let name ← member members "name" "" asText
  let text ← member members "text" "" asText
  let input ← member members "original" "" asText
  let current ← member members "current" "" asText
  return { flowPoint, name, text, input, current }

theorem Row.ofJson_toJson (r : Row) : ofJson r.toJson = some r := by
  simp [ofJson, toJson, asMembers, member_cons_self, member_cons_of_ne, member_optional,
    member_optional_self, member_optional_of_ne, asText, asNumber]

/-- Reads the results of an analysis. -/
def DomainReport.ofJson (v : Json) : Option DomainReport := do
  let members ← v.asMembers
  let domain ← member members "domain" "" asText
  let iterations ← member members "iterations" 0 asNumber
  let propagations ← member members "propagations" 0 asNumber
  let flowPoints ← member members "flow_points" 0 asNumber
  let rows ← member members "rows" none (asListOrNull Row.ofJson)
  return { domain, iterations, propagations, flowPoints, rows }

theorem DomainReport.ofJson_toJson (d : DomainReport) : ofJson d.toJson = some d := by
  have hrows : asListOrNull Row.ofJson (listOf Row.toJson d.rows) = some d.rows := by
    simpa using asListOrNull_listOf Row.ofJson_toJson d.rows
  simp [ofJson, toJson, asMembers, member_cons_self, member_cons_of_ne, asText, asNumber, hrows]

/-! ## Reports -/

namespace Report

/-- Two reports that differ at most in severities without a name. -/
@[mk_iff] structure Alike (r q : Report) : Prop where
  file : r.file = q.file
  name : r.name = q.name
  domains : r.domains = q.domains
  issues : List.Forall₂ Issue.Alike r.issues q.issues

/-- Reads a report. -/
def ofJson (v : Json) : Option Report := do
  let members ← v.asMembers
  let file ← member members "file" "" asText
  let name ← member members "name" "" asText
  let domains ← member members "domains" none (asListOrNull DomainReport.ofJson)
  let issues ← member members "issues" [] (asList Issue.ofJson)
  return { file, name, domains, issues }

/-- Reads a list of reports. -/
def readJson (text : String) : Option (List Report) :=
  (Json.read text).bind (asList ofJson)

/-- A report as it is read back. -/
def asRead (r : Report) : Report :=
  { r with issues := r.issues.map Issue.asRead }

/-- A report is read back but for the severities of its findings. -/
theorem ofJson_toJson (r : Report) : ofJson r.toJson = some r.asRead := by
  have hdomains : asListOrNull DomainReport.ofJson (listOf DomainReport.toJson r.domains) =
      some r.domains := by
    simpa using asListOrNull_listOf DomainReport.ofJson_toJson r.domains
  have hissues : member
      (if r.issues.isEmpty then [] else [("issues", array (r.issues.map Issue.toJson))])
      "issues" [] (asList Issue.ofJson) = some (r.issues.map Issue.asRead) := by
    -- A list of findings that was left out is the empty one.
    split
    · next hempty => rw [List.isEmpty_iff.1 hempty, member_nil, List.map_nil]
    · rw [member_cons_self, asList_map Issue.ofJson_toJson]
  simp [-List.isEmpty_iff, ofJson, toJson, asMembers, member_cons_self, member_cons_of_ne, asText,
    hdomains, hissues, asRead]

theorem toJson_asRead (r : Report) : r.asRead.toJson = r.toJson := by
  have hissues : (r.issues.map Issue.asRead).map Issue.toJson = r.issues.map Issue.toJson := by
    rw [List.map_map]
    exact List.map_congr_left fun i _ => i.toJson_asRead
  simp only [toJson, asRead, hissues, List.isEmpty_map]

theorem asRead_eq_iff {r q : Report} : r.asRead = q.asRead ↔ r.Alike q := by
  -- Findings are compared one by one, in their order.
  have hissues : r.issues.map Issue.asRead = q.issues.map Issue.asRead ↔
      List.Forall₂ Issue.Alike r.issues q.issues :=
    map_eq_map_iff_forall₂ fun _ _ => Issue.asRead_eq_iff
  rw [asRead, asRead, Report.mk.injEq, hissues, alike_iff]

/-- Reading what was written gives the reports back but for the severities of their findings. -/
theorem readJson_writeJson (reports : List Report) :
    readJson (writeJson reports) = some (reports.map asRead) := by
  rw [readJson, writeJson, Json.read_render, Option.bind_some, asList_map ofJson_toJson]

/-- What was lost in reading did not matter for the text. -/
theorem writeJson_asRead (reports : List Report) :
    writeJson (reports.map asRead) = writeJson reports := by
  have hjson : (reports.map asRead).map toJson = reports.map toJson := by
    rw [List.map_map]
    exact List.map_congr_left fun r _ => r.toJson_asRead
  rw [writeJson, hjson, writeJson]

theorem writeJson_eq_iff {reports others : List Report} :
    writeJson reports = writeJson others ↔ reports.map asRead = others.map asRead := by
  constructor
  · -- Reading is a function of the text, so one text is read as one list of reports.
    intro h
    have hread := congrArg readJson h
    rw [readJson_writeJson, readJson_writeJson] at hread
    exact Option.some.inj hread
  · -- Reports are written like what is read back from them.
    intro h
    rw [← writeJson_asRead reports, h, writeJson_asRead]

/-- **The JSON text determines the reports.** Two lists of reports are written with one text exactly
if they differ at most in severities without a name, and reading the text gives such a list back. -/
theorem json_determines_reports (reports others : List Report) :
    (writeJson reports = writeJson others ↔ List.Forall₂ Alike reports others) ∧
      ∃ back, readJson (writeJson reports) = some back ∧ List.Forall₂ Alike reports back := by
  -- Both parts speak of lists that are written with one text.
  have halike : ∀ qs : List Report,
      writeJson reports = writeJson qs ↔ List.Forall₂ Alike reports qs := fun qs =>
    writeJson_eq_iff.trans (map_eq_map_iff_forall₂ fun _ _ => asRead_eq_iff)
  refine ⟨halike others, reports.map asRead, readJson_writeJson reports, ?_⟩
  exact (halike _).1 (writeJson_asRead reports).symm

end Report

end ScriptFlow
