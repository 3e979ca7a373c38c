import ScriptFlow.Workspace.Basic
import ScriptFlow.Proofs.Text.Pieces
import Mathlib.Data.List.Basic

/-!
# Where paths lead

Cleaning a path looks at its text alone, while following it looks at the tree. If a path leads
somewhere, every name that cleaning cancels has led to a directory before, so the cleaned path leads
to the same place. A file that is put where no directory stands is on no way to anything else, so
all other paths lead where they led before.

Main statements: `Workspace.follow_cleanNames`, `Workspace.follow_put` and
`Path.names_clean`.
-/

namespace ScriptFlow

/-! ## Names of a path -/

namespace Path

variable {path name : String} {l : List String}

theorem slash_not_mem_of_mem_names (h : name ∈ names path) : '/' ∉ name.toList := by
  obtain ⟨piece, hpiece, rfl⟩ := List.mem_map.mp h
  rw [String.toList_ofList]
  exact Text.not_mem_of_mem_splitAt hpiece

theorem names_append_slash (a b : String) : names (a ++ "/" ++ b) = names a ++ names b := by
  have hslash : ("/" : String).toList = ['/'] := rfl
  simp only [names, String.toList_append, hslash, Text.splitAt_eq_splitOn, List.append_assoc,
    List.singleton_append, List.splitOn_append_cons_self, List.map_append]

/-- Names without a slash in them are the names of the path they are joined to. -/
theorem names_intercalate (hne : l ≠ []) (h : ∀ name ∈ l, '/' ∉ name.toList) :
    names ("/".intercalate l) = l := by
  have hslash : ("/" : String).toList = ['/'] := rfl
  have hpieces : ∀ piece ∈ l.map String.toList, '/' ∉ piece := by
    intro piece hpiece
    obtain ⟨name, hname, rfl⟩ := List.mem_map.mp hpiece
    exact h name hname
  rw [names, String.toList_intercalate, hslash, Text.splitAt_eq_splitOn,
    List.splitOn_intercalate '/' hpieces (by simpa using hne), List.map_map]
  simp [Function.comp_def]

theorem isAbsolute_append (hne : path ≠ "") (rest : String) :
    isAbsolute (path ++ rest) = isAbsolute path := by
  have hcs : path.toList ≠ [] := by simpa using hne
  simp only [isAbsolute, String.toList_append, List.head?_append_of_ne_nil _ hcs]

-- The path starts with the first character of the first name.
theorem isAbsolute_intercalate {rest : List String} (hne : name ≠ "") (h : '/' ∉ name.toList) :
    isAbsolute ("/".intercalate (name :: rest)) = false := by
  have hcs : name.toList ≠ [] := by simpa using hne
  obtain ⟨c, cs, hname⟩ := List.exists_cons_of_ne_nil hcs
  have hc : c ≠ '/' := by
    rintro rfl
    exact h (by simp [hname])
  cases rest with
  | nil => simp [isAbsolute, hname, hc]
  | cons next rest =>
    simp [isAbsolute, String.toList_intercalate, hname, hc]

/-! ## Cleaned names -/

/-- The names kept, last first, after a double dot. -/
def cancelLast (rooted : Bool) : List String → List String
  | [] => if rooted then [] else [".."]
  | last :: before => if last = ".." then ".." :: last :: before else before

variable {rooted : Bool} {kept : List String}

/-- Cleaning goes through the names: empty names and dots are dropped, a double dot cancels the last
name that was kept, and any other name is kept. -/
theorem cleanNames_cons (rooted : Bool) (kept : List String) (name : String) (rest : List String) :
    cleanNames rooted kept (name :: rest) =
      if name = "" ∨ name = "." then cleanNames rooted kept rest
      else if name = ".." then cleanNames rooted (cancelLast rooted kept) rest
      else cleanNames rooted (name :: kept) rest := by
  -- The definition looks at the names kept before it looks at the name.
  cases kept with
  | nil => rfl
  | cons last before =>
    rw [cleanNames, cancelLast]
    split_ifs <;> rfl

/-- Cleaning keeps only names that were there, other than the empty one and the dot. -/
theorem forall_mem_cleanNames {P : String → Prop} (hkept : ∀ name ∈ kept, P name)
    (hl : ∀ name ∈ l, name ≠ "" → name ≠ "." → P name) :
    ∀ name ∈ cleanNames rooted kept l, P name := by
  -- On the names to clean, for all names kept before.
  induction l generalizing kept with
  | nil => simpa [cleanNames] using hkept
  | cons first rest ih =>
    obtain ⟨hfirst, hrest⟩ := List.forall_mem_cons.mp hl
    rw [cleanNames_cons]
    split
    · exact ih hkept hrest
    · rename_i hdot
      push Not at hdot
      have hname := hfirst hdot.1 hdot.2
      split
      · -- A double dot keeps what was there without the last name, or is kept itself.
        rename_i hup
        rw [hup] at hname
        apply ih _ hrest
        cases kept with
        | nil => cases rooted <;> simp [cancelLast, hname]
        | cons last before =>
          rw [cancelLast]
          split
          · exact List.forall_mem_cons.mpr ⟨hname, hkept⟩
          · exact (List.forall_mem_cons.mp hkept).2
      · exact ih (List.forall_mem_cons.mpr ⟨hname, hkept⟩) hrest

/-- A name of its own at the end stays. -/
theorem cleanNames_append (hne : name ≠ "") (hdot : name ≠ ".") (hup : name ≠ "..") :
    cleanNames rooted kept (l ++ [name]) = cleanNames rooted kept l ++ [name] := by
  -- On the names in front, which decide what is kept by then.
  induction l generalizing kept with
  | nil => simp [cleanNames, hne, hdot, hup]
  | cons first rest ih =>
    rw [List.cons_append, cleanNames_cons, cleanNames_cons, ih, ih, ih]
    split_ifs <;> rfl

/-- The names of a path after cleaning, with the empty name before the slash of the root. -/
def cleanedNames (path : String) : List String :=
  (if isAbsolute path then [""] else []) ++ cleanNames (isAbsolute path) [] (names path)

/-- The names of a cleaned path, unless all were cancelled. -/
theorem names_clean (h : cleanNames (isAbsolute path) [] (names path) ≠ []) :
    names (clean path) = cleanedNames path ∧ isAbsolute (clean path) = isAbsolute path := by
  -- A slash in a cleaned name would have ended it.
  have hslash : ∀ name ∈ cleanNames (isAbsolute path) [] (names path),
      name ≠ "" ∧ '/' ∉ name.toList :=
    forall_mem_cleanNames nofun fun name hname hne _ => ⟨hne, slash_not_mem_of_mem_names hname⟩
  obtain ⟨first, rest, hnames⟩ := List.exists_cons_of_ne_nil h
  rw [hnames] at hslash
  have hjoined := names_intercalate (List.cons_ne_nil first rest) fun name hname =>
    (hslash name hname).2
  obtain ⟨hne, hfirst⟩ := hslash first List.mem_cons_self
  simp only [clean, cleanedNames, hnames]
  split
  · -- The slash of the root is one between the empty name and the first.
    rename_i habsolute
    have hroot := names_append_slash "" ("/".intercalate (first :: rest))
    rw [String.empty_append, hjoined] at hroot
    have hstart : isAbsolute ("/" ++ "/".intercalate (first :: rest)) = true := by
      simp [isAbsolute]
    exact ⟨hroot, hstart.trans habsolute.symm⟩
  · rename_i hrelative
    -- No name is empty, so the path is not.
    have hnonempty : "/".intercalate (first :: rest) ≠ "" := by
      intro hempty
      rw [hempty] at hjoined
      have hsingle : names "" = [""] := rfl
      rw [hsingle] at hjoined
      exact hne (List.cons.inj hjoined).1.symm
    rw [if_neg hnonempty, hjoined, isAbsolute_intercalate hne hfirst]
    exact ⟨rfl, by simpa using hrelative⟩

end Path

/-! ## Following names -/

namespace Workspace

variable {w : Workspace} {place here : Place} {name : String} {l l' : List String} {e : Entry}

/-- Where a name leads from a place. -/
def into (place : Place) (name : String) : Place :=
  if name = "" ∨ name = "." then place else if name = ".." then place.dropLast else place ++ [name]

theorem into_of_plain (hne : name ≠ "") (hdot : name ≠ ".") (hup : name ≠ "..") :
    into place name = place ++ [name] := by
  simp [into, hne, hdot, hup]

theorem follow_nil_eq_ok_iff :
    w.follow here [] = .ok (place, e) ↔ here = place ∧ w.entryAt here = some e := by
  rw [follow]
  cases w.entryAt here with
  | none => simp
  | some e' => simp

/-- What the success of a step means: it started in a directory with a name that is not too long. -/
theorem follow_cons_eq_ok_iff :
    w.follow here (name :: l) = .ok (place, e) ↔
      w.entryAt here = some .directory ∧ name.utf8ByteSize ≤ maxName ∧
        w.follow (into here name) l = .ok (place, e) := by
  -- The names that do not lead to an entry are short enough in any case.
  rw [follow]
  split
  · rename_i hnone
    simp [hnone]
  · rename_i hfile
    simp [hfile]
  · rename_i hdir
    rw [hdir, into]
    split
    · rename_i hdot
      have hsize : name.utf8ByteSize ≤ maxName := by rcases hdot with rfl | rfl <;> decide
      simp [hsize]
    · split
      · rename_i hup
        have hsize : name.utf8ByteSize ≤ maxName := by rw [hup]; decide
        simp [hsize]
      · split
        · rename_i hlong
          simp [Nat.not_le.mpr hlong]
        · rename_i hshort
          simp [Nat.not_lt.mp hshort]

theorem entryAt_of_follow (h : w.follow here l = .ok (place, e)) : w.entryAt place = some e := by
  -- On the names, from any place.
  induction l generalizing here with
  | nil =>
    obtain ⟨rfl, he⟩ := follow_nil_eq_ok_iff.mp h
    exact he
  | cons name rest ih => exact ih (follow_cons_eq_ok_iff.mp h).2.2

/-- Names are only followed from a place where something stands. -/
theorem exists_entryAt_of_follow (h : w.follow here l = .ok (place, e)) :
    ∃ e, w.entryAt here = some e := by
  cases l with
  | nil => exact ⟨e, (follow_nil_eq_ok_iff.mp h).2⟩
  | cons name rest => exact ⟨.directory, (follow_cons_eq_ok_iff.mp h).1⟩

/-- Names are followed one part after the other. -/
theorem follow_append_eq_ok_iff :
    w.follow here (l ++ l') = .ok (place, e) ↔
      ∃ between e', w.follow here l = .ok (between, e') ∧
        w.follow between l' = .ok (place, e) := by
  -- On the first names, from any place.
  induction l generalizing here with
  | nil =>
    rw [List.nil_append]
    constructor
    · intro h
      obtain ⟨e', he'⟩ := exists_entryAt_of_follow h
      exact ⟨here, e', follow_nil_eq_ok_iff.mpr ⟨rfl, he'⟩, h⟩
    · rintro ⟨between, e', hfirst, hrest⟩
      obtain ⟨rfl, -⟩ := follow_nil_eq_ok_iff.mp hfirst
      exact hrest
  | cons name rest ih =>
    rw [List.cons_append, follow_cons_eq_ok_iff]
    simp only [follow_cons_eq_ok_iff, ih, and_assoc, exists_and_left]

theorem follow_snoc {e' : Entry} (hlead : w.follow here l = .ok (place, e))
    (hdir : w.entryAt place = some .directory) (hsize : name.utf8ByteSize ≤ maxName)
    (hnext : w.entryAt (into place name) = some e') :
    w.follow here (l ++ [name]) = .ok (into place name, e') := by
  refine follow_append_eq_ok_iff.mpr ⟨place, e, hlead, ?_⟩
  rw [follow_cons_eq_ok_iff]
  exact ⟨hdir, hsize, follow_nil_eq_ok_iff.mpr ⟨rfl, hnext⟩⟩

/-- **Cleaning a path does not change where it leads.** The names kept so far lead from the start to
where the path has led so far; at the root nothing can be cancelled. -/
theorem follow_cleanNames {start : Place} {rooted : Bool} (hroot : rooted = true → start = [])
    {kept : List String} (hkept : ∀ name ∈ kept, name ≠ "" ∧ name ≠ ".") {e₀ : Entry}
    (hlead : w.follow start kept.reverse = .ok (here, e₀)) (h : w.follow here l = .ok (place, e)) :
    w.follow start (Path.cleanNames rooted kept l) = .ok (place, e) := by
  -- On the names to clean, with the names kept growing and shrinking as the place moves.
  induction l generalizing kept here e₀ with
  | nil =>
    obtain ⟨rfl, he⟩ := follow_nil_eq_ok_iff.mp h
    have hentry := (entryAt_of_follow hlead).symm.trans he
    rw [Path.cleanNames, hlead, Option.some.inj hentry]
  | cons name rest ih =>
    obtain ⟨hdir, hsize, hrest⟩ := follow_cons_eq_ok_iff.mp h
    obtain ⟨e', hnext⟩ := exists_entryAt_of_follow hrest
    -- A name that is kept leads on from where the others led.
    have hpush : w.follow start (name :: kept).reverse = .ok (into here name, e') := by
      rw [List.reverse_cons]
      exact follow_snoc hlead hdir hsize hnext
    rw [Path.cleanNames_cons]
    split
    · rename_i hdot
      rw [into, if_pos hdot] at hrest
      exact ih hkept hlead hrest
    · rename_i hdot
      push Not at hdot
      have hkept' : ∀ other ∈ name :: kept, other ≠ "" ∧ other ≠ "." :=
        List.forall_mem_cons.mpr ⟨hdot, hkept⟩
      split
      · rename_i hup
        subst hup
        cases kept with
        | nil =>
          rw [Path.cancelLast]
          split
          · -- The parent of the root is the root.
            rename_i hrooted
            obtain ⟨rfl, -⟩ := follow_nil_eq_ok_iff.mp hlead
            obtain rfl := hroot hrooted
            exact ih hkept hlead hrest
          · exact ih hkept' hpush hrest
        | cons last before =>
          rw [Path.cancelLast]
          split
          · exact ih hkept' hpush hrest
          · -- The last name led to a place below the one that the double dot returns to.
            rename_i hlast
            obtain ⟨hplain, hbefore⟩ := List.forall_mem_cons.mp hkept
            rw [List.reverse_cons, follow_append_eq_ok_iff] at hlead
            obtain ⟨above, e₁, habove, hstep⟩ := hlead
            obtain ⟨rfl, -⟩ := follow_nil_eq_ok_iff.mp (follow_cons_eq_ok_iff.mp hstep).2.2
            have hback : into (into above last) ".." = above := by
              rw [into_of_plain hplain.1 hplain.2 hlast]
              simp [into]
            rw [hback] at hrest
            exact ih hbefore habove hrest
      · exact ih hkept' hpush hrest

theorem entryAt_root (w : Workspace) : w.entryAt [] = some .directory :=
  rfl

/-- Putting an entry changes what stands in its place and nothing else. -/
theorem entryAt_put {target : Place} (htarget : target ≠ []) (e : Entry) (place : Place) :
    (w.put target e).entryAt place = if target = place then some e else w.entryAt place := by
  cases place with
  | nil => simp [entryAt, htarget]
  | cons first rest => simp [entryAt, put]

/-- **A file put where no directory stands is on no way to anything else.** -/
theorem follow_put {target : Place} (htarget : w.entryAt target ≠ some .directory)
    (content : String) (h : w.follow here l = .ok (place, e)) :
    (w.put target (.file content)).follow here l =
      .ok (place, if target = place then .file content else e) := by
  -- The root is a directory, so the file was not put there.
  have hroot : target ≠ [] := by
    rintro rfl
    exact htarget w.entryAt_root
  -- On the names: no step starts at the file, because none starts where no directory stands.
  induction l generalizing here with
  | nil =>
    obtain ⟨rfl, he⟩ := follow_nil_eq_ok_iff.mp h
    refine follow_nil_eq_ok_iff.mpr ⟨rfl, ?_⟩
    rw [entryAt_put hroot, he]
    split <;> rfl
  | cons name rest ih =>
    obtain ⟨hdir, hsize, hrest⟩ := follow_cons_eq_ok_iff.mp h
    have hother : target ≠ here := by
      rintro rfl
      exact htarget hdir
    refine follow_cons_eq_ok_iff.mpr ⟨?_, hsize, ih hrest⟩
    rw [entryAt_put hroot, if_neg hother, hdir]

end Workspace

/-! ## Entries of a directory -/

namespace Path

variable {path name : String}

/-- A name that leads to an entry of a directory. -/
structure Plain (name : String) : Prop where
  ne_empty : name ≠ ""
  ne_dot : name ≠ "."
  ne_up : name ≠ ".."
  slash : '/' ∉ name.toList

theorem names_of_slash_not_mem (h : '/' ∉ name.toList) : names name = [name] := by
  have hsingle := names_intercalate (List.cons_ne_nil name []) (by simpa using h)
  simpa using hsingle

/-- The path of an entry is that of its directory, cleaned, and the name of the entry. -/
theorem names_join (hpath : path ≠ "") (hname : Plain name) :
    names (join path [name]) = cleanedNames path ++ [name] ∧
      isAbsolute (join path [name]) = isAbsolute path := by
  -- The directory and the name are joined by a slash, so the names are cleaned as one list.
  have habsolute : isAbsolute (path ++ "/" ++ name) = isAbsolute path := by
    rw [String.append_assoc]
    exact isAbsolute_append hpath _
  have hclean : cleanNames (isAbsolute path) [] (names (path ++ "/" ++ name)) =
      cleanNames (isAbsolute path) [] (names path) ++ [name] := by
    rw [names_append_slash, names_of_slash_not_mem hname.slash]
    exact cleanNames_append hname.ne_empty hname.ne_dot hname.ne_up
  have hjoin : join path [name] = clean (path ++ "/" ++ name) := by simp [join]
  have hne :
      cleanNames (isAbsolute (path ++ "/" ++ name)) [] (names (path ++ "/" ++ name)) ≠ [] := by
    rw [habsolute, hclean]
    exact List.append_ne_nil_of_right_ne_nil _ (List.cons_ne_nil _ _)
  rw [hjoin, cleanedNames, List.append_assoc, ← hclean, ← habsolute]
  exact names_clean hne

/-- The last name of the path of an entry is the name of the entry. -/
theorem lastName_join (hpath : path ≠ "") (hname : Plain name) :
    lastName (join path [name]) = name := by
  rw [lastName, (names_join hpath hname).1]
  simp

end Path

namespace Workspace

variable {w : Workspace} {path name : String} {place : Place}

/-- Following the names of a path is all there is to it, if the path is sound. -/
theorem follow_of_resolve {e : Entry} (h : w.resolve path = .ok (place, e)) :
    path ≠ "" ∧ w.follow (w.startOf path) (Path.names path) = .ok (place, e) := by
  unfold resolve at h
  split at h
  · cases h
  · rename_i hfault
    refine ⟨?_, h⟩
    rintro rfl
    cases hfault

/-- If a path leads to a place, its cleaned names lead there too. -/
theorem follow_cleaned {e : Entry} (h : w.resolve path = .ok (place, e)) :
    w.follow (w.startOf path) (Path.cleanedNames path) = .ok (place, e) := by
  have hfollow := (follow_of_resolve h).2
  have hroot : Path.isAbsolute path = true → w.startOf path = [] := fun h => if_pos h
  obtain ⟨e₀, hstart⟩ := exists_entryAt_of_follow hfollow
  have hnone : ∀ name ∈ ([] : List String), name ≠ "" ∧ name ≠ "." := nofun
  have hlead : w.follow (w.startOf path) (List.reverse []) = .ok (w.startOf path, e₀) :=
    follow_nil_eq_ok_iff.mpr ⟨rfl, hstart⟩
  have hclean := follow_cleanNames hroot hnone hlead hfollow
  unfold Path.cleanedNames
  split
  · -- The empty name before the first slash stays at the root.
    rename_i habsolute
    rw [hroot habsolute] at hclean ⊢
    exact follow_cons_eq_ok_iff.mpr ⟨w.entryAt_root, by decide, hclean⟩
  · exact hclean

/-- A file can be stored under a name in a directory if the path is sound, the name is not too long
and there is no directory of that name. -/
theorem target_join {target : Place} (hname : Path.Plain name)
    (hpath : w.resolve path = .ok (place, .directory))
    (h : w.target (Path.join path [name]) = .ok target) :
    pathFault? (Path.join path [name]) = none ∧ name.utf8ByteSize ≤ maxName ∧
      w.entryAt (place ++ [name]) ≠ some .directory ∧ target = place ++ [name] := by
  obtain ⟨hnames, habsolute⟩ := Path.names_join (follow_of_resolve hpath).1 hname
  have hstart : w.startOf (Path.join path [name]) = w.startOf path := by
    rw [startOf, startOf, habsolute]
  have hlast := Path.lastName_join (follow_of_resolve hpath).1 hname
  -- Slashes at the end are ignored, but there are none after the name.
  have hreverse : (Path.names (Path.join path [name])).reverse.dropWhile (· = "") =
      name :: (Path.cleanedNames path).reverse := by
    rw [hnames, List.reverse_append]
    simp [hname.ne_empty]
  unfold Workspace.target at h
  cases hfault : pathFault? (Path.join path [name]) with
  | some f => simp [hfault] at h
  | none =>
    -- What stands before the name leads to the directory.
    simp only [hfault, hreverse, hname.ne_dot, hname.ne_up, or_self, if_false, List.reverse_reverse,
      hstart, follow_cleaned hpath, hlast, hname.ne_empty] at h
    split at h
    · cases h
    · rename_i hsize
      split at h
      · cases h
      · rename_i hdir
        cases h
        exact ⟨rfl, Nat.not_lt.mp hsize, hdir, rfl⟩

/-- Storing a file under a name in a directory puts it there, and its path leads to it. -/
theorem store_join {content : String} {w' : Workspace} (hname : Path.Plain name)
    (hpath : w.resolve path = .ok (place, .directory))
    (h : w.store (Path.join path [name]) content = .ok w') :
    w.entryAt (place ++ [name]) ≠ some .directory ∧
      w' = w.put (place ++ [name]) (.file content) ∧
      w'.resolve (Path.join path [name]) = .ok (place ++ [name], .file content) := by
  unfold store at h
  split at h
  · cases h
  · rename_i target htarget
    obtain ⟨hfault, hsize, hdir, rfl⟩ := target_join hname hpath htarget
    cases h
    refine ⟨hdir, rfl, ?_⟩
    -- The new path has the cleaned names of the directory and the name of the file.
    obtain ⟨hnames, habsolute⟩ := Path.names_join (follow_of_resolve hpath).1 hname
    have hstart : (w.put (place ++ [name]) (.file content)).startOf (Path.join path [name]) =
        w.startOf path := by
      rw [startOf, startOf, habsolute]
      rfl
    have hother : place ++ [name] ≠ place := by simp
    -- The directory stays where it is, because the file does not stand in its place.
    have hlead := follow_put hdir content (follow_cleaned hpath)
    rw [if_neg hother] at hlead
    have hinto : into place name = place ++ [name] :=
      into_of_plain hname.ne_empty hname.ne_dot hname.ne_up
    have hentry : (w.put (place ++ [name]) (.file content)).entryAt (into place name) =
        some (.file content) := by
      rw [entryAt_put (by simp), hinto, if_pos rfl]
    simp only [resolve, hfault, hstart, hnames]
    rw [follow_snoc hlead (entryAt_of_follow hlead) hsize hentry, hinto]

end Workspace

end ScriptFlow
