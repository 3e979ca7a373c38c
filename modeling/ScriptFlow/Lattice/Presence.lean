/-!
# Presence of a path

Whether a path exists at a point of a script. Five values are named: from `bottom`, the value of
code that is never reached, over `absent` and `present` and their common bound `maybe`, up to
`top`, which is known of no path in particular. A value is the integer code of its name; a code
without a name is a value too, which is above `bottom`, below `maybe` and unrelated to the others.
-/

namespace ScriptFlow

/-- A presence value, given by its integer code. -/
structure Presence where
  /-- The code: 0 to 4 have names. -/
  code : Int
deriving DecidableEq, Inhabited, Repr

namespace Presence

/-- The point is never reached. -/
@[match_pattern] def bottom : Presence := ⟨0⟩

/-- The path does not exist. -/
@[match_pattern] def absent : Presence := ⟨1⟩

/-- The path exists. -/
@[match_pattern] def present : Presence := ⟨2⟩

/-- The path exists on some ways to the point and not on others. -/
@[match_pattern] def maybe : Presence := ⟨3⟩

/-- Nothing is known about the path. -/
@[match_pattern] def top : Presence := ⟨4⟩

/-- The name of a value. -/
def name (p : Presence) : String :=
  if p = bottom then "Bottom"
  else if p = absent then "Absent"
  else if p = present then "Present"
  else if p = maybe then "Maybe"
  else if p = top then "Top"
  else "Unknown"

/-- The least upper bound of two values. -/
def join (a b : Presence) : Presence :=
  if a = bottom then b
  else if b = bottom then a
  else if a = top ∨ b = top then top
  else if a = maybe ∨ b = maybe then maybe
  else if a = b then a
  else maybe

/-- The greatest lower bound of two values. -/
def meet (a b : Presence) : Presence :=
  if a = bottom ∨ b = bottom then bottom
  else if a = top then b
  else if b = top then a
  else if a = b then a
  else if a = maybe ∧ (b = absent ∨ b = present) then b
  else if b = maybe ∧ (a = absent ∨ a = present) then a
  else bottom

end Presence

end ScriptFlow
