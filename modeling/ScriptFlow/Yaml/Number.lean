/-!
# Numbers in YAML text

Reads integers, with an optional base, and decimal fractions. A fraction is rounded to the nearest
number with 53 significant binary digits, ties going to the even one, before anything else is done
with it; numbers too large for that are none.
-/

namespace ScriptFlow.Yaml

/-! ## Integers -/

/-- The value of a letter or digit as a digit. -/
def digitValue? (c : Char) : Option Nat :=
  if '0' ≤ c ∧ c ≤ '9' then some (c.toNat - 48)
  else if 'a' ≤ c ∧ c ≤ 'z' then some (c.toNat - 87)
  else if 'A' ≤ c ∧ c ≤ 'Z' then some (c.toNat - 55)
  else none

/-- The number written by digits of a base. -/
def digits? (base : Nat) (cs : List Char) : Option Nat :=
  cs.foldl
    (fun n c => do
      let d ← digitValue? c
      if d < base then return (← n) * base + d else none)
    (some 0)

/-- A number without a sign. A letter after a leading zero gives the base; a zero alone gives base
eight. -/
def magnitude? : List Char → Option Nat
  | [] => none
  | '0' :: rest =>
    match rest with
    | b :: d :: more =>
      if b = 'b' || b = 'B' then digits? 2 (d :: more)
      else if b = 'o' || b = 'O' then digits? 8 (d :: more)
      else if b = 'x' || b = 'X' then digits? 16 (d :: more)
      else digits? 8 rest
    | _ => digits? 8 rest
  | cs => digits? 10 cs

/-- The sign before a number, and the rest. -/
def splitSign : List Char → Option Bool × List Char
  | '+' :: rest => (some false, rest)
  | '-' :: rest => (some true, rest)
  | cs => (none, cs)

/-- A power of two. -/
def twoTo (n : Nat) : Nat := Nat.pow 2 n

/-- A power of ten. -/
def tenTo (n : Nat) : Nat := Nat.pow 10 n

/-- The integer written by a text: one of 64 bits with a sign, or of 64 bits without one. -/
def integer? (cs : List Char) : Option Int :=
  match splitSign cs, magnitude? (splitSign cs).2 with
  | _, none => none
  | (some true, _), some n => if n ≤ twoTo 63 then some (-(n : Int)) else none
  | (some false, _), some n => if n < twoTo 63 then some n else none
  | (none, _), some n => if n < twoTo 64 then some n else none

/-! ## Fractions -/

/-- A floating-point value. -/
inductive Floating
  /-- The whole part of a finite value, which is all that is ever asked for. -/
  | whole (n : Int)
  | infinite (negative : Bool)
  | undefined
deriving DecidableEq, Repr

/-- The nearest multiple of `den` to `num`, as a quotient; ties go to the even quotient. -/
def roundDiv (num den : Nat) : Nat :=
  let q := num / den
  let r := num % den
  if 2 * r < den then q else if 2 * r = den then q + q % 2 else q + 1

/-- The ratio of two numbers rounded to 53 binary digits: `(q, up, down)` stands for
`q * 2 ^ up / 2 ^ down`. -/
def roundRatio (num den : Nat) : Nat × Nat × Nat :=
  -- The first guess at the scale is off by one place at most.
  let up := num.log2 - (den.log2 + 52)
  let down := min 1074 (den.log2 + 52 - num.log2)
  let q := num * twoTo down / (den * twoTo up)
  if twoTo 53 ≤ q then
    if down = 0 then (roundDiv num (den * twoTo (up + 1)), up + 1, 0)
    else (roundDiv (num * twoTo (down - 1)) (den * twoTo up), up, down - 1)
  else if q < twoTo 52 then
    if up = 0 then
      let down := min 1074 (down + 1)
      (roundDiv (num * twoTo down) den, 0, down)
    else (roundDiv num (den * twoTo (up - 1)), up - 1, 0)
  else (roundDiv (num * twoTo down) (den * twoTo up), up, down)

/-- The whole part of `digits * 10 ^ exponent` after rounding; `none` if it is too large for a
floating-point number. -/
def wholePart? (digits : Nat) (exponent : Int) : Option Nat :=
  if digits = 0 then some 0
  else
    let size : Int := (Nat.toDigits 10 digits).length + exponent
    -- Far outside the range of floating-point numbers the digits do not matter.
    if 400 < size then none
    else if size < -400 then some 0
    else
      let num := digits * tenTo exponent.toNat
      let den := tenTo (-exponent).toNat
      let (q, up, down) := roundRatio num den
      if twoTo (1024 + down) ≤ q * twoTo up then none else some (q * twoTo up / twoTo down)

/-- The digits at the start of a text, and the rest. -/
def spanDigits (cs : List Char) : List Char × List Char :=
  cs.span Char.isDigit

/-- The number written by decimal digits. -/
def decimal (cs : List Char) : Nat :=
  cs.foldl (fun n c => n * 10 + (c.toNat - 48)) 0

/-- The exponent at the end of a fraction; an empty text is the exponent zero. -/
def exponent? : List Char → Option Int
  | [] => some 0
  | e :: rest =>
    if e = 'e' || e = 'E' then
      let (sign, ds) := splitSign rest
      if ds.isEmpty || !ds.all Char.isDigit then none
      else if sign = some true then some (-(decimal ds : Int)) else some (decimal ds)
    else none

/-- The value written by a decimal fraction. There must be a digit before the point, or one right
after it. -/
def fraction? (cs : List Char) : Option Floating :=
  let (sign, cs) := splitSign cs
  let (before, rest) := spanDigits cs
  let (after, rest, point) := match rest with
    | '.' :: more => ((spanDigits more).1, (spanDigits more).2, true)
    | _ => ([], rest, false)
  if before.isEmpty && (!point || after.isEmpty) then none
  else do
    let e ← exponent? rest
    let n ← wholePart? (decimal (before ++ after)) (e - after.length)
    return .whole (if sign = some true then -(n : Int) else n)

/-- Whether every underscore stands between two digits. -/
def underscoresOk : List Char → Bool
  | a :: '_' :: b :: rest => a.isDigit && b.isDigit && underscoresOk (b :: rest)
  | '_' :: _ => false
  | [_, '_'] => false
  | _ :: rest => underscoresOk rest
  | [] => true

end ScriptFlow.Yaml
