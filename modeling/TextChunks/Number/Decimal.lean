namespace TextChunks

/-- The number `± digits · 10 ^ exponent`. -/
structure Decimal where
  negative : Bool
  digits : Nat
  exponent : Int
  deriving DecidableEq

/-- The magnitude `mantissa · 2 ^ exponent` of a finite double precision number. -/
structure Double where
  mantissa : Nat
  exponent : Int
  deriving DecidableEq

def roundHalfEven (num den : Nat) : Nat :=
  let q := num / den
  let r := num % den
  if 2 * r < den then q
  else if den < 2 * r then q + 1
  else q + q % 2

namespace Double

def limit : Nat := Nat.pow 2 1024

def scaled (num den : Nat) (e : Int) : Nat × Nat :=
  match e with
  | .ofNat k => (num, den * Nat.pow 2 k)
  | .negSucc k => (num * Nat.pow 2 (k + 1), den)

/-- The exponent that leaves 53 bits before the point, but not below that of the least number. -/
def exponentOf (num den : Nat) : Int :=
  let e : Int := (Nat.log2 num : Int) - Nat.log2 den - 53
  let (a, b) := scaled num den e
  max (-1074) (if a / b < Nat.pow 2 53 then e else e + 1)

/-- The nearest double to a positive fraction, halves to even; `none` past the largest one. -/
def ofFraction? (num den : Nat) : Option Double :=
  let e := exponentOf num den
  let (a, b) := scaled num den e
  let d : Double := ⟨roundHalfEven a b, e⟩
  let (x, y) := scaled d.mantissa 1 (-e)
  if x < limit * y then some d else none

def fraction (d : Double) : Nat × Nat := scaled d.mantissa 1 (-d.exponent)

def toNat? (d : Double) : Option Nat :=
  let (a, b) := d.fraction
  if a % b = 0 then some (a / b) else none

end Double

namespace Decimal

def magnitude (d : Decimal) : Int := (Nat.toDigits 10 d.digits).length + d.exponent

def fraction (d : Decimal) : Nat × Nat :=
  match d.exponent with
  | .ofNat k => (d.digits * Nat.pow 10 k, 1)
  | .negSucc k => (d.digits, Nat.pow 10 (k + 1))

def toDouble? (d : Decimal) : Option Double :=
  if d.digits = 0 ∨ d.magnitude < -400 then some ⟨0, 0⟩
  else if 400 < d.magnitude then none
  else Double.ofFraction? d.fraction.1 d.fraction.2

end Decimal

end TextChunks
