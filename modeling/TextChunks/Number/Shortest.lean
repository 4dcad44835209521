import TextChunks.Number.Decimal
import TextChunks.Text.Basic

namespace TextChunks.Double

def readBack? (digits : Nat) (exponent : Int) : Option Double :=
  Decimal.toDouble? ⟨false, digits, exponent⟩

def same (d e : Double) : Bool :=
  d.fraction.1 * e.fraction.2 == e.fraction.1 * d.fraction.2

def leading (d : Double) : Int :=
  let (a, b) := d.fraction
  if b ≤ a then ((Nat.toDigits 10 (a / b)).length : Int) - 1
  else -((Nat.toDigits 10 ((b - 1) / a)).length : Int)

/-- The neighbours of the value on the grid of `places` digits, the nearer one first; of two at the
same distance the even one. -/
def neighbours (d : Double) (places : Nat) : List (Nat × Int) :=
  let exponent := d.leading - places + 1
  let (a, b) := d.fraction
  let (num, den) := match exponent with
    | .ofNat k => (a, b * Nat.pow 10 k)
    | .negSucc k => (a * Nat.pow 10 (k + 1), b)
  let q := num / den
  if roundHalfEven num den = q then [(q, exponent), (q + 1, exponent)]
  else [(q + 1, exponent), (q, exponent)]

/-- The first grid with a neighbour that reads back gives the digits; seventeen are enough. -/
def shortest (d : Double) : Nat × Int :=
  ((List.range 17).findSome? fun i =>
    (d.neighbours (i + 1)).find? fun p =>
      match readBack? p.1 p.2 with
      | some e => d.same e
      | none => false).getD (0, 0)

def significant (digits : Nat) : Text :=
  ((Nat.toDigits 10 digits).reverse.dropWhile (· == '0')).reverse

/-- Positional from 10^-4 to 10^16, always with a point; else with an exponent of two digits or more. -/
def written (d : Double) : Text :=
  if d.mantissa = 0 then "0.0".toList else
  let (digits, exponent) := d.shortest
  let ds := significant digits
  let point : Int := (Nat.toDigits 10 digits).length + exponent
  if -4 < point ∧ point ≤ 16 then
    if point ≤ 0 then "0.".toList ++ List.replicate (-point).toNat '0' ++ ds
    else if ds.length ≤ point.toNat then
      ds ++ List.replicate (point.toNat - ds.length) '0' ++ ".0".toList
    else ds.take point.toNat ++ '.' :: ds.drop point.toNat
  else
    let e := point - 1
    let digitsOfE := Nat.toDigits 10 e.natAbs
    ds.take 1 ++ (if ds.length ≤ 1 then [] else '.' :: ds.drop 1) ++
      'e' :: (if e < 0 then '-' else '+') ::
      (List.replicate (2 - digitsOfE.length) '0' ++ digitsOfE)

end TextChunks.Double
