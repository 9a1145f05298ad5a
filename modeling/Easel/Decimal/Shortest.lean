import Easel.Decimal.Binary

/-! Writing a real with the fewest digits that read back as the same real, never with an exponent. -/

namespace Easel.Decimal

/-- The decimal `digits * 10 ^ power`. -/
structure Scaled where
  digits : Nat
  power : Int
  deriving DecidableEq, Repr

/-- The multiple of `10 ^ power` that lies nearest to the magnitude of `b` among those that read
back as it, if there is one. Magnitudes are counted in quarters of the last binary place. A real
half way between two others reads as the one with the even mantissa. Of two equally near multiples
the larger one is taken. -/
def onGrid? (b : Binary) (power : Int) : Option Nat :=
  let quarter := b.exponent - 2
  let scale := Nat.pow 2 quarter.toNat * Nat.pow 10 (-power).toNat
  let unit := Nat.pow 2 (-quarter).toNat * Nat.pow 10 power.toNat
  let value := 4 * b.mantissa * scale
  let low := (4 * b.mantissa - if b.narrowBelow then 1 else 2) * scale
  let high := (4 * b.mantissa + 2) * scale
  let inside := fun n =>
    if b.mantissa % 2 = 0 then low ≤ n * unit && n * unit ≤ high
    else low < n * unit && n * unit < high
  let below := value / unit
  match inside below, inside (below + 1) with
  | true, true =>
    if value - below * unit < (below + 1) * unit - value then some below else some (below + 1)
  | true, false => some below
  | false, true => some (below + 1)
  | false, false => none

def powerAbove (b : Binary) : Int :=
  ((b.mantissa.log2 : Int) + b.exponent + 1) * 30103 / 100000 + 2

/-- The decimal on the coarsest grid that has one. Seventeen digits always suffice, and the first
grid tried has a step of at most a thousand times the magnitude. -/
def shortest (b : Binary) : Scaled :=
  ((List.range 22).findSome? fun (finer : Nat) =>
    let power := powerAbove b - finer
    (onGrid? b power).map (⟨·, power⟩)).getD ⟨0, 0⟩

def digitsOf (n : Nat) : List Char := Nat.toDigits 10 n

def Scaled.positional (d : Scaled) : List Char :=
  match d.power with
  | .ofNat zeros => digitsOf d.digits ++ List.replicate zeros '0'
  | .negSucc n =>
    let places := n + 1
    let digits := digitsOf d.digits
    let padded := List.replicate (places + 1 - digits.length) '0' ++ digits
    let whole := padded.take (padded.length - places)
    let fraction := ((padded.drop (padded.length - places)).reverse.dropWhile (· == '0')).reverse
    if fraction.isEmpty then whole else whole ++ '.' :: fraction

/-- The shortest text of a real: `5`, `0.1`, `-0`, `inf`, `NaN`. -/
def text (x : Float) : String :=
  if x.isNaN then "NaN"
  else
    let b := Binary.ofFloat x
    let magnitude :=
      if x.isInf then "inf"
      else if b.mantissa = 0 then "0"
      else String.ofList (shortest b).positional
    if b.negative then "-" ++ magnitude else magnitude

/-- The shortest text with at least one decimal place; there is one zero. -/
def pointText (x : Float) : String :=
  let s := text (if x == 0 then 0 else x)
  if s.toList.contains '.' then s else s ++ ".0"

end Easel.Decimal
