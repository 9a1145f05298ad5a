/-! A finite real taken apart: its sign, and its magnitude as `mantissa * 2 ^ exponent`. -/

namespace Easel.Decimal

structure Binary where
  negative : Bool
  mantissa : Nat
  exponent : Int
  deriving DecidableEq, Repr

namespace Binary

def ofFloat (x : Float) : Binary :=
  let bits := x.toBits.toNat
  let field : Nat := bits / Nat.pow 2 52 % Nat.pow 2 11
  let fraction : Nat := bits % Nat.pow 2 52
  ⟨bits / Nat.pow 2 63 == 1,
    if field = 0 then fraction else Nat.pow 2 52 + fraction,
    if field = 0 then -1074 else (field : Int) - 1075⟩

/-- The next smaller magnitude is only half as far away as the next larger one. -/
def narrowBelow (b : Binary) : Bool := b.mantissa == Nat.pow 2 52 && -1074 < b.exponent

/-- The nearest integer; a half goes away from zero. -/
def round (b : Binary) : Int :=
  let magnitude := match b.exponent with
    | .ofNat up => b.mantissa * Nat.pow 2 up
    | .negSucc down => (b.mantissa + Nat.pow 2 down) / Nat.pow 2 (down + 1)
  if b.negative then -(magnitude : Int) else magnitude

end Binary

def round? (x : Float) : Option Int :=
  if x.isFinite then some (Binary.ofFloat x).round else none

end Easel.Decimal
