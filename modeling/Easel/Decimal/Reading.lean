import Easel.Text.Basic

/-! Reading numbers. A text is a number as a whole or not at all. -/

namespace Easel.Decimal

def isDigit (c : Char) : Bool := '0' ≤ c && c ≤ '9'

def digit (c : Char) : Nat := c.toNat - '0'.toNat

/-- A number in two parts, `high * scale + low`. New digits go to the low part, and only when that is
long does the high part take it over, so that large numbers are rarely multiplied. -/
structure Gathered where
  high : Nat
  low : Nat
  scale : Nat

namespace Gathered

def empty : Gathered := ⟨0, 0, 1⟩

def value (number : Gathered) : Nat := number.high * number.scale + number.low

def maxScale : Nat := 1000000000000000000

def push (number : Gathered) (c : Char) : Gathered :=
  if number.scale < maxScale then ⟨number.high, 10 * number.low + digit c, 10 * number.scale⟩
  else ⟨number.value, digit c, 10⟩

theorem value_push (number : Gathered) (c : Char) :
    (number.push c).value = 10 * number.value + digit c := by
  unfold push
  split
  · simp only [value, Nat.mul_add, Nat.mul_left_comm, Nat.add_assoc]
  · simp only [value, Nat.mul_comm]

end Gathered

def digitsValue (digits : List Char) : Nat := (digits.foldl Gathered.push .empty).value

theorem digitsValue_concat (digits : List Char) (c : Char) :
    digitsValue (digits ++ [c]) = 10 * digitsValue digits + digit c := by
  simp only [digitsValue, List.foldl_append, List.foldl_cons, List.foldl_nil, Gathered.value_push]

def digits? (s : List Char) : Option Nat :=
  if !s.isEmpty && s.all isDigit then some (digitsValue s) else none

def sign : List Char → Bool × List Char
  | '-' :: rest => (true, rest)
  | '+' :: rest => (false, rest)
  | rest => (false, rest)

def int? (s : List Char) : Option Int :=
  let (negative, rest) := sign s
  (digits? rest).map fun n => if negative then -(n : Int) else n

def int32? (s : List Char) : Option Int32 := do
  let n ← int? s
  if Int32.minValue.toInt ≤ n && n ≤ Int32.maxValue.toInt then some (Int32.ofInt n) else none

/-- A count that fits into 64 bits; a plus sign may stand before it. -/
def count? (s : List Char) : Option Nat := do
  let n ← digits? (match s with | '+' :: rest => rest | rest => rest)
  if n < Nat.pow 2 64 then some n else none

/-- Digits, a point and digits, with at least one digit in all: the digits as one number, and how
many of them stand behind the point. -/
def fixed? (s : List Char) : Option (Nat × Nat) :=
  let whole := s.takeWhile isDigit
  match s.dropWhile isDigit with
  | [] => if whole.isEmpty then none else some (digitsValue whole, 0)
  | '.' :: fraction =>
    if fraction.all isDigit && !(whole.isEmpty && fraction.isEmpty) then
      some (digitsValue (whole ++ fraction), fraction.length)
    else none
  | _ => none

/-- The real nearest to `digits * 10 ^ power`. From `2 ^ 1024` on that is infinity; a power of ten
takes off less than four binary digits for each decimal one. -/
def nearest (digits : Nat) (power : Int) : Float :=
  if 1024 + 4 * (-power).toNat ≤ digits.log2 then 1 / 0
  else match power with
    | .ofNat up => Float.ofScientific digits false up
    | .negSucc down => Float.ofScientific digits true (down + 1)

def powerLimit : Nat := 65536

/-- A power of ten with a sign or without. Its digits count until it reaches the limit, and those
behind them change nothing. -/
def power? (s : List Char) : Option Int :=
  let (negative, digits) := sign s
  if !digits.isEmpty && digits.all isDigit then
    let n := digits.foldl (fun n c => if n < powerLimit then 10 * n + digit c else n) 0
    some (if negative then -(n : Int) else n)
  else none

/-- A magnitude: a fixed point number, maybe with a power of ten behind `e`, or a word for what is
not finite. -/
def magnitude? (s : List Char) : Option Float :=
  let word := Text.lower s
  if word = "inf".toList || word = "infinity".toList then some (1 / 0)
  else if word = "nan".toList then some (0 / 0)
  else do
    let (digits, places) ← fixed? (s.takeWhile (fun c => c != 'e' && c != 'E'))
    let power ← match s.dropWhile (fun c => c != 'e' && c != 'E') with
      | [] => some 0
      | _ :: power => power? power
    some (nearest digits (power - places))

def real? (s : List Char) : Option Float :=
  let (negative, rest) := sign s
  (magnitude? rest).map fun x => if negative then -x else x

end Easel.Decimal
