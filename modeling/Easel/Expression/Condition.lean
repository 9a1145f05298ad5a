import Easel.Expression.Arithmetic

/-! Conditions: `||` over `&&` over `!` over comparisons. Both sides of a connective are always
evaluated.

As in arithmetic, every call has less fuel than its caller. The readers of conditions take fuel for
four calls a character, and leave as much to the sums that they compare. -/

namespace Easel.Expression

open Text

inductive Comparison where
  | atLeast
  | atMost
  | equal
  | unequal
  | greater
  | less
  deriving DecidableEq, Repr

namespace Comparison

def holds : Comparison → Float → Float → Bool
  | atLeast, x, y => x ≥ y
  | atMost, x, y => x ≤ y
  | equal, x, y => x == y
  | unequal, x, y => x != y
  | greater, x, y => x > y
  | less, x, y => x < y

/-- The signs, the longer ones first. -/
def signs : List (List Char × Comparison) :=
  [(['>', '='], atLeast), (['<', '='], atMost), (['=', '='], equal), (['!', '='], unequal),
    (['>'], greater), (['<'], less)]

def read? (s : List Char) : Option (Comparison × List Char) :=
  signs.findSome? fun (sign, comparison) => (Token.text? sign s).map (comparison, ·)

end Comparison

/-- Two sums compared, or one sum alone, which is true when it is not about zero. -/
def comparison (vars : Variables) (fuel : Nat) (s : List Char) : Except Error (Reading Bool) := do
  let (left, s) ← sum vars fuel s
  match Comparison.read? s with
  | some (comparison, s) =>
    let (right, s) ← sum vars fuel s
    return (comparison.holds left right, s)
  | none => return (isTrue left, s)

def continuesArithmetic (s : List Char) : Bool :=
  match trimStart s with
  | '!' :: '=' :: _ => true
  | c :: _ => "+-*/<>=".toList.contains c
  | [] => false

mutual

def disjunction (vars : Variables) : Nat → List Char → Except Error (Reading Bool)
  | 0, _ => .error .unexpectedEnd
  | fuel + 1, s => do
    let (left, s) ← conjunction vars fuel s
    disjunctionFrom vars fuel left s

def disjunctionFrom (vars : Variables) : Nat → Bool → List Char → Except Error (Reading Bool)
  | 0, _, _ => .error .unexpectedEnd
  | fuel + 1, left, s =>
    match Token.text? ['|', '|'] s with
    | some s => do
      let (right, s) ← conjunction vars fuel s
      disjunctionFrom vars fuel (left || right) s
    | none => .ok (left, s)

def conjunction (vars : Variables) : Nat → List Char → Except Error (Reading Bool)
  | 0, _ => .error .unexpectedEnd
  | fuel + 1, s => do
    let (left, s) ← negation vars fuel s
    conjunctionFrom vars fuel left s

def conjunctionFrom (vars : Variables) : Nat → Bool → List Char → Except Error (Reading Bool)
  | 0, _, _ => .error .unexpectedEnd
  | fuel + 1, left, s =>
    match Token.text? ['&', '&'] s with
    | some s => do
      let (right, s) ← negation vars fuel s
      conjunctionFrom vars fuel (left && right) s
    | none => .ok (left, s)

def negation (vars : Variables) : Nat → List Char → Except Error (Reading Bool)
  | 0, _ => .error .unexpectedEnd
  | fuel + 1, s =>
    match Token.char? '!' s with
    | some s => do
      let (b, s) ← negation vars fuel s
      return (!b, s)
    | none => atom vars fuel s

/-- `true`, `false`, a condition in parentheses or a comparison. Parentheses that hold no condition,
or behind which arithmetic goes on, belong to the comparison. -/
def atom (vars : Variables) : Nat → List Char → Except Error (Reading Bool)
  | 0, _ => .error .unexpectedEnd
  | fuel + 1, s =>
    match Token.word? "true".toList s with
    | some s => .ok (true, s)
    | none => match Token.word? "false".toList s with
      | some s => .ok (false, s)
      | none => match Token.char? '(' s with
        | none => comparison vars fuel s
        | some inner => match disjunction vars fuel inner with
          | .error _ => comparison vars fuel s
          | .ok (b, rest) => match Token.char? ')' rest with
            | none => comparison vars fuel s
            | some rest => if continuesArithmetic rest then comparison vars fuel s else .ok (b, rest)

end

def boolean (vars : Variables) (s : List Char) : Except Error Bool :=
  if (trim s).isEmpty then .error .missingCondition
  else do complete (← disjunction vars (8 * s.length + 8) s)

end Easel.Expression
