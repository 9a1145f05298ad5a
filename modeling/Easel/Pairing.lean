import Easel.Stack
import Easel.Statement.Basic
import Std.Data.ExtTreeMap

/-! Pairing the statements that open a block with those that close it. Open blocks wait on a stack
until their `else` or `end` comes. -/

namespace Easel

abbrev Links := Std.ExtTreeMap Nat Nat

structure Opening where
  address : Nat
  block : Block
  line : Option Nat

/-- `targets` leads from an opening to what closes it, `openers` from an `end` to what it closes. -/
structure Pairing where
  opened : Stack Opening
  targets : Links
  openers : Links

namespace Pairing

def empty : Pairing := ⟨.ofOverflow Error.blocksTooDeep, ∅, ∅⟩

def openBlock (pairing : Pairing) (opening : Opening) : Except Error Pairing :=
  return { pairing with opened := ← pairing.opened.push opening }

/-- An `else` closes the `if` before it and opens a block of its own. -/
def openElse (pairing : Pairing) (address : Nat) (line : Option Nat) : Except Error Pairing := do
  match pairing.opened.top? with
  | some ⟨start, .ifBlock, _⟩ =>
    let (_, opened) ← pairing.opened.pop
    let opened ← opened.push ⟨address, .elseBlock, line⟩
    return { pairing with opened, targets := pairing.targets.insert start address }
  | _ => throw (Error.elseWithoutIf.inLine line)

def endBlock (pairing : Pairing) (address : Nat) (block : Block) (line : Option Nat) :
    Except Error Pairing := do
  match pairing.opened.top? with
  | none => throw ((Error.endWithout (uppercase block.keyword)).inLine line)
  | some top =>
    if block.closes top.block then
      let (_, opened) ← pairing.opened.pop
      return ⟨opened, pairing.targets.insert top.address address,
        pairing.openers.insert address top.address⟩
    else
      throw ((Error.endCanNotClose (uppercase block.keyword) (uppercase top.block.keyword)
        top.line).inLine line)

def finish (pairing : Pairing) : Except Error ((Links × Links) × Pairing) :=
  match pairing.opened.top? with
  | some top => .error ((Error.withoutEnd (uppercase top.block.keyword)).inLine top.line)
  | none => .ok ((pairing.targets, pairing.openers), { pairing with targets := ∅, openers := ∅ })

end Pairing

end Easel
