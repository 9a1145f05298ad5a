import Easel.Value
import Std.Data.ExtTreeMap

/-! The variable table: one entry for each name. -/

namespace Easel

inductive Scope where
  | global
  | local
  deriving DecidableEq, Repr

structure Entry where
  value : Value
  scope : Scope

structure Variables where
  table : Std.ExtTreeMap String Entry

namespace Variables

def empty : Variables := ⟨∅⟩

def size (vars : Variables) : Nat := vars.table.size

def contains (vars : Variables) (name : String) : Bool := vars.table.contains name

def get? (vars : Variables) (name : String) : Option Entry := vars.table[name]?

def toList (vars : Variables) : List (String × Entry) := vars.table.toList

def entry (vars : Variables) (name : String) : Except Error Entry :=
  match vars.get? name with
  | some entry => .ok entry
  | none => .error (.unknown name)

def fetch (vars : Variables) (name : String) : Except Error Value :=
  return (← vars.entry name).value

def maxSize : Nat := 65536

/-- Puts an entry under a name, in place of the one that was there. A full table takes none, not
even in place of another. -/
def add (vars : Variables) (name : String) (value : Value) (scope : Scope) :
    Except Error Variables :=
  if vars.size < maxSize then .ok ⟨vars.table.insert name ⟨value, scope⟩⟩
  else .error .tooManyVariables

/-- Assigns to a variable that exists; the value takes on its kind. -/
def update (vars : Variables) (name : String) (value : Value) : Except Error Variables := do
  let entry ← vars.entry name
  let value ← value.coerce entry.value.kind
  return ⟨vars.table.insert name { entry with value }⟩

/-- Assigns to a variable that exists, and otherwise makes a global one. -/
def assign (vars : Variables) (name : String) (value : Value) : Except Error Variables :=
  if vars.contains name then vars.update name value else vars.add name value .global

def erase (vars : Variables) (name : String) : Variables := ⟨vars.table.erase name⟩

def restore (vars : Variables) (name : String) (entry : Entry) : Variables :=
  ⟨vars.table.insert name entry⟩

def grid (vars : Variables) (name : String) : Except Error Grid := do
  match ← vars.fetch name with
  | .array grid => return grid
  | _ => throw (.notAnArray name)

def putCell (vars : Variables) (name : String) (index : Nat) (value : Value) : Variables :=
  ⟨vars.table.modify name fun
    | ⟨.array grid, scope⟩ => ⟨.array (grid.put index value), scope⟩
    | entry => entry⟩

def setCell (vars : Variables) (name : String) (row column : Int32) (value : Value) :
    Except Error Variables := do
  let (index, value) ← (← vars.grid name).cell row column value
  return vars.putCell name index value

end Variables

end Easel
