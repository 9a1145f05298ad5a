import Easel.Statement.Basic
import Easel.Variables

/-! Methods known to a run, and the calls that are under way. -/

namespace Easel

structure Method where
  signature : Signature
  address : Nat
  last : Nat
  deriving DecidableEq, Repr

/-- Methods by name. Letter case does not matter, and a later one takes the place of an earlier. -/
structure Methods where
  table : Std.ExtTreeMap String Method

namespace Methods

def empty : Methods := ⟨∅⟩

def size (methods : Methods) : Nat := methods.table.size

def register (methods : Methods) (method : Method) : Methods :=
  ⟨methods.table.insert (lowercase method.signature.name) method⟩

def get? (methods : Methods) (name : String) : Option Method := methods.table[lowercase name]?

end Methods

/-- A call under way. `shadowed` are the entries that its parameters took the place of. -/
structure Frame where
  method : Method
  returnTo : Nat
  locals : List String
  shadowed : List (String × Entry)

end Easel
