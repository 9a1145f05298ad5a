import Easel.Decimal.Reading
import Easel.Decimal.Shortest
import Easel.Error
import Easel.Statement.Basic

/-! Values of variables, and arrays as grids of cells. -/

namespace Easel

inductive Cells where
  | ints (cells : Array Int32)
  | reals (cells : Array Float)

def Cells.size : Cells → Nat
  | ints cells => cells.size
  | reals cells => cells.size

/-- An array, row by row. An array of one dimension has one column. -/
structure Grid where
  rows : Nat
  columns : Nat
  cells : Cells
  size_eq : cells.size = rows * columns

inductive Value where
  | int (n : Int32)
  | real (x : Float)
  | boolean (b : Bool)
  | array (grid : Grid)

namespace Grid

def kind (grid : Grid) : Kind :=
  match grid.cells with
  | .ints _ => .int
  | .reals _ => .real

/-- All cells zero. Cells are reals for the kind `real` and integers for every other one. -/
def zero (kind : Kind) (rows columns : Nat) : Grid :=
  match kind with
  | .real => ⟨rows, columns, .reals (Array.replicate (rows * columns) 0), Array.size_replicate⟩
  | _ => ⟨rows, columns, .ints (Array.replicate (rows * columns) 0), Array.size_replicate⟩

def maxCells : Nat := 1048576

/-- A grid of the size a program asks for: no fewer than no rows and one column. -/
def dimension (kind : Kind) (rows columns : Int32) : Except Error Grid :=
  let rows := rows.toInt.toNat
  let columns := max columns.toInt.toNat 1
  if rows * columns ≤ maxCells then .ok (zero kind rows columns)
  else .error (.arrayTooLarge rows columns)

def index (grid : Grid) (row column : Int32) : Except Error Nat :=
  if row.toInt < 0 || grid.rows ≤ row.toInt then
    .error (.indexOutOfRange "ROW" row.toInt grid.rows)
  else if column.toInt < 0 || grid.columns ≤ column.toInt then
    .error (.indexOutOfRange "COLUMN" column.toInt grid.columns)
  else .ok (row.toInt.toNat * grid.columns + column.toInt.toNat)

def get (grid : Grid) (row column : Int32) : Except Error Value := do
  let index ← grid.index row column
  return match grid.cells with
    | .ints cells => .int (cells[index]?.getD 0)
    | .reals cells => .real (cells[index]?.getD 0)

def text (grid : Grid) : String := s!"array {grid.kind.keyword} {grid.rows} {grid.columns}"

end Grid

/-- Reals this close to zero count as false. -/
def epsilon : Float := 2.220446049250313e-16

def isTrue (x : Float) : Bool := epsilon < x.abs

/-- The nearest integer, a half going away from zero, if it fits into 32 bits. -/
def roundInt (x : Float) : Except Error Int32 :=
  match Decimal.round? x with
  | some n =>
    if Int32.minValue.toInt ≤ n && n ≤ Int32.maxValue.toInt then .ok (Int32.ofInt n)
    else .error .overflow
  | none => .error .overflow

namespace Value

def kind : Value → Kind
  | int _ => .int
  | real _ => .real
  | boolean _ => .boolean
  | array _ => .array

def zero : Kind → Value
  | .int => int 0
  | .real => real 0
  | .boolean => boolean false
  | .array => array (Grid.zero .int 0 1)

/-- The value as an assignment to a variable of the given kind stores it. -/
def coerce : Kind → Value → Except Error Value
  | .int, int n => .ok (int n)
  | .int, real x => int <$> roundInt x
  | .int, boolean b => .ok (int (if b then 1 else 0))
  | .real, int n => .ok (real (Float.ofInt n.toInt))
  | .real, real x => .ok (real x)
  | .real, boolean b => .ok (real (if b then 1 else 0))
  | .boolean, int n => .ok (boolean (n != 0))
  | .boolean, real x => .ok (boolean (isTrue x))
  | .boolean, boolean b => .ok (boolean b)
  | .array, array grid => .ok (array grid)
  | .array, value => .error (.assignToArray value.kind.keyword)
  | kind, array _ => .error (.assignArrayTo kind.keyword)

def text : Value → String
  | int n => toString n.toInt
  | real x => Decimal.pointText x
  | boolean b => toString b
  | array grid => grid.text

end Value

namespace Grid

def cell (grid : Grid) (row column : Int32) (value : Value) : Except Error (Nat × Value) := do
  let index ← grid.index row column
  let value ← value.coerce grid.kind
  match grid.cells, value with
  | .ints _, .int _ | .reals _, .real _ => return (index, value)
  | _, _ => throw .arrayCellKind

/-- Puts a value at a place. A value that cells do not store changes nothing. -/
def put : Grid → Nat → Value → Grid
  | ⟨rows, columns, .ints cells, size_eq⟩, index, .int n =>
    ⟨rows, columns, .ints (cells.setIfInBounds index n), Array.size_setIfInBounds.trans size_eq⟩
  | ⟨rows, columns, .reals cells, size_eq⟩, index, .real x =>
    ⟨rows, columns, .reals (cells.setIfInBounds index x), Array.size_setIfInBounds.trans size_eq⟩
  | grid, _, _ => grid

def set (grid : Grid) (row column : Int32) (value : Value) : Except Error Grid := do
  let (index, value) ← grid.cell row column value
  return grid.put index value

end Grid

end Easel
