import Easel.Canvas

/-! A canvas that reports strokes as lines of text. What is written shows in the pen colour, and all
else is dimmed. -/

namespace Easel.Terminal

def styled (style s : String) : String := s!"\x1b[{style}m{s}\x1b[0m"

def dim (s : String) : String := styled "2" s

def bold (s : String) : String := styled "1" s

structure Colour where
  red : Nat
  green : Nat
  blue : Nat
  deriving DecidableEq, Repr

namespace Colour

def channel (n : Int32) : Nat := min n.toInt.toNat 255

def paint (colour : Colour) (s : String) : String :=
  styled s!"38;2;{colour.red};{colour.green};{colour.blue}" s

end Colour

/-- Where the pen is, and its colour once there is one. -/
structure Screen where
  x : Int32
  y : Int32
  colour : Option Colour
  deriving DecidableEq, Repr

namespace Screen

def empty : Screen := ⟨0, 0, none⟩

def fill (filled : Bool) : String := if filled then " filled" else ""

def report (screen : Screen) (stroke : Stroke) : String × Screen :=
  let px := screen.x.toInt
  let py := screen.y.toInt
  match stroke with
  | .moveTo x y => (dim s!"moveto {x.toInt},{y.toInt}", { screen with x, y })
  | .drawTo x y => (dim s!"line {px},{py} to {x.toInt},{y.toInt}", { screen with x, y })
  | .circle radius filled => (dim s!"circle {radius.toInt} at {px},{py}{fill filled}", screen)
  | .rect width height filled =>
    (dim s!"rect {width.toInt}x{height.toInt} at {px},{py}{fill filled}", screen)
  | .triangle width height => (dim s!"tri {width.toInt}x{height.toInt} at {px},{py}", screen)
  | .colour red green blue =>
    let colour := ⟨Colour.channel red, Colour.channel green, Colour.channel blue⟩
    (dim s!"pen {red.toInt},{green.toInt},{blue.toInt}", { screen with colour := some colour })
  | .write text => match screen.colour with
    | some colour => (colour.paint text, screen)
    | none => (text, screen)
  | .clear => (dim "clear", { screen with x := 0, y := 0 })

def reportAll (screen : Screen) (strokes : Array Stroke) : Array String × Screen :=
  strokes.foldl (fun (lines, screen) stroke =>
    let (line, screen) := screen.report stroke
    (lines.push line, screen)) (#[], screen)

end Screen

end Easel.Terminal
