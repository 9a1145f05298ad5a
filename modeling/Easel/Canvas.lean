/-! What a program asks a canvas to do. Position, colour and appearance belong to the canvas. -/

namespace Easel

inductive Stroke where
  | moveTo (x y : Int32)
  | drawTo (x y : Int32)
  | circle (radius : Int32) (filled : Bool)
  | rect (width height : Int32) (filled : Bool)
  | triangle (width height : Int32)
  | colour (red green blue : Int32)
  | write (text : String)
  | clear
  deriving DecidableEq, Repr

end Easel
