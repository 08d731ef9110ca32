/-!
Text for a terminal: pieces that may be coloured. Every styled piece starts and ends with a reset.
-/

namespace Weaving.Terminal

inductive Color where
  | red
  | green
  | yellow
  | cyan
  deriving DecidableEq, Repr

def Color.code : Color → String
  | .red => "31"
  | .green => "32"
  | .yellow => "33"
  | .cyan => "36"

structure Style where
  bold : Bool := false
  dimmed : Bool := false
  color : Option Color := none
  deriving DecidableEq, Repr

/-- A piece of text, plain if it has no style. -/
structure Piece where
  text : String
  style : Option Style := none
  deriving DecidableEq, Repr

def escape (code : String) : String := "\x1b[" ++ code ++ "m"

namespace Style

def codes (style : Style) : List String :=
  ["0"] ++ (if style.bold then ["1"] else []) ++ (if style.dimmed then ["2"] else []) ++
    (style.color.map Color.code).toList

end Style

namespace Piece

/-- A plain line. -/
def line (text : String) : Piece := { text := text ++ "\n" }

/-- A styled line; the style reaches over the end of the line. -/
def styledLine (style : Style) (text : String) : Piece := { text := text ++ "\n", style }

/-- The text of a piece where colours are wanted or not. -/
def render (colored : Bool) (piece : Piece) : String :=
  match piece.style with
  | some style =>
    if colored then String.join (style.codes.map escape) ++ piece.text ++ escape "0" else piece.text
  | none => piece.text

end Piece

def render (colored : Bool) (pieces : List Piece) : String :=
  String.join (pieces.map (Piece.render colored))

end Weaving.Terminal
