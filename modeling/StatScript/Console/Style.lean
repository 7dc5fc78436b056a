/-!
# Styled text

Text on a terminal has a colour or none, and may be bold. Painting puts the escape sequence of the
style before the text and the one that ends it behind.
-/

namespace StatScript.Console

/-- The colours that are used. -/
inductive Colour where
  | red
  | green
  | yellow
  | blue
  | magenta
  | cyan
  | darkGray
deriving DecidableEq, Repr

/-- The number of a colour in an escape sequence. -/
def Colour.code : Colour → String
  | red => "31"
  | green => "32"
  | yellow => "33"
  | blue => "34"
  | magenta => "35"
  | cyan => "36"
  | darkGray => "90"

/-- How text looks. -/
structure Style where
  colour : Option Colour := none
  bold : Bool := false
deriving DecidableEq, Repr

/-- Text in a colour. -/
def Colour.style (colour : Colour) : Style := { colour := some colour }

/-- Bold text in a colour. -/
def Colour.boldStyle (colour : Colour) : Style := { colour := some colour, bold := true }

/-- The codes of a style. -/
def Style.codes (style : Style) : List String :=
  (if style.bold then ["1"] else []) ++ (style.colour.map Colour.code).toList

/-- Paints text; text without a style stays as it is. -/
def Style.paint (style : Style) (text : String) : String :=
  match style.codes with
  | [] => text
  | codes => "\x1b[" ++ ";".intercalate codes ++ "m" ++ text ++ "\x1b[0m"

/-- Paints text in a colour. -/
def Colour.paint (colour : Colour) (text : String) : String := colour.style.paint text

/-- Paints bold text in a colour. -/
def Colour.paintBold (colour : Colour) (text : String) : String := colour.boldStyle.paint text

end StatScript.Console
