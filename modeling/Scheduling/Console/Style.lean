/-!
# Styles

Colours and bold print on a terminal, as codes around a text.
-/

namespace Scheduling

/-- The colours that the console uses. -/
inductive Color where
  | yellow
  | white
  | brightBlack
  | brightRed
  | brightGreen
  | brightYellow
  | brightBlue
  | brightMagenta
  | brightCyan
deriving DecidableEq, Repr

namespace Color

/-- The number of a colour. -/
def code : Color → String
  | yellow => "33"
  | white => "37"
  | brightBlack => "90"
  | brightRed => "91"
  | brightGreen => "92"
  | brightYellow => "93"
  | brightBlue => "94"
  | brightMagenta => "95"
  | brightCyan => "96"

/-- A text in a colour. -/
def paint (c : Color) (text : String) : String := "\x1b[" ++ c.code ++ "m" ++ text ++ "\x1b[39m"

end Color

/-- A text in bold print. -/
def embolden (text : String) : String := "\x1b[1m" ++ text ++ "\x1b[0m"

end Scheduling
