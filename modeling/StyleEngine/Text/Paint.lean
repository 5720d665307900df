import StyleEngine.Text.Substitute

/-! # Coloured text

Text in colours for terminals.  A style is set in front of a text and reset after
it; where the text itself resets, the style is set again.
-/
namespace StyleEngine

/-- How a text is to look. -/
inductive Paint where
  | red
  | yellow
  | blue
  | cyan
  | green
  | bold
  | underline
  | redBold
  | yellowBold

namespace Paint

def code : Paint → String
  | .red => "31"
  | .yellow => "33"
  | .blue => "34"
  | .cyan => "36"
  | .green => "32"
  | .bold => "1"
  | .underline => "4"
  | .redBold => "1;31"
  | .yellowBold => "1;33"

def start (p : Paint) : String := "\x1b[" ++ p.code ++ "m"

def reset : String := "\x1b[0m"

/-- A text in a style, if colours are on. -/
def apply (p : Paint) (on : Bool) (text : String) : String :=
  if on then p.start ++ substitute reset (reset ++ p.start) text ++ reset else text

end Paint

end StyleEngine
