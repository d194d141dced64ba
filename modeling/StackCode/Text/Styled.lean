/-!
# Coloured texts

A style surrounds a text with a colour sequence and the sequence that ends it. With colours off a
styled text is the text itself.
-/

namespace StackCode

/-- A terminal style: the codes that start it and the codes that end it. -/
structure Style where
  start : String
  finish : String
  deriving DecidableEq, Repr

namespace Style

/-- Bold text. -/
def bold : Style := ⟨"1", "22"⟩

/-- Yellow text. -/
def yellow : Style := ⟨"33", "0"⟩

/-- Bright cyan text. -/
def cyan : Style := ⟨"96", "0"⟩

/-- Magenta text. -/
def magenta : Style := ⟨"35", "0"⟩

/-- Bold blue text. -/
def boldBlue : Style := ⟨"34;1", "0;22"⟩

/-- Bold green text. -/
def boldGreen : Style := ⟨"32;1", "0;22"⟩

/-- Bold cyan text. -/
def boldCyan : Style := ⟨"36;1", "0;22"⟩

/-- Bold yellow text. -/
def boldYellow : Style := ⟨"33;1", "0;22"⟩

/-- Bold black text. -/
def boldBlack : Style := ⟨"30;1", "0;22"⟩

/-- A text in a style, if colours are on. -/
def apply (style : Style) (colors : Bool) (s : String) : String :=
  if colors then "\x1b[" ++ style.start ++ "m" ++ s ++ "\x1b[" ++ style.finish ++ "m" else s

end Style

end StackCode
