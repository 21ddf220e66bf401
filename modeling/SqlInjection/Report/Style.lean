import SqlInjection.Finding.Fingerprint

/-!
# Styles

Colours and emphasis on a terminal, as escape sequences around a text.
-/

namespace SqlInjection

/-- The colours. -/
inductive Colour where
  | red
  | green
  | yellow
  | blue
  | cyan
  deriving DecidableEq, Repr

/-- Ways to set a text apart. -/
inductive Emphasis where
  | bold
  | dim
  | underlined
  deriving DecidableEq, Repr

/-- A colour, if any, and emphasis. -/
structure Style where
  colour : Option Colour := none
  emphasis : List Emphasis := []
  deriving DecidableEq, Repr

/-- The number that switches a colour on. -/
def Colour.code : Colour → Nat
  | red => 31
  | green => 32
  | yellow => 33
  | blue => 34
  | cyan => 36

/-- The number that switches an emphasis on. -/
def Emphasis.code : Emphasis → Nat
  | bold => 1
  | dim => 2
  | underlined => 4

/-- The numbers that switch a style on: its colour comes first. -/
def Style.codes (s : Style) : List Nat :=
  s.colour.toList.map Colour.code ++ s.emphasis.map Emphasis.code

/-- The escape sequence with a number. -/
def escapeSequence (code : Nat) : Text := Char.ofNat 27 :: '[' :: decimal code ++ ['m']

/-- A text in a style. Where styles are not shown, the text stands alone. -/
def Style.paint (s : Style) (shown : Bool) (t : Text) : Text :=
  if shown && !s.codes.isEmpty then s.codes.flatMap escapeSequence ++ t ++ escapeSequence 0 else t

/-- A style that is a colour. -/
def Colour.style (c : Colour) : Style := { colour := some c }

/-- A style that is an emphasis. -/
def Emphasis.style (e : Emphasis) : Style := { emphasis := [e] }

end SqlInjection
