import SqlInjection.Text.Basic

/-!
# Blank characters

The characters with the Unicode property White_Space, and trimming by them. Every scanner of the
library that speaks of blanks means this class.
-/

namespace SqlInjection.Text

/-- A character with the Unicode property White_Space. -/
def isBlank (c : Char) : Bool :=
  let n := c.toNat
  (9 ≤ n && n ≤ 13) || n == 0x20 || n == 0x85 || n == 0xA0 || n == 0x1680 ||
    (0x2000 ≤ n && n ≤ 0x200A) || n == 0x2028 || n == 0x2029 || n == 0x202F || n == 0x205F ||
    n == 0x3000

/-- The text without its leading blanks. -/
def trimStart (t : Text) : Text := t.dropWhile isBlank

/-- The text without its trailing blanks. -/
def trimEnd (t : Text) : Text := dropEndWhile isBlank t

/-- The text without its leading and trailing blanks. -/
def trim (t : Text) : Text := trimEnd (trimStart t)

/-- Whether the text holds blanks only. -/
def blank (t : Text) : Bool := t.all isBlank

end SqlInjection.Text
