import SqlInjection.Text.Basic

/-!
# Lines

Lines of a text, counted from one and divided by line feeds, as reports and comments need them.

* `lineNumber`: the line a byte offset lies in;
* `lineAt?`: the text before that line and the text from its start on;
* `indentOf`: the spaces and tabs a line starts with.
-/

namespace SqlInjection.Text

/-- The number of line feeds among the first `n` bytes. -/
def lineFeeds : Text → Nat → Nat
  | _, 0 => 0
  | [], _ + 1 => 0
  | c :: t, n + 1 => (if c = '\n' then 1 else 0) + lineFeeds t (n + 1 - c.utf8Size)

/-- The number of the line that byte offset `n` lies in; an offset past the end lies in the last
line. -/
def lineNumber (t : Text) (n : Nat) : Nat := lineFeeds t n + 1

/-- The text before the line that byte offset `n` lies in, and the text from the start of that line
on; `none` when the offset lies inside a character. An offset past the end counts as the end. -/
def lineAt? (t : Text) (n : Nat) : Option (Text × Text) :=
  (splitAt? t (min n (byteSize t))).map fun (l, r) =>
    let head := (l.reverse.takeWhile (· != '\n')).reverse
    let before := (l.reverse.dropWhile (· != '\n')).reverse
    (before, head ++ r)

/-- The spaces and tabs a text starts with. -/
def indentOf (t : Text) : Text := t.takeWhile fun c => c == ' ' || c == '\t'

/-- The last line of a text that ends with a line feed, without the line feed; for the empty text,
the empty line. -/
def lastLine (t : Text) : Text := (t.dropLast.reverse.takeWhile (· != '\n')).reverse

end SqlInjection.Text
