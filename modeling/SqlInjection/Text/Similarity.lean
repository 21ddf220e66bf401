import SqlInjection.Text.Basic

/-!
# Similar words

How alike two words are: a character of one matches an equal character of the other that is not too
far from its place. The more characters match, and the fewer of them stand in another order, the more
alike the words are.
-/

namespace SqlInjection.Text

/-- Marks the first free character from place `low` up to place `high` that equals `c`, where the list
starts at place `j`; `none` when there is none. -/
def markMatch (c : Char) (low high : Nat) : Nat → List (Char × Bool) → Option (List (Char × Bool))
  | _, [] => none
  | j, (d, taken) :: l =>
    if low ≤ j && j < high && c == d && !taken then some ((d, true) :: l)
    else (markMatch c low high (j + 1) l).map ((d, taken) :: ·)

/-- The characters of a text, which starts at place `i`, that match, and the other text with its
matched characters marked. -/
def matchChars (range : Nat) : Nat → Text → List (Char × Bool) → Text × List (Char × Bool)
  | _, [], l => ([], l)
  | i, c :: s, l =>
    match markMatch c (i - range) (i + range + 1) 0 l with
    | some l =>
      let (found, l) := matchChars range (i + 1) s l
      (c :: found, l)
    | none => matchChars range (i + 1) s l

/-- Whether two words are alike: the mean of the parts of either word that match, and of the part of
the matches that stands in order, is at least seven tenths. -/
def alike (a b : Text) : Bool :=
  let la := a.length
  let lb := b.length
  let (found, marked) := matchChars (max la lb / 2 - 1) 0 a (b.map (·, false))
  let other := (marked.filter (·.2)).map (·.1)
  let m := found.length
  let swaps := ((found.zip other).countP fun (c, d) => c != d) / 2
  if m = 0 then la = 0 && lb = 0
  else 21 * la * lb * m ≤ 10 * (m * m * lb + m * m * la + (m - swaps) * la * lb)

end SqlInjection.Text
