import SqlInjection.Text.Blank
import SqlInjection.Text.Case

/-!
# Operands that a text leads up to

Recognisers for the end of a text: what operand would come next. Words are read in any letter case.

* `leadsToInOperand`: `where id in (`, and the same after `and` and `or`;
* `leadsToLikePattern`: `name like '%`;
* `leadsToOrdering`, `leadsToHaving`, `leadsToLimit`: `order by`, `group by`, `having` and `limit`,
  each followed by a short list of items.
-/

namespace SqlInjection

/-- Whether the text starts with a blank. -/
def startsBlank : Text → Bool
  | c :: _ => Text.isBlank c
  | [] => false

/-- Whether a word of the list, in any letter case, ends the text given last character first. -/
def endsBackWith (ws : List Text) (back : Text) : Bool :=
  (Text.stripAnyWord? (ws.map List.reverse) back).isSome

/-- The text without its first character when that satisfies `p`. -/
def dropOptional (p : Char → Bool) : Text → Text
  | c :: t => if p c then t else c :: t
  | [] => []

/-- A quote of either kind. -/
def isQuote (c : Char) : Bool := c == '\'' || c == '"'

/-- Whether the text ends with a filter keyword, a column and `in`, perhaps with an opening
parenthesis and a quote after it. -/
def leadsToInOperand (t : Text) : Bool :=
  let back := dropOptional (· == '(') (Text.trimStart (dropOptional isQuote t.reverse))
  match Text.stripWord? "ni".toList (Text.trimStart back) with
  | none => false
  | some r =>
    let column := Text.trimStart r
    let rest := column.dropWhile fun c => !Text.isBlank c
    startsBlank r && !column.isEmpty && startsBlank rest &&
      endsBackWith ["where".toList, "and".toList, "or".toList] (Text.trimStart rest)

/-- Whether the text ends with a column, `like` and an opening quote, perhaps with a percent sign
after it. -/
def leadsToLikePattern (t : Text) : Bool :=
  match dropOptional (· == '%') t.reverse with
  | [] => false
  | q :: r =>
    match Text.stripWord? "ekil".toList (Text.trimStart r) with
    | none => false
    | some s => isQuote q && startsBlank r && startsBlank s && !(Text.trimStart s).isEmpty

/-- A character of an item in an ordering list. -/
def isItemChar (c : Char) : Bool :=
  c.isAlphanum || c == '_' || c == '-' || c == '(' || c == ')' ||
    c == Text.longS || c == Text.kelvinSign

/-- At most `n` characters that satisfy `p`, dropped from the front. -/
def dropAtMost (p : Char → Bool) : Nat → Text → Text
  | n + 1, c :: t => if p c then dropAtMost p n t else c :: t
  | _, t => t

/-- Whether the text is a list of at most `n` items. An item may end with a comma, and up to three
blanks may follow it. -/
def isItemList : Nat → Text → Bool
  | 0, t => t.isEmpty
  | n + 1, t =>
    t.isEmpty ||
      (!(t.takeWhile isItemChar).isEmpty &&
        isItemList n (dropAtMost Text.isBlank 3 (dropOptional (· == ',') (t.dropWhile isItemChar))))

/-- Whether the text holds one of the words with only a list of at most `n` items after it. -/
def endsInItems (n : Nat) (ws : List Text) : Text → Bool
  | [] => false
  | c :: t =>
    (match Text.stripAnyWord? ws (c :: t) with
      | some r => isItemList n (Text.trimStart r)
      | none => false) || endsInItems n ws t

/-- Whether the text ends in a `having` clause of up to five items. -/
def leadsToHaving (t : Text) : Bool := endsInItems 5 ["having".toList] t

/-- Whether the text ends in a `limit` clause of at most one item. -/
def leadsToLimit (t : Text) : Bool := endsInItems 1 ["limit".toList] t

/-- Whether the text starts with `by` and holds only a list of up to five items after it. -/
def isByItems (t : Text) : Bool :=
  match Text.stripWord? "by".toList t with
  | some r => isItemList 5 (Text.trimStart r)
  | none => false

/-- Whether the text ends in an `order by` or `group by` clause of up to five items. -/
def leadsToOrdering : Text → Bool
  | [] => false
  | c :: t =>
    (match Text.stripAnyWord? ["group".toList, "order".toList] (c :: t) with
      | some r => startsBlank r && isByItems (Text.trimStart r)
      | none => false) || leadsToOrdering t

/-- Whether the text leads to an item of an ordering, grouping or `having` clause; a `limit` that
follows the ordering ends it. -/
def leadsToSortItem (t : Text) : Bool :=
  (leadsToOrdering t && !leadsToLimit t) || leadsToHaving t

end SqlInjection
