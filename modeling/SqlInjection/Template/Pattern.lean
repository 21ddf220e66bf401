import SqlInjection.Clause.Position
import SqlInjection.Text.Word

/-!
# Placeholders in templates

A pattern reads a placeholder at the front of a text. Two patterns are in use: `formatPattern` reads
`%s` and `%1$s`, `interpolationPattern` reads `${name}`.

* `occurrences`: the placeholders of a text from left to right, none overlapping another, each with
  the whole text before it and after it;
* `segments`: the texts between them, the one after the last left out;
* `templateRisk`: the verdict on all placeholders of a template, each taken to carry text.
-/

namespace SqlInjection

/-- What a pattern reads at the front of a text: the placeholder, the part of it that is captured,
and the text after it. -/
structure Reading where
  token : Text
  capture : Option Text
  after : Text
  deriving DecidableEq, Repr

/-- A reader for one kind of placeholder. -/
abbrev Pattern := Text → Option Reading

/-- The name and the rest, when a name ends with the first closing brace and holds no blank. -/
def readNameTail : Text → Option (Text × Text)
  | [] => none
  | c :: t =>
    if c = '}' then some ([], t)
    else if Text.isBlank c then none
    else (readNameTail t).map fun (name, rest) => (c :: name, rest)

/-- The name of an interpolation and the text after its closing brace. The first character may be
any but a blank. -/
def readName : Text → Option (Text × Text)
  | [] => none
  | c :: t =>
    if Text.isBlank c then none
    else (readNameTail t).map fun (name, rest) => (c :: name, rest)

/-- The name of an interpolation at the front of the text, and the text after it. -/
def readInterpolation : Text → Option (Text × Text)
  | '$' :: '{' :: t => readName t
  | _ => none

/-- The interpolation of a name as it is written. -/
def interpolationOf (name : Text) : Text := '$' :: '{' :: name ++ ['}']

/-- Reads `${name}` and captures the name. -/
def interpolationPattern : Pattern := fun t =>
  (readInterpolation t).map fun (name, rest) => ⟨interpolationOf name, some name, rest⟩

/-- The argument position of a format placeholder, as in `1$`, and the text after it. Up to five
digits may follow the dollar sign. -/
def readPosition : Text → Option (Text × Text)
  | d :: '$' :: t =>
    let width := t.takeWhile Text.isDecimalDigit
    if Text.isDecimalDigit d && width.length ≤ 5 then
      some (d :: '$' :: width, t.dropWhile Text.isDecimalDigit)
    else none
  | _ => none

/-- Reads `%s`, and `%1$s` with the position captured. -/
def formatPattern : Pattern
  | '%' :: t =>
    match readPosition t with
    | some (position, 's' :: rest) => some ⟨'%' :: position ++ ['s'], some position, rest⟩
    | _ =>
      match t with
      | 's' :: rest => some ⟨['%', 's'], none, rest⟩
      | _ => none
  | _ => none

/-- A placeholder in a text, with all the text before it and after it. -/
structure Occurrence where
  before : Text
  token : Text
  capture : Option Text
  after : Text
  deriving DecidableEq, Repr

/-- The placeholders of a text that follows `seen`, which is given last character first; `skip`
characters of the placeholder under way are passed over. -/
def occurrencesFrom (p : Pattern) (seen : Text) (skip : Nat) : Text → List Occurrence
  | [] => []
  | c :: t =>
    match skip with
    | k + 1 => occurrencesFrom p (c :: seen) k t
    | 0 =>
      match p (c :: t) with
      | some r =>
        ⟨seen.reverse, r.token, r.capture, r.after⟩ ::
          occurrencesFrom p (c :: seen) (r.token.length - 1) t
      | none => occurrencesFrom p (c :: seen) 0 t

/-- The placeholders of a text, from left to right. -/
def occurrences (p : Pattern) (t : Text) : List Occurrence := occurrencesFrom p [] 0 t

/-- The texts before each placeholder since the one before it; `piece` is the current one, last
character first, and `skip` characters of the placeholder under way are passed over. -/
def segmentsFrom (p : Pattern) (piece : Text) (skip : Nat) : Text → List Text
  | [] => []
  | c :: t =>
    match skip with
    | k + 1 => segmentsFrom p piece k t
    | 0 =>
      match p (c :: t) with
      | some r => piece.reverse :: segmentsFrom p [] (r.token.length - 1) t
      | none => segmentsFrom p (c :: piece) 0 t

/-- The texts before each placeholder since the one before it. -/
def segments (p : Pattern) (t : Text) : List Text := segmentsFrom p [] 0 t

/-- What stands for a dynamic part in the text before a later point. -/
def holeMark : Text := ['?']

/-- The texts before each point, when `segments` are the literal texts between the points and `seen`
comes before them all. -/
def textsBefore (seen : Text) : List Text → List Text
  | [] => []
  | s :: more => (seen ++ s) :: textsBefore (seen ++ s ++ holeMark) more

/-- The verdict on all placeholders of a template, each taken to carry text. -/
def templateRisk (p : Pattern) (t : Text) : Risk :=
  Risk.all ((textsBefore [] (segments p t)).map chainPointRisk)

end SqlInjection
