import SqlInjection.Text.Blank
import SqlInjection.Text.Word

/-!
# The markup of a mapper

A mapper is cut into pieces of markup and the runs of text between them. Nothing is repaired: what
does not read as markup is text. Put together again, the pieces are the source (`pieces_flatten`).
-/

namespace SqlInjection.Mapper

/-- An attribute of a tag. -/
structure Attribute where
  name : Text
  value : Option Text
  deriving DecidableEq, Repr

/-- A piece of markup. -/
inductive Markup where
  | comment
  /-- A declaration or a processing instruction. -/
  | declaration
  /-- A section whose content is text as it stands. -/
  | section (content : Text)
  | opening (name : Text) (attributes : List Attribute)
  /-- A tag that opens an element and closes it. -/
  | empty (name : Text) (attributes : List Attribute)
  | closing (name : Text)
  deriving DecidableEq, Repr

/-- The text before the first `w` and the text after it. -/
def cutAt? (w : Text) : Text → Option (Text × Text)
  | [] => if w.isEmpty then some ([], []) else none
  | c :: t =>
    match Text.stripPrefix? w (c :: t) with
    | some rest => some ([], rest)
    | none => (cutAt? w t).map fun (l, r) => (c :: l, r)

/-- What stands between `opening` at the front of a text and the first `closing` after it, and what
follows. -/
def between? (opening closing : String) (t : Text) : Option (Text × Text) := do
  let inside ← Text.stripPrefix? opening.toList t
  cutAt? closing.toList inside

/-! ## Tags -/

/-- A character that may start the name of an element. -/
def isNameStart (c : Char) : Bool := c.isAlpha || c == '_'

/-- A character that may go on with the name of an element. -/
def isNamePart (c : Char) : Bool := Text.isWordChar c || c == ':' || c == '.' || c == '-'

/-- A character of the name of an attribute. -/
def isAttributeChar (c : Char) : Bool := !Text.isBlank c && c != '=' && c != '>' && c != '/'

/-- A value in quotes, and what follows it. -/
def readQuoted? : Text → Option (Text × Text)
  | '"' :: t => Text.cut? '"' t
  | '\'' :: t => Text.cut? '\'' t
  | _ => none

/-- The value after the name of an attribute, and what follows it. -/
def readValue? (t : Text) : Option (Text × Text) :=
  match Text.trimStart t with
  | '=' :: r => readQuoted? (Text.trimStart r)
  | _ => none

/-- An attribute after blanks, and what follows it. -/
def readAttribute? (t : Text) : Option (Attribute × Text) :=
  let inside := Text.trimStart t
  let name := inside.takeWhile isAttributeChar
  if inside.length < t.length ∧ name ≠ [] then
    let rest := inside.dropWhile isAttributeChar
    match readValue? rest with
    | some (value, rest) => some (⟨name, some value⟩, rest)
    | none => some (⟨name, none⟩, rest)
  else none

/-- The attributes at the front of a text, at most `fuel` of them, and what follows them. -/
def readAttributes : Nat → Text → List Attribute × Text
  | 0, t => ([], t)
  | fuel + 1, t =>
    match readAttribute? t with
    | some (a, rest) =>
      let (as, rest) := readAttributes fuel rest
      (a :: as, rest)
    | none => ([], t)

/-- A tag, and what follows it. A closing tag may hold what an opening tag holds. -/
def readTag? : Text → Option (Markup × Text)
  | '<' :: t =>
    let (closes, t) := match t with
      | '/' :: t => (true, t)
      | t => (false, t)
    match t with
    | c :: r =>
      if isNameStart c then
        let name := c :: r.takeWhile isNamePart
        let (attributes, rest) := readAttributes r.length (r.dropWhile isNamePart)
        let named (empty : Bool) : Markup :=
          if closes then .closing name
          else if empty then .empty name attributes
          else .opening name attributes
        match Text.trimStart rest with
        | '/' :: '>' :: rest => some (named true, rest)
        | '>' :: rest => some (named false, rest)
        | _ => none
      else none
    | [] => none
  | _ => none

/-! ## Pieces -/

/-- The markup at the front of a text, and what follows it. -/
def readMarkup? (t : Text) : Option (Markup × Text) :=
  ((between? "<!--" "-->" t).map fun (_, r) => (.comment, r)) <|>
  ((between? "<![CDATA[" "]]>" t).map fun (content, r) => (.section content, r)) <|>
  ((between? "<!" ">" t).map fun (_, r) => (.declaration, r)) <|>
  ((between? "<?" "?>" t).map fun (_, r) => (.declaration, r)) <|>
  readTag? t

/-- A piece of a mapper: a run of text, or markup with the text it is written as. -/
inductive Piece where
  | run (text : Text)
  | markup (m : Markup) (text : Text)
  deriving DecidableEq, Repr

/-- The text of a piece. -/
def Piece.text : Piece → Text
  | run t | markup _ t => t

/-- A character in front of pieces: it goes to the run they start with, or is one by itself. -/
def prepend (c : Char) : List Piece → List Piece
  | .run t :: ps => .run (c :: t) :: ps
  | ps => .run [c] :: ps

/-- The pieces of a text whose first `skip` characters belong to the markup before it. -/
def piecesFrom : Nat → Text → List Piece
  | _, [] => []
  | skip + 1, _ :: t => piecesFrom skip t
  | 0, c :: t =>
    match readMarkup? (c :: t) with
    | some (m, rest) =>
      let taken := t.length - rest.length
      .markup m (c :: t.take taken) :: piecesFrom taken t
    | none => prepend c (piecesFrom 0 t)

/-- The pieces of a text. -/
def pieces (t : Text) : List Piece := piecesFrom 0 t

theorem text_prepend (c : Char) (ps : List Piece) :
    (prepend c ps).flatMap Piece.text = c :: ps.flatMap Piece.text := by
  unfold prepend
  split <;> simp [Piece.text]

theorem piecesFrom_flatten (skip : Nat) (t : Text) :
    (piecesFrom skip t).flatMap Piece.text = t.drop skip := by
  fun_induction piecesFrom skip t with
  | case1 => simp
  | case2 skip c t ih => simpa using ih
  | case3 c t m rest _ taken ih => simp [Piece.text, ih]
  | case4 c t _ ih => simp [text_prepend, ih]

/-- Nothing of a mapper is lost in its pieces. -/
theorem pieces_flatten (t : Text) : (pieces t).flatMap Piece.text = t := by
  simp [pieces, piecesFrom_flatten]

end SqlInjection.Mapper
