import SqlInjection.Expr.Care
import SqlInjection.Template.Pattern

/-!
# Fragments

A string-building expression as the sequence of its constant and dynamic parts.

* `Expr.fragments`: that sequence. Chains of concatenation are walked, also through references that
  are known to hold one; references to literals are constants; chains of appends to a string builder
  are unrolled; anything else is one dynamic part. No two constants stand next to each other.
* `shape` and `apparent`: the text of the fragments, with a mark or with its own text for each
  dynamic part;
* `chainRisk`: the verdict on all dynamic parts that carry text.
-/

namespace SqlInjection

/-- A part of a string-building expression. -/
inductive Fragment where
  | constant (text : Text)
  | dynamic (expr : Expr)
  deriving Repr

mutual

/-- The parts of an expression, constants not yet merged. -/
def Expr.pieces : Expr → List Fragment
  | .literal (.text v) _ => [.constant v]
  | .literal v w => [.dynamic (.literal v w)]
  | .ref kind name type none w => [.dynamic (.ref kind name type none w)]
  | .ref kind name type (some value) w =>
    if value.literalText?.isSome || value.isPlusChain then value.pieces
    else if value.isCall && isBuilderType type then
      (value.builderPieces?).getD [.dynamic (.ref kind name type (some value) w)]
    else [.dynamic (.ref kind name type (some value) w)]
  | .chain op operands w =>
    if op = Expr.plus then piecesOfAll operands else [.dynamic (.chain op operands w)]
  | .call (some receiver) name args creates w =>
    if name = "toString".toList ∧ args.isEmpty then
      (receiver.builderPieces?).getD [.dynamic (.call (some receiver) name args creates w)]
    else [.dynamic (.call (some receiver) name args creates w)]
  | .call none name args creates w => [.dynamic (.call none name args creates w)]
  | .unknown type w => [.dynamic (.unknown type w)]

/-- The parts of several expressions, one after the other. -/
def piecesOfAll : List Expr → List Fragment
  | [] => []
  | e :: es => e.pieces ++ piecesOfAll es

/-- The parts a string builder was given: by its creation, unless that only sets a capacity, and by
the appends that follow. `none` when the expression is no such chain. -/
def Expr.builderPieces? : Expr → Option (List Fragment)
  | .call receiver name args creates _ =>
    if creates && builderTypes.contains name then
      match args with
      | [] => some []
      | [a] => some (if a.carriesText then a.pieces else [])
      | _ => none
    else if name = "append".toList then
      match receiver, args with
      | some r, [a] => (r.builderPieces?).map (· ++ a.pieces)
      | _, _ => none
    else none
  | .ref .variable _ type (some value) _ =>
    if isBuilderType type then value.builderPieces? else none
  | _ => none

end

/-- Constants that stand next to each other, merged. -/
def mergeConstants : List Fragment → List Fragment
  | [] => []
  | .constant s :: fs =>
    match mergeConstants fs with
    | .constant t :: rest => .constant (s ++ t) :: rest
    | rest => .constant s :: rest
  | .dynamic e :: fs => .dynamic e :: mergeConstants fs

/-- The constant and dynamic parts of an expression, in order. -/
def Expr.fragments (e : Expr) : List Fragment := mergeConstants e.pieces

namespace Fragment

/-- The text of a constant fragment. -/
def constant? : Fragment → Option Text
  | constant t => some t
  | dynamic _ => none

/-- The text of a part, a mark standing for a dynamic one. -/
def marked : Fragment → Text
  | constant t => t
  | dynamic _ => holeMark

/-- The text of a part as it is written. -/
def sourceText : Fragment → Text
  | constant t => t
  | dynamic e => e.sourceText

/-- Whether the part is dynamic and may carry text. -/
def carriesText : Fragment → Bool
  | constant _ => false
  | dynamic e => e.carriesText

end Fragment

/-- The text of the fragments, a mark standing for each dynamic one. -/
def shape (fs : List Fragment) : Text := fs.flatMap Fragment.marked

/-- The text of the fragments as they are written. -/
def apparent (fs : List Fragment) : Text := fs.flatMap Fragment.sourceText

/-- The verdict on the fragments that follow the text `seen`. -/
def chainRiskFrom (seen : Text) : List Fragment → Risk
  | [] => .safe
  | f :: fs =>
    (if f.carriesText then chainPointRisk seen else .safe).or (chainRiskFrom (seen ++ f.marked) fs)

/-- The verdict on all dynamic parts that carry text; those that do not still mark their place in
the text before later ones. -/
def chainRisk (fs : List Fragment) : Risk := chainRiskFrom [] fs

end SqlInjection
