import SqlInjection.Risk
import SqlInjection.Text.Blank
import SqlInjection.Text.Case

/-!
# The clause a position belongs to

The text before a dynamic point of a query is read as words divided by blanks and opening
parentheses. The nearest clause keyword to the left decides what stands at the point: a value, which
is injectable, or a name, which no parameter could express.

* `Clause.nearest?`: that keyword;
* `Clause.judge`: the verdict it gives, with the text after the point;
* `positionRisk`: the verdict on a point between two texts.
-/

namespace SqlInjection

/-- The clause keywords that decide what a position holds. -/
inductive Clause where
  | whereClause
  | valuesClause
  | setClause
  | fromClause
  | intoClause
  | joinClause
  | selectClause
  | updateClause
  deriving DecidableEq, Repr

namespace Clause

/-- The clause a word in small letters opens. -/
def ofWord? (w : Text) : Option Clause :=
  if w = "where".toList then some whereClause
  else if w = "values".toList then some valuesClause
  else if w = "set".toList then some setClause
  else if w = "from".toList then some fromClause
  else if w = "into".toList then some intoClause
  else if w = "join".toList then some joinClause
  else if w = "select".toList then some selectClause
  else if w = "update".toList then some updateClause
  else none

/-- The words of a text: what stands between blanks and opening parentheses. -/
def words (t : Text) : List Text :=
  (Text.splitBy (fun c => Text.isBlank c || c == '(') t).filter fun w => !w.isEmpty

/-- The last clause keyword among the words. -/
def nearest? (ws : List Text) : Option Clause := ws.reverse.findSome? ofWord?

/-- Whether the text goes on with a comparison. -/
def comparesNext (after : Option Text) : Bool :=
  match after.map Text.trimStart with
  | some (c :: _) => c == '=' || c == '>' || c == '<'
  | _ => false

/-- Whether the clause takes a value at a point that `after` follows. The left side of a comparison
or an assignment is a column name. -/
def takesValue (after : Option Text) : Clause → Bool
  | whereClause | setClause => !comparesNext after
  | valuesClause => true
  | fromClause | intoClause | joinClause | selectClause | updateClause => false

/-- The verdict on a point in the given clause. A point in no clause at all is taken for a value. -/
def judge (after : Option Text) : Option Clause → Risk
  | some k => .ofBool (k.takesValue after)
  | none => .risky

end Clause

/-- Whether the last word assigns or compares with an equals sign, quotes and percent signs after it
left aside. -/
def endsInEquals (ws : List Text) : Bool :=
  match ws.getLast? with
  | some w => (Text.dropEndWhile (fun c => c == '\'' || c == '"' || c == '%') w).getLast? == some '='
  | none => false

/-- The verdict on a point between two texts. -/
def positionRisk (before : Text) (after : Option Text) : Risk :=
  let ws := Clause.words (Text.lower before)
  if endsInEquals ws then .risky else Clause.judge after (Clause.nearest? ws)

end SqlInjection
