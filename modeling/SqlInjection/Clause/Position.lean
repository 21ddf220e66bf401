import SqlInjection.Clause.Keyword
import SqlInjection.Clause.Operand

/-!
# Verdicts on single points

Two readings of a dynamic point. A point in a chain of concatenated texts is judged by the text
before it alone (`chainPointRisk`); a point inside a template by the texts on both sides
(`templatePointRisk`). Both take positions that only hold names out before they ask for the clause.
-/

namespace SqlInjection

/-- Whether a text, in small letters and trimmed, leads to a name and never to a value. -/
def leadsToName (t : Text) : Bool :=
  leadsToSortItem t ||
    Text.endsWith t "from".toList || Text.endsWith t "join".toList ||
    Text.endsWith t "update".toList ||
    (Text.startsWith t "select".toList && !Text.contains t "from".toList) ||
    (Text.startsWith t "update".toList && Text.endsWith t "set".toList) ||
    (Text.startsWith t "insert into".toList && !Text.contains t "value".toList) ||
    t == ['(']

/-- The verdict on a point of a chain, from the text before it. -/
def chainPointRisk (before : Text) : Risk :=
  let t := Text.trim (Text.lower before)
  if leadsToName t then .safe else positionRisk t none

/-- The verdict on a point of a template, from the texts on both sides. -/
def templatePointRisk (before after : Text) : Risk :=
  if leadsToSortItem (Text.trim (Text.lower before)) then .safe else positionRisk before (some after)

end SqlInjection
