import SqlInjection.Text.Basic

/-!
# Names that are left alone

Some interpolated names never reach a value position: they come from query builders or carry column
names. An `IgnoreList` holds them, by full name and by how they start.
-/

namespace SqlInjection

/-- Names of interpolations that are never reported. -/
structure IgnoreList where
  /-- Names given in full. -/
  names : List Text
  /-- Beginnings of names. -/
  beginnings : List Text
  deriving DecidableEq, Repr

namespace IgnoreList

/-- Whether a name is on the list. -/
def covers (l : IgnoreList) (name : Text) : Bool :=
  l.names.contains name || l.beginnings.any (Text.startsWith name ·)

/-- The list in use unless a project gives its own. -/
def builtin : IgnoreList where
  names := ["orderByClause".toList, "pageStart".toList, "pageSize".toList,
    "criterion.condition".toList, "alias".toList]
  beginnings := ["ew.".toList]

end IgnoreList

end SqlInjection
