import SqlInjection.Text.Basic

/-!
# Predefined entities

Markup writes five characters as entities. `decodeEntities` replaces each entity by its character,
the ampersand last, so that an escaped entity comes out as the entity itself.
-/

namespace SqlInjection

/-- The predefined entities and the characters they stand for, in the order they are replaced. -/
def entities : List (Text × Char) :=
  [("&lt;".toList, '<'), ("&gt;".toList, '>'), ("&quot;".toList, '"'), ("&apos;".toList, '\''),
   ("&amp;".toList, '&')]

/-- The text with every predefined entity replaced by its character. -/
def decodeEntities (t : Text) : Text :=
  entities.foldl (fun t (entity, c) => Text.replace entity [c] t) t

end SqlInjection
