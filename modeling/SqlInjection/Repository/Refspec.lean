import SqlInjection.Text.Basic

/-!
# Fetch rules

A fetch rule names what is fetched and, behind a colon, what it is kept as. Either both of them have
a star in them or none has.
-/

namespace SqlInjection.Repository

/-- Whether a character may be part of the name of a reference. -/
def isReferenceChar (c : Char) : Bool :=
  ' ' < c && c != Char.ofNat 127 && !"~^:\\?[".toList.any (· == c)

/-- Whether one part of a name is well formed. -/
def isReferencePart (p : Text) : Bool :=
  !p.isEmpty && p.head? != some '.' && p.all isReferenceChar && !Text.contains p "..".toList &&
    !Text.contains p ['@', '{'] && !Text.endsWith p ".lock".toList

/-- Whether a name is one of the names that stand alone. -/
def isPseudoName (p : Text) : Bool := p.all fun c => c.isUpper || c == '_'

/-- Whether a text is the name of a reference, with at most one star if stars may be part of it. -/
def isReferenceName (stars : Bool) (name : Text) : Bool :=
  let parts := Text.splitOn '/' name
  parts.all isReferencePart && name.getLast? != some '.' &&
    name.countP (· == '*') ≤ (if stars then 1 else 0) &&
    !(1 < parts.length && parts.head?.any isPseudoName)

/-- Whether a text is a fetch rule. -/
def isFetchRule (rule : Text) : Bool :=
  let rule := match rule with
    | '+' :: t => t
    | t => t
  let (source, kept) := match Text.cut? ':' rule.reverse with
    | some (kept, source) => (source.reverse, some kept.reverse)
    | none => (rule, none)
  let starred (t : Text) : Bool := t.any (· == '*')
  let valid (t : Text) : Bool := t.isEmpty || isReferenceName (starred source) t
  kept.any starred == starred source && valid source && kept.all valid

end SqlInjection.Repository
