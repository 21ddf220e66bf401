import SqlInjection.Toml.Scan

/-!
# Tables

A table is built entry by entry. A name is given a value once; a table may be opened by a header
once, unless so far it is only known from the headers of tables inside it.
-/

namespace SqlInjection.Toml

/-- How a table came to be. -/
inductive Origin where
  /-- By a header of its own. -/
  | header
  /-- By the header of a table inside it. -/
  | inner
  /-- By a key with several parts. -/
  | dotted
  deriving DecidableEq, Repr

/-- What a name stands for while a file is read. -/
inductive Entry where
  | value (v : Value)
  | table (origin : Origin) (entries : List (Text × Entry))
  /-- Tables that are items of a list, the last one first. -/
  | tables (items : List (List (Text × Entry)))
  deriving Repr, Inhabited

/-- The entries of a table. -/
abbrev Entries := List (Text × Entry)

namespace Entries

/-- The entries with one of them put in place of the one of the same name, or else at the end. -/
def put (name : Text) (e : Entry) : Entries → Entries
  | [] => [(name, e)]
  | (k, old) :: rest => if k = name then (k, e) :: rest else (k, old) :: put name e rest

/-- Changes the entries of the table at a path below a table. Tables that are missing on the way are
made; `origin` says how. A key with several parts may not lead into a table that has a header, or
into a list of tables it did not make. -/
def changeAt (origin : Origin) (change : Origin → Entries → Option Entries) (here : Origin) :
    List Text → Entries → Option Entries
  | [], es => change here es
  | name :: path, es =>
    match es.lookup name with
    | none => do
      let inside ← changeAt origin change origin path []
      pure (put name (.table origin inside) es)
    | some (.value _) => none
    | some (.table o inside) =>
      if origin = .dotted ∧ o = .header then none
      else do
        let inside ← changeAt origin change o path inside
        pure (put name (.table o inside) es)
    | some (.tables []) => none
    | some (.tables (last :: others)) => do
      let last ← changeAt origin change .header path last
      pure (put name (.tables (last :: others)) es)

/-- Gives a name in a table its value. A key of one part belongs to a table that no key with several
parts has made, and the last part of a longer key to one that such a key has made. -/
def assignHere (isDotted : Bool) (name : Text) (v : Value) (here : Origin) (es : Entries) :
    Option Entries :=
  if (here == .dotted) != isDotted then none
  else match es.lookup name with
    | none => some (es ++ [(name, .value v)])
    | some _ => none

/-- Gives the name at a path its value. -/
def assign (a : Assignment) (here : Origin) (es : Entries) : Option Entries :=
  match a.path.reverse with
  | [] => none
  | name :: above =>
    changeAt .dotted (assignHere (!above.isEmpty) name a.value) here above.reverse es

/-- Opens a table by its header. -/
def openTable (name : Text) (_ : Origin) (es : Entries) : Option Entries :=
  match es.lookup name with
  | none => some (es ++ [(name, .table .header [])])
  | some (.table .inner inside) => some (put name (.table .header inside) es)
  | some _ => none

/-- Opens one more table of a list by its header. -/
def openItem (name : Text) (_ : Origin) (es : Entries) : Option Entries :=
  match es.lookup name with
  | none => some (es ++ [(name, .tables [[]])])
  | some (.tables items) => some (put name (.tables ([] :: items)) es)
  | some _ => none

/-- Opens what a header names. -/
def openAt (step : Text → Origin → Entries → Option Entries) (path : List Text) (es : Entries) :
    Option Entries :=
  match path.reverse with
  | [] => none
  | name :: above => changeAt .inner (step name) .header above.reverse es

end Entries

mutual

/-- The value of an entry. -/
def Entry.toValue : Entry → Value
  | .value v => v
  | .table _ es => .table (toValues es)
  | .tables items => .list (toTables items).reverse

/-- The values of entries. -/
def toValues : List (Text × Entry) → List (Text × Value)
  | [] => []
  | (k, e) :: rest => (k, e.toValue) :: toValues rest

/-- The values of tables. -/
def toTables : List (List (Text × Entry)) → List Value
  | [] => []
  | es :: rest => .table (toValues es) :: toTables rest

end

end SqlInjection.Toml
