import SqlInjection.Text.Basic

/-!
# Values of settings files

What a settings file holds: tables of values by name. Numbers with a fraction and dates are told
apart from the others but not read further, since no setting takes one.
-/

namespace SqlInjection.Toml

/-- A value of a settings file. -/
inductive Value where
  | text (t : Text)
  | integer (n : Int)
  | boolean (b : Bool)
  | decimal
  | date
  | list (items : List Value)
  | table (entries : List (Text × Value))
  deriving Repr, Inhabited

namespace Value

/-- The text of a value that is one. -/
def text? : Value → Option Text
  | text t => some t
  | _ => none

/-- The truth value of a value that is one. -/
def boolean? : Value → Option Bool
  | boolean b => some b
  | _ => none

/-- The number of a value that is a natural number of at most `bound`. -/
def nat? (bound : Nat) : Value → Option Nat
  | integer n => if 0 ≤ n ∧ n.toNat ≤ bound then some n.toNat else none
  | _ => none

/-- The items of a value that is a list, each read by `item`. -/
def list? {α : Type} (item : Value → Option α) : Value → Option (List α)
  | list items => items.mapM item
  | _ => none

/-- The entries of a value that is a table, each read by `item`. -/
def table? {α : Type} (item : Value → Option α) : Value → Option (List (Text × α))
  | table entries => entries.mapM fun (k, v) => (item v).map fun a => (k, a)
  | _ => none

/-- The fields of a value by their names: of a table, or of a list that gives them in order. -/
def fields? (names : List String) : Value → Option (List (Text × Value))
  | table entries => some entries
  | list items => some ((names.map String.toList).zip items)
  | _ => none

end Value

/-- The value of a field, read by `item`; `default` if the field is not given. -/
def fieldOr {α : Type} (fields : List (Text × Value)) (name : String) (item : Value → Option α)
    (default : α) : Option α :=
  match fields.lookup name.toList with
  | some v => item v
  | none => some default

end SqlInjection.Toml
