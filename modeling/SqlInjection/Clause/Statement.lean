import SqlInjection.Clause.Operand
import SqlInjection.Text.Word

/-!
# Texts that read like statements

* `isFilteredStatement`: a text that starts with a statement verb and goes on to a table clause and
  a `where`, each on the line where the text before it ends;
* `mentionsVerb`: a text with a statement verb anywhere.
-/

namespace SqlInjection

/-- The verbs that start a statement. -/
def statementVerbs : List Text :=
  ["select".toList, "delete".toList, "update".toList, "insert".toList]

/-- The words that introduce a table or its columns. -/
def tableWords : List Text := ["from".toList, "into".toList, "set".toList]

/-- Whether `p` holds of the rest of the text at some place of its first line. -/
def somewhereInLine (p : Text → Bool) : Text → Bool
  | [] => p []
  | c :: t => p (c :: t) || (c != '\n' && somewhereInLine p t)

/-- Whether one of the words starts the text, blanks follow it, and `p` holds after them. -/
def wordThen (ws : List Text) (p : Text → Bool) (t : Text) : Bool :=
  match Text.stripAnyWord? ws t with
  | some r => startsBlank r && p (Text.trimStart r)
  | none => false

/-- Whether `where` stands on the first line. -/
def filtersInLine (t : Text) : Bool :=
  somewhereInLine (fun s => (Text.stripWord? "where".toList s).isSome) t

/-- Whether the text reads like a filtered statement: a verb, a table clause and a `where`. -/
def isFilteredStatement (t : Text) : Bool :=
  wordThen statementVerbs (somewhereInLine (wordThen tableWords filtersInLine)) (Text.trimStart t)

/-- Whether a statement verb with a blank after it occurs where no word is under way; `inWord` says
whether one is. -/
def mentionsVerbFrom (inWord : Bool) : Text → Bool
  | [] => false
  | c :: t =>
    (!inWord && wordThen statementVerbs (fun _ => true) (c :: t)) ||
      mentionsVerbFrom (Text.isWordChar c) t

/-- Whether the text mentions a statement verb anywhere. -/
def mentionsVerb (t : Text) : Bool := mentionsVerbFrom false t

end SqlInjection
