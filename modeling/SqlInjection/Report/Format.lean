import SqlInjection.Text.Case

/-!
# Formats of reports
-/

namespace SqlInjection

/-- The formats in which a report can be written. -/
inductive ReportFormat where
  | text
  | json
  deriving DecidableEq, Repr

namespace ReportFormat

/-- The word for a format. -/
def name : ReportFormat → String
  | text => "text"
  | json => "json"

/-- The words that stand for a format. -/
def words : ReportFormat → List String
  | text => ["text", "txt", "terminal"]
  | json => ["json"]

/-- The format that a word stands for, in letters of any case. -/
def ofName? (word : Text) : Option ReportFormat :=
  [text, json].find? fun f => f.words.any fun w => w.toList == Text.lower word

/-- What is said of a word that stands for no format. -/
def unknown (word : Text) : Text :=
  "Unknown format '".toList ++ word ++ "'. Valid formats: text, json".toList

end ReportFormat

end SqlInjection
