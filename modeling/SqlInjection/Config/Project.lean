import SqlInjection.Config.Exclude
import SqlInjection.Detector.Engine
import SqlInjection.Toml.Document

/-!
# Project settings

What a project sets in its settings file: names and marks for all inspections, which inspections run
and how severe their findings are, reviewed findings, and paths to leave out. A file that cannot be
read or that gives a setting a value of the wrong kind counts as no file.
-/

namespace SqlInjection

open Toml

/-- What a project sets for one inspection. -/
structure InspectionSetting where
  enabled : Option Bool
  severity : Option Text
  deriving DecidableEq, Repr

/-- What a project sets. -/
structure ProjectConfig where
  settings : Settings
  inspections : List (Text × InspectionSetting)
  allowed : List UInt32
  excluded : List Text
  deriving Repr

/-- The name of the settings file of a project. -/
def projectConfigFile : Text := "sqlsentry.toml".toList

/-! ## Reading -/

/-- A list of texts. -/
def texts? (v : Value) : Option (List Text) := v.list? Value.text?

/-- The settings for all inspections. -/
def settings? (v : Value) : Option Settings := do
  let fields ← v.fields?
    ["ignored_vars", "ignored_var_prefixes", "log_method_markers", "require_sql_shape"]
  let names ← fieldOr fields "ignored_vars" texts? IgnoreList.builtin.names
  let beginnings ← fieldOr fields "ignored_var_prefixes" texts? IgnoreList.builtin.beginnings
  let marks ← fieldOr fields "log_method_markers" texts? builtinLogMarks
  let requireStatement ← fieldOr fields "require_sql_shape" Value.boolean? true
  pure ⟨⟨names, beginnings⟩, marks, requireStatement⟩

/-- The settings for one inspection. -/
def inspectionSetting? (v : Value) : Option InspectionSetting := do
  let fields ← v.fields? ["enabled", "severity"]
  let enabled ← fieldOr fields "enabled" (fun v => v.boolean?.map some) none
  let severity ← fieldOr fields "severity" (fun v => v.text?.map some) none
  pure ⟨enabled, severity⟩

/-- The fingerprints of reviewed findings. -/
def allowed? (v : Value) : Option (List UInt32) := do
  let fields ← v.fields? ["fingerprints"]
  let found ← fieldOr fields "fingerprints" (Value.list? (Value.nat? (UInt32.size - 1))) []
  pure (found.map Nat.toUInt32)

/-- The patterns of paths to leave out. -/
def excluded? (v : Value) : Option (List Text) := do
  let fields ← v.fields? ["paths"]
  fieldOr fields "paths" texts? []

namespace ProjectConfig

/-- What holds for a project that sets nothing. -/
def builtin : ProjectConfig := ⟨Settings.builtin, [], [], []⟩

/-- The settings that a value stands for. -/
def ofValue? (v : Value) : Option ProjectConfig := do
  let fields ← v.fields? ["sqli", "detectors", "allowlist", "exclude"]
  let settings ← fieldOr fields "sqli" settings? Settings.builtin
  let inspections ← fieldOr fields "detectors" (Value.table? inspectionSetting?) []
  let allowed ← fieldOr fields "allowlist" allowed? []
  let excluded ← fieldOr fields "exclude" excluded? []
  pure ⟨settings, inspections, allowed, excluded⟩

/-- The settings of a project with this settings file, if it has one. -/
def load (file : Option Text) : ProjectConfig :=
  ((file.bind Toml.parse?).bind ofValue?).getD builtin

end ProjectConfig

/-! ## Names of inspections -/

/-- The name with words in small letters and hyphens between them, from the character after
`before` on. A capital starts a word after a small letter, and before one if capitals precede. -/
def hyphenatedFrom (before : Option Char) : Text → Text
  | [] => []
  | c :: t =>
    let head :=
      if Text.isUpper c then
        let afterSmall := before.any Text.isLower
        let endsCapitals := before.any Text.isUpper && t.head?.any Text.isLower
        (if afterSmall || endsCapitals then ['-'] else []) ++ Text.lowerChar c
      else if c = '_' then ['-']
      else [c]
    head ++ hyphenatedFrom (some c) t

/-- The name by which an inspection is looked up, however it is written. -/
def normalizedName (name : Text) : Text :=
  Text.trimEndMatches "-detector".toList (hyphenatedFrom none name)

namespace ProjectConfig

/-- What the project sets for an inspection: by its normalized name, or else by the name given. -/
def setting? (c : ProjectConfig) (name : Text) : Option InspectionSetting :=
  (c.inspections.lookup (normalizedName name)).or (c.inspections.lookup name)

/-- Whether an inspection runs. -/
def isEnabled (c : ProjectConfig) (name : Text) : Bool :=
  ((c.setting? name).bind InspectionSetting.enabled).getD true

/-- The severity the project sets for an inspection. A word that is no severity sets none. -/
def severity? (c : ProjectConfig) (name : Text) : Option Severity :=
  ((c.setting? name).bind InspectionSetting.severity).bind Severity.ofName?

/-- The engine for a project. -/
def engine (c : ProjectConfig) : Engine :=
  { inspections := (Inspection.all.filter fun i => c.isEnabled i.name.toList).map fun i =>
      (i, (c.severity? i.name.toList).getD .high)
    settings := c.settings }

/-- Whether a path below the project's root is left out. -/
def excludes (c : ProjectConfig) (path : Text) : Bool := isExcluded c.excluded path

/-- The reviewed findings. -/
def allowList (c : ProjectConfig) : AllowList := ⟨c.allowed⟩

end ProjectConfig

end SqlInjection
