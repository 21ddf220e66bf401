import SqlInjection.Config.Project

/-!
# Initial settings

The settings file that a project starts with. It sets everything to what holds without it.
-/

namespace SqlInjection

/-- A list of words as a settings file writes it. -/
def wordList (ws : List Text) : Text :=
  '[' :: Text.join ", ".toList (ws.map fun w => '"' :: w ++ ['"']) ++ [']']

/-- The settings file that a project starts with. -/
def initialConfig : Text :=
  let line (s : String) : Text := s.toList ++ ['\n']
  let setting (name : String) (value : Text) : Text := name.toList ++ " = ".toList ++ value ++ ['\n']
  line "# sqlsentry project configuration" ++
  line "" ++
  line "[sqli]" ++
  line "# Interpolated names that never reach a value position" ++
  setting "ignored_vars" (wordList IgnoreList.builtin.names) ++
  setting "ignored_var_prefixes" (wordList IgnoreList.builtin.beginnings) ++
  line "# Calls whose name contains one of these are treated as logging, not queries" ++
  setting "log_method_markers" (wordList builtinLogMarks) ++
  line "# Only report concatenations that look like a full select/update/delete/insert" ++
  setting "require_sql_shape" "true".toList ++
  line "" ++
  line "# [detectors.polyadic-sqli]" ++
  line "# enabled = true" ++
  line "# severity = \"high\"" ++
  line "" ++
  line "[allowlist]" ++
  line "# Fingerprints of reviewed false positives (see `sqlsentry scan --format json`)" ++
  setting "fingerprints" (wordList []) ++
  line "" ++
  line "[exclude]" ++
  setting "paths" (wordList [])

end SqlInjection
