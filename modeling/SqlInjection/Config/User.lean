import SqlInjection.Text.Blank
import SqlInjection.Toml.Document

/-!
# User settings

Where a user's feedback goes, by the settings file of the user and by the environment. The
environment wins over the file.
-/

namespace SqlInjection

open Toml

/-- What a user sets for feedback. -/
structure UserConfig where
  endpoint : Option Text
  user : Option Text
  timeout : Option Nat
  threshold : Option Nat
  deriving DecidableEq, Repr

/-- The variables of the environment that matter. -/
structure Environment where
  endpoint : Option Text
  user : Option Text
  /-- The name of the login, by its two usual variables. -/
  login : Option Text
  loginName : Option Text
  deriving DecidableEq, Repr

namespace UserConfig

/-- What holds for a user who sets nothing. -/
def builtin : UserConfig := ⟨none, none, none, none⟩

/-- A text that is given. -/
def given? (v : Value) : Option (Option Text) := v.text?.map some

/-- A number that is given. -/
def number? (v : Value) : Option (Option Nat) := (v.nat? (UInt64.size - 1)).map some

/-- The settings for feedback that a value stands for. A list has to give all of them. -/
def feedback? (v : Value) : Option UserConfig := do
  let names := ["endpoint", "user", "timeout_ms", "batch_threshold"]
  let fields ← v.fields? names
  match v with
  | .list items => if items.length < names.length then none else pure ()
  | _ => pure ()
  let endpoint ← fieldOr fields "endpoint" given? none
  let user ← fieldOr fields "user" given? none
  let timeout ← fieldOr fields "timeout_ms" number? none
  let threshold ← fieldOr fields "batch_threshold" number? none
  pure ⟨endpoint, user, timeout, threshold⟩

/-- The settings that a value stands for. -/
def ofValue? (v : Value) : Option UserConfig := do
  let fields ← v.fields? ["feedback"]
  fieldOr fields "feedback" feedback? builtin

/-- The settings of a user with this settings file, if there is one, in an environment. -/
def load (file : Option Text) (env : Environment) : UserConfig :=
  let c := ((file.bind Toml.parse?).bind ofValue?).getD builtin
  { c with endpoint := env.endpoint.or c.endpoint, user := env.user.or c.user }

/-- Where feedback is sent. A blank endpoint is none. -/
def feedbackEndpoint (c : UserConfig) : Option Text := c.endpoint.filter (!Text.blank ·)

/-- The user that feedback names: the one set, or else the login. -/
def feedbackUser (c : UserConfig) (env : Environment) : Text :=
  (c.user.or (env.login.or env.loginName)).getD "unknown".toList

/-- How long sending may take, in milliseconds. -/
def feedbackTimeout (c : UserConfig) : Nat := c.timeout.getD 2000

/-- How many records are held before a batch is sent. -/
def feedbackThreshold (c : UserConfig) : Nat := c.threshold.getD 30

end UserConfig

end SqlInjection
