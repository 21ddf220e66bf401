import SqlInjection.Project.Path
import SqlInjection.Report.Format
import SqlInjection.Text.Similarity

/-!
# Arguments

What the program is asked to do is read from its arguments: options, a verb with options of its own,
and a path. Options for all verbs and the path may stand before the verb or behind it.

`Arguments.parse` reads the arguments from left to right. The value of an option is checked when the
next option or path comes, or at the end, so that of two faults the one that comes first in this
sense is told.
-/

namespace SqlInjection

namespace Command

/-- What the program can be asked to do. -/
inductive Verb where
  | scan
  | fix
  | init
  deriving DecidableEq, Repr

/-- The options. -/
inductive Flag where
  | logLevel
  | format
  | output
  | failOnFindings
  | dryRun
  | help
  | version
  deriving DecidableEq, Repr

/-- Where arguments are read: before the verb, or behind it. -/
abbrev Level := Option Verb

/-- What a value is given to. -/
inductive Slot where
  | path
  | flag (f : Flag)
  deriving DecidableEq, Repr

/-! ## Verbs and options -/

/-- The word for a verb. -/
def Verb.name : Verb → String
  | scan => "scan"
  | fix => "fix"
  | init => "init"

/-- The verb that a word stands for. -/
def Verb.ofName? (word : Text) : Option Verb := [scan, fix, init].find? (·.name.toList == word)

/-- The word that asks for help. -/
def helpWord : Text := "help".toList

/-- Whether a word looks like a verb or like the word that asks for help. -/
def looksLikeVerb (word : Text) : Bool :=
  ([Verb.scan, .fix, .init].map (·.name.toList) ++ [helpWord]).any (Text.alike word)

namespace Flag

/-- The long name of an option. -/
def long : Flag → String
  | logLevel => "log-level"
  | format => "format"
  | output => "output"
  | failOnFindings => "fail-on-findings"
  | dryRun => "dry-run"
  | help => "help"
  | version => "version"

/-- The letter for an option. -/
def short? : Flag → Option Char
  | format => some 'f'
  | output => some 'o'
  | help => some 'h'
  | version => some 'V'
  | _ => none

/-- Whether an option has a value. -/
def takesValue : Flag → Bool
  | logLevel | format | output => true
  | _ => false

/-- The options that can be given at a level. -/
def all : Level → List Flag
  | none => [logLevel, help, version]
  | some .scan => [format, output, failOnFindings, logLevel, help]
  | some .fix => [dryRun, logLevel, help]
  | some .init => [logLevel, help]

end Flag

/-- The words that an option can be set to, if they are fixed. -/
def Flag.choices? : Flag → Option (List String)
  | logLevel => some ["error", "warn", "info", "debug", "trace"]
  | format => some ["text", "json"]
  | _ => none

namespace Slot

/-- Whether a slot has a value. -/
def takesValue : Slot → Bool
  | path => true
  | flag f => f.takesValue

/-- Whether a slot can have this value. A path is not empty. -/
def accepts (s : Slot) (value : Text) : Bool :=
  match s with
  | path => !value.isEmpty
  | flag f =>
    match f.choices? with
    | some words => words.any (·.toList == value)
    | none => !value.isEmpty

end Slot

/-! ## Reading -/

/-- Why the arguments do not ask for anything to be done. -/
inductive UsageFault where
  | unknownArgument
  | invalidValue
  /-- An option is given twice. -/
  | conflict
  /-- An option without a value is given one. -/
  | tooManyValues
  /-- A word in the place of a verb is none. -/
  | unknownVerb
  | missingVerb
  | noArguments
  /-- Help is asked for: about a verb, about asking for help, or about the program. -/
  | help (about : Option (Option Verb))
  | version
  deriving DecidableEq, Repr

/-- What has been given so far: checked values, the value that is still to be checked, and whether a
path has come. -/
structure Given where
  values : List (Slot × Text)
  pending : Option (Slot × Option Text)
  hasPath : Bool
  deriving DecidableEq, Repr

/-- How the next argument is read. -/
inductive Mode where
  | plain
  /-- The option before waits for its value. -/
  | waiting (f : Flag)
  /-- No more options follow. -/
  | pathsOnly
  deriving DecidableEq, Repr

namespace Given

/-- Nothing has been given. -/
def empty : Given := ⟨[], none, false⟩

/-- Checks a value, or that there is none, and sets it. -/
def set (g : Given) (level : Level) (s : Slot) (value : Option Text) : Except UsageFault Given :=
  match s, value with
  | .flag .help, _ => .error (.help (level.map some))
  | .flag .version, _ => .error .version
  | s, value =>
    if s.takesValue && value.isNone then .error .invalidValue
    else if g.values.any (·.1 == s) then .error .conflict
    else if value.any (!s.accepts ·) then .error .invalidValue
    else .ok { g with values := (s, value.getD []) :: g.values }

/-- Checks and sets the value that is still to be checked. -/
def settle (g : Given) (level : Level) : Except UsageFault Given :=
  match g.pending with
  | none => .ok g
  | some (s, value) => { g with pending := none }.set level s value

/-- Settles what came before, then sets a value. -/
def settleAndSet (g : Given) (level : Level) (s : Slot) (value : Option Text) :
    Except UsageFault Given := do
  (← g.settle level).set level s value

/-- Settles what came before; the value that is given now, or is still to come, is to be checked
later. -/
def defer (g : Given) (level : Level) (s : Slot) (value : Option Text) : Except UsageFault Given := do
  return { ← g.settle level with pending := some (s, value) }

/-- The value of a slot. -/
def value? (g : Given) (s : Slot) : Option Text := g.values.lookup s

end Given

/-- Reads a long option behind its hyphens. -/
def readLong (level : Level) (g : Given) (t : Text) : Except UsageFault (Given × Mode) :=
  let (name, value) := match Text.cut? '=' t with
    | some (name, value) => (name, some value)
    | none => (t, none)
  match (Flag.all level).find? (·.long.toList == name) with
  | none => .error .unknownArgument
  | some f =>
    match f.takesValue, value with
    | true, some v => do return (← g.settleAndSet level (.flag f) (some v), .plain)
    | true, none => do return (← g.defer level (.flag f) none, .waiting f)
    | false, some _ => .error .tooManyValues
    | false, none => do return (← g.settleAndSet level (.flag f) none, .plain)

/-- Reads letters of options behind their hyphen. What follows a letter whose option has a value is
that value, with or without an equals sign. -/
def readShort (level : Level) (g : Given) : Text → Except UsageFault (Given × Mode)
  | [] => .ok (g, .plain)
  | c :: t =>
    match (Flag.all level).find? (·.short? == some c) with
    | none => .error .unknownArgument
    | some f =>
      if f.takesValue then
        match t with
        | [] => do return (← g.defer level (.flag f) none, .waiting f)
        | '=' :: v => do return (← g.settleAndSet level (.flag f) (some v), .plain)
        | v => do return (← g.settleAndSet level (.flag f) (some v), .plain)
      else do readShort level (← g.settleAndSet level (.flag f) none) t

/-- Reads a path. There is at most one. -/
def readPath (level : Level) (mode : Mode) (g : Given) (a : Text) :
    Except UsageFault (Given × Mode) :=
  if g.hasPath then
    if level.isSome then .error .unknownArgument
    else if mode == .pathsOnly && ((Verb.ofName? a).isSome || a == helpWord) then
      .error .unknownArgument
    else if looksLikeVerb a then .error .unknownVerb
    else .error .unknownArgument
  else do
    let g ← g.defer level .path (some a)
    return ({ g with hasPath := true }, if mode == .pathsOnly then .pathsOnly else .plain)

/-- Reads one argument that is no verb. -/
def readArgument (level : Level) (mode : Mode) (g : Given) (a : Text) :
    Except UsageFault (Given × Mode) :=
  match mode, a with
  | .pathsOnly, a => readPath level mode g a
  | _, ['-', '-'] => .ok (g, .pathsOnly)
  | _, '-' :: '-' :: t => readLong level g t
  | _, '-' :: c :: t => readShort level g (c :: t)
  | .waiting f, a => .ok ({ g with pending := some (.flag f, some a) }, .plain)
  | .plain, a => readPath level mode g a

/-- What is told to someone who asks for help about these words. -/
def helpAbout : List Text → UsageFault
  | [] => .help none
  | [w] =>
    if w = helpWord then .help (some none)
    else match Verb.ofName? w with
      | some v => .help (some (some v))
      | none => .unknownVerb
  | _ => .unknownVerb

/-- Reads arguments up to a verb, which is looked for before a verb only. -/
def readArguments (level : Level) (mode : Mode) (g : Given) :
    List Text → Except UsageFault (Given × Option (Verb × List Text))
  | [] => .ok (g, none)
  | a :: rest =>
    if level.isNone && mode == .plain && a == helpWord then .error (helpAbout rest)
    else match (if level.isNone && mode == .plain then Verb.ofName? a else none) with
      | some v => .ok (g, some (v, rest))
      | none => do
        let (g, mode) ← readArgument level mode g a
        readArguments level mode g rest

end Command

/-! ## Requests -/

/-- What the program is asked to do. -/
inductive Command where
  | scan (format : ReportFormat) (output : Option Text) (failOnFindings : Bool)
  | fix (dryRun : Bool)
  | init
  deriving DecidableEq, Repr

/-- The arguments of the program. -/
structure Arguments where
  path : Text
  logLevel : Text
  command : Command
  deriving DecidableEq, Repr

namespace Arguments

open Command

/-- The command that a verb with its options stands for. -/
def commandOf (g : Given) : Verb → Command
  | .scan =>
    .scan (((g.value? (.flag .format)).bind ReportFormat.ofName?).getD .text)
      (g.value? (.flag .output)) (g.value? (.flag .failOnFindings)).isSome
  | .fix => .fix (g.value? (.flag .dryRun)).isSome
  | .init => .init

/-- Reads the arguments. What is given behind the verb comes before what is given before it. -/
def parse (args : List Text) : Except UsageFault Arguments := do
  let (before, verb?) ← readArguments none .plain Given.empty args
  match verb? with
  | none =>
    let before ← before.settle none
    if before.values.isEmpty then .error .noArguments else .error .missingVerb
  | some (verb, rest) =>
    let (behind, _) ← readArguments (some verb) .plain Given.empty rest
    let behind ← behind.settle (some verb)
    let before ← before.settle none
    let value? (s : Slot) : Option Text := (behind.value? s).or (before.value? s)
    return ⟨(value? .path).getD Path.same, (value? (.flag .logLevel)).getD "warn".toList,
      commandOf behind verb⟩

end Arguments

end SqlInjection
