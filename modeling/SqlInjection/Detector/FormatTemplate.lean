import SqlInjection.Detector.Concatenation

/-!
# Statements built by filling in a template

The placeholders of a format template are paired with the arguments of the call. The template is
flagged if an argument that carries text is put where a value stands.
-/

namespace SqlInjection

/-- The number that a text of digits stands for. -/
def numberOf? (t : Text) : Option Nat :=
  if t.isEmpty || !t.all Char.isDigit then none
  else some (t.foldl (fun n c => 10 * n + (c.toNat - '0'.toNat)) 0)

/-- The index that an explicit position stands for: the first argument has position one, and
position zero is taken for it too. -/
def positionIndex? (position : Text) : Option Nat :=
  (numberOf? (position.takeWhile (· != '$'))).map (· - 1)

/-- The fragments for a placeholder: those of its argument, or a dynamic one if there is none. -/
def placeholderFragments (args : List Expr) (index : Option Nat) (token : Text) : List Fragment :=
  match index.bind (args[·]?) with
  | some arg => arg.fragments
  | none => [.dynamic (Expr.ofUnknown none token)]

/-- The fragments from a placeholder on. Of the template, `seen` characters lie before, and `tail`
is what follows them; `next` is the index of the next argument that is taken in order. -/
def templateFragmentsFrom (args : List Expr) (next seen : Nat) (tail : Text) :
    List Occurrence → List Fragment
  | [] => [.constant tail]
  | o :: os =>
    let index := match o.capture with
      | some position => positionIndex? position
      | none => some next
    let next := if o.capture.isSome then next else next + 1
    .constant (o.before.drop seen) :: placeholderFragments args index o.token ++
      templateFragmentsFrom args next (o.before.length + o.token.length) o.after os

/-- The fragments of a template whose placeholders are filled with arguments. -/
def templateFragments (template : Text) (args : List Expr) : List Fragment :=
  templateFragmentsFrom args 0 0 template (occurrences formatPattern template)

/-- The template of a call: a literal, or a name that stands for one. -/
def templateText? : Expr → Option Text
  | .ref _ _ _ value _ => value.bind Expr.literalText?
  | e => e.literalText?

/-- Whether an argument is a locale and not the template. -/
def isLocale (s : Java.Source) (p : Java.Place) : Java.Lowered Bool :=
  if Text.startsWith p.text "Locale.".toList then pure true
  else do
    match ← s.lower p with
    | .ref _ _ type _ _ => pure (type == some "Locale".toList)
    | _ => pure false

/-- The arguments of a call without a locale in front. -/
def templateArguments (s : Java.Source) (call : Java.Place) : Java.Lowered (List Java.Place) :=
  match call.arguments with
  | [] => pure []
  | first :: rest => do pure (if ← isLocale s first then rest else first :: rest)

/-- The detection for a call that fills in a template, if there is one. -/
def inspectFormatCall (c : Settings) (s : Java.Source) (call : Java.Place) :
    Java.Lowered (Option Detection) := do
  match ← templateArguments s call with
  | [] => pure none
  | first :: rest =>
    match templateText? (← s.lower first) with
    | none => pure none
    | some template =>
      if !hasPlaceholder template || !isFilteredStatement template || call.insideCall c.logs then
        pure none
      else
        let args ← rest.mapM s.lower
        if (chainRisk (templateFragments template args)).isRisky then
          some <$> Java.advisoryDetection .formatTemplate formatMessage s call
        else pure none

/-- The detections for the calls of a source that fill in templates. -/
def detectFormatCalls (c : Settings) (s : Java.Source) : Java.Lowered (List Detection) := do
  let found ← (s.places.filter Java.Place.isFormatCall).mapM (inspectFormatCall c s)
  pure (found.filterMap id)

end SqlInjection
