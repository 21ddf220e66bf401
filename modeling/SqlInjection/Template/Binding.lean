import SqlInjection.Template.Entity
import SqlInjection.Template.Ignore
import SqlInjection.Template.Pattern

/-!
# Binding interpolated values

A template binds a value with `#{name}` and splices text with `${name}`. The binder goes through
the interpolations of a template from left to right and turns those in a value position into bound
parameters, by one of three plans:

* `directPlan`: `'${id}'` becomes `#{id}`;
* `likePlan?`: `like '%${name}%'` becomes `like CONCAT('%', #{name}, '%')`;
* `foreachPlan`: `in (${ids})` becomes a `<foreach>` block, where the template may hold one.

A plan gives the new text in two parts, `head` and `rest`, and the scan goes on with `rest`: what a
plan inserts is never read again. `Binder.bindFrom` ends because `rest` is never longer than
the text after the interpolation.
-/

namespace SqlInjection

/-- How an interpolation is replaced. -/
inductive PlanKind where
  | direct
  | like
  | foreach
  deriving DecidableEq, Repr

/-- The text after one interpolation has been replaced: `head` is done, `rest` is still to be
read. -/
structure Plan where
  kind : PlanKind
  head : Text
  rest : Text
  deriving DecidableEq, Repr

namespace Plan

/-- The whole new text. -/
def text (p : Plan) : Text := p.head ++ p.rest

/-- The byte offset where reading goes on. -/
def resume (p : Plan) : Nat := Text.byteSize p.head

end Plan

/-! ## Delimiters around an interpolation -/

/-- The texts outside a pair of delimiters around a point; blanks between a delimiter and the point
go with it. -/
def stripPair? (opening closing before after : Text) : Option (Text × Text) :=
  match Text.stripSuffix? opening (Text.trimEnd before),
      Text.stripPrefix? closing (Text.trimStart after) with
  | some b, some a => some (b, a)
  | _, _ => none

/-- The spellings of a quote. -/
def quoteSpellings : List Text := ["'".toList, "\"".toList, "&apos;".toList, "&quot;".toList]

/-- The texts outside the quotes around a point, or both texts unchanged when they are not a pair of
the same spelling. -/
def stripQuotes (before after : Text) : Text × Text :=
  (quoteSpellings.findSome? fun q => stripPair? q q before after).getD (before, after)

/-- The texts outside the parentheses around a point, or both texts unchanged. -/
def stripParens (before after : Text) : Text × Text :=
  (stripPair? ['('] [')'] before after).getD (before, after)

/-! ## The three plans -/

/-- The bound parameter of a name. -/
def bound (name : Text) : Text := '#' :: '{' :: name ++ ['}']

/-- A parameter in place of the interpolation and the quotes around it. -/
def directPlan (before name after : Text) : Plan :=
  let (b, a) := stripQuotes before after
  ⟨.direct, b ++ bound name, a⟩

/-- The collection an interpolated name stands for: what comes before its options. -/
def collectionName (name : Text) : Text := name.takeWhile (· != ',')

/-- The name of one element of a collection. -/
def elementName (collection : Text) : Text :=
  (collection.reverse.takeWhile (· != '.')).reverse ++ "Item".toList

/-- A block that binds each element of a collection. -/
def foreachBlock (name : Text) : Text :=
  let collection := collectionName name
  let item := elementName collection
  "<foreach collection=\"".toList ++ collection ++ "\" item=\"".toList ++ item ++
    "\" open=\"(\" separator=\",\" close=\")\">\n".toList ++ bound item ++ "\n</foreach>".toList

/-- A block in place of the interpolation and of the quotes and parentheses around it. -/
def foreachPlan (before name after : Text) : Plan :=
  let (b, a) := stripQuotes before after
  let (b, a) := stripParens b a
  ⟨.foreach, b ++ '\n' :: foreachBlock name ++ ['\n'], a⟩

/-- Splits off a last percent sign: the text before it, and whether it was there. -/
def splitLastPercent (t : Text) : Text × Bool :=
  match Text.stripSuffix? ['%'] t with
  | some b => (b, true)
  | none => (t, false)

/-- Splits off a first percent sign: the text after it, and whether it was there. -/
def splitFirstPercent : Text → Text × Bool
  | '%' :: t => (t, true)
  | t => (t, false)

/-- The pattern expression for a bound value between the given wildcards. -/
def likeExpression (leading trailing : Bool) (name : Text) : Text :=
  if leading || trailing then
    " CONCAT(".toList ++ (if leading then "'%', ".toList else []) ++ bound name ++
      (if trailing then ", '%'".toList else []) ++ ") ".toList
  else ' ' :: bound name ++ [' ']

/-- An expression in place of a quoted pattern; `none` when the closing quote is not where the
opening one asks for it. -/
def likePlan? (before name after : Text) : Option Plan :=
  let (body, leading) := splitLastPercent before
  let (tail, trailing) := splitFirstPercent after
  match body.getLast?, tail with
  | some q, c :: rest =>
    if isQuote q && c == q then
      let head := Text.trimEnd body.dropLast
      some ⟨.like, head ++ likeExpression leading trailing name,
        rest.dropWhile fun c => c == ' ' || c == '\t'⟩
    else none
  | _, _ => none

/-! ## Length of what is left -/

theorem length_dropWhile_le (p : Char → Bool) (t : Text) : (t.dropWhile p).length ≤ t.length := by
  induction t with
  | nil => simp
  | cons c t ih =>
    rw [List.dropWhile_cons]
    split
    · exact Nat.le_succ_of_le ih
    · exact Nat.le_refl _

theorem length_of_stripPair? {opening closing before after b a : Text}
    (h : stripPair? opening closing before after = some (b, a)) : a.length ≤ after.length := by
  unfold stripPair? at h
  split at h
  · rename_i b' a' _ ha
    simp only [Option.some.injEq, Prod.mk.injEq] at h
    obtain ⟨-, rfl⟩ := h
    have hlen := congrArg List.length (Text.stripPrefix?_eq_some_iff.1 ha)
    have htrim := length_dropWhile_le Text.isBlank after
    simp only [List.length_append, Text.trimStart] at hlen
    omega
  · simp at h

theorem length_stripQuotes (before after : Text) :
    (stripQuotes before after).2.length ≤ after.length := by
  unfold stripQuotes
  cases h : quoteSpellings.findSome? fun q => stripPair? q q before after with
  | none => simp
  | some p =>
    obtain ⟨q, -, hq⟩ := List.exists_of_findSome?_eq_some h
    exact length_of_stripPair? hq

theorem length_stripParens (before after : Text) :
    (stripParens before after).2.length ≤ after.length := by
  unfold stripParens
  cases h : stripPair? ['('] [')'] before after with
  | none => simp
  | some p => exact length_of_stripPair? h

theorem length_directPlan_rest (before name after : Text) :
    (directPlan before name after).rest.length ≤ after.length :=
  length_stripQuotes before after

theorem length_foreachPlan_rest (before name after : Text) :
    (foreachPlan before name after).rest.length ≤ after.length :=
  Nat.le_trans (length_stripParens _ _) (length_stripQuotes before after)

theorem length_splitFirstPercent (t : Text) : (splitFirstPercent t).1.length ≤ t.length := by
  unfold splitFirstPercent
  split <;> simp

theorem length_likePlan_rest {before name after : Text} {p : Plan}
    (h : likePlan? before name after = some p) : p.rest.length ≤ after.length := by
  unfold likePlan? at h
  simp only at h
  split at h
  · rename_i q c rest _ hrest
    split at h
    · simp only [Option.some.injEq] at h
      subst h
      have hle := length_splitFirstPercent after
      have hdrop := length_dropWhile_le (fun c => c == ' ' || c == '\t') rest
      rw [hrest, List.length_cons] at hle
      simp only
      omega
    · simp at h
  · simp at h

/-! ## The scan -/

/-- An interpolation in a text, with the text before it and after it. -/
structure Interpolation where
  before : Text
  name : Text
  after : Text
  deriving DecidableEq, Repr

/-- The first interpolation of a text. -/
def Interpolation.first? : Text → Option Interpolation
  | [] => none
  | c :: t =>
    match readInterpolation (c :: t) with
    | some (name, after) => some ⟨[], name, after⟩
    | none => (first? t).map fun i => { i with before := c :: i.before }

theorem readNameTail_eq {t name rest : Text} (h : readNameTail t = some (name, rest)) :
    name ++ '}' :: rest = t := by
  induction t generalizing name rest with
  | nil => simp [readNameTail] at h
  | cons c t ih =>
    simp only [readNameTail] at h
    split at h
    · simp only [Option.some.injEq, Prod.mk.injEq] at h
      obtain ⟨rfl, rfl⟩ := h
      simp_all
    · split at h
      · simp at h
      · obtain ⟨⟨n, r⟩, hr, he⟩ := Option.map_eq_some_iff.1 h
        simp only [Prod.mk.injEq] at he
        obtain ⟨rfl, rfl⟩ := he
        simpa using ih hr

theorem readInterpolation_eq {t name rest : Text} (h : readInterpolation t = some (name, rest)) :
    interpolationOf name ++ rest = t := by
  unfold readInterpolation at h
  split at h
  · rename_i u
    cases u with
    | nil => simp [readName] at h
    | cons c u =>
      simp only [readName] at h
      split at h
      · simp at h
      · obtain ⟨⟨n, r⟩, hr, he⟩ := Option.map_eq_some_iff.1 h
        simp only [Prod.mk.injEq] at he
        obtain ⟨rfl, rfl⟩ := he
        have := readNameTail_eq hr
        simp [interpolationOf, ← this]
  · simp at h

theorem Interpolation.first?_eq {t : Text} {i : Interpolation} (h : first? t = some i) :
    i.before ++ interpolationOf i.name ++ i.after = t := by
  induction t generalizing i with
  | nil => simp [first?] at h
  | cons c t ih =>
    unfold first? at h
    split at h
    · rename_i name after hr
      simp only [Option.some.injEq] at h
      subst h
      simpa using readInterpolation_eq hr
    · obtain ⟨j, hj, rfl⟩ := Option.map_eq_some_iff.1 h
      simpa using ih hj

theorem Interpolation.length_after_lt {t : Text} {i : Interpolation} (h : first? t = some i) :
    i.after.length < t.length := by
  have := congrArg List.length (first?_eq h)
  simp only [interpolationOf, List.length_append, List.length_cons, List.length_nil] at this
  omega

/-- What a binder works by. -/
structure Binder where
  /-- Names that are left alone. -/
  ignore : IgnoreList
  /-- Whether the template may hold a `<foreach>` block. -/
  foreach : Bool
  /-- Whether the template is markup, where entities stand for characters. -/
  markup : Bool
  deriving DecidableEq, Repr

namespace Binder

/-- The text as its reader will see it. -/
def seenAs (b : Binder) (t : Text) : Text := if b.markup then decodeEntities t else t

/-- The verdict on an interpolation between two texts. -/
def pointRisk (b : Binder) (before after : Text) : Risk :=
  templatePointRisk (b.seenAs before) (b.seenAs after)

/-- The plan for an interpolation; `none` when it is left as it is. -/
def plan? (b : Binder) (before name after : Text) : Option Plan :=
  if b.ignore.covers name || !(b.pointRisk before after).isRisky then none
  else if leadsToInOperand before then
    if b.foreach then some (foreachPlan before name after) else none
  else if leadsToLikePattern before then likePlan? before name after
  else some (directPlan before name after)

theorem length_plan_rest {b : Binder} {before name after : Text} {p : Plan}
    (h : b.plan? before name after = some p) : p.rest.length ≤ after.length := by
  unfold plan? at h
  split at h
  · simp at h
  · split at h
    · split at h
      · simp only [Option.some.injEq] at h
        exact h ▸ length_foreachPlan_rest before name after
      · simp at h
    · split at h
      · exact length_likePlan_rest h
      · simp only [Option.some.injEq] at h
        exact h ▸ length_directPlan_rest before name after

/-- The whole text with the interpolations of `rest` bound, where `seen` comes before it. -/
def bindFrom (b : Binder) (seen rest : Text) : Text :=
  match _h : Interpolation.first? rest with
  | none => seen ++ rest
  | some i =>
    match _hp : b.plan? (seen ++ i.before) i.name i.after with
    | none => bindFrom b (seen ++ i.before ++ interpolationOf i.name) i.after
    | some p => bindFrom b p.head p.rest
termination_by rest.length
decreasing_by
  · exact Interpolation.length_after_lt _h
  · exact Nat.lt_of_le_of_lt (length_plan_rest _hp) (Interpolation.length_after_lt _h)

/-- The text with every interpolation in a value position bound that can be. -/
def bindAll (b : Binder) (t : Text) : Text := b.bindFrom [] t

/-- The verdict on all interpolations of a text that are not left alone. -/
def remainingRisk (b : Binder) (t : Text) : Risk :=
  Risk.all
    (((occurrences interpolationPattern t).filter fun o => !b.ignore.covers (o.capture.getD [])).map
      fun o => b.pointRisk o.before o.after)

/-- A text after binding, and whether no interpolation in a value position is left in it. -/
structure Outcome where
  text : Text
  complete : Bool
  deriving DecidableEq, Repr

/-- The text after binding and what is left in it. -/
def fix (b : Binder) (t : Text) : Outcome :=
  let new := b.bindAll t
  ⟨new, !(b.remainingRisk new).isRisky⟩

/-- The plan for each interpolation of a text, taken by itself. -/
def plans (b : Binder) (t : Text) : List (Option Plan) :=
  (occurrences interpolationPattern t).map fun o => b.plan? o.before (o.capture.getD []) o.after

/-- The text with the interpolations from byte offset `n` on bound. An offset inside a character
counts as its end, and nothing is read past the end of the text. -/
def bindAt (b : Binder) (t : Text) (n : Nat) : Text :=
  go [] t n
where
  /-- Passes over the characters that start before offset `n`. -/
  go (seen : Text) : Text → Nat → Text
    | rest, 0 => b.bindFrom seen rest
    | [], _ + 1 => seen
    | c :: t, n + 1 => go (seen ++ [c]) t (n + 1 - c.utf8Size)

end Binder

end SqlInjection
