import Mathlib.Data.List.Basic
import Mathlib.Data.List.Flatten
import SqlInjection.Java.Lowering
import SqlInjection.Proofs.Java.Places

/-!
# What straight-line methods compute

The values that expressions of strings have when a method runs, by the rules of the language and
without regard to how they are read.

* `literalValue?`: the value of a literal on one line without unicode escapes
  (`decodeLiteral?_of_literalValue?`: it is the value that is read).
* `Node.value?`: the value of an expression made of such literals, names, parentheses and plus signs,
  in an environment that gives the values of the names. A variable may hold null, which a sum shows
  as the word.
* `Place.effects?`: the declarations and assignments of a method whose body is a sequence of these
  and one last statement; `Env.run?` performs them one after the other.
* `Env.values`: what each expression of such a method is worth at its own position.
-/

namespace SqlInjection.Java

/-! ## Literals on one line -/

/-- The character that a letter after a backslash names. -/
def namedEscape? (c : Char) : Option Char :=
  [('b', '\x08'), ('t', '\t'), ('n', '\n'), ('f', '\x0c'), ('r', '\r'), ('s', ' '), ('"', '"'),
    ('\'', '\''), ('\\', '\\')].lookup c

/-- The number that octal digits stand for, after those that stand for `n`. -/
def octalFrom (n : Nat) (digits : Text) : Nat :=
  digits.foldl (fun n d => 8 * n + (d.toNat - '0'.toNat)) n

/-- The octal digits at the front of a text, `most` of them at most. -/
def octalFront (most : Nat) (t : Text) : Text := (t.take most).takeWhile isOctal

/-- The character of an escape and the text after it, from the text after its backslash. An octal
escape has three digits at most, and two if the first is greater than three. -/
def escape? : Text → Option (Char × Text)
  | [] => none
  | c :: t =>
    if isOctal c then
      let more := octalFront (if c ≤ '3' then 2 else 1) t
      some (Char.ofNat (octalFrom (c.toNat - '0'.toNat) more), t.drop more.length)
    else (namedEscape? c).map (·, t)

/-- The value of the content of a literal with at most `fuel` characters. -/
def contentWithin : Nat → Text → Option Text
  | _, [] => some []
  | 0, _ :: _ => none
  | fuel + 1, c :: t =>
    if c = '\\' then do
      let (value, rest) ← escape? t
      let values ← contentWithin fuel rest
      pure (value :: values)
    else if c = '"' ∨ c = '\n' ∨ c = '\r' then none
    else (contentWithin fuel t).map (c :: ·)

/-- The value of a literal on one line, quotes included. -/
def literalValue? : Text → Option Text
  | [] => none
  | c :: t =>
    if c = '"' ∧ t.getLast? = some '"' then contentWithin t.length t.dropLast else none

theorem unescapeFrom_octal (value most : Nat) (t : Text) :
    unescapeFrom (.octal value most) t =
      Char.ofNat (octalFrom value (octalFront most t)) ::
        unescapeFrom .plain (t.drop (octalFront most t).length) := by
  -- the escape ends at the end of the text, at its last digit, or before another character
  have hend : ∀ (value most : Nat) (c : Char) (t : Text), (isOctal c && decide (most ≠ 0)) = false →
      unescapeFrom (.octal value most) (c :: t) =
        Char.ofNat value :: unescapeFrom .plain (c :: t) := by
    intro value most c t h
    have hneg : ¬ (isOctal c && decide (most ≠ 0)) = true := Bool.not_eq_true _ ▸ h
    rw [unescapeFrom, unescapeFrom, EscapeState.step, EscapeState.step, if_neg hneg]
    by_cases hc : c = '\\'
    · rw [if_pos hc, if_pos hc]
      rfl
    · rw [if_neg hc, if_neg hc]
      rfl
  induction most generalizing value t with
  | zero =>
    cases t with
    | nil => rfl
    | cons c t => exact hend value 0 c t (by simp)
  | succ most ih =>
    cases t with
    | nil => rfl
    | cons c t =>
      by_cases hc : isOctal c = true
      · have hstep : unescapeFrom (.octal value (most + 1)) (c :: t) =
            unescapeFrom (.octal (8 * value + (c.toNat - '0'.toNat)) most) t := by
          rw [unescapeFrom, EscapeState.step, if_pos (by simp [hc])]
          rfl
        have hfront : octalFront (most + 1) (c :: t) = c :: octalFront most t := by
          rw [octalFront, List.take_succ_cons, List.takeWhile_cons_of_pos hc, octalFront]
        rw [hstep, ih, hfront]
        rfl
      · have hfront : octalFront (most + 1) (c :: t) = [] := by
          rw [octalFront, List.take_succ_cons, List.takeWhile_cons_of_neg hc]
        rw [hend value (most + 1) c t (by simp [hc]), hfront]
        rfl

theorem escapeValue_of_namedEscape? {c d : Char} (h : namedEscape? c = some d) :
    c ≠ 'u' ∧ isOctal c = false ∧ escapeValue c = [d] := by
  obtain ⟨l₁, l₂, hsplit, -⟩ := List.lookup_eq_some_iff.1 h
  have hmem : (c, d) ∈ [('b', '\x08'), ('t', '\t'), ('n', '\n'), ('f', '\x0c'), ('r', '\r'),
      ('s', ' '), ('"', '"'), ('\'', '\''), ('\\', '\\')] := by
    rw [hsplit]
    exact List.mem_append_right _ List.mem_cons_self
  clear hsplit h
  revert hmem
  simp only [List.mem_cons, List.not_mem_nil, or_false, Prod.mk.injEq]
  rintro (⟨rfl, rfl⟩ | ⟨rfl, rfl⟩ | ⟨rfl, rfl⟩ | ⟨rfl, rfl⟩ | ⟨rfl, rfl⟩ | ⟨rfl, rfl⟩ | ⟨rfl, rfl⟩ |
    ⟨rfl, rfl⟩ | ⟨rfl, rfl⟩) <;> decide

theorem unescapeFrom_escaped {t rest : Text} {c : Char} (h : escape? t = some (c, rest)) :
    unescapeFrom .escaped t = c :: unescapeFrom .plain rest := by
  cases t with
  | nil => cases h
  | cons d t =>
    rw [escape?] at h
    rw [unescapeFrom, EscapeState.step]
    split at h
    · next hoctal =>
      have hu : d ≠ 'u' := by
        rintro rfl
        revert hoctal
        decide
      obtain ⟨rfl, rfl⟩ := Prod.mk.inj (Option.some.inj h)
      rw [if_neg hu, if_pos hoctal]
      exact unescapeFrom_octal _ _ t
    · next hoctal =>
      obtain ⟨c', hnamed, hpair⟩ := Option.map_eq_some_iff.1 h
      obtain ⟨rfl, rfl⟩ := Prod.mk.inj hpair
      obtain ⟨hu, -, hvalue⟩ := escapeValue_of_namedEscape? hnamed
      rw [if_neg hu, if_neg hoctal, hvalue]
      rfl

theorem unescape_of_contentWithin {fuel : Nat} {t v : Text} (h : contentWithin fuel t = some v) :
    unescape t = v := by
  rw [unescape]
  induction fuel generalizing t v with
  | zero =>
    cases t with
    | nil => exact Option.some.inj h
    | cons c t => cases h
  | succ fuel ih =>
    cases t with
    | nil => exact Option.some.inj h
    | cons c t =>
      rw [contentWithin] at h
      rw [unescapeFrom, EscapeState.step]
      split at h
      · next hc =>
        obtain ⟨⟨value, rest⟩, hescape, h⟩ := Option.bind_eq_some_iff.1 h
        obtain ⟨values, hvalues, h⟩ := Option.bind_eq_some_iff.1 h
        rw [if_pos hc, ← Option.some.inj h, ← ih hvalues]
        exact unescapeFrom_escaped hescape
      · next hc =>
        split at h
        · cases h
        · obtain ⟨values, hvalues, rfl⟩ := Option.map_eq_some_iff.1 h
          rw [if_neg hc, ← ih hvalues]
          rfl

/-- The value of a literal on one line is the value that is read. -/
theorem decodeLiteral?_of_literalValue? {raw v : Text} (h : literalValue? raw = some v) :
    decodeLiteral? raw = some v := by
  cases raw with
  | nil => cases h
  | cons c t =>
    rw [literalValue?] at h
    split at h
    · next hquotes =>
      obtain ⟨rfl, hlast⟩ := hquotes
      have ht : t.dropLast ++ ['"'] = t := List.dropLast_append_getLast? _ hlast
      have hinner : between? ['"'] ('"' :: t) = some t.dropLast := by
        rw [between?, Option.bind_eq_some_iff]
        exact ⟨t, rfl, Text.stripSuffix?_eq_some_iff.2 ht⟩
      have hblock : between? blockQuote ('"' :: t) = none := by
        cases hstrip : Text.stripPrefix? blockQuote ('"' :: t) with
        | none => rw [between?, hstrip]; rfl
        | some rest =>
          -- a block starts with three quotes, and a content with none
          have hcons : '"' :: '"' :: rest = t := by
            simpa [blockQuote] using Text.stripPrefix?_eq_some_iff.1 hstrip
          rw [← hcons] at h
          cases rest with
          | nil => simp [contentWithin] at h
          | cons d rest => simp [contentWithin] at h
      rw [decodeLiteral?, hblock, hinner]
      exact congrArg some (unescape_of_contentWithin h)
    · cases h

/-! ## Values of expressions -/

/-- The value of a variable of strings; null is `none`. -/
abbrev Value := Option Text

/-- The text of a value in a sum. -/
def shown (v : Value) : Text := v.getD "null".toList

/-- The sum of two values. -/
def sum (u v : Value) : Value := some (shown u ++ shown v)

/-- The values of names, the latest first. -/
abbrev Env := List (Text × Value)

mutual

/-- The value of an expression of literals, names, parentheses and plus signs. A name in parentheses
before a plus sign stands in the tree as a cast of an operand with a sign; it is a sum like any
other. -/
def Node.value? (env : Env) : Node → Option Value
  | ⟨kind, _, _, text, operator, children⟩ =>
    match kind with
    | .stringLiteral => if children.isEmpty then (literalValue? text).map some else none
    | .identifier => if children.isEmpty then env.lookup text else none
    | .parenthesized => firstValue? env children
    | .binary =>
      if operator = some Expr.plus then do
        let left ← partValue? env .left children
        let right ← partValue? env .right children
        pure (sum left right)
      else none
    | .cast => do
      let type ← children.find? (·.role == some .type)
      let left ← env.lookup type.text
      let right ← signedValue? env children
      pure (sum left right)
    | _ => none

/-- The value of the first node that is no comment. -/
def firstValue? (env : Env) : List Node → Option Value
  | [] => none
  | n :: ns => if n.isComment then firstValue? env ns else n.value? env

/-- The value of the first node that plays a part. -/
def partValue? (env : Env) (r : Role) : List Node → Option Value
  | [] => none
  | n :: ns => if n.role == some r then n.value? env else partValue? env r ns

/-- The value after the plus sign in a cast. -/
def signedValue? (env : Env) : List Node → Option Value
  | [] => none
  | ⟨kind, role, _, text, _, children⟩ :: ns =>
    if role == some .value then
      if kind == .unary && text.head? == some '+' then firstValue? env children else none
    else signedValue? env ns

end

section Values

variable {env : Env} {n : Node} {v : Value}

theorem firstValue?_eq (env : Env) (ns : List Node) :
    firstValue? env ns = (ns.find? (!·.isComment)).bind (·.value? env) := by
  induction ns with
  | nil => rfl
  | cons n ns ih =>
    rw [firstValue?, List.find?_cons]
    cases n.isComment
    · rfl
    · exact ih

theorem partValue?_eq (env : Env) (r : Role) (ns : List Node) :
    partValue? env r ns = (ns.find? (·.role == some r)).bind (·.value? env) := by
  induction ns with
  | nil => rfl
  | cons n ns ih =>
    rw [partValue?, List.find?_cons]
    cases n.role == some r
    · exact ih
    · rfl

theorem signedValue?_eq (env : Env) (ns : List Node) :
    signedValue? env ns = (ns.find? (·.role == some .value)).bind fun n =>
      if n.kind == .unary && n.text.head? == some '+' then firstValue? env n.children else none := by
  induction ns with
  | nil => rfl
  | cons n ns ih =>
    obtain ⟨kind, role, span, text, operator, children⟩ := n
    rw [signedValue?, List.find?_cons]
    cases role == some Role.value
    · exact ih
    · rfl

/-- The expressions that have a value, by their shape. -/
inductive Node.Evaluates (env : Env) : Node → Value → Prop
  | literal {n : Node} {t : Text} (hkind : n.kind = .stringLiteral) (hleaf : n.children = [])
      (ht : literalValue? n.text = some t) : Evaluates env n (some t)
  | name {n : Node} {v : Value} (hkind : n.kind = .identifier) (hleaf : n.children = [])
      (hv : env.lookup n.text = some v) : Evaluates env n v
  | inside {n m : Node} {v : Value} (hkind : n.kind = .parenthesized)
      (hm : n.children.find? (!·.isComment) = some m) (hv : m.value? env = some v) :
      Evaluates env n v
  | sum {n l r : Node} {u v : Value} (hkind : n.kind = .binary)
      (hop : n.operator = some Expr.plus) (hl : n.child? .left = some l)
      (hr : n.child? .right = some r) (hu : l.value? env = some u) (hv : r.value? env = some v) :
      Evaluates env n (Java.sum u v)
  | signed {n l r m : Node} {u v : Value} (hkind : n.kind = .cast) (hl : n.child? .type = some l)
      (hu : env.lookup l.text = some u) (hr : n.child? .value = some r)
      (hsign : (r.kind == .unary && r.text.head? == some '+') = true)
      (hm : r.children.find? (!·.isComment) = some m) (hv : m.value? env = some v) :
      Evaluates env n (Java.sum u v)

theorem Node.evaluates_of_value? (h : n.value? env = some v) : n.Evaluates env v := by
  obtain ⟨kind, role, span, text, operator, children⟩ := n
  unfold Node.value? at h
  split at h
  · split at h
    · next hleaf =>
      obtain ⟨t, ht, rfl⟩ := Option.map_eq_some_iff.1 h
      exact .literal rfl (List.isEmpty_iff.1 hleaf) ht
    · cases h
  · split at h
    · next hleaf => exact .name rfl (List.isEmpty_iff.1 hleaf) h
    · cases h
  · rw [firstValue?_eq] at h
    obtain ⟨m, hm, hv⟩ := Option.bind_eq_some_iff.1 h
    exact .inside rfl hm hv
  · split at h
    · next hop =>
      rw [partValue?_eq, partValue?_eq] at h
      obtain ⟨u, hu, h⟩ := Option.bind_eq_some_iff.1 h
      obtain ⟨w, hw, h⟩ := Option.bind_eq_some_iff.1 h
      obtain ⟨l, hl, hu⟩ := Option.bind_eq_some_iff.1 hu
      obtain ⟨r, hr, hw⟩ := Option.bind_eq_some_iff.1 hw
      rw [← Option.some.inj h]
      exact .sum rfl hop hl hr hu hw
    · cases h
  · rw [signedValue?_eq] at h
    obtain ⟨l, hl, h⟩ := Option.bind_eq_some_iff.1 h
    obtain ⟨u, hu, h⟩ := Option.bind_eq_some_iff.1 h
    obtain ⟨w, hw, h⟩ := Option.bind_eq_some_iff.1 h
    obtain ⟨r, hr, hw⟩ := Option.bind_eq_some_iff.1 hw
    split at hw
    · next hsign =>
      rw [firstValue?_eq] at hw
      obtain ⟨m, hm, hw⟩ := Option.bind_eq_some_iff.1 hw
      rw [← Option.some.inj h]
      exact .signed rfl hl hu hr hsign hm hw
    · cases hw
  · cases h

theorem Node.value?_of_evaluates (h : n.Evaluates env v) : n.value? env = some v := by
  obtain ⟨kind, role, span, text, operator, children⟩ := n
  cases h with
  | literal hkind hleaf ht =>
    obtain rfl : kind = .stringLiteral := hkind
    obtain rfl : children = [] := hleaf
    rw [Node.value?, ht]
    rfl
  | name hkind hleaf hv =>
    obtain rfl : kind = .identifier := hkind
    obtain rfl : children = [] := hleaf
    rw [Node.value?]
    exact hv
  | inside hkind hm hv =>
    obtain rfl : kind = .parenthesized := hkind
    rw [Node.value?, firstValue?_eq, hm]
    exact hv
  | sum hkind hop hl hr hu hv =>
    obtain rfl : kind = .binary := hkind
    rw [Node.value?, if_pos hop, partValue?_eq, partValue?_eq]
    rw [Node.child?] at hl hr
    rw [hl, hr, Option.bind_some, Option.bind_some, hu, hv]
    rfl
  | signed hkind hl hu hr hsign hm hv =>
    obtain rfl : kind = .cast := hkind
    rw [Node.child?] at hl hr
    rw [Node.value?, signedValue?_eq, hl, hr, Option.bind_some, if_pos hsign, firstValue?_eq, hm,
      Option.bind_some, hv]
    show (env.lookup _ >>= fun left => _) = _
    rw [hu]
    rfl

/-- All names of an environment are names of another. -/
def Env.Within (env env' : Env) : Prop :=
  ∀ name v, env.lookup name = some v → ∃ v', env'.lookup name = some v'

/-- Whether an expression has a value depends only on the names in scope. -/
theorem Node.value?_of_within {env' : Env} (h : env.Within env') (hv : n.value? env = some v) :
    ∃ v', n.value? env' = some v' := by
  have hsize : ∀ {n m : Node}, m ∈ n.children → sizeOf m < sizeOf n := fun {n m} hm =>
    Place.sizeOf_lt_of_mem_children (p := ⟨n, []⟩) (q := ⟨m, [n]⟩) (Place.mem_children_iff.2 ⟨hm, rfl⟩)
  induction hn : sizeOf n using Nat.strongRecOn generalizing n v with
  | ind k ih =>
    subst hn
    cases Node.evaluates_of_value? hv with
    | literal hkind hleaf ht => exact ⟨_, Node.value?_of_evaluates (.literal hkind hleaf ht)⟩
    | name hkind hleaf hlookup =>
      obtain ⟨v', hv'⟩ := h _ _ hlookup
      exact ⟨v', Node.value?_of_evaluates (.name hkind hleaf hv')⟩
    | inside hkind hm hu =>
      obtain ⟨u', hu'⟩ := ih _ (hsize (List.mem_of_find?_eq_some hm)) hu rfl
      exact ⟨u', Node.value?_of_evaluates (.inside hkind hm hu')⟩
    | sum hkind hop hl hr hu hw =>
      obtain ⟨u', hu'⟩ := ih _ (hsize (List.mem_of_find?_eq_some hl)) hu rfl
      obtain ⟨w', hw'⟩ := ih _ (hsize (List.mem_of_find?_eq_some hr)) hw rfl
      exact ⟨_, Node.value?_of_evaluates (.sum hkind hop hl hr hu' hw')⟩
    | signed hkind hl hu hr hsign hm hw =>
      obtain ⟨u', hu'⟩ := h _ _ hu
      have hlt := Nat.lt_trans (hsize (List.mem_of_find?_eq_some hm))
        (hsize (List.mem_of_find?_eq_some hr))
      obtain ⟨w', hw'⟩ := ih _ hlt hw rfl
      exact ⟨_, Node.value?_of_evaluates (.signed hkind hl hu' hr hsign hm hw')⟩

end Values

/-! ## Straight-line methods -/

/-- Whether a node may declare or change a local variable or start a scope of its own. -/
def Kind.binds : Kind → Bool
  | .declarator | .assignment | .enhancedFor | .catchParameter | .resource | .lambda => true
  | kind => kind.isCallable

theorem Kind.binds_of_isCallable {kind : Kind} (h : kind.isCallable = true) : kind.binds = true := by
  cases kind <;> first | rfl | cases h

/-- The type of strings as it is written. -/
def stringType : Text := "String".toList

namespace Place

/-- The declaration or assignment that a statement consists of: the one of `String v = e;`, `v = e;`
or `v += e;`. -/
def effect? (statement : Place) : Option Place :=
  match statement.kind with
  | .localVariables =>
    if statement.node.childText? .type = some stringType then
      statement.children.find? (·.kind == .declarator)
    else none
  | .expressionStatement => statement.children.find? (·.kind == .assignment)
  | _ => none

/-- The effects of a straight-line method and its last statement: all statements but the last are
effects, and nothing else in the method declares or changes a variable. -/
def effects? (method : Place) : Option (List Place × Place) := do
  let body ← method.child? .body
  let statements := body.children.filter (!·.node.isComment)
  let last ← statements.getLast?
  let effects ← statements.dropLast.mapM effect?
  if method.kind.isCallable && (method.below.filter (·.kind.binds)).length = effects.length + 1 then
    pure (effects, last)
  else none

/-- The names of the parameters of a method that are strings. -/
def stringParameters (method : Place) : List Text :=
  match method.child? .parameters with
  | some params =>
    if params.kind == .parameters then
      (params.children.filter fun p => p.kind == .parameter &&
        p.node.childText? .type == some stringType).filterMap (·.node.childText? .name)
    else []
  | none => []

/-- The expression that a declaration or an assignment evaluates. -/
def operand? (effect : Place) : Option Place :=
  match effect.kind with
  | .declarator => effect.child? .value
  | .assignment => effect.child? .right
  | _ => none

/-- The variable that an assignment changes. -/
def target? (effect : Place) : Option Text :=
  match effect.node.child? .left with
  | some l => if l.kind == .identifier then some l.text else none
  | none => none

/-- The environment after a declaration or an assignment of the value `v`. -/
def bind? (env : Env) (v : Value) (effect : Place) : Option Env :=
  match effect.kind with
  | .declarator => (effect.node.childText? .name).map fun name => (name, v) :: env
  | .assignment => do
    let name ← effect.target?
    let old ← env.lookup name
    match effect.node.operator with
    | some ['='] => pure ((name, v) :: env)
    | some ['+', '='] => pure ((name, sum old v) :: env)
    | _ => none
  | _ => none

/-- The environment after a declaration or an assignment. -/
def perform? (env : Env) (effect : Place) : Option Env := do
  let operand ← effect.operand?
  let v ← operand.node.value? env
  effect.bind? env v

/-- The environment in which the body of a method starts. -/
def initially (method : Place) (args : Text → Value) : Env :=
  method.stringParameters.map fun name => (name, args name)

end Place

namespace Env

/-- The environment after some effects. -/
def run? (env : Env) : List Place → Option Env
  | [] => some env
  | b :: bs => do run? (← b.perform? env) bs

/-- The expressions of some effects and of the statement after them, with the environments in which
they are evaluated. -/
def history (env : Env) (last : Place) : List Place → List (Place × Env)
  | [] => [(last, env)]
  | b :: bs =>
    match b.operand?, b.perform? env with
    | some operand, some next => (operand, env) :: history next last bs
    | _, _ => []

/-- What the expressions of some effects and of the statement after them are worth, each at its own
position. -/
def values (env : Env) (effects : List Place) (last : Place) : List (Written × Value) :=
  (env.history last effects).flatMap fun entry =>
    entry.1.below.filterMap fun q => (q.node.value? entry.2).map fun v => (q.written, v)

theorem run?_append (env : Env) (bs cs : List Place) :
    env.run? (bs ++ cs) = (env.run? bs).bind (·.run? cs) := by
  induction bs generalizing env with
  | nil => rfl
  | cons b bs ih =>
    rw [List.cons_append, run?, run?]
    cases b.perform? env with
    | none => rfl
    | some next => exact ih next

end Env

/-! ## Names in scope -/

/-- An expression in the last statement of a straight-line method. Up to it, all expressions are made
of literals and of names in scope: they have values when the parameters are null. -/
structure Place.Straight (m : Place) (effects : List Place) (last use : Place) : Prop where
  shape : m.effects? = some (effects, last)
  use_mem : use ∈ last.below
  valued : ∃ final v, (m.initially fun _ => none).run? effects = some final ∧
    use.node.value? final = some v

section Within

variable {env env' next next' : Env} {b : Place} {bs : List Place} {name : Text} {v : Value}

theorem lookup_cons {x : Text} : List.lookup name ((x, v) :: env) =
    if name = x then some v else env.lookup name := by
  by_cases h : name = x
  · rw [if_pos h, List.lookup_cons, beq_iff_eq.2 h]
  · rw [if_neg h, List.lookup_cons, beq_eq_false_iff_ne.2 h]

theorem Env.Within.cons (h : env.Within env') (x : Text) (v v' : Value) :
    Env.Within ((x, v) :: env) ((x, v') :: env') := by
  intro name u hu
  rw [lookup_cons] at hu ⊢
  split
  · exact ⟨v', rfl⟩
  · next hne => exact h name u (by rwa [if_neg hne] at hu)

theorem Env.Within.perform? (h : env.Within env') (hb : b.perform? env = some next) :
    ∃ next', b.perform? env' = some next' ∧ next.Within next' := by
  obtain ⟨x, hx, hb⟩ := Option.bind_eq_some_iff.1 hb
  obtain ⟨v, hv, hb⟩ := Option.bind_eq_some_iff.1 hb
  obtain ⟨v', hv'⟩ := Node.value?_of_within h hv
  have hperform : b.perform? env' = b.bind? env' v' := by
    rw [Place.perform?, hx]
    show (x.node.value? env' >>= _) = _
    rw [hv']
    rfl
  rw [hperform]
  unfold Place.bind? at hb ⊢
  split at hb
  · obtain ⟨z, hz, rfl⟩ := Option.map_eq_some_iff.1 hb
    rw [hz]
    exact ⟨_, rfl, h.cons z v v'⟩
  · obtain ⟨z, hz, hb⟩ := Option.bind_eq_some_iff.1 hb
    obtain ⟨old, hold, hb⟩ := Option.bind_eq_some_iff.1 hb
    obtain ⟨old', hold'⟩ := h z old hold
    simp only [hz, hold', Option.bind_eq_bind, Option.bind_some]
    split at hb
    · rw [← Option.some.inj hb]
      exact ⟨_, rfl, h.cons z _ _⟩
    · rw [← Option.some.inj hb]
      exact ⟨_, rfl, h.cons z _ _⟩
    · cases hb
  · cases hb

theorem Env.Within.run? (h : env.Within env') (hrun : env.run? bs = some next) :
    ∃ next', env'.run? bs = some next' ∧ next.Within next' := by
  induction bs generalizing env env' with
  | nil =>
    obtain rfl := Option.some.inj hrun
    exact ⟨env', rfl, h⟩
  | cons b bs ih =>
    obtain ⟨mid, hmid, hrun⟩ := Option.bind_eq_some_iff.1 hrun
    obtain ⟨mid', hmid', h⟩ := h.perform? hmid
    obtain ⟨next', hnext', h⟩ := ih h hrun
    refine ⟨next', ?_, h⟩
    rw [Env.run?, hmid']
    exact hnext'

theorem within_initially (m : Place) (args args' : Text → Value) :
    (m.initially args).Within (m.initially args') := by
  intro name v hv
  rw [Place.initially] at hv ⊢
  generalize m.stringParameters = names at hv ⊢
  induction names with
  | nil => cases hv
  | cons x xs ih =>
    rw [List.map_cons, lookup_cons] at hv ⊢
    split
    · exact ⟨_, rfl⟩
    · next hne => exact ih (by rwa [if_neg hne] at hv)

/-- They have values whatever the parameters are. -/
theorem Place.Straight.run? {m last use : Place} {effects : List Place}
    (h : m.Straight effects last use) (args : Text → Value) :
    ∃ final v, (m.initially args).run? effects = some final ∧ use.node.value? final = some v := by
  obtain ⟨final, v, hrun, hv⟩ := h.valued
  obtain ⟨final', hrun', hwithin⟩ := (within_initially m _ args).run? hrun
  obtain ⟨v', hv'⟩ := Node.value?_of_within hwithin hv
  exact ⟨final', v', hrun', hv'⟩

end Within

/-! ## The order of effects -/

section Effects

variable {m b st last : Place} {effects sts : List Place}

theorem filterMap_of_mapM {α β : Type} {f : α → Option β} {as : List α} {bs : List β}
    (h : as.mapM f = some bs) : as.filterMap f = bs := by
  induction as generalizing bs with
  | nil => exact Option.some.inj h
  | cons a as ih =>
    rw [List.mapM_cons] at h
    obtain ⟨b, hb, h⟩ := Option.bind_eq_some_iff.1 h
    obtain ⟨bs, hbs, h⟩ := Option.bind_eq_some_iff.1 h
    rw [List.filterMap_cons_some hb, ih hbs]
    exact Option.some.inj h

/-- What an effect is: the declaration of a string, or an assignment. -/
structure Place.IsEffect (b : Place) : Prop where
  cases : b.kind = .declarator ∧ (∃ l, b.parent? = some l ∧ l.kind = .localVariables ∧
    l.declaredType? = some stringType) ∨ b.kind = .assignment

theorem Place.IsEffect.binds (h : b.IsEffect) : b.kind.binds = true := by
  rcases h.cases with ⟨hkind, -⟩ | hkind <;> rw [hkind] <;> rfl

theorem Place.effect?_spec (h : st.effect? = some b) : b ∈ st.children ∧ b.IsEffect := by
  unfold effect? at h
  split at h
  · next hst =>
    split at h
    · next htype =>
      have hmem := List.mem_of_find?_eq_some h
      have hkind : b.kind = .declarator := by simpa using List.find?_some h
      have hdeclared : st.declaredType? = some stringType := by
        rw [declaredType?, htype]
        decide
      exact ⟨hmem, ⟨Or.inl ⟨hkind, st, parent?_of_child hmem, hst, hdeclared⟩⟩⟩
    · cases h
  · exact ⟨List.mem_of_find?_eq_some h, ⟨Or.inr (by simpa using List.find?_some h)⟩⟩
  · cases h

/-- A method whose effects come one after the other, then its last statement, with nothing else in it
that declares or changes a variable. -/
structure Flat (m : Place) (effects : List Place) (last : Place) : Prop where
  callable : m.kind.isCallable = true
  regular : m.Regular
  only : m.below.filter (·.kind.binds) = m :: effects
  isEffect : ∀ b ∈ effects, b.IsEffect
  ordered : effects.Pairwise fun a b => a.stop ≤ b.start
  last_mem : last ∈ m.below
  before_last : ∀ b ∈ effects, b.stop ≤ last.start

theorem Flat.mem_below (hflat : Flat m effects last) (hb : b ∈ effects) : b ∈ m.below := by
  have hb : b ∈ m.below.filter (·.kind.binds) := by
    rw [hflat.only]
    exact List.mem_cons_of_mem _ hb
  exact List.mem_of_mem_filter hb

/-- The effects of statements lie below them, in the same order. -/
theorem sublist_filterMap_effect? (sts : List Place) :
    (sts.filterMap Place.effect?).Sublist (sts.flatMap Place.below) := by
  rw [List.filterMap_eq_flatMap_toList]
  refine List.Sublist.flatMap_right _ fun st _ => ?_
  cases hb : st.effect? with
  | none => exact List.nil_sublist _
  | some b => exact List.singleton_sublist.2 (Place.mem_below_of_child (Place.effect?_spec hb).1)

theorem Place.effects?_inv (h : m.effects? = some (effects, last)) :
    m.kind.isCallable = true ∧ (m.below.filter (·.kind.binds)).length = effects.length + 1 ∧
      ∃ body ∈ m.children, ∃ statements : List Place, statements.Sublist body.children ∧
        statements.getLast? = some last ∧ statements.dropLast.mapM Place.effect? = some effects := by
  obtain ⟨body, hbody, h⟩ := Option.bind_eq_some_iff.1 h
  obtain ⟨last', hlast, h⟩ := Option.bind_eq_some_iff.1 h
  obtain ⟨effects', heffects, h⟩ := Option.bind_eq_some_iff.1 h
  split at h
  · next hcount =>
    obtain ⟨rfl, rfl⟩ := Prod.mk.inj (Option.some.inj h)
    simp only [Bool.and_eq_true, decide_eq_true_eq] at hcount
    exact ⟨hcount.1, hcount.2, body, (mem_children_of_child? hbody).1, _, List.filter_sublist, hlast,
      heffects⟩
  · cases h

theorem flat_of_effects? (hregular : m.Regular) (h : m.effects? = some (effects, last)) :
    Flat m effects last := by
  obtain ⟨hcallable, hcount, body, hbody', statements, hsub, hlast, heffects⟩ := Place.effects?_inv h
  have hbody := hregular.child hbody'
  have hsplit : statements.dropLast ++ [last] = statements := List.dropLast_append_getLast? _ hlast
  obtain rfl := filterMap_of_mapM heffects
  have hordered : (statements.dropLast ++ [last]).Pairwise fun a b => a.stop ≤ b.start := by
    rw [hsplit]
    exact hbody.1.pairwise_children.sublist hsub
  obtain ⟨hinit, -, hlast⟩ := List.pairwise_append.1 hordered
  have hinside : ∀ st ∈ statements.dropLast, ∀ b, st.effect? = some b →
      st.start ≤ b.start ∧ b.stop ≤ st.stop := by
    intro st hst b hb
    have hst := (hbody.1.child (hsub.subset (List.dropLast_subset _ hst))).1
    exact (hst.child (Place.effect?_spec hb).1).2
  have heffect : ∀ b ∈ statements.dropLast.filterMap Place.effect?, b.IsEffect := by
    intro b hb
    obtain ⟨st, -, hb⟩ := List.mem_filterMap.1 hb
    exact (Place.effect?_spec hb).2
  refine ⟨hcallable, hregular, ?_, heffect, ?_, ?_, ?_⟩
  · -- the effects are among what binds below the method, and there are as many of these
    have hbelow : (statements.dropLast.filterMap Place.effect?).Sublist
        (m.children.flatMap Place.below) := by
      have hsts : (statements.dropLast.flatMap Place.below).Sublist body.below := by
        rw [Place.below_eq]
        exact ((statements.dropLast_sublist.trans hsub).flatMap _).cons _
      have hbelow : body.below.Sublist (m.children.flatMap Place.below) := by
        simpa using (List.singleton_sublist.2 hbody').flatMap Place.below
      exact (sublist_filterMap_effect? _).trans (hsts.trans hbelow)
    have hfilter := hbelow.filter (·.kind.binds)
    rw [List.filter_eq_self.2 fun b hb => (heffect b hb).binds] at hfilter
    have hself : ∀ l : List Place, (m :: l).filter (·.kind.binds) = m :: l.filter (·.kind.binds) :=
      fun l => List.filter_cons_of_pos (Kind.binds_of_isCallable hcallable)
    rw [Place.below_eq, hself] at hcount ⊢
    rw [hfilter.eq_of_length (by simpa using hcount.symm)]
  · refine List.pairwise_filterMap.2 (hinit.imp_of_mem fun {a c} ha hc hle b hb d hd => ?_)
    have hb := hinside a ha b hb
    have hd := hinside c hc d hd
    omega
  · have hmem : last ∈ statements := by
      rw [← hsplit]
      exact List.mem_append_right _ (List.mem_singleton_self _)
    exact Place.below_trans (Place.mem_below_of_child hbody')
      (Place.mem_below_of_child (hsub.subset hmem))
  · intro b hb
    obtain ⟨st, hst, hb⟩ := List.mem_filterMap.1 hb
    exact Nat.le_trans (hinside st hst b hb).2 (hlast st hst last (List.mem_singleton_self _))

end Effects

/-! ## The value at a position -/

namespace Place

variable {env : Env} {p q r : Place} {u v : Value}

theorem child?_of_node {role : Role} {n : Node} (h : p.node.child? role = some n) :
    p.child? role = some ⟨n, p.node :: p.around⟩ := by
  rw [child?, h]
  rfl

/-- A child that fills its parent is the only one. -/
theorem Regular.eq_of_fills (h : p.Regular) (hq : q ∈ p.children) (hstart : q.start = p.start)
    (hstop : q.stop = p.stop) (hr : r ∈ p.children) : r = q := by
  obtain ⟨hregular, hrstart, hrstop⟩ := h.child hr
  have hspan := hregular.span
  rcases h.child_cases hq hr with rfl | hle | hle
  · rfl
  · omega
  · omega

/-- Expressions with the same span, one below the other, have the same value: only parentheses can
stand between them. -/
theorem value?_eq_of_below (h : q.Regular) (hr : r ∈ q.below) (hstart : r.start = q.start)
    (hstop : r.stop = q.stop) (hu : q.node.value? env = some u) (hv : r.node.value? env = some v) :
    u = v := by
  induction q using induct generalizing u with
  | h q ih =>
    rw [below_eq, List.mem_cons, List.mem_flatMap] at hr
    obtain rfl | ⟨c, hc, hr⟩ := hr
    · exact Option.some.inj (hu.symm.trans hv)
    obtain ⟨hregular, hcstart, hcstop⟩ := h.child hc
    obtain ⟨-, hrstart, hrstop⟩ := hregular.below hr
    have honly : ∀ d ∈ q.children, d = c := fun d hd =>
      h.eq_of_fills hc (by omega) (by omega) hd
    have hroles : ∀ {a b : Role} {m n : Node}, q.node.child? a = some m → q.node.child? b = some n →
        a = b := by
      intro a b m n hm hn
      obtain ⟨hm, hma⟩ := mem_children_of_child? (child?_of_node hm)
      obtain ⟨hn, hnb⟩ := mem_children_of_child? (child?_of_node hn)
      rw [honly _ hm, ← honly _ hn, hnb] at hma
      exact (Option.some.inj hma).symm
    cases Node.evaluates_of_value? hu with
    | literal _ hleaf => simp [children, hleaf] at hc
    | name _ hleaf => simp [children, hleaf] at hc
    | @inside m _ _ hm hv' =>
      have hmem : (⟨m, q.node :: q.around⟩ : Place) ∈ q.children :=
        mem_children_iff.2 ⟨List.mem_of_find?_eq_some hm, rfl⟩
      have hmc : m = c.node := congrArg Place.node (honly _ hmem)
      exact ih c hc hregular hr (by omega) (by omega) (hmc ▸ hv')
    | sum _ _ hl hr' => cases hroles hl hr'
    | signed _ hl _ hr' => cases hroles hl hr'

/-- Expressions at the same position have the same value. -/
theorem value?_unique (h : p.Regular) (hq : q ∈ p.below) (hr : r ∈ p.below)
    (hspan : q.node.span = r.node.span) (hu : q.node.value? env = some u)
    (hv : r.node.value? env = some v) : u = v := by
  have hstart : r.start = q.start := by rw [start, start, hspan]
  have hstop : r.stop = q.stop := by rw [stop, stop, hspan]
  have hqregular := (h.below hq).1
  have hrregular := (h.below hr).1
  have hqspan := hqregular.span
  rcases h.below_cases hq hr with hbelow | hbelow | hle | hle
  · exact (value?_eq_of_below hrregular hbelow hstart.symm hstop.symm hv hu).symm
  · exact value?_eq_of_below hqregular hbelow hstart hstop hu hv
  · omega
  · omega

theorem perform?_inv {b : Place} {next : Env} (h : b.perform? env = some next) :
    ∃ x v, b.operand? = some x ∧ x.node.value? env = some v ∧ b.bind? env v = some next := by
  obtain ⟨x, hx, h⟩ := Option.bind_eq_some_iff.1 h
  obtain ⟨v, hv, h⟩ := Option.bind_eq_some_iff.1 h
  exact ⟨x, v, hx, hv, h⟩

theorem operand?_mem {b x : Place} (h : b.operand? = some x) : x ∈ b.children := by
  unfold operand? at h
  split at h
  · exact (mem_children_of_child? h).1
  · exact (mem_children_of_child? h).1
  · cases h

end Place

/-- An expression that is evaluated after the effects `before`: that of the next effect or, at the
end, the last statement. -/
inductive Entry (initial : Env) (effects : List Place) (last : Place) :
    Place → List Place → Env → Prop
  | operand {before after : List Place} {b x : Place} {env : Env}
      (heffects : effects = before ++ b :: after) (hx : b.operand? = some x)
      (hrun : initial.run? before = some env) : Entry initial effects last x before env
  | last {env : Env} (hrun : initial.run? effects = some env) :
      Entry initial effects last last effects env

namespace Entry

variable {initial env env' : Env} {effects before before' : List Place} {m last x x' q r : Place}
variable {u v : Value}

theorem run (h : Entry initial effects last x before env) : initial.run? before = some env := by
  cases h with
  | operand _ _ hrun => exact hrun
  | last hrun => exact hrun

theorem cons {b : Place} {next : Env} (hb : b.perform? initial = some next)
    (h : Entry next effects last x before env) :
    Entry initial (b :: effects) last x (b :: before) env := by
  have hrun : ∀ bs, initial.run? (b :: bs) = next.run? bs := by
    intro bs
    rw [Env.run?, hb]
    rfl
  cases h with
  | operand heffects hx h =>
    exact .operand (by rw [heffects]; rfl) hx ((hrun _).trans h)
  | last h => exact .last ((hrun _).trans h)

theorem of_mem_history (h : (x, env) ∈ initial.history last effects) :
    ∃ before, Entry initial effects last x before env := by
  induction effects generalizing initial with
  | nil =>
    obtain ⟨rfl, rfl⟩ := Prod.mk.inj (List.mem_singleton.1 h)
    exact ⟨[], .last rfl⟩
  | cons b bs ih =>
    rw [Env.history] at h
    split at h
    · next operand next hoperand hnext =>
      rcases List.mem_cons.1 h with heq | h
      · obtain ⟨rfl, rfl⟩ := Prod.mk.inj heq
        exact ⟨[], .operand rfl hoperand rfl⟩
      · obtain ⟨before, hentry⟩ := ih h
        exact ⟨b :: before, hentry.cons hnext⟩
    · cases h

theorem history_suffix (last : Place) (rest : List Place) (hrun : initial.run? before = some env) :
    env.history last rest <:+ initial.history last (before ++ rest) := by
  induction before generalizing initial with
  | nil =>
    obtain rfl := Option.some.inj hrun
    exact List.suffix_rfl
  | cons b bs ih =>
    obtain ⟨next, hnext, hrun⟩ := Option.bind_eq_some_iff.1 hrun
    obtain ⟨x, v, hx, -⟩ := Place.perform?_inv hnext
    rw [List.cons_append, Env.history, hx, hnext]
    exact (ih hrun).trans (List.suffix_cons _ _)

theorem mem_history {final : Env} (hfinal : initial.run? effects = some final)
    (h : Entry initial effects last x before env) : (x, env) ∈ initial.history last effects := by
  cases h with
  | @operand _ after b _ _ heffects hx hrun =>
    subst heffects
    refine (history_suffix last _ hrun).subset ?_
    rw [Env.run?_append, hrun] at hfinal
    obtain ⟨next, hnext, -⟩ : ∃ next, b.perform? env = some next ∧ next.run? after = some final :=
      Option.bind_eq_some_iff.1 hfinal
    rw [Env.history, hx, hnext]
    exact List.mem_cons_self
  | last hrun =>
    have hsuffix := history_suffix last [] hrun
    rw [List.append_nil] at hsuffix
    exact hsuffix.subset (List.mem_singleton_self _)

/-- Before an expression come the effects that are performed before it, and the others end after it. -/
theorem divides (hflat : Flat m effects last) (h : Entry initial effects last x before env) :
    x ∈ m.below ∧ ∃ after, effects = before ++ after ∧ (∀ b ∈ before, b.stop ≤ x.start) ∧
      ∀ c ∈ after, x.stop ≤ c.stop := by
  cases h with
  | @operand _ after b _ _ heffects hx hrun =>
    have hx := Place.operand?_mem hx
    have hb : b ∈ effects := by
      rw [heffects]
      exact List.mem_append_right _ List.mem_cons_self
    have hbregular := (hflat.regular.below (hflat.mem_below hb)).1
    obtain ⟨-, hstart, hstop⟩ := hbregular.child hx
    have hordered := hflat.ordered
    rw [heffects] at hordered
    obtain ⟨-, hafter, hbefore⟩ := List.pairwise_append.1 hordered
    refine ⟨Place.below_trans (hflat.mem_below hb) (Place.mem_below_of_child hx), _, heffects, ?_, ?_⟩
    · intro a ha
      have hle := hbefore a ha b List.mem_cons_self
      omega
    · intro c hc
      rcases List.mem_cons.1 hc with rfl | hc'
      · exact hstop
      · have hle := List.rel_of_pairwise_cons hafter hc'
        have hc : c ∈ effects := heffects ▸ List.mem_append_right _ hc
        have hspan := (hflat.regular.below (hflat.mem_below hc)).1.span
        have hbspan := hbregular.span
        omega
  | last hrun =>
    exact ⟨hflat.last_mem, [], (List.append_nil _).symm, hflat.before_last,
      fun c hc => absurd hc List.not_mem_nil⟩

theorem eq_of_before (h : Entry initial effects last x before env)
    (h' : Entry initial effects last x' before env') : x = x' ∧ env = env' := by
  have henv : env = env' := Option.some.inj (h.run.symm.trans h'.run)
  refine ⟨?_, henv⟩
  cases h with
  | operand heffects hx _ =>
    cases h' with
    | operand heffects' hx' _ =>
      have hb := (List.cons.inj (List.append_cancel_left (heffects.symm.trans heffects'))).1
      rw [hb] at hx
      exact Option.some.inj (hx.symm.trans hx')
    | last _ => simp at heffects
  | last _ =>
    cases h' with
    | operand heffects' _ _ => simp at heffects'
    | last _ => rfl

/-- Of two expressions that are evaluated at different times, one ends before the other starts. -/
theorem apart (hflat : Flat m effects last) (h : Entry initial effects last x before env)
    (h' : Entry initial effects last x' before' env') :
    before = before' ∨ x.stop ≤ x'.start ∨ x'.stop ≤ x.start := by
  obtain ⟨-, after, heffects, hbefore, hafter⟩ := h.divides hflat
  obtain ⟨-, after', heffects', hbefore', hafter'⟩ := h'.divides hflat
  rcases List.append_eq_append_iff.1 (heffects.symm.trans heffects') with ⟨mid, hb, ha⟩ | ⟨mid, hb, ha⟩
  · cases mid with
    | nil => exact Or.inl (by rw [hb, List.append_nil])
    | cons c mid =>
      have hc := hafter c (by rw [ha]; exact List.mem_cons_self)
      have hc' := hbefore' c (by rw [hb]; exact List.mem_append_right _ List.mem_cons_self)
      exact Or.inr (Or.inl (by omega))
  · cases mid with
    | nil => exact Or.inl (by rw [hb, List.append_nil])
    | cons c mid =>
      have hc := hafter' c (by rw [ha]; exact List.mem_cons_self)
      have hc' := hbefore c (by rw [hb]; exact List.mem_append_right _ List.mem_cons_self)
      exact Or.inr (Or.inr (by omega))

/-- What is noted for a position is the value of the expression there. -/
theorem lookup_values {final : Env} (hflat : Flat m effects last)
    (hfinal : initial.run? effects = some final) (h : Entry initial effects last x before env)
    (hq : q ∈ x.below) (hv : q.node.value? env = some v) :
    (initial.values effects last).lookup q.written = some v := by
  have hmem : (q.written, v) ∈ initial.values effects last :=
    List.mem_flatMap.2 ⟨(x, env), h.mem_history hfinal,
      List.mem_filterMap.2 ⟨q, hq, by rw [hv]; rfl⟩⟩
  have hunique : ∀ u, (q.written, u) ∈ initial.values effects last → u = v := by
    intro u hu
    obtain ⟨⟨x', env'⟩, hx', hu⟩ := List.mem_flatMap.1 hu
    obtain ⟨r, hr, hu⟩ := List.mem_filterMap.1 hu
    obtain ⟨u', hu', heq⟩ := Option.map_eq_some_iff.1 hu
    obtain ⟨hwritten, rfl⟩ := Prod.mk.inj heq
    obtain ⟨before', h'⟩ := of_mem_history hx'
    have hspan : r.node.span = q.node.span := congrArg Written.span hwritten
    have hstart : r.start = q.start := congrArg Span.start hspan
    have hregular := (hflat.regular.below (h.divides hflat).1).1
    have hregular' := (hflat.regular.below (h'.divides hflat).1).1
    obtain ⟨hqregular, hqstart, hqstop⟩ := hregular.below hq
    obtain ⟨hrregular, hrstart, hrstop⟩ := hregular'.below hr
    have hqspan := hqregular.span
    have hrspan := hrregular.span
    rcases h.apart hflat h' with rfl | hle | hle
    · obtain ⟨rfl, rfl⟩ := h.eq_of_before h'
      exact Place.value?_unique hregular hr hq hspan hu' hv
    · omega
    · omega
  cases hlookup : (initial.values effects last).lookup q.written with
  | none => exact absurd hmem (fun hmem => by simpa using List.lookup_eq_none_iff.1 hlookup _ hmem)
  | some u =>
    obtain ⟨l₁, l₂, hsplit, -⟩ := List.lookup_eq_some_iff.1 hlookup
    rw [hunique u (by rw [hsplit]; exact List.mem_append_right _ List.mem_cons_self)]

end Entry

end SqlInjection.Java
