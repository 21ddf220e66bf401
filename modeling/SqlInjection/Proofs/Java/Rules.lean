import SqlInjection.Proofs.Java.Walk

/-!
# The rules of the language keep the order of the source

Every rule makes nodes that stand in the order of the source. The proof for a rule names the nodes
it reads, line by line as the rule does, and ends with the node around them. `tidy_grammar` puts the
rules together: all parts that hold one another are read in order, however deep they are nested.
-/

namespace SqlInjection.Java

open Parse

variable {page : Page} {g : Grammar}

/-- All readers of a grammar keep the order of the source. -/
structure Grammar.Tidy (page : Page) (g : Grammar) : Prop where
  expression : ∀ slot, Java.Tidy page true single (g.expression slot)
  statement : Java.Tidy page true (each single) g.statement
  block : Java.Tidy page true single g.block
  classBody : Java.Tidy page true single g.classBody
  declaration : Java.Tidy page true single g.declaration
  type : Java.Tidy page true single g.type
  elementValue : Java.Tidy page true single g.elementValue

/-! ## Names -/

theorem tidy_identifier : Tidy page true single identifier := .leaf rfl

theorem tidy_qualifiedName : Tidy page true single qualifiedName :=
  .from_peek fun _ _ hs hstart =>
    .bind hs tidy_identifier fun _ =>
    .extend rfl fun _ =>
    .bind hs .symbol fun _ =>
    .bind hs (tidy_identifier.as .name (by decide)) fun _ =>
    .close hs hstart (by simp) rfl

/-! ## Annotations -/

theorem tidy_elementPair (hg : g.Tidy page) : Tidy page true single (elementPair g) :=
  .from_peek fun _ _ hs hstart =>
    .bind hs (tidy_identifier.as .key (by decide)) fun _ =>
    .bind hs .symbol fun _ =>
    .bind hs (hg.elementValue.as .value (by decide)) fun _ =>
    .close hs hstart (by simp) rfl

theorem tidy_annotationElements (hg : g.Tidy page) :
    Tidy page false (each single) (annotationElements g) :=
  .orElse (.weaken (.separated (tidy_elementPair hg)))
    (.orElse (.weaken (hg.elementValue.bind fun _ _ _ => .pure rfl)) (.pure rfl))

theorem tidy_annotationArguments (hg : g.Tidy page) :
    Tidy page true (singleAs .arguments) (annotationArguments g) :=
  .from_peek fun _ _ hs hstart =>
    .bind hs .symbol fun _ =>
    .bind hs (tidy_annotationElements hg) fun _ =>
    .bind hs .symbol fun _ =>
    .closeAs hs hstart (fun _ => rfl) (by simp) rfl

theorem tidy_annotationOf (hg : g.Tidy page) : Tidy page true single (annotationOf g) :=
  .from_peek fun _ _ hs hstart =>
    .bind hs .symbol fun _ =>
    .bind hs (tidy_qualifiedName.as .name (by decide)) fun _ =>
    .bind hs (.optional (tidy_annotationArguments hg)) fun
      | some _ => .close hs hstart (by simp) rfl
      | none => .close hs hstart (by simp) rfl

theorem tidy_elementValueOf (hg : g.Tidy page) : Tidy page true single (elementValueOf g) :=
  .from_peek fun _ _ hs hstart =>
    .ite
      (.bind hs .symbol fun _ =>
        .bind hs (.orEmpty (.separated hg.elementValue) rfl) fun _ =>
        .bind hs (.drop (.optional .symbol)) fun _ =>
        .bind hs .symbol fun _ =>
        .close hs hstart (by simp) rfl)
      (.last hs (.orElse (tidy_annotationOf hg) (hg.expression _)))

theorem tidy_modifierWord : Tidy page true nothing modifierWord :=
  .orElse (Tidy.takeIf.bind fun _ _ _ => .pure rfl)
    (Tidy.word.bind fun _ _ hs =>
      .bind hs .symbol fun _ =>
      .last hs .word)

theorem tidy_modifiers (hg : g.Tidy page) : Tidy page true single (modifiers g) :=
  have hone : Tidy page true (ofOption single)
      ((some <$> annotationOf g) <|> (do modifierWord; pure none)) :=
    .orElse (.map (tidy_annotationOf hg) fun _ => rfl)
      (tidy_modifierWord.bind fun _ _ _ => .pure rfl)
  .from_peek fun _ _ hs hstart =>
    .bind hs (.some1 hone) fun _ =>
    .close hs hstart (by simp) rfl

/-! ## Types -/

theorem tidy_wildcard (hg : g.Tidy page) : Tidy page true single (wildcard g) :=
  .from_peek fun _ _ hs hstart =>
    .bind hs (.many (tidy_annotationOf hg)) fun _ =>
    .bind hs .symbol fun _ =>
    .bind hs (.maybe (.seqRight (.orElse .word .word) hg.type)) fun _ =>
    .close hs hstart (by simp) rfl

theorem tidy_typeArguments (hg : g.Tidy page) : Tidy page true single (typeArguments g) :=
  .from_peek fun _ _ hs hstart =>
    .bind hs .symbol fun _ =>
    .bind hs (.orEmpty (.separated (.orElse (tidy_wildcard hg) hg.type)) rfl) fun _ =>
    .bind hs .symbol fun _ =>
    .close hs hstart (by simp) rfl

theorem tidy_namedType (hg : g.Tidy page) : Tidy page true single (namedType g) :=
  have hmore : Tidy page true (each single) (do
      symbol "."
      let annotations ← many (annotationOf g)
      let _ ← identifier
      let arguments ← maybe (typeArguments g)
      pure (annotations ++ arguments)) :=
    Tidy.symbol.bind fun _ _ hs =>
      .bind hs (.many (tidy_annotationOf hg)) fun _ =>
      .bind hs (.drop tidy_identifier) fun _ =>
      .bind hs (.maybe (tidy_typeArguments hg)) fun _ =>
      .pure (by simp)
  .from_peek fun _ _ hs hstart =>
    .bind hs (.drop tidy_identifier) fun _ =>
    .bind hs (.maybe (tidy_typeArguments hg)) fun _ =>
    .bind hs (.many hmore) fun _ =>
    .close hs hstart (by simp) rfl

theorem tidy_simpleType (hg : g.Tidy page) : Tidy page true single (simpleType g) :=
  .orElse (.leaf rfl) (tidy_namedType hg)

theorem tidy_dimensions (hg : g.Tidy page) : Tidy page true single (dimensions g) :=
  have hpair : Tidy page true (each single) (do
      let annotations ← many (annotationOf g)
      symbol "["
      symbol "]"
      pure annotations) :=
    .bind (.many (tidy_annotationOf hg)) fun _ _ hs =>
      .bind hs .symbol fun _ =>
      .bind hs .symbol fun _ =>
      .pure (by simp)
  .from_peek fun _ _ hs hstart =>
    .bind hs (.some1 hpair) fun _ =>
    .close hs hstart (by simp) rfl

theorem tidy_plainType (hg : g.Tidy page) : Tidy page true single (plainType g) :=
  .from_peek fun _ _ hs hstart =>
    .bind hs (tidy_simpleType hg) fun _ =>
    .bind hs (.optional (tidy_dimensions hg)) fun
      | some _ => .close hs hstart (by simp) rfl
      | none => .pure rfl

theorem tidy_typeOf (hg : g.Tidy page) : Tidy page true single (typeOf g) :=
  .from_peek fun _ _ hs hstart =>
    .bind hs (.many (tidy_annotationOf hg)) fun
      | [] => .last hs (tidy_plainType hg)
      | _ :: _ =>
        .bind hs (tidy_plainType hg) fun _ =>
        .close hs hstart (by simp) rfl

theorem tidy_typeParameter (hg : g.Tidy page) : Tidy page true single (typeParameter g) :=
  .from_peek fun _ _ hs hstart =>
    .bind hs (.many (tidy_annotationOf hg)) fun _ =>
    .bind hs (.drop tidy_identifier) fun _ =>
    .bind hs (.orEmpty (.seqRight .word (.separated hg.type)) rfl) fun _ =>
    .close hs hstart (by simp) rfl

theorem tidy_typeParameters (hg : g.Tidy page) : Tidy page true single (typeParameters g) :=
  .from_peek fun _ _ hs hstart =>
    .bind hs .symbol fun _ =>
    .bind hs (.separated (tidy_typeParameter hg)) fun _ =>
    .bind hs .symbol fun _ =>
    .close hs hstart (by simp) rfl

theorem tidy_typesAfter (hg : g.Tidy page) (w : String) : Tidy page true single (typesAfter g w) :=
  .from_peek fun _ _ hs hstart =>
    .bind hs .word fun _ =>
    .bind hs (.separated hg.type) fun _ =>
    .close hs hstart (by simp) rfl

/-! ## Declared names and parameters -/

theorem tidy_declaredName (hg : g.Tidy page) : Tidy page true (each single) (declaredName g) :=
  .bind (tidy_identifier.as .name (by decide)) fun _ _ hs =>
    .bind hs (.maybe (tidy_dimensions hg)) fun _ =>
    .pure (by simp)

theorem tidy_initializer (hg : g.Tidy page) (fuel : Nat) :
    ∀ slot, Tidy page true single (initializer g fuel slot) := by
  induction fuel with
  | zero => exact fun _ => .failure
  | succ fuel ih =>
    exact fun slot => .from_peek fun _ _ hs hstart =>
      .ite
        (.bind hs .symbol fun _ =>
          .bind hs (.orEmpty (.separatedFrom (ih _) (ih _)) rfl) fun _ =>
          .bind hs (.drop (.optional .symbol)) fun _ =>
          .bind hs .symbol fun _ =>
          .close hs hstart (by simp) rfl)
        (.last hs (hg.expression slot))

theorem tidy_initialValue (hg : g.Tidy page) (slot : Slot) :
    Tidy page true single (initialValue g slot) :=
  fun ts => tidy_initializer hg ts.length slot ts

theorem tidy_declarator (hg : g.Tidy page) : Tidy page true single (declarator g) :=
  .from_peek fun _ _ hs hstart =>
    .bind hs (tidy_declaredName hg) fun _ =>
    .bind hs (.maybe ((Tidy.seqRight .symbol (tidy_initialValue hg .final)).as .value (by decide)))
      fun _ =>
    .close hs hstart (by simp) rfl

theorem tidy_declarators (hg : g.Tidy page) : Tidy page true (each single) (declarators g) :=
  .bind (.separated ((tidy_declarator hg).as .declarator (by decide))) fun _ _ _ => .pure (by simp)

theorem tidy_parameter (hg : g.Tidy page) : Tidy page true single (parameter g) :=
  .from_peek fun _ _ hs hstart =>
    .bind hs (.maybe (tidy_modifiers hg)) fun _ =>
    .bind hs ((tidy_plainType hg).as .type (by decide)) fun _ =>
    .bind hs (tidy_declaredName hg) fun _ =>
    .close hs hstart (by simp) rfl

theorem tidy_spreadParameter (hg : g.Tidy page) : Tidy page true single (spreadParameter g) :=
  .from_peek fun _ _ hs hstart =>
    .bind hs (.maybe (tidy_modifiers hg)) fun _ =>
    .bind hs (tidy_plainType hg) fun _ =>
    .bind hs .symbol fun _ =>
    .bind hs (.many (tidy_annotationOf hg)) fun _ =>
    .bind hs (tidy_declarator hg) fun _ =>
    .close hs hstart (by simp) rfl

theorem tidy_receiverParameter (hg : g.Tidy page) : Tidy page true single (receiverParameter g) :=
  have hscope : Tidy page true single (do let n ← identifier; symbol "."; pure n) :=
    tidy_identifier.bind fun _ _ hs =>
      .bind hs .symbol fun _ =>
      .pure rfl
  .from_peek fun _ _ hs hstart =>
    .bind hs (.many (tidy_annotationOf hg)) fun _ =>
    .bind hs (tidy_plainType hg) fun _ =>
    .bind hs (.many hscope) fun _ =>
    .bind hs .word fun _ =>
    .close hs hstart (by simp) rfl

theorem tidy_parameterList (hg : g.Tidy page) : Tidy page true single (parameterList g) :=
  have hone := Tidy.orElse (tidy_receiverParameter hg)
    (.orElse (tidy_parameter hg) (tidy_spreadParameter hg))
  .from_peek fun _ _ hs hstart =>
    .bind hs .symbol fun _ =>
    .bind hs (.orEmpty (.separated hone) rfl) fun _ =>
    .bind hs .symbol fun _ =>
    .close hs hstart (by simp) rfl

theorem tidy_inferredParameters : Tidy page true single inferredParameters :=
  .from_peek fun _ _ hs hstart =>
    .bind hs .symbol fun _ =>
    .bind hs (.separated tidy_identifier) fun _ =>
    .bind hs .symbol fun _ =>
    .close hs hstart (by simp) rfl

/-! ## Literals and arguments -/

theorem tidy_stringLiteral (hg : g.Tidy page) : Tidy page true single (stringLiteral g) :=
  have hmore : Tidy page true single
      (do let _ ← takeIf (·.kind == .stringMiddle); g.expression .inner) :=
    Tidy.takeIf.bind fun _ _ hs => .last hs (hg.expression _)
  .orElse (.leaf rfl) (.from_peek fun _ _ hs hstart =>
    .bind hs .takeIf fun _ =>
    .bind hs (hg.expression _) fun _ =>
    .bind hs (.many hmore) fun _ =>
    .bind hs .takeIf fun _ =>
    .close hs hstart (by simp) rfl)

theorem tidy_literal (hg : g.Tidy page) : Tidy page true single (literal g) :=
  .orElse (tidy_stringLiteral hg) (.orElse (.leaf rfl) (.orElse (.leaf rfl) (.orElse (.leaf rfl)
    (.orElse (.leaf rfl) (.leaf rfl)))))

theorem tidy_argumentList (hg : g.Tidy page) :
    Tidy page true (singleAs .arguments) (argumentList g) :=
  .from_peek fun _ _ hs hstart =>
    .bind hs .symbol fun _ =>
    .bind hs (.orEmpty (.separatedFrom (hg.expression _) (hg.expression _)) rfl) fun _ =>
    .bind hs .symbol fun _ =>
    .closeAs hs hstart (fun _ => rfl) (by simp) rfl

theorem tidy_parenthesized (hg : g.Tidy page) : Tidy page true single (parenthesized g) :=
  .from_peek fun _ _ hs hstart =>
    .bind hs .symbol fun _ =>
    .bind hs (hg.expression _) fun _ =>
    .bind hs .symbol fun _ =>
    .closeOperator hs hstart rfl ⟨nofun, nofun, nofun, fun _ => rfl⟩

/-! ## Creations -/

theorem tidy_creationParts (hg : g.Tidy page) : Tidy page true (each single) (creationParts g) :=
  .bind (.maybe (tidy_typeArguments hg)) fun _ _ hs =>
    .bind hs (.many (tidy_annotationOf hg)) fun _ =>
    .bind hs ((tidy_simpleType hg).as .type (by decide)) fun _ =>
    .bind hs (tidy_argumentList hg) fun _ =>
    .bind hs (.maybe hg.classBody) fun _ =>
    .pure (by simp)

theorem tidy_arrayParts (hg : g.Tidy page) : Tidy page true (each single) (arrayParts g) :=
  have hsize : Tidy page true single
      (do symbol "["; let size ← g.expression .inner; symbol "]"; pure size) :=
    Tidy.symbol.bind fun _ _ hs =>
      .bind hs (hg.expression _) fun _ =>
      .bind hs .symbol fun _ =>
      .pure rfl
  .bind (.many (tidy_annotationOf hg)) fun _ _ hs =>
    .bind hs ((tidy_simpleType hg).as .type (by decide)) fun _ =>
    .bind hs (.orElse
      (.of_builds fun _ hs =>
        .bind hs (.some1 hsize) fun _ =>
        .bind hs (.maybe (tidy_dimensions hg)) fun _ =>
        .pure (by rw [each_single, each_single, each_single]; rfl))
      (.of_builds fun _ hs =>
        .bind hs (tidy_dimensions hg) fun _ =>
        .bind hs ((tidy_initialValue hg .final).as .value (by decide)) fun _ =>
        .pure (each_single _))) fun _ =>
    .pure (by simp)

theorem tidy_creation (hg : g.Tidy page) : Tidy page true single (creation g) :=
  .from_peek fun _ _ hs hstart =>
    .bind hs .word fun _ =>
    .orElse
      (.bind hs (tidy_creationParts hg) fun _ => .close hs hstart (by simp) rfl)
      (.bind hs (tidy_arrayParts hg) fun _ => .close hs hstart (by simp) rfl)

/-! ## Switches -/

theorem tidy_patternPart (hg : g.Tidy page) (fuel : Nat) :
    Tidy page true single (patternPart g fuel) := by
  induction fuel with
  | zero => exact .failure
  | succ fuel ih =>
    refine .orElse (.from_peek fun _ _ hs hstart => ?_)
      (.orElse (.from_peek fun _ _ hs hstart => ?_) (.leaf rfl))
    · exact .bind hs (tidy_namedType hg) fun _ =>
        .bind hs .symbol fun _ =>
        .bind hs (.orEmpty (.separated ih) rfl) fun _ =>
        .bind hs .symbol fun _ =>
        .close hs hstart (by simp) rfl
    · exact .bind hs (tidy_plainType hg) fun _ =>
        .bind hs tidy_identifier fun _ =>
        .close hs hstart (by simp) rfl

theorem tidy_recordPattern (hg : g.Tidy page) : Tidy page true single (recordPattern g) := by
  intro us
  refine Tidy.from_peek (fun _ _ hs hstart => ?_) us
  exact .bind hs (tidy_namedType hg) fun _ =>
    .bind hs .symbol fun _ =>
    .bind hs (.orEmpty (.separated (tidy_patternPart hg us.length)) rfl) fun _ =>
    .bind hs .symbol fun _ =>
    .close hs hstart (by simp) rfl

theorem tidy_typePattern (hg : g.Tidy page) : Tidy page true single (typePattern g) :=
  .from_peek fun _ _ hs hstart =>
    .bind hs (tidy_plainType hg) fun _ =>
    .bind hs (.leaf rfl) fun _ =>
    .close hs hstart (by simp) rfl

theorem tidy_labelEnd : Tidy page false nothing labelEnd :=
  .from_peek fun _ _ _ _ => .ite (.pure rfl) .failure

theorem tidy_guardClause (hg : g.Tidy page) : Tidy page true single (guardClause g) :=
  .from_peek fun _ _ hs hstart =>
    .bind hs .word fun _ =>
    .bind hs (hg.expression _) fun _ =>
    .close hs hstart (by simp) rfl

theorem tidy_switchLabel (hg : g.Tidy page) : Tidy page true single (switchLabel g) :=
  have hvalue : Tidy page true (ofOption single)
      ((some <$> g.expression .label) <|> (do word "default"; pure none)) :=
    .orElse (.map (hg.expression _) fun _ => rfl) (Tidy.word.bind fun _ _ _ => .pure rfl)
  have hchildren : Tidy page true (each single) ((do
      word "case"
      let pattern ← recordPattern g <|> typePattern g
      let guards ← maybe (guardClause g)
      labelEnd
      pure (pattern :: guards)) <|> (do
      word "case"
      let values ← separated "," ((some <$> g.expression .label) <|> (do word "default"; pure none))
      let guards ← maybe (guardClause g)
      labelEnd
      pure (values.filterMap id ++ guards)) <|> (do word "default"; pure [])) :=
    .orElse
      (Tidy.word.bind fun _ _ hs =>
        .bind hs (.orElse (tidy_recordPattern hg) (tidy_typePattern hg)) fun _ =>
        .bind hs (.maybe (tidy_guardClause hg)) fun _ =>
        .bind hs tidy_labelEnd fun _ =>
        .pure (by simp))
      (.orElse
        (Tidy.word.bind fun _ _ hs =>
          .bind hs (.separated hvalue) fun _ =>
          .bind hs (.maybe (tidy_guardClause hg)) fun _ =>
          .bind hs tidy_labelEnd fun _ =>
          .pure (by simp))
        (Tidy.word.bind fun _ _ _ => .pure rfl))
  .from_peek fun _ _ hs hstart =>
    .bind hs hchildren fun _ =>
    .close hs hstart (by simp) rfl

theorem tidy_throwStatement (hg : g.Tidy page) : Tidy page true single (throwStatement g) :=
  .from_peek fun _ _ hs hstart =>
    .bind hs .word fun _ =>
    .bind hs (hg.expression _) fun _ =>
    .bind hs .symbol fun _ =>
    .close hs hstart (by simp) rfl

theorem tidy_expressionStatement (hg : g.Tidy page) :
    Tidy page true single (expressionStatement g) :=
  .from_peek fun _ _ hs hstart =>
    .bind hs (hg.expression _) fun _ =>
    .bind hs .symbol fun _ =>
    .close hs hstart (by simp) rfl

theorem tidy_switchRule (hg : g.Tidy page) : Tidy page true single (switchRule g) :=
  .from_peek fun _ _ hs hstart =>
    .bind hs (tidy_switchLabel hg) fun _ =>
    .bind hs .symbol fun _ =>
    .bind hs (.orElse (tidy_throwStatement hg) (.orElse hg.block (tidy_expressionStatement hg)))
      fun _ =>
    .close hs hstart (by simp) rfl

theorem tidy_switchGroup (hg : g.Tidy page) : Tidy page true single (switchGroup g) :=
  have hlabel : Tidy page true single (do let l ← switchLabel g; symbol ":"; pure l) :=
    (tidy_switchLabel hg).bind fun _ _ hs =>
      .bind hs .symbol fun _ =>
      .pure rfl
  .from_peek fun _ _ hs hstart =>
    .bind hs (.some1 hlabel) fun _ =>
    .bind hs (.many hg.statement) fun _ =>
    .close hs hstart (by simp) rfl

theorem tidy_switchBlock (hg : g.Tidy page) : Tidy page true single (switchBlock g) :=
  .from_peek fun _ _ hs hstart =>
    .bind hs .symbol fun _ =>
    .bind hs (.orElse (.weaken (.some1 (tidy_switchRule hg))) (.many (tidy_switchGroup hg))) fun _ =>
    .bind hs .symbol fun _ =>
    .close hs hstart (by simp) rfl

theorem tidy_switchOf (hg : g.Tidy page) : Tidy page true single (switchOf g) :=
  .from_peek fun _ _ hs hstart =>
    .bind hs .word fun _ =>
    .bind hs (tidy_parenthesized hg) fun _ =>
    .bind hs ((tidy_switchBlock hg).as .body (by decide)) fun _ =>
    .close hs hstart (by simp) rfl

/-! ## Primary expressions -/

theorem tidy_referenceTarget (hg : g.Tidy page) :
    Tidy page true (each single) (referenceTarget g) :=
  have hname : Tidy page true (each single)
      ((do word "new"; pure []) <|> (do let n ← identifier; pure [n])) :=
    .orElse (Tidy.word.bind fun _ _ _ => .pure rfl) (tidy_identifier.bind fun _ _ _ => .pure rfl)
  Tidy.symbol.bind fun _ _ hs =>
    .bind hs (.maybe (tidy_typeArguments hg)) fun _ =>
    .bind hs hname fun _ =>
    .pure (by simp)

theorem tidy_typeExpression (hg : g.Tidy page) : Tidy page true single (typeExpression g) :=
  .from_peek fun _ _ hs hstart =>
    .bind hs (tidy_plainType hg) fun _ =>
    .orElse
      (.bind hs (tidy_referenceTarget hg) fun _ => .close hs hstart (by simp) rfl)
      (.bind hs .symbol fun _ =>
        .bind hs .word fun _ =>
        .close hs hstart (by simp) rfl)

theorem tidy_nameOrCall (hg : g.Tidy page) : Tidy page true single (nameOrCall g) :=
  .from_peek fun _ _ hs hstart =>
    .bind hs tidy_identifier fun name =>
    .bind hs (.optional (tidy_argumentList hg)) fun
      | some _ => .recast [] name _ .name (by decide) rfl (.close hs hstart rfl rfl)
      | none => .pure rfl

section Members

variable {ts : List Token} {start : Token} {object : Node}

theorem builds_memberOf (hg : g.Tidy page) (hs : Stream page ts) (hstart : ts.head? = some start)
    (between : List Node) :
    Builds page ts true (object.playing .object :: between) true single
      (memberOf g start object between) :=
  .bind hs (.maybe (tidy_typeArguments hg)) fun arguments =>
  .bind hs tidy_identifier fun name =>
  .bind hs (.optional (tidy_argumentList hg)) fun
    | some actual =>
      .recast (object.playing .object :: between ++ arguments) name [actual.playing .arguments] .name
        (by decide) (by simp) (.close hs hstart (by simp) rfl)
    | none =>
      .iteOf (fun hnone =>
        .recast (object.playing .object :: between) name [] .field (by decide)
          (by simp [List.isEmpty_iff.1 hnone]) (.close hs hstart (by simp) rfl))
        .failure

theorem builds_afterPoint (hg : g.Tidy page) (hs : Stream page ts) (hstart : ts.head? = some start) :
    Builds page ts true [object] true single (afterPoint g start object) :=
  .orElse (.recast [] object [] .object (by decide) rfl (builds_memberOf hg hs hstart []))
    (.orElse
      (.recast [] object [] .object (by decide) rfl
        (.bind hs (.leaf rfl) fun above =>
          .bind hs .symbol fun _ =>
          builds_memberOf hg hs hstart [above]))
      (.orElse
        (.recast [] object [] .object (by decide) rfl
          (.bind hs (Tidy.as (.leaf rfl) .field (by decide)) fun _ => .close hs hstart rfl rfl))
        (.orElse
          (.bind hs .word fun _ =>
            .bind hs (tidy_creationParts hg) fun _ =>
            .close hs hstart (by simp) rfl)
          (.orElse
            (.bind hs .word fun _ => .close hs hstart rfl rfl)
            (.bind hs (tidy_stringLiteral hg) fun _ => .close hs hstart rfl rfl)))))

theorem builds_primaryStep (hg : g.Tidy page) (hs : Stream page ts) (hstart : ts.head? = some start) :
    Builds page ts true [object] true single (primaryStep g start object) :=
  .orElse
    (.bind hs .symbol fun _ => builds_afterPoint hg hs hstart)
    (.orElse
      (.bind hs .symbol fun _ =>
        .bind hs (hg.expression _) fun _ =>
        .bind hs .symbol fun _ =>
        .close hs hstart rfl rfl)
      (.bind hs (tidy_referenceTarget hg) fun _ => .close hs hstart (by simp) rfl))

end Members

theorem tidy_superMember (hg : g.Tidy page) : Tidy page true single (superMember g) :=
  .from_peek fun _ _ hs hstart =>
    .bind hs (.leaf rfl) fun above =>
    .orElse
      (.bind hs .symbol fun _ =>
        .recast [] above [] .object (by decide) rfl (builds_memberOf hg hs hstart []))
      (.bind hs (tidy_referenceTarget hg) fun _ => .close hs hstart (by simp) rfl)

theorem tidy_primary (hg : g.Tidy page) : Tidy page true single (primary g) :=
  have hfirst := Tidy.orElse (tidy_literal hg) (.orElse (tidy_typeExpression hg)
    (.orElse (tidy_nameOrCall hg) (.orElse (.leaf rfl) (.orElse (tidy_superMember hg)
      (.orElse (tidy_creation hg) (tidy_parenthesized hg))))))
  .from_peek fun _ _ hs hstart =>
    .bind hs hfirst fun _ =>
    .extend rfl fun _ => builds_primaryStep hg hs hstart

/-! ## Operators and operands -/

theorem tidy_operatorText : Tidy page true nothing operatorText :=
  Tidy.takeIf.bind fun _ _ hs =>
    .ite
      (.bind hs (.extend (fun (_, _) => Tidy.takeIf.bind fun _ _ _ => .pure rfl) _) fun (_, _) =>
        .pure rfl)
      (.pure rfl)

theorem tidy_operatorAmong (operators : List String) :
    Tidy page true nothing (operatorAmong operators) :=
  tidy_operatorText.bind fun _ _ _ => .ite (.pure rfl) .failure

theorem tidy_lambdaParameters (hg : g.Tidy page) : Tidy page true single (lambdaParameters g) :=
  .orElse tidy_identifier (.orElse tidy_inferredParameters (tidy_parameterList hg))

theorem tidy_lambda (hg : g.Tidy page) : Tidy page true single (lambda g) :=
  .from_peek fun _ _ hs hstart =>
    .bind hs ((tidy_lambdaParameters hg).as .parameters (by decide)) fun _ =>
    .bind hs .symbol fun _ =>
    .bind hs ((Tidy.orElse hg.block (hg.expression _)).as .body (by decide)) fun _ =>
    .close hs hstart rfl rfl

theorem tidy_castEnd (types : List Node) : Tidy page false nothing (castEnd types) :=
  .from_peek fun _ _ _ _ => .ite (.pure rfl) .failure

theorem tidy_castOf (hg : g.Tidy page) {operand : Parse Node} (h : Tidy page true single operand) :
    Tidy page true single (castOf g operand) :=
  .from_peek fun _ _ hs hstart =>
    .bind hs .symbol fun _ =>
    .bind hs (.separated (hg.type.as .type (by decide))) fun _ =>
    .bind hs .symbol fun _ =>
    .bind hs (tidy_castEnd _) fun _ =>
    .bind hs (h.as .value (by decide)) fun _ =>
    .close hs hstart (by simp) rfl

theorem tidy_signedCastEnd (slot : Slot) : Tidy page false nothing (signedCastEnd slot) :=
  .from_peek fun _ _ _ _ => .ite .failure (by
    cases slot with
    | inner => exact .pure rfl
    | final => exact .ite (.pure rfl) .failure
    | operand => exact .failure
    | label => exact .failure)

theorem tidy_signedCastOf (hg : g.Tidy page) (slot : Slot) {operand : Parse Node}
    (h : Tidy page true single operand) : Tidy page true single (signedCastOf g slot operand) :=
  .from_peek fun _ _ hs hstart =>
    .bind hs .symbol fun _ =>
    .bind hs ((tidy_namedType hg).as .type (by decide)) fun _ =>
    .bind hs .symbol fun _ =>
    .bind hs .peek fun _ =>
    .ite
      (.bind hs (h.as .value (by decide)) fun _ =>
        .bind hs (tidy_signedCastEnd slot) fun _ =>
        .close hs hstart rfl rfl)
      .failure

theorem builds_afterPrimary (hg : g.Tidy page) {ts : List Token} {start : Token} {target : Node}
    (hs : Stream page ts) (hstart : ts.head? = some start) :
    Builds page ts true [target] true single (afterPrimary g start target) :=
  .orElse
    (.bind hs (tidy_operatorAmong _) fun _ =>
      .ite
        (.recast [] target [] .left (by decide) rfl
          (.bind hs ((hg.expression _).as .right (by decide)) fun _ =>
            .closeOperator hs hstart rfl (.plain rfl)))
        .failure)
    (.extend rfl fun _ =>
      .bind hs (.orElse .symbol .symbol) fun _ =>
      .close hs hstart rfl rfl)

theorem tidy_operandUpTo (hg : g.Tidy page) (fuel : Nat) :
    ∀ slot, Tidy page true single (operandUpTo g slot fuel) := by
  induction fuel with
  | zero => exact fun _ => .failure
  | succ fuel ih =>
    refine fun slot => .from_peek fun _ _ hs hstart => .ite ?_ (.ite ?_ ?_)
    · exact .bind hs tidy_operatorText fun _ =>
        .bind hs (ih _) fun _ =>
        .close hs hstart rfl rfl
    · exact .bind hs tidy_operatorText fun _ =>
        .bind hs (ih _) fun _ =>
        .close hs hstart rfl rfl
    · exact .orElse (.ite .failure (.last hs (tidy_lambda hg)))
        (.orElse (.last hs (tidy_castOf hg (ih _)))
          (.orElse (.last hs (tidy_signedCastOf hg slot (ih _)))
            (.orElse (.last hs (tidy_switchOf hg))
              (.bind hs (tidy_primary hg) fun _ => builds_afterPrimary hg hs hstart))))

theorem tidy_operand (hg : g.Tidy page) (slot : Slot) : Tidy page true single (operand g slot) :=
  fun ts => tidy_operandUpTo hg ts.length slot ts

/-! ## Levels of precedence -/

theorem builds_instanceTest (hg : g.Tidy page) {ts : List Token} {start : Token} {value : Node}
    (hs : Stream page ts) (hstart : ts.head? = some start) :
    Builds page ts true [value] true single (instanceTest g start value) :=
  .bind hs .word fun _ =>
  .bind hs (.drop (.optional .word)) fun _ =>
  .orElse
    (.bind hs (tidy_recordPattern hg) fun _ => .close hs hstart rfl rfl)
    (.bind hs hg.type fun _ =>
      .bind hs (.maybe tidy_identifier) fun _ =>
      .close hs hstart (by simp) rfl)

theorem tidy_binaryExpression (hg : g.Tidy page) (levels : List (List String)) :
    ∀ slot, Tidy page true single (binaryExpression g levels slot) := by
  induction levels with
  | nil => exact tidy_operand hg
  | cons operators tighter ih =>
    intro slot
    refine .from_peek fun _ _ hs hstart =>
      .bind hs (ih slot) fun _ =>
      .extend rfl fun left => .orElse ?_ (.ite (builds_instanceTest hg hs hstart) .failure)
    exact .bind hs (tidy_operatorAmong operators) fun _ =>
      .recast [] left [] .left (by decide) rfl
        (.bind hs ((ih _).as .right (by decide)) fun _ =>
          .closeOperator hs hstart rfl ⟨nofun, nofun, fun _ => rfl, nofun⟩)

theorem tidy_expressionOf (hg : g.Tidy page) (slot : Slot) :
    Tidy page true single (expressionOf g slot) :=
  .from_peek fun _ _ hs hstart =>
    .bind hs (tidy_binaryExpression hg binaryLevels slot) fun _ =>
    .orElse
      (.bind hs .symbol fun _ =>
        .bind hs (hg.expression _) fun _ =>
        .bind hs .symbol fun _ =>
        .bind hs (hg.expression _) fun _ =>
        .close hs hstart rfl rfl)
      (.pure rfl)

/-! ## Statements -/

theorem tidy_statementNode {parts : Parse (List Node)} (h : Tidy page true (each single) parts) :
    Tidy page true single (statementNode parts) :=
  .from_peek fun _ _ hs hstart =>
    .bind hs h fun _ =>
    .close hs hstart (by simp) rfl

theorem tidy_blockOf (hg : g.Tidy page) : Tidy page true single (blockOf g) :=
  .from_peek fun _ _ hs hstart =>
    .bind hs .symbol fun _ =>
    .bind hs (.many hg.statement) fun _ =>
    .bind hs .symbol fun _ =>
    .close hs hstart (by simp) rfl

theorem tidy_localVariables (hg : g.Tidy page) : Tidy page true single (localVariables g) :=
  .from_peek fun _ _ hs hstart =>
    .bind hs (.maybe (tidy_modifiers hg)) fun _ =>
    .bind hs ((tidy_plainType hg).as .type (by decide)) fun _ =>
    .bind hs (tidy_declarators hg) fun _ =>
    .bind hs .symbol fun _ =>
    .close hs hstart (by simp) rfl

theorem tidy_ifStatement (hg : g.Tidy page) : Tidy page true single (ifStatement g) :=
  tidy_statementNode <| Tidy.word.bind fun _ _ hs =>
    .bind hs (tidy_parenthesized hg) fun _ =>
    .bind hs hg.statement fun _ =>
    .bind hs (.orEmpty (.seqRight .word hg.statement) rfl) fun _ =>
    .pure (by simp)

theorem tidy_whileStatement (hg : g.Tidy page) : Tidy page true single (whileStatement g) :=
  tidy_statementNode <| Tidy.word.bind fun _ _ hs =>
    .bind hs (tidy_parenthesized hg) fun _ =>
    .bind hs (hg.statement.eachAs .body (by decide)) fun _ =>
    .pure (by simp)

theorem tidy_doStatement (hg : g.Tidy page) : Tidy page true single (doStatement g) :=
  tidy_statementNode <| Tidy.word.bind fun _ _ hs =>
    .bind hs (hg.statement.eachAs .body (by decide)) fun _ =>
    .bind hs .word fun _ =>
    .bind hs (tidy_parenthesized hg) fun _ =>
    .bind hs .symbol fun _ =>
    .pure (by simp)

theorem tidy_enhancedFor (hg : g.Tidy page) : Tidy page true single (enhancedFor g) :=
  .from_peek fun _ _ hs hstart =>
    .bind hs .word fun _ =>
    .bind hs .symbol fun _ =>
    .bind hs (.maybe (tidy_modifiers hg)) fun _ =>
    .bind hs ((tidy_plainType hg).as .type (by decide)) fun _ =>
    .bind hs (tidy_declaredName hg) fun _ =>
    .bind hs .symbol fun _ =>
    .bind hs ((hg.expression _).as .value (by decide)) fun _ =>
    .bind hs .symbol fun _ =>
    .bind hs (hg.statement.eachAs .body (by decide)) fun _ =>
    .close hs hstart (by simp) rfl

theorem tidy_expressionList (hg : g.Tidy page) :
    Tidy page false (each single) (expressionList g) :=
  .orEmpty (.separatedFrom (hg.expression _) (hg.expression _)) rfl

theorem tidy_forStatement (hg : g.Tidy page) : Tidy page true single (forStatement g) :=
  have hfirst : Tidy page true (each single) ((do let v ← localVariables g; pure [v]) <|> (do
      let values ← expressionList g
      symbol ";"
      pure values)) :=
    .orElse ((tidy_localVariables hg).bind fun _ _ _ => .pure rfl)
      ((tidy_expressionList hg).bind fun _ _ hs =>
        .bind hs .symbol fun _ =>
        .pure (by simp))
  tidy_statementNode <| Tidy.word.bind fun _ _ hs =>
    .bind hs .symbol fun _ =>
    .bind hs hfirst fun _ =>
    .bind hs (.maybe (hg.expression _)) fun _ =>
    .bind hs .symbol fun _ =>
    .bind hs (tidy_expressionList hg) fun _ =>
    .bind hs .symbol fun _ =>
    .bind hs (hg.statement.eachAs .body (by decide)) fun _ =>
    .pure (by simp)

theorem tidy_catchTypes (hg : g.Tidy page) : Tidy page true single (catchTypes g) :=
  .from_peek fun _ _ hs hstart =>
    .bind hs (.separated (tidy_plainType hg)) fun _ =>
    .close hs hstart (by simp) rfl

theorem tidy_catchParameter (hg : g.Tidy page) : Tidy page true single (catchParameter g) :=
  .from_peek fun _ _ hs hstart =>
    .bind hs (.maybe (tidy_modifiers hg)) fun _ =>
    .bind hs (tidy_catchTypes hg) fun _ =>
    .bind hs (tidy_declaredName hg) fun _ =>
    .close hs hstart (by simp) rfl

theorem tidy_catchClause (hg : g.Tidy page) : Tidy page true single (catchClause g) :=
  .from_peek fun _ _ hs hstart =>
    .bind hs .word fun _ =>
    .bind hs .symbol fun _ =>
    .bind hs (tidy_catchParameter hg) fun _ =>
    .bind hs .symbol fun _ =>
    .bind hs (hg.block.as .body (by decide)) fun _ =>
    .close hs hstart rfl rfl

theorem tidy_finallyClause (hg : g.Tidy page) : Tidy page true single (finallyClause g) :=
  .from_peek fun _ _ hs hstart =>
    .bind hs .word fun _ =>
    .bind hs hg.block fun _ =>
    .close hs hstart rfl rfl

theorem tidy_resource (hg : g.Tidy page) : Tidy page true single (resource g) :=
  .from_peek fun _ _ hs hstart =>
    .orElse
      (.bind hs (.maybe (tidy_modifiers hg)) fun _ =>
        .bind hs ((tidy_plainType hg).as .type (by decide)) fun _ =>
        .bind hs (tidy_declaredName hg) fun _ =>
        .bind hs .symbol fun _ =>
        .bind hs ((hg.expression _).as .value (by decide)) fun _ =>
        .close hs hstart (by simp) rfl)
      (.bind hs (tidy_primary hg) fun _ => .close hs hstart rfl rfl)

theorem tidy_resources (hg : g.Tidy page) : Tidy page true single (resources g) :=
  .from_peek fun _ _ hs hstart =>
    .bind hs .symbol fun _ =>
    .bind hs (.separated (tidy_resource hg)) fun _ =>
    .bind hs (.drop (.optional .symbol)) fun _ =>
    .bind hs .symbol fun _ =>
    .close hs hstart (by simp) rfl

theorem tidy_tryStatement (hg : g.Tidy page) : Tidy page true single (tryStatement g) :=
  tidy_statementNode <| Tidy.word.bind fun _ _ hs =>
    .bind hs (.maybe (tidy_resources hg)) fun _ =>
    .bind hs (hg.block.as .body (by decide)) fun _ =>
    .bind hs (.many (tidy_catchClause hg)) fun _ =>
    .bind hs (.maybe (tidy_finallyClause hg)) fun _ =>
    .pure (by simp)

theorem tidy_jumpStatement (w : String) : Tidy page true single (jumpStatement w) :=
  tidy_statementNode <| Tidy.word.bind fun _ _ hs =>
    .bind hs (.maybe tidy_identifier) fun _ =>
    .bind hs .symbol fun _ =>
    .pure (by simp)

theorem tidy_returnStatement (hg : g.Tidy page) : Tidy page true single (returnStatement g) :=
  tidy_statementNode <| Tidy.word.bind fun _ _ hs =>
    .bind hs (.maybe (hg.expression _)) fun _ =>
    .bind hs .symbol fun _ =>
    .pure (by simp)

theorem tidy_yieldStatement (hg : g.Tidy page) : Tidy page true single (yieldStatement g) :=
  tidy_statementNode <| Tidy.word.bind fun _ _ hs =>
    .bind hs (hg.expression _) fun _ =>
    .bind hs .symbol fun _ =>
    .pure (by simp)

theorem tidy_assertStatement (hg : g.Tidy page) : Tidy page true single (assertStatement g) :=
  tidy_statementNode <| Tidy.word.bind fun _ _ hs =>
    .bind hs (hg.expression _) fun _ =>
    .bind hs (.maybe (.seqRight .symbol (hg.expression _))) fun _ =>
    .bind hs .symbol fun _ =>
    .pure (by simp)

theorem tidy_synchronizedStatement (hg : g.Tidy page) :
    Tidy page true single (synchronizedStatement g) :=
  tidy_statementNode <| Tidy.word.bind fun _ _ hs =>
    .bind hs (tidy_parenthesized hg) fun _ =>
    .bind hs (hg.block.as .body (by decide)) fun _ =>
    .pure (by simp)

theorem tidy_labeledStatement (hg : g.Tidy page) : Tidy page true single (labeledStatement g) :=
  tidy_statementNode <| tidy_identifier.bind fun _ _ hs =>
    .bind hs .symbol fun _ =>
    .bind hs hg.statement fun _ =>
    .pure (by simp)

theorem tidy_statementRules (hg : g.Tidy page) :
    ∀ rule ∈ statementRules g, Tidy page true single rule.2 := by
  have hend : Tidy page false nothing statementRules.notEnd :=
    .from_peek fun _ _ _ _ => .ite .failure (.pure rfl)
  simp only [statementRules, List.forall_mem_cons]
  exact ⟨tidy_ifStatement hg, tidy_whileStatement hg, tidy_doStatement hg,
    .orElse (tidy_enhancedFor hg) (tidy_forStatement hg), tidy_tryStatement hg,
    tidy_jumpStatement _, tidy_jumpStatement _, tidy_returnStatement hg, tidy_yieldStatement hg,
    tidy_assertStatement hg, tidy_throwStatement hg, .seqLeft (tidy_switchOf hg) hend,
    tidy_synchronizedStatement hg, List.forall_mem_nil _⟩

theorem tidy_statementOf (hg : g.Tidy page) : Tidy page true (each single) (statementOf g) := by
  refine .from_peek fun _ start hs hstart => .ite ?_ (.ite ?_ ?_)
  · exact .bind hs .symbol fun _ => .pure rfl
  · exact .bind hs hg.block fun _ => .pure rfl
  · refine .bind hs (.orElse ?_ (.orElse hg.declaration (.orElse (tidy_localVariables hg)
      (.orElse (tidy_labeledStatement hg) (tidy_expressionStatement hg))))) fun _ => .pure rfl
    split
    · next rule hrule => exact tidy_statementRules hg rule (List.mem_of_find?_eq_some hrule)
    · exact .failure

/-! ## Members -/

theorem tidy_constructorBody (hg : g.Tidy page) : Tidy page true single (constructorBody g) :=
  have htarget : Tidy page true (each single) ((do let t ← thisNode <|> superNode; pure [t]) <|> (do
      let object ← primary g
      symbol "."
      let inner ← maybe (typeArguments g)
      let above ← superNode
      pure (object.playing .object :: inner ++ [above]))) :=
    .orElse ((Tidy.orElse (.leaf rfl) (.leaf rfl)).bind fun _ _ _ => .pure rfl)
      (((tidy_primary hg).as .object (by decide)).bind fun _ _ hs =>
        .bind hs .symbol fun _ =>
        .bind hs (.maybe (tidy_typeArguments hg)) fun _ =>
        .bind hs (.leaf rfl) fun _ =>
        .pure (by simp))
  have hfirst : Tidy page true single (do
      let at' ← peek
      let arguments ← maybe (typeArguments g)
      let target ← (do let t ← thisNode <|> superNode; pure [t]) <|> (do
        let object ← primary g
        symbol "."
        let inner ← maybe (typeArguments g)
        let above ← superNode
        pure (object.playing .object :: inner ++ [above]))
      let actual ← argumentList g
      symbol ";"
      close at' .explicitConstructorCall (arguments ++ target ++ [actual.playing .arguments])) :=
    .from_peek fun _ _ hs hstart =>
      .bind hs (.maybe (tidy_typeArguments hg)) fun _ =>
      .bind hs htarget fun _ =>
      .bind hs (tidy_argumentList hg) fun _ =>
      .bind hs .symbol fun _ =>
      .close hs hstart (by simp) rfl
  .from_peek fun _ _ hs hstart =>
    .bind hs .symbol fun _ =>
    .bind hs (.maybe hfirst) fun _ =>
    .bind hs (.many hg.statement) fun _ =>
    .bind hs .symbol fun _ =>
    .close hs hstart (by simp) rfl

theorem tidy_constructorDeclaration (hg : g.Tidy page) :
    Tidy page true single (constructorDeclaration g) :=
  .from_peek fun _ _ hs hstart =>
    .bind hs (.maybe (tidy_modifiers hg)) fun _ =>
    .bind hs (.maybe (tidy_typeParameters hg)) fun _ =>
    .bind hs (tidy_identifier.as .name (by decide)) fun _ =>
    .bind hs ((tidy_parameterList hg).as .parameters (by decide)) fun _ =>
    .bind hs (.maybe (tidy_typesAfter hg _)) fun _ =>
    .bind hs ((tidy_constructorBody hg).as .body (by decide)) fun _ =>
    .close hs hstart (by simp) rfl

theorem tidy_compactConstructorDeclaration (hg : g.Tidy page) :
    Tidy page true single (compactConstructorDeclaration g) :=
  .from_peek fun _ _ hs hstart =>
    .bind hs (.maybe (tidy_modifiers hg)) fun _ =>
    .bind hs (tidy_identifier.as .name (by decide)) fun _ =>
    .bind hs (hg.block.as .body (by decide)) fun _ =>
    .close hs hstart (by simp) rfl

theorem tidy_methodDeclaration (hg : g.Tidy page) : Tidy page true single (methodDeclaration g) :=
  have hbody : Tidy page true (each single)
      ((do let b ← g.block; pure [b.playing .body]) <|> (do symbol ";"; pure [])) :=
    .orElse ((hg.block.as .body (by decide)).bind fun _ _ _ => .pure rfl)
      (Tidy.symbol.bind fun _ _ _ => .pure rfl)
  .from_peek fun _ _ hs hstart =>
    .bind hs (.maybe (tidy_modifiers hg)) fun _ =>
    .bind hs (.maybe (tidy_typeParameters hg)) fun _ =>
    .bind hs (.many (tidy_annotationOf hg)) fun _ =>
    .bind hs ((tidy_plainType hg).as .type (by decide)) fun _ =>
    .bind hs (tidy_identifier.as .name (by decide)) fun _ =>
    .bind hs ((tidy_parameterList hg).as .parameters (by decide)) fun _ =>
    .bind hs (.maybe (tidy_dimensions hg)) fun _ =>
    .bind hs (.maybe (tidy_typesAfter hg _)) fun _ =>
    .bind hs hbody fun _ =>
    .close hs hstart (by simp) rfl

theorem tidy_fieldDeclaration (hg : g.Tidy page) {kind : Kind} (hkind : kind.isPlain = true) :
    Tidy page true single (fieldDeclaration g kind) :=
  .from_peek fun _ _ hs hstart =>
    .bind hs (.maybe (tidy_modifiers hg)) fun _ =>
    .bind hs ((tidy_plainType hg).as .type (by decide)) fun _ =>
    .bind hs (tidy_declarators hg) fun _ =>
    .bind hs .symbol fun _ =>
    .close hs hstart (by simp) hkind

theorem tidy_staticBlock (hg : g.Tidy page) : Tidy page true single (staticBlock g) :=
  .from_peek fun _ _ hs hstart =>
    .bind hs .word fun _ =>
    .bind hs hg.block fun _ =>
    .close hs hstart rfl rfl

theorem tidy_annotationElement (hg : g.Tidy page) : Tidy page true single (annotationElement g) :=
  .from_peek fun _ _ hs hstart =>
    .bind hs (.maybe (tidy_modifiers hg)) fun _ =>
    .bind hs ((tidy_plainType hg).as .type (by decide)) fun _ =>
    .bind hs (tidy_identifier.as .name (by decide)) fun _ =>
    .bind hs .symbol fun _ =>
    .bind hs .symbol fun _ =>
    .bind hs (.maybe (tidy_dimensions hg)) fun _ =>
    .bind hs (.maybe ((Tidy.seqRight .word hg.elementValue).as .value (by decide))) fun _ =>
    .bind hs .symbol fun _ =>
    .close hs hstart (by simp) rfl

theorem tidy_member (hg : g.Tidy page) {fields : Kind} (hfields : fields.isPlain = true) :
    Tidy page true (each single) (member g fields) :=
  .orElse (Tidy.symbol.bind fun _ _ _ => .pure rfl)
    (.map (.orElse hg.block (.orElse (tidy_staticBlock hg) (.orElse hg.declaration
      (.orElse (tidy_compactConstructorDeclaration hg) (.orElse (tidy_constructorDeclaration hg)
        (.orElse (tidy_methodDeclaration hg) (tidy_fieldDeclaration hg hfields)))))))
      fun _ => rfl)

/-! ## Bodies -/

theorem tidy_bodyOf {kind : Kind} {item : Parse (List Node)} (h : Tidy page true (each single) item)
    (hkind : kind.isPlain = true) : Tidy page true single (bodyOf kind item) :=
  .from_peek fun _ _ hs hstart =>
    .bind hs .symbol fun _ =>
    .bind hs (.many h) fun _ =>
    .bind hs .symbol fun _ =>
    .close hs hstart (by simp) hkind

theorem tidy_annotationTypeBody (hg : g.Tidy page) :
    Tidy page true single (annotationTypeBody g) :=
  tidy_bodyOf (.orElse (.map (tidy_annotationElement hg) fun _ => rfl) (tidy_member hg rfl)) rfl

theorem tidy_enumConstant (hg : g.Tidy page) : Tidy page true single (enumConstant g) :=
  .from_peek fun _ _ hs hstart =>
    .bind hs (.maybe (tidy_modifiers hg)) fun _ =>
    .bind hs (tidy_identifier.as .name (by decide)) fun _ =>
    .bind hs (.maybe (tidy_argumentList hg)) fun _ =>
    .bind hs (.maybe (hg.classBody.as .body (by decide))) fun _ =>
    .close hs hstart (by simp) rfl

theorem tidy_enumMembers (hg : g.Tidy page) : Tidy page true single (enumMembers g) :=
  .from_peek fun _ _ hs hstart =>
    .bind hs .symbol fun _ =>
    .bind hs (.many (tidy_member hg rfl)) fun _ =>
    .close hs hstart (by simp) rfl

theorem tidy_enumBody (hg : g.Tidy page) : Tidy page true single (enumBody g) :=
  .from_peek fun _ _ hs hstart =>
    .bind hs .symbol fun _ =>
    .bind hs (.orEmpty (.separated (tidy_enumConstant hg)) rfl) fun _ =>
    .bind hs (.drop (.optional .symbol)) fun _ =>
    .bind hs (.maybe (tidy_enumMembers hg)) fun _ =>
    .bind hs .symbol fun _ =>
    .close hs hstart (by simp) rfl

/-! ## Declarations -/

section Declarations

variable {ts : List Token} {start : Token} {mods : List Node}

theorem builds_classDeclaration (hg : g.Tidy page) (hs : Stream page ts)
    (hstart : ts.head? = some start) :
    Builds page ts false (each single mods) true single (classDeclaration g start mods) :=
  .bind hs .word fun _ =>
  .bind hs (tidy_identifier.as .name (by decide)) fun _ =>
  .bind hs (.maybe (tidy_typeParameters hg)) fun _ =>
  .bind hs (.maybe (tidy_typesAfter hg _)) fun _ =>
  .bind hs (.maybe (tidy_typesAfter hg _)) fun _ =>
  .bind hs (.maybe (tidy_typesAfter hg _)) fun _ =>
  .bind hs (hg.classBody.as .body (by decide)) fun _ =>
  .close hs hstart (by simp) rfl

theorem builds_interfaceDeclaration (hg : g.Tidy page) (hs : Stream page ts)
    (hstart : ts.head? = some start) :
    Builds page ts false (each single mods) true single (interfaceDeclaration g start mods) :=
  .bind hs .word fun _ =>
  .bind hs (tidy_identifier.as .name (by decide)) fun _ =>
  .bind hs (.maybe (tidy_typeParameters hg)) fun _ =>
  .bind hs (.maybe (tidy_typesAfter hg _)) fun _ =>
  .bind hs (.maybe (tidy_typesAfter hg _)) fun _ =>
  .bind hs ((tidy_bodyOf (tidy_member hg rfl) rfl).as .body (by decide)) fun _ =>
  .close hs hstart (by simp) rfl

theorem builds_enumDeclaration (hg : g.Tidy page) (hs : Stream page ts)
    (hstart : ts.head? = some start) :
    Builds page ts false (each single mods) true single (enumDeclaration g start mods) :=
  .bind hs .word fun _ =>
  .bind hs (tidy_identifier.as .name (by decide)) fun _ =>
  .bind hs (.maybe (tidy_typesAfter hg _)) fun _ =>
  .bind hs ((tidy_enumBody hg).as .body (by decide)) fun _ =>
  .close hs hstart (by simp) rfl

theorem builds_recordDeclaration (hg : g.Tidy page) (hs : Stream page ts)
    (hstart : ts.head? = some start) :
    Builds page ts false (each single mods) true single (recordDeclaration g start mods) :=
  .bind hs .word fun _ =>
  .bind hs (tidy_identifier.as .name (by decide)) fun _ =>
  .bind hs (.maybe (tidy_typeParameters hg)) fun _ =>
  .bind hs ((tidy_parameterList hg).as .parameters (by decide)) fun _ =>
  .bind hs (.maybe (tidy_typesAfter hg _)) fun _ =>
  .bind hs (hg.classBody.as .body (by decide)) fun _ =>
  .close hs hstart (by simp) rfl

theorem builds_annotationTypeDeclaration (hg : g.Tidy page) (hs : Stream page ts)
    (hstart : ts.head? = some start) :
    Builds page ts false (each single mods) true single (annotationTypeDeclaration g start mods) :=
  .bind hs .symbol fun _ =>
  .bind hs .word fun _ =>
  .bind hs (tidy_identifier.as .name (by decide)) fun _ =>
  .bind hs ((tidy_annotationTypeBody hg).as .body (by decide)) fun _ =>
  .close hs hstart (by simp) rfl

theorem builds_packageDeclaration (hs : Stream page ts) (hstart : ts.head? = some start) :
    Builds page ts false (each single mods) true single (packageDeclaration start mods) :=
  .bind hs .word fun _ =>
  .bind hs tidy_qualifiedName fun _ =>
  .bind hs .symbol fun _ =>
  .close hs hstart (by simp) rfl

theorem builds_importDeclaration (hs : Stream page ts) (hstart : ts.head? = some start) :
    Builds page ts false [] true single (importDeclaration start) :=
  .bind hs .word fun _ =>
  .bind hs (.drop (.optional .word)) fun _ =>
  .bind hs tidy_qualifiedName fun _ =>
  .bind hs (.drop (.optional (.seqRight .symbol .symbol))) fun _ =>
  .bind hs .symbol fun _ =>
  .close hs hstart rfl rfl

theorem builds_moduleDeclaration (hs : Stream page ts) (hstart : ts.head? = some start) :
    Builds page ts false (each single mods) true single (moduleDeclaration start mods) :=
  .bind hs (.drop (.optional .word)) fun _ =>
  .bind hs .word fun _ =>
  .bind hs tidy_qualifiedName fun _ =>
  .bind hs .symbol fun _ =>
  .bind hs (.drop (.many .takeIf)) fun _ =>
  .bind hs .symbol fun _ =>
  .close hs hstart (by simp) rfl

end Declarations

theorem tidy_declarationOf (hg : g.Tidy page) : Tidy page true single (declarationOf g) :=
  .from_peek fun _ _ hs hstart =>
    .bind hs (.maybe (tidy_modifiers hg)) fun mods =>
    .orElse (builds_classDeclaration hg hs hstart)
      (.orElse (builds_interfaceDeclaration hg hs hstart)
        (.orElse (builds_enumDeclaration hg hs hstart)
          (.orElse (builds_recordDeclaration hg hs hstart)
            (.orElse (builds_annotationTypeDeclaration hg hs hstart)
              (.orElse (builds_packageDeclaration hs hstart)
                (.orElse
                  (.iteOf (fun hmods => by
                    rw [List.isEmpty_iff.1 hmods]
                    exact builds_importDeclaration hs hstart) .failure)
                  (builds_moduleDeclaration hs hstart)))))))

/-! ## All rules together -/

/-- **The rules keep the order of the source, to any depth.** -/
theorem tidy_grammar (page : Page) (fuel : Nat) : (grammar fuel).Tidy page := by
  induction fuel with
  | zero => exact ⟨fun _ => .failure, .failure, .failure, .failure, .failure, .failure, .failure⟩
  | succ fuel ih =>
    exact
      { expression := tidy_expressionOf ih
        statement := tidy_statementOf ih
        block := tidy_blockOf ih
        classBody := tidy_bodyOf (tidy_member ih rfl) rfl
        declaration := tidy_declarationOf ih
        type := tidy_typeOf ih
        elementValue := tidy_elementValueOf ih }

end SqlInjection.Java
