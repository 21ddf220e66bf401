import SqlInjection.Proofs.Java.StraightLine
import SqlInjection.Proofs.Text.Cutting

/-!
# Joins of collections

Whether a join carries text hangs on the element types of the collections that are joined, which
are read off the types of references (`elementTypeOf`). A reference has the simple name of the type
that its declaration is written with, on every way a name is looked up: as a local variable, a
variable of a loop, a catch or a resource, a parameter or a field (`elementType?_readPlace`). A
simple name has no type arguments and no brackets left at its end, so no element type can be read
off it (`elementTypeOf_simpleTypeName`).

`join_carriesText` draws the conclusion: a join carries text whatever the elements of the
collections are. This is right if they are texts or not known. It is not what the element types are
there for: `join_carriesText_integers` is a join of numbers that is taken for text.
-/

namespace SqlInjection

/-! ## Simple names -/

namespace Text

/-- Copies of a text at the start are dropped one by one, until there are none. -/
theorem trimStartMatches_go_cases {w : Text} (hw : w ≠ []) (fuel : Nat) (t : Text) :
    trimStartMatches.go w fuel t = t ∨ w ++ trimStartMatches.go w fuel t <:+ t := by
  induction fuel generalizing t with
  | zero => exact Or.inl rfl
  | succ fuel ih =>
    rw [trimStartMatches.go]
    split
    · next r hr =>
      have ht := stripPrefix?_eq_some_iff.1 hr
      rw [if_neg (by simpa using hw)]
      rcases ih r with h | h
      · rw [h, ht]
        exact Or.inr (List.suffix_refl _)
      · refine Or.inr ?_
        rw [← ht]
        exact h.trans (List.suffix_append w r)
    · exact Or.inl rfl

theorem stripPrefix?_trimStartMatches_go {w : Text} (hw : w ≠ []) {fuel : Nat} {t : Text}
    (hfuel : t.length ≤ fuel) : stripPrefix? w (trimStartMatches.go w fuel t) = none := by
  induction fuel generalizing t with
  | zero =>
    obtain rfl := List.length_eq_zero_iff.1 (Nat.le_zero.1 hfuel)
    cases w with
    | nil => exact absurd rfl hw
    | cons c w => rfl
  | succ fuel ih =>
    rw [trimStartMatches.go]
    split
    · next r hr =>
      rw [if_neg (by simpa using hw)]
      have hlength := congrArg List.length (stripPrefix?_eq_some_iff.1 hr)
      have hpos := List.length_pos_iff.2 hw
      rw [List.length_append] at hlength
      exact ih (by omega)
    · next hnone => exact hnone

/-- Copies of a text at the end are dropped until there are none. -/
theorem trimEndMatches_cases {w : Text} (hw : w ≠ []) (t : Text) :
    trimEndMatches w t = t ∨ trimEndMatches w t ++ w <+: t := by
  have hw' : w.reverse ≠ [] := by simpa using hw
  rcases trimStartMatches_go_cases hw' t.reverse.length t.reverse with h | h
  · refine Or.inl ?_
    rw [trimEndMatches, trimStartMatches, h, List.reverse_reverse]
  · refine Or.inr ?_
    rw [← List.reverse_suffix, trimEndMatches, List.reverse_append, List.reverse_reverse]
    exact h

theorem not_suffix_trimEndMatches {w : Text} (hw : w ≠ []) (t : Text) :
    ¬ w <:+ trimEndMatches w t := by
  rintro ⟨r, hr⟩
  have hw' : w.reverse ≠ [] := by simpa using hw
  have hnone := stripPrefix?_trimStartMatches_go hw' (t := t.reverse) (Nat.le_refl _)
  have hsome : stripPrefix? w.reverse (trimStartMatches w.reverse t.reverse) = some r.reverse := by
    refine stripPrefix?_eq_some_iff.2 ?_
    have h := congrArg List.reverse hr
    rwa [trimEndMatches, List.reverse_reverse, List.reverse_append] at h
  cases hnone.symm.trans hsome

theorem trim_infix (t : Text) : ∃ v w, v ++ trim t ++ w = t ∧ ∀ c ∈ w, isBlank c = true := by
  obtain ⟨v, hv, -⟩ := trimStart_append t
  obtain ⟨w, hw, hblank⟩ := trimEnd_append (trimStart t)
  refine ⟨v, w, ?_, hblank⟩
  rw [List.append_assoc]
  exact (congrArg (v ++ ·) hw).trans hv

/-- A text without blanks around it does not end in a blank. -/
theorem getLast?_trim {t : Text} {c : Char} (h : (trim t).getLast? = some c) :
    isBlank c = false := by
  rw [trim, trimEnd, dropEndWhile, List.getLast?_reverse] at h
  have hnot := List.head?_dropWhile_not isBlank (trimStart t).reverse
  rw [h] at hnot
  simpa using hnot

end Text

namespace Java

open Text

theorem simpleTypeName_suffix (t : Text) :
    simpleTypeName t <:+ trimEndMatches "[]".toList (trim (t.takeWhile (· != '<'))) := by
  rw [simpleTypeName, ← List.reverse_prefix, List.reverse_reverse]
  exact List.takeWhile_prefix _

/-- **No element type is left of a simple name**, if the type is written with at most one pair of
brackets in front of its type arguments. -/
theorem elementTypeOf_simpleTypeName {t : Text} (h : (t.takeWhile (· != '<')).count '[' ≤ 1) :
    elementTypeOf (simpleTypeName t) = none := by
  let front := t.takeWhile (· != '<')
  obtain ⟨u, hu⟩ : simpleTypeName t <:+ trimEndMatches "[]".toList (trim front) :=
    simpleTypeName_suffix t
  obtain ⟨v, w, hsimple, hblank⟩ := trim_infix (simpleTypeName t)
  have hsub : (trim front).Sublist front := by
    obtain ⟨x, y, hfront, -⟩ := trim_infix front
    exact List.IsInfix.sublist ⟨x, y, hfront⟩
  have hcases := trimEndMatches_cases (w := "[]".toList) (by decide) (trim front)
  have hkept : (trimEndMatches "[]".toList (trim front)).Sublist (trim front) := by
    rcases hcases with heq | hopen
    · rw [heq]
    · exact ((List.prefix_append _ _).trans hopen).sublist
  have hmem : ∀ c ∈ trim (simpleTypeName t), c ∈ trimEndMatches "[]".toList (trim front) := by
    intro c hc
    rw [← hu, ← hsimple]
    simp [hc]
  have hbrackets : stripSuffix? "[]".toList (trim (simpleTypeName t)) = none := by
    refine Option.eq_none_iff_forall_ne_some.2 fun e he => ?_
    have htrim := stripSuffix?_eq_some_iff.1 he
    rcases hcases with heq | hopen
    · -- Nothing was dropped, so the brackets would stand at the very end, where none are left.
      have hend : trim front = u ++ v ++ e ++ "[]".toList ++ w := by
        rw [← heq, ← hu, ← hsimple, ← htrim]
        simp only [List.append_assoc]
      rcases w.eq_nil_or_concat with rfl | ⟨w, c, rfl⟩
      · refine not_suffix_trimEndMatches (w := "[]".toList) (by decide) (trim front) ?_
        exact ⟨u ++ v ++ e, by rw [heq, hend, List.append_nil]⟩
      · have hlast : (trim front).getLast? = some c := by
          rw [hend, List.concat_eq_append, ← List.append_assoc, List.getLast?_concat]
        cases (getLast?_trim hlast).symm.trans (hblank c (by simp))
    · -- A pair was dropped, and there is no second one.
      have hin : '[' ∈ trimEndMatches "[]".toList (trim front) :=
        hmem '[' (by rw [← htrim]; simp)
      have hone := List.count_pos_iff.2 hin
      have htwo := (hopen.sublist.trans hsub).count_le '['
      rw [List.count_append] at htwo
      have hpair : ("[]".toList).count '[' = 1 := by decide
      have hfront : front.count '[' ≤ 1 := h
      omega
  have harguments : cut? '<' (trim (simpleTypeName t)) = none := by
    refine Option.eq_none_iff_forall_ne_some.2 fun ⟨l, r⟩ hcut => ?_
    have hin := hmem '<' (by rw [(cut?_eq_some_iff.1 hcut).1]; simp)
    have hfront : '<' ∈ front := hsub.subset (hkept.subset hin)
    simpa using List.mem_takeWhile_imp hfront
  unfold elementTypeOf
  simp only [hbrackets, harguments]
  rfl

/-! ## The types of references -/

/-- The declaration of a local variable that a place in a method is, or is a part of, if it declares
`name` before `use`. -/
def localDeclaration? (name : Text) (use : Nat) (p : Place) : Option Place :=
  match p.kind with
  | .declarator => p.parent?.filter fun declaration =>
    declaration.kind == .localVariables && p.declares name && p.stop ≤ use
  | .enhancedFor | .catchParameter | .resource => if p.declares name then some p else none
  | _ => none

/-- A parameter, if it has the given name. -/
def parameterDeclaration? (name : Text) (p : Place) : Option Place :=
  if (parameterType? name p).isSome then some p else none

namespace Place

/-- The last declaration of a local variable of a method before `use`. -/
def localDeclarationBefore? (method : Place) (name : Text) (use : Nat) : Option Place :=
  ((method.below.takeWhile (·.start < use)).filterMap (localDeclaration? name use)).getLast?

/-- The parameter with the given name, among those of a method or lambda expression. -/
def parameterDeclarationIn? (callable : Place) (name : Text) : Option Place := do
  let params ← callable.child? .parameters
  if params.kind == .identifier then Java.parameterDeclaration? name params
  else params.children.findSome? (Java.parameterDeclaration? name)

/-- The parameter that a name stands for: of a lambda expression around the use, the innermost
first, or of the method. -/
def parameterDeclaration? (use method : Place) (name : Text) : Option Place :=
  let lambdas := (use.enclosing.takeWhile (!·.kind.isCallable)).filter (·.kind == .lambda)
  (lambdas.findSome? (·.parameterDeclarationIn? name)).or (method.parameterDeclarationIn? name)

/-- The declaration that a reference leads to: of a local variable, of a parameter of a lambda
expression or of the method around it, or of a field. -/
def declaration? (root : Node) (x : Place) : Option Place :=
  match x.kind with
  | .identifier =>
    let field := (x.field? x.text).bind parent?
    match x.callable? with
    | none => field
    | some method =>
      (method.localDeclarationBefore? x.text x.start).or
        ((x.parameterDeclaration? method x.text).or field)
  | .fieldAccess => (x.accessedField? root).bind parent?
  | _ => none

/-- The type, as it is written, of what a reference refers to. -/
def writtenType? (root : Node) (x : Place) : Option Text :=
  (x.declaration? root).bind (·.node.childText? .type)

end Place

section References

variable {root : Node} {read : Reader} {x p m : Place} {name : Text} {use d : Nat} {e : Expr}

theorem type_localVariable? (name : Text) (use : Nat) (p : Place) :
    (localVariable? name use p).map LocalVariable.type =
      (localDeclaration? name use p).map Place.declaredType? := by
  unfold localDeclaration?
  cases hkind : p.kind with
  | declarator =>
    simp only [localVariable?, hkind]
    cases p.parent? with
    | none => rfl
    | some declaration => simp only [Option.filter]; split <;> rfl
  | enhancedFor | catchParameter | resource =>
    simp only [localVariable?, hkind]
    split <;> rfl
  | _ => simp only [localVariable?, hkind, Option.map_none]

theorem type_localBefore? (m : Place) (name : Text) (use : Nat) :
    (m.localBefore? name use).map LocalVariable.type =
      (m.localDeclarationBefore? name use).map Place.declaredType? := by
  rw [Place.localBefore?, Place.localDeclarationBefore?, ← List.getLast?_map, ← List.getLast?_map,
    List.map_filterMap, List.map_filterMap]
  simp only [type_localVariable?]

theorem type_parameterType? (name : Text) (p : Place) :
    parameterType? name p = (parameterDeclaration? name p).map fun declaration =>
      if declaration.kind = .parameter then declaration.declaredType? else none := by
  unfold parameterDeclaration?
  cases hkind : p.kind with
  | parameter =>
    simp only [parameterType?, hkind]
    split <;> simp [hkind]
  | spreadParameter =>
    simp only [parameterType?, hkind]
    cases p.children.find? (·.kind == .declarator) with
    | none => rfl
    | some d => dsimp only; split <;> simp [hkind]
  | identifier =>
    simp only [parameterType?, hkind]
    split <;> simp [hkind]
  | _ => simp [parameterType?, hkind]

theorem type_parameterIn? (m : Place) (name : Text) :
    m.parameterIn? name = (m.parameterDeclarationIn? name).map fun declaration =>
      if declaration.kind = .parameter then declaration.declaredType? else none := by
  unfold Place.parameterIn? Place.parameterDeclarationIn?
  cases m.child? .parameters with
  | none => rfl
  | some params =>
    dsimp only [Option.bind_eq_bind, Option.bind_some]
    split
    · exact type_parameterType? name params
    · rw [List.map_findSome?]
      exact congrArg (fun f => params.children.findSome? f)
        (funext fun p => type_parameterType? name p)

theorem type_parameter? (x m : Place) (name : Text) :
    x.parameter? m name = (x.parameterDeclaration? m name).map fun declaration =>
      if declaration.kind = .parameter then declaration.declaredType? else none := by
  unfold Place.parameter? Place.parameterDeclaration?
  rw [Option.map_or, List.map_findSome?, ← type_parameterIn?]
  exact congrArg (fun f => (List.findSome? f _).or (m.parameterIn? name))
    (funext fun p => type_parameterIn? p name)

theorem elementType?_ref (kind : RefKind) (name : Text) (type : Option Text) (value : Option Expr)
    (w : Written) : elementType? (.ref kind name type value w) = type.bind elementTypeOf := by
  cases type <;> rfl

/-- A reference to a field has the type of its declaration. -/
theorem elementType?_fieldReference {f : Place} {w : Written}
    (he : fieldReference read f w d = .ok e) :
    elementType? e = (f.parent?.bind (·.declaredType?)).bind elementTypeOf := by
  obtain ⟨value, -, he⟩ := bind_eq_ok he
  obtain rfl := Except.ok.inj he
  exact elementType?_ref ..

theorem elementType?_readFieldName (he : readFieldName read x d = .ok e) :
    elementType? e = (((x.field? x.text).bind Place.parent?).bind (·.declaredType?)).bind
      elementTypeOf := by
  unfold readFieldName at he
  cases hfield : x.field? x.text with
  | none =>
    rw [hfield] at he
    obtain rfl := Except.ok.inj he
    rfl
  | some f =>
    rw [hfield] at he
    exact elementType?_fieldReference he

theorem elementType?_readFieldAccess (he : readFieldAccess root read x d = .ok e) :
    elementType? e = (((x.accessedField? root).bind Place.parent?).bind (·.declaredType?)).bind
      elementTypeOf := by
  unfold readFieldAccess at he
  split at he
  · next object name hobject hname =>
    dsimp only at he
    split at he
    · next f hf =>
      have hfield : x.accessedField? root = some f := by
        rw [Place.accessedField?, hobject, hname]
        exact hf
      rw [hfield]
      exact elementType?_fieldReference he
    · next hf =>
      have hfield : x.accessedField? root = none := by
        rw [Place.accessedField?, hobject, hname]
        exact hf
      obtain rfl := Except.ok.inj he
      rw [hfield]
      rfl
  · next hnone =>
    obtain rfl := Except.ok.inj he
    have hfield : x.accessedField? root = none := by
      unfold Place.accessedField?
      split
      · next object name hobject hname => exact absurd hname (hnone object name hobject)
      · rfl
    rw [hfield]
    rfl

/-- **A reference has the type of the declaration that it leads to**, or none. -/
theorem elementType?_readPlace (hx : x.kind = .identifier ∨ x.kind = .fieldAccess)
    (hd : d ≤ maxDepth) (he : readPlace root read x d = .ok e) :
    elementType? e = none ∨
      elementType? e = ((x.declaration? root).bind (·.declaredType?)).bind elementTypeOf := by
  rw [readPlace, if_neg (Nat.not_lt.2 hd)] at he
  unfold Place.declaration?
  rcases hx with hx | hx
  · simp only [hx] at he ⊢
    unfold readName at he
    cases hm : x.callable? with
    | none =>
      rw [hm] at he
      exact Or.inr (elementType?_readFieldName he)
    | some m =>
      simp only [hm] at he ⊢
      have hlocal := type_localBefore? m x.text x.start
      have hparameter := type_parameter? x m x.text
      cases hv : m.localBefore? x.text x.start with
      | some v =>
        rw [hv] at he hlocal
        obtain ⟨declaration, hdeclaration, htype⟩ := Option.map_eq_some_iff.1 hlocal.symm
        cases hvalue : localValue read m v x.start d with
        | error fault => simp [hvalue] at he
        | ok value =>
          simp only [hvalue] at he
          obtain rfl := Except.ok.inj he
          rw [elementType?_ref, hdeclaration, Option.some_or, Option.bind_some, htype]
          exact Or.inr rfl
      | none =>
        rw [hv] at he hlocal
        rw [Option.map_eq_none_iff.1 hlocal.symm, Option.none_or]
        cases hp : x.parameter? m x.text with
        | some type =>
          rw [hp] at he hparameter
          obtain ⟨declaration, hdeclaration, htype⟩ := Option.map_eq_some_iff.1 hparameter.symm
          obtain rfl := Except.ok.inj he
          rw [elementType?_ref, hdeclaration, Option.some_or, Option.bind_some, ← htype]
          split
          · exact Or.inr rfl
          · exact Or.inl rfl
        | none =>
          rw [hp] at he hparameter
          rw [Option.map_eq_none_iff.1 hparameter.symm, Option.none_or]
          exact Or.inr (elementType?_readFieldName he)
  · simp only [hx] at he ⊢
    exact Or.inr (elementType?_readFieldAccess he)

end References

/-! ## Joins -/

section Joins

variable {s : Source} {call x : Place} {d : Nat} {e : Expr}

/-- Nothing is left of the element type of a reference whose type is written with at most one pair
of brackets in front of its type arguments. -/
theorem elementType?_of_reference (hx : x.kind = .identifier ∨ x.kind = .fieldAccess)
    (hd : d ≤ maxDepth)
    (htype : ∀ t, x.writtenType? s.root = some t → (t.takeWhile (· != '<')).count '[' ≤ 1)
    (hmem : x ∈ s.places) (he : s.reader x d = .ok e) : elementType? e = none := by
  rw [s.reader_eq hmem (by omega)] at he
  rcases elementType?_readPlace hx hd he with hnone | helement
  · exact hnone
  · rw [helement]
    cases hdeclaration : x.declaration? s.root with
    | none => rfl
    | some declaration =>
      cases htext : declaration.node.childText? .type with
      | none => simp [Place.declaredType?, htext]
      | some t =>
        have hwritten : x.writtenType? s.root = some t := by
          rw [Place.writtenType?, hdeclaration]
          exact htext
        simpa [Place.declaredType?, htext] using elementTypeOf_simpleTypeName (htype t hwritten)

theorem elementType?_of_stringLiteral (hx : x.kind = .stringLiteral) (hd : d ≤ maxDepth)
    (hmem : x ∈ s.places) (he : s.reader x d = .ok e) : elementType? e = none := by
  rw [s.reader_eq hmem (by omega), readPlace, if_neg (Nat.not_lt.2 hd)] at he
  simp only [hx, readString] at he
  split at he
  · obtain rfl := Except.ok.inj he
    rfl
  · cases he

theorem joinCarriesText_of_forall {args : List Expr} (h : ∀ a ∈ args, elementType? a = none) :
    joinCarriesText args = true := by
  have hnone : args.filterMap elementType? = [] := List.filterMap_eq_nil_iff.2 h
  simp [joinCarriesText, hnone]

theorem eq_ok_of_toOption {α : Type} {x : Lowered α} {a : α} (h : x.toOption = some a) :
    x = .ok a := by
  cases x with
  | error fault => cases h
  | ok b => rw [Option.some.inj h]

theorem readCall_inv {read : Reader} (he : readCall read call d = .ok e) :
    ∃ receiver args, call.arguments.mapM (read · d) = .ok args ∧
      e = .call receiver ((call.node.childText? .name).getD []) args false call.written := by
  obtain ⟨receiver, -, he⟩ := bind_eq_ok he
  obtain ⟨args, hargs, he⟩ := bind_eq_ok he
  exact ⟨receiver, args, hargs, (Except.ok.inj he).symm⟩

end Joins

/-- **A join carries text whatever the elements of its collections are**, and it is read. Its
arguments are separators or references; the types they are declared with may be any but arrays of
arrays. -/
theorem join_carriesText {text : Text} {s : Source} (hs : Source.parse? text = some s)
    {call : Place} (hcall : call ∈ s.places) (hkind : call.kind = .call)
    (hname : call.node.childText? .name = some "join".toList)
    (harguments : ∀ x ∈ call.arguments, x.kind = .stringLiteral ∨
      (x.kind = .identifier ∨ x.kind = .fieldAccess) ∧
        ∀ t, x.writtenType? s.root = some t → (t.takeWhile (· != '<')).count '[' ≤ 1) :
    (∀ e, s.lower call = .ok e → e.carriesText = true) ∧
      (s.root.FieldsApart → Returned s.root (s.lower call)) := by
  constructor
  · intro e he
    rw [show s.lower call = s.reader call 0 from rfl, s.reader_eq hcall (Nat.zero_le _), readPlace,
      if_neg (Nat.not_lt_zero _)] at he
    simp only [hkind] at he
    obtain ⟨receiver, args, hargs, rfl⟩ := readCall_inv he
    have helements : ∀ a ∈ args, elementType? a = none := by
      intro a ha
      obtain ⟨x, hx, hread⟩ := exists_of_mem_mapM hargs a ha
      obtain ⟨list, hlist, hchild⟩ := mem_below_of_arguments hx
      have hmem : x ∈ s.places := mem_places_of_child (mem_places_of_child? hcall hlist) hchild
      rcases harguments x hx with hliteral | ⟨hreference, htype⟩
      · exact elementType?_of_stringLiteral hliteral (Nat.zero_le _) hmem hread
      · exact elementType?_of_reference hreference (Nat.zero_le _) htype hmem hread
    simp [Expr.carriesText, callCarriesText, hname, joinCarriesText_of_forall helements]
  · intro hapart
    have hends := ends_of_mem_places (ordered_of_parse? hs) (kind_root_of_parse? hs) hapart hcall 0
    exact returned_of_acc (mem_states.2 ⟨hcall, Nat.zero_le _⟩) hends

/-- A join of a parameter, a field and a local variable. -/
def joinSource : Text :=
  ("class A \x7b String[] f; String m(java.util.List<?> x, Object z) \x7b " ++
    "java.util.Set<Long> y = z; return String.join(\",\", x, this.f, y); \x7d \x7d").toList

theorem join_carriesText_several : ∃ s call e, Source.parse? joinSource = some s ∧ call ∈ s.places ∧
    call.arguments.map (·.writtenType? s.root) = none ::
      ["java.util.List<?>", "String[]", "java.util.Set<Long>"].map (some ·.toList) ∧
    s.lower call = .ok e ∧ e.carriesText = true := by
  have hcheck : (Source.parse? joinSource).any (fun s => s.places.any fun call =>
      call.kind == .call && call.node.childText? .name == some "join".toList &&
        call.arguments.map (·.writtenType? s.root) == none ::
          ["java.util.List<?>", "String[]", "java.util.Set<Long>"].map (some ·.toList) &&
        (call.arguments.all fun x => x.kind == .stringLiteral ||
          (x.kind == .identifier || x.kind == .fieldAccess) &&
            (x.writtenType? s.root).all fun t => (t.takeWhile (· != '<')).count '[' ≤ 1) &&
        (s.lower call).toOption.isSome) = true := by
    decide +kernel
  simp only [Option.any_eq_true, List.any_eq_true, List.all_eq_true, Bool.and_eq_true,
    Bool.or_eq_true, beq_iff_eq, Option.all_eq_true, decide_eq_true_eq, Option.isSome_iff_exists]
    at hcheck
  obtain ⟨s, hs, call, hcall, ⟨⟨⟨hkind, hname⟩, htypes⟩, harguments⟩, e, he⟩ := hcheck
  have hlower := eq_ok_of_toOption he
  exact ⟨s, call, e, hs, hcall, htypes, hlower,
    (join_carriesText hs hcall hkind hname harguments).1 e hlower⟩

/-- A join of numbers. -/
def joinedNumbersSource : Text :=
  ("class A \x7b String m(java.util.List<Integer> x) \x7b " ++
    "return String.join(\",\", x); \x7d \x7d").toList

/-- The type as it is written tells that the elements are no texts. -/
theorem join_carriesText_integers : ∃ s call e, Source.parse? joinedNumbersSource = some s ∧
    call ∈ s.places ∧ call.node.childText? .name = some "join".toList ∧
    call.arguments.map (fun x => (x.writtenType? s.root).bind elementTypeOf) =
      [none, some (.known "Integer".toList)] ∧
    (ElementType.known "Integer".toList).carriesText = false ∧
    s.lower call = .ok e ∧ e.carriesText = true := by
  have hcheck : (Source.parse? joinedNumbersSource).any (fun s => s.places.any fun call =>
      call.node.childText? .name == some "join".toList &&
        call.arguments.map (fun x => (x.writtenType? s.root).bind elementTypeOf) ==
          [none, some (.known "Integer".toList)] &&
        (s.lower call).toOption.any Expr.carriesText) = true := by
    decide +kernel
  simp only [Option.any_eq_true, List.any_eq_true, Bool.and_eq_true, beq_iff_eq] at hcheck
  obtain ⟨s, hs, call, hcall, ⟨hname, helements⟩, e, he, htext⟩ := hcheck
  have hlower := eq_ok_of_toOption he
  exact ⟨s, call, e, hs, hcall, hname, helements, by decide, hlower, htext⟩

end Java

end SqlInjection
