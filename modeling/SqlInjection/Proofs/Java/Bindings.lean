import SqlInjection.Proofs.Java.Scopes

/-!
# Names and their bindings

A name is looked up by the text of its method: the last local variable with this name that is
declared before it, or else a parameter, or else a field (`Place.declarationFound?`, by
`readName_eq`). `declarationFound?_eq_inScope_iff` says when this is what the name stands for by the
rules of the language (`Place.declarationInScope?`): when the variable that comes last is still in
scope, and when nothing is inherited under the name by a type that is passed on the way to a field.
A variable of a block that ended before the name hides everything else, as
`ended_block_hides_parameter` shows. Names that a pattern can bind are left aside: patterns are
never looked at.

* `lastVariable?_spec`: all other variables that are looked at come before the last one;
* `Place.Used.recorded`: each variable in scope is looked at;
* `Place.Used.declarationInScope?_of_inScopeAt`: of those in scope, the one that comes last has the
  innermost scope.
-/

namespace SqlInjection.Java

/-! ## The last variable -/

section LastLocal

variable {m v x : Place} {name : Text} {use : Nat}

theorem isSome_localVariable? (name : Text) (use : Nat) (p : Place) :
    (localVariable? name use p).isSome = true ↔
      p.isVariable = true ∧ p.declares name = true ∧ (p.kind = .declarator → p.stop ≤ use) := by
  unfold localVariable? Place.isVariable
  cases hkind : p.kind with
  | declarator =>
    cases p.parent? with
    | none => simp
    | some declaration =>
      simp only [Option.any_some, forall_const]
      split <;> simp_all
  | enhancedFor | catchParameter | resource => simp only; split <;> simp_all
  | _ => simp

/-- The places of a method before `use` that declare the name as a local variable, in order. -/
def Place.variablesBeforeUse (method : Place) (name : Text) (use : Nat) : List Place :=
  (method.below.takeWhile (·.start < use)).filter fun p => (localVariable? name use p).isSome

/-- The last of these places. -/
def Place.lastVariable? (method : Place) (name : Text) (use : Nat) : Option Place :=
  (method.variablesBeforeUse name use).getLast?

theorem mem_variablesBeforeUse (hm : m.Regular) : v ∈ m.variablesBeforeUse name use ↔
    v ∈ m.below ∧ v.start < use ∧ (localVariable? name use v).isSome = true := by
  rw [Place.variablesBeforeUse, hm.takeWhile_below, List.mem_filter, List.mem_filter,
    decide_eq_true_eq, and_assoc]

theorem localBefore?_eq (method : Place) (name : Text) (use : Nat) :
    method.localBefore? name use =
      (method.lastVariable? name use).bind (localVariable? name use) := by
  rw [Place.localBefore?, Place.lastVariable?, Place.variablesBeforeUse]
  generalize method.below.takeWhile (·.start < use) = l
  induction l using List.reverseRecOn with
  | nil => rfl
  | append_singleton l p ih =>
    rw [List.filterMap_append, List.filter_append]
    cases hp : localVariable? name use p with
    | none => simpa [hp] using ih
    | some v => simp [hp]

/-- All other variables of the name that are declared before come before the last, and none lies in
it. -/
theorem lastVariable?_spec (hm : m.Regular) (h : m.lastVariable? name use = some v) :
    v ∈ m.below ∧ v.start < use ∧ (localVariable? name use v).isSome = true ∧
      ∀ u ∈ m.below, u.start < use → (localVariable? name use u).isSome = true →
        u = v ∨ u.start ≤ v.start ∧ u ∉ v.below := by
  obtain ⟨before, hlist⟩ := List.getLast?_eq_some_iff.1 h
  obtain ⟨hv, hstart, hrecorded⟩ := (mem_variablesBeforeUse hm).1 (List.mem_of_getLast? h)
  refine ⟨hv, hstart, hrecorded, fun u hu hustart hurecorded => ?_⟩
  have hmem := (mem_variablesBeforeUse hm).2 ⟨hu, hustart, hurecorded⟩
  have hsub : (before ++ [v]).Sublist m.below := by
    rw [← hlist]
    exact List.filter_sublist.trans (List.takeWhile_sublist _)
  rw [hlist] at hmem
  rcases List.mem_append.1 hmem with hbefore | hlast
  · refine Or.inr ⟨?_, ?_⟩
    · exact (List.pairwise_append.1 (hm.sorted_below.sublist hsub)).2.2 u hbefore v
        List.mem_cons_self
    · exact (List.pairwise_append.1 (hm.pairwise_not_below.sublist hsub)).2.2 u hbefore v
        List.mem_cons_self
  · exact Or.inl (List.mem_singleton.1 hlast)

theorem lastVariable?_eq_none (hm : m.Regular) (h : m.lastVariable? name use = none)
    (hv : v ∈ m.below) (hstart : v.start < use) : (localVariable? name use v).isSome = false := by
  rw [← Bool.not_eq_true]
  intro hrecorded
  have hmem := (mem_variablesBeforeUse hm).2 ⟨hv, hstart, hrecorded⟩
  rw [List.getLast?_eq_none_iff.1 h] at hmem
  cases hmem

end LastLocal

/-! ## Names and what declares them -/

/-- The declaration that a name is taken to stand for: the last local variable of the method before
it, or else a parameter, or else a field. -/
def Place.declarationFound? (x : Place) : Option Declaration :=
  let field := (x.field? x.text).map .field
  match x.callable? with
  | none => field
  | some method => ((method.lastVariable? x.text x.start).map .variable).or
      (((x.parameterDeclaration? method x.text).map .parameter).or field)

theorem declarationFound?_eq {x m : Place} (hm : x.callable? = some m) :
    x.declarationFound? = ((m.lastVariable? x.text x.start).map .variable).or
      (((x.parameterDeclaration? m x.text).map .parameter).or ((x.field? x.text).map .field)) := by
  rw [Place.declarationFound?, hm]

/-- How a name is read that stands for a declaration. -/
def readDeclared (read : Reader) (x method : Place) (depth : Nat) :
    Option Declaration → Lowered Expr
  | some (.variable p) =>
    match localVariable? x.text x.start p with
    | some v => do
      let value ← localValue read method v x.start depth
      pure (.ref .variable x.text v.type value x.written)
    | none => pure x.unknown
  | some (.parameter p) =>
    pure (.ref .variable x.text (if p.kind = .parameter then p.declaredType? else none) none
      x.written)
  | some (.field p) => fieldReference read p x.written depth
  | some (.pattern _) | some (.elsewhere _) | none => pure x.unknown

/-- A name is read as what it is taken to stand for. -/
theorem readName_eq {x m : Place} (hm : x.callable? = some m) (read : Reader) (depth : Nat) :
    readName read x depth = readDeclared read x m depth x.declarationFound? := by
  rw [declarationFound?_eq hm, readName]
  simp only [hm, localBefore?_eq]
  cases hlast : m.lastVariable? x.text x.start with
  | some p =>
    have hrecorded : (localVariable? x.text x.start p).isSome = true := by
      have hmem := List.mem_of_getLast? hlast
      exact (List.mem_filter.1 hmem).2
    obtain ⟨v, hv⟩ := Option.isSome_iff_exists.1 hrecorded
    simp only [Option.bind_some, hv, Option.map_some, Option.some_or, readDeclared]
  | none =>
    simp only [Option.bind_none, Option.map_none, Option.none_or, type_parameter?]
    cases x.parameterDeclaration? m x.text with
    | some p => rfl
    | none =>
      simp only [Option.map_none, Option.none_or, readFieldName]
      cases x.field? x.text <;> rfl

namespace Place

/-- A name that is used in the body of the method around it: it lies in the bodies of all lambda
expressions around it, in no initial value of a variable with this name, and in no class inside the
method that has or inherits a field with this name; no pattern can bind it, and as a case label it
is no constant of an enum. -/
structure Used (env : Environment) (x : Place) : Prop where
  name : x.kind = .identifier
  bodies : ∀ s ∈ x.ownSteps, s.1.kind = .lambda ∨ s.1.kind.isCallable = true →
    s.2.isBodyOf s.1 = true
  initial : ∀ s ∈ x.ownSteps, s.2.kind = .declarator ∨ s.2.kind = .resource →
    s.2.declares x.text = false
  patterns : ∀ s ∈ x.ownSteps, ∀ q ∈ s.1.patternsBefore s.2, q.binds x.text = false
  fields : ∀ s ∈ x.ownSteps, s.1.fieldFor? x.text s.2 = none ∧
    (s.1.kind.isType = true → s.1.fieldOf? x.text = none)
  elsewhere : ∀ s ∈ x.ownSteps, s.1.elsewhereFor? env x.text s.2 = none

/-- Around a method, nothing but the fields of types with a name is declared under this name in the
source. -/
structure OnlyFieldsAround (m : Place) (name : Text) : Prop where
  locals : ∀ s ∈ m.steps, ∀ v ∈ s.1.variablesFor s.2, v.declares name = false
  patterns : ∀ s ∈ m.steps, ∀ q ∈ s.1.patternsBefore s.2, q.binds name = false
  parameters : ∀ s ∈ m.steps, s.1.parameterFor? name s.2 = none
  types : ∀ s ∈ m.steps, s.1.kind.isType = true →
    s.2.node.role = some .body ∧ s.1.constantOf? name = none
  bodies : ∀ s ∈ m.steps, s.1.kind.isType = false → s.1.fieldFor? name s.2 = none

instance (env : Environment) (x : Place) : Decidable (x.Used env) :=
  decidable_of_iff (x.kind = .identifier ∧
    (∀ s ∈ x.ownSteps, s.1.kind = .lambda ∨ s.1.kind.isCallable = true →
      s.2.isBodyOf s.1 = true) ∧
    (∀ s ∈ x.ownSteps, s.2.kind = .declarator ∨ s.2.kind = .resource →
      s.2.declares x.text = false) ∧
    (∀ s ∈ x.ownSteps, ∀ q ∈ s.1.patternsBefore s.2, q.binds x.text = false) ∧
    (∀ s ∈ x.ownSteps, s.1.fieldFor? x.text s.2 = none ∧
      (s.1.kind.isType = true → s.1.fieldOf? x.text = none)) ∧
    ∀ s ∈ x.ownSteps, s.1.elsewhereFor? env x.text s.2 = none)
    ⟨fun ⟨hname, hbodies, hinitial, hpatterns, hfields, helsewhere⟩ =>
        ⟨hname, hbodies, hinitial, hpatterns, hfields, helsewhere⟩,
      fun ⟨hname, hbodies, hinitial, hpatterns, hfields, helsewhere⟩ =>
        ⟨hname, hbodies, hinitial, hpatterns, hfields, helsewhere⟩⟩

instance (m : Place) (name : Text) : Decidable (m.OnlyFieldsAround name) :=
  decidable_of_iff ((∀ s ∈ m.steps, ∀ v ∈ s.1.variablesFor s.2, v.declares name = false) ∧
    (∀ s ∈ m.steps, ∀ q ∈ s.1.patternsBefore s.2, q.binds name = false) ∧
    (∀ s ∈ m.steps, s.1.parameterFor? name s.2 = none) ∧
    (∀ s ∈ m.steps, s.1.kind.isType = true →
      s.2.node.role = some .body ∧ s.1.constantOf? name = none) ∧
    ∀ s ∈ m.steps, s.1.kind.isType = false → s.1.fieldFor? name s.2 = none)
    ⟨fun ⟨hlocals, hpatterns, hparameters, htypes, hbodies⟩ =>
        ⟨hlocals, hpatterns, hparameters, htypes, hbodies⟩,
      fun ⟨hlocals, hpatterns, hparameters, htypes, hbodies⟩ =>
        ⟨hlocals, hpatterns, hparameters, htypes, hbodies⟩⟩

/-- The steps from a method outward, up to the first type that has a field with this name. -/
def stepsToField (m : Place) (name : Text) : List (Place × Place) :=
  m.steps.takeWhile fun s => !(s.1.kind.isType && (s.1.fieldOf? name).isSome)

/-- The lambda expressions of a method around a place. -/
def lambdas (x : Place) : List Place :=
  (x.enclosing.takeWhile (!·.kind.isCallable)).filter (·.kind == .lambda)

end Place

section Bindings

variable {root : Node} {env : Environment} {x m p c v : Place}

theorem patternFor?_eq_none {name : Text} (env : Environment)
    (h : ∀ q ∈ p.patternsBefore c, q.binds name = false) : p.patternFor? env name c = none := by
  rw [Place.patternFor?, List.getLast?_eq_none_iff]
  exact List.filter_eq_nil_iff.2 fun q hq => by simp [h q hq]

/-- Around a method, a step brings in a field of a type or something from elsewhere. -/
theorem Place.OnlyFieldsAround.declared?_eq {name : Text} (h : m.OnlyFieldsAround name)
    (hs : (p, c) ∈ m.steps) : p.declared? env name c =
      ((if p.kind.isType then p.fieldOf? name else none).map .field).or
        ((p.elsewhereFor? env name c).map .elsewhere) := by
  have hnone : (p.variablesFor c).filter (·.declares name) = [] :=
    List.filter_eq_nil_iff.2 fun v hv => by simp [h.locals _ hs v hv]
  have hfield : p.fieldFor? name c = if p.kind.isType then p.fieldOf? name else none := by
    cases htype : p.kind.isType with
    | false => simpa using h.bodies _ hs htype
    | true =>
      have hbody : c.node.role = some .body := (h.types _ hs htype).1
      have hconstant : p.constantOf? name = none := (h.types _ hs htype).2
      simp [Place.fieldFor?, htype, hbody, hconstant]
  rw [Place.declared?, hnone, patternFor?_eq_none env (h.patterns _ hs), h.parameters _ hs, hfield]
  rfl

/-- The first field of the types on the way is found first exactly if nothing comes from elsewhere
before. -/
theorem findSome?_fields {name : Text} {steps : List (Place × Place)}
    {f : Place × Place → Option Declaration} {elsewhere : Place × Place → Option Place}
    (h : ∀ s ∈ steps, f s = ((if s.1.kind.isType then s.1.fieldOf? name else none).map .field).or
      ((elsewhere s).map .elsewhere)) :
    ((((steps.map Prod.fst).filter (·.kind.isType)).findSome? (·.fieldOf? name)).map .field =
        steps.findSome? f) ↔
      ∀ s ∈ steps.takeWhile (fun s => !(s.1.kind.isType && (s.1.fieldOf? name).isSome)),
        elsewhere s = none := by
  induction steps with
  | nil => simp
  | cons s steps ih =>
    have hrest := ih fun t ht => h t (List.mem_cons_of_mem s ht)
    rw [List.findSome?_cons, h s List.mem_cons_self, List.map_cons]
    cases hfound : (if s.1.kind.isType then s.1.fieldOf? name else none) with
    | some field =>
      obtain ⟨htype, hfield⟩ : s.1.kind.isType = true ∧ s.1.fieldOf? name = some field := by
        simpa using hfound
      rw [List.filter_cons_of_pos (by simpa using htype), List.findSome?_cons, hfield,
        List.takeWhile_cons_of_neg (by simp [htype, hfield])]
      simp
    | none =>
      have hpassed : (s.1.kind.isType && (s.1.fieldOf? name).isSome) = false := by
        cases htype : s.1.kind.isType <;> simp_all
      have hskip : (((s.1 :: steps.map Prod.fst).filter (·.kind.isType)).findSome?
          (·.fieldOf? name)) =
            ((steps.map Prod.fst).filter (·.kind.isType)).findSome? (·.fieldOf? name) := by
        cases htype : s.1.kind.isType with
        | false => rw [List.filter_cons_of_neg (by simp [htype])]
        | true =>
          have hfield : s.1.fieldOf? name = none := by simpa [htype] using hfound
          rw [List.filter_cons_of_pos (by simpa using htype), List.findSome?_cons, hfield]
      rw [hskip, List.takeWhile_cons_of_pos (by rw [hpassed]; rfl), List.forall_mem_cons]
      cases elsewhere s with
      | none => simpa using hrest
      | some q =>
        simp only [Option.map_none, Option.none_or, Option.map_some, reduceCtorEq, false_and,
          Option.map_eq_some_iff, and_false, exists_false]

/-- Around a method, the first field with a name is what the name stands for exactly if nothing is
brought in from elsewhere before. -/
theorem findSome?_around {name : Text} (h : m.OnlyFieldsAround name) :
    (((m.enclosing.filter (·.kind.isType)).findSome? (·.fieldOf? name)).map .field =
        m.steps.findSome? fun s => s.1.declared? env name s.2) ↔
      ∀ s ∈ m.stepsToField name, s.1.elsewhereFor? env name s.2 = none := by
  rw [← Place.map_fst_steps, Place.stepsToField]
  exact findSome?_fields fun s hs => h.declared?_eq hs

theorem findSome?_lambdas {name : Text} {steps : List (Place × Place)}
    {f : Place × Place → Option Declaration}
    (h : ∀ s ∈ steps, f s = (if s.1.kind == .lambda then s.1.parameterDeclarationIn? name
      else none).map .parameter) :
    steps.findSome? f = (((steps.map Prod.fst).filter (·.kind == .lambda)).findSome?
      (·.parameterDeclarationIn? name)).map .parameter := by
  induction steps with
  | nil => rfl
  | cons s steps ih =>
    have hrest := ih fun t ht => h t (List.mem_cons_of_mem s ht)
    rw [List.findSome?_cons, h s List.mem_cons_self, hrest, List.map_cons]
    cases hkind : s.1.kind == .lambda with
    | false =>
      rw [List.filter_cons_of_neg (by simp [hkind])]
      rfl
    | true =>
      rw [List.filter_cons_of_pos (by exact hkind), List.findSome?_cons]
      cases s.1.parameterDeclarationIn? name <;> rfl

theorem mem_of_declared?_variable {env : Environment} {name : Text}
    (h : p.declared? env name c = some (.variable v)) :
    v ∈ (p.variablesFor c).filter (·.declares name) := by
  cases hlast : ((p.variablesFor c).filter (·.declares name)).getLast? with
  | some u =>
    rw [Place.declared?, hlast, Option.map_some, Option.some_or] at h
    obtain rfl := Declaration.variable.inj (Option.some.inj h)
    exact List.mem_of_getLast? hlast
  | none =>
    rw [Place.declared?, hlast, Option.map_none, Option.none_or] at h
    simp [Option.or_eq_some_iff] at h

/-- What has a parameter starts before its body. -/
theorem start_lt_of_isBodyOf {name : Text} (hp : p.Regular) (hbody : c.isBodyOf p = true)
    (hparameter : (p.parameterDeclarationIn? name).isSome = true) : p.start < c.start := by
  cases hparams : p.child? .parameters with
  | none => simp [Place.parameterDeclarationIn?, hparams] at hparameter
  | some params =>
    have hstop : params.stop ≤ c.start := by
      simpa [Place.isBodyOf, hparams] using (Bool.and_eq_true_iff.1 hbody).2
    obtain ⟨hregular, hstart, -⟩ := hp.child (Place.mem_children_of_child? hparams).1
    have hspan := hregular.span
    omega

/-- What a step inside the method declares under the name. -/
theorem Place.Used.declared?_eq (huse : x.Used env) (h : (p, c) ∈ x.ownSteps) :
    p.declared? env x.text c =
    ((((p.variablesFor c).filter (·.declares x.text)).getLast?).map .variable).or
      ((if p.kind == .lambda || p.kind.isCallable then p.parameterDeclarationIn? x.text
        else none).map .parameter) := by
  have hparameter : p.parameterFor? x.text c =
      if p.kind == .lambda || p.kind.isCallable then p.parameterDeclarationIn? x.text
        else none := by
    unfold Place.parameterFor?
    cases htakes : (p.kind == .lambda || p.kind.isCallable) with
    | false => rfl
    | true =>
      have hbody := huse.bodies _ h (by simpa using htakes)
      simp [hbody]
  rw [Place.declared?, patternFor?_eq_none env (huse.patterns _ h), hparameter,
    (huse.fields _ h).1, huse.elsewhere _ h]
  simp

theorem Place.lambdas_eq {inner : List (Place × Place)} {d : Place}
    (hsteps : x.steps = inner ++ (m, d) :: m.steps) (hcallable : m.kind.isCallable = true)
    (hinner : ∀ s ∈ inner, s.1.kind.isCallable = false) :
    x.lambdas = (inner.map Prod.fst).filter (·.kind == .lambda) := by
  rw [Place.lambdas, ← Place.map_fst_steps, hsteps, List.map_append, List.map_cons,
    List.takeWhile_append_of_pos, List.takeWhile_cons_of_neg (by simp [hcallable]), List.append_nil]
  intro q hq
  obtain ⟨s, hs, rfl⟩ := List.mem_map.1 hq
  rw [hinner s hs]
  rfl

variable (hordered : root.Ordered) (hroot : root.kind = .program) (hx : x ∈ root.places)
  (huse : x.Used env) (hmethod : x.callable? = some m)
include hordered hroot hx huse hmethod

/-- The method of a name, and the steps up to it. -/
theorem Place.Used.steps : m.Regular ∧ ∃ inner c, x.steps = inner ++ (m, c) :: m.steps ∧
    x.ownSteps = inner ++ [(m, c)] ∧ m.kind.isCallable = true ∧ m ∈ root.places ∧
    ∀ s ∈ inner, s.1.kind.isCallable = false := by
  obtain ⟨hcallable, hregular⟩ := Place.regular_of_callable? hordered hroot hx hmethod
  obtain ⟨hm, -⟩ := mem_places_of_callable? hx hmethod
  have hkind : x.kind.isCallable = false := by rw [huse.name]; rfl
  obtain ⟨inner, c, hsteps, hinner, hchildren⟩ :=
    Place.exists_steps_split hx hkind hmethod
  exact ⟨hregular, inner, c, hsteps, Place.ownSteps_eq hcallable hsteps hchildren, hcallable, hm,
    hinner⟩

theorem Place.Used.ownStep (h : (p, c) ∈ x.ownSteps) :
    c ∈ p.children ∧ x ∈ c.below ∧ p ∈ m.below ∧ p.Regular := by
  obtain ⟨hregular, inner, d, hsteps, hown, hcallable, hm, -⟩ :=
    huse.steps hordered hroot hx hmethod
  have hmem : (p, c) ∈ x.steps := (List.takeWhile_prefix _).subset h
  obtain ⟨hc, hbelow, hp⟩ := Place.mem_steps hx hmem
  have hpm : p ∈ m.below := by
    rw [hown] at h
    rcases List.mem_append.1 h with hinner | hlast
    · have hpairwise := Place.pairwise_steps hx
      rw [hsteps, List.pairwise_append] at hpairwise
      have hd : d ∈ m.children :=
        (Place.mem_steps hx (by rw [hsteps]; simp)).1
      exact Place.below_trans (Place.mem_below_of_child hd)
        (hpairwise.2.2 _ hinner (m, d) List.mem_cons_self)
    · obtain ⟨rfl, -⟩ := Prod.mk.inj (List.mem_singleton.1 hlast)
      exact Place.self_mem_below p
  exact ⟨hc, hbelow, hpm, (hregular.below hpm).1⟩

/-- A variable in scope is one that is looked at, and is declared before the child that the name
lies in, or by the node around it. -/
theorem Place.Used.recorded (h : (p, c) ∈ x.ownSteps) (hv : v ∈ p.variablesFor c)
    (hname : v.declares x.text = true) :
    v ∈ m.below ∧ v.start < x.start ∧ (localVariable? x.text x.start v).isSome = true ∧
      (v ∈ p.below ∧ v.stop ≤ c.start ∨ v = p ∧ p.start < c.start) := by
  obtain ⟨hc, hxc, hpm, hp⟩ := huse.ownStep hordered hroot hx hmethod h
  obtain ⟨-, hxstart, -⟩ := (hp.child hc).1.below hxc
  obtain ⟨hvariable, hcases⟩ := Place.variablesFor_cases hp hc hv
  rw [isSome_localVariable?]
  rcases hcases with ⟨hbelow, hstop⟩ | ⟨rfl, hkind⟩ | ⟨rfl, hkind, hstart⟩
  · have hspan := (hp.below hbelow).1.span
    exact ⟨Place.below_trans hpm hbelow, by omega, ⟨hvariable, hname, fun _ => by omega⟩,
      Or.inl ⟨hbelow, hstop⟩⟩
  · have hnot := huse.initial _ h hkind
    rw [hname] at hnot
    cases hnot
  · refine ⟨hpm, by omega, ⟨hvariable, hname, fun hdeclarator => ?_⟩, Or.inr ⟨rfl, hstart⟩⟩
    rw [hkind] at hdeclarator
    cases hdeclarator

/-- A variable of the method is in scope by one of the steps inside the method. -/
theorem Place.Used.ownStep_of_inScopeAt (hv : v ∈ m.below) (hscope : v.InScopeAt x) :
    ∃ p c, (p, c) ∈ x.ownSteps ∧ v ∈ p.variablesFor c := by
  obtain ⟨hregular, inner, d, hsteps, hown, hcallable, hm, -⟩ :=
    huse.steps hordered hroot hx hmethod
  obtain ⟨⟨p, c⟩, hmem, hvariables⟩ := hscope
  have hall : x.steps = x.ownSteps ++ m.steps := by rw [hsteps, hown]; simp
  rw [hall] at hmem
  rcases List.mem_append.1 hmem with hmem | hmem
  · exact ⟨p, c, hmem, hvariables⟩
  · exfalso
    obtain ⟨hc, hmc, hp⟩ := Place.mem_steps hm hmem
    have hpregular : p.Regular := Place.regular_of_kind_ne hordered hroot hp fun hkind => by
      simp [Place.variablesFor, hkind, Kind.isSequence] at hvariables
    have hmp : m ∈ p.below := Place.below_trans (Place.mem_below_of_child hc) hmc
    obtain ⟨-, hmstart, -⟩ := (hpregular.child hc).1.below hmc
    obtain ⟨hvregular, hvstart, -⟩ := hregular.below hv
    have hspan := hvregular.span
    rcases (Place.variablesFor_cases hpregular hc hvariables).2 with
      ⟨-, hstop⟩ | ⟨rfl, hkind⟩ | ⟨rfl, -, -⟩
    · omega
    · rcases Relation.ReflTransGen.cases_head (Place.mem_below_iff.1 hmc) with rfl | ⟨q, hq, hmq⟩
      · rcases hkind with hkind | hkind <;> rw [hkind] at hcallable <;> cases hcallable
      · exact Place.not_mem_below_of_child hq (Place.below_trans (Place.mem_below_iff.2 hmq) hv)
    · exact Place.not_mem_below_of_child hc (Place.below_trans hmc hv)

/-- Of the variables that a step brings into scope, the last is the last of all. -/
theorem Place.Used.getLast?_variablesFor (hlast : m.lastVariable? x.text x.start = some v)
    (h : (p, c) ∈ x.ownSteps) (hv : v ∈ p.variablesFor c) :
    ((p.variablesFor c).filter (·.declares x.text)).getLast? = some v := by
  obtain ⟨hregular, -⟩ := huse.steps hordered hroot hx hmethod
  obtain ⟨hvm, -, hrecorded, hbefore⟩ := lastVariable?_spec hregular hlast
  have hname := ((isSome_localVariable? _ _ _).1 hrecorded).2.1
  have hspan := (hregular.below hvm).1.span
  obtain ⟨-, -, -, hp⟩ := huse.ownStep hordered hroot hx hmethod h
  have hmem : v ∈ (p.variablesFor c).filter (·.declares x.text) := List.mem_filter.2 ⟨hv, hname⟩
  cases hu : ((p.variablesFor c).filter (·.declares x.text)).getLast? with
  | none =>
    rw [List.getLast?_eq_none_iff.1 hu] at hmem
    cases hmem
  | some u =>
    obtain ⟨before, hlist⟩ := List.getLast?_eq_some_iff.1 hu
    have hpairwise := (Place.pairwise_variablesFor hp c).filter (·.declares x.text)
    obtain ⟨huvariables, hudeclares⟩ := List.mem_filter.1 (List.mem_of_getLast? hu)
    obtain ⟨hum, hustart, hurecorded, -⟩ :=
      huse.recorded hordered hroot hx hmethod h huvariables hudeclares
    rw [hlist] at hmem hpairwise
    rcases List.mem_append.1 hmem with hmem | hmem
    · have hle := (List.pairwise_append.1 hpairwise).2.2 v hmem u List.mem_cons_self
      rcases hbefore u hum hustart hurecorded with rfl | ⟨hle', -⟩ <;> omega
    · rw [List.mem_singleton.1 hmem]

/-- Inside the scope of the last variable before a name, no other is declared around the name. -/
theorem Place.Used.no_variable_inside (hlast : m.lastVariable? x.text x.start = some v)
    (h : (p, c) ∈ x.ownSteps) (hv : v ∈ p.variablesFor c) {q e : Place} (hq : (q, e) ∈ x.ownSteps)
    (hqc : q ∈ c.below) : (q.variablesFor e).filter (·.declares x.text) = [] := by
  obtain ⟨hregular, -⟩ := huse.steps hordered hroot hx hmethod
  obtain ⟨hvm, -, hrecorded, hbefore⟩ := lastVariable?_spec hregular hlast
  have hname := ((isSome_localVariable? _ _ _).1 hrecorded).2.1
  have hspan := (hregular.below hvm).1.span
  obtain ⟨hc, -, -, hp⟩ := huse.ownStep hordered hroot hx hmethod h
  refine List.filter_eq_nil_iff.2 fun u hu hdeclares => ?_
  obtain ⟨hum, hustart, hurecorded, hplace⟩ :=
    huse.recorded hordered hroot hx hmethod hq hu hdeclares
  have huc : u ∈ c.below := by
    rcases hplace with ⟨hbelow, -⟩ | ⟨rfl, -⟩
    · exact Place.below_trans hqc hbelow
    · exact hqc
  obtain ⟨-, hucstart, -⟩ := (hp.child hc).1.below huc
  -- the last variable ends before the child, or is a loop that the child lies in
  obtain ⟨-, -, -, hwhere⟩ := huse.recorded hordered hroot hx hmethod h hv hname
  rcases hwhere with ⟨-, hstop⟩ | ⟨rfl, -⟩
  · rcases hbefore u hum hustart hurecorded with rfl | ⟨hle, -⟩ <;> omega
  · rcases hbefore u hum hustart hurecorded with rfl | ⟨-, hnot⟩
    · exact Place.not_mem_below_of_child hc huc
    · exact hnot (Place.below_trans (Place.mem_below_of_child hc) huc)

/-- Inside the scope of a variable, a parameter with this name is one of a lambda expression behind
the variable. -/
theorem Place.Used.no_parameter_inside (h : (p, c) ∈ x.ownSteps) (hv : v ∈ p.variablesFor c)
    (hname : v.declares x.text = true)
    (hlambdas : ∀ l ∈ x.lambdas, (l.parameterDeclarationIn? x.text).isSome = true →
      l.start < v.start)
    {q e : Place} (hq : (q, e) ∈ x.ownSteps) (hqc : q ∈ c.below) :
    (if q.kind == .lambda || q.kind.isCallable then q.parameterDeclarationIn? x.text
      else none) = none := by
  obtain ⟨hregular, inner, d, hsteps, hown, hcallable, hm, hinner⟩ :=
    huse.steps hordered hroot hx hmethod
  obtain ⟨hc, -, hpm, hp⟩ := huse.ownStep hordered hroot hx hmethod h
  obtain ⟨-, hqstart, -⟩ := (hp.child hc).1.below hqc
  obtain ⟨hvm, -, -, hwhere⟩ := huse.recorded hordered hroot hx hmethod h hv hname
  have hspan := (hregular.below hvm).1.span
  split
  · next htakes =>
    rw [hown] at hq
    rcases List.mem_append.1 hq with hq | hq
    · have hlambda : q.kind = .lambda := by simpa [hinner _ hq] using htakes
      have hmem : q ∈ x.lambdas := by
        rw [Place.lambdas_eq hsteps hcallable hinner]
        exact List.mem_filter.2 ⟨List.mem_map_of_mem hq, by simp [hlambda]⟩
      rw [← Option.not_isSome_iff_eq_none]
      intro hsome
      have hlt := hlambdas q hmem hsome
      rcases hwhere with ⟨-, hstop⟩ | ⟨rfl, hstart⟩ <;> omega
    · obtain ⟨rfl, -⟩ := Prod.mk.inj (List.mem_singleton.1 hq)
      exact absurd (Place.below_trans hqc hpm) (Place.not_mem_below_of_child hc)
  · rfl

/-- The last variable before a name is what the name stands for if it is in scope and no lambda
expression behind it has a parameter with this name. -/
theorem Place.Used.declarationInScope?_of_inScopeAt
    (hlast : m.lastVariable? x.text x.start = some v) (hscope : v.InScopeAt x)
    (hlambdas : ∀ l ∈ x.lambdas, (l.parameterDeclarationIn? x.text).isSome = true →
      l.start < v.start) :
    x.declarationInScope? env = some (.variable v) := by
  obtain ⟨hregular, inner, d, hsteps, hown, -⟩ := huse.steps hordered hroot hx hmethod
  obtain ⟨hv, -, hrecorded, -⟩ := lastVariable?_spec hregular hlast
  have hname := ((isSome_localVariable? _ _ _).1 hrecorded).2.1
  obtain ⟨p, c, hstep, hvariables⟩ := huse.ownStep_of_inScopeAt hordered hroot hx hmethod hv hscope
  obtain ⟨front, back, hsplit⟩ := List.append_of_mem hstep
  have hall : x.steps = front ++ (p, c) :: (back ++ m.steps) := by
    rw [hsteps, ← List.singleton_append, ← List.append_assoc, ← hown, hsplit]
    simp
  rw [Place.declarationInScope?, hall, List.findSome?_eq_some_iff]
  refine ⟨front, (p, c), _, rfl, ?_, ?_⟩
  · rw [huse.declared?_eq hstep,
      huse.getLast?_variablesFor hordered hroot hx hmethod hlast hstep hvariables]
    rfl
  · rintro ⟨q, e⟩ hfront
    have hmem : (q, e) ∈ x.ownSteps := by rw [hsplit]; exact List.mem_append_left _ hfront
    have hqc : q ∈ c.below := by
      have hpairwise := Place.pairwise_steps hx
      rw [hall, List.pairwise_append] at hpairwise
      exact hpairwise.2.2 _ hfront (p, c) List.mem_cons_self
    rw [huse.declared?_eq hmem,
      huse.no_variable_inside hordered hroot hx hmethod hlast hstep hvariables hmem hqc,
      huse.no_parameter_inside hordered hroot hx hmethod hstep hvariables hname hlambdas hmem hqc]
    rfl

/-- If a name stands for a variable of the method, then no lambda expression behind the variable has
a parameter with this name. -/
theorem Place.Used.inScopeAt_of_declarationInScope?
    (h : x.declarationInScope? env = some (.variable v)) :
    v.InScopeAt x ∧ ∀ l ∈ x.lambdas, (l.parameterDeclarationIn? x.text).isSome = true →
      l.start < v.start := by
  obtain ⟨hregular, inner, d, hsteps, hown, hcallable, hm, hinner⟩ :=
    huse.steps hordered hroot hx hmethod
  obtain ⟨front, ⟨p, c⟩, back, hall, hdeclared, hfront⟩ := List.findSome?_eq_some_iff.1 h
  obtain ⟨hvariables, -⟩ := List.mem_filter.1 (mem_of_declared?_variable hdeclared)
  have hscope : v.InScopeAt x := ⟨(p, c), by rw [hall]; simp, hvariables⟩
  refine ⟨hscope, fun l hl hparameter => ?_⟩
  rw [Place.lambdas_eq hsteps hcallable hinner] at hl
  obtain ⟨hl, hkind⟩ := List.mem_filter.1 hl
  obtain ⟨⟨l, e⟩, hle, rfl⟩ := List.mem_map.1 hl
  have hlambda : l.kind = .lambda := beq_iff_eq.1 hkind
  have hstep : (l, e) ∈ x.ownSteps := by rw [hown]; exact List.mem_append_left _ hle
  obtain ⟨hel, -, -, hlregular⟩ := huse.ownStep hordered hroot hx hmethod hstep
  have hestart : l.start < e.start :=
    start_lt_of_isBodyOf hlregular (huse.bodies _ hstep (Or.inl hlambda)) hparameter
  have hafter : p ∈ e.below := by
    have hlmem : (l, e) ∈ x.steps := (List.takeWhile_prefix _).subset hstep
    have hpairwise := Place.pairwise_steps hx
    rw [hall] at hlmem hpairwise
    rcases List.mem_append.1 hlmem with hlmem | hlmem
    · -- it would have been found before
      have hnone := hfront _ hlmem
      rw [huse.declared?_eq hstep, hlambda] at hnone
      obtain ⟨parameter, hparameter⟩ := Option.isSome_iff_exists.1 hparameter
      simp [hparameter] at hnone
    · rcases List.mem_cons.1 hlmem with heq | hlmem
      · obtain ⟨rfl, rfl⟩ := Prod.mk.inj heq
        simp [Place.variablesFor, hlambda, Kind.isSequence] at hvariables
      · exact (List.pairwise_cons.1 (List.pairwise_append.1 hpairwise).2.1).1 _ hlmem
  obtain ⟨hc, -, -⟩ := Place.mem_steps hx (by rw [hall]; simp : (p, c) ∈ x.steps)
  obtain ⟨heregular, -, -⟩ := hlregular.child hel
  have hvp : v ∈ p.below := by
    rcases (Place.variablesFor_cases (heregular.below hafter).1 hc hvariables).2 with
      ⟨hbelow, -⟩ | ⟨rfl, -⟩ | ⟨rfl, -⟩
    · exact hbelow
    · exact Place.mem_below_of_child hc
    · exact Place.self_mem_below v
  obtain ⟨-, hvstart, -⟩ := heregular.below (Place.below_trans hafter hvp)
  show l.start < v.start
  omega

/-- If the method declares no variable with this name before it, a name stands for a parameter or
for what is declared around the method. -/
theorem Place.Used.declarationInScope?_of_none (hlast : m.lastVariable? x.text x.start = none) :
    x.declarationInScope? env = ((x.parameterDeclaration? m x.text).map .parameter).or
      (m.steps.findSome? fun s => s.1.declared? env x.text s.2) := by
  obtain ⟨hregular, inner, d, hsteps, hown, hcallable, hm, hinner⟩ :=
    huse.steps hordered hroot hx hmethod
  have hdeclared : ∀ s ∈ x.ownSteps, s.1.declared? env x.text s.2 =
      (if s.1.kind == .lambda || s.1.kind.isCallable then s.1.parameterDeclarationIn? x.text
        else none).map .parameter := by
    rintro ⟨p, c⟩ hstep
    have hnone : (p.variablesFor c).filter (·.declares x.text) = [] := by
      refine List.filter_eq_nil_iff.2 fun u hu hdeclares => ?_
      obtain ⟨hum, hustart, hurecorded, -⟩ :=
        huse.recorded hordered hroot hx hmethod hstep hu hdeclares
      rw [lastVariable?_eq_none hregular hlast hum hustart] at hurecorded
      cases hurecorded
    rw [huse.declared?_eq hstep, hnone]
    rfl
  have hlambdas : inner.findSome? (fun s => s.1.declared? env x.text s.2) =
      (x.lambdas.findSome? (·.parameterDeclarationIn? x.text)).map .parameter := by
    rw [Place.lambdas_eq hsteps hcallable hinner]
    refine findSome?_lambdas fun s hs => ?_
    rw [hdeclared s (by rw [hown]; exact List.mem_append_left _ hs), hinner s hs, Bool.or_false]
  have hself : m.declared? env x.text d = (m.parameterDeclarationIn? x.text).map .parameter := by
    rw [hdeclared (m, d) (by rw [hown]; simp)]
    simp [hcallable]
  have hparameter : x.parameterDeclaration? m x.text =
      (x.lambdas.findSome? (·.parameterDeclarationIn? x.text)).or
        (m.parameterDeclarationIn? x.text) := rfl
  rw [Place.declarationInScope?, hsteps, List.findSome?_append, List.findSome?_cons, hlambdas,
    hself, hparameter]
  cases x.lambdas.findSome? (·.parameterDeclarationIn? x.text) <;>
    cases m.parameterDeclarationIn? x.text <;> rfl

theorem Place.Used.field?_eq : x.field? x.text =
    (m.enclosing.filter (·.kind.isType)).findSome? (·.fieldOf? x.text) := by
  obtain ⟨hregular, inner, d, hsteps, hown, hcallable, hm, hinner⟩ :=
    huse.steps hordered hroot hx hmethod
  have henclosing : x.enclosing = x.ownSteps.map Prod.fst ++ m.enclosing := by
    rw [← Place.map_fst_steps x, ← Place.map_fst_steps m, hsteps, hown]
    simp
  have hnone : ((x.ownSteps.map Prod.fst).filter (·.kind.isType)).findSome?
      (·.fieldOf? x.text) = none := by
    refine List.findSome?_eq_none_iff.2 fun p hp => ?_
    obtain ⟨hp, htype⟩ := List.mem_filter.1 hp
    obtain ⟨s, hs, rfl⟩ := List.mem_map.1 hp
    exact (huse.fields s hs).2 htype
  rw [Place.field?, henclosing, List.filter_append, List.findSome?_append, hnone, Option.none_or]

end Bindings

/-- **When a name is bound as the language says.** A name that is used in a method is read as the
declaration that is found for it. Let no pattern bind the name, and nothing but fields have it
around the method. Then, whatever is inherited and imported, the declaration found is the one whose
scope contains the name exactly if

* the last local variable with this name that is declared before it, if there is one, is still in
  scope, and no lambda expression between the two has a parameter with this name;
* where there is neither such a variable nor a parameter, no type that is passed before the first
  with a field of this name inherits one, and if no type has such a field, nothing is imported under
  this name. -/
theorem declarationFound?_eq_inScope_iff (env : Environment) {text : Text} {s : Source}
    (hs : Source.parse? text = some s) {x m : Place} (hx : x ∈ s.places) (huse : x.Used env)
    (hmethod : x.callable? = some m) (haround : m.OnlyFieldsAround x.text) :
    (∀ read depth, readName read x depth = readDeclared read x m depth x.declarationFound?) ∧
      (x.declarationFound? = x.declarationInScope? env ↔
        (∀ v, m.lastVariable? x.text x.start = some v → v.InScopeAt x ∧
          ∀ l ∈ x.lambdas, (l.parameterDeclarationIn? x.text).isSome = true →
            l.start < v.start) ∧
        (m.lastVariable? x.text x.start = none → x.parameterDeclaration? m x.text = none →
          ∀ s ∈ m.stepsToField x.text, s.1.elsewhereFor? env x.text s.2 = none)) := by
  have hordered := ordered_of_parse? hs
  have hroot := kind_root_of_parse? hs
  refine ⟨readName_eq hmethod, ?_⟩
  rw [declarationFound?_eq hmethod]
  cases hlast : m.lastVariable? x.text x.start with
  | some v =>
    simp only [Option.map_some, Option.some_or, Option.some.injEq, forall_eq', reduceCtorEq,
      false_imp_iff, and_true]
    constructor
    · intro hscope
      exact huse.inScopeAt_of_declarationInScope? hordered hroot hx hmethod hscope.symm
    · rintro ⟨hscope, hlambdas⟩
      symm
      exact huse.declarationInScope?_of_inScopeAt hordered hroot hx hmethod hlast hscope hlambdas
  | none =>
    rw [huse.declarationInScope?_of_none hordered hroot hx hmethod hlast,
      huse.field?_eq hordered hroot hx hmethod]
    simp only [Option.map_none, Option.none_or, reduceCtorEq, false_imp_iff, implies_true, true_and,
      forall_const]
    cases x.parameterDeclaration? m x.text with
    | some p => simp
    | none => simpa using findSome?_around haround

/-- A variable of an inner block that hides a field, used in a lambda expression. A pattern with the
same name has bound it for an initial value only. -/
def innerBlockSource : Text :=
  ("class A extends B \x7b T s; void m(T l) \x7b boolean b = l instanceof T s && s.c(); " ++
    "for (T t : l) \x7b T s = t; l.each(u -> u + s); \x7d \x7d \x7d").toList

theorem declarationFound?_eq_inScope_innerBlock : ∃ s x m v,
    Source.parse? innerBlockSource = some s ∧ x ∈ s.places ∧ x.Used .full ∧
      x.callable? = some m ∧ m.OnlyFieldsAround x.text ∧ m.lastVariable? x.text x.start = some v ∧
      v.text = "s = t".toList ∧ (x.field? x.text).isSome = true ∧
      x.declarationFound? = x.declarationInScope? .full := by
  have hcheck : (Source.parse? innerBlockSource).any (fun s => s.places.any fun x =>
      (x.field? x.text).isSome && decide (x.Used .full) && x.callable?.any fun m =>
        decide (m.OnlyFieldsAround x.text) &&
        ((m.variablesBeforeUse x.text x.start).map Place.text == ["s = t".toList] &&
        (x.lambdas.all (fun l => (l.parameterDeclarationIn? x.text).isNone) &&
        x.ownSteps.any fun step =>
          (step.1.variablesFor step.2).any (·.declares x.text)))) = true := by
    decide +kernel
  simp only [Option.any_eq_true, List.any_eq_true, List.all_eq_true, Bool.and_eq_true,
    decide_eq_true_eq, beq_iff_eq, Option.isNone_iff_eq_none] at hcheck
  obtain ⟨s, hs, x, hx, ⟨hfield, huse⟩, m, hm, haround, hbefore, hlambdas, ⟨p, c⟩, hstep, u, hu,
    hname⟩ := hcheck
  obtain ⟨v, hv, htext⟩ := List.map_eq_singleton_iff.1 hbefore
  have hlast : m.lastVariable? x.text x.start = some v := by rw [Place.lastVariable?, hv]; rfl
  have hscope : v.InScopeAt x := by
    have hordered := ordered_of_parse? hs
    have hroot := kind_root_of_parse? hs
    obtain ⟨hregular, -⟩ := huse.steps hordered hroot hx hm
    obtain ⟨hum, hustart, hurecorded, -⟩ := huse.recorded hordered hroot hx hm hstep hu hname
    have hmem := (mem_variablesBeforeUse hregular).2 ⟨hum, hustart, hurecorded⟩
    rw [hv, List.mem_singleton] at hmem
    exact ⟨(p, c), (List.takeWhile_prefix _).subset hstep, hmem ▸ hu⟩
  refine ⟨s, x, m, v, hs, hx, huse, hm, haround, hlast, htext, hfield,
    (declarationFound?_eq_inScope_iff .full hs hx huse hm haround).2.2 ⟨fun w hw => ?_, ?_⟩⟩
  · obtain rfl : v = w := Option.some.inj (hlast.symm.trans hw)
    refine ⟨hscope, fun l hl hsome => ?_⟩
    rw [hlambdas l hl] at hsome
    cases hsome
  · intro hnone
    rw [hlast] at hnone
    cases hnone

/-- A variable of a block that ended, and a parameter of a lambda expression with the same name. -/
def endedBlockSource : Text :=
  ("class A \x7b void m(java.util.List<String> l) \x7b \x7b String s = \"x\"; \x7d " ++
    "l.forEach(s -> run(\"select a from t where b = \" + s)); \x7d \x7d").toList

/-- A variable of a block that ended before a name is taken for what the name stands for, in place
of the parameter of the lambda expression around it. -/
theorem ended_block_hides_parameter : ∃ s x m v p, Source.parse? endedBlockSource = some s ∧
    x ∈ s.places ∧ x.Used .empty ∧ x.callable? = some m ∧ m.OnlyFieldsAround x.text ∧
      x.declarationFound? = some (.variable v) ∧ v.text = "s = \"x\"".toList ∧
      x.declarationInScope? .empty = some (.parameter p) ∧ p.text = "s".toList := by
  have hcheck : (Source.parse? endedBlockSource).any (fun s => s.places.any fun x =>
      decide (x.Used .empty) && (x.callable?.any (fun m => decide (m.OnlyFieldsAround x.text)) &&
      (x.declarationFound?.any (fun d => match d with
        | .variable v => v.text == "s = \"x\"".toList
        | .pattern _ | .parameter _ | .field _ | .elsewhere _ => false) &&
      (x.declarationInScope? .empty).any fun d => match d with
        | .parameter p => p.text == "s".toList
        | .variable _ | .pattern _ | .field _ | .elsewhere _ => false))) = true := by
    decide +kernel
  simp only [Option.any_eq_true, List.any_eq_true, Bool.and_eq_true, decide_eq_true_eq] at hcheck
  obtain ⟨s, hs, x, hx, huse, ⟨m, hm, haround⟩, ⟨found, hfound, hv⟩, inScope, hscope, hp⟩ := hcheck
  cases found with
  | «variable» v =>
    cases inScope with
    | parameter p =>
      exact ⟨s, x, m, v, p, hs, hx, huse, hm, haround, hfound, beq_iff_eq.1 hv, hscope,
        beq_iff_eq.1 hp⟩
    | «variable» | pattern | field | elsewhere => cases hp
  | pattern | parameter | field | elsewhere => cases hv

end SqlInjection.Java
