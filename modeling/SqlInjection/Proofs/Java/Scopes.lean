import SqlInjection.Proofs.Java.Joins

/-!
# Scopes

Which declaration a name stands for by the rules of the language. Going outward from a name, each
node brings declarations into scope for the one of its children that the name lies in:

* `Place.variablesFor`: a block its variables that are declared before, a loop its variable in the
  body, a statement its resources in the block behind them, a clause what it catches;
* `Place.patternFor?`: an operator, a statement, a block or a case the names that patterns before
  the child bind, where these are sure to have matched;
* `Place.parameterFor?`: a method or a lambda expression its parameters in the body;
* `Place.fieldFor?`: a type its fields in its body, and so do bodies of types without a name;
* `Place.elsewhereFor?`: the body of a type the fields that the type inherits, a source the names
  that it imports, a case label the constants of an enum.

The first declaration found on this way (`Place.declarationInScope?`) hides those further out. Which
names come from elsewhere is not said by one source, and where a pattern is sure to have matched may
hang on that: whether a loop ends can depend on a constant of another class. All this is left to an
`Environment`. What the source does say is where a pattern can bind names at all
(`Place.patternsBefore`).
-/

namespace SqlInjection.Java

/-- What declares a name. -/
inductive Declaration where
  /-- A declared local variable, or the loop, the clause or the resource that has one. -/
  | variable (p : Place)
  /-- A pattern that binds the name. -/
  | pattern (p : Place)
  | parameter (p : Place)
  | field (p : Place)
  /-- A declaration that does not stand in the type itself or in the source; the name is brought
  into scope at this place. -/
  | elsewhere (p : Place)

/-- What decides on names and is not said by one source. -/
structure Environment where
  /-- Whether a name that is declared elsewhere is brought into scope at a place. -/
  brings : Place → Text → Bool
  /-- Whether a pattern is sure to have matched when a place is reached. -/
  matched : Place → Place → Bool

namespace Environment

/-- No name comes from elsewhere and no pattern is sure to have matched. -/
def empty : Environment := ⟨fun _ _ => false, fun _ _ => false⟩

/-- Wherever a name can come from elsewhere, it does, and all patterns have matched. -/
def full : Environment := ⟨fun _ _ => true, fun _ _ => true⟩

end Environment

/-- Nodes that hand the names which their patterns bind on to the node around them. All others keep
them inside. -/
def Kind.handsOn : Kind → Bool
  | .instanceTest | .pattern | .parenthesized | .unary | .binary | .guard | .switchLabel
  | .statement => true
  | _ => false

/-- Nodes whose children may declare variables for the children behind them. -/
def Kind.isSequence : Kind → Bool
  | .block | .statement | .switchGroup | .switchBlock | .catchClause => true
  | _ => false

namespace Place

/-- The nodes around a place, the innermost first, each with its child that the place lies in. -/
def steps (x : Place) : List (Place × Place) := x.enclosing.zip x.selfAndEnclosing

/-! ## The rules -/

/-- The variables that a node declares for a node behind it. Resources are declared for the block
behind them, not for the clauses that follow, and a case of a switch for all cases behind it. -/
def variablesBefore (q c : Place) : List Place :=
  match q.kind with
  | .localVariables => q.children.filter (·.kind == .declarator)
  | .catchParameter => [q]
  | .resources => if c.kind == .block then q.children.filter (·.kind == .resource) else []
  | .switchGroup => (q.children.filter (·.kind == .localVariables)).flatMap fun s =>
      s.children.filter (·.kind == .declarator)
  | _ => []

/-- The local variables that a node brings into scope in one of its children, in order. The scope of
a variable starts with its own initial value. -/
def variablesFor (p c : Place) : List Place :=
  if p.kind.isSequence then (p.children.filter (·.stop ≤ c.start)).flatMap (·.variablesBefore c)
  else match p.kind with
  | .localVariables => p.children.filter fun q => q.kind == .declarator && q.start ≤ c.start
  | .resources => p.children.filter fun q => q.kind == .resource && q.start ≤ c.start
  | .enhancedFor => if c.node.role == some .body && p.start < c.start then [p] else []
  | _ => []

/-- Whether the place is a pattern or a test by one. -/
def isPattern (p : Place) : Bool := p.kind == .instanceTest || p.kind == .pattern

/-- Whether a pattern binds a name. What is tested stands in front and binds nothing. -/
def binds (p : Place) (name : Text) : Bool :=
  p.node.children.tail.any fun n => n.kind == .identifier && n.text == name

/-- The nodes around a place below `p` that lie inside `p`. -/
def enclosingWithin (p q : Place) : List Place :=
  q.enclosing.take (q.around.length - p.around.length - 1)

/-- The patterns that can bind names in a child of a node: they stand before the child, and all
nodes between them and the node hand the names on. -/
def patternsBefore (p c : Place) : List Place :=
  p.below.filter fun q =>
    q.isPattern && q.stop ≤ c.start && (p.enclosingWithin q).all (·.kind.handsOn)

/-- The pattern that binds a name in a child of a node. -/
def patternFor? (env : Environment) (name : Text) (p c : Place) : Option Place :=
  ((p.patternsBefore c).filter fun q => q.binds name && env.matched q c).getLast?

/-- Whether the first place is the body, behind the parameters, of the second. -/
def isBodyOf (c p : Place) : Bool :=
  c.node.role == some .body && (p.child? .parameters).all (·.stop ≤ c.start)

/-- The parameter that a method or a lambda expression brings into scope in one of its children. -/
def parameterFor? (name : Text) (p c : Place) : Option Place :=
  if (p.kind == .lambda || p.kind.isCallable) && c.isBodyOf p then p.parameterDeclarationIn? name
  else none

/-- The field of a type that is not declared as one: a constant of an enum or a component of a
record. -/
def constantOf? (type : Place) (name : Text) : Option Place :=
  match type.kind with
  | .enumDeclaration => (type.child? .body).bind fun body =>
    body.children.find? fun q => q.kind == .enumConstant && q.declares name
  | .recordDeclaration => type.parameterDeclarationIn? name
  | _ => none

/-- The declaration of a field in the body of a type. -/
def fieldIn? (body : Place) (name : Text) : Option Place :=
  let fields := body.children.filter fun m =>
    m.kind == .fieldDeclaration || m.kind == .constantDeclaration
  (fields.flatMap fun m => m.children.filter (·.node.role == some .declarator)).find?
    (·.declares name)

/-- The field that a type brings into scope in one of its children. -/
def fieldFor? (name : Text) (p c : Place) : Option Place :=
  if p.kind.isType then
    if c.node.role == some .body then (p.fieldOf? name).or (p.constantOf? name) else none
  else if c.kind == .classBody || c.kind == .annotationTypeBody then c.fieldIn? name
  else none

/-- Whether a node can bring names into scope in one of its children that are declared elsewhere:
the body of a type, a source, a case label. -/
def opensTo (p c : Place) : Bool :=
  p.kind == .program || p.kind == .switchLabel || (p.kind.isType && c.node.role == some .body) ||
    c.kind == .classBody || c.kind == .annotationTypeBody

/-- The child of a node in which the node brings a name into scope that is declared elsewhere. -/
def elsewhereFor? (env : Environment) (name : Text) (p c : Place) : Option Place :=
  if p.opensTo c && env.brings c name then some c else none

/-- The declaration of a name that a node brings into scope in one of its children. -/
def declared? (env : Environment) (name : Text) (p c : Place) : Option Declaration :=
  ((((p.variablesFor c).filter (·.declares name)).getLast?).map .variable).or
    (((p.patternFor? env name c).map .pattern).or
      (((p.parameterFor? name c).map .parameter).or
        (((p.fieldFor? name c).map .field).or ((p.elsewhereFor? env name c).map .elsewhere))))

/-- The declaration that a name stands for. -/
def declarationInScope? (env : Environment) (x : Place) : Option Declaration :=
  x.steps.findSome? fun step => step.1.declared? env x.text step.2

/-- A local variable whose scope contains a place. -/
def InScopeAt (v x : Place) : Prop := ∃ step ∈ x.steps, v ∈ step.1.variablesFor step.2

/-! ## Steps outward -/

variable {root : Node} {x m p c q : Place}

theorem map_fst_steps (x : Place) : x.steps.map Prod.fst = x.enclosing :=
  List.map_fst_zip (by simp [selfAndEnclosing])

theorem steps_of_child (h : q ∈ p.children) : q.steps = (p, q) :: p.steps := by
  have hself := selfAndEnclosing_of_child h
  have henclosing : q.enclosing = p.selfAndEnclosing := (List.cons.inj hself).2
  rw [steps, henclosing, hself]
  rfl

theorem mem_steps (hx : x ∈ root.places) (h : (p, c) ∈ x.steps) :
    c ∈ p.children ∧ x ∈ c.below ∧ p ∈ root.places := by
  rw [places_eq, mem_below_iff] at hx
  induction hx with
  | refl => cases h
  | @tail a b hab hb ih =>
    rw [steps_of_child hb] at h
    rcases List.mem_cons.1 h with heq | h
    · obtain ⟨rfl, rfl⟩ := Prod.mk.inj heq
      exact ⟨hb, self_mem_below c, mem_below_iff.2 hab⟩
    · obtain ⟨hc, hbelow, hp⟩ := ih h
      exact ⟨hc, below_trans hbelow (mem_below_of_child hb), hp⟩

/-- Each step lies in the child of every step further out. -/
theorem pairwise_steps (hx : x ∈ root.places) : x.steps.Pairwise fun s t => s.1 ∈ t.2.below := by
  have hplace := hx
  rw [places_eq, mem_below_iff] at hx
  induction hx with
  | refl => exact .nil
  | @tail a b hab hb ih =>
    have ha : a ∈ root.places := mem_below_iff.2 hab
    rw [steps_of_child hb]
    refine .cons ?_ (ih ha)
    rintro ⟨p, c⟩ h
    exact (mem_steps ha h).2.1

/-- The steps up to the nearest method, and those around the method. -/
theorem exists_steps_split (hx : x ∈ root.places) (hkind : x.kind.isCallable = false)
    (hm : x.callable? = some m) : ∃ inner c, x.steps = inner ++ (m, c) :: m.steps ∧
      (∀ s ∈ inner, s.1.kind.isCallable = false) ∧
      ∀ s ∈ inner ++ [(m, c)], s.2.kind.isCallable = false := by
  rw [places_eq, mem_below_iff] at hx
  induction hx with
  | refl =>
    rw [callable?, selfAndEnclosing, List.find?_cons_of_neg (by simp [hkind])] at hm
    cases hm
  | @tail a b hab hb ih =>
    rw [callable?_of_child hb hkind] at hm
    rw [steps_of_child hb]
    by_cases ha : a.kind.isCallable = true
    · obtain rfl : a = m := by simpa [callable?, selfAndEnclosing, ha] using hm
      refine ⟨[], b, rfl, by simp, ?_⟩
      simpa using hkind
    · rw [Bool.not_eq_true] at ha
      obtain ⟨inner, c, hsteps, hinner, hchildren⟩ := ih ha hm
      refine ⟨(a, b) :: inner, c, by rw [hsteps]; rfl, ?_, ?_⟩
      · exact List.forall_mem_cons.2 ⟨ha, hinner⟩
      · exact List.forall_mem_cons.2 ⟨hkind, hchildren⟩

/-- The steps from a place up to the nearest method or constructor. -/
def ownSteps (x : Place) : List (Place × Place) := x.steps.takeWhile fun s => !s.2.kind.isCallable

theorem ownSteps_eq {inner : List (Place × Place)} (hm : m.kind.isCallable = true)
    (hsteps : x.steps = inner ++ (m, c) :: m.steps)
    (hchildren : ∀ s ∈ inner ++ [(m, c)], s.2.kind.isCallable = false) :
    x.ownSteps = inner ++ [(m, c)] := by
  have hrest : m.steps.takeWhile (fun s => !s.2.kind.isCallable) = [] := by
    rw [steps, selfAndEnclosing]
    cases m.enclosing with
    | nil => rfl
    | cons q qs =>
      rw [List.zip_cons_cons]
      exact List.takeWhile_cons_of_neg (by simp [hm])
  rw [ownSteps, hsteps, ← List.singleton_append, ← List.append_assoc, List.takeWhile_append_of_pos,
    hrest, List.append_nil]
  intro s hs
  rw [hchildren s hs]
  rfl

/-! ## Variables in scope -/

/-- Whether a place is one that declares a local variable. -/
def isVariable (p : Place) : Bool :=
  match p.kind with
  | .declarator => p.parent?.any (·.kind == .localVariables)
  | .enhancedFor | .catchParameter | .resource => true
  | _ => false

theorem isVariable_of_declarator (hq : q.kind = .localVariables) (hc : c ∈ q.children)
    (hkind : c.kind = .declarator) : c.isVariable = true := by
  simp [isVariable, hkind, parent?_of_child hc, hq]

/-- What a node declares for a node behind it lies in it. -/
theorem mem_variablesBefore {v : Place} (h : v ∈ q.variablesBefore c) :
    v ∈ q.below ∧ v.isVariable = true := by
  unfold variablesBefore at h
  split at h
  · next hq =>
    obtain ⟨hv, hkind⟩ := List.mem_filter.1 h
    exact ⟨mem_below_of_child hv, isVariable_of_declarator hq hv (beq_iff_eq.1 hkind)⟩
  · next hq =>
    obtain rfl := List.mem_singleton.1 h
    exact ⟨self_mem_below v, by simp [isVariable, hq]⟩
  · split at h
    · obtain ⟨hv, hkind⟩ := List.mem_filter.1 h
      exact ⟨mem_below_of_child hv, by simp [isVariable, beq_iff_eq.1 hkind]⟩
    · cases h
  · obtain ⟨s, hs, hv⟩ := List.mem_flatMap.1 h
    obtain ⟨hs, hlocal⟩ := List.mem_filter.1 hs
    obtain ⟨hv, hkind⟩ := List.mem_filter.1 hv
    exact ⟨below_trans (mem_below_of_child hs) (mem_below_of_child hv),
      isVariable_of_declarator (beq_iff_eq.1 hlocal) hv (beq_iff_eq.1 hkind)⟩
  · cases h

/-- Where a variable is declared that a node brings into scope in one of its children: before the
child, in it, or by the node itself. -/
theorem variablesFor_cases {v : Place} (hp : p.Regular) (hc : c ∈ p.children)
    (h : v ∈ p.variablesFor c) : v.isVariable = true ∧
      (v ∈ p.below ∧ v.stop ≤ c.start ∨
        v = c ∧ (c.kind = .declarator ∨ c.kind = .resource) ∨
        v = p ∧ p.kind = .enhancedFor ∧ p.start < c.start) := by
  -- of the children that start no later, one is the child itself
  have hbefore : v ∈ p.children → v.start ≤ c.start → v = c ∨ v ∈ p.below ∧ v.stop ≤ c.start := by
    intro hv hle
    have hspan := (hp.child hc).1.span
    rcases hp.child_cases hv hc with heq | hstop | hstop
    · exact Or.inl heq
    · exact Or.inr ⟨mem_below_of_child hv, hstop⟩
    · omega
  unfold variablesFor at h
  split at h
  · obtain ⟨q, hq, hv⟩ := List.mem_flatMap.1 h
    obtain ⟨hq, hstop⟩ := List.mem_filter.1 hq
    obtain ⟨hbelow, hvariable⟩ := mem_variablesBefore hv
    obtain ⟨-, -, hle⟩ := (hp.child hq).1.below hbelow
    have hstop : q.stop ≤ c.start := of_decide_eq_true hstop
    exact ⟨hvariable, Or.inl ⟨below_trans (mem_below_of_child hq) hbelow, by omega⟩⟩
  · split at h
    · next hkind =>
      obtain ⟨hv, hcond⟩ := List.mem_filter.1 h
      obtain ⟨hdeclarator, hle⟩ := Bool.and_eq_true_iff.1 hcond
      have hdeclarator := beq_iff_eq.1 hdeclarator
      refine ⟨isVariable_of_declarator hkind hv hdeclarator, ?_⟩
      rcases hbefore hv (of_decide_eq_true hle) with rfl | hbefore
      · exact Or.inr (Or.inl ⟨rfl, Or.inl hdeclarator⟩)
      · exact Or.inl hbefore
    · obtain ⟨hv, hcond⟩ := List.mem_filter.1 h
      obtain ⟨hresource, hle⟩ := Bool.and_eq_true_iff.1 hcond
      have hresource := beq_iff_eq.1 hresource
      refine ⟨by simp [isVariable, hresource], ?_⟩
      rcases hbefore hv (of_decide_eq_true hle) with rfl | hbefore
      · exact Or.inr (Or.inl ⟨rfl, Or.inr hresource⟩)
      · exact Or.inl hbefore
    · next hkind =>
      split at h
      · next hbody =>
        obtain rfl := List.mem_singleton.1 h
        refine ⟨by simp [isVariable, hkind], Or.inr (Or.inr ⟨rfl, hkind, ?_⟩)⟩
        exact of_decide_eq_true (Bool.and_eq_true_iff.1 hbody).2
      · cases h
    · cases h

theorem pairwise_variablesBefore (hq : q.Regular) (c : Place) :
    (q.variablesBefore c).Pairwise fun a b => a.stop ≤ b.start := by
  unfold variablesBefore
  split
  · exact hq.pairwise_children.filter _
  · exact List.pairwise_singleton _ _
  · split
    · exact hq.pairwise_children.filter _
    · exact .nil
  · rw [List.pairwise_flatMap]
    constructor
    · intro s hs
      exact (hq.child (List.mem_filter.1 hs).1).1.pairwise_children.filter _
    · refine (hq.pairwise_children.filter _).imp_of_mem fun {s t} hs ht hle a ha b hb => ?_
      have hs := (hq.child (List.mem_filter.1 hs).1).1.child (List.mem_filter.1 ha).1
      have ht := (hq.child (List.mem_filter.1 ht).1).1.child (List.mem_filter.1 hb).1
      omega
  · exact .nil

/-- The variables that a node brings into scope come one behind the other. -/
theorem pairwise_variablesFor (hp : p.Regular) (c : Place) :
    (p.variablesFor c).Pairwise fun a b => a.stop ≤ b.start := by
  unfold variablesFor
  split
  · rw [List.pairwise_flatMap]
    constructor
    · intro q hq
      exact pairwise_variablesBefore (hp.child (List.mem_filter.1 hq).1).1 c
    · refine (hp.pairwise_children.filter _).imp_of_mem fun {q r} hq hr hle a ha b hb => ?_
      have hq := (hp.child (List.mem_filter.1 hq).1).1.below (mem_variablesBefore ha).1
      have hr := (hp.child (List.mem_filter.1 hr).1).1.below (mem_variablesBefore hb).1
      omega
  · split
    · exact hp.pairwise_children.filter _
    · exact hp.pairwise_children.filter _
    · split
      · exact List.pairwise_singleton _ _
      · exact .nil
    · exact .nil

end Place

end SqlInjection.Java
