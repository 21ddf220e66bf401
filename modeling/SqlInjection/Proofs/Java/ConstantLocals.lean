import SqlInjection.Proofs.Java.Bindings
import SqlInjection.Proofs.Java.Paths

/-!
# Local variables that are read as constants

A local variable is read as a value only if the assignments between its declaration and its use, by
the text of the method, are of constants. `resolved_assignment_constant` says what that means for
the runs of the method. During the life of the variable, which is one run of the node that declares
it (`Place.home?`), an assignment that may run before the use is of a constant too, unless it does
not end before the use and a loop runs both again, or the use stands in a body that runs later. Such
an assignment is overlooked, as `later_round_overlooked` shows.
-/

namespace SqlInjection.Java

/-- The expression at a place is constant throughout, when read behind `depth` names. -/
def Place.ConstantAt (root : Node) (q : Place) (depth : Nat) : Prop :=
  ∃ fuel text, constantText (readWithin root fuel) q depth = .ok (some text)

/-- What is not constant within some number of steps is not constant within any. -/
theorem not_constantAt {root : Node} {q : Place} {fuel depth : Nat}
    (h : constantText (readWithin root fuel) q depth = .ok none) : ¬ q.ConstantAt root depth := by
  rintro ⟨fuel', text, h'⟩
  obtain ⟨e, he, hnone⟩ := bind_eq_ok h
  obtain ⟨e', he', hsome⟩ := bind_eq_ok h'
  have hmax := readWithin_of_le (Nat.le_max_left fuel fuel') (by rw [he]; nofun)
  have hmax' := readWithin_of_le (Nat.le_max_right fuel fuel') (by rw [he']; nofun)
  obtain rfl : e = e' := Except.ok.inj (he.symm.trans (hmax.symm.trans (hmax'.trans he')))
  rw [hnone] at hsome
  cases hsome

/-! ## What a value asks of the assignments -/

theorem mem_assignmentsTo_of_left {m a l : Place} {start stop : Nat} (ha : a ∈ m.below)
    (hkind : a.kind = .assignment) (hl : a.child? .left = some l) (hname : l.kind = .identifier)
    (hstart : start ≤ a.start) (hstop : a.stop ≤ stop) : a ∈ m.assignmentsTo l.text start stop := by
  obtain ⟨n, hn, rfl⟩ := Option.map_eq_some_iff.1 hl
  refine List.mem_filter.2 ⟨List.mem_filter.2 ⟨ha, ?_⟩, ?_⟩
  · simp [hkind, hstart, hstop]
  · rw [hn]
    exact Bool.and_eq_true_iff.2 ⟨beq_iff_eq.2 hname, beq_iff_eq.2 rfl⟩

section Values

variable {read : Reader} {m d : Place} {name : Text} {use depth : Nat}

/-- The assignment is of a constant. -/
def Place.AssignsConstant (read : Reader) (depth : Nat) (a : Place) : Prop :=
  ∃ q text, a.child? .right = some q ∧ constantText read q depth = .ok (some text)

theorem assignsConstant_of_assignedText {text t : Text} {as : List Place}
    (h : assignedText read depth text as = .ok (some t)) :
    ∀ a ∈ as, a.AssignsConstant read depth := by
  induction as generalizing text with
  | nil => exact fun a ha => absurd ha List.not_mem_nil
  | cons a as ih =>
    -- an assignment and one that adds go the same way, with another text to go on from
    have hstep : ∀ {q : Place} {f : Option Text → Lowered (Option Text)} {next : Text → Text},
        a.child? .right = some q → (constantText read q depth >>= f) = .ok (some t) →
        (∀ u, f (some u) = assignedText read depth (next u) as) → f none = pure none →
        ∀ b ∈ a :: as, b.AssignsConstant read depth := by
      intro q f next hq h hsome hnone
      obtain ⟨r, hr, h⟩ := bind_eq_ok h
      cases r with
      | none =>
        rw [hnone] at h
        cases h
      | some u =>
        rw [hsome] at h
        exact List.forall_mem_cons.2 ⟨⟨q, u, hq, hr⟩, ih h⟩
    rw [assignedText] at h
    split at h
    · next hq => exact hstep hq h (fun _ => rfl) rfl
    · next hq => exact hstep hq h (fun _ => rfl) rfl
    · cases h

theorem assignsConstant_of_builderValue {value : Expr}
    (h : builderValue read m d name use depth = .ok (some value)) :
    ∀ a ∈ m.assignmentsTo name d.stop use, a.AssignsConstant read depth := by
  unfold builderValue at h
  split at h
  · next hnone _ => simp [hnone]
  · cases h

theorem assignsConstant_of_assignedValue {value : Expr}
    (h : assignedValue read m d name use depth = .ok (some value)) :
    ∀ a ∈ m.assignmentsTo name d.stop use, a.AssignsConstant read depth := by
  unfold assignedValue at h
  split at h
  · cases h
  · next hnone _ => simp [hnone]
  · obtain ⟨r, -, h⟩ := bind_eq_ok h
    cases r with
    | none => cases h
    | some first =>
      obtain ⟨text, htext, h⟩ := bind_eq_ok h
      cases text with
      | none => cases h
      | some t => exact assignsConstant_of_assignedText htext

/-- If a variable has a value at a use, it has a declaration and all assignments between the two
are of constants. -/
theorem assignsConstant_of_localValue {v : LocalVariable} {value : Expr}
    (h : localValue read m v use depth = .ok (some value)) : ∃ d name, v.declarator = some d ∧
      d.node.childText? .name = some name ∧
      ∀ a ∈ m.assignmentsTo name d.stop use, a.AssignsConstant read depth := by
  unfold localValue at h
  split at h
  · cases h
  · next d hd =>
    split at h
    · cases h
    · next name hname =>
      refine ⟨d, name, hd, hname, ?_⟩
      split at h
      · exact assignsConstant_of_builderValue h
      · exact assignsConstant_of_assignedValue h

end Values

/-! ## Variables and their lives -/

namespace Place

/-- The node whose run is the life of a declared variable: the one around its declaration, or the
whole switch if it is declared in one of the cases. -/
def home? (d : Place) : Option Place := do
  let declaration ← d.parent?
  let p ← declaration.parent?
  if p.kind = .switchGroup then p.parent? else some p

/-- An assignment to a variable by its name. -/
def Assigns (env : Environment) (a d : Place) : Prop :=
  a.kind = .assignment ∧
    ∃ l, a.child? .left = some l ∧ l.kind = .identifier ∧
      l.declarationInScope? env = some (.variable d)

variable {root : Node} {env : Environment} {a d m : Place}

/-- What is below a place but is not the place lies in a node below it. -/
theorem exists_parent? (h : d ∈ m.below) (hne : d ≠ m) : ∃ p, d.parent? = some p ∧ p ∈ m.below := by
  rcases Relation.ReflTransGen.cases_tail (mem_below_iff.1 h) with heq | ⟨p, hp, hd⟩
  · exact absurd heq hne
  · exact ⟨p, parent?_of_child hd, mem_below_iff.2 hp⟩

/-- A variable that is declared in a method lives in it. -/
theorem exists_home? (hm : m.kind.isCallable = true) (hd : d ∈ m.below)
    (hkind : d.kind = .declarator) (hvariable : d.isVariable = true) :
    ∃ home, d.home? = some home ∧ home ∈ m.below := by
  have hne : ∀ {q : Place} {kind : Kind}, q.kind = kind → kind.isCallable = false → q ≠ m := by
    rintro q kind hq hcallable rfl
    rw [hq, hcallable] at hm
    cases hm
  obtain ⟨q, hq, hqm⟩ := exists_parent? hd (hne hkind rfl)
  have hlocal : q.kind = .localVariables := by simpa [isVariable, hkind, hq] using hvariable
  obtain ⟨p, hp, hpm⟩ := exists_parent? hqm (hne hlocal rfl)
  by_cases hgroup : p.kind = .switchGroup
  · obtain ⟨block, hblock, hblockm⟩ := exists_parent? hpm (hne hgroup rfl)
    exact ⟨block, by simp [home?, hq, hp, hgroup, hblock], hblockm⟩
  · exact ⟨p, by simp [home?, hq, hp, hgroup], hpm⟩

/-- An assignment to a variable stands behind its declaration or in its initial value. -/
theorem Assigns.behind (h : a.Assigns env d) (hordered : root.Ordered)
    (hroot : root.kind = .program) (ha : a ∈ root.places) (hd : d.kind = .declarator) :
    ∃ l, a.child? .left = some l ∧ l.kind = .identifier ∧ d.declares l.text = true ∧
      (d.stop ≤ a.start ∨ a ∈ d.below) := by
  obtain ⟨hkind, l, hl, hname, hscope⟩ := h
  refine ⟨l, hl, hname, ?_⟩
  obtain ⟨⟨p, c⟩, hstep, hdeclared⟩ := List.exists_of_findSome?_eq_some hscope
  obtain ⟨hvariable, hdeclares⟩ := List.mem_filter.1 (mem_of_declared?_variable hdeclared)
  refine ⟨hdeclares, ?_⟩
  rw [steps_of_child (mem_children_of_child? hl).1] at hstep
  rcases List.mem_cons.1 hstep with heq | hstep
  · -- an assignment declares nothing
    obtain ⟨rfl, rfl⟩ := Prod.mk.inj heq
    simp [variablesFor, hkind, Kind.isSequence] at hvariable
  · obtain ⟨hc, hac, hp⟩ := mem_steps ha hstep
    have hregular : p.Regular := regular_of_kind_ne hordered hroot hp fun hprogram => by
      simp [variablesFor, hprogram, Kind.isSequence] at hvariable
    obtain ⟨-, hstart, -⟩ := (hregular.child hc).1.below hac
    rcases (variablesFor_cases hregular hc hvariable).2 with ⟨-, hstop⟩ | ⟨rfl, -⟩ | ⟨rfl, hloop, -⟩
    · exact Or.inl (by omega)
    · exact Or.inr hac
    · rw [hloop] at hd
      cases hd

end Place

/-! ## Names that have a value -/

section Resolved

variable {root : Node} {x d : Place} {fuel depth : Nat}

/-- A declaration of a local variable is found only in the method around the name. -/
theorem exists_lastVariable? (hfound : x.declarationFound? = some (.variable d)) :
    ∃ m, x.callable? = some m ∧ m.lastVariable? x.text x.start = some d := by
  cases hm : x.callable? with
  | none =>
    rw [Place.declarationFound?, hm] at hfound
    cases hfield : x.field? x.text <;> simp [hfield] at hfound
  | some m =>
    refine ⟨m, rfl, ?_⟩
    rw [declarationFound?_eq hm] at hfound
    cases hlast : m.lastVariable? x.text x.start with
    | some v => simpa [hlast] using hfound
    | none =>
      cases hparameter : x.parameterDeclaration? m x.text <;> cases hfield : x.field? x.text <;>
        simp [hlast, hparameter, hfield] at hfound

/-- If a name is read as a variable with a value, then the variable is one with a declaration, and
all assignments between the two are of constants. -/
theorem resolved_name {m : Place} (hname : x.kind = .identifier) (hm : x.callable? = some m)
    (hfound : x.declarationFound? = some (.variable d)) {name : Text} {type : Option Text}
    {value : Expr} {w : Written}
    (hread : readWithin root fuel x depth = .ok (.ref .variable name type (some value) w)) :
    d.kind = .declarator ∧ (localVariable? x.text x.start d).isSome = true ∧
      ∀ a ∈ m.assignmentsTo x.text d.stop x.start,
        ∃ q, a.child? .right = some q ∧ q.ConstantAt root depth := by
  cases fuel with
  | zero => cases hread
  | succ fuel =>
    rw [readWithin, readPlace] at hread
    split at hread
    · cases hread
    · rw [hname] at hread
      simp only [readName_eq hm, hfound, readDeclared] at hread
      split at hread
      · next v hv =>
        obtain ⟨r, hr, h⟩ := bind_eq_ok hread
        obtain rfl : r = some value := by cases h; rfl
        obtain ⟨d', name', hdeclarator, hname', hconstant⟩ := assignsConstant_of_localValue hr
        obtain ⟨rfl, hkind, -⟩ := declarator_of_localVariable? hv hdeclarator
        have hsome : (localVariable? x.text x.start d).isSome = true := by rw [hv]; rfl
        have hdeclares := ((isSome_localVariable? _ _ _).1 hsome).2.1
        obtain rfl : name' = x.text := by
          rw [Place.declares, hname', beq_iff_eq] at hdeclares
          exact Option.some.inj hdeclares
        refine ⟨hkind, hsome, fun a ha => ?_⟩
        obtain ⟨q, text, hq, htext⟩ := hconstant a ha
        exact ⟨q, hq, fuel, text, htext⟩
      · cases hread

end Resolved

/-- **What may run before the use of a constant.** Let a name that is bound as the language says,
whatever comes from elsewhere, be read as a variable with any value, by itself or, at a greater
depth, for the value of another. Then each assignment to the variable that may run before the name,
in one life of the variable, is of a constant; unless it stands in the initial value of the
variable, or it does not end before the name and a loop runs both again or the name stands in a body
that runs later. -/
theorem resolved_assignment_constant (env : Environment) {text : Text} {s : Source}
    (hs : Source.parse? text = some s) {x d : Place} (hx : x ∈ s.places)
    (hname : x.kind = .identifier) (hbound : x.declarationFound? = x.declarationInScope? env)
    (hd : x.declarationInScope? env = some (.variable d)) {fuel depth : Nat} {name : Text}
    {type : Option Text} {value : Expr} {w : Written}
    (hread : readWithin s.root fuel x depth = .ok (.ref .variable name type (some value) w)) :
    ∃ home, d.home? = some home ∧ ∀ a, a.Assigns env d → home.MayPrecede a x →
      (∃ q, a.child? .right = some q ∧ q.ConstantAt s.root depth) ∨ a ∈ d.below ∨
        x.start < a.stop ∧ ((∃ l ∈ home.below, l.Repeats a x) ∨ home.Deferred x) := by
  have hordered := ordered_of_parse? hs
  have hroot := kind_root_of_parse? hs
  have hfound := hbound.trans hd
  obtain ⟨m, hm, hlast⟩ := exists_lastVariable? hfound
  obtain ⟨hkind, hrecorded, hconstant⟩ := resolved_name hname hm hfound hread
  obtain ⟨hcallable, hregular⟩ := Place.regular_of_callable? hordered hroot hx hm
  obtain ⟨hmplace, -⟩ := mem_places_of_callable? hx hm
  obtain ⟨hdm, -⟩ := lastVariable?_spec hregular hlast
  obtain ⟨hvariable, hdeclares, hstop⟩ := (isSome_localVariable? _ _ _).1 hrecorded
  obtain ⟨home, hhome, hhomem⟩ := Place.exists_home? hcallable hdm hkind hvariable
  refine ⟨home, hhome, fun a ha hrun => ?_⟩
  have ham : a ∈ m.below := by
    obtain ⟨trace, hlife, hsub⟩ := hrun
    exact Place.below_trans hhomem (hlife.mem_below a (hsub.subset List.mem_cons_self))
  obtain ⟨l, hl, hlname, hldeclares, hbehind⟩ :=
    ha.behind hordered hroot (mem_places_of_below hmplace ham) hkind
  rcases hbehind with hbehind | hinside
  · rcases Nat.lt_or_ge x.start a.stop with hlt | hle
    · rcases hrun.cases (hregular.below hhomem).1 hname with hle | hlate
      · omega
      · exact Or.inr (Or.inr ⟨hlt, hlate⟩)
    · rw [Place.declares, beq_iff_eq] at hldeclares hdeclares
      have hsame : l.text = x.text := Option.some.inj (hldeclares.symm.trans hdeclares)
      exact Or.inl (hconstant a (hsame ▸ mem_assignmentsTo_of_left ham ha.1 hl hlname hbehind hle))
  · exact Or.inr (Or.inl hinside)

/-! ## Sources with such a path -/

deriving instance DecidableEq for Declaration

instance (env : Environment) (a d : Place) : Decidable (a.Assigns env d) :=
  decidable_of_iff (a.kind = .assignment ∧ (a.child? .left).any fun l =>
    l.kind == .identifier && decide (l.declarationInScope? env = some (.variable d)))
    (by simp [Place.Assigns, Option.any_eq_true])

/-- A name that is read as a variable with a value, and an assignment to the variable that may run
before it. -/
structure ResolvedUse (env : Environment) (s : Source) (x d home a : Place) (value : Expr) :
    Prop where
  place : x ∈ s.places
  name : x.kind = .identifier
  bound : x.declarationFound? = x.declarationInScope? env
  declared : x.declarationInScope? env = some (.variable d)
  read : ∃ type w, s.lower x = .ok (.ref .variable x.text type (some value) w)
  lives : d.home? = some home
  assigns : a.Assigns env d
  precedes : home.MayPrecede a x

/-- Whether the tour through the life of a variable finds such an assignment before an operand of a
chain, for which the test holds. -/
def Source.tourFinds (env : Environment) (s : Source)
    (test : Place → Place → Expr → Place → Bool) : Bool :=
  s.places.any fun x => x.kind == .identifier && x.parent?.any (·.kind == .binary) &&
    match x.declarationInScope? env, s.lower x with
    | some (.variable d), .ok (.ref .variable name _ (some value) _) =>
      name == x.text && decide (x.declarationFound? = some (.variable d)) &&
        d.home?.any fun home => (home.tour s.places.length).any fun trace => trace.any fun a =>
          decide (a.Assigns env d) && decide ([a, x].Sublist trace) && test x d value a
    | _, _ => false

theorem exists_of_tourFinds {env : Environment} {s : Source}
    {test : Place → Place → Expr → Place → Bool} (h : s.tourFinds env test = true) :
    ∃ x d home a value, ResolvedUse env s x d home a value ∧ test x d value a = true := by
  simp only [Source.tourFinds, List.any_eq_true, Bool.and_eq_true, beq_iff_eq] at h
  obtain ⟨x, hx, ⟨hname, -⟩, h⟩ := h
  split at h
  · next d name type value w hscope hread =>
    simp only [Option.any_eq_true, List.any_eq_true, Bool.and_eq_true, beq_iff_eq,
      decide_eq_true_eq] at h
    obtain ⟨⟨rfl, hfound⟩, home, hhome, trace, htour, a, -, ⟨hassigns, hsub⟩, htest⟩ := h
    exact ⟨x, d, home, a, value,
      ⟨hx, hname, hfound.trans hscope.symm, hscope, ⟨type, w, hread⟩, hhome, hassigns,
        trace, .run (Runs.of_tour htour), hsub⟩, htest⟩
  · cases h

/-- A variable that is assigned in a branch before a use, and behind it, in a loop that declares it
in each round. -/
def freshVariableSource : Text :=
  ("class A \x7b void m(String p) \x7b for (T t : l) \x7b String s = \"x\"; " ++
    "if (t.b()) s = \"y\"; run(\"select a from t where b = \" + s); s = p; \x7d \x7d \x7d").toList

theorem resolved_assignment_constant_branch : ∃ s x d home a value q,
    Source.parse? freshVariableSource = some s ∧ ResolvedUse .empty s x d home a value ∧
      a.text = "s = \"y\"".toList ∧ a.child? .right = some q ∧ q.ConstantAt s.root 0 := by
  have hcheck : (Source.parse? freshVariableSource).any (fun s => s.tourFinds .empty fun x d _ a =>
      a.text == "s = \"y\"".toList && decide (a.stop ≤ x.start) && decide (a ∉ d.below)) =
        true := by
    decide +kernel
  obtain ⟨s, hs, hfinds⟩ := (Option.any_eq_true _ _).1 hcheck
  obtain ⟨x, d, home, a, value, huse, htest⟩ := exists_of_tourFinds hfinds
  simp only [Bool.and_eq_true, beq_iff_eq, decide_eq_true_eq] at htest
  obtain ⟨⟨htext, hbefore⟩, houtside⟩ := htest
  obtain ⟨type, w, hread⟩ := huse.read
  obtain ⟨home', hhome, hconstant⟩ :=
    resolved_assignment_constant .empty hs huse.place huse.name huse.bound huse.declared hread
  obtain rfl : home = home' := Option.some.inj (huse.lives.symm.trans hhome)
  rcases hconstant a huse.assigns huse.precedes with ⟨q, hq, hq'⟩ | hinside | ⟨hlate, -⟩
  · exact ⟨s, x, d, home, a, value, q, hs, huse, htext, hq, hq'⟩
  · exact absurd hinside houtside
  · omega

/-- A variable that is assigned behind its use, in a loop around both. -/
def laterRoundSource : Text :=
  ("class A \x7b void m(String p) \x7b String s = \"x\"; while (more()) \x7b " ++
    "run(\"select a from t where b = \" + s); s = p; \x7d \x7d \x7d").toList

/-- An assignment of a parameter runs before the use of a variable that is read as a constant: in
the round before. -/
theorem later_round_overlooked : ∃ s x d home a value q,
    Source.parse? laterRoundSource = some s ∧ ResolvedUse .empty s x d home a value ∧
      (∀ f ∈ value.fragments, f.constant?.isSome = true) ∧ a.child? .right = some q ∧
      ¬ q.ConstantAt s.root 0 := by
  have hcheck : (Source.parse? laterRoundSource).any (fun s => s.tourFinds .empty fun _ _ value a =>
      value.fragments.all (·.constant?.isSome) && (a.child? .right).any fun q =>
        (constantText (readWithin s.root s.readingBound) q 0).toOption == some none) = true := by
    decide +kernel
  obtain ⟨s, hs, hfinds⟩ := (Option.any_eq_true _ _).1 hcheck
  obtain ⟨x, d, home, a, value, huse, htest⟩ := exists_of_tourFinds hfinds
  simp only [Bool.and_eq_true, List.all_eq_true, Option.any_eq_true, beq_iff_eq] at htest
  obtain ⟨hfragments, q, hq, hnone⟩ := htest
  cases hconstant : constantText (readWithin s.root s.readingBound) q 0 with
  | error e =>
    rw [hconstant] at hnone
    cases hnone
  | ok r =>
    rw [hconstant] at hnone
    obtain rfl : r = none := Option.some.inj hnone
    exact ⟨s, x, d, home, a, value, q, hs, huse, hfragments, hq, not_constantAt hconstant⟩

end SqlInjection.Java
