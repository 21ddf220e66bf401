import SqlInjection.Proofs.Expr.Fragments
import SqlInjection.Proofs.Java.Evaluation
import SqlInjection.Proofs.Java.Reading

/-!
# Reading straight-line methods

In a method whose body is a sequence of declarations and assignments of strings and one last
statement, what is read at an expression is true of every run: its fragments, each dynamic one
replaced by what its expression is worth at its own position, make up the text of the value
(`rendered_lower`).

The places that a name lookup finds are the effects before the use (`Flat.localBefore?_eq`,
`Flat.assignmentsTo_eq`); `read_name` follows them through the environment, and `read_expression` is
the induction over the effects and the expression.

Comments may stand anywhere but first inside parentheses: there the comment is read in place of the
expression (`rendered_lower_comment`).
-/

namespace SqlInjection.Java

/-! ## Fragments with their values -/

/-- The text of a fragment in a run, from the values at positions. -/
def worth? (values : List (Written × Value)) : Fragment → Option Text
  | .constant t => some t
  | .dynamic e => (values.lookup e.written).map shown

/-- The text of fragments in a run. -/
def rendered? (values : List (Written × Value)) : List Fragment → Option Text
  | [] => some []
  | f :: fs => do
    let t ← worth? values f
    let ts ← rendered? values fs
    pure (t ++ ts)

section Rendering

variable {values : List (Written × Value)} {fs gs : List Fragment} {s t : Text}

theorem rendered?_append (hs : rendered? values fs = some s) (ht : rendered? values gs = some t) :
    rendered? values (fs ++ gs) = some (s ++ t) := by
  induction fs generalizing s with
  | nil =>
    obtain rfl := Option.some.inj hs
    exact ht
  | cons f fs ih =>
    obtain ⟨a, ha, hs⟩ := Option.bind_eq_some_iff.1 hs
    obtain ⟨b, hb, hs⟩ := Option.bind_eq_some_iff.1 hs
    rw [List.cons_append, rendered?, ha, ih hb, ← Option.some.inj hs]
    simp

theorem rendered?_mergeConstants (values : List (Written × Value)) (fs : List Fragment) :
    rendered? values (mergeConstants fs) = rendered? values fs := by
  induction fs with
  | nil => rfl
  | cons f fs ih =>
    cases f with
    | dynamic e => rw [mergeConstants, rendered?, rendered?, ih]
    | constant a =>
      rw [mergeConstants, rendered?, ← ih]
      split
      · next b rest hmerge =>
        rw [hmerge, rendered?, rendered?]
        cases rendered? values rest <;> simp [worth?]
      · rfl

theorem rendered?_fragments (values : List (Written × Value)) (e : Expr) :
    rendered? values e.fragments = rendered? values e.pieces :=
  rendered?_mergeConstants values e.pieces

theorem rendered?_constants (h : (fs.mapM Fragment.constant?).map List.flatten = some t) :
    rendered? values fs = some t := by
  obtain ⟨ts, hts, rfl⟩ := Option.map_eq_some_iff.1 h
  clear h
  induction fs generalizing ts with
  | nil =>
    obtain rfl := Option.some.inj hts
    rfl
  | cons f fs ih =>
    rw [List.mapM_cons] at hts
    obtain ⟨a, ha, hts⟩ := Option.bind_eq_some_iff.1 hts
    obtain ⟨bs, hbs, hts⟩ := Option.bind_eq_some_iff.1 hts
    rw [← Option.some.inj hts]
    cases f with
    | dynamic e => cases ha
    | constant b =>
      obtain rfl := Option.some.inj ha
      rw [rendered?, ih _ hbs]
      rfl

end Rendering

/-! ## What a name lookup finds -/

namespace Flat

variable {m last p q : Place} {effects before after : List Place} {name : Text} {use : Nat}
variable (hflat : Flat m effects last)
include hflat

theorem eq_or_mem (hp : p ∈ m.below) (hbinds : p.kind.binds = true) : p = m ∨ p ∈ effects := by
  have hmem : p ∈ m.below.filter (·.kind.binds) := List.mem_filter.2 ⟨hp, hbinds⟩
  rw [hflat.only] at hmem
  exact List.mem_cons.1 hmem

theorem callable?_eq (hq : q ∈ m.below) : q.callable? = some m := by
  have hself : m.callable? = some m := List.find?_cons_of_pos hflat.callable
  rw [Place.mem_below_iff] at hq
  induction hq with
  | refl => exact hself
  | @tail a b hab hb ih =>
    by_cases hcallable : b.kind.isCallable = true
    · have hmem : b ∈ m.below := Place.mem_below_iff.2 (hab.tail hb)
      rcases hflat.eq_or_mem hmem (Kind.binds_of_isCallable hcallable) with rfl | heffect
      · exact hself
      · rcases (hflat.isEffect b heffect).cases with ⟨hkind, -⟩ | hkind
        · rw [hkind] at hcallable
          cases hcallable
        · rw [hkind] at hcallable
          cases hcallable
    · rw [Place.callable?_of_child hb (by simpa using hcallable), ih]

theorem kind_ne_lambda (hp : p ∈ m.below) : p.kind ≠ .lambda := by
  intro hlambda
  have hcallable := hflat.callable
  rcases hflat.eq_or_mem hp (by rw [hlambda]; rfl) with rfl | heffect
  · rw [hlambda] at hcallable
    cases hcallable
  · rcases (hflat.isEffect p heffect).cases with ⟨hkind, -⟩ | hkind
    · cases hkind.symm.trans hlambda
    · cases hkind.symm.trans hlambda

theorem mem_of_takeWhile (hq : q ∈ m.below) :
    ∀ p ∈ q.selfAndEnclosing.takeWhile (!·.kind.isCallable), p ∈ m.below := by
  rw [Place.mem_below_iff] at hq
  induction hq with
  | refl =>
    intro p hp
    rw [Place.selfAndEnclosing, List.takeWhile_cons_of_neg (by simp [hflat.callable])] at hp
    cases hp
  | @tail a b hab hb ih =>
    intro p hp
    rw [Place.selfAndEnclosing_of_child hb, List.takeWhile_cons] at hp
    split at hp
    · rcases List.mem_cons.1 hp with rfl | hp
      · exact Place.mem_below_iff.2 (hab.tail hb)
      · exact ih p hp
    · cases hp

/-- No lambda expression stands between the method and a name in it. -/
theorem parameter?_eq (hq : q ∈ m.below) (hkind : q.kind.isCallable = false) (name : Text) :
    q.parameter? m name = m.parameterIn? name := by
  have hlambdas : (q.enclosing.takeWhile (!·.kind.isCallable)).filter (·.kind == .lambda) = [] := by
    refine List.filter_eq_nil_iff.2 fun p hp => ?_
    have hmem : p ∈ q.selfAndEnclosing.takeWhile (!·.kind.isCallable) := by
      rw [Place.selfAndEnclosing, List.takeWhile_cons_of_pos (by simp [hkind])]
      exact List.mem_cons_of_mem _ hp
    simpa using hflat.kind_ne_lambda (hflat.mem_of_takeWhile hq p hmem)
  rw [Place.parameter?, hlambdas]
  rfl

end Flat

/-- Whether an effect assigns the variable. -/
def Place.assigns (name : Text) (b : Place) : Bool := b.kind == .assignment && b.target? == some name

/-- Whether an effect declares the variable. -/
def Place.introduces (name : Text) (b : Place) : Bool := b.kind == .declarator && b.declares name

section Lookup

variable {m last p b : Place} {effects before after : List Place} {name : Text} {use : Nat}

theorem binds_of_localVariable? {v : LocalVariable} (h : localVariable? name use p = some v) :
    p.kind.binds = true := by
  unfold localVariable? at h
  split at h
  · next hkind => rw [hkind]; rfl
  · next hkind => rw [hkind]; rfl
  · next hkind => rw [hkind]; rfl
  · next hkind => rw [hkind]; rfl
  · cases h

theorem localVariable?_of_isEffect (hb : b.IsEffect) : localVariable? name use b =
    if b.introduces name && decide (b.stop ≤ use) then some ⟨some stringType, some b⟩ else none := by
  rcases hb.cases with ⟨hkind, l, hparent, hl, htype⟩ | hkind
  · simp [localVariable?, Place.introduces, hkind, hparent, hl, htype]
  · simp [localVariable?, Place.introduces, hkind]

theorem assignsTo_eq (p : Place) : (match p.node.child? .left with
    | some l => l.kind == .identifier && l.text == name
    | none => false) = (p.target? == some name) := by
  unfold Place.target?
  cases p.node.child? .left with
  | none => rfl
  | some l =>
    dsimp only
    cases hkind : l.kind == .identifier <;> simp

namespace Flat

variable (hflat : Flat m effects last) (heffects : effects = before ++ after)
variable (hafter : ∀ c ∈ after, use < c.stop)
include hflat heffects hafter

/-- Local variables are declared by the effects before the use. -/
theorem localBefore?_eq : m.localBefore? name use =
    (before.filterMap (localVariable? name use)).getLast? := by
  have hmethod : localVariable? name use m = none := by
    have hcallable := hflat.callable
    unfold localVariable?
    split <;> first | rfl | (next hkind => rw [hkind] at hcallable; cases hcallable)
  have hstart : ∀ p ∈ m.below, ∀ v, localVariable? name use p = some v → p.start < use := by
    intro p hp v hv
    rcases hflat.eq_or_mem hp (binds_of_localVariable? hv) with rfl | heffect
    · rw [hmethod] at hv
      cases hv
    · rw [localVariable?_of_isEffect (hflat.isEffect p heffect)] at hv
      split at hv
      · next hdeclared =>
        have hspan := (hflat.regular.below hp).1.span
        simp only [Bool.and_eq_true, decide_eq_true_eq] at hdeclared
        omega
      · cases hv
  -- only what binds names declares variables, and it does so before the use
  have hbinds : (m.below.filter (·.start < use)).filterMap (localVariable? name use) =
      (m.below.filter (·.kind.binds)).filterMap (localVariable? name use) := by
    rw [List.filterMap_filter, List.filterMap_filter]
    refine List.filterMap_congr fun p hp => ?_
    cases hv : localVariable? name use p with
    | none => simp
    | some v => simp [hstart p hp v hv, binds_of_localVariable? hv]
  have hnone : after.filterMap (localVariable? name use) = [] := by
    refine List.filterMap_eq_nil_iff.2 fun c hc => ?_
    have hlt := hafter c hc
    rw [localVariable?_of_isEffect (hflat.isEffect c (heffects ▸ List.mem_append_right _ hc)),
      if_neg (by simp; omega)]
  rw [Place.localBefore?, hflat.regular.takeWhile_below, hbinds, hflat.only,
    List.filterMap_cons_none hmethod, heffects, List.filterMap_append, hnone, List.append_nil]

/-- Between a declaration and the use, a variable is assigned by the effects between them. -/
theorem assignmentsTo_eq (hbefore : ∀ b ∈ before, b.stop ≤ use) {front back : List Place} {d : Place}
    (hsplit : before = front ++ d :: back) :
    m.assignmentsTo name d.stop use = back.filter (Place.assigns name) := by
  let between (p : Place) : Bool := p.assigns name && (decide (d.stop ≤ p.start) && decide (p.stop ≤ use))
  have hfilter : m.assignmentsTo name d.stop use = (m.below.filter (·.kind.binds)).filter between := by
    rw [Place.assignmentsTo, Place.between, List.filter_filter, List.filter_filter]
    refine List.filter_congr fun p _ => ?_
    refine (congrArg (· && _) (assignsTo_eq p)).trans ?_
    by_cases hkind : p.kind = .assignment
    · simp [between, Place.assigns, hkind, Kind.binds]
    · simp [between, Place.assigns, beq_eq_false_iff_ne.2 hkind]
  have hspan : ∀ b ∈ effects, b.start < b.stop := fun b hb =>
    (hflat.regular.below (hflat.mem_below hb)).1.span
  have hordered := hflat.ordered
  subst hsplit heffects
  obtain ⟨hordered, -, -⟩ := List.pairwise_append.1 hordered
  obtain ⟨-, hback, hfront⟩ := List.pairwise_append.1 hordered
  have hd := hspan d (by simp)
  have hmethod : between m = false := by
    have hkind : (m.kind == .assignment) = false := by
      have hcallable := hflat.callable
      refine beq_eq_false_iff_ne.2 fun hkind => ?_
      rw [hkind] at hcallable
      cases hcallable
    simp [between, Place.assigns, hkind]
  have hfront : front.filter between = [] := by
    refine List.filter_eq_nil_iff.2 fun b hb => ?_
    have hle := hfront b hb d List.mem_cons_self
    have hb := hspan b (by simp [hb])
    simp only [between, Bool.and_eq_true, decide_eq_true_eq]
    omega
  have hself : between d = false := by
    simp only [between, Bool.and_eq_false_iff, decide_eq_false_iff_not]
    omega
  have hback : back.filter between = back.filter (Place.assigns name) := by
    refine List.filter_congr fun b hb => ?_
    have hle := List.rel_of_pairwise_cons hback hb
    have huse := hbefore b (by simp [hb])
    simp [between, hle, huse]
  have hafter : after.filter between = [] := by
    refine List.filter_eq_nil_iff.2 fun c hc => ?_
    have hlt := hafter c hc
    simp only [between, Bool.and_eq_true, decide_eq_true_eq]
    omega
  rw [hfilter, hflat.only, List.filter_cons_of_neg (by simp [hmethod]), List.filter_append,
    List.filter_append, hfront, List.nil_append, List.filter_cons_of_neg (by simp [hself]), hback,
    hafter, List.append_nil]

/-- A name is declared by the last effect before the use that introduces it, if there is one. -/
theorem localBefore?_cases (hbefore : ∀ b ∈ before, b.stop ≤ use) :
    (m.localBefore? name use = none ∧ ∀ b ∈ before, b.introduces name = false) ∨
      ∃ front d back, before = front ++ d :: back ∧ d.introduces name = true ∧
        (∀ b ∈ back, b.introduces name = false) ∧
        m.localBefore? name use = some ⟨some stringType, some d⟩ := by
  have hvariable : ∀ b ∈ before, localVariable? name use b =
      if b.introduces name then some ⟨some stringType, some b⟩ else none := by
    intro b hb
    rw [localVariable?_of_isEffect (hflat.isEffect b (heffects ▸ List.mem_append_left _ hb))]
    simp [hbefore b hb]
  have hnone : ∀ b ∈ before, localVariable? name use b = none → b.introduces name = false := by
    intro b hb h
    rw [hvariable b hb] at h
    simpa using h
  rw [hflat.localBefore?_eq heffects hafter, List.getLast?_filterMap]
  cases hfound : before.reverse.findSome? (localVariable? name use) with
  | none =>
    refine Or.inl ⟨rfl, fun b hb => hnone b hb ?_⟩
    exact List.findSome?_eq_none_iff.1 hfound b (List.mem_reverse.2 hb)
  | some v =>
    obtain ⟨l₁, d, l₂, hsplit, hd, hback⟩ := List.findSome?_eq_some_iff.1 hfound
    have hsplit : before = l₂.reverse ++ d :: l₁.reverse := by
      simpa using congrArg List.reverse hsplit
    rw [hvariable d (by simp [hsplit])] at hd
    split at hd
    · next hintroduces =>
      refine Or.inr ⟨l₂.reverse, d, l₁.reverse, hsplit, hintroduces, fun b hb => ?_, hd.symm⟩
      exact hnone b (by simp [hsplit, List.mem_reverse.1 hb]) (hback b (List.mem_reverse.1 hb))
    · cases hd

end Flat

end Lookup

/-! ## Names through a run -/

section Run

variable {env next : Env} {b : Place} {bs : List Place} {name : Text} {v : Value}

/-- An effect on other variables. -/
theorem lookup_perform? (h : b.perform? env = some next) (hintroduces : b.introduces name = false)
    (hassigns : b.assigns name = false) : next.lookup name = env.lookup name := by
  obtain ⟨x, v, -, -, h⟩ := Place.perform?_inv h
  unfold Place.bind? at h
  split at h
  · next hkind =>
    obtain ⟨z, hz, rfl⟩ := Option.map_eq_some_iff.1 h
    have hne : name ≠ z := by
      rintro rfl
      simp [Place.introduces, Place.declares, hkind, hz] at hintroduces
    rw [lookup_cons, if_neg hne]
  · next hkind =>
    obtain ⟨z, hz, h⟩ := Option.bind_eq_some_iff.1 h
    obtain ⟨old, -, h⟩ := Option.bind_eq_some_iff.1 h
    have hne : name ≠ z := by
      rintro rfl
      simp [Place.assigns, hkind, hz] at hassigns
    split at h
    · rw [← Option.some.inj h, lookup_cons, if_neg hne]
    · rw [← Option.some.inj h, lookup_cons, if_neg hne]
    · cases h
  · cases h

/-- A declaration gives the variable its value. -/
theorem lookup_of_introduces (h : b.perform? env = some next) (hb : b.introduces name = true) :
    b.node.childText? .name = some name ∧ ∃ x v, b.operand? = some x ∧ b.child? .value = some x ∧
      x.node.value? env = some v ∧ next.lookup name = some v := by
  obtain ⟨x, v, hx, hv, h⟩ := Place.perform?_inv h
  simp only [Place.introduces, Place.declares, Bool.and_eq_true, beq_iff_eq] at hb
  obtain ⟨hkind, hname⟩ := hb
  have hchild : b.operand? = b.child? .value := by simp only [Place.operand?, hkind]
  simp only [Place.bind?, hkind, hname, Option.map_some, Option.some.injEq] at h
  exact ⟨hname, x, v, hx, hchild ▸ hx, hv, by rw [← h, lookup_cons, if_pos rfl]⟩

/-- An assignment changes a variable that has a value. -/
theorem lookup_of_assigns (h : b.perform? env = some next) (hb : b.assigns name = true) :
    ∃ x v old, b.operand? = some x ∧ b.child? .right = some x ∧ x.node.value? env = some v ∧
      env.lookup name = some old ∧ (b.node.operator = some ['='] ∧ next.lookup name = some v ∨
        b.node.operator = some ['+', '='] ∧ next.lookup name = some (sum old v)) := by
  obtain ⟨x, v, hx, hv, h⟩ := Place.perform?_inv h
  simp only [Place.assigns, Bool.and_eq_true, beq_iff_eq] at hb
  obtain ⟨hkind, htarget⟩ := hb
  have hchild : b.operand? = b.child? .right := by simp only [Place.operand?, hkind]
  simp only [Place.bind?, hkind, htarget] at h
  obtain ⟨z, hz, h⟩ := Option.bind_eq_some_iff.1 h
  obtain rfl := Option.some.inj hz
  obtain ⟨old, hold, h⟩ := Option.bind_eq_some_iff.1 h
  refine ⟨x, v, old, hx, hchild ▸ hx, hv, hold, ?_⟩
  split at h
  · next hop => exact Or.inl ⟨hop, by rw [← Option.some.inj h, lookup_cons, if_pos rfl]⟩
  · next hop => exact Or.inr ⟨hop, by rw [← Option.some.inj h, lookup_cons, if_pos rfl]⟩
  · cases h

/-- A variable that no effect declares had a value before them. -/
theorem lookup_of_run? (h : env.run? bs = some next) (hbs : ∀ b ∈ bs, b.introduces name = false)
    (hv : next.lookup name = some v) : ∃ u, env.lookup name = some u := by
  induction bs generalizing env with
  | nil =>
    obtain rfl := Option.some.inj h
    exact ⟨v, hv⟩
  | cons b bs ih =>
    obtain ⟨env', henv', h⟩ := Option.bind_eq_some_iff.1 h
    obtain ⟨u, hu⟩ := ih h fun c hc => hbs c (List.mem_cons_of_mem _ hc)
    cases hassigns : b.assigns name with
    | false =>
      rw [lookup_perform? henv' (hbs b List.mem_cons_self) hassigns] at hu
      exact ⟨u, hu⟩
    | true =>
      obtain ⟨-, -, old, -, -, -, hold, -⟩ := lookup_of_assigns henv' hassigns
      exact ⟨old, hold⟩

/-- The names of the environment in which a method starts are its parameters. -/
theorem parameterIn?_of_initially {m : Place} {args : Text → Value}
    (h : (m.initially args).lookup name = some v) : ∃ type, m.parameterIn? name = some type := by
  obtain ⟨l₁, l₂, hsplit, -⟩ := List.lookup_eq_some_iff.1 h
  have hmem : (name, v) ∈ m.initially args := by
    rw [hsplit]
    exact List.mem_append_right _ List.mem_cons_self
  obtain ⟨x, hx, heq⟩ := List.mem_map.1 hmem
  obtain ⟨rfl, -⟩ := Prod.mk.inj heq
  unfold Place.stringParameters at hx
  split at hx
  · next params hparams =>
    split at hx
    · next hkind =>
      obtain ⟨p, hp, hname⟩ := List.mem_filterMap.1 hx
      obtain ⟨hp, hparameter⟩ := List.mem_filter.1 hp
      simp only [Bool.and_eq_true, beq_iff_eq] at hkind hparameter
      have hsome : (params.children.findSome? (parameterType? x)).isSome = true := by
        rw [List.findSome?_isSome_iff]
        exact ⟨p, hp, by simp [parameterType?, hparameter.1, Place.declares, hname]⟩
      obtain ⟨type, htype⟩ := Option.isSome_iff_exists.1 hsome
      refine ⟨type, ?_⟩
      rw [Place.parameterIn?, hparams]
      simpa [hkind] using htype
    · cases hx
  · cases hx

end Run

/-! ## What is read -/

/-- The fragments of an expression make up the text of a value. -/
def Denotes (values : List (Written × Value)) (e : Expr) (v : Value) : Prop :=
  rendered? values e.pieces = some (shown v)

section Denotes

variable {values : List (Written × Value)} {e l r : Expr} {u v : Value} {w : Written}

theorem denotes_dynamic (hw : values.lookup e.written = some v) (he : e.pieces = [.dynamic e]) :
    Denotes values e v := by
  rw [Denotes, he, rendered?, worth?, hw]
  simp [rendered?]

theorem denotes_literal (values : List (Written × Value)) (t : Text) (w : Written) :
    Denotes values (.literal (.text t) w) (some t) := by
  rw [Denotes, Expr.pieces, rendered?, worth?]
  simp [rendered?, shown]

/-- A reference to a string stands for its value, whether or not that is known. -/
theorem denotes_ref {name : Text} {type : Option Text} {value : Option Expr}
    (hw : values.lookup w = some v) (htype : isBuilderType type = false)
    (hvalue : ∀ e, value = some e → Denotes values e v) :
    Denotes values (.ref .variable name type value w) v := by
  cases value with
  | none => exact denotes_dynamic hw (by rw [Expr.pieces])
  | some e =>
    by_cases hknown : (e.literalText?.isSome || e.isPlusChain) = true
    · rw [Denotes, Expr.pieces, if_pos hknown]
      exact hvalue e rfl
    · refine denotes_dynamic hw ?_
      rw [Expr.pieces, if_neg hknown, if_neg (by simp [htype])]

theorem piecesOfAll_leftOperands (side : Place) (e : Expr) :
    piecesOfAll (leftOperands Expr.plus side e) = e.pieces := by
  unfold leftOperands
  split
  · next op operands w =>
    split
    · next h =>
      simp only [Bool.and_eq_true, beq_iff_eq] at h
      rw [Expr.pieces, if_pos h.2]
    · exact piecesOfAll_singleton _
  · exact piecesOfAll_singleton _

theorem denotes_chain (side : Place) (hl : Denotes values l u) (hr : Denotes values r v) :
    Denotes values (.chain Expr.plus (leftOperands Expr.plus side l ++ [r]) w) (sum u v) := by
  rw [Denotes, Expr.pieces, if_pos rfl, piecesOfAll_append, piecesOfAll_leftOperands, piecesOfAll,
    piecesOfAll, List.append_nil]
  exact rendered?_append hl hr

variable {read : Reader} {x : Place} {d : Nat}

theorem constantText_of_denotes (hread : read x (d + 1) = .ok e) (he : Denotes values e v) :
    constantText read x d = .ok none ∨ constantText read x d = .ok (some (shown v)) := by
  rw [constantText, hread]
  cases hconstant : (e.fragments.mapM Fragment.constant?).map List.flatten with
  | none =>
    left
    show Except.ok ((e.fragments.mapM Fragment.constant?).map List.flatten) = _
    rw [hconstant]
  | some t =>
    right
    have hrendered : rendered? values e.fragments = some t := rendered?_constants hconstant
    rw [rendered?_fragments, he] at hrendered
    show Except.ok ((e.fragments.mapM Fragment.constant?).map List.flatten) = _
    rw [hconstant, hrendered]

/-- Assignments of constants are followed to the text of the variable after them. -/
theorem assignedText_of_run? {env next : Env} {bs : List Place} {name : Text}
    (hrun : env.run? bs = some next) (hv : env.lookup name = some v)
    (hbs : ∀ b ∈ bs, b.introduces name = false)
    (hread : ∀ front b back env', bs = front ++ b :: back → env.run? front = some env' →
      ∀ x u, b.operand? = some x → x.node.value? env' = some u →
        constantText read x d = .ok none ∨ constantText read x d = .ok (some (shown u))) :
    ∃ u, next.lookup name = some u ∧
      (assignedText read d (shown v) (bs.filter (Place.assigns name)) = .ok none ∨
        assignedText read d (shown v) (bs.filter (Place.assigns name)) = .ok (some (shown u))) := by
  induction bs generalizing env v with
  | nil =>
    obtain rfl := Option.some.inj hrun
    exact ⟨v, hv, Or.inr rfl⟩
  | cons b bs ih =>
    obtain ⟨env', henv', hrun⟩ := Option.bind_eq_some_iff.1 hrun
    have hrest : ∀ {v' : Value}, env'.lookup name = some v' → ∃ u, next.lookup name = some u ∧
        (assignedText read d (shown v') (bs.filter (Place.assigns name)) = .ok none ∨
          assignedText read d (shown v') (bs.filter (Place.assigns name)) = .ok (some (shown u))) := by
      intro v' hv'
      refine ih hrun hv' (fun c hc => hbs c (List.mem_cons_of_mem _ hc)) ?_
      intro front c back env'' hsplit hfront
      refine hread (b :: front) c back env'' (by rw [hsplit]; rfl) ?_
      rw [Env.run?, henv']
      exact hfront
    cases hassigns : b.assigns name with
    | false =>
      rw [List.filter_cons_of_neg (by simp [hassigns])]
      exact hrest ((lookup_perform? henv' (hbs b List.mem_cons_self) hassigns).trans hv)
    | true =>
      rw [List.filter_cons_of_pos hassigns, assignedText]
      obtain ⟨x, w, old, hoperand, hx, hw, hold, hop⟩ := lookup_of_assigns henv' hassigns
      obtain rfl : old = v := Option.some.inj (hold.symm.trans hv)
      have hconstant := hread [] b bs env rfl rfl x w hoperand hw
      -- a value that is no constant leaves nothing known
      have hstop : ∀ {f : Option Text → Lowered (Option Text)}, f none = .ok none →
          constantText read x d = .ok none → (constantText read x d >>= f) = .ok none := by
        intro f hf hnone
        rw [hnone]
        exact hf
      rcases hop with ⟨hop, hlookup⟩ | ⟨hop, hlookup⟩
      · obtain ⟨u, hu, htext⟩ := hrest hlookup
        refine ⟨u, hu, ?_⟩
        rw [hop, hx]
        rcases hconstant with hnone | hsome
        · exact Or.inl (hstop rfl hnone)
        · simp only [hsome]
          exact htext
      · obtain ⟨u, hu, htext⟩ := hrest hlookup
        refine ⟨u, hu, ?_⟩
        rw [hop, hx]
        rcases hconstant with hnone | hsome
        · exact Or.inl (hstop rfl hnone)
        · simp only [hsome]
          exact htext

/-- What is known of a variable is true of its value. -/
theorem assignedValue_of_denotes {m b : Place} {name : Text} {use : Nat} {as : List Place}
    (hx : b.child? .value = some x) (hread : read x (d + 1) = .ok e) (he : Denotes values e u)
    (has : m.assignmentsTo name b.stop use = as)
    (htext : assignedText read d (shown u) as = .ok none ∨
      assignedText read d (shown u) as = .ok (some (shown v))) :
    ∃ value, assignedValue read m b name use d = .ok value ∧
      ∀ e', value = some e' → Denotes values e' v := by
  rw [assignedValue, has, hx]
  cases as with
  | nil =>
    refine ⟨some e, by simp [hread], fun e' h => ?_⟩
    obtain rfl := Option.some.inj h
    rcases htext with htext | htext
    · cases htext
    · rw [Denotes, ← Option.some.inj (Except.ok.inj htext)]
      exact he
  | cons a as =>
    have hthen : ∀ {text : Option Text}, assignedText read d (shown u) (a :: as) = .ok text →
        (assignedText read d (shown u) (a :: as) >>= fun text : Option Text =>
          (pure (text.map fun t => .literal (.text t) ⟨literalOf t, b.node.span⟩) :
            Lowered (Option Expr))) =
        .ok (text.map fun t => .literal (.text t) ⟨literalOf t, b.node.span⟩) := by
      intro text h
      rw [h]
      rfl
    rcases constantText_of_denotes hread he with hnone | hsome
    · refine ⟨none, ?_, fun e' h => nomatch h⟩
      simp only [hnone]
      rfl
    · rcases htext with htext | htext
      · refine ⟨none, ?_, fun e' h => nomatch h⟩
        simp only [hsome]
        exact hthen htext
      · refine ⟨some (.literal (.text (shown v)) ⟨literalOf (shown v), b.node.span⟩), ?_, ?_⟩
        · simp only [hsome]
          exact hthen htext
        · intro e' h
          rw [← Option.some.inj h]
          exact denotes_literal values (shown v) _

end Denotes

section Names

variable {read : Reader} {m p b : Place} {type : Option Text} {name : Text} {d : Nat}

theorem readName_parameter (hm : p.callable? = some m)
    (hlocal : m.localBefore? p.text p.start = none) (htype : p.parameter? m p.text = some type) :
    readName read p d = .ok (.ref .variable p.text type none p.written) := by
  simp only [readName, hm, hlocal, htype]
  rfl

theorem readName_local {value : Option Expr} (hm : p.callable? = some m)
    (hlocal : m.localBefore? p.text p.start = some ⟨type, some b⟩)
    (hname : b.node.childText? .name = some name) (htype : isFollowedBuilder type = false)
    (hvalue : assignedValue read m b name p.start d = .ok value) :
    readName read p d = .ok (.ref .variable p.text type value p.written) := by
  simp only [readName, hm, hlocal, localValue, hname, htype, Bool.false_eq_true, if_false, hvalue]
  rfl

theorem readChain_of_operands {l r : Place} {op : Text} {left right : Expr}
    (hop : p.node.operator = some op) (hl : p.child? .left = some l) (hr : p.child? .right = some r)
    (hleft : read l d = .ok left) (hright : read r d = .ok right) :
    readChain read p d = .ok (.chain op (leftOperands op l left ++ [right]) p.written) := by
  rw [readChain_eq, hl, hr, hop]
  simp only [Option.mapM_some, hleft, hright]
  rfl

end Names

/-- The reader of a source. -/
def Source.reader (s : Source) : Reader := readWithin s.root s.readingBound

theorem Source.reader_eq {s : Source} {p : Place} {d : Nat} (hp : p ∈ s.places)
    (hd : d ≤ maxDepth + 1) : s.reader p d = readPlace s.root s.reader p d :=
  (s.settled_readingBound (p, d) (mem_states.2 ⟨hp, hd⟩)).symm

/-- No comment stands first inside parentheses. -/
def Place.CommentsAside (m : Place) : Prop :=
  ∀ p ∈ m.below, p.kind = .parenthesized → ∀ c, p.children.head? = some c → c.node.isComment = false

/-- Whether no comment stands first inside parentheses. -/
def Place.commentsAside (m : Place) : Bool :=
  m.below.all fun p => p.kind != .parenthesized || p.children.head?.all fun c => !c.node.isComment

theorem Place.commentsAside_iff (m : Place) : m.commentsAside = true ↔ m.CommentsAside := by
  simp only [commentsAside, CommentsAside, List.all_eq_true, Bool.or_eq_true, bne_iff_ne, ne_eq,
    Option.all_eq_true, Bool.not_eq_true', or_iff_not_imp_left, not_not]

/-- Inside parentheses, what is not a comment comes first. -/
theorem Place.CommentsAside.head?_eq {m p : Place} {n : Node} (h : m.CommentsAside) (hp : p ∈ m.below)
    (hkind : p.kind = .parenthesized) (hn : p.node.children.find? (!·.isComment) = some n) :
    p.children.head? = some ⟨n, p.node :: p.around⟩ := by
  have hfirst := h p hp hkind
  rw [Place.children] at hfirst ⊢
  cases hchildren : p.node.children with
  | nil =>
    rw [hchildren] at hn
    cases hn
  | cons c cs =>
    rw [hchildren] at hfirst hn
    have hc : c.isComment = false := hfirst _ rfl
    rw [List.find?_cons_of_pos (by simp [hc])] at hn
    rw [← Option.some.inj hn]
    rfl

section Soundness

variable {s : Source} {m last x q : Place} {effects before : List Place} {args : Text → Value}
variable {env final : Env} {v : Value} {d : Nat}

/-- What is read at the expressions that are evaluated after fewer effects than `before` is true. -/
def ReadBefore (s : Source) (initial : Env) (effects : List Place) (last : Place)
    (before : List Place) : Prop :=
  ∀ x before' env, Entry initial effects last x before' env → before'.length < before.length →
    ∀ v, x.node.value? env = some v → ∀ d ≤ maxDepth + 1,
      ∃ e, s.reader x d = .ok e ∧ Denotes (initial.values effects last) e v

theorem read_name (hflat : Flat m effects last)
    (hfinal : (m.initially args).run? effects = some final)
    (hentry : Entry (m.initially args) effects last x before env) (hq : q ∈ x.below)
    (hkind : q.kind = .identifier) (hlookup : env.lookup q.text = some v)
    (hvalue : q.node.value? env = some v) (hd : d ≤ maxDepth)
    (ih : ReadBefore s (m.initially args) effects last before) :
    ∃ e, readName s.reader q d = .ok e ∧ Denotes ((m.initially args).values effects last) e v := by
  obtain ⟨hx, after, heffects, hbefore, hafter⟩ := hentry.divides hflat
  have hqm : q ∈ m.below := Place.below_trans hx hq
  obtain ⟨hregular, hstart, hstop⟩ := (hflat.regular.below hx).1.below hq
  have hspan := hregular.span
  have hbefore : ∀ b ∈ before, b.stop ≤ q.start := fun b hb => by have := hbefore b hb; omega
  have hafter : ∀ c ∈ after, q.start < c.stop := fun c hc => by have := hafter c hc; omega
  have hwritten := hentry.lookup_values hflat hfinal hq hvalue
  have hrun := hentry.run
  have hcallable := hflat.callable?_eq hqm
  rcases hflat.localBefore?_cases heffects hafter hbefore with
    ⟨hnone, hintroduces⟩ | ⟨front, b, back, hsplit, hb, hback, hfound⟩
  · -- a parameter
    obtain ⟨u, hu⟩ := lookup_of_run? hrun hintroduces hlookup
    obtain ⟨type, htype⟩ := parameterIn?_of_initially hu
    have hparameter := (hflat.parameter?_eq hqm (by rw [hkind]; rfl) q.text).trans htype
    exact ⟨_, readName_parameter hcallable hnone hparameter,
      denotes_dynamic hwritten (by rw [Expr.pieces])⟩
  · -- a local variable, declared by `b` and perhaps assigned by effects among `back`
    subst hsplit
    rw [Env.run?_append] at hrun
    obtain ⟨env₁, hfront, hrun⟩ := Option.bind_eq_some_iff.1 hrun
    obtain ⟨env₂, hperform, hrun⟩ := Option.bind_eq_some_iff.1 hrun
    obtain ⟨hname, y, u, hoperand, hy, hu, hlookup₂⟩ := lookup_of_introduces hperform hb
    have hentry₁ : Entry (m.initially args) effects last y front env₁ :=
      .operand (by rw [heffects, List.append_assoc]; rfl) hoperand hfront
    obtain ⟨e, he, hdenotes⟩ := ih y front env₁ hentry₁ (by simp) u hu (d + 1) (by omega)
    have hassigned : ∀ l c l' env', back = l ++ c :: l' → env₂.run? l = some env' →
        ∀ z t, c.operand? = some z → z.node.value? env' = some t →
        constantText s.reader z d = .ok none ∨ constantText s.reader z d = .ok (some (shown t)) := by
      rintro l c l' env' rfl hl z t hz ht
      have hrun' : (m.initially args).run? (front ++ b :: l) = some env' := by
        rw [Env.run?_append, hfront, Option.bind_some, Env.run?, hperform]
        exact hl
      have heffects' : effects = (front ++ b :: l) ++ c :: (l' ++ after) := by simp [heffects]
      have hentry' : Entry (m.initially args) effects last z (front ++ b :: l) env' :=
        .operand heffects' hz hrun'
      obtain ⟨e', he', hdenotes'⟩ := ih z _ env' hentry' (by simp) t ht (d + 1) (by omega)
      exact constantText_of_denotes he' hdenotes'
    obtain ⟨w, hw, htext⟩ := assignedText_of_run? hrun hlookup₂ hback hassigned
    obtain rfl : w = v := Option.some.inj (hw.symm.trans hlookup)
    have hassignments : m.assignmentsTo q.text b.stop q.start = back.filter (Place.assigns q.text) :=
      hflat.assignmentsTo_eq heffects hafter hbefore rfl
    obtain ⟨value, hvalue', hknown⟩ := assignedValue_of_denotes hy he hdenotes hassignments htext
    exact ⟨_, readName_local hcallable hfound hname rfl hvalue',
      denotes_ref hwritten rfl hknown⟩

/-- **What is read at an expression is true of its value**, whatever the number of names followed. -/
theorem read_expression (hm : m ∈ s.places) (hflat : Flat m effects last) (haside : m.CommentsAside)
    (hfinal : (m.initially args).run? effects = some final)
    (hentry : Entry (m.initially args) effects last x before env) (hq : q ∈ x.below)
    (hv : q.node.value? env = some v) (hd : d ≤ maxDepth + 1) :
    ∃ e, s.reader q d = .ok e ∧ Denotes ((m.initially args).values effects last) e v := by
  -- outside, on the number of effects before the expression; inside, on its parts
  induction hlength : before.length using Nat.strongRecOn generalizing before x env q v d with
  | ind length ih =>
    have hreadBefore : ReadBefore s (m.initially args) effects last before := by
      intro x' before' env' hentry' hlt v' hv' d' hd'
      exact ih _ (hlength ▸ hlt) hentry' (Place.self_mem_below x') hv' hd' rfl
    induction q using Place.induct generalizing v with
    | h q ihpart =>
      have hqm : q ∈ m.below := Place.below_trans (hentry.divides hflat).1 hq
      have hwritten := hentry.lookup_values hflat hfinal hq hv
      have hpart : ∀ {n : Node} {u : Value}, (⟨n, q.node :: q.around⟩ : Place) ∈ q.children →
          n.value? env = some u → ∃ e, s.reader ⟨n, q.node :: q.around⟩ d = .ok e ∧
            Denotes ((m.initially args).values effects last) e u := fun hn hu =>
        ihpart _ hn (Place.below_trans hq (Place.mem_below_of_child hn)) hu
      rw [s.reader_eq (mem_places_of_below hm hqm) hd, readPlace]
      split
      · exact ⟨_, rfl, denotes_dynamic hwritten (by rw [Place.unknown, Expr.pieces])⟩
      · next hdepth =>
        have hd : d ≤ maxDepth := Nat.le_of_not_lt hdepth
        cases Node.evaluates_of_value? hv with
        | literal hkind hleaf ht =>
          have hkind : q.kind = .stringLiteral := hkind
          have hdecode : decodeLiteral? q.text = some _ := decodeLiteral?_of_literalValue? ht
          simp only [hkind, readString, hdecode]
          exact ⟨_, rfl, denotes_literal _ _ _⟩
        | name hkind hleaf hlookup =>
          have hkind : q.kind = .identifier := hkind
          simp only [hkind]
          exact read_name hflat hfinal hentry hq hkind hlookup hv hd hreadBefore
        | inside hkind hn hu =>
          have hkind : q.kind = .parenthesized := hkind
          have hhead := haside.head?_eq hqm hkind hn
          simp only [hkind, hhead]
          exact hpart (List.mem_of_mem_head? hhead) hu
        | sum hkind hop hl hr hu hw =>
          have hkind : q.kind = .binary := hkind
          have hl := Place.child?_of_node hl
          have hr := Place.child?_of_node hr
          obtain ⟨left, hleft, hdenotes⟩ := hpart (Place.mem_children_of_child? hl).1 hu
          obtain ⟨right, hright, hdenotes'⟩ := hpart (Place.mem_children_of_child? hr).1 hw
          simp only [hkind]
          exact ⟨_, readChain_of_operands hop hl hr hleft hright, denotes_chain _ hdenotes hdenotes'⟩
        | signed hkind =>
          have hkind : q.kind = .cast := hkind
          simp only [hkind]
          exact ⟨_, rfl, denotes_dynamic hwritten (by rw [Expr.pieces])⟩

end Soundness

/-- **What is read in a straight-line method is true of every run**: for all values of the parameters,
the fragments with their dynamic parts replaced by the values of these, each at its own position, make
up the value of the expression. -/
theorem rendered_lower {text : Text} {s : Source} (hs : Source.parse? text = some s)
    {m last use : Place} {effects : List Place} (hm : m ∈ s.places)
    (hstraight : m.Straight effects last use) (haside : m.CommentsAside) :
    ∃ e, s.lower use = .ok e ∧ ∀ args : Text → Value, ∃ final v,
      (m.initially args).run? effects = some final ∧ use.node.value? final = some v ∧
        rendered? ((m.initially args).values effects last) e.fragments = some (shown v) := by
  have hregular : m.Regular := by
    refine Place.regular_of_kind_ne (ordered_of_parse? hs) (kind_root_of_parse? hs) hm fun hprogram => ?_
    have hcallable := (Place.effects?_inv hstraight.shape).1
    rw [hprogram] at hcallable
    cases hcallable
  have hflat := flat_of_effects? hregular hstraight.shape
  have hread : ∀ args : Text → Value, ∃ final v e, (m.initially args).run? effects = some final ∧
      use.node.value? final = some v ∧ s.lower use = .ok e ∧
        Denotes ((m.initially args).values effects last) e v := by
    intro args
    obtain ⟨final, v, hfinal, hv⟩ := hstraight.run? args
    obtain ⟨e, he, hdenotes⟩ :=
      read_expression hm hflat haside hfinal (.last hfinal) hstraight.use_mem hv (Nat.zero_le _)
    exact ⟨final, v, e, hfinal, hv, he, hdenotes⟩
  obtain ⟨-, -, e, -, -, he, -⟩ := hread fun _ => none
  refine ⟨e, he, fun args => ?_⟩
  obtain ⟨final, v, e', hfinal, hv, he', hdenotes⟩ := hread args
  obtain rfl : e = e' := Except.ok.inj (he.symm.trans he')
  refine ⟨final, v, hfinal, hv, ?_⟩
  rw [rendered?_fragments]
  exact hdenotes

/-- A method that adds to a variable, uses it and changes its parameter. -/
def accumulatingSource : Text :=
  ("class A \x7b String m(String p) \x7b String v = \"a\"; v += v + \"\\n\"; " ++
    "String w = (p) + v + \"b\"; p = \"c\"; return w + (v + p); \x7d \x7d").toList

theorem rendered_lower_accumulating : ∃ s m effects last use, Source.parse? accumulatingSource = some s ∧
    m ∈ s.places ∧ m.Straight effects last use ∧ m.CommentsAside ∧ use.text = "w + (v + p)".toList ∧
    ∃ e, s.lower use = .ok e ∧ ∀ args : Text → Value, ∃ final v,
      (m.initially args).run? effects = some final ∧ use.node.value? final = some v ∧
        rendered? ((m.initially args).values effects last) e.fragments = some (shown v) := by
  have hcheck : (Source.parse? accumulatingSource).any (fun s => s.places.any fun m =>
      m.commentsAside && m.effects?.any fun (effects, last) =>
        ((m.initially fun _ => none).run? effects).any fun final => last.below.any fun use =>
          use.text == "w + (v + p)".toList && (use.node.value? final).isSome) = true := by
    decide +kernel
  simp only [Option.any_eq_true, List.any_eq_true, Bool.and_eq_true, beq_iff_eq,
    Option.isSome_iff_exists] at hcheck
  obtain ⟨s, hs, m, hm, haside, ⟨effects, last⟩, heffects, final, hrun, use, huse, htext, v, hv⟩ := hcheck
  have haside := m.commentsAside_iff.1 haside
  have hstraight : m.Straight effects last use := ⟨heffects, huse, final, v, hrun, hv⟩
  exact ⟨s, m, effects, last, use, hs, hm, hstraight, haside, htext,
    rendered_lower hs hm hstraight haside⟩

/-- A method with a comment first inside parentheses. -/
def commentedSource : Text :=
  "class A \x7b String m(String p) \x7b return \"x\" + (/*c*/ p); \x7d \x7d".toList

theorem rendered_lower_comment : ∃ s m effects last use e, Source.parse? commentedSource = some s ∧
    m ∈ s.places ∧ m.Straight effects last use ∧ s.lower use = .ok e ∧ ∃ args final v,
      (m.initially args).run? effects = some final ∧ use.node.value? final = some v ∧
        rendered? ((m.initially args).values effects last) e.fragments ≠ some (shown v) := by
  have hcheck : (Source.parse? commentedSource).any (fun s => s.places.any fun m =>
      m.effects?.any fun (effects, last) =>
        ((m.initially fun _ => none).run? effects).any fun final => last.below.any fun use =>
          (use.node.value? final).isSome && (s.lower use).toOption.any fun e =>
            (rendered? ((m.initially fun _ => none).values effects last) e.fragments).isNone) = true := by
    decide +kernel
  simp only [Option.any_eq_true, List.any_eq_true, Bool.and_eq_true, Option.isSome_iff_exists,
    Option.isNone_iff_eq_none] at hcheck
  obtain ⟨s, hs, m, hm, ⟨effects, last⟩, heffects, final, hrun, use, huse, ⟨v, hv⟩, e, he, hnone⟩ :=
    hcheck
  have hlower : s.lower use = .ok e := by
    cases hlower : s.lower use with
    | error fault => rw [hlower] at he; cases he
    | ok e' => rw [hlower] at he; rw [Option.some.inj he]
  refine ⟨s, m, effects, last, use, e, hs, hm, ⟨heffects, huse, final, v, hrun, hv⟩, hlower, _, final,
    v, hrun, hv, ?_⟩
  rw [hnone]
  exact nofun

end SqlInjection.Java
