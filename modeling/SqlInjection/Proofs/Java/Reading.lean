import Mathlib.Data.List.Basic
import Mathlib.Data.List.ProdSigma
import Mathlib.Order.WellFounded
import SqlInjection.Java.Lowering
import SqlInjection.Proofs.Java.Places

/-!
# Reading expressions to their end

Reading the expression at a place goes on to other places: the operands and arguments in it, the
initial value of a name, what is assigned to it, what is appended to it. `Calls` is the relation
between a place, with the number of names followed so far, and those it goes on to.

* `Source.lower_eq_endless_iff`: the bound on the number of steps that `Source.lower` uses is enough;
  its answer that reading has no end is true of every bound.
* `lower_returns`: reading comes to an end if no field inside a method is made from local variables
  of that method (`Node.FieldsApart`).
* `lower_endless_circularField`: it need not otherwise. What is appended to a builder is read with the
  count of names at zero, so a circle of names through a builder and such a field is never left.

Steps that stay among local variables go back in the source, steps to a field add to the count of
names; only a step from a field to a builder does neither.
-/

namespace SqlInjection.Java

/-! ## Where reading goes -/

/-- The field that an access by an object or a type names. -/
def Place.accessedField? (root : Node) (p : Place) : Option Place :=
  match p.node.child? .object, p.node.childText? .field with
  | some object, some name =>
    match object.kind with
    | .thisRef => p.field? name
    | .identifier => (root.typeNamed? object.text).bind (·.fieldOf? name)
    | _ => none
  | _, _ => none

/-- The field that a place names. -/
def Place.NamesField (root : Node) (p f : Place) : Prop :=
  p.kind = .identifier ∧ p.field? p.text = some f ∨
    p.kind = .fieldAccess ∧ p.accessedField? root = some f

/-- The name at a place is a local variable `name` of the method `m`, declared at `f`. -/
structure Place.NamesLocal (p m f : Place) (name : Text) : Prop where
  kind : p.kind = .identifier
  callable : p.callable? = some m
  before : ∃ v, m.localBefore? p.text p.start = some v ∧ v.declarator = some f
  name : f.node.childText? .name = some name

/-- The expression at a place is made of the expression at another. -/
inductive Place.HasPart (p q : Place) : Prop
  | inside (hp : p.kind = .parenthesized) (hq : p.children.head? = some q)
  | operand {r : Role} (hp : p.kind = .binary) (hr : r = .left ∨ r = .right)
      (hq : p.child? r = some q)
  | receiver (hp : p.kind = .call) (hq : p.child? .object = some q)
  | argument (hp : p.kind = .call ∨ p.kind = .creation) (hq : q ∈ p.arguments)

/-- From a place and a number of names followed, reading goes on to another place and number. -/
inductive Calls (root : Node) : Place × Nat → Place × Nat → Prop
  | part {p q : Place} {d : Nat} (hd : d ≤ maxDepth) (hq : p.HasPart q) : Calls root (p, d) (q, d)
  | field {p f q : Place} {d : Nat} (hd : d ≤ maxDepth) (hf : p.NamesField root f)
      (hq : f.child? .value = some q) : Calls root (p, d) (q, d + 1)
  | initial {p m f q : Place} {name : Text} {d : Nat} (hd : d ≤ maxDepth)
      (hf : p.NamesLocal m f name) (hq : f.child? .value = some q) : Calls root (p, d) (q, d + 1)
  | assigned {p m f a q : Place} {name : Text} {d : Nat} (hd : d ≤ maxDepth)
      (hf : p.NamesLocal m f name) (ha : a ∈ m.assignmentsTo name f.stop p.start)
      (hq : a.child? .right = some q) : Calls root (p, d) (q, d + 1)
  | appended {p m f q : Place} {name : Text} {d : Nat} (hd : d ≤ maxDepth)
      (hf : p.NamesLocal m f name) (hq : some q ∈ m.appendsTo name f.stop p.start) :
      Calls root (p, d) (q, 0)

/-- A literal at the place is a text block whose indentation ends inside a character. -/
def Place.CutsCharacter (p : Place) : Prop := p.kind = .stringLiteral ∧ decodeLiteral? p.text = none

/-! ## What a result depends on -/

/-- A chain is read operand by operand. -/
theorem readChain_eq (read : Reader) (p : Place) (d : Nat) :
    readChain read p d = (do
      let left ← (p.child? .left).mapM (read · d)
      let right ← (p.child? .right).mapM (read · d)
      let first := match p.child? .left, left with
        | some l, some e => leftOperands (p.node.operator.getD []) l e
        | _, _ => []
      pure (.chain (p.node.operator.getD []) (first ++ right.toList) p.written)) := by
  unfold readChain
  cases p.child? .left with
  | none =>
    cases p.child? .right with
    | none => rfl
    | some r => cases h : read r d <;> simp [h]
  | some l =>
    cases p.child? .right with
    | none => cases h : read l d <;> simp [h]
    | some r => cases h : read l d <;> cases h' : read r d <;> simp [h, h'] <;> rfl

/-- A relation between results that all steps of reading keep. -/
structure Congruent (R : ∀ {α : Type}, Lowered α → Lowered α → Prop) : Prop where
  ok : ∀ {α : Type} (a : α), R (.ok a) (.ok a)
  bind : ∀ {α β : Type} {x y : Lowered α} {f g : α → Lowered β}, R x y → (∀ a, R (f a) (g a)) →
    R (x >>= f) (y >>= g)

namespace Congruent

variable {R : ∀ {α : Type}, Lowered α → Lowered α → Prop} (hR : Congruent R)
include hR

theorem map {α β : Type} {x y : Lowered α} (f : α → β) (h : R x y) : R (f <$> x) (f <$> y) := by
  rw [map_eq_pure_bind, map_eq_pure_bind]
  exact hR.bind h fun a => hR.ok (f a)

theorem mapM_option {α β : Type} {f g : α → Lowered β} {o : Option α}
    (h : ∀ a, o = some a → R (f a) (g a)) : R (o.mapM f) (o.mapM g) := by
  cases o with
  | none => exact hR.ok none
  | some a => exact hR.map some (h a rfl)

theorem mapM_list {α β : Type} {f g : α → Lowered β} {l : List α} (h : ∀ a ∈ l, R (f a) (g a)) :
    R (l.mapM f) (l.mapM g) := by
  induction l with
  | nil => exact hR.ok []
  | cons a l ih =>
    rw [List.mapM_cons, List.mapM_cons]
    exact hR.bind (h a List.mem_cons_self) fun b =>
      hR.bind (ih fun c hc => h c (List.mem_cons_of_mem _ hc)) fun bs => hR.ok (b :: bs)

variable {read read' : Reader} {root : Node} {p : Place} {d : Nat}

theorem constantText {q : Place} (h : R (read q (d + 1)) (read' q (d + 1))) :
    R (constantText read q d) (constantText read' q d) :=
  hR.bind h fun _ => hR.ok _

theorem assignedText {as : List Place} (h : ∀ a ∈ as, ∀ q, a.child? .right = some q →
    R (read q (d + 1)) (read' q (d + 1))) (text : Text) :
    R (assignedText read d text as) (assignedText read' d text as) := by
  induction as generalizing text with
  | nil => exact hR.ok _
  | cons a as ih =>
    have ih := ih fun b hb => h b (List.mem_cons_of_mem _ hb)
    have hvalue := h a List.mem_cons_self
    rw [Java.assignedText, Java.assignedText]
    split
    · next value _ hq =>
      refine hR.bind (hR.constantText (hvalue value hq)) fun t => ?_
      cases t with
      | none => exact hR.ok none
      | some t => exact ih t
    · next value _ hq =>
      refine hR.bind (hR.constantText (hvalue value hq)) fun t => ?_
      cases t with
      | none => exact hR.ok none
      | some t => exact ih (text ++ t)
    · exact hR.ok none

theorem appendedValues {l : List (Option Place)}
    (h : ∀ q, some q ∈ l → R (read q 0) (read' q 0)) :
    R (appendedValues read l) (appendedValues read' l) := by
  induction l with
  | nil => exact hR.ok _
  | cons o l ih =>
    cases o with
    | none => exact hR.ok none
    | some q =>
      exact hR.bind (h q List.mem_cons_self) fun e =>
        hR.bind (ih fun r hr => h r (List.mem_cons_of_mem _ hr)) fun es => hR.ok _

section Names

variable {m f : Place} {name : Text} {use : Nat}

theorem builderValue
    (hvalue : ∀ q, f.child? .value = some q → R (read q (d + 1)) (read' q (d + 1)))
    (happended : ∀ q, some q ∈ m.appendsTo name f.stop use → R (read q 0) (read' q 0)) :
    R (builderValue read m f name use d) (builderValue read' m f name use d) := by
  unfold Java.builderValue
  split
  · next value _ hq =>
    exact hR.bind (hvalue value hq) fun first =>
      hR.bind (hR.appendedValues happended) fun appended => hR.ok _
  · exact hR.ok none

theorem assignedValue
    (hvalue : ∀ q, f.child? .value = some q → R (read q (d + 1)) (read' q (d + 1)))
    (hassigned : ∀ a ∈ m.assignmentsTo name f.stop use, ∀ q, a.child? .right = some q →
      R (read q (d + 1)) (read' q (d + 1))) :
    R (assignedValue read m f name use d) (assignedValue read' m f name use d) := by
  unfold Java.assignedValue
  split
  · exact hR.ok none
  · next value _ hq => exact hR.map some (hvalue value hq)
  · next value hq _ =>
    refine hR.bind (hR.constantText (hvalue value hq)) fun t => ?_
    cases t with
    | none => exact hR.ok none
    | some t => exact hR.bind (hR.assignedText hassigned t) fun text => hR.ok _

theorem fieldReference (w : Written)
    (hvalue : ∀ q, f.child? .value = some q → R (read q (d + 1)) (read' q (d + 1))) :
    R (fieldReference read f w d) (fieldReference read' f w d) :=
  hR.bind (hR.mapM_option hvalue) fun _ => hR.ok _

end Names

variable (h : ∀ q e, Calls root (p, d) (q, e) → R (read q e) (read' q e))
include h

theorem readFieldName (hd : d ≤ maxDepth) (hp : p.kind = .identifier) :
    R (readFieldName read p d) (readFieldName read' p d) := by
  unfold Java.readFieldName
  split
  · next f hf =>
    exact hR.fieldReference _ fun q hq => h q _ (.field hd (Or.inl ⟨hp, hf⟩) hq)
  · exact hR.ok _

theorem localValue {m : Place} {v : LocalVariable} (hd : d ≤ maxDepth) (hp : p.kind = .identifier)
    (hm : p.callable? = some m) (hv : m.localBefore? p.text p.start = some v) :
    R (localValue read m v p.start d) (localValue read' m v p.start d) := by
  unfold Java.localValue
  split
  · exact hR.ok none
  · next f hf =>
    split
    · exact hR.ok none
    · next name hname =>
      have hlocal : p.NamesLocal m f name := ⟨hp, hm, ⟨v, hv, hf⟩, hname⟩
      have hvalue : ∀ q, f.child? .value = some q → R (read q (d + 1)) (read' q (d + 1)) :=
        fun q hq => h q _ (.initial hd hlocal hq)
      split
      · exact hR.builderValue hvalue fun q hq => h q _ (.appended hd hlocal hq)
      · exact hR.assignedValue hvalue fun a ha q hq => h q _ (.assigned hd hlocal ha hq)

theorem readName (hd : d ≤ maxDepth) (hp : p.kind = .identifier) :
    R (readName read p d) (readName read' p d) := by
  unfold Java.readName
  split
  · exact hR.readFieldName h hd hp
  · next m hm =>
    split
    · next v hv => exact hR.bind (hR.localValue h hd hp hm hv) fun _ => hR.ok _
    · split
      · exact hR.ok _
      · exact hR.readFieldName h hd hp

theorem readFieldAccess (hd : d ≤ maxDepth) (hp : p.kind = .fieldAccess) :
    R (readFieldAccess root read p d) (readFieldAccess root read' p d) := by
  unfold Java.readFieldAccess
  split
  · next object name hobject hname =>
    dsimp only
    split
    · next f hf =>
      have hfield : p.accessedField? root = some f := by
        rw [Place.accessedField?, hobject, hname]
        exact hf
      exact hR.fieldReference _ fun q hq => h q _ (.field hd (Or.inr ⟨hp, hfield⟩) hq)
    · exact hR.ok _
  · exact hR.ok _

theorem readChain (hd : d ≤ maxDepth) (hp : p.kind = .binary) :
    R (readChain read p d) (readChain read' p d) := by
  rw [readChain_eq, readChain_eq]
  refine hR.bind ?_ fun left => hR.bind ?_ fun right => hR.ok _
  · exact hR.mapM_option fun q hq => h q _ (.part hd (.operand hp (Or.inl rfl) hq))
  · exact hR.mapM_option fun q hq => h q _ (.part hd (.operand hp (Or.inr rfl) hq))

theorem readCall (hd : d ≤ maxDepth) (hp : p.kind = .call) :
    R (readCall read p d) (readCall read' p d) :=
  hR.bind (hR.mapM_option fun q hq => h q _ (.part hd (.receiver hp hq))) fun _ =>
    hR.bind (hR.mapM_list fun q hq => h q _ (.part hd (.argument (Or.inl hp) hq))) fun _ => hR.ok _

theorem readCreation (hd : d ≤ maxDepth) (hp : p.kind = .creation) :
    R (readCreation read p d) (readCreation read' p d) :=
  hR.bind (hR.mapM_list fun q hq => h q _ (.part hd (.argument (Or.inr hp) hq))) fun _ => hR.ok _

/-- **A result depends only on the places that reading goes on to**, and on the text of a literal. -/
theorem readPlace (hcut : p.CutsCharacter → R (.error .cutsCharacter : Lowered Expr) (.error .cutsCharacter)) :
    R (readPlace root read p d) (readPlace root read' p d) := by
  unfold Java.readPlace
  split
  · exact hR.ok _
  · next hdepth =>
    have hd : d ≤ maxDepth := Nat.le_of_not_lt hdepth
    split
    · next hp =>
      rw [readString]
      split
      · exact hR.ok _
      · next hdecode => exact hcut ⟨hp, hdecode⟩
    · exact hR.ok _
    · exact hR.ok _
    · exact hR.ok _
    · exact hR.ok _
    · exact hR.ok _
    · next hp =>
      split
      · next q hq => exact h q d (.part hd (.inside hp hq))
      · exact hR.ok _
    · next hp => exact hR.readName h hd hp
    · next hp => exact hR.readFieldAccess h hd hp
    · next hp => exact hR.readChain h hd hp
    · next hp => exact hR.readCall h hd hp
    · next hp => exact hR.readCreation h hd hp
    · exact hR.ok _
    · exact hR.ok _

end Congruent

/-! ## Enough steps -/

/-- The results are the same, unless the first was not read to its end. -/
def Approximates {α : Type} (x y : Lowered α) : Prop := x = .error .endless ∨ x = y

theorem congruent_approximates : Congruent @Approximates where
  ok _ := Or.inr rfl
  bind := by
    intro α β x y f g hxy h
    rcases hxy with rfl | rfl
    · exact Or.inl rfl
    · cases x with
      | error e => exact Or.inr rfl
      | ok a => exact h a

variable {root : Node}

theorem approximates_readWithin_succ (k : Nat) (p : Place) (d : Nat) :
    Approximates (readWithin root k p d) (readWithin root (k + 1) p d) := by
  induction k generalizing p d with
  | zero => exact Or.inl rfl
  | succ k ih => exact congruent_approximates.readPlace (fun q e _ => ih q e) fun _ => Or.inr rfl

/-- More steps keep a finished result. -/
theorem readWithin_of_le {k l : Nat} (hkl : k ≤ l) {p : Place} {d : Nat}
    (h : readWithin root k p d ≠ .error .endless) :
    readWithin root l p d = readWithin root k p d := by
  induction l, hkl using Nat.le_induction with
  | base => rfl
  | succ l _ ih =>
    rcases approximates_readWithin_succ l p d with hend | heq
    · exact absurd (ih.symm.trans hend) h
    · rw [← heq, ih]

/-! ## Where lookups end -/

section Lookups

variable {p q f m : Place} {name : Text} {start stop use : Nat}

/-- The declaration of a local variable is the place that declares it, before its use. -/
theorem declarator_of_localVariable? {v : LocalVariable} (hv : localVariable? name use p = some v)
    (hf : v.declarator = some f) : p = f ∧ p.kind = .declarator ∧ p.stop ≤ use := by
  have hother : ∀ t, (if p.declares name then some (⟨t, none⟩ : LocalVariable) else none) ≠ some v := by
    intro t h
    split at h
    · rw [← Option.some.inj h] at hf
      cases hf
    · cases h
  unfold localVariable? at hv
  split at hv
  · next hkind =>
    split at hv
    · split at hv
      · next h =>
        simp only [Bool.and_eq_true, decide_eq_true_eq] at h
        rw [← Option.some.inj hv] at hf
        exact ⟨Option.some.inj hf, hkind, h.2⟩
      · cases hv
    · cases hv
  · exact absurd hv (hother _)
  · exact absurd hv (hother _)
  · exact absurd hv (hother _)
  · cases hv

/-- A local variable is declared in its method, before its use. -/
theorem declarator_of_localBefore? {v : LocalVariable} (hv : m.localBefore? name use = some v)
    (hf : v.declarator = some f) : f ∈ m.below ∧ f.stop ≤ use := by
  obtain ⟨g, hg, hvar⟩ := List.mem_filterMap.1 (List.mem_of_getLast? hv)
  obtain ⟨rfl, -, hstop⟩ := declarator_of_localVariable? hvar hf
  exact ⟨(List.takeWhile_sublist _).subset hg, hstop⟩

theorem NamesLocal.declarator (h : p.NamesLocal m f name) : f ∈ m.below ∧ f.stop ≤ p.start := by
  obtain ⟨v, hv, hf⟩ := h.before
  exact declarator_of_localBefore? hv hf

theorem mem_assignmentsTo {a : Place} (h : a ∈ m.assignmentsTo name start stop) :
    a ∈ m.below ∧ a.stop ≤ stop := by
  have hbetween := List.mem_of_mem_filter h
  obtain ⟨hmem, hbounds⟩ := List.mem_filter.1 hbetween
  simp only [Bool.and_eq_true, decide_eq_true_eq] at hbounds
  exact ⟨hmem, hbounds.2⟩

theorem mem_below_of_arguments (h : q ∈ p.arguments) :
    ∃ args, p.child? .arguments = some args ∧ q ∈ args.children := by
  unfold Place.arguments at h
  split at h
  · next args hargs => exact ⟨args, hargs, List.mem_of_mem_filter h⟩
  · cases h

theorem Place.HasPart.mem_below (h : p.HasPart q) : q ∈ p.below := by
  cases h with
  | inside _ hq => exact Place.mem_below_of_child (List.mem_of_mem_head? hq)
  | operand _ _ hq | receiver _ hq =>
    exact Place.mem_below_of_child (Place.mem_children_of_child? hq).1
  | argument _ hq =>
    obtain ⟨args, hargs, hq⟩ := mem_below_of_arguments hq
    exact Place.below_trans (Place.mem_below_of_child (Place.mem_children_of_child? hargs).1)
      (Place.mem_below_of_child hq)

theorem mem_below_of_callChain {fuel : Nat} {calls : List Place}
    (h : callChain fuel p = some (name, calls)) : ∀ c ∈ calls, c ∈ p.below := by
  induction fuel generalizing p name calls with
  | zero => cases h
  | succ fuel ih =>
    rw [callChain] at h
    split at h
    · obtain ⟨object, hobject, h⟩ := Option.bind_eq_some_iff.1 h
      obtain ⟨⟨n, cs⟩, hchain, h⟩ := Option.bind_eq_some_iff.1 h
      obtain ⟨rfl, rfl⟩ := Prod.mk.inj (Option.some.inj h)
      intro c hc
      rcases List.mem_append.1 hc with hc | hc
      · exact Place.below_trans
          (Place.mem_below_of_child (Place.mem_children_of_child? hobject).1) (ih hchain c hc)
      · rw [List.mem_singleton.1 hc]
        exact Place.self_mem_below p
    · obtain ⟨rfl, rfl⟩ := Prod.mk.inj (Option.some.inj h)
      exact fun c hc => absurd hc List.not_mem_nil
    · cases h

/-- What is appended to a builder stands in a statement of the method. -/
theorem mem_appendsTo (h : some q ∈ m.appendsTo name start stop) :
    ∃ st ∈ m.below, st.stop ≤ stop ∧ q ∈ st.below := by
  obtain ⟨st, hst, hq⟩ := List.mem_flatMap.1 h
  obtain ⟨hmem, hbounds⟩ := List.mem_filter.1 hst
  simp only [Bool.and_eq_true, decide_eq_true_eq] at hbounds
  refine ⟨st, hmem, hbounds.2, ?_⟩
  split at hq
  · next target calls hchain =>
    split at hq
    · obtain ⟨call, hcall, happended⟩ := List.mem_map.1 hq
      obtain ⟨e, he, hchain⟩ := Option.bind_eq_some_iff.1 hchain
      have hcall := Place.below_trans (Place.mem_below_of_child (List.mem_of_mem_head? he))
        (mem_below_of_callChain hchain call hcall)
      have harg : q ∈ call.arguments := by
        unfold appended? at happended
        split at happended
        · next arg _ harguments =>
          split at happended
          · rw [harguments, ← Option.some.inj happended]
            exact List.mem_singleton_self _
          · cases happended
        · cases happended
      obtain ⟨args, hargs, hq⟩ := mem_below_of_arguments harg
      exact Place.below_trans hcall (Place.below_trans
        (Place.mem_below_of_child (Place.mem_children_of_child? hargs).1)
        (Place.mem_below_of_child hq))
    · cases hq
  · cases hq

/-- A field is declared in a field declaration below its type. -/
theorem mem_of_fieldOf? (h : p.fieldOf? name = some f) : ∃ l ∈ p.below, f ∈ l.children ∧
    (l.kind = .fieldDeclaration ∨ l.kind = .constantDeclaration) := by
  obtain ⟨l, hl, hf⟩ := List.mem_flatMap.1 (List.mem_of_find?_eq_some h)
  obtain ⟨hmember, hkind⟩ := List.mem_filter.1 hl
  refine ⟨l, ?_, List.mem_of_mem_filter hf, by simpa using hkind⟩
  unfold Place.members at hmember
  split at hmember
  · next body hbody =>
    obtain ⟨c, hc, hmember⟩ := List.mem_flatMap.1 hmember
    have hc := Place.below_trans (Place.mem_below_of_child (Place.mem_children_of_child? hbody).1)
      (Place.mem_below_of_child hc)
    split at hmember
    · exact Place.below_trans hc (Place.mem_below_of_child hmember)
    · rw [List.mem_singleton.1 hmember]
      exact hc
  · cases hmember

theorem mem_of_field? (hp : p ∈ root.places) (h : p.field? name = some f) :
    ∃ l ∈ root.places, f ∈ l.children ∧
      (l.kind = .fieldDeclaration ∨ l.kind = .constantDeclaration) := by
  obtain ⟨type, htype, hfield⟩ := List.exists_of_findSome?_eq_some h
  obtain ⟨htype, -⟩ := mem_places_of_selfAndEnclosing hp
    (List.mem_cons_of_mem _ (List.mem_of_mem_filter htype))
  obtain ⟨l, hl, hrest⟩ := mem_of_fieldOf? hfield
  exact ⟨l, mem_places_of_below htype hl, hrest⟩

theorem NamesField.declaration (hp : p ∈ root.places) (h : p.NamesField root f) :
    ∃ l ∈ root.places, f ∈ l.children ∧
      (l.kind = .fieldDeclaration ∨ l.kind = .constantDeclaration) := by
  rcases h with ⟨-, h⟩ | ⟨-, h⟩
  · exact mem_of_field? hp h
  · unfold Place.accessedField? at h
    split at h
    · split at h
      · exact mem_of_field? hp h
      · obtain ⟨type, htype, hfield⟩ := Option.bind_eq_some_iff.1 h
        obtain ⟨l, hl, hrest⟩ := mem_of_fieldOf? hfield
        exact ⟨l, mem_places_of_below (List.mem_of_find?_eq_some htype) hl, hrest⟩
      · cases h
    · cases h

/-- Reading goes on to places of the same tree, with a bounded number of names. -/
theorem Calls.mem {d e : Nat} (hp : p ∈ root.places) (h : Calls root (p, d) (q, e)) :
    q ∈ root.places ∧ e ≤ maxDepth + 1 := by
  have hlocal : ∀ {m f : Place} {name : Text}, p.NamesLocal m f name → m ∈ root.places :=
    fun hf => (mem_places_of_callable? hp hf.callable).1
  cases h with
  | part hd hq => exact ⟨mem_places_of_below hp hq.mem_below, Nat.le_succ_of_le hd⟩
  | field hd hf hq =>
    obtain ⟨l, hl, hchild, -⟩ := NamesField.declaration hp hf
    exact ⟨mem_places_of_child? (mem_places_of_child hl hchild) hq, Nat.succ_le_succ hd⟩
  | initial hd hf hq =>
    have hdecl := mem_places_of_below (hlocal hf) (NamesLocal.declarator hf).1
    exact ⟨mem_places_of_child? hdecl hq, Nat.succ_le_succ hd⟩
  | assigned hd hf ha hq =>
    have hassign := mem_places_of_below (hlocal hf) (mem_assignmentsTo ha).1
    exact ⟨mem_places_of_child? hassign hq, Nat.succ_le_succ hd⟩
  | appended hd hf hq =>
    obtain ⟨st, hst, -, hq⟩ := mem_appendsTo hq
    exact ⟨mem_places_of_below (mem_places_of_below (hlocal hf) hst) hq, Nat.zero_le _⟩

end Lookups

/-! ## Enough steps -/

/-- The places of a tree with each number of names that reading comes with. -/
def states (root : Node) : List (Place × Nat) := root.places ×ˢ List.range (maxDepth + 2)

theorem mem_states {p : Place} {d : Nat} :
    (p, d) ∈ states root ↔ p ∈ root.places ∧ d ≤ maxDepth + 1 := by
  rw [states, List.mem_product, List.mem_range, Nat.lt_succ_iff]

theorem Calls.mem_states {p q : Place} {d e : Nat} (h : Calls root (p, d) (q, e))
    (hp : (p, d) ∈ states root) : (q, e) ∈ states root :=
  Java.mem_states.2 (h.mem (Java.mem_states.1 hp).1)

/-- Whether a result was not read to its end. -/
def isEndless : Lowered Expr → Bool
  | .error .endless => true
  | _ => false

theorem isEndless_iff {x : Lowered Expr} : isEndless x = true ↔ x = .error .endless := by
  unfold isEndless
  split <;> simp_all

/-- The states that are not read to their end within `k` steps. -/
def pending (root : Node) (k : Nat) : List (Place × Nat) :=
  (states root).filter fun x => isEndless (readWithin root k x.1 x.2)

/-- One step more changes no result. -/
def Settled (root : Node) (k : Nat) : Prop :=
  ∀ x ∈ states root, readWithin root (k + 1) x.1 x.2 = readWithin root k x.1 x.2

theorem Settled.succ {k : Nat} (h : Settled root k) : Settled root (k + 1) := by
  have hR : Congruent fun {α : Type} (x y : Lowered α) => x = y :=
    { ok := fun _ => rfl, bind := fun hxy h => by rw [hxy, funext h] }
  intro x hx
  exact hR.readPlace (fun q e hcall => h _ (hcall.mem_states hx)) fun _ => rfl

theorem Settled.add {k : Nat} (h : Settled root k) (n : Nat) :
    Settled root (k + n) ∧ ∀ x ∈ states root, readWithin root (k + n) x.1 x.2 = readWithin root k x.1 x.2 := by
  induction n with
  | zero => exact ⟨h, fun _ _ => rfl⟩
  | succ n ih => exact ⟨ih.1.succ, fun x hx => (ih.1 x hx).trans (ih.2 x hx)⟩

theorem pending_succ_sublist (root : Node) (k : Nat) :
    (pending root (k + 1)).Sublist (pending root k) := by
  refine List.monotone_filter_right _ fun x hx => ?_
  rw [isEndless_iff] at hx ⊢
  by_contra hfinished
  exact hfinished ((readWithin_of_le (Nat.le_succ k) hfinished).symm.trans hx)

theorem settled_of_length_pending {k : Nat}
    (h : (pending root (k + 1)).length = (pending root k).length) : Settled root k := by
  have hsame := (pending_succ_sublist root k).eq_of_length h
  intro x hx
  by_cases hend : readWithin root k x.1 x.2 = .error .endless
  · have hmem : x ∈ pending root (k + 1) := by
      rw [hsame]
      exact List.mem_filter.2 ⟨hx, isEndless_iff.2 hend⟩
    rw [hend, isEndless_iff.1 (List.mem_filter.1 hmem).2]
  · exact readWithin_of_le (Nat.le_succ k) hend

/-- Each step either settles a further state or none is settled any more. -/
theorem settled_or_length_pending (root : Node) (k : Nat) :
    Settled root k ∨ (pending root k).length + k ≤ (states root).length := by
  induction k with
  | zero => exact Or.inr (List.length_filter_le _ _)
  | succ k ih =>
    by_cases hsame : (pending root (k + 1)).length = (pending root k).length
    · exact Or.inl (settled_of_length_pending hsame).succ
    · have hle := (pending_succ_sublist root k).length_le
      exact ih.imp Settled.succ fun h => by omega

namespace Source

variable {s : Source} {p : Place}

theorem settled_readingBound (s : Source) : Settled s.root s.readingBound := by
  refine (settled_or_length_pending s.root s.readingBound).resolve_right fun h => ?_
  rw [readingBound, states, List.length_product, List.length_range, Source.places] at h
  omega

/-- **The bound is enough**: what is read to its end within any number of steps is the result. -/
theorem lower_eq_readWithin {k : Nat} (hp : p ∈ s.places)
    (h : readWithin s.root k p 0 ≠ .error .endless) : s.lower p = readWithin s.root k p 0 := by
  have hstate : (p, 0) ∈ states s.root := mem_states.2 ⟨hp, Nat.zero_le _⟩
  have hbound := (s.settled_readingBound.add k).2 _ hstate
  rw [lower, ← hbound]
  exact readWithin_of_le (Nat.le_add_left k _) h

/-- Reading has no end exactly if no number of steps is enough. -/
theorem lower_eq_endless_iff (hp : p ∈ s.places) :
    s.lower p = .error .endless ↔ ∀ k, readWithin s.root k p 0 = .error .endless := by
  constructor
  · intro h k
    by_contra hk
    exact hk ((lower_eq_readWithin hp hk).symm.trans h)
  · exact fun h => h _

end Source

/-! ## The end of reading -/

/-- The places that declare the fields of a tree. -/
def Node.fields (root : Node) : List Place :=
  (root.places.filter fun l => l.kind == .fieldDeclaration || l.kind == .constantDeclaration).flatMap
    Place.children

/-- The expression at a place is read for the value of a field. -/
def Place.ReadFor (q f : Place) : Prop :=
  ∃ value, f.child? .value = some value ∧ Relation.ReflTransGen Place.HasPart value q

/-- No name that is read for the value of a field stands for a local variable of the method around
the field. -/
def Node.FieldsApart (root : Node) : Prop :=
  ∀ f ∈ root.fields, ∀ q : Place, q.ReadFor f → ∀ m, f.callable? = some m → q.callable? = some m →
    q.kind = .identifier → m.localBefore? q.text q.start = none

/-- The place is read for the value of a field, and lies in no method inside of it. -/
def Place.InField (root : Node) (p : Place) : Prop :=
  ∃ f ∈ root.fields, p.ReadFor f ∧ p.callable? = f.callable?

section Ends

variable {p q : Place} {d e : Nat}

theorem NamesField.mem_fields {f : Place} (hp : p ∈ root.places) (h : p.NamesField root f) :
    f ∈ root.fields := by
  obtain ⟨l, hl, hf, hkind⟩ := NamesField.declaration hp h
  exact List.mem_flatMap.2 ⟨l, List.mem_filter.2 ⟨hl, by simpa using hkind⟩, hf⟩

theorem mem_places_of_fields {f : Place} (h : f ∈ root.fields) : f ∈ root.places := by
  obtain ⟨l, hl, hf⟩ := List.mem_flatMap.1 h
  exact mem_places_of_child (List.mem_of_mem_filter hl) hf

theorem Place.mem_below_of_parts (h : Relation.ReflTransGen HasPart p q) : q ∈ p.below := by
  induction h with
  | refl => exact self_mem_below p
  | tail _ hpart ih => exact below_trans ih hpart.mem_below

theorem Place.ReadFor.mem_below {f : Place} (h : p.ReadFor f) : p ∈ f.below := by
  obtain ⟨value, hvalue, hparts⟩ := h
  have hchild := (mem_children_of_child? hvalue).1
  exact below_trans (mem_below_of_child hchild) (mem_below_of_parts hparts)

theorem not_namesLocal_of_inField {m f : Place} {name : Text} (hapart : root.FieldsApart)
    (h : p.InField root) : ¬ p.NamesLocal m f name := by
  rintro ⟨hkind, hcallable, ⟨v, hv, -⟩, -⟩
  obtain ⟨g, hg, hread, hsame⟩ := h
  have hnone := hapart g hg p hread m (hsame ▸ hcallable) hcallable hkind
  rw [hnone] at hv
  cases hv

/-- The place is part of the expression at another one. -/
structure Place.PartOf (q p : Place) : Prop where
  below : q ∈ p.below
  size : sizeOf q.node < sizeOf p.node
  callable : q.kind.isCallable = false → q.callable? = p.callable?

theorem Place.PartOf.of_child (h : q ∈ p.children) : q.PartOf p :=
  ⟨mem_below_of_child h, sizeOf_lt_of_mem_children h, callable?_of_child h⟩

theorem Place.PartOf.of_arguments (hp : p.Regular) (h : q ∈ p.arguments) : q.PartOf p := by
  obtain ⟨args, hargs, hq⟩ := mem_below_of_arguments h
  obtain ⟨hchild, hrole⟩ := mem_children_of_child? hargs
  have hargs := of_child hchild
  have hq := of_child hq
  have hcallable := hargs.callable ((hp.child hchild).1.shaped.arguments hrole)
  exact ⟨below_trans hargs.below hq.below, hq.size.trans hargs.size,
    fun h => (hq.callable h).trans hcallable⟩

theorem Place.HasPart.partOf (hp : p.Regular) (h : p.HasPart q) : q.PartOf p := by
  cases h with
  | inside _ hq => exact .of_child (List.mem_of_mem_head? hq)
  | operand _ _ hq | receiver _ hq => exact .of_child (mem_children_of_child? hq).1
  | argument _ hq => exact .of_arguments hp hq

/-- The kinds of expressions from which reading goes on. -/
theorem Calls.kind (h : Calls root (p, d) (q, e)) :
    p.kind ∈ [.parenthesized, .binary, .call, .creation, .identifier, .fieldAccess] := by
  cases h with
  | part _ hq =>
    cases hq with
    | inside hp | operand hp | receiver hp => simp [hp]
    | argument hp => rcases hp with hp | hp <;> simp [hp]
  | field _ hf => rcases hf with ⟨hp, -⟩ | ⟨hp, -⟩ <;> simp [hp]
  | initial _ hf | assigned _ hf | appended _ hf => simp [hf.kind]

/-- **Where one step of reading goes**: to a part of the expression, to the value of a field, or
back to what comes before the name of a local variable. -/
theorem Calls.inv (hroot : root.Ordered) (hkind : root.kind = .program) (hp : p ∈ root.places)
    (h : Calls root (p, d) (q, e)) : p.Regular ∧ d ≤ maxDepth ∧
      (p.HasPart q ∧ e = d ∨ (∃ f ∈ root.fields, f.child? .value = some q) ∧ e = d + 1 ∨
        ∃ m f name, p.NamesLocal m f name ∧ q.Regular ∧ q.stop ≤ p.start) := by
  have hregular : p.Regular := by
    refine Place.regular_of_kind_ne hroot hkind hp fun hprogram => ?_
    have hcalling := h.kind
    rw [hprogram] at hcalling
    simp at hcalling
  have hmethod : ∀ {m f : Place} {name : Text}, p.NamesLocal m f name → m.Regular := by
    intro m f name hf
    have hm := (mem_places_of_callable? hp hf.callable).1
    refine Place.regular_of_kind_ne hroot hkind hm fun hprogram => ?_
    have hcallable := List.find?_some hf.callable
    rw [hprogram] at hcallable
    cases hcallable
  refine ⟨hregular, ?_⟩
  cases h with
  | part hd hq => exact ⟨hd, Or.inl ⟨hq, rfl⟩⟩
  | field hd hf hq =>
    exact ⟨hd, Or.inr (Or.inl ⟨⟨_, NamesField.mem_fields hp hf, hq⟩, rfl⟩)⟩
  | @initial _ m f _ name _ hd hf hq =>
    obtain ⟨hbelow, hstop⟩ := NamesLocal.declarator hf
    obtain ⟨hf', -, -⟩ := (hmethod hf).below hbelow
    obtain ⟨hq, -, hle⟩ := hf'.child (Place.mem_children_of_child? hq).1
    exact ⟨hd, Or.inr (Or.inr ⟨m, f, name, hf, hq, by omega⟩)⟩
  | @assigned _ m f a _ name _ hd hf ha hq =>
    obtain ⟨hbelow, hstop⟩ := mem_assignmentsTo ha
    obtain ⟨ha', -, -⟩ := (hmethod hf).below hbelow
    obtain ⟨hq, -, hle⟩ := ha'.child (Place.mem_children_of_child? hq).1
    exact ⟨hd, Or.inr (Or.inr ⟨m, f, name, hf, hq, by omega⟩)⟩
  | @appended _ m f _ name _ hd hf hq =>
    obtain ⟨st, hst, hstop, hq⟩ := mem_appendsTo hq
    obtain ⟨hst', -, -⟩ := (hmethod hf).below hst
    obtain ⟨hq, -, hle⟩ := hst'.below hq
    exact ⟨hd, Or.inr (Or.inr ⟨m, f, name, hf, hq, by omega⟩)⟩

/-- Reading ends at the place with any number of names. -/
def Ends (root : Node) (p : Place) : Prop := ∀ d, Acc (fun x y => Calls root y x) (p, d)

theorem ends_of_isCallable (h : p.kind.isCallable = true) : Ends root p := by
  refine fun d => ⟨_, fun ⟨q, e⟩ hcall => ?_⟩
  have hkind := hcall.kind
  generalize p.kind = kind at h hkind
  revert h hkind
  cases kind <;> simp [Kind.isCallable]

theorem inField_of_value {f : Place} (hf : f ∈ root.fields) (hq : f.child? .value = some q)
    (hcallable : ¬ q.kind.isCallable = true) : q.InField root :=
  ⟨f, hf, ⟨q, hq, .refl⟩, Place.callable?_of_child (Place.mem_children_of_child? hq).1
    (by simpa using hcallable)⟩

/-- In the value of a field, each step goes to a part or adds to the number of names. -/
theorem ends_of_inField (hroot : root.Ordered) (hkind : root.kind = .program)
    (hapart : root.FieldsApart) (hp : p.InField root) : Ends root p := by
  have hmem : ∀ {p : Place}, p.InField root → p ∈ root.places := fun ⟨f, hf, hread, _⟩ =>
    mem_places_of_below (mem_places_of_fields hf) hread.mem_below
  intro d
  -- the names that may still follow one another go down, and the size of the expression in between
  induction hleft : maxDepth + 1 - d using Nat.strongRecOn generalizing p d with
  | ind left ih =>
    induction hsize : sizeOf p.node using Nat.strongRecOn generalizing p with
    | ind size ihpart =>
      refine ⟨_, fun ⟨q, e⟩ hcall => ?_⟩
      by_cases hcallable : q.kind.isCallable = true
      · exact ends_of_isCallable hcallable _
      obtain ⟨hregular, hd, ⟨hhas, rfl⟩ | ⟨⟨f, hf, hq⟩, rfl⟩ | ⟨m, f, name, hlocal, -⟩⟩ :=
        hcall.inv hroot hkind (hmem hp)
      · have hpart := hhas.partOf hregular
        obtain ⟨g, hg, ⟨value, hvalue, hparts⟩, hsame⟩ := hp
        have hq : q.InField root := ⟨g, hg, ⟨value, hvalue, hparts.tail hhas⟩,
          (hpart.callable (by simpa using hcallable)).trans hsame⟩
        exact ihpart _ (hsize ▸ hpart.size) hq rfl
      · exact ih _ (by omega) (inField_of_value hf hq hcallable) _ rfl
      · exact absurd hlocal (not_namesLocal_of_inField hapart hp)

/-- Elsewhere, each step goes to a part, back in the source, or into the value of a field. -/
theorem ends_of_mem_places (hroot : root.Ordered) (hkind : root.kind = .program)
    (hapart : root.FieldsApart) (hp : p ∈ root.places) : Ends root p := by
  intro d
  induction hstop : p.stop using Nat.strongRecOn generalizing p d with
  | ind stop ih =>
    induction hsize : sizeOf p.node using Nat.strongRecOn generalizing p with
    | ind size ihpart =>
      refine ⟨_, fun ⟨q, e⟩ hcall => ?_⟩
      have hq := (hcall.mem hp).1
      obtain ⟨hregular, -, ⟨hhas, rfl⟩ | ⟨⟨f, hf, hvalue⟩, rfl⟩ | ⟨m, f, name, -, -, hle⟩⟩ :=
        hcall.inv hroot hkind hp
      · have hpart := hhas.partOf hregular
        have hle := (hregular.below hpart.below).2.2
        rcases Nat.lt_or_eq_of_le hle with hlt | heq
        · exact ih _ (hstop ▸ hlt) hq _ rfl
        · exact ihpart _ (hsize ▸ hpart.size) hq (heq.trans hstop) rfl
      · by_cases hcallable : q.kind.isCallable = true
        · exact ends_of_isCallable hcallable _
        · exact ends_of_inField hroot hkind hapart (inField_of_value hf hvalue hcallable) _
      · have hspan := hregular.span
        exact ih _ (by omega) hq _ rfl

/-- An expression was read, or a text block of the tree is cut inside a character. -/
def Returned (root : Node) {α : Type} (x : Lowered α) : Prop :=
  (∃ a, x = .ok a) ∨ x = .error .cutsCharacter ∧ ∃ q ∈ root.places, q.CutsCharacter

theorem congruent_returned (root : Node) :
    Congruent fun {α : Type} (x _ : Lowered α) => Returned root x where
  ok a := Or.inl ⟨a, rfl⟩
  bind := by
    rintro α β x y f g (⟨a, rfl⟩ | ⟨rfl, hcut⟩) h
    · exact h a
    · exact Or.inr ⟨rfl, hcut⟩

theorem returned_of_acc {s : Source} {x : Place × Nat} (hx : x ∈ states s.root)
    (h : Acc (fun x y => Calls s.root y x) x) :
    Returned s.root (readWithin s.root s.readingBound x.1 x.2) := by
  induction h with
  | intro x _ ih =>
    have hcalls : ∀ q e, Calls s.root x (q, e) →
        Returned s.root (readWithin s.root s.readingBound q e) :=
      fun q e hcall => ih (q, e) hcall (hcall.mem_states hx)
    have hcut : x.1.CutsCharacter → Returned s.root (.error .cutsCharacter : Lowered Expr) :=
      fun hcut => Or.inr ⟨rfl, x.1, (mem_states.1 hx).1, hcut⟩
    rw [← s.settled_readingBound x hx]
    exact @Congruent.readPlace _ (congruent_returned s.root) _ (readWithin s.root 0) _ _ _ hcalls hcut

end Ends

/-- **Reading comes to an end** in every source whose fields stand apart from local variables: no
chain of steps is endless, and every place has an expression unless a text block is cut inside a
character. -/
theorem lower_returns {text : Text} {s : Source} (hs : Source.parse? text = some s)
    (hapart : s.root.FieldsApart) :
    (¬ ∃ x : Nat → Place × Nat, (x 0).1 ∈ s.places ∧ ∀ n, Calls s.root (x n) (x (n + 1))) ∧
      ∀ p ∈ s.places, Returned s.root (s.lower p) := by
  have hends : ∀ p ∈ s.places, Ends s.root p := fun p hp =>
    ends_of_mem_places (ordered_of_parse? hs) (kind_root_of_parse? hs) hapart hp
  constructor
  · rintro ⟨x, hx, hchain⟩
    exact not_acc_iff_exists_descending_chain.2 ⟨x, rfl, hchain⟩ (hends _ hx _)
  · intro p hp
    exact returned_of_acc (mem_states.2 ⟨hp, Nat.zero_le _⟩) (hends p hp 0)

/-- A builder that is given the field of a class in the same method. A local variable has the name
of the field, which is not read for its value. -/
def localFieldSource : Text :=
  ("class A \x7b void m(String p) \x7b String f = p; StringBuilder b = new StringBuilder(); " ++
    "class L \x7b static String f = \"x\"; \x7d b.append(L.f + p); run(b); \x7d \x7d").toList

theorem lower_returns_localField : ∃ s, Source.parse? localFieldSource = some s ∧
    s.root.FieldsApart ∧ s.root.fields ≠ [] ∧ ∀ p ∈ s.places, Returned s.root (s.lower p) := by
  have hcheck : (Source.parse? localFieldSource).any (fun s => !s.root.fields.isEmpty &&
      s.root.fields.all fun f => (f.child? .value).all fun value => value.below.all fun q =>
        f.callable?.all fun m => (m.localBefore? q.text q.start).isNone) = true := by
    decide +kernel
  obtain ⟨s, hs, hcheck⟩ := (Option.any_eq_true _ _).1 hcheck
  simp only [Bool.and_eq_true, Bool.not_eq_true', List.isEmpty_eq_false_iff, List.all_eq_true,
    Option.all_eq_true, Option.isNone_iff_eq_none] at hcheck
  have hapart : s.root.FieldsApart := fun f hf q ⟨value, hvalue, hparts⟩ m hm _ _ =>
    hcheck.2 f hf value hvalue q (Place.mem_below_of_parts hparts) m hm
  exact ⟨s, hs, hapart, hcheck.1, (lower_returns hs hapart).2⟩

/-- The same with a field that is made from the builder. -/
def circularFieldSource : Text :=
  ("class A \x7b void m() \x7b StringBuilder b = new StringBuilder(); b.append(L.f); " ++
    "class L \x7b static String f = b + \"x\"; \x7d \x7d \x7d").toList

theorem lower_endless_circularField : ∃ s p, Source.parse? circularFieldSource = some s ∧
    p ∈ s.places ∧ (∀ k, readWithin s.root k p 0 = .error .endless) ∧
    ∃ x : Nat → Place × Nat, x 0 = (p, 0) ∧ ∀ n, Calls s.root (x n) (x (n + 1)) := by
  have hcheck : (Source.parse? circularFieldSource).any (fun s =>
      s.places.any fun p => isEndless (s.lower p)) = true := by
    decide +kernel
  obtain ⟨s, hs, hcheck⟩ := (Option.any_eq_true _ _).1 hcheck
  obtain ⟨p, hp, hcheck⟩ := List.any_eq_true.1 hcheck
  have hend : s.lower p = .error .endless := isEndless_iff.1 hcheck
  have hchain : ¬ Acc (fun x y => Calls s.root y x) (p, 0) := by
    intro hacc
    rcases returned_of_acc (mem_states.2 ⟨hp, Nat.zero_le _⟩) hacc with ⟨e, he⟩ | ⟨hcut, -⟩
    · cases hend.symm.trans he
    · cases hend.symm.trans hcut
  exact ⟨s, p, hs, hp, (Source.lower_eq_endless_iff hp).1 hend,
    not_acc_iff_exists_descending_chain.1 hchain⟩

end SqlInjection.Java
