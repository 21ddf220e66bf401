import Mathlib.Data.List.Pairwise
import Mathlib.Logic.Relation
import SqlInjection.Proofs.Java.Order

/-!
# Places of a tree

What is below a place is what is reached from it by going to children (`Place.mem_below_iff`). From
this come the places that a name lookup can end at: children, surrounding nodes and all that is
below them are places of the same tree. In a tree that stands in order, all that is below a place
lies within its span, and the places come in the order of their starts
(`Place.Regular.sorted_below`).
-/

namespace SqlInjection.Java

/-! ## Going down -/

namespace Place

variable {p q r : Place}

theorem mem_children_iff : q ∈ p.children ↔ q.node ∈ p.node.children ∧ q.around = p.node :: p.around := by
  rw [children, List.mem_map]
  constructor
  · rintro ⟨n, hn, rfl⟩
    exact ⟨hn, rfl⟩
  · rintro ⟨hn, haround⟩
    refine ⟨q.node, hn, ?_⟩
    rw [← haround]

/-- The children that are no comments. -/
def parts (p : Place) : List Place := p.children.filter fun c => !c.node.isComment

theorem sizeOf_lt_of_mem_children (h : q ∈ p.children) : sizeOf q.node < sizeOf p.node := by
  have hmem := (mem_children_iff.1 h).1
  obtain ⟨⟨kind, role, span, text, operator, children⟩, around⟩ := p
  have hlt : sizeOf q.node < sizeOf children := List.sizeOf_lt_of_mem hmem
  simp only [Node.mk.sizeOf_spec]
  omega

theorem induct {P : Place → Prop} (h : ∀ p : Place, (∀ q ∈ p.children, P q) → P p) (p : Place) :
    P p := by
  induction hsize : sizeOf p.node using Nat.strongRecOn generalizing p with
  | ind k ih =>
    subst hsize
    exact h p fun q hq => ih _ (sizeOf_lt_of_mem_children hq) q rfl

theorem placesInAll_eq (around : List Node) (ns : List Node) :
    placesInAll around ns = ns.flatMap (·.placesIn around) := by
  induction ns with
  | nil => rfl
  | cons n ns ih => rw [placesInAll, List.flatMap_cons, ih]

/-- A place comes before all that is below its children. -/
theorem below_eq (p : Place) : p.below = p :: p.children.flatMap below := by
  obtain ⟨⟨kind, role, span, text, operator, children⟩, around⟩ := p
  rw [below, Node.placesIn, placesInAll_eq, Place.children, List.flatMap_map]
  rfl

theorem self_mem_below (p : Place) : p ∈ p.below := by
  rw [below_eq]
  exact List.mem_cons_self

theorem mem_below_iff : q ∈ p.below ↔ Relation.ReflTransGen (fun a b => b ∈ a.children) p q := by
  constructor
  · induction p using induct with
    | h p ih =>
      intro hq
      rw [below_eq] at hq
      rcases List.mem_cons.1 hq with rfl | hq
      · exact .refl
      · obtain ⟨c, hc, hq⟩ := List.mem_flatMap.1 hq
        exact .head hc (ih c hc hq)
  · intro h
    induction h using Relation.ReflTransGen.head_induction_on with
    | refl => exact self_mem_below q
    | head hc _ ih =>
      rw [below_eq]
      exact List.mem_cons_of_mem _ (List.mem_flatMap.2 ⟨_, hc, ih⟩)

theorem mem_below_of_child (h : q ∈ p.children) : q ∈ p.below :=
  mem_below_iff.2 (.single h)

theorem below_trans (hq : q ∈ p.below) (hr : r ∈ q.below) : r ∈ p.below :=
  mem_below_iff.2 ((mem_below_iff.1 hq).trans (mem_below_iff.1 hr))

/-- What is below a place is no larger. -/
theorem sizeOf_le_of_mem_below (h : q ∈ p.below) : sizeOf q.node ≤ sizeOf p.node := by
  rw [mem_below_iff] at h
  induction h with
  | refl => exact Nat.le_refl _
  | tail _ hc ih => exact Nat.le_trans (Nat.le_of_lt (sizeOf_lt_of_mem_children hc)) ih

theorem not_mem_below_of_child (h : q ∈ p.children) : p ∉ q.below := by
  intro hbelow
  have hle := sizeOf_le_of_mem_below hbelow
  have hlt := sizeOf_lt_of_mem_children h
  omega

theorem mem_children_of_child? {role : Role} (h : p.child? role = some q) :
    q ∈ p.children ∧ q.node.role = some role := by
  obtain ⟨n, hn, rfl⟩ := Option.map_eq_some_iff.1 h
  refine ⟨mem_children_iff.2 ⟨List.mem_of_find?_eq_some hn, rfl⟩, ?_⟩
  simpa using List.find?_some hn

/-! ## Going up -/

theorem selfAndEnclosing_of_child (h : q ∈ p.children) :
    q.selfAndEnclosing = q :: p.selfAndEnclosing := by
  obtain ⟨-, haround⟩ := mem_children_iff.1 h
  rw [selfAndEnclosing, enclosing, haround]
  rfl

theorem parent?_of_child (h : q ∈ p.children) : q.parent? = some p := by
  obtain ⟨-, haround⟩ := mem_children_iff.1 h
  rw [parent?, haround]

/-- The nearest method or constructor of a child that is none itself. -/
theorem callable?_of_child (h : q ∈ p.children) (hq : q.kind.isCallable = false) :
    q.callable? = p.callable? := by
  rw [callable?, selfAndEnclosing_of_child h, List.find?_cons_of_neg (by simp [hq]), callable?]

end Place

/-! ## The places of a source -/

section Places

variable {root : Node} {p q : Place}

theorem places_eq (root : Node) : root.places = Place.below ⟨root, []⟩ := rfl

theorem mem_places_of_below (hp : p ∈ root.places) (hq : q ∈ p.below) : q ∈ root.places := by
  rw [places_eq] at hp ⊢
  exact Place.below_trans hp hq

theorem mem_places_of_child (hp : p ∈ root.places) (hq : q ∈ p.children) : q ∈ root.places :=
  mem_places_of_below hp (Place.mem_below_of_child hq)

theorem mem_places_of_child? (hp : p ∈ root.places) {r : Role} (hq : p.child? r = some q) :
    q ∈ root.places :=
  mem_places_of_child hp (Place.mem_children_of_child? hq).1

/-- All that is around a place of a tree is a place of it, with the place below it. -/
theorem mem_places_of_selfAndEnclosing (hp : p ∈ root.places) (hq : q ∈ p.selfAndEnclosing) :
    q ∈ root.places ∧ p ∈ q.below := by
  rw [places_eq, Place.mem_below_iff] at hp
  induction hp with
  | refl =>
    obtain rfl : q = ⟨root, []⟩ := by simpa [Place.selfAndEnclosing, Place.enclosing, Place.outward] using hq
    exact ⟨Place.self_mem_below _, Place.self_mem_below _⟩
  | @tail a b hab hb ih =>
    rw [Place.selfAndEnclosing_of_child hb] at hq
    rcases List.mem_cons.1 hq with rfl | hq
    · exact ⟨Place.mem_below_iff.2 (hab.tail hb), Place.self_mem_below _⟩
    · obtain ⟨hmem, hbelow⟩ := ih hq
      exact ⟨hmem, Place.below_trans hbelow (Place.mem_below_of_child hb)⟩

theorem mem_places_of_callable? (hp : p ∈ root.places) {m : Place} (hm : p.callable? = some m) :
    m ∈ root.places ∧ p ∈ m.below :=
  mem_places_of_selfAndEnclosing hp (List.mem_of_find?_eq_some hm)

end Places

/-! ## Places of a tree that stands in order -/

/-- A place whose span is not empty and holds the nodes inside it, in order and in shape. -/
structure Place.Regular (p : Place) : Prop where
  span : p.start < p.stop
  inside : InOrder Node.Shaped p.start p.node.children p.stop
  shaped : p.node.Shaped

theorem InOrder.of_mem {allowed : Node → Prop} {a b : Nat} {ns : List Node} {n : Node}
    (h : InOrder allowed a ns b) (hn : n ∈ ns) :
    a ≤ n.span.start ∧ n.span.stop ≤ b ∧ n.span.start < n.span.stop ∧
      InOrder allowed n.span.start n.children n.span.stop ∧ allowed n := by
  induction h with
  | nil h => cases hn
  | @cons a b m ns hstart hspan hallowed hinside hrest ihinside ihrest =>
    rcases List.mem_cons.1 hn with rfl | hn
    · exact ⟨hstart, hrest.le, hspan, hinside, hallowed⟩
    · obtain ⟨hle, hrest⟩ := ihrest hn
      exact ⟨by omega, hrest⟩

theorem InOrder.pairwise {allowed : Node → Prop} {a b : Nat} {ns : List Node}
    (h : InOrder allowed a ns b) : ns.Pairwise fun m n => m.span.stop ≤ n.span.start := by
  induction h with
  | nil h => exact .nil
  | cons hstart hspan hallowed hinside hrest ihinside ihrest =>
    exact .cons (fun n hn => (hrest.of_mem hn).1) ihrest

namespace Place

variable {root : Node} {p q r : Place}

namespace Regular

theorem of_inOrder {a b : Nat} (h : InOrder Node.Shaped a p.node.children b)
    (hq : q ∈ p.children) : q.Regular ∧ a ≤ q.start ∧ q.stop ≤ b := by
  obtain ⟨hstart, hstop, hspan, hinside, hshaped⟩ := h.of_mem (mem_children_iff.1 hq).1
  exact ⟨⟨hspan, hinside, hshaped⟩, hstart, hstop⟩

theorem child (h : p.Regular) (hq : q ∈ p.children) :
    q.Regular ∧ p.start ≤ q.start ∧ q.stop ≤ p.stop :=
  of_inOrder h.inside hq

theorem below (h : p.Regular) (hq : q ∈ p.below) :
    q.Regular ∧ p.start ≤ q.start ∧ q.stop ≤ p.stop := by
  rw [mem_below_iff] at hq
  induction hq with
  | refl => exact ⟨h, Nat.le_refl _, Nat.le_refl _⟩
  | tail _ hc ih =>
    obtain ⟨hregular, hstart, hstop⟩ := ih
    obtain ⟨hregular', hstart', hstop'⟩ := hregular.child hc
    exact ⟨hregular', by omega, by omega⟩

theorem pairwise_children (h : p.Regular) : p.children.Pairwise fun a b => a.stop ≤ b.start :=
  List.pairwise_map.2 h.inside.pairwise

/-- The places below come in the order of their starts. -/
theorem sorted_below (h : p.Regular) : p.below.Pairwise fun a b => a.start ≤ b.start := by
  induction p using induct with
  | h p ih =>
    rw [below_eq, List.pairwise_cons]
    constructor
    · intro a ha
      obtain ⟨c, hc, ha⟩ := List.mem_flatMap.1 ha
      exact (h.below (below_trans (mem_below_of_child hc) ha)).2.1
    · refine List.pairwise_flatMap.2 ⟨fun c hc => ih c hc (h.child hc).1, ?_⟩
      refine h.pairwise_children.imp_of_mem fun {c d} hc hd hle a ha b hb => ?_
      obtain ⟨hspan, -, hstop⟩ := (h.child hc).1.below ha
      obtain ⟨-, hstart, -⟩ := (h.child hd).1.below hb
      have hlt := hspan.span
      omega

/-- Of the places below, those that come before an offset are those that start before it. -/
theorem takeWhile_below (h : p.Regular) (use : Nat) :
    p.below.takeWhile (·.start < use) = p.below.filter (·.start < use) := by
  have hsorted := h.sorted_below
  generalize p.below = places at hsorted
  induction places with
  | nil => rfl
  | cons q places ih =>
    obtain ⟨hq, hsorted⟩ := List.pairwise_cons.1 hsorted
    by_cases hlt : q.start < use
    · rw [List.takeWhile_cons_of_pos (by simpa using hlt),
        List.filter_cons_of_pos (by simpa using hlt), ih hsorted]
    · rw [List.takeWhile_cons_of_neg (by simpa using hlt)]
      symm
      refine List.filter_eq_nil_iff.2 fun r hr => ?_
      rcases List.mem_cons.1 hr with rfl | hr
      · simpa using hlt
      · have hle := hq r hr
        simp only [decide_eq_true_eq]
        omega

/-- No place stands in front of one that it lies in. -/
theorem pairwise_not_below (h : p.Regular) :
    p.below.Pairwise fun a b => a ∉ b.below := by
  induction p using induct with
  | h p ih =>
    rw [below_eq, List.pairwise_cons]
    constructor
    · intro a ha hbelow
      obtain ⟨c, hc, ha⟩ := List.mem_flatMap.1 ha
      exact not_mem_below_of_child hc (below_trans ha hbelow)
    · refine List.pairwise_flatMap.2 ⟨fun c hc => ih c hc (h.child hc).1, ?_⟩
      refine h.pairwise_children.imp_of_mem fun {c d} hc hd hle a ha b hb hbelow => ?_
      obtain ⟨hregular, -, hstop⟩ := (h.child hc).1.below ha
      obtain ⟨-, hstart, -⟩ := (h.child hd).1.below (below_trans hb hbelow)
      have hspan := hregular.span
      omega

/-- Two children are the same or one comes before the other. -/
theorem child_cases (h : p.Regular) (hq : q ∈ p.children) (hr : r ∈ p.children) :
    q = r ∨ q.stop ≤ r.start ∨ r.stop ≤ q.start := by
  by_cases heq : q = r
  · exact Or.inl heq
  · have hsymm : Std.Symm fun a b : Place => a.stop ≤ b.start ∨ b.stop ≤ a.start := ⟨fun _ _ => Or.symm⟩
    have hapart : p.children.Pairwise fun a b => a.stop ≤ b.start ∨ b.stop ≤ a.start :=
      h.pairwise_children.imp Or.inl
    exact Or.inr (hapart.forall hq hr heq)

/-- Of two places below one, one is below the other or one comes before the other. -/
theorem below_cases (h : p.Regular) (hq : q ∈ p.below) (hr : r ∈ p.below) :
    q ∈ r.below ∨ r ∈ q.below ∨ q.stop ≤ r.start ∨ r.stop ≤ q.start := by
  induction p using induct with
  | h p ih =>
    have hq' := hq
    have hr' := hr
    rw [below_eq, List.mem_cons, List.mem_flatMap] at hq' hr'
    obtain rfl | ⟨c, hc, hqc⟩ := hq'
    · exact Or.inr (Or.inl hr)
    obtain rfl | ⟨d, hd, hrd⟩ := hr'
    · exact Or.inl hq
    obtain ⟨-, hqstart, hqstop⟩ := (h.child hc).1.below hqc
    obtain ⟨-, hrstart, hrstop⟩ := (h.child hd).1.below hrd
    rcases h.child_cases hc hd with rfl | hle | hle
    · exact ih c hc (h.child hc).1 hqc hrd
    · exact Or.inr (Or.inr (Or.inl (by omega)))
    · exact Or.inr (Or.inr (Or.inr (by omega)))

end Regular

/-- All places of a tree that stands in order are regular, apart from the root. -/
theorem regular_of_mem_places (h : root.Ordered) (hp : p ∈ root.places) :
    p = ⟨root, []⟩ ∨ p.Regular := by
  obtain ⟨b, hb⟩ := h
  rw [places_eq, below_eq] at hp
  rcases List.mem_cons.1 hp with rfl | hp
  · exact Or.inl rfl
  · obtain ⟨c, hc, hp⟩ := List.mem_flatMap.1 hp
    exact Or.inr ((Regular.of_inOrder hb hc).1.below hp).1

theorem regular_of_kind_ne (h : root.Ordered) (hroot : root.kind = .program) (hp : p ∈ root.places)
    (hne : p.kind ≠ .program) : p.Regular := by
  refine (regular_of_mem_places h hp).resolve_left ?_
  rintro rfl
  exact hne hroot

/-- The method or constructor around a place is regular. -/
theorem regular_of_callable? (h : root.Ordered) (hroot : root.kind = .program) (hp : p ∈ root.places)
    (hq : p.callable? = some q) : q.kind.isCallable = true ∧ q.Regular := by
  have hcallable : q.kind.isCallable = true := by simpa using List.find?_some hq
  refine ⟨hcallable, regular_of_kind_ne h hroot (mem_places_of_callable? hp hq).1 fun hkind => ?_⟩
  rw [hkind] at hcallable
  cases hcallable

/-- What is allowed of the nodes that stand in order holds of all below them. -/
theorem allowed_of_mem_below {allowed : Node → Prop} {a b : Nat}
    (h : InOrder allowed a p.node.children b) (hq : q ∈ p.below) : q = p ∨ allowed q.node := by
  induction p using induct generalizing a b with
  | h p ih =>
    rw [below_eq] at hq
    rcases List.mem_cons.1 hq with rfl | hq
    · exact Or.inl rfl
    · obtain ⟨c, hc, hq⟩ := List.mem_flatMap.1 hq
      obtain ⟨-, -, -, hinside, hallowed⟩ := h.of_mem (mem_children_iff.1 hc).1
      rcases ih c hc hinside hq with rfl | hq
      · exact Or.inr hallowed
      · exact Or.inr hq

end Place

/-- **All places of a source but its root stand in it at their spans.** -/
theorem stands_of_child {text : Text} {s : Source} (h : Source.parse? text = some s) {p q : Place}
    (hp : p ∈ s.places) (hq : q ∈ p.children) : q.node.Stands text := by
  obtain ⟨b, hb⟩ := inOrder_of_parse? h
  have hmem : q ∈ Place.below ⟨s.root, []⟩ := mem_places_of_child hp hq
  rcases Place.allowed_of_mem_below (p := ⟨s.root, []⟩) hb hmem with rfl | hfaithful
  · cases (Place.mem_children_iff.1 hq).2
  · exact hfaithful.stands

theorem kind_root_of_parse? {text : Text} {s : Source} (h : Source.parse? text = some s) :
    s.root.kind = .program := by
  obtain ⟨root, hroot, rfl⟩ := Option.map_eq_some_iff.1 h
  obtain ⟨⟨children, us⟩, -, rfl⟩ := Option.map_eq_some_iff.1 hroot
  have hfold : ∀ (comments : List Node) (n : Node), n.kind = .program →
      (comments.foldl (fun tree comment => Node.withComment comment tree) n).kind = .program := by
    intro comments
    induction comments with
    | nil => exact fun _ h => h
    | cons c comments ih =>
      rintro ⟨kind, role, span, text, operator, children⟩ h
      exact ih _ h
  exact hfold _ _ rfl

end SqlInjection.Java
