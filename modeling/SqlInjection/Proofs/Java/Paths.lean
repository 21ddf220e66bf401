import SqlInjection.Proofs.Java.Places

/-!
# Paths through a program

In which order the places of a program may run. `Runs` says which places are passed, and in which
order, when a node runs: branches are taken freely, anything may end early by a jump or an
exception, and loops go round as often as they like. These are all paths that the program has, and
more, since no condition is looked at. Bodies of lambda expressions and of classes do not run where
they stand, but at any time after that; `Life` adds such runs.

The order of a path is that of the text, loops apart: `Runs.pairwise` says it of a run, by one case
for each rule, and `Life.pairwise` with the bodies that run later.
-/

namespace SqlInjection.Java

/-! ## What a node runs -/

/-- How control goes through the parts of a node. -/
inductive Flow where
  /-- No part runs. -/
  | leaf
  /-- All parts run, one after the other. -/
  | inOrder
  /-- All parts run, and then control goes on somewhere else. -/
  | leaves
  /-- The first part runs, and then at most one of the others. -/
  | choice
  /-- Some of the parts run, one after the other, also behind one that ended early. -/
  | caught
  /-- Some parts in front run once, and the others again and again. -/
  | loop
  /-- No part runs now, but each may at any time later. -/
  | deferred
  deriving DecidableEq, Repr

namespace Node

/-- The word that a node starts with. -/
def leadingWord (n : Node) : Text := n.text.takeWhile isNamePart

/-- Whether a statement has a label: its first part is a name, and it starts with it. -/
def isLabeled (n : Node) : Bool :=
  n.parts.head?.any fun c => c.kind == .identifier && c.text == n.leadingWord

/-- The flow of a statement, by the word that it starts with. -/
def statementFlow (n : Node) : Flow :=
  let word := n.leadingWord
  if n.isLabeled || word == "try".toList then .caught
  else if ["if".toList, "assert".toList].contains word then .choice
  else if ["while".toList, "do".toList, "for".toList].contains word then .loop
  else if ["break".toList, "continue".toList, "return".toList, "throw".toList,
      "yield".toList].contains word then .leaves
  else .inOrder

/-- The flow of a node. -/
def flow (n : Node) : Flow :=
  match n.kind with
  | .identifier => .leaf
  | .statement => n.statementFlow
  | .enhancedFor => .loop
  | .switchBlock => .caught
  | .ternary => .choice
  | .binary =>
    if n.operator == some ['&', '&'] || n.operator == some ['|', '|'] then .choice else .inOrder
  | .lambda | .classBody | .interfaceBody | .enumBody | .annotationTypeBody => .deferred
  | _ => .inOrder

end Node

namespace Place

/-- Whether a part in front of a loop runs only once: all before the body of a loop over elements,
and the variables that a loop declares. -/
def runsOnce (p part : Place) : Bool :=
  part.node.role != some .body && (p.kind == .enhancedFor || part.kind == .localVariables)

/-- The parts of a loop that run once. -/
def once (p : Place) : List Place := p.parts.takeWhile p.runsOnce

/-- The parts of a loop that run again in each round. -/
def again (p : Place) : List Place := p.parts.dropWhile p.runsOnce

/-- The parts that a node may run, if it is no loop and catches nothing. -/
def Way (p : Place) (ps : List Place) : Prop :=
  match p.node.flow with
  | .leaf | .deferred => ps = []
  | .inOrder | .leaves => ps = p.parts
  | .choice => ∃ c others, p.parts = c :: others ∧ (ps = [c] ∨ ∃ q ∈ others, ps = [c, q])
  | .caught | .loop => False

end Place

/-! ## Runs -/

/-- How a run ends: behind all that was to run, or before that. -/
inductive Ending where
  | complete
  | early

/-- What is to run. -/
inductive Job where
  | node (p : Place)
  /-- Places one after the other, up to one that ends early. -/
  | all (ps : List Place)
  /-- Places one after the other, also behind one that ends early. -/
  | each (ps : List Place)

/-- The places that a job starts from. -/
def Job.places : Job → List Place
  | .node p => [p]
  | .all ps | .each ps => ps

/-- The places that are passed when a job runs, in order; each comes behind its parts. -/
inductive Runs : Job → List Place → Ending → Prop
  | early {p : Place} {ps trace : List Place} {e : Ending} (hway : p.Way ps)
      (h : Runs (.all ps) trace e) : Runs (.node p) trace .early
  | complete {p : Place} {ps trace : List Place} (hway : p.Way ps) (hflow : p.node.flow ≠ .leaves)
      (h : Runs (.all ps) trace .complete) : Runs (.node p) (trace ++ [p]) .complete
  | caught {p : Place} {ps trace : List Place} {e : Ending} (hflow : p.node.flow = .caught)
      (hps : ps.Sublist p.parts) (h : Runs (.each ps) trace e) (e' : Ending) :
      Runs (.node p) trace e'
  | unlooped {p : Place} {first : List Place} {e : Ending} (hflow : p.node.flow = .loop)
      (h : Runs (.all p.once) first e) : Runs (.node p) first .early
  | looped {p : Place} {ps first trace : List Place} {e : Ending} (hflow : p.node.flow = .loop)
      (hfirst : Runs (.all p.once) first .complete) (hps : ∀ q ∈ ps, q ∈ p.again)
      (h : Runs (.each ps) trace e) (e' : Ending) : Runs (.node p) (first ++ trace) e'
  | allNil : Runs (.all []) [] .complete
  | allCons {p : Place} {ps xs ys : List Place} {e : Ending} (h : Runs (.node p) xs .complete)
      (hrest : Runs (.all ps) ys e) : Runs (.all (p :: ps)) (xs ++ ys) e
  | allEarly {p : Place} {ps xs : List Place} (h : Runs (.node p) xs .early) :
      Runs (.all (p :: ps)) xs .early
  | eachNil : Runs (.each []) [] .complete
  | eachCons {p : Place} {ps xs ys : List Place} {e e' : Ending} (h : Runs (.node p) xs e)
      (hrest : Runs (.each ps) ys e') : Runs (.each (p :: ps)) (xs ++ ys) e'

namespace Place

variable {p q a x : Place} {ps : List Place}

theorem mem_children_of_parts (h : q ∈ p.parts) : q ∈ p.children := (List.mem_filter.1 h).1

theorem Way.sublist (h : p.Way ps) : ps.Sublist p.parts := by
  unfold Way at h
  split at h
  · exact h ▸ List.nil_sublist _
  · exact h ▸ List.nil_sublist _
  · exact h ▸ List.Sublist.refl _
  · exact h ▸ List.Sublist.refl _
  · obtain ⟨c, others, hparts, rfl | ⟨q, hq, rfl⟩⟩ := h
    · rw [hparts]
      exact (List.nil_sublist _).cons_cons c
    · rw [hparts]
      exact (List.singleton_sublist.2 hq).cons_cons c
  · exact h.elim
  · exact h.elim

theorem Way.eq_nil (h : p.Way ps) (hkind : p.kind = .identifier) : ps = [] := by
  have hflow : p.node.flow = .leaf := by
    unfold Node.flow
    rw [show p.node.kind = .identifier from hkind]
  unfold Way at h
  rwa [hflow] at h

theorem once_sublist (p : Place) : p.once.Sublist p.parts := List.takeWhile_sublist _

theorem once_append_again (p : Place) : p.once ++ p.again = p.parts :=
  List.takeWhile_append_dropWhile

/-- A loop in each round of which both places may run. -/
def Repeats (p a x : Place) : Prop :=
  p.node.flow = .loop ∧ (∃ q ∈ p.again, a ∈ q.below) ∧ ∃ q ∈ p.again, x ∈ q.below

/-- The ways in which one place may run before another: it stands before it or, if the other is no
name, in it, or a loop below one of the places runs both again. -/
def Leads (ps : List Place) (a x : Place) : Prop :=
  a.stop ≤ x.start ∨ (a ∈ x.below ∧ x.kind ≠ .identifier) ∨ ∃ q ∈ ps, ∃ l ∈ q.below, l.Repeats a x

theorem Leads.of_parts (h : Leads ps a x) (hps : ps.Sublist p.parts) : Leads [p] a x := by
  refine h.imp_right (Or.imp_right ?_)
  rintro ⟨q, hq, l, hl, hrepeats⟩
  have hchild := mem_children_of_parts (hps.subset hq)
  exact ⟨p, List.mem_singleton_self p, l, below_trans (mem_below_of_child hchild) hl, hrepeats⟩

theorem Leads.subset {qs : List Place} (h : Leads ps a x) (hsub : ps ⊆ qs) : Leads qs a x :=
  h.imp_right (Or.imp_right fun ⟨q, hq, hrest⟩ => ⟨q, hsub hq, hrest⟩)

/-- What lies in a place that may run before another may run before it as well, in the order of the
text. -/
theorem Leads.of_below (h : Leads [p] q x) (hq : q.Regular) (ha : a ∈ q.below) : Leads [p] a x := by
  obtain ⟨-, -, hstop⟩ := hq.below ha
  rcases h with hle | ⟨hbelow, hkind⟩ | ⟨r, hr, l, hl, hflow, ⟨s, hs, hqs⟩, hxs⟩
  · exact Or.inl (by omega)
  · exact Or.inr (Or.inl ⟨below_trans hbelow ha, hkind⟩)
  · exact Or.inr (Or.inr ⟨r, hr, l, hl, hflow, ⟨s, hs, below_trans hqs ha⟩, hxs⟩)

/-- Places that stand one behind the other. -/
structure Ranked (ps : List Place) : Prop where
  regular : ∀ q ∈ ps, q.Regular
  order : ps.Pairwise fun a b => a.stop ≤ b.start

theorem Regular.ranked (h : p.Regular) : Ranked [p] :=
  ⟨fun _ hq => List.mem_singleton.1 hq ▸ h, List.pairwise_singleton _ _⟩

theorem Ranked.of_sublist (h : p.Regular) (hps : ps.Sublist p.parts) : Ranked ps := by
  have hchildren : ps.Sublist p.children := hps.trans List.filter_sublist
  exact ⟨fun q hq => (h.child (hchildren.subset hq)).1, h.pairwise_children.sublist hchildren⟩

theorem Ranked.before (h : Ranked (p :: ps)) (ha : a ∈ p.below) (hq : q ∈ ps) (hx : x ∈ q.below) :
    a.stop ≤ x.start := by
  obtain ⟨-, -, hstop⟩ := (h.regular p List.mem_cons_self).below ha
  obtain ⟨-, hstart, -⟩ := (h.regular q (List.mem_cons_of_mem p hq)).below hx
  have hle := (List.pairwise_cons.1 h.order).1 q hq
  omega

/-- What a loop runs once stands before what it runs again. -/
theorem stop_le_of_again {r : Place} (h : p.Regular) (hq : q ∈ p.once) (ha : a ∈ q.below)
    (hr : r ∈ p.again) (hx : x ∈ r.below) : a.stop ≤ x.start := by
  have hranked := Ranked.of_sublist h (List.Sublist.refl p.parts)
  rw [← once_append_again] at hranked
  have hle := (List.pairwise_append.1 hranked.order).2.2 q hq r hr
  obtain ⟨-, -, hstop⟩ := (hranked.regular q (List.mem_append_left _ hq)).below ha
  obtain ⟨-, hstart, -⟩ := (hranked.regular r (List.mem_append_right _ hr)).below hx
  omega

theorem Ranked.tail (h : Ranked (p :: ps)) : Ranked ps :=
  ⟨fun q hq => h.regular q (List.mem_cons_of_mem p hq), (List.pairwise_cons.1 h.order).2⟩

end Place

open Place

namespace Runs

variable {j : Job} {trace : List Place} {e : Ending}

/-- What is passed lies in the places that the job starts from. -/
theorem exists_below (h : Runs j trace e) : ∀ z ∈ trace, ∃ q ∈ j.places, z ∈ q.below := by
  have hpart : ∀ {p z : Place} {ps : List Place}, (∀ q ∈ ps, q ∈ p.parts) →
      (∃ q ∈ ps, z ∈ q.below) → ∃ q ∈ [p], z ∈ q.below := by
    rintro p z ps hps ⟨q, hq, hz⟩
    exact ⟨p, List.mem_singleton_self p,
      below_trans (mem_below_of_child (mem_children_of_parts (hps q hq))) hz⟩
  induction h with
  | early hway _ ih => exact fun z hz => hpart (fun q hq => hway.sublist.subset hq) (ih z hz)
  | @complete p _ _ hway _ _ ih =>
    intro z hz
    rcases List.mem_append.1 hz with hz | hz
    · exact hpart (fun q hq => hway.sublist.subset hq) (ih z hz)
    · exact ⟨p, List.mem_singleton_self p, List.mem_singleton.1 hz ▸ self_mem_below p⟩
  | caught _ hps _ _ ih => exact fun z hz => hpart (fun q hq => hps.subset hq) (ih z hz)
  | unlooped _ _ ih =>
    exact fun z hz => hpart (fun q hq => (once_sublist _).subset hq) (ih z hz)
  | looped _ _ hps _ _ ihfirst ih =>
    intro z hz
    rcases List.mem_append.1 hz with hz | hz
    · exact hpart (fun q hq => (once_sublist _).subset hq) (ihfirst z hz)
    · exact hpart (fun q hq => (List.dropWhile_suffix _).subset (hps q hq)) (ih z hz)
  | allNil => exact fun z hz => absurd hz List.not_mem_nil
  | @allCons p _ _ _ _ _ _ ih ihrest | @eachCons p _ _ _ _ _ _ _ ih ihrest =>
    intro z hz
    rcases List.mem_append.1 hz with hz | hz
    · obtain ⟨q, hq, hzq⟩ := ih z hz
      exact ⟨p, List.mem_cons_self, List.mem_singleton.1 hq ▸ hzq⟩
    · obtain ⟨q, hq, hzq⟩ := ihrest z hz
      exact ⟨q, List.mem_cons_of_mem p hq, hzq⟩
  | @allEarly p _ _ _ ih =>
    intro z hz
    obtain ⟨q, hq, hzq⟩ := ih z hz
    exact ⟨p, List.mem_cons_self, List.mem_singleton.1 hq ▸ hzq⟩
  | eachNil => exact fun z hz => absurd hz List.not_mem_nil

theorem mem_below {p : Place} (h : Runs (.node p) trace e) : ∀ z ∈ trace, z ∈ p.below := by
  intro z hz
  obtain ⟨q, hq, hzq⟩ := h.exists_below z hz
  exact List.mem_singleton.1 hq ▸ hzq

/-- Behind the run of a place come those of the places behind it. -/
theorem pairwise_cons {p : Place} {ps xs ys : List Place} {e e' : Ending} {j : Job}
    (hranked : Ranked (p :: ps)) (hj : j.places = ps) (h : Runs (.node p) xs e)
    (hrest : Runs j ys e') (hxs : xs.Pairwise (Leads [p])) (hys : ys.Pairwise (Leads ps)) :
    (xs ++ ys).Pairwise (Leads (p :: ps)) := by
  refine List.pairwise_append.2 ⟨?_, ?_, ?_⟩
  · exact hxs.imp fun hleads => hleads.subset (by simp)
  · exact hys.imp fun hleads => hleads.subset (List.subset_cons_self p ps)
  · intro a ha x hx
    obtain ⟨q, hq, hxq⟩ := hrest.exists_below x hx
    exact Or.inl (hranked.before (h.mem_below a ha) (hj ▸ hq) hxq)

/-- A run through some parts of a node is in order as a run of the node. -/
theorem pairwise_of_parts {p : Place} {ps : List Place} (hps : ps.Sublist p.parts)
    (hp : Ranked [p]) (h : Ranked ps → trace.Pairwise (Leads ps)) :
    trace.Pairwise (Leads [p]) := by
  have hranked := Ranked.of_sublist (hp.regular p (List.mem_singleton_self p)) hps
  exact (h hranked).imp fun hleads => hleads.of_parts hps

/-- **The order of a run is that of the text, loops apart.** -/
theorem pairwise (h : Runs j trace e) (hj : Ranked j.places) :
    trace.Pairwise (Leads j.places) := by
  induction h with
  | early hway _ ih => exact pairwise_of_parts hway.sublist hj ih
  | @complete p ps trace hway _ h ih =>
    have hfirst := pairwise_of_parts hway.sublist hj ih
    refine List.pairwise_append.2 ⟨hfirst, List.pairwise_singleton _ _, fun a ha x hx => ?_⟩
    -- the node itself comes last, behind what lies in it
    obtain rfl := List.mem_singleton.1 hx
    obtain ⟨q, hq, haq⟩ := h.exists_below a ha
    have hchild := mem_children_of_parts (hway.sublist.subset hq)
    refine Or.inr (Or.inl ⟨below_trans (mem_below_of_child hchild) haq, fun hkind => ?_⟩)
    rw [hway.eq_nil hkind] at hq
    cases hq
  | caught _ hps _ _ ih => exact pairwise_of_parts hps hj ih
  | @unlooped p _ _ _ _ ih => exact pairwise_of_parts p.once_sublist hj ih
  | @looped p ps first trace _ hflow hfirst hps h _ ihfirst _ =>
    have hagain : ∀ z ∈ trace, ∃ q ∈ p.again, z ∈ q.below := by
      intro z hz
      obtain ⟨q, hq, hzq⟩ := h.exists_below z hz
      exact ⟨q, hps q hq, hzq⟩
    refine List.pairwise_append.2 ⟨pairwise_of_parts p.once_sublist hj ihfirst, ?_, ?_⟩
    · -- in the rounds, everything may come before everything
      refine List.pairwise_of_forall_mem_list fun a ha x hx => ?_
      exact Or.inr (Or.inr ⟨p, List.mem_singleton_self p, p, self_mem_below p, hflow, hagain a ha,
        hagain x hx⟩)
    · intro a ha x hx
      obtain ⟨q, hq, haq⟩ := hfirst.exists_below a ha
      obtain ⟨r, hr, hxr⟩ := hagain x hx
      exact Or.inl (stop_le_of_again (hj.regular p (List.mem_singleton_self p)) hq haq hr hxr)
  | allNil => exact .nil
  | allCons h hrest ih ihrest =>
    exact pairwise_cons hj rfl h hrest (ih (hj.regular _ List.mem_cons_self).ranked)
      (ihrest hj.tail)
  | @allEarly p ps _ _ ih =>
    exact (ih (hj.regular p List.mem_cons_self).ranked).imp fun hleads =>
      hleads.subset (List.cons_subset_cons p (List.nil_subset ps))
  | eachNil => exact .nil
  | eachCons h hrest ih ihrest =>
    exact pairwise_cons hj rfl h hrest (ih (hj.regular _ List.mem_cons_self).ranked)
      (ihrest hj.tail)

end Runs

/-! ## Bodies that run later -/

/-- What is passed in one run of a node and in the runs, at any time after they were passed
themselves, of the bodies of lambda expressions and classes in it. -/
inductive Life (home : Place) : List Place → Prop
  | run {trace : List Place} {e : Ending} (h : Runs (.node home) trace e) : Life home trace
  | call {xs ys zs : List Place} {q c : Place} {e : Ending} (h : Life home (xs ++ ys))
      (hq : q ∈ xs) (hflow : q.node.flow = .deferred) (hc : c ∈ q.children)
      (hrun : Runs (.node c) zs e) : Life home (xs ++ (zs ++ ys))

/-- A place that lies in the body of a lambda expression or a class in the other. -/
def Place.Deferred (home x : Place) : Prop :=
  ∃ q ∈ home.below, q.node.flow = .deferred ∧ ∃ c ∈ q.children, x ∈ c.below

/-- A path through one run of a node passes the first place and later the second. -/
def Place.MayPrecede (home a x : Place) : Prop := ∃ trace, Life home trace ∧ [a, x].Sublist trace

namespace Life

variable {home : Place} {trace : List Place}

theorem mem_below (h : Life home trace) : ∀ z ∈ trace, z ∈ home.below := by
  induction h with
  | run h => exact h.mem_below
  | @call xs ys zs q c _ _ hq _ hc hrun ih =>
    intro z hz
    rcases List.mem_append.1 hz with hz | hz
    · exact ih z (List.mem_append_left _ hz)
    · rcases List.mem_append.1 hz with hz | hz
      · exact below_trans (ih q (List.mem_append_left _ hq))
          (below_trans (mem_below_of_child hc) (hrun.mem_below z hz))
      · exact ih z (List.mem_append_right _ hz)

/-- The order is still that of the text, apart from loops and what stands in bodies that run
later. -/
theorem pairwise (h : Life home trace) (hhome : home.Regular) :
    trace.Pairwise fun a x => Leads [home] a x ∨ home.Deferred x := by
  induction h with
  | run h => exact (h.pairwise hhome.ranked).imp Or.inl
  | @call xs ys zs q c _ h hq hflow hc hrun ih =>
    obtain ⟨hxs, hys, hcross⟩ := List.pairwise_append.1 ih
    have hqhome : q ∈ home.below := h.mem_below q (List.mem_append_left _ hq)
    have hdeferred : ∀ z ∈ zs, home.Deferred z := fun z hz =>
      ⟨q, hqhome, hflow, c, hc, hrun.mem_below z hz⟩
    refine List.pairwise_append.2 ⟨hxs, List.pairwise_append.2 ⟨?_, hys, ?_⟩, ?_⟩
    · exact List.pairwise_of_forall_mem_list fun _ _ x hx => Or.inr (hdeferred x hx)
    · -- a body that runs later stands where it was passed
      intro a ha x hx
      have hbelow := below_trans (mem_below_of_child hc) (hrun.mem_below a ha)
      exact (hcross q hq x hx).imp_left fun hleads =>
        hleads.of_below (hhome.below hqhome).1 hbelow
    · intro a ha x hx
      rcases List.mem_append.1 hx with hx | hx
      · exact Or.inr (hdeferred x hx)
      · exact hcross a ha x hx

end Life

/-- What may run before a name ends before it, is in a loop with it, or the name stands in a body
that runs later. -/
theorem Place.MayPrecede.cases {home a x : Place} (h : home.MayPrecede a x) (hhome : home.Regular)
    (hx : x.kind = .identifier) :
    a.stop ≤ x.start ∨ (∃ l ∈ home.below, l.Repeats a x) ∨ home.Deferred x := by
  obtain ⟨trace, hlife, hsub⟩ := h
  rcases List.pairwise_iff_forall_sublist.1 (hlife.pairwise hhome) hsub with hleads | hdeferred
  · rcases hleads with hle | ⟨-, hkind⟩ | ⟨q, hq, hloop⟩
    · exact Or.inl hle
    · exact absurd hx hkind
    · exact Or.inr (Or.inl (List.mem_singleton.1 hq ▸ hloop))
  · exact Or.inr (Or.inr hdeferred)

/-! ## One path -/

mutual

/-- Decides whether two nodes are the same. -/
def Node.decEq (m n : Node) : Decidable (m = n) :=
  match m, n with
  | ⟨kind, role, span, text, operator, children⟩,
    ⟨kind', role', span', text', operator', children'⟩ =>
    if h : kind = kind' ∧ role = role' ∧ span = span' ∧ text = text' ∧ operator = operator' then
      match Nodes.decEq children children' with
      | isTrue hchildren => isTrue (by rw [hchildren, h.1, h.2.1, h.2.2.1, h.2.2.2.1, h.2.2.2.2])
      | isFalse hchildren => isFalse fun heq => hchildren (Node.mk.inj heq).2.2.2.2.2
    else isFalse fun heq => h (by cases heq; exact ⟨rfl, rfl, rfl, rfl, rfl⟩)
termination_by structural m

/-- Decides whether two lists of nodes are the same. -/
def Nodes.decEq (ms ns : List Node) : Decidable (ms = ns) :=
  match ms, ns with
  | [], [] => isTrue rfl
  | [], _ :: _ => isFalse nofun
  | _ :: _, [] => isFalse nofun
  | m :: ms, n :: ns =>
    match Node.decEq m n with
    | isTrue h =>
      match Nodes.decEq ms ns with
      | isTrue hrest => isTrue (by rw [h, hrest])
      | isFalse hrest => isFalse fun heq => hrest (List.cons.inj heq).2
    | isFalse h => isFalse fun heq => h (List.cons.inj heq).1
termination_by structural ms

end

instance : DecidableEq Node := Node.decEq

deriving instance DecidableEq for Place

/-- The path that takes the first branch of each choice and goes round each loop twice, if nothing
leaves or catches on it. -/
def Place.tour : Nat → Place → Option (List Place)
  | 0, _ => none
  | fuel + 1, p =>
    match p.node.flow with
    | .leaf | .deferred => some [p]
    | .inOrder => (p.parts.mapM (tour fuel)).map fun traces => traces.flatten ++ [p]
    | .choice =>
      match p.parts with
      | c :: q :: _ => ([c, q].mapM (tour fuel)).map fun traces => traces.flatten ++ [p]
      | _ => none
    | .loop => do
      let first ← p.once.mapM (tour fuel)
      let round ← p.again.mapM (tour fuel)
      pure (first.flatten ++ (round ++ round).flatten)
    | .leaves | .caught => none

theorem Runs.of_mapM {f : Place → Option (List Place)}
    (hf : ∀ p trace, f p = some trace → Runs (.node p) trace .complete) {ps : List Place}
    {traces : List (List Place)} (h : ps.mapM f = some traces) :
    Runs (.all ps) traces.flatten .complete ∧ Runs (.each ps) traces.flatten .complete := by
  induction ps generalizing traces with
  | nil =>
    obtain rfl := Option.some.inj h
    exact ⟨.allNil, .eachNil⟩
  | cons p ps ih =>
    rw [List.mapM_cons] at h
    obtain ⟨trace, htrace, h⟩ := Option.bind_eq_some_iff.1 h
    obtain ⟨rest, hrest, h⟩ := Option.bind_eq_some_iff.1 h
    obtain rfl := Option.some.inj h
    obtain ⟨hall, heach⟩ := ih hrest
    exact ⟨.allCons (hf p trace htrace) hall, .eachCons (hf p trace htrace) heach⟩

theorem Runs.of_tour {fuel : Nat} {p : Place} {trace : List Place} (h : p.tour fuel = some trace) :
    Runs (.node p) trace .complete := by
  induction fuel generalizing p trace with
  | zero => cases h
  | succ fuel ih =>
    have hpart : ∀ q trace, q.tour fuel = some trace → Runs (.node q) trace .complete :=
      fun _ _ => ih
    rw [Place.tour] at h
    split at h
    · next hflow =>
      obtain rfl := Option.some.inj h
      exact Runs.complete (by rw [Place.Way, hflow]) (by simp [hflow]) .allNil
    · next hflow =>
      obtain rfl := Option.some.inj h
      exact Runs.complete (by rw [Place.Way, hflow]) (by simp [hflow]) .allNil
    · next hflow =>
      obtain ⟨traces, htraces, rfl⟩ := Option.map_eq_some_iff.1 h
      exact Runs.complete (by rw [Place.Way, hflow]) (by simp [hflow])
        (Runs.of_mapM hpart htraces).1
    · next hflow =>
      split at h
      · next c q others hparts =>
        obtain ⟨traces, htraces, rfl⟩ := Option.map_eq_some_iff.1 h
        have hway : p.Way [c, q] := by
          rw [Place.Way, hflow]
          exact ⟨c, q :: others, hparts, Or.inr ⟨q, List.mem_cons_self, rfl⟩⟩
        exact Runs.complete hway (by simp [hflow]) (Runs.of_mapM hpart htraces).1
      · cases h
    · next hflow =>
      obtain ⟨first, hfirst, h⟩ := Option.bind_eq_some_iff.1 h
      obtain ⟨round, hround, h⟩ := Option.bind_eq_some_iff.1 h
      obtain rfl := Option.some.inj h
      have hrounds : (p.again ++ p.again).mapM (tour fuel) = some (round ++ round) := by
        simp [List.mapM_append, hround]
      refine Runs.looped hflow (Runs.of_mapM hpart hfirst).1 (fun q hq => ?_)
        (Runs.of_mapM hpart hrounds).2 .complete
      exact (List.mem_append.1 hq).elim id id
    · cases h
    · cases h

end SqlInjection.Java
