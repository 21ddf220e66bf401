import Mathlib.Data.List.Find
import Mathlib.Data.List.Nodup
import SqlInjection.Detector.Concatenation
import SqlInjection.Proofs.Java.StraightLine

/-!
# No concatenation escapes inspection

Which concatenations are inspected is decided by climbing the tree: those that are no operand of a
larger one, parentheses aside. What an inspection sees is decided by reading downwards. Here the two
are shown to fit. `Place.Covers` goes down through concatenations and parentheses, and
`Place.operands` lists where it ends, in order and comments aside.

`concatenations_cover` says that every concatenation is covered by exactly one that is inspected,
the outermost of those that cover it; that the operands of the one are, in order, among those of the
other; and that the fragments of the inspected one are those of its operands, one after the other.

The last part has a gap, and the theorem says where: parentheses that open with a comment are read
as that comment, and what they hold is lost (`concatenations_cover_comment`).

All this is said of the concatenations that are nodes of the tree. A name in parentheses is taken
for a type, so `(a) + b` stands there as a cast of `+ b`; it is none of these nodes and is not
inspected.
-/

namespace SqlInjection

namespace Java

/-! ## Climbing -/

namespace Place

variable {root : Node} {a b c p q r : Place}

/-- Whether a place hands on what is inside it: a concatenation, or parentheses. -/
def joins (p : Place) : Bool := p.isPlus || p.kind == .parenthesized

/-- One can go down from `q` to `p` through concatenations and parentheses. -/
def Covers (q p : Place) : Prop :=
  Relation.ReflTransGen (fun a b => a.joins = true ∧ b ∈ a.children) q p

theorem Covers.below (h : q.Covers p) : p ∈ q.below := by
  induction h with
  | refl => exact self_mem_below q
  | tail _ hab ih => exact below_trans ih (mem_below_of_child hab.2)

theorem kind_of_isPlus (h : p.isPlus = true) :
    p.kind = .binary ∧ p.node.operator = some Expr.plus := by
  simpa [isPlus] using h

theorem isComment_of_joins (h : p.joins = true) : p.node.isComment = false := by
  have hkind : p.node.kind = .binary ∨ p.node.kind = .parenthesized := by
    simp only [joins, Bool.or_eq_true, beq_iff_eq] at h
    exact h.imp (fun hplus => (kind_of_isPlus hplus).1) id
  rcases hkind with hkind | hkind <;> simp [Node.isComment, hkind]

theorem joins_of_isPlus (h : p.isPlus = true) : p.joins = true := by simp [joins, h]

theorem isNestedOperand_of_child (h : c ∈ p.children) :
    c.isNestedOperand = if p.kind = .parenthesized then p.isNestedOperand else p.isPlus := by
  have henclosing : c.enclosing = p :: p.enclosing :=
    List.tail_eq_of_cons_eq (selfAndEnclosing_of_child h)
  rw [isNestedOperand, henclosing, List.dropWhile_cons]
  by_cases hkind : p.kind = .parenthesized
  · simp [hkind, isNestedOperand]
  · simp [hkind]

/-- What is inside a concatenation, down through others and parentheses, is an operand of one. -/
theorem isNestedOperand_of_covers (hq : q.isPlus = true) (h : q.Covers p) (hne : p ≠ q) :
    p.isNestedOperand = true := by
  induction h with
  | refl => exact absurd rfl hne
  | @tail a b hqa hab ih =>
    obtain ⟨hjoins, hchild⟩ := hab
    rw [isNestedOperand_of_child hchild]
    by_cases hkind : a.kind = .parenthesized
    · have ha : a ≠ q := by
        rintro rfl
        cases (kind_of_isPlus hq).1.symm.trans hkind
      rw [if_pos hkind, ih ha]
    · simpa [hkind, joins] using hjoins

/-- Every concatenation, and every operand of one, is covered by a concatenation that is no
operand. -/
theorem exists_covers (hp : p ∈ root.places) (h : p.isPlus = true ∨ p.isNestedOperand = true) :
    ∃ q ∈ root.places, q.isPlus = true ∧ q.isNestedOperand = false ∧ q.Covers p := by
  rw [places_eq, mem_below_iff] at hp
  induction hp with
  | refl =>
    have hplus := h.resolve_right Bool.false_ne_true
    exact ⟨_, places_eq root ▸ self_mem_below _, hplus, rfl, .refl⟩
  | @tail a b hab hb ih =>
    cases hnested : b.isNestedOperand with
    | false =>
      have hb' : b ∈ root.places := mem_below_iff.2 (hab.tail hb)
      exact ⟨b, hb', h.resolve_right (by simp [hnested]), hnested, .refl⟩
    | true =>
      -- The place around is a concatenation, or parentheses that are an operand themselves.
      rw [isNestedOperand_of_child hb] at hnested
      have ha : (a.isPlus = true ∨ a.isNestedOperand = true) ∧ a.joins = true := by
        by_cases hkind : a.kind = .parenthesized
        · exact ⟨Or.inr (by simpa [hkind] using hnested), by simp [joins, hkind]⟩
        · have hplus : a.isPlus = true := by simpa [hkind] using hnested
          exact ⟨Or.inl hplus, joins_of_isPlus hplus⟩
      obtain ⟨q, hq, hplus, houter, hcovers⟩ := ih ha.1
      exact ⟨q, hq, hplus, houter, hcovers.tail ⟨ha.2, hb⟩⟩

/-- Of two places that cover a third, one covers the other. -/
theorem Covers.total (hq : q.Covers p) (hr : r.Covers p) : q.Covers r ∨ r.Covers q := by
  have hunique : Relator.RightUnique
      (Function.swap fun a b : Place => a.joins = true ∧ b ∈ a.children) := by
    rintro c a b ⟨-, ha⟩ ⟨-, hb⟩
    exact Option.some.inj ((parent?_of_child ha).symm.trans (parent?_of_child hb))
  rcases Relation.ReflTransGen.total_of_right_unique hunique (Relation.reflTransGen_swap.2 hq)
    (Relation.reflTransGen_swap.2 hr) with h | h
  · exact Or.inr (Relation.reflTransGen_swap.1 h)
  · exact Or.inl (Relation.reflTransGen_swap.1 h)

/-- A concatenation that is no operand is the outermost of those that cover a place. -/
theorem Covers.outermost (hq : q.Covers p) (houter : q.isNestedOperand = false) (hr : r.Covers p)
    (hplus : r.isPlus = true) : q.Covers r := by
  rcases hq.total hr with h | h
  · exact h
  · by_cases hne : q = r
    · exact hne ▸ .refl
    · cases houter.symm.trans (isNestedOperand_of_covers hplus h hne)

end Place

/-! ## Places without repetition -/

namespace Place.Regular

variable {p q : Place}

theorem nodup_flatMap_below {cs : List Place} (hregular : ∀ c ∈ cs, c.Regular)
    (hapart : cs.Pairwise fun a b => a.stop ≤ b.start) (hnodup : ∀ c ∈ cs, c.below.Nodup) :
    (cs.flatMap Place.below).Nodup := by
  refine List.nodup_flatMap.2 ⟨hnodup, hapart.imp_of_mem fun {c d} hc hd hle => ?_⟩
  intro p hpc hpd
  obtain ⟨hspan, -, hstop⟩ := (hregular c hc).below hpc
  obtain ⟨-, hstart, -⟩ := (hregular d hd).below hpd
  have hlt := hspan.span
  omega

theorem sizeOf_le_of_mem_below (h : q ∈ p.below) : sizeOf q.node ≤ sizeOf p.node := by
  rw [mem_below_iff] at h
  induction h with
  | refl => exact Nat.le_refl _
  | tail _ hc ih => exact Nat.le_trans (Nat.le_of_lt (sizeOf_lt_of_mem_children hc)) ih

theorem nodup_below_of_children (h : (p.children.flatMap Place.below).Nodup) : p.below.Nodup := by
  rw [below_eq, List.nodup_cons]
  refine ⟨fun hmem => ?_, h⟩
  obtain ⟨c, hc, hp⟩ := List.mem_flatMap.1 hmem
  exact absurd (sizeOf_le_of_mem_below hp) (Nat.not_le_of_lt (sizeOf_lt_of_mem_children hc))

theorem nodup_below (h : p.Regular) : p.below.Nodup := by
  induction p using induct with
  | h p ih =>
    exact nodup_below_of_children (nodup_flatMap_below (fun c hc => (h.child hc).1)
      h.pairwise_children fun c hc => ih c hc (h.child hc).1)

end Place.Regular

/-- No place of a tree that stands in order is listed twice. -/
theorem Node.Ordered.nodup_places {root : Node} (h : root.Ordered) : root.places.Nodup := by
  obtain ⟨b, hb⟩ := h
  have hregular : ∀ c ∈ Place.children ⟨root, []⟩, c.Regular := fun c hc =>
    (Place.Regular.of_inOrder (p := ⟨root, []⟩) hb hc).1
  exact Place.Regular.nodup_below_of_children (Place.Regular.nodup_flatMap_below hregular
    (List.pairwise_map.2 hb.pairwise) fun c hc => (hregular c hc).nodup_below)

/-! ## Operands -/

mutual

/-- The operands of a node, in order: where one gets to through concatenations and parentheses. -/
def Node.operandsIn (around : List Node) : Node → List Place
  | ⟨kind, role, span, text, operator, children⟩ =>
    let self : Node := ⟨kind, role, span, text, operator, children⟩
    if Place.joins ⟨self, around⟩ then operandsInAll (self :: around) children else [⟨self, around⟩]

/-- The operands of several nodes, comments aside. -/
def operandsInAll (around : List Node) : List Node → List Place
  | [] => []
  | n :: ns =>
    if n.isComment then operandsInAll around ns else n.operandsIn around ++ operandsInAll around ns

end

namespace Place

variable {p q r : Place}

/-- The operands of a place. -/
def operands (p : Place) : List Place := p.node.operandsIn p.around

theorem operandsInAll_eq (around ns : List Node) :
    operandsInAll around ns = (ns.filter fun n => !n.isComment).flatMap (·.operandsIn around) := by
  induction ns with
  | nil => rfl
  | cons n ns ih => cases h : n.isComment <;> simp [operandsInAll, h, ih]

theorem operands_eq (p : Place) :
    p.operands = if p.joins then p.parts.flatMap operands else [p] := by
  obtain ⟨⟨kind, role, span, text, operator, children⟩, around⟩ := p
  rw [operands, Node.operandsIn, operandsInAll_eq, parts, Place.children, List.filter_map,
    List.flatMap_map]
  rfl

theorem mem_parts_iff : q ∈ p.parts ↔ q ∈ p.children ∧ q.node.isComment = false := by
  simp [parts]

theorem parts_eq (p : Place) : p.parts = p.node.parts.map fun n => ⟨n, p.node :: p.around⟩ := by
  rw [parts, Place.children, List.filter_map]
  rfl

/-- The operands of what is inside are, in order, among the operands. -/
theorem Covers.operands_infix (h : q.Covers p) (hp : p.node.isComment = false) :
    p.operands <:+: q.operands := by
  induction h with
  | refl => exact List.infix_rfl
  | @tail a b hqa hab ih =>
    obtain ⟨hjoins, hchild⟩ := hab
    refine List.IsInfix.trans ?_ (ih (isComment_of_joins hjoins))
    rw [operands_eq a, if_pos hjoins]
    obtain ⟨front, back, hparts⟩ := List.append_of_mem (mem_parts_iff.2 ⟨hchild, hp⟩)
    exact ⟨front.flatMap operands, back.flatMap operands, by simp [hparts]⟩

/-- A part that a child plays is played by one that is no comment. -/
theorem Regular.child?_eq (h : p.Regular) (r : Role) :
    p.child? r = p.parts.find? (·.node.role == some r) := by
  have hparts : p.node.child? r = p.node.parts.find? (·.role == some r) := by
    rw [Node.parts, List.find?_filter, Node.child?]
    refine List.find?_congr fun c hc => ?_
    rw [Bool.eq_iff_iff]
    cases hcomment : c.isComment with
    | false => simp
    | true => simp [(h.inside.forall_mem c hc).comment hcomment]
  rw [child?, hparts, parts_eq, List.find?_map]
  rfl

/-- Inside a concatenation there are a left and a right side, comments aside. -/
theorem Regular.parts_of_isPlus (h : p.Regular) (hplus : p.isPlus = true) :
    ∃ l r, p.parts = [l, r] ∧ p.child? .left = some l ∧ p.child? .right = some r := by
  have hroles := h.shaped.takes.binary (kind_of_isPlus hplus).1
  obtain ⟨l, r, hparts⟩ : ∃ l r, p.node.parts = [l, r] := by
    have hlength := congrArg List.length hroles
    exact List.length_eq_two.1 (by simpa using hlength)
  rw [hparts] at hroles
  obtain ⟨hl, hr⟩ : l.role = some .left ∧ r.role = some .right := by simpa using hroles
  refine ⟨⟨l, p.node :: p.around⟩, ⟨r, p.node :: p.around⟩, by rw [parts_eq, hparts]; rfl, ?_, ?_⟩
  · rw [h.child?_eq, parts_eq, hparts]
    simp [hl]
  · rw [h.child?_eq, parts_eq, hparts]
    simp [hl, hr]

/-- Inside parentheses there is one thing, comments aside. -/
theorem Regular.parts_of_parenthesized (h : p.Regular) (hkind : p.kind = .parenthesized) :
    ∃ c, p.parts = [c] := by
  have hlength := h.shaped.takes.parenthesized hkind
  rw [List.length_map] at hlength
  obtain ⟨c, hparts⟩ := List.length_eq_one_iff.1 hlength
  exact ⟨_, by rw [parts_eq, hparts]; rfl⟩

/-- Whether a place is parentheses with a comment before all else. -/
def opensWithComment (p : Place) : Bool :=
  p.kind == .parenthesized && p.children.head?.any (·.node.isComment)

theorem head?_children_of_parts (hkind : p.kind = .parenthesized)
    (hopens : p.opensWithComment = false) {c : Place} (hparts : p.parts = [c]) :
    p.children.head? = some c := by
  rw [parts] at hparts
  cases hchildren : p.children with
  | nil =>
    rw [hchildren] at hparts
    cases hparts
  | cons b bs =>
    have hb : b.node.isComment = false := by simpa [opensWithComment, hkind, hchildren] using hopens
    rw [hchildren, List.filter_cons_of_pos (by simp [hb])] at hparts
    rw [List.head?_cons, (List.cons.inj hparts).1]

end Place

/-! ## Reading -/

section Reading

variable {s : Source} {p q c l r : Place} {d : Nat}

theorem readPlace_plus (read : Reader) (hd : d ≤ maxDepth) (hplus : p.isPlus = true)
    (hl : p.child? .left = some l) (hr : p.child? .right = some r) :
    readPlace s.root read p d = (do
      let left ← read l d
      let right ← read r d
      pure (.chain Expr.plus (leftOperands Expr.plus l left ++ [right]) p.written)) := by
  obtain ⟨hkind, hop⟩ := Place.kind_of_isPlus hplus
  rw [readPlace, if_neg (Nat.not_lt.2 hd)]
  simp only [hkind]
  rw [readChain_eq, hl, hr, hop]
  simp

theorem readPlace_parenthesized (read : Reader) (hd : d ≤ maxDepth)
    (hkind : p.kind = .parenthesized) (hc : p.children.head? = some c) :
    readPlace s.root read p d = read c d := by
  rw [readPlace, if_neg (Nat.not_lt.2 hd)]
  simp only [hkind, hc]

/-- The pieces of two sides that are read one after the other. -/
theorem map_pieces_plus (side : Place) (w : Written) (x y : Lowered Expr) :
    (do
      let left ← x
      let right ← y
      pure (Expr.chain Expr.plus (leftOperands Expr.plus side left ++ [right]) w)).map
        Expr.pieces = (do
      let fs ← x.map Expr.pieces
      let gs ← y.map Expr.pieces
      pure (fs ++ gs)) := by
  cases x with
  | error fault => rfl
  | ok left =>
    cases y with
    | error fault => rfl
    | ok right =>
      refine congrArg Except.ok ?_
      rw [Expr.pieces, if_pos rfl, piecesOfAll_append, piecesOfAll_leftOperands, piecesOfAll,
        piecesOfAll, List.append_nil]

theorem map_piecesOfAll_append (x y : Lowered (List Expr)) :
    (do
      let es ← x
      let es' ← y
      pure (es ++ es')).map piecesOfAll = (do
      let fs ← x.map piecesOfAll
      let gs ← y.map piecesOfAll
      pure (fs ++ gs)) := by
  cases x with
  | error fault => rfl
  | ok es =>
    cases y with
    | error fault => rfl
    | ok es' => exact congrArg Except.ok (piecesOfAll_append es es')

/-- **A chain is read operand by operand**, unless parentheses in it open with a comment. -/
theorem reader_operands (hs : s.root.Ordered) (hroot : s.root.kind = .program) (hq : q ∈ s.places)
    (hd : d ≤ maxDepth) (hplain : ∀ p, q.Covers p → p.opensWithComment = false) :
    (s.reader q d).map Expr.pieces = (q.operands.mapM (s.reader · d)).map piecesOfAll := by
  induction q using Place.induct with
  | h q ih =>
    rw [Place.operands_eq]
    by_cases hjoins : q.joins = true
    · have hstep : ∀ c, c ∈ q.parts →
          (s.reader c d).map Expr.pieces = (c.operands.mapM (s.reader · d)).map piecesOfAll := by
        intro c hc
        obtain ⟨hchild, -⟩ := Place.mem_parts_iff.1 hc
        exact ih c hchild (mem_places_of_child hq hchild)
          fun p hp => hplain p (Relation.ReflTransGen.head ⟨hjoins, hchild⟩ hp)
      have hregular : q.Regular := by
        refine Place.regular_of_kind_ne hs hroot hq fun hprogram => ?_
        simp [Place.joins, Place.isPlus, hprogram] at hjoins
      rw [if_pos hjoins, s.reader_eq hq (by omega)]
      by_cases hkind : q.kind = .parenthesized
      · obtain ⟨c, hparts⟩ := hregular.parts_of_parenthesized hkind
        have hhead := Place.head?_children_of_parts hkind (hplain q .refl) hparts
        rw [readPlace_parenthesized _ hd hkind hhead, hparts, List.flatMap_singleton]
        exact hstep c (by simp [hparts])
      · have hplus : q.isPlus = true := by simpa [Place.joins, hkind] using hjoins
        obtain ⟨l, r, hparts, hl, hr⟩ := hregular.parts_of_isPlus hplus
        have hleft := hstep l (by simp [hparts])
        have hright := hstep r (by simp [hparts])
        rw [readPlace_plus _ hd hplus hl hr, hparts, List.flatMap_cons, List.flatMap_singleton,
          List.mapM_append]
        rw [map_pieces_plus, hleft, hright]
        exact (map_piecesOfAll_append _ _).symm
    · rw [if_neg hjoins]
      cases h : s.reader q d <;> simp [h, Except.map, piecesOfAll]

/-- Parentheses that open with a comment are read as that comment. -/
theorem reader_of_opensWithComment (hp : p ∈ s.places) (hd : d ≤ maxDepth)
    (h : p.opensWithComment = true) :
    ∃ c ∈ p.children, c.node.isComment = true ∧ s.reader p d = .ok c.unknown := by
  simp only [Place.opensWithComment, Bool.and_eq_true, beq_iff_eq, Option.any_eq_true] at h
  obtain ⟨hkind, c, hhead, hcomment⟩ := h
  have hchild : c ∈ p.children := List.mem_of_head? hhead
  have hkinds : c.kind = .lineComment ∨ c.kind = .blockComment := by
    simpa [Node.isComment, Place.kind] using hcomment
  refine ⟨c, hchild, hcomment, ?_⟩
  rw [s.reader_eq hp (by omega), readPlace_parenthesized _ hd hkind hhead,
    s.reader_eq (mem_places_of_child hp hchild) (by omega), readPlace, if_neg (Nat.not_lt.2 hd)]
  rcases hkinds with hkinds | hkinds <;> (simp only [hkinds]; rfl)

end Reading

/-- **No concatenation in the tree escapes inspection.** None is inspected twice, and for each there
is exactly one that is inspected and covers it, the outermost one. Its operands are among those of
that one, in order; and whatever the number of names followed so far, up to the bound, that one is
read operand by operand. Only parentheses that open with a comment are read as the comment.

`(a) + b` stands in the tree as a cast and is no concatenation there. -/
theorem concatenations_cover {text : Text} {s : Source} (hs : Source.parse? text = some s) :
    s.concatenations.Nodup ∧
      (∀ p ∈ s.places, p.isPlus = true → ∃ q ∈ s.concatenations, q.Covers p ∧
        (∀ q' ∈ s.concatenations, q'.Covers p → q' = q) ∧
        (∀ r, r.isPlus = true → r.Covers p → q.Covers r) ∧
        p.operands <:+: q.operands ∧
        ((∀ r, q.Covers r → r.opensWithComment = false) → ∀ d ≤ maxDepth,
          (s.reader q d).map Expr.fragments = (q.operands.mapM (s.reader · d)).map fun es =>
            mergeConstants (es.flatMap Expr.fragments))) ∧
      ∀ p ∈ s.places, p.opensWithComment = true → ∀ d ≤ maxDepth,
        ∃ c ∈ p.children, c.node.isComment = true ∧ s.reader p d = .ok c.unknown := by
  have hordered := ordered_of_parse? hs
  have hinspected : ∀ {q : Place}, q ∈ s.concatenations ↔
      q ∈ s.places ∧ q.isPlus = true ∧ q.isNestedOperand = false := by
    simp [Source.concatenations]
  refine ⟨hordered.nodup_places.filter _, fun p hp hplus => ?_, fun p hp h d hd =>
    reader_of_opensWithComment hp hd h⟩
  obtain ⟨q, hq, hqplus, houter, hcovers⟩ := Place.exists_covers hp (Or.inl hplus)
  refine ⟨q, hinspected.2 ⟨hq, hqplus, houter⟩, hcovers, ?_,
    fun r hr hrp => hcovers.outermost houter hrp hr,
    hcovers.operands_infix (Place.isComment_of_joins (Place.joins_of_isPlus hplus)), ?_⟩
  · intro q' hq' hcovers'
    obtain ⟨-, hplus', houter'⟩ := hinspected.1 hq'
    by_contra hne
    have hinside := hcovers.outermost houter hcovers' hplus'
    cases houter'.symm.trans (Place.isNestedOperand_of_covers hqplus hinside hne)
  · intro hplain d hd
    have hpieces := reader_operands hordered (kind_root_of_parse? hs) hq hd hplain
    simp only [mergeConstants_flatMap_fragments]
    calc (s.reader q d).map Expr.fragments
        = ((s.reader q d).map Expr.pieces).map mergeConstants := by cases s.reader q d <;> rfl
      _ = ((q.operands.mapM (s.reader · d)).map piecesOfAll).map mergeConstants := by rw [hpieces]
      _ = _ := by cases q.operands.mapM (s.reader · d) <;> rfl

/-- A chain of chains in parentheses, with comments that do not open any. -/
def nestedChainSource : Text :=
  ("class A \x7b String m(String a, String b) \x7b return \"x\" + /*c*/ (a + (b /*d*/) + \"y\") " ++
    "/*e*/ + ((\"z\")); \x7d \x7d").toList

theorem concatenations_cover_nested : ∃ s p, Source.parse? nestedChainSource = some s ∧
    p ∈ s.places ∧ p.isPlus = true ∧ p.text = "a + (b /*d*/)".toList ∧
    ∃ q ∈ s.concatenations, q.Covers p ∧
      q.operands.map Place.text = ["\"x\"", "a", "b", "\"y\"", "\"z\""].map String.toList ∧
      (s.lower q).map Expr.fragments = (q.operands.mapM s.lower).map fun es =>
        mergeConstants (es.flatMap Expr.fragments) := by
  have hcheck : (Source.parse? nestedChainSource).any (fun s =>
      (s.places.all fun p => !p.opensWithComment) &&
        (s.concatenations.all fun q => q.operands.map Place.text ==
          ["\"x\"", "a", "b", "\"y\"", "\"z\""].map String.toList) &&
        s.places.any fun p => p.isPlus && p.text == "a + (b /*d*/)".toList) = true := by
    decide +kernel
  simp only [Option.any_eq_true, List.any_eq_true, List.all_eq_true, Bool.and_eq_true, beq_iff_eq,
    Bool.not_eq_true'] at hcheck
  obtain ⟨s, hs, ⟨hplain, hoperands⟩, p, hp, hplus, htext⟩ := hcheck
  obtain ⟨q, hq, hcovers, -, -, -, hread⟩ := (concatenations_cover hs).2.1 p hp hplus
  have hcovered : ∀ r, q.Covers r → r.opensWithComment = false := fun r hr =>
    hplain r (mem_places_of_below (List.mem_of_mem_filter hq) hr.below)
  exact ⟨s, p, hs, hp, hplus, htext, q, hq, hcovers, hoperands q hq,
    hread hcovered 0 (Nat.zero_le _)⟩

example : (Source.parse? ("class A \x7b String m(String a, String b) \x7b return (a) + b; " ++
    "\x7d \x7d").toList).map (·.concatenations.length) = some 0 := by
  decide +kernel

/-- A chain with parentheses that open with a comment. -/
def commentedChainSource : Text :=
  "class A \x7b String m(String a, String b) \x7b return \"x\" + (/*c*/ a + b); \x7d \x7d".toList

/-- Of three operands one is read, and the comment. -/
theorem concatenations_cover_comment : ∃ s q, Source.parse? commentedChainSource = some s ∧
    q ∈ s.concatenations ∧ q.operands.map Place.text = ["\"x\"", "a", "b"].map String.toList ∧
    (s.lower q).map Expr.fragments ≠ (q.operands.mapM s.lower).map fun es =>
      mergeConstants (es.flatMap Expr.fragments) := by
  -- The numbers of fragments differ already.
  have hcheck : (Source.parse? commentedChainSource).any (fun s => s.concatenations.any fun q =>
      q.operands.map Place.text == ["\"x\"", "a", "b"].map String.toList &&
        ((s.lower q).map Expr.fragments).toOption.map List.length !=
          ((q.operands.mapM s.lower).map fun es =>
            mergeConstants (es.flatMap Expr.fragments)).toOption.map List.length) = true := by
    decide +kernel
  simp only [Option.any_eq_true, List.any_eq_true, Bool.and_eq_true, beq_iff_eq, bne_iff_ne]
    at hcheck
  obtain ⟨s, hs, q, hq, hoperands, hne⟩ := hcheck
  exact ⟨s, q, hs, hq, hoperands, fun heq => hne (congrArg (·.toOption.map List.length) heq)⟩

end Java

end SqlInjection
