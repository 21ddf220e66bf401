import SqlInjection.Proofs.Java.Rules
import SqlInjection.Proofs.Java.Tokens

/-!
# Syntax trees stand in the order of the source

The tree of a source is in order: the nodes inside a node lie within its span, one behind the other,
none is empty, each has the parts that its kind asks for, and its text is what stands in the source
at its span (`inOrder_of_parse?`). The tokens of a source stand in order and away from its comments,
the rules of the language keep that order, and a comment is put where it belongs
(`InOrder.insertComment`).
-/

namespace SqlInjection.Java

open Parse

/-! ## Comments in their places -/

theorem InOrder.mono {p q : Node → Prop} {a b : Nat} {ns : List Node} (h : InOrder p a ns b)
    (hpq : ∀ n, p n → q n) : InOrder q a ns b := by
  induction h with
  | nil h => exact .nil h
  | cons hstart hspan hallowed hinside hrest ihinside ihrest =>
    exact .cons hstart hspan (hpq _ hallowed) ihinside ihrest

theorem InOrder.extend {allowed : Node → Prop} {a b c : Nat} {ns : List Node}
    (h : InOrder allowed a ns b) (hbc : b ≤ c) : InOrder allowed a ns c := by
  have := h.append (.nil hbc : InOrder allowed b [] c)
  rwa [List.append_nil] at this

theorem Clear.tail {gap : Span} {gaps : List Span} {s : Span} (h : Clear (gap :: gaps) s) :
    Clear gaps s :=
  fun c hc => h c (List.mem_cons_of_mem _ hc)

/-- A comment among nodes leaves the parts that the others play as they are. -/
theorem roles_insertComment {comment : Node} (hcomment : comment.isComment = true)
    (ns : List Node) :
    ((Java.insertComment comment ns).filter fun n => !n.isComment).map Node.role =
      (ns.filter fun n => !n.isComment).map Node.role := by
  induction ns with
  | nil => simp [Java.insertComment, hcomment]
  | cons n ns ih =>
    have hsame : (Node.withComment comment n).isComment = n.isComment ∧
        (Node.withComment comment n).role = n.role := by
      obtain ⟨kind, role, span, text, operator, children⟩ := n
      exact ⟨rfl, rfl⟩
    rw [Java.insertComment]
    split
    · simp [List.filter_cons, hsame.1, apply_ite, hsame.2]
    · split
      · simp [List.filter_cons, apply_ite, ih]
      · simp [List.filter_cons, hcomment]

/-- A node keeps its shape and its place when a comment is put inside it. -/
theorem Node.Faithful.withComment {source : Text} {comment n : Node}
    (hcomment : comment.isComment = true) (h : n.Faithful source) :
    (Node.withComment comment n).Faithful source := by
  obtain ⟨kind, role, span, text, operator, children⟩ := n
  refine ⟨⟨?_, h.shaped.arguments, h.shaped.comment⟩, h.stands⟩
  rw [Node.withComment, Node.parts, roles_insertComment hcomment]
  exact h.shaped.takes

/-- Nodes stay in order when a comment that no node starts or ends in is put among them. -/
theorem InOrder.insertComment {source : Text} {comment : Node} (hcomment : comment.Comment source)
    {gaps : List Span} (hclear : Clear gaps comment.span) {a b : Nat} {ns : List Node}
    (h : InOrder (fun n => Clear (comment.span :: gaps) n.span ∧ n.Faithful source) a ns b)
    (ha : a ≤ comment.span.start) (hb : comment.span.stop ≤ b) :
    InOrder (fun n => Clear gaps n.span ∧ n.Faithful source) a (Java.insertComment comment ns)
      b := by
  have hspan := hcomment.span
  have hleaf : InOrder (fun n => Clear gaps n.span ∧ n.Faithful source) comment.span.start
      comment.children comment.span.stop := by
    rw [hcomment.children]
    exact .nil (Nat.le_of_lt hspan)
  have hallowed' : Clear gaps comment.span ∧ comment.Faithful source := ⟨hclear, hcomment.faithful⟩
  have hmono : ∀ {a b : Nat} {ns : List Node},
      InOrder (fun n => Clear (comment.span :: gaps) n.span ∧ n.Faithful source) a ns b →
        InOrder (fun n => Clear gaps n.span ∧ n.Faithful source) a ns b :=
    fun h => h.mono fun _ hn => ⟨hn.1.tail, hn.2⟩
  induction h with
  | nil h => exact .cons ha hspan hallowed' hleaf (.nil hb)
  | @cons a b n ns hstart hn hallowed hinside hrest ihinside ihrest =>
    have hgap := hallowed.1 comment.span List.mem_cons_self
    have htail : Clear gaps n.span ∧ n.Faithful source := ⟨hallowed.1.tail, hallowed.2⟩
    rw [Java.insertComment]
    split
    · next hin =>
      simp only [strictlyInside, Bool.and_eq_true, decide_eq_true_eq] at hin
      have hfaithful := hallowed.2.withComment hcomment.isComment
      obtain ⟨kind, role, span, text, operator, children⟩ := n
      exact .cons hstart hn ⟨hallowed.1.tail, hfaithful⟩
        (ihinside (Nat.le_of_lt hin.1) (Nat.le_of_lt hin.2)) (hmono hrest)
    · next hout =>
      simp only [strictlyInside, Bool.and_eq_true, decide_eq_true_eq] at hout
      split
      · next hbefore => exact .cons hstart hn htail (hmono hinside) (ihrest (by omega) hb)
      · exact .cons ha hspan hallowed' hleaf
          (.cons (by omega) hn htail (hmono hinside) (hmono hrest))

theorem inOrder_foldl_withComment {source : Text} {comments : List Node}
    (hcomments : ∀ c ∈ comments, c.Comment source)
    (horder : comments.Pairwise fun c d => c.span.stop ≤ d.span.start) {root : Node} {b : Nat}
    (h : InOrder (fun n => Clear (comments.map Node.span) n.span ∧ n.Faithful source) 0
      root.children b) :
    ∃ b, InOrder (Node.Faithful source) 0
      (comments.foldl (fun tree comment => Node.withComment comment tree) root).children b := by
  induction comments generalizing root b with
  | nil => exact ⟨b, h.mono fun _ hn => hn.2⟩
  | cons c comments ih =>
    have hclear : Clear (comments.map Node.span) c.span := by
      intro s hs
      obtain ⟨d, hd, rfl⟩ := List.mem_map.1 hs
      exact Or.inr (Or.inl ((List.pairwise_cons.1 horder).1 d hd))
    obtain ⟨kind, role, span, text, operator, children⟩ := root
    refine ih (fun d hd => hcomments d (List.mem_cons_of_mem _ hd)) (List.pairwise_cons.1 horder).2
      (InOrder.insertComment (hcomments c List.mem_cons_self) hclear
        (h.extend (Nat.le_max_left b c.span.stop)) (Nat.zero_le _) (Nat.le_max_right _ _))

/-! ## Sources -/

theorem walk_programItems {page : Page} {g : Grammar} (hg : g.Tidy page) {ts us : List Token}
    (hs : Stream page ts) {ns : List Node} (h : programItems g ts = some (ns, us)) :
    ∃ b, InOrder (Node.Fresh page) 0 ns b := by
  have hitem : Tidy page true (each single) ((fun n => [n]) <$> g.declaration <|>
      (fun n => [n]) <$> methodDeclaration g <|> g.statement) :=
    .orElse (.map hg.declaration fun _ => rfl)
      (.orElse (.map (tidy_methodDeclaration hg) fun _ => rfl) hg.statement)
  obtain ⟨items, vs, hitems, hrest⟩ := bind_eq_some h
  obtain ⟨t, ws, ht, hpure⟩ := bind_eq_some hrest
  obtain ⟨rfl, rfl⟩ := Prod.mk.inj (Option.some.inj hpure)
  have hwalk := Tidy.many hitem ts items vs hs hitems
  rw [each_each_single] at hwalk
  cases vs with
  | nil => cases ht
  | cons v vs =>
    generalize items.flatten = ns at hwalk
    cases hwalk with
    | stay => exact ⟨0, .nil (Nat.le_refl _)⟩
    | move hrest h => exact ⟨_, (h v rfl).weaken (Nat.zero_le _)⟩

/-- **The tree of a source is in order**, and each node stands in the source at its span. -/
theorem inOrder_of_parse? {text : Text} {s : Source} (h : Source.parse? text = some s) :
    ∃ b, InOrder (Node.Faithful text) 0 s.root.children b := by
  obtain ⟨root, hroot, rfl⟩ := Option.map_eq_some_iff.1 h
  obtain ⟨⟨children, us⟩, hitems, rfl⟩ := Option.map_eq_some_iff.1 hroot
  obtain ⟨start, hlexed⟩ := lexed_tokenize text
  obtain ⟨b, hb⟩ := walk_programItems (tidy_grammar _ _) hlexed.stream hitems
  exact inOrder_foldl_withComment (fun c hc => (hlexed.comments c hc).1) hlexed.order
    (hb.mono fun _ hn => ⟨hn.clear, hn.faithful⟩)

/-- The nodes of a tree stand in order and have the shapes of their kinds. -/
def Node.Ordered (root : Node) : Prop := ∃ b, InOrder Node.Shaped 0 root.children b

theorem ordered_of_parse? {text : Text} {s : Source} (h : Source.parse? text = some s) :
    s.root.Ordered := by
  obtain ⟨b, hb⟩ := inOrder_of_parse? h
  exact ⟨b, hb.mono fun _ hn => hn.shaped⟩

end SqlInjection.Java
