import SqlInjection.Java.Source

/-!
# Readers that keep the order of the source

The nodes of a syntax tree stand in the order of the source: those inside a node lie within its
span, one behind the other, and none is empty (`InOrder`); and each has the parts that its kind asks
for (`Node.Shaped`). This module says what it takes for a reader of tokens to make such nodes.
`Walk` is the relation between the tokens before and after a reader and the nodes it made on the
way; `Tidy` says of a reader that it always walks, and `Builds` of the rest of one that it goes on
with a walk. There is one lemma for each way to combine readers, so that the proof for a rule of the
language follows the rule line by line.

Comments are put into the tree later. For that, no node may start or end inside one (`Clear`).
-/

namespace SqlInjection.Java

open Parse

/-! ## The shapes of nodes -/

/-- The children that are no comments. -/
def Node.parts (n : Node) : List Node := n.children.filter fun c => !c.isComment

/-- What the kind of a node asks of the parts that its children play, comments aside. -/
structure Kind.Takes (kind : Kind) (roles : List (Option Role)) : Prop where
  binary : kind = .binary → roles = [some .left, some .right]
  parenthesized : kind = .parenthesized → roles.length = 1

/-- A node has the parts that its kind asks for, and plays one that its kind may play. -/
structure Node.Shaped (n : Node) : Prop where
  takes : n.kind.Takes (n.parts.map Node.role)
  arguments : n.role = some .arguments → n.kind.isCallable = false
  comment : n.isComment = true → n.role = none

/-- Whether a node of the kind may hold anything and is no comment. -/
def Kind.isPlain : Kind → Bool
  | .binary | .parenthesized | .lineComment | .blockComment => false
  | _ => true

/-- A node of the kind, which is that of no comment, can be made of nodes that play these parts. -/
structure Kind.Closes (kind : Kind) (roles : List (Option Role)) : Prop where
  line : kind ≠ .lineComment
  block : kind ≠ .blockComment
  takes : kind.Takes roles

theorem Kind.Closes.plain {kind : Kind} {roles : List (Option Role)} (h : kind.isPlain = true) :
    kind.Closes roles where
  line hkind := by simp [hkind, Kind.isPlain] at h
  block hkind := by simp [hkind, Kind.isPlain] at h
  takes := ⟨fun hkind => by simp [hkind, Kind.isPlain] at h,
    fun hkind => by simp [hkind, Kind.isPlain] at h⟩

/-! ## Nodes in order -/

/-- Allowed nodes between two byte offsets, one behind the other, with all nodes inside them. -/
inductive InOrder (allowed : Node → Prop) : Nat → List Node → Nat → Prop
  | nil {a b : Nat} (h : a ≤ b) : InOrder allowed a [] b
  | cons {a b : Nat} {n : Node} {ns : List Node} (hstart : a ≤ n.span.start)
      (hspan : n.span.start < n.span.stop) (hallowed : allowed n)
      (hinside : InOrder allowed n.span.start n.children n.span.stop)
      (hrest : InOrder allowed n.span.stop ns b) : InOrder allowed a (n :: ns) b

namespace InOrder

variable {allowed : Node → Prop} {a a' b c : Nat} {n : Node} {ns ms : List Node}

theorem le (h : InOrder allowed a ns b) : a ≤ b := by
  induction h with
  | nil h => exact h
  | cons hstart hspan hallowed hinside hrest ihinside ihrest => omega

theorem weaken (h : InOrder allowed a ns b) (ha : a' ≤ a) : InOrder allowed a' ns b := by
  cases h with
  | nil h => exact .nil (Nat.le_trans ha h)
  | cons hstart hspan hallowed hinside hrest =>
    exact .cons (Nat.le_trans ha hstart) hspan hallowed hinside hrest

theorem append (h : InOrder allowed a ns b) (h' : InOrder allowed b ms c) :
    InOrder allowed a (ns ++ ms) c := by
  induction h with
  | nil h => exact h'.weaken h
  | cons hstart hspan hallowed hinside hrest ihinside ihrest =>
    exact .cons hstart hspan hallowed hinside (ihrest h')

/-- A node may be given any part in its parent that it may play there. -/
theorem playing {r : Role} (hr : allowed n → allowed (n.playing r))
    (h : InOrder allowed a (ms ++ n :: ns) b) : InOrder allowed a (ms ++ n.playing r :: ns) b := by
  induction ms generalizing a with
  | nil =>
    cases h with
    | cons hstart hspan hallowed hinside hrest =>
      exact .cons hstart hspan (hr hallowed) hinside hrest
  | cons m ms ih =>
    cases h with
    | cons hstart hspan hallowed hinside hrest =>
      exact .cons hstart hspan hallowed hinside (ih hrest)

theorem map_playing {r : Role} (hr : ∀ n, allowed n → allowed (n.playing r))
    (h : InOrder allowed a ns b) : InOrder allowed a (ns.map (·.playing r)) b := by
  induction h with
  | nil h => exact .nil h
  | cons hstart hspan hallowed hinside hrest ihinside ihrest =>
    exact .cons hstart hspan (hr _ hallowed) hinside ihrest

theorem forall_mem (h : InOrder allowed a ns b) : ∀ n ∈ ns, allowed n := by
  induction h with
  | nil h => simp
  | cons hstart hspan hallowed hinside hrest ihinside ihrest =>
    exact List.forall_mem_cons.2 ⟨hallowed, ihrest⟩

end InOrder

/-! ## Tokens in order -/

/-- The text of a source, and the byte ranges of the comments in it. -/
structure Page where
  text : Text
  gaps : List Span

/-- The text `t` is what is left of a source from a byte offset on. -/
def RestAt (source : Text) (start : Nat) (t : Text) : Prop :=
  ∃ before, source = before ++ t ∧ start = Text.byteSize before

theorem RestAt.drop {source t u : Text} {start : Nat} (h : RestAt source start (t ++ u)) :
    RestAt source (start + Text.byteSize t) u := by
  obtain ⟨before, rfl, rfl⟩ := h
  exact ⟨before ++ t, (List.append_assoc before t u).symm, (Text.byteSize_append before t).symm⟩

/-- The node stands in the source at its span. -/
def Node.Stands (source : Text) (n : Node) : Prop :=
  ∃ before after, source = before ++ (n.text ++ after) ∧
    n.span = ⟨Text.byteSize before, Text.byteSize before + Text.byteSize n.text⟩

theorem RestAt.stands {source t : Text} {start : Nat} (h : RestAt source start t) {n : Node}
    (hspan : n.span = ⟨start, start + Text.byteSize n.text⟩) (htext : n.text <+: t) :
    n.Stands source := by
  obtain ⟨before, rfl, rfl⟩ := h
  obtain ⟨after, rfl⟩ := htext
  exact ⟨before, after, rfl, hspan⟩

/-- The token stands in the source, which goes on with it. -/
structure Token.On (source : Text) (t : Token) : Prop where
  rest : RestAt source t.start t.source
  text : t.text <+: t.source

/-- No byte range of `gaps` starts before the span ends or ends before it starts, unless it lies
inside. -/
def Clear (gaps : List Span) (s : Span) : Prop :=
  ∀ c ∈ gaps, c.stop ≤ s.start ∨ s.stop ≤ c.start ∨ s.start < c.start ∧ c.stop < s.stop

/-- Tokens one behind the other, of which only the last may be empty and none meets a gap, where
they stand in the source. -/
def Stream (page : Page) : List Token → Prop
  | [] => True
  | t :: ts =>
    t.previousStop ≤ t.start ∧
      (∀ u ∈ ts.head?, t.start < t.stop ∧ u.previousStop = t.stop) ∧
      (∀ c ∈ page.gaps, c.stop ≤ t.start ∨ t.stop ≤ c.start) ∧ t.On page.text ∧ Stream page ts

namespace Stream

variable {page : Page} {t u : Token} {ts us : List Token}

theorem suffix (h : Stream page ts) (hs : us <:+ ts) : Stream page us := by
  induction ts with
  | nil =>
    obtain rfl := List.suffix_nil.1 hs
    exact h
  | cons t ts ih =>
    rcases List.suffix_cons_iff.1 hs with rfl | hs
    · exact h
    · exact ih h.2.2.2.2 hs

theorem on (h : Stream page (t :: ts)) : t.On page.text := h.2.2.2.1

theorem previousStop_le (h : Stream page ts) (hs : u :: us <:+ ts) : u.previousStop ≤ u.start :=
  (h.suffix hs).1

/-- What is read from a token on, up to a later one, is a span that meets no gap at its ends. -/
theorem span (h : Stream page (t :: ts)) (hs : u :: us <:+ ts) :
    t.start < u.previousStop ∧ Clear page.gaps ⟨t.start, u.previousStop⟩ := by
  induction ts generalizing t with
  | nil => cases List.suffix_nil.1 hs
  | cons v ts ih =>
    obtain ⟨-, hnext, hgap, -, hrest⟩ := h
    obtain ⟨hne, hstop⟩ := hnext v rfl
    rcases List.suffix_cons_iff.1 hs with heq | hs
    · obtain ⟨rfl, rfl⟩ := List.cons.inj heq
      refine ⟨hstop ▸ hne, fun c hc => ?_⟩
      rcases hgap c hc with h | h
      · exact Or.inl h
      · exact Or.inr (Or.inl (hstop ▸ h))
    · obtain ⟨hlt, hclear⟩ := ih hrest hs
      have hle := hrest.1
      refine ⟨by omega, fun c hc => ?_⟩
      have h₁ := hgap c hc
      have h₂ := hclear c hc
      simp only at h₂ ⊢
      omega

end Stream

/-! ## Walks -/

/-- A node with the shape of its kind that stands in the source at its span. -/
structure Node.Faithful (source : Text) (n : Node) : Prop where
  shaped : n.Shaped
  stands : n.Stands source

/-- A node as it is read from tokens: it is no comment and starts or ends inside none. -/
structure Node.Fresh (page : Page) (n : Node) : Prop where
  clear : Clear page.gaps n.span
  faithful : n.Faithful page.text
  notComment : n.isComment = false

namespace Node.Fresh

variable {page : Page}

theorem playing {n : Node} (h : n.Fresh page) {r : Role}
    (hr : r = .arguments → n.kind.isCallable = false) : (n.playing r).Fresh page where
  clear := h.clear
  faithful := ⟨⟨h.faithful.shaped.takes, fun harguments => hr (Option.some.inj harguments),
    fun hcomment => absurd (h.notComment.symm.trans hcomment) Bool.false_ne_true⟩,
    h.faithful.stands⟩
  notComment := h.notComment

/-- A node around fresh ones. -/
theorem of_closes {kind : Kind} {span : Span} {text : Text} {operator : Option Text}
    {ns : List Node} (hns : ∀ n ∈ ns, n.Fresh page) (hclear : Clear page.gaps span)
    (hkind : kind.Closes (ns.map Node.role))
    (hstands : Node.Stands page.text ⟨kind, none, span, text, operator, ns⟩) :
    Node.Fresh page ⟨kind, none, span, text, operator, ns⟩ := by
  have hcomment : Node.isComment ⟨kind, none, span, text, operator, ns⟩ = false := by
    simp [isComment, hkind.line, hkind.block]
  have hparts : Node.parts ⟨kind, none, span, text, operator, ns⟩ = ns :=
    List.filter_eq_self.2 fun n hn => by simp [(hns n hn).notComment]
  have hshaped : Node.Shaped ⟨kind, none, span, text, operator, ns⟩ :=
    ⟨by rw [hparts]; exact hkind.takes, nofun, fun _ => rfl⟩
  exact ⟨hclear, ⟨hshaped, hstands⟩, hcomment⟩

end Node.Fresh

/-- From the tokens `ts` on, up to the tokens `us`, the nodes `ns` were read. A walk that has moved
has taken a token. -/
inductive Walk (page : Page) : Bool → List Token → List Node → List Token → Prop
  | stay {ts : List Token} : Walk page false ts [] ts
  | move {moved : Bool} {t : Token} {ts us : List Token} {ns : List Node} (hrest : us <:+ ts)
      (h : ∀ u ∈ us.head?, InOrder (Node.Fresh page) t.start ns u.previousStop) :
      Walk page moved (t :: ts) ns us

namespace Walk

variable {page : Page} {m m' : Bool} {n : Node} {ns ms : List Node} {t : Token}
  {ts us vs : List Token}

theorem suffix (h : Walk page m ts ns us) : us <:+ ts := by
  cases h with
  | stay => exact List.suffix_refl _
  | move hrest h => exact hrest.trans (List.suffix_cons _ _)

theorem weaken (h : Walk page m ts ns us) : Walk page false ts ns us := by
  cases h with
  | stay => exact .stay
  | move hrest h => exact .move hrest h

theorem append (hs : Stream page ts) (h : Walk page m ts ns us) (h' : Walk page m' us ms vs) :
    Walk page (m || m') ts (ns ++ ms) vs := by
  cases h with
  | stay => simpa using h'
  | @move _ t ts _ _ hrest h =>
    cases h' with
    | stay => simpa using Walk.move hrest h
    | @move _ u us _ _ hrest' h' =>
      refine .move (hrest'.trans ((List.suffix_cons u us).trans hrest)) fun v hv => ?_
      have hu : u.previousStop ≤ u.start :=
        hs.previousStop_le (hrest.trans (List.suffix_cons t ts))
      exact (h u rfl).append ((h' v hv).weaken hu)

/-- Nodes may be left out. -/
theorem drop (h : Walk page m ts ns us) : Walk page m ts [] us := by
  cases h with
  | stay => exact .stay
  | move hrest h => exact .move hrest fun u hu => .nil (h u hu).le

theorem playing (ms : List Node) {r : Role} (hr : r = .arguments → n.kind.isCallable = false)
    (h : Walk page m ts (ms ++ n :: ns) us) : Walk page m ts (ms ++ n.playing r :: ns) us := by
  generalize hall : ms ++ n :: ns = all at h
  cases h with
  | stay => simp at hall
  | move hrest h => exact .move hrest fun u hu => (hall ▸ h u hu).playing fun hn => hn.playing hr

theorem map_playing {r : Role} (hr : r ≠ .arguments) (h : Walk page m ts ns us) :
    Walk page m ts (ns.map (·.playing r)) us := by
  cases h with
  | stay => exact .stay
  | move hrest h =>
    exact .move hrest fun u hu =>
      (h u hu).map_playing fun n hn => hn.playing fun heq => absurd heq hr

/-- A node around all that was read, if a token was. -/
theorem close (hs : Stream page (t :: ts)) (h : Walk page true (t :: ts) ns us) {u : Token}
    (hu : us.head? = some u) {kind : Kind} (hkind : kind.Closes (ns.map Node.role)) {text : Text}
    (htext : text <+: t.source) (hsize : Text.byteSize text = u.previousStop - t.start)
    (operator : Option Text) :
    Walk page true (t :: ts)
      [⟨kind, none, ⟨t.start, u.previousStop⟩, text, operator, ns⟩] us := by
  cases h with
  | move hrest h =>
    obtain ⟨us, rfl⟩ : ∃ vs, us = u :: vs := by
      cases us with
      | nil => cases hu
      | cons v us => exact ⟨us, by rw [Option.some.inj hu]⟩
    refine .move hrest fun v hv => ?_
    obtain rfl := Option.some.inj hv
    obtain ⟨hlt, hclear⟩ := hs.span hrest
    have hstop : t.start + Text.byteSize text = u.previousStop := by omega
    have hstands := hs.on.rest.stands
      (n := ⟨kind, none, ⟨t.start, u.previousStop⟩, text, operator, ns⟩) (by rw [← hstop]) htext
    exact .cons (Nat.le_refl _) hlt (.of_closes (h u rfl).forall_mem hclear hkind hstands) (h u rfl)
      (.nil (Nat.le_refl _))

end Walk

/-! ## Readers -/

/-- The reader walks over the nodes that `view` shows of its result; if `moved` holds, it takes a
token. -/
def Tidy {α : Type} (page : Page) (moved : Bool) (view : α → List Node) (p : Parse α) : Prop :=
  ∀ ts a us, Stream page ts → p ts = some (a, us) → Walk page moved ts (view a) us

/-- The reader goes on with a walk from `ts` over the nodes `ns` to one over the nodes that `view`
shows of its result. -/
def Builds {α : Type} (page : Page) (ts : List Token) (moved : Bool) (ns : List Node)
    (moved' : Bool) (view : α → List Node) (p : Parse α) : Prop :=
  ∀ us a vs, Walk page moved ts ns us → p us = some (a, vs) → Walk page moved' ts (view a) vs

/-- A node as the only one that was read. -/
abbrev single (n : Node) : List Node := [n]

/-- A node as the only one that was read, in a part of its parent. -/
abbrev singleAs (r : Role) (n : Node) : List Node := [n.playing r]

/-- Nothing is left of what was read. -/
abbrev nothing {α : Type} (_ : α) : List Node := []

/-- The nodes of what was read, if anything was. -/
abbrev ofOption {α : Type} (view : α → List Node) : Option α → List Node
  | some a => view a
  | none => []

/-- The nodes of all that was read. -/
abbrev each {α : Type} (view : α → List Node) (as : List α) : List Node := as.flatMap view

@[simp] theorem each_single (ns : List Node) : each single ns = ns := List.flatMap_singleton' ns

@[simp] theorem each_singleAs (r : Role) (ns : List Node) :
    each (singleAs r) ns = ns.map (·.playing r) :=
  List.map_eq_flatMap.symm

@[simp] theorem each_each_single (nss : List (List Node)) :
    each (each single) nss = nss.flatten := by
  rw [show each single = id from funext each_single]
  exact List.flatMap_id

@[simp] theorem each_ofOption_single (ns : List (Option Node)) :
    each (ofOption single) ns = ns.filterMap id := by
  induction ns with
  | nil => rfl
  | cons n ns ih => cases n <;> simpa [each, ofOption] using ih

section Combinators

variable {α β : Type} {page : Page} {m m' out : Bool} {ts : List Token} {ns : List Node}
  {view : α → List Node} {view' : β → List Node}

theorem bind_eq_some {p : Parse α} {f : α → Parse β} {us vs : List Token} {b : β}
    (h : (p >>= f) us = some (b, vs)) : ∃ a ws, p us = some (a, ws) ∧ f a ws = some (b, vs) := by
  obtain ⟨⟨a, ws⟩, ha, hb⟩ := Option.bind_eq_some_iff.1 h
  exact ⟨a, ws, ha, hb⟩

theorem orElse_eq_some {p q : Parse α} {us vs : List Token} {a : α}
    (h : (p <|> q) us = some (a, vs)) : p us = some (a, vs) ∨ q us = some (a, vs) := by
  have h' : (p us <|> q us) = some (a, vs) := h
  cases hp : p us with
  | none => rw [hp] at h'; exact Or.inr h'
  | some r => rw [hp] at h'; exact Or.inl h'

namespace Builds

theorem bind (hs : Stream page ts) {p : Parse α} {f : α → Parse β} (hp : Tidy page m' view p)
    (hf : ∀ a, Builds page ts (m || m') (ns ++ view a) out view' (f a)) :
    Builds page ts m ns out view' (p >>= f) := by
  intro us b vs hwalk h
  obtain ⟨a, ws, ha, hb⟩ := bind_eq_some h
  exact hf a ws b vs (hwalk.append hs (hp us a ws (hs.suffix hwalk.suffix) ha)) hb

theorem pure {a : α} (h : view a = ns) : Builds page ts m ns m view (Pure.pure a) := by
  intro us b vs hwalk h'
  obtain ⟨rfl, rfl⟩ := Prod.mk.inj (Option.some.inj h')
  rwa [h]

theorem failure : Builds page ts m ns out view failure := by
  intro us a vs hwalk h
  cases h

theorem orElse {p q : Parse α} (hp : Builds page ts m ns out view p)
    (hq : Builds page ts m ns out view q) : Builds page ts m ns out view (p <|> q) := by
  intro us a vs hwalk h
  rcases orElse_eq_some h with h | h
  · exact hp us a vs hwalk h
  · exact hq us a vs hwalk h

theorem iteOf {c : Prop} [Decidable c] {p q : Parse α} (hp : c → Builds page ts m ns out view p)
    (hq : Builds page ts m ns out view q) :
    Builds page ts m ns out view (if c then p else q) := by
  split
  · next h => exact hp h
  · exact hq

theorem ite {c : Prop} [Decidable c] {p q : Parse α} (hp : Builds page ts m ns out view p)
    (hq : Builds page ts m ns out view q) :
    Builds page ts m ns out view (if c then p else q) :=
  iteOf (fun _ => hp) hq

theorem closeOperator {start : Token} (hs : Stream page ts) (hstart : ts.head? = some start)
    {kind : Kind} {operator : Option Text} {children : List Node} (h : children = ns)
    (hkind : kind.Closes (children.map Node.role)) :
    Builds page ts true ns true single (closeOperator start kind operator children) := by
  intro us n vs hwalk hclose
  obtain ⟨ts, rfl⟩ : ∃ r, ts = start :: r := by
    cases ts with
    | nil => cases hstart
    | cons t ts => exact ⟨ts, by rw [Option.some.inj hstart]⟩
  obtain ⟨u, hu, hrest⟩ := Option.bind_eq_some_iff.1 hclose
  obtain ⟨⟨text, rest⟩, hsplit, hnode⟩ := Option.bind_eq_some_iff.1 hrest
  obtain ⟨rfl, rfl⟩ := Prod.mk.inj (Option.some.inj hnode)
  obtain ⟨hsource, hsize⟩ := Text.splitAt?_eq_some_iff.1 hsplit
  subst h
  exact hwalk.close hs hu hkind ⟨rest, hsource⟩ hsize operator

theorem close {start : Token} (hs : Stream page ts) (hstart : ts.head? = some start) {kind : Kind}
    {children : List Node} (h : children = ns) (hkind : kind.isPlain = true) :
    Builds page ts true ns true single (close start kind children) :=
  closeOperator hs hstart h (.plain hkind)

theorem closeAs {start : Token} (hs : Stream page ts) (hstart : ts.head? = some start) {kind : Kind}
    {r : Role} (hr : r = .arguments → kind.isCallable = false) {children : List Node}
    (h : children = ns) (hkind : kind.isPlain = true) :
    Builds page ts true ns true (singleAs r) (Java.close start kind children) := by
  intro us n vs hwalk hclose
  have hsame : n.kind = kind := by
    obtain ⟨u, hu, hrest⟩ := Option.bind_eq_some_iff.1 hclose
    obtain ⟨⟨text, _⟩, -, hnode⟩ := Option.bind_eq_some_iff.1 hrest
    obtain ⟨rfl, rfl⟩ := Prod.mk.inj (Option.some.inj hnode)
    rfl
  have hn := close hs hstart h hkind us n vs hwalk hclose
  exact hn.playing [] fun heq => by rw [hsame]; exact hr heq

/-- A node that was read before is given a part in its parent. -/
theorem recast {p : Parse α} (before : List Node) (n : Node) (after : List Node) (r : Role)
    (hr : r ≠ .arguments) (hns : ns = before ++ n :: after)
    (h : Builds page ts m (before ++ n.playing r :: after) out view p) :
    Builds page ts m ns out view p := by
  subst hns
  exact fun us a vs hwalk => h us a vs (hwalk.playing before fun heq => absurd heq hr)

/-- No node was read before the reader. -/
theorem last (hs : Stream page ts) {p : Parse α} (hp : Tidy page m' view p) :
    Builds page ts m [] (m || m') view p :=
  fun us a vs hwalk ha => hwalk.append hs (hp us a vs (hs.suffix hwalk.suffix) ha)

theorem extendUpTo {step : Node → Parse Node}
    (h : ∀ n, Builds page ts true [n] true single (step n)) (fuel : Nat) (n : Node) :
    Builds page ts true [n] true single (Parse.extendUpTo step fuel n) := by
  induction fuel generalizing n with
  | zero => exact Builds.pure rfl
  | succ fuel ih =>
    refine Builds.orElse (fun us n' vs hwalk hn' => ?_) (Builds.pure rfl)
    obtain ⟨c, ws, hc, hn'⟩ := bind_eq_some hn'
    exact ih c ws n' vs (h n us c ws hwalk hc) hn'

/-- A node that is put inside another one as long as that can be done. -/
theorem extend {step : Node → Parse Node} {n : Node} (hn : ns = [n])
    (h : ∀ n, Builds page ts true [n] true single (step n)) :
    Builds page ts true ns true single (Parse.extend step n) := by
  subst hn
  exact fun us => extendUpTo h us.length n us

end Builds

namespace Tidy

theorem of_builds {p : Parse α}
    (h : ∀ ts, Stream page ts → Builds page ts false [] m view p) : Tidy page m view p :=
  fun ts a us hs hp => h ts hs ts a us .stay hp

/-- A reader that looks at the next token first. -/
theorem from_peek {body : Token → Parse α} (h : ∀ ts start, Stream page ts →
    ts.head? = some start → Builds page ts false [] m view (body start)) :
    Tidy page m view (peek >>= body) := by
  intro ts a us hs hp
  obtain ⟨t, ws, ht, hbody⟩ := bind_eq_some hp
  obtain ⟨start, hstart, heq⟩ := Option.map_eq_some_iff.1 ht
  obtain ⟨rfl, rfl⟩ := Prod.mk.inj heq
  exact h ts start hs hstart ts a us .stay hbody

theorem peek : Tidy page false nothing peek := by
  intro ts a us hs h
  obtain ⟨t, -, heq⟩ := Option.map_eq_some_iff.1 h
  obtain ⟨-, rfl⟩ := Prod.mk.inj heq
  exact .stay

theorem takeIf {q : Token → Bool} : Tidy page true nothing (takeIf q) := by
  intro ts a us hs h
  cases ts with
  | nil => cases h
  | cons t ts =>
    rw [Parse.takeIf] at h
    split at h
    · obtain ⟨rfl, rfl⟩ := Prod.mk.inj (Option.some.inj h)
      refine .move (List.suffix_refl _) fun u hu => .nil ?_
      obtain ⟨hlt, hstop⟩ := hs.2.1 u hu
      omega
    · cases h

theorem leaf {kind : Kind} {q : Token → Bool} (hkind : kind.isPlain = true) :
    Tidy page true single (leaf kind q) := by
  intro ts n us hs h
  obtain ⟨t, ws, ht, hnode⟩ := bind_eq_some h
  obtain ⟨rfl, rfl⟩ := Prod.mk.inj (Option.some.inj hnode)
  cases ts with
  | nil => cases ht
  | cons t' ts =>
    rw [Parse.takeIf] at ht
    split at ht
    · obtain ⟨rfl, rfl⟩ := Prod.mk.inj (Option.some.inj ht)
      refine .move (List.suffix_refl _) fun u hu => ?_
      obtain ⟨hlt, hstop⟩ := hs.2.1 u hu
      rw [hstop]
      have hgap : Clear page.gaps ⟨t'.start, t'.stop⟩ := by
        intro c hc
        rcases hs.2.2.1 c hc with h | h
        · exact Or.inl h
        · exact Or.inr (Or.inl h)
      have hstands := hs.on.rest.stands
        (n := ⟨kind, none, ⟨t'.start, t'.stop⟩, t'.text, none, []⟩) rfl hs.on.text
      exact .cons (Nat.le_refl _) hlt (.of_closes nofun hgap (.plain hkind) hstands)
        (.nil (Nat.le_of_lt hlt)) (.nil (Nat.le_refl _))
    · cases ht

theorem weaken {p : Parse α} (h : Tidy page m view p) : Tidy page false view p :=
  fun ts a us hs hp => (h ts a us hs hp).weaken

theorem drop {p : Parse α} (h : Tidy page m view p) : Tidy page m nothing p :=
  fun ts a us hs hp => (h ts a us hs hp).drop

/-- The node that is read is given a part in its parent. -/
theorem as {p : Parse Node} (h : Tidy page m single p) (r : Role) (hr : r ≠ .arguments) :
    Tidy page m (singleAs r) p :=
  fun ts a us hs hp => (h ts a us hs hp).playing [] fun heq => absurd heq hr

/-- The nodes that are read are given a part in their parent. -/
theorem eachAs {p : Parse (List Node)} (h : Tidy page m (each single) p) (r : Role)
    (hr : r ≠ .arguments) : Tidy page m (each (singleAs r)) p := by
  intro ts ns us hs hp
  have hwalk := (h ts ns us hs hp).map_playing hr
  rwa [each_single, ← each_singleAs] at hwalk

theorem bind {p : Parse α} {f : α → Parse β} (hp : Tidy page m view p)
    (hf : ∀ ts a, Stream page ts → Builds page ts m (view a) out view' (f a)) :
    Tidy page out view' (p >>= f) :=
  of_builds fun ts hs => Builds.bind hs hp fun a => by simpa using hf ts a hs

theorem seqRight {p : Parse α} {q : Parse β} (hp : Tidy page m nothing p)
    (hq : Tidy page m' view' q) : Tidy page (m || m') view' (p *> q) := by
  intro ts b us hs h
  obtain ⟨a, ws, ha, hb⟩ := bind_eq_some h
  have hwalk := hp ts a ws hs ha
  exact hwalk.append hs (hq ws b us (hs.suffix hwalk.suffix) hb)

theorem seqLeft {p : Parse α} {q : Parse β} (hp : Tidy page m view p)
    (hq : Tidy page false nothing q) : Tidy page m view (p <* q) := by
  intro ts a us hs h
  obtain ⟨a', ws, ha, hrest⟩ := bind_eq_some h
  obtain ⟨b, vs, hb, hpure⟩ := bind_eq_some hrest
  obtain ⟨rfl, rfl⟩ := Prod.mk.inj (Option.some.inj hpure)
  have hwalk := hp ts _ ws hs ha
  have := hwalk.append hs (hq ws b _ (hs.suffix hwalk.suffix) hb)
  simpa using this

theorem orElse {p q : Parse α} (hp : Tidy page m view p) (hq : Tidy page m view q) :
    Tidy page m view (p <|> q) := by
  intro ts a us hs h
  rcases orElse_eq_some h with h | h
  · exact hp ts a us hs h
  · exact hq ts a us hs h

theorem pure {a : α} (h : view a = []) : Tidy page false view (Pure.pure a) :=
  of_builds fun _ _ => Builds.pure h

theorem map {p : Parse α} {f : α → β} (hp : Tidy page m view p) (hf : ∀ a, view' (f a) = view a) :
    Tidy page m view' (f <$> p) :=
  bind hp fun _ a _ => Builds.pure (hf a)

theorem failure : Tidy page m view failure := by
  intro ts a us hs h
  cases h

theorem word {w : String} : Tidy page true nothing (word w) :=
  takeIf.bind fun _ _ _ => Builds.pure rfl

theorem symbol {s : String} : Tidy page true nothing (symbol s) :=
  takeIf.bind fun _ _ _ => Builds.pure rfl

theorem optional {p : Parse α} (hp : Tidy page m view p) :
    Tidy page false (ofOption view) (optional p) :=
  orElse (weaken (map hp fun _ => rfl)) (pure rfl)

theorem orEmpty {p : Parse (List α)} {view : List α → List Node} (hp : Tidy page m view p)
    (hnil : view [] = []) : Tidy page false view (orEmpty p) :=
  orElse (weaken hp) (pure hnil)

theorem maybe {p : Parse α} (hp : Tidy page m view p) :
    Tidy page false (each view) (maybe p) :=
  orEmpty (bind hp fun _ _ _ => Builds.pure (by simp)) rfl

theorem manyUpTo {p : Parse α} (hp : Tidy page m view p) (fuel : Nat) :
    Tidy page false (each view) (manyUpTo p fuel) := by
  induction fuel with
  | zero => exact pure rfl
  | succ fuel ih =>
    refine orElse (weaken (bind hp fun ts a hs => Builds.bind hs ih fun as => Builds.pure ?_))
      (pure rfl)
    exact List.flatMap_cons

theorem many {p : Parse α} (hp : Tidy page m view p) :
    Tidy page false (each view) (many p) :=
  fun ts => manyUpTo hp ts.length ts

theorem some1 {p : Parse α} (hp : Tidy page m view p) :
    Tidy page m (each view) (some1 p) :=
  of_builds fun _ hs => Builds.bind hs hp fun a => Builds.bind hs (many hp) fun as => by
    simpa using Builds.pure (List.flatMap_cons)

theorem separatedFrom {s : String} {first rest : Parse α} (hfirst : Tidy page m view first)
    (hrest : Tidy page m' view rest) :
    Tidy page m (each view) (separatedFrom s first rest) :=
  of_builds fun _ hs => Builds.bind hs hfirst fun a =>
    Builds.bind hs (many (seqRight symbol hrest)) fun as => by
      simpa using Builds.pure (List.flatMap_cons)

theorem separated {s : String} {p : Parse α} (hp : Tidy page m view p) :
    Tidy page m (each view) (separated s p) :=
  separatedFrom hp hp

theorem extend {step : α → Parse α} (h : ∀ a, Tidy page m nothing (step a)) (a : α) :
    Tidy page false nothing (extend step a) := by
  have hfuel : ∀ fuel a, Tidy page false nothing (Parse.extendUpTo step fuel a) := by
    intro fuel
    induction fuel with
    | zero => exact fun a => pure rfl
    | succ fuel ih =>
      intro a
      refine orElse ?_ (pure rfl)
      exact bind (weaken (h a)) fun ts b hs => Builds.last hs (ih b)
  exact fun ts => hfuel ts.length a ts

end Tidy

end Combinators

end SqlInjection.Java
