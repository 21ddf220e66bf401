import Mathlib.Data.List.Chain
import SqlInjection.Proofs.Mapper.Nodes

/-!
# The spans of text nodes

The pieces of a mapper are its markup and the runs of text between. Going along them, tags open and
close elements (`openAfter`); a tag that closes nothing changes nothing, and one that closes an outer
element closes all that is in it. `nodes_partition` says that the text nodes of every mapper, whether
its tags match or not, cut its text up as follows:

* a node is what stands in the source at its span, and is not blank;
* nodes come one behind the other, and none reaches into a comment, a declaration or a tag;
* the element around a node is the innermost open one, and its anchor is the tag of the innermost
  open statement;
* a run between two pieces of markup, or the content of a section, that is not blank and lies in an
  element which is not skipped, is exactly one node.

The list of nodes splits where the pieces do (`textNodes_append`), and the nodes of pieces lie within
them (`bounds_of_mem`); the rest follows from these two.
-/

namespace SqlInjection

open Text

/-- The text that stands between two others is found by its bytes. -/
theorem Text.slice?_append (l t r : Text) :
    Text.slice? (l ++ (t ++ r)) ⟨byteSize l, byteSize l + byteSize t⟩ = some t := by
  have hstop : splitAt? (l ++ (t ++ r)) (byteSize l + byteSize t) = some (l ++ t, r) :=
    splitAt?_eq_some_iff.2 ⟨by rw [List.append_assoc], byteSize_append l t⟩
  have hstart : splitAt? (l ++ t) (byteSize l) = some (l, t) := splitAt?_eq_some_iff.2 ⟨rfl, rfl⟩
  simp [Text.slice?, hstop, hstart]

namespace Mapper

/-! ## What a piece holds and opens -/

namespace Piece

/-- The text of a piece that may be inspected: a run, or the content of a section. -/
def content? : Piece → Option Text
  | .run t => some t
  | .markup (.section t) _ => some t
  | .markup _ _ => none

/-- The number of bytes in front of that text. -/
def contentStart : Piece → Nat
  | .markup (.section _) _ => sectionStart
  | _ => 0

/-- Whether a piece is a section. -/
def isSection : Piece → Bool
  | .markup (.section _) _ => true
  | _ => false

/-- Whether a piece is a run of text. -/
def isRun : Piece → Bool
  | .run _ => true
  | .markup _ _ => false

/-- The elements that are open behind a piece at a byte offset. -/
def openAfter (start : Nat) (around : List OpenElement) : Piece → List OpenElement
  | .markup (.opening name attributes) _ =>
    ⟨name, valueOf? "id".toList attributes, start⟩ :: around
  | .markup (.closing name) _ => closeElement name around
  | _ => around

/-- The node of a piece at a byte offset inside the open elements. -/
def node? (around : List OpenElement) (start : Nat) (p : Piece) : Option TextNode :=
  p.content?.bind fun t => textNode? around (start + p.contentStart) t p.isSection

end Piece

/-- The number of bytes of pieces. -/
def width (ps : List Piece) : Nat := byteSize (ps.flatMap Piece.text)

@[simp] theorem width_nil : width [] = 0 := rfl

@[simp] theorem width_cons (p : Piece) (ps : List Piece) :
    width (p :: ps) = byteSize p.text + width ps := by
  rw [width, List.flatMap_cons, byteSize_append, width]

/-- The elements that are open behind pieces that start at a byte offset. -/
def openAfter (around : List OpenElement) (start : Nat) : List Piece → List OpenElement
  | [] => around
  | p :: ps => openAfter (p.openAfter start around) (start + byteSize p.text) ps

/-- Sections are written with their marks around their content. -/
def SectionsWritten (ps : List Piece) : Prop :=
  ∀ x w, .markup (.section x) w ∈ ps → w = sectionText x

theorem sectionsWritten_pieces (t : Text) : SectionsWritten (pieces t) :=
  fun _ _ h => section_of_mem_pieces h

section Nodes

variable {around : List OpenElement} {start : Nat} {ps qs : List Piece} {p : Piece} {n : TextNode}

theorem textNodes_cons (around : List OpenElement) (start : Nat) (p : Piece) (ps : List Piece) :
    textNodes around start (p :: ps) = (p.node? around start).toList ++
      textNodes (p.openAfter start around) (start + byteSize p.text) ps := by
  cases p with
  | run t => rfl
  | markup m w => cases m <;> rfl

/-- The nodes of pieces are those of the first of them and those of the rest. -/
theorem textNodes_append (around : List OpenElement) (start : Nat) (ps qs : List Piece) :
    textNodes around start (ps ++ qs) = textNodes around start ps ++
      textNodes (openAfter around start ps) (start + width ps) qs := by
  induction ps generalizing around start with
  | nil => rfl
  | cons p ps ih =>
    rw [List.cons_append, textNodes_cons, textNodes_cons, ih, List.append_assoc, openAfter,
      width_cons, Nat.add_assoc]

/-- Every node is that of one piece. -/
theorem exists_node?_of_mem (h : n ∈ textNodes around start ps) :
    ∃ before p after, ps = before ++ p :: after ∧
      p.node? (openAfter around start before) (start + width before) = some n := by
  induction ps generalizing around start with
  | nil => cases h
  | cons p ps ih =>
    rw [textNodes_cons] at h
    rcases List.mem_append.1 h with h | h
    · exact ⟨[], p, ps, rfl, Option.mem_toList.1 h⟩
    · obtain ⟨before, q, after, rfl, hn⟩ := ih h
      refine ⟨p :: before, q, after, rfl, ?_⟩
      rw [width_cons, ← Nat.add_assoc]
      exact hn

/-- The text to inspect stands in its piece behind as many bytes as it should. -/
theorem exists_text_eq_of_content? {t : Text} (hwritten : ∀ x w, p = .markup (.section x) w →
    w = sectionText x) (h : p.content? = some t) :
    ∃ pre post, p.text = pre ++ (t ++ post) ∧ byteSize pre = p.contentStart := by
  cases p with
  | run u =>
    obtain rfl := Option.some.inj h
    exact ⟨[], [], by simp [Piece.text], rfl⟩
  | markup m w =>
    cases m with
    | «section» x =>
      obtain rfl := Option.some.inj h
      obtain rfl := hwritten x w rfl
      have hopening : byteSize "<![CDATA[".toList = sectionStart := by decide
      exact ⟨"<![CDATA[".toList, "]]>".toList, rfl, hopening⟩
    | _ => cases h

/-- What the node of a piece is: the innermost open element is not skipped, and holds the text of the
piece. -/
theorem node?_eq_some_iff : p.node? around start = some n ↔ ∃ t parent outer,
    p.content? = some t ∧ around = parent :: outer ∧ parent.name ∉ skippedParents ∧
      Text.blank t = false ∧ textNode? around (start + p.contentStart) t p.isSection = some n := by
  rw [Piece.node?, Option.bind_eq_some_iff]
  constructor
  · rintro ⟨t, ht, hn⟩
    cases hholds : holds (around.map OpenElement.name) t with
    | false =>
      rw [textNode?_eq_none hholds] at hn
      cases hn
    | true =>
      cases around with
      | nil => cases hholds
      | cons parent outer =>
        simp only [holds, List.map_cons, Bool.not_eq_true', Bool.or_eq_false_iff,
          List.contains_eq_mem, decide_eq_false_iff_not] at hholds
        exact ⟨t, parent, outer, ht, rfl, hholds.1, hholds.2, hn⟩
  · rintro ⟨t, parent, outer, ht, -, -, -, hn⟩
    exact ⟨t, ht, hn⟩

/-- A node of an element that is not skipped, from a text that is not blank. -/
theorem textNode?_cons {parent : OpenElement} {outer : List OpenElement} {t : Text}
    (hparent : parent.name ∉ skippedParents) (hink : Text.blank t = false) (verbatim : Bool) :
    textNode? (parent :: outer) start t verbatim = some
      { text := t
        span := ⟨start, start + byteSize t⟩
        verbatim
        parent := parent.name
        statementId := ((parent :: outer).find? (statementNames.contains ·.name)).bind
          OpenElement.id
        anchor := (((parent :: outer).find? (statementNames.contains ·.name)).map
          OpenElement.start).getD start } := by
  rw [textNode?, if_neg]
  rw [Bool.or_eq_true, not_or, hink]
  exact ⟨by simpa using hparent, Bool.noConfusion⟩

/-- The node of a piece has its text and stands in the piece. -/
theorem bounds_of_node? (hwritten : ∀ x w, p = .markup (.section x) w → w = sectionText x)
    (h : p.node? around start = some n) :
    ∃ pre post, p.text = pre ++ (n.text ++ post) ∧
      n.span = ⟨start + byteSize pre, start + byteSize pre + byteSize n.text⟩ ∧
      Text.blank n.text = false := by
  obtain ⟨t, parent, outer, ht, rfl, hparent, hink, hn⟩ := node?_eq_some_iff.1 h
  rw [textNode?_cons hparent hink] at hn
  obtain rfl := Option.some.inj hn
  obtain ⟨pre, post, htext, hsize⟩ := exists_text_eq_of_content? hwritten ht
  exact ⟨pre, post, htext, by rw [hsize], hink⟩

/-- **The nodes of pieces lie within them.** -/
theorem bounds_of_mem (hps : SectionsWritten ps) (h : n ∈ textNodes around start ps) :
    start ≤ n.span.start ∧ n.span.start < n.span.stop ∧ n.span.stop ≤ start + width ps := by
  have hlt := start_lt_stop_of_mem_textNodes h
  obtain ⟨before, p, after, rfl, hn⟩ := exists_node?_of_mem h
  obtain ⟨pre, post, htext, hspan, -⟩ :=
    bounds_of_node? (fun x w hp => hps x w (by rw [hp]; simp)) hn
  have hwidth : width (before ++ p :: after) =
      width before + (byteSize pre + (byteSize n.text + byteSize post)) + width after := by
    rw [width, List.flatMap_append, List.flatMap_cons, byteSize_append, byteSize_append, htext,
      byteSize_append, byteSize_append, width, width]
    omega
  simp only [hspan] at hlt ⊢
  omega

/-- Nodes come one behind the other. -/
theorem pairwise_textNodes (hps : SectionsWritten ps) (around : List OpenElement) (start : Nat) :
    (textNodes around start ps).Pairwise fun m n => m.span.stop ≤ n.span.start := by
  induction ps generalizing around start with
  | nil => exact .nil
  | cons p ps ih =>
    have hrest : SectionsWritten ps := fun x w h => hps x w (List.mem_cons_of_mem p h)
    rw [textNodes_cons, List.pairwise_append]
    refine ⟨by cases p.node? around start <;> simp, ih hrest _ _, fun m hm n hn => ?_⟩
    have hmem : m ∈ textNodes around start [p] := by
      rw [textNodes_cons]
      exact List.mem_append_left _ hm
    have hwritten : SectionsWritten [p] := fun x w h =>
      hps x w (List.mem_cons.2 (Or.inl (List.mem_singleton.1 h)))
    have hbefore := bounds_of_mem hwritten hmem
    have hafter := bounds_of_mem hrest hn
    rw [width_cons, width_nil] at hbefore
    omega

/-! ## Open elements -/

theorem mem_of_mem_closeElement {name : Text} {e : OpenElement} (h : e ∈ closeElement name around) :
    e ∈ around := by
  have hsuffix := List.dropWhile_suffix (l := around) (·.name != name)
  rw [closeElement] at h
  split at h
  · exact h
  · next outer hdrop =>
    rw [hdrop] at hsuffix
    exact hsuffix.subset (List.mem_cons_of_mem _ h)

/-- An element that is open behind pieces was open before them, or one of their tags opened it. -/
theorem mem_openAfter {e : OpenElement} (h : e ∈ openAfter around start ps) :
    e ∈ around ∨ ∃ before attributes w after,
      ps = before ++ .markup (.opening e.name attributes) w :: after ∧
        e.start = start + width before := by
  induction ps generalizing around start with
  | nil => exact Or.inl h
  | cons p ps ih =>
    rcases ih h with h | ⟨before, attributes, w, after, rfl, hstart⟩
    · have hpiece : e ∈ around ∨ ∃ attributes w, p = .markup (.opening e.name attributes) w ∧
          e.start = start := by
        cases p with
        | run t => exact Or.inl h
        | markup m w =>
          cases m with
          | opening name attributes =>
            rcases List.mem_cons.1 h with rfl | h
            · exact Or.inr ⟨attributes, w, rfl, rfl⟩
            · exact Or.inl h
          | closing name => exact Or.inl (mem_of_mem_closeElement h)
          | _ => exact Or.inl h
      rcases hpiece with h | ⟨attributes, w, rfl, hstart⟩
      · exact Or.inl h
      · exact Or.inr ⟨[], attributes, w, ps, rfl, hstart⟩
    · refine Or.inr ⟨p :: before, attributes, w, after, rfl, ?_⟩
      rw [width_cons, hstart, Nat.add_assoc]

end Nodes

/-! ## Runs between markup -/

/-- No two runs of the pieces of a text touch. -/
theorem isChain_pieces (t : Text) :
    (pieces t).IsChain fun p q => p.isRun = true → q.isRun = false := by
  refine pieces_induction (P := List.IsChain _) .nil ?_ ?_ t
  · intro c ps hps
    rcases prepend_cases c ps with ⟨u, qs, rfl, hp⟩ | ⟨hnext, hp⟩
    · rw [hp]
      rw [List.isChain_cons] at hps ⊢
      exact hps
    · rw [hp]
      refine List.isChain_cons.2 ⟨fun q hq _ => ?_, hps⟩
      cases q with
      | run u => exact absurd hq (hnext u)
      | markup m w => rfl
  · intro m w ps _ hps
    exact List.isChain_cons.2 ⟨fun q _ h => Bool.noConfusion h, hps⟩

theorem alone_of_pieces {t u : Text} {before after : List Piece}
    (h : pieces t = before ++ .run u :: after) :
    (∀ p ∈ before.getLast?, p.isRun = false) ∧ ∀ p ∈ after.head?, p.isRun = false := by
  have hchain := isChain_pieces t
  rw [h, List.isChain_append] at hchain
  obtain ⟨-, hafter, hmeet⟩ := hchain
  constructor
  · intro p hp
    cases hrun : p.isRun with
    | false => rfl
    | true => exact Bool.noConfusion (hmeet p hp (.run u) rfl hrun)
  · exact fun p hp => (List.isChain_cons.1 hafter).1 p hp rfl

/-! ## The partition -/

/-- A piece of a source, where it starts, and the elements that are open there, the innermost
first. -/
def PieceAt (source : Text) (start : Nat) (around : List OpenElement) (p : Piece) : Prop :=
  ∃ before after, pieces source = before ++ p :: after ∧ width before = start ∧
    openAfter [] 0 before = around

/-- Nodes that cut up the text of a source. -/
structure Partitions (source : Text) (nodes : List TextNode) : Prop where
  /-- A node starts and ends between characters, and is what stands there. -/
  exact : ∀ n ∈ nodes, Text.slice? source n.span = some n.text
  ink : ∀ n ∈ nodes, Text.blank n.text = false
  increasing : nodes.Pairwise fun m n =>
    m.span.start < n.span.start ∧ m.span.stop ≤ n.span.start
  /-- No node meets markup other than the section that it is the content of. -/
  apart : ∀ start around m w, PieceAt source start around (.markup m w) → (∀ x, m ≠ .section x) →
    ∀ n ∈ nodes, n.span.stop ≤ start ∨ start + byteSize w ≤ n.span.start
  /-- A node lies in a piece whose innermost open element holds it. Its anchor is the tag of the
  innermost statement that is open there, or the node itself if none is. -/
  held : ∀ n ∈ nodes, ∃ start parent outer p, PieceAt source start (parent :: outer) p ∧
    start ≤ n.span.start ∧ n.span.stop ≤ start + byteSize p.text ∧
    n.parent = parent.name ∧ n.parent ∉ skippedParents ∧ n.anchor ≤ n.span.start ∧
    (n.anchor = n.span.start ∧ (∀ e ∈ parent :: outer, e.name ∉ statementNames) ∨
      ∃ e, (parent :: outer).find? (statementNames.contains ·.name) = some e ∧
        n.anchor = e.start ∧ ∃ around attributes w,
          PieceAt source e.start around (.markup (.opening e.name attributes) w))
  /-- A run is all that stands between two pieces of markup. -/
  gaps : ∀ before t after, pieces source = before ++ .run t :: after →
    (∀ p ∈ before.getLast?, p.isRun = false) ∧ ∀ p ∈ after.head?, p.isRun = false
  /-- A run or the content of a section is one node, unless it is blank or its element is skipped. -/
  covered : ∀ start parent outer p t, PieceAt source start (parent :: outer) p →
    p.content? = some t → Text.blank t = false → parent.name ∉ skippedParents →
    ∃ n, nodes.filter (·.span =
      ⟨start + p.contentStart, start + p.contentStart + byteSize t⟩) = [n] ∧
        n.text = t ∧ n.parent = parent.name

section Partition

variable {source : Text} {start : Nat} {around : List OpenElement} {p : Piece}

/-- The nodes of a source before a piece, at the piece and behind it. -/
theorem PieceAt.exists_split (h : PieceAt source start around p) : ∃ front back,
    textNodes [] 0 (pieces source) = front ++ (p.node? around start).toList ++ back ∧
      (∀ n ∈ front, n.span.start < n.span.stop ∧ n.span.stop ≤ start) ∧
      ∀ n ∈ back, n.span.start < n.span.stop ∧ start + byteSize p.text ≤ n.span.start := by
  obtain ⟨before, after, hsplit, rfl, rfl⟩ := h
  have hwritten := sectionsWritten_pieces source
  rw [hsplit] at hwritten
  refine ⟨textNodes [] 0 before, textNodes (p.openAfter (width before) (openAfter [] 0 before))
    (width before + byteSize p.text) after, ?_, fun n hn => ?_, fun n hn => ?_⟩
  · rw [hsplit, textNodes_append, textNodes_cons, Nat.zero_add, List.append_assoc]
  · have hbounds := bounds_of_mem (fun x w h => hwritten x w (List.mem_append_left _ h)) hn
    omega
  · have hbounds := bounds_of_mem (fun x w h => hwritten x w
      (List.mem_append_right _ (List.mem_cons_of_mem _ h))) hn
    omega

theorem exists_pieceAt_of_mem {n : TextNode} (h : n ∈ textNodes [] 0 (pieces source)) :
    ∃ start around p, PieceAt source start around p ∧ p.node? around start = some n := by
  obtain ⟨before, p, after, hsplit, hn⟩ := exists_node?_of_mem h
  rw [Nat.zero_add] at hn
  exact ⟨_, _, p, ⟨before, after, hsplit, rfl, rfl⟩, hn⟩

theorem PieceAt.written (h : PieceAt source start around p) :
    ∀ x w, p = .markup (.section x) w → w = sectionText x := by
  rintro x w rfl
  obtain ⟨before, after, hsplit, -⟩ := h
  exact sectionsWritten_pieces source x w (by rw [hsplit]; simp)

/-- An element that is open at a piece has its tag before it. -/
theorem PieceAt.of_mem (h : PieceAt source start around p) {e : OpenElement} (he : e ∈ around) :
    e.start ≤ start ∧ ∃ around attributes w,
      PieceAt source e.start around (.markup (.opening e.name attributes) w) := by
  obtain ⟨before, after, hsplit, rfl, rfl⟩ := h
  rcases mem_openAfter he with he | ⟨front, attributes, w, back, rfl, hstart⟩
  · cases he
  · rw [Nat.zero_add] at hstart
    constructor
    · rw [hstart, width, width, List.flatMap_append, byteSize_append]
      omega
    · refine ⟨_, attributes, w, front, back ++ p :: after, ?_, hstart.symm, rfl⟩
      rw [hsplit, List.append_assoc, List.cons_append]

theorem PieceAt.slice?_node (h : PieceAt source start around p) {n : TextNode}
    (hn : p.node? around start = some n) : Text.slice? source n.span = some n.text := by
  obtain ⟨pre, post, htext, hspan, -⟩ := bounds_of_node? h.written hn
  obtain ⟨before, after, hsplit, rfl, -⟩ := h
  have hsource : source = (before.flatMap Piece.text ++ pre) ++
      (n.text ++ (post ++ after.flatMap Piece.text)) := by
    rw [← pieces_flatten source, hsplit, List.flatMap_append, List.flatMap_cons, htext]
    simp only [List.append_assoc]
  have hslice := slice?_append (before.flatMap Piece.text ++ pre) n.text
    (post ++ after.flatMap Piece.text)
  rw [byteSize_append, ← hsource] at hslice
  rw [hspan]
  exact hslice

theorem PieceAt.held_node (h : PieceAt source start around p) {n : TextNode}
    (hn : p.node? around start = some n) : ∃ parent outer, around = parent :: outer ∧
    n.parent = parent.name ∧ n.parent ∉ skippedParents ∧ n.anchor ≤ n.span.start ∧
    (n.anchor = n.span.start ∧ (∀ e ∈ parent :: outer, e.name ∉ statementNames) ∨
      ∃ e, (parent :: outer).find? (statementNames.contains ·.name) = some e ∧
        n.anchor = e.start ∧ ∃ around attributes w,
          PieceAt source e.start around (.markup (.opening e.name attributes) w)) := by
  obtain ⟨t, parent, outer, ht, rfl, hparent, hink, htext⟩ := node?_eq_some_iff.1 hn
  rw [textNode?_cons hparent hink] at htext
  obtain rfl := Option.some.inj htext
  refine ⟨parent, outer, rfl, rfl, hparent, ?_⟩
  cases hstatement : (parent :: outer).find? (statementNames.contains ·.name) with
  | none =>
    refine ⟨Nat.le_refl _, Or.inl ⟨rfl, fun e he => ?_⟩⟩
    simpa using List.find?_eq_none.1 hstatement e he
  | some e =>
    obtain ⟨hle, htag⟩ := h.of_mem (List.mem_of_find?_eq_some hstatement)
    refine ⟨?_, Or.inr ⟨e, rfl, rfl, htag⟩⟩
    simp only [Option.map_some, Option.getD_some]
    omega

/-- A text that is not blank, in an element that is not skipped, is one node. -/
theorem PieceAt.filter_eq_singleton {parent : OpenElement} {outer : List OpenElement} {t : Text}
    (h : PieceAt source start (parent :: outer) p) (ht : p.content? = some t)
    (hink : Text.blank t = false) (hparent : parent.name ∉ skippedParents) :
    ∃ n, (textNodes [] 0 (pieces source)).filter (·.span =
      ⟨start + p.contentStart, start + p.contentStart + byteSize t⟩) = [n] ∧
        n.text = t ∧ n.parent = parent.name := by
  obtain ⟨n, hnode, hntext, hnparent, hnspan⟩ : ∃ n,
      textNode? (parent :: outer) (start + p.contentStart) t p.isSection = some n ∧ n.text = t ∧
        n.parent = parent.name ∧
        n.span = ⟨start + p.contentStart, start + p.contentStart + byteSize t⟩ :=
    ⟨_, textNode?_cons hparent hink p.isSection, rfl, rfl, rfl⟩
  have hn := node?_eq_some_iff.2 ⟨t, parent, outer, ht, rfl, hparent, hink, hnode⟩
  obtain ⟨pre, post, htext, hsize⟩ := exists_text_eq_of_content? h.written ht
  have hend : p.contentStart + byteSize t ≤ byteSize p.text := by
    rw [htext, byteSize_append, byteSize_append, hsize]
    omega
  obtain ⟨front, back, hsplit, hfront, hback⟩ := h.exists_split
  have hbefore : front.filter (·.span = n.span) = [] := by
    refine List.filter_eq_nil_iff.2 fun m hm hspan => ?_
    have hbounds := hfront m hm
    rw [of_decide_eq_true hspan, hnspan] at hbounds
    dsimp only at hbounds
    omega
  have hbehind : back.filter (·.span = n.span) = [] := by
    refine List.filter_eq_nil_iff.2 fun m hm hspan => ?_
    have hbounds := hback m hm
    rw [of_decide_eq_true hspan, hnspan] at hbounds
    dsimp only at hbounds
    omega
  refine ⟨n, ?_, hntext, hnparent⟩
  rw [← hnspan, hsplit, hn, List.filter_append, List.filter_append, hbefore, hbehind]
  simp

end Partition

/-- **The text nodes of a mapper cut up its text.** -/
theorem nodes_partition {source : Text} {d : Document} (h : Document.parse? source = some d) :
    Partitions source d.nodes := by
  obtain ⟨-, rfl⟩ : isMapper source = true ∧ _ = d := by
    simpa [Document.parse?] using h
  have hwritten := sectionsWritten_pieces source
  refine ⟨fun n hn => ?_, fun n hn => ?_, ?_, ?_, fun n hn => ?_, ?_, ?_⟩
  · obtain ⟨start, around, p, hp, hnode⟩ := exists_pieceAt_of_mem hn
    exact hp.slice?_node hnode
  · exact (bounds_of_mem_textNodes hn).2
  · refine (pairwise_textNodes hwritten [] 0).imp_of_mem fun {m n} hm _ hle => ⟨?_, hle⟩
    exact Nat.lt_of_lt_of_le (start_lt_stop_of_mem_textNodes hm) hle
  · intro start around m w hp hno n hn
    obtain ⟨front, back, hsplit, hfront, hback⟩ := hp.exists_split
    have hnone : (Piece.markup m w).node? around start = none := by
      cases m with
      | «section» x => exact absurd rfl (hno x)
      | _ => rfl
    rw [hsplit, hnone, Option.toList_none, List.append_nil] at hn
    rcases List.mem_append.1 hn with hn | hn
    · exact Or.inl (hfront n hn).2
    · exact Or.inr (hback n hn).2
  · obtain ⟨start, around, p, hp, hnode⟩ := exists_pieceAt_of_mem hn
    obtain ⟨parent, outer, rfl, hheld⟩ := hp.held_node hnode
    obtain ⟨pre, post, htext, hspan, -⟩ := bounds_of_node? hp.written hnode
    refine ⟨start, parent, outer, p, hp, ?_, ?_, hheld⟩
    · rw [hspan]
      exact Nat.le_add_right _ _
    · rw [hspan, htext, byteSize_append, byteSize_append]
      dsimp only
      omega
  · exact fun before t after hsplit => alone_of_pieces hsplit
  · exact fun start parent outer p t hp ht hink hparent =>
      hp.filter_eq_singleton ht hink hparent

/-- A mapper whose tags do not match: one closes an outer element, one closes nothing, and one is
never closed. -/
def tangledSource : Text :=
  ("<!DOCTYPE mapper \"mybatis.org/mapper.dtd\"><mapper>a<select>b<if>c<!--d-->e</select>f" ++
    "<delete></if>é<![CDATA[g]]></sql>h<sql>i").toList

theorem nodes_partition_tangled : ∃ d, Document.parse? tangledSource = some d ∧
    d.nodes.map (fun n => (n.text, n.parent)) =
      [("b", "select"), ("c", "if"), ("e", "if"), ("é", "delete"), ("g", "delete"),
        ("h", "delete")].map (fun n => (n.1.toList, n.2.toList)) ∧
      Partitions tangledSource d.nodes := by
  have h : (Document.parse? tangledSource).any (fun d => d.nodes.map (fun n => (n.text, n.parent)) =
      [("b", "select"), ("c", "if"), ("e", "if"), ("é", "delete"), ("g", "delete"),
        ("h", "delete")].map (fun n => (n.1.toList, n.2.toList))) = true := by decide +kernel
  obtain ⟨d, hd, hnodes⟩ := (Option.any_eq_true _ _).1 h
  exact ⟨d, hd, of_decide_eq_true hnodes, nodes_partition hd⟩

end Mapper

end SqlInjection
