import SqlInjection.Mapper.Document
import SqlInjection.Proofs.Mapper.Pieces

/-!
# Document trees

A mapper is a tree of elements written as text. Here the tree comes first: `Tree` is a document of
elements with quoted attributes, comments, instructions, sections and runs of text, whose parts are
such that they can be written, and `Tree.document` reads off the tree what a mapper is: its
namespace and, in document order, the texts in the elements with their parents and statements.

Reading the written tree gives that document (`Tree.parse?_render`), provided the reader takes it
for a mapper at all. That can fail: the document type is looked for in the bare text, so one that
stands in an instruction before the declaration is taken for it (`Tree.parse?_render_hiddenType`).
-/

namespace SqlInjection.Mapper

open Text

/-! ## Trees -/

/-- A run of text between markup; it may be empty. -/
abbrev Run : Type := { t : Text // '<' ∉ t }

/-- What may stand in markup that ends at the first `closing`. -/
abbrev Enclosed (closing : String) : Type := { x : Text // ¬ closing.toList <:+: x }

/-- A text with markup around it. -/
def enclose (opening closing : String) (x : Text) : Text := opening.toList ++ (x ++ closing.toList)

/-- Attributes that all have a value. -/
def valued (as : List (Text × Text)) : List Attribute := as.map fun (n, v) => ⟨n, some v⟩

/-- The start of an element: its name, its attributes, and the text they are written as. -/
structure StartTag where
  name : Text
  attributes : List (Text × Text)
  layout : Text
  tagName : TagName name
  written : Attributes (valued attributes) layout

mutual

/-- Markup with all that is inside it. -/
inductive Item where
  | comment (x : Enclosed "-->")
  | instruction (x : Enclosed "?>")
  | section (x : Enclosed "]]>")
  /-- An element that is closed by the tag that opens it. -/
  | empty (tag : StartTag)
  /-- An element, with the blanks in the tag that closes it. -/
  | element (tag : StartTag) (content : Content) (space : { w : Text // Blanks w })

/-- Markup in order, with the runs of text around it. -/
inductive Content where
  | last (run : Run)
  | cons (run : Run) (item : Item) (rest : Content)

end

/-- The value of an attribute. -/
def StartTag.value? (tag : StartTag) (name : String) : Option Text :=
  tag.attributes.lookup name.toList

/-- The tag with its end. -/
def StartTag.write (tag : StartTag) (ending : Text) : Text :=
  '<' :: (tag.name ++ (tag.layout ++ ending))

/-- The tag that closes the element. -/
def StartTag.close (tag : StartTag) (space : Text) : Text :=
  '<' :: '/' :: (tag.name ++ (space ++ ['>']))

mutual

/-- Markup as it is written. -/
def Item.render : Item → Text
  | .comment x => enclose "<!--" "-->" x.1
  | .instruction x => enclose "<?" "?>" x.1
  | .section x => enclose "<![CDATA[" "]]>" x.1
  | .empty tag => tag.write ['/', '>']
  | .element tag content space => tag.write ['>'] ++ (content.render ++ tag.close space.1)

/-- Content as it is written. -/
def Content.render : Content → Text
  | .last run => run.1
  | .cons run item rest => run.1 ++ (item.render ++ rest.render)

end

mutual

/-- The names of the elements, in document order. -/
def Item.elementNames : Item → List Text
  | .comment _ | .instruction _ | .section _ => []
  | .empty tag => [tag.name]
  | .element tag content _ => tag.name :: content.elementNames

/-- The names of the elements, in document order. -/
def Content.elementNames : Content → List Text
  | .last _ => []
  | .cons _ item rest => item.elementNames ++ rest.elementNames

end

/-- Whether the markup may stand outside the root element. -/
def Item.isMisc : Item → Bool
  | .comment _ | .instruction _ => true
  | .section _ | .empty _ | .element _ _ _ => false

/-- Whether the content may stand outside the root element: blanks, comments and instructions. -/
def Content.isMisc : Content → Bool
  | .last run => Text.blank run.1
  | .cons run item rest => Text.blank run.1 && item.isMisc && rest.isMisc

/-! ## The texts of a tree -/

/-- Where a text stands: the name of the element that holds it, and the nearest statement around
it. -/
structure Position where
  parent : Text
  statement : Option OpenElement

/-- The position of what stands in an element whose tag starts at a byte offset. -/
def Position.inside (at? : Option Position) (tag : StartTag) (start : Nat) : Position where
  parent := tag.name
  statement :=
    if tag.name ∈ statementNames then some ⟨tag.name, tag.value? "id", start⟩
    else at?.bind Position.statement

/-- The node of a text that starts at a byte offset. -/
def Position.node (p : Position) (start : Nat) (text : Text) (verbatim : Bool) : TextNode where
  text
  span := ⟨start, start + byteSize text⟩
  verbatim
  parent := p.parent
  statementId := p.statement.bind OpenElement.id
  anchor := (p.statement.map OpenElement.start).getD start

/-- The nodes of one text: a text that is not blank is one, unless its parent is skipped or it
stands outside all elements. -/
def nodesAt (at? : Option Position) (start : Nat) (text : Text) (verbatim : Bool) :
    List TextNode :=
  match at? with
  | none => []
  | some p =>
    if p.parent ∈ skippedParents ∨ Text.blank text then [] else [p.node start text verbatim]

mutual

/-- The nodes of markup that starts at a byte offset. -/
def Item.nodes (at? : Option Position) (start : Nat) : Item → List TextNode
  | .comment _ | .instruction _ | .empty _ => []
  | .section x => nodesAt at? (start + "<![CDATA[".utf8ByteSize) x.1 true
  | .element tag content _ =>
    content.nodes (some (Position.inside at? tag start)) (start + byteSize (tag.write ['>']))

/-- The nodes of content that starts at a byte offset. -/
def Content.nodes (at? : Option Position) (start : Nat) : Content → List TextNode
  | .last run => nodesAt at? start run.1 false
  | .cons run item rest =>
    nodesAt at? start run.1 false ++
      (item.nodes at? (start + byteSize run.1) ++
        rest.nodes at? (start + byteSize run.1 + byteSize item.render))

end

/-! ## Documents -/

/-- The name of the root element. -/
def rootName : Text := "mapper".toList

/-- A document with the mapper document type, whose only element named `mapper` is its root. -/
structure Tree where
  prolog : Content
  doctype : Text
  misc : Content
  root : StartTag
  /-- What the root holds, with the blanks in the tag that closes it; nothing if it is closed by the
  tag that opens it. -/
  body : Option (Content × { w : Text // Blanks w })
  epilog : Content
  prolog_isMisc : prolog.isMisc = true
  misc_isMisc : misc.isMisc = true
  epilog_isMisc : epilog.isMisc = true
  doctype_ends : '>' ∉ doctype
  doctype_isMapper :
    Text.contains doctype "mybatis.org".toList && Text.contains doctype "mapper.dtd".toList
  root_name : root.name = rootName
  root_only : ∀ b ∈ body, rootName ∉ b.1.elementNames

namespace Tree

/-- The root with all that is inside it. -/
def rootItem (d : Tree) : Item :=
  match d.body with
  | none => .empty d.root
  | some (content, space) => .element d.root content space

/-- The declaration of the document type. -/
def declaration (d : Tree) : Text := enclose "<!" ">" ("DOCTYPE".toList ++ d.doctype)

/-- The document as it is written. -/
def render (d : Tree) : Text :=
  d.prolog.render ++
    (d.declaration ++ (d.misc.render ++ (d.rootItem.render ++ d.epilog.render)))

/-- The byte offset of the root. -/
def rootStart (d : Tree) : Nat :=
  byteSize d.prolog.render + byteSize d.declaration + byteSize d.misc.render

/-- What the document says as a mapper. -/
def document (d : Tree) : Document :=
  ⟨d.render, d.root.value? "namespace", d.rootItem.nodes none d.rootStart⟩

end Tree

/-! ## Reading a tree as pieces -/

/-- The pieces of a run. -/
def runPieces (t : Text) : List Piece := if t = [] then [] else [.run t]

mutual

/-- The pieces that markup is written as. -/
def Item.pieces : Item → List Piece
  | .comment x => [.markup .comment (enclose "<!--" "-->" x.1)]
  | .instruction x => [.markup .declaration (enclose "<?" "?>" x.1)]
  | .section x => [.markup (.section x.1) (enclose "<![CDATA[" "]]>" x.1)]
  | .empty tag =>
    [.markup (.empty tag.name (valued tag.attributes)) (tag.write ['/', '>'])]
  | .element tag content space =>
    .markup (.opening tag.name (valued tag.attributes)) (tag.write ['>']) ::
      (content.pieces ++ [.markup (.closing tag.name) (tag.close space.1)])

/-- The pieces that content is written as. -/
def Content.pieces : Content → List Piece
  | .last run => runPieces run.1
  | .cons run item rest => runPieces run.1 ++ (item.pieces ++ rest.pieces)

end

/-- The pieces that a document is written as. -/
def Tree.pieces (d : Tree) : List Piece :=
  d.prolog.pieces ++
    (.markup .declaration d.declaration :: (d.misc.pieces ++ (d.rootItem.pieces ++ d.epilog.pieces)))

theorem flatMap_runPieces (t : Text) : (runPieces t).flatMap Piece.text = t := by
  unfold runPieces
  split
  · next h => exact h.symm
  · simp [Piece.text]

mutual

theorem Item.flatMap_pieces : ∀ i : Item, i.pieces.flatMap Piece.text = i.render
  | .comment _ | .instruction _ | .section _ | .empty _ => by
    simp [Item.pieces, Item.render, Piece.text]
  | .element tag content space => by
    simp [Item.pieces, Item.render, Piece.text, content.flatMap_pieces]

theorem Content.flatMap_pieces : ∀ c : Content, c.pieces.flatMap Piece.text = c.render
  | .last run => flatMap_runPieces run.1
  | .cons run item rest => by
    simp [Content.pieces, Content.render, flatMap_runPieces, item.flatMap_pieces,
      rest.flatMap_pieces]

end

theorem Tree.flatMap_pieces (d : Tree) : d.pieces.flatMap Piece.text = d.render := by
  simp [Tree.pieces, Tree.render, Piece.text, Item.flatMap_pieces, Content.flatMap_pieces]

/-! ## The pieces of a tree are found again -/

theorem regular_runPieces_append {run : Run} {ps : List Piece} (h : Regular ps)
    (hnext : ∀ u, ps.head? ≠ some (.run u)) : Regular (runPieces run.1 ++ ps) := by
  unfold runPieces
  split
  · exact h
  · next hne => exact Regular.run hne (quiet_of_not_mem run.2) hnext h

/-- Markup starts with no run. -/
theorem Item.head?_pieces (i : Item) (ps : List Piece) (u : Text) :
    (i.pieces ++ ps).head? ≠ some (.run u) := by
  cases i <;> simp [Item.pieces]

mutual

theorem Item.regular_append : ∀ (i : Item) {ps : List Piece}, Regular ps → Regular (i.pieces ++ ps)
  | .comment x, _, h => Regular.markup (Written.comment x.2) h
  | .instruction x, _, h => Regular.markup (Written.instruction x.2) h
  | .section x, _, h => Regular.markup (Written.section x.2) h
  | .empty tag, _, h => Regular.markup (Written.tag (Tag.empty tag.tagName tag.written)) h
  | .element tag content space, ps, h => by
    have hclose : Written (.closing tag.name) (tag.close space.1) :=
      Written.tag (Tag.closing tag.tagName (Attributes.nil space.2) (Or.inl rfl))
    have hopen : Written _ (tag.write ['>']) := Written.tag (Tag.opening tag.tagName tag.written)
    rw [Item.pieces, List.cons_append, List.append_assoc]
    exact Regular.markup hopen (content.regular_append (Regular.markup hclose h) (by simp))

theorem Content.regular_append : ∀ (c : Content) {ps : List Piece}, Regular ps →
    (∀ u, ps.head? ≠ some (.run u)) → Regular (c.pieces ++ ps)
  | .last _, _, h, hnext => regular_runPieces_append h hnext
  | .cons run item rest, ps, h, hnext => by
    rw [Content.pieces, List.append_assoc, List.append_assoc]
    exact regular_runPieces_append (item.regular_append (rest.regular_append h hnext))
      (item.head?_pieces _)

end

namespace Tree

variable (d : Tree)

theorem written_declaration : Written .declaration d.declaration := by
  refine Written.declaration ?_ ?_
  · rintro ⟨s, t, h⟩
    have hmem : '>' ∈ "DOCTYPE".toList ++ d.doctype := h ▸ by simp
    exact (List.mem_append.1 hmem).elim (by decide) d.doctype_ends
  · rintro (h | h)
    · simp at h
    · simp at h

theorem regular_pieces : Regular d.pieces := by
  have hepilog : Regular d.epilog.pieces := by
    simpa using d.epilog.regular_append Regular.nil (by simp)
  have hmisc : Regular (d.misc.pieces ++ (d.rootItem.pieces ++ d.epilog.pieces)) :=
    d.misc.regular_append (d.rootItem.regular_append hepilog) (d.rootItem.head?_pieces _)
  exact d.prolog.regular_append (Regular.markup d.written_declaration hmisc) (by simp)

/-- **A written tree is cut into the pieces of the tree.** -/
theorem pieces_render : Mapper.pieces d.render = d.pieces := by
  rw [← d.flatMap_pieces]
  exact d.regular_pieces.pieces_flatMap

end Tree

/-! ## The text nodes of a tree -/

/-- Where the text inside open elements stands. -/
def position? : List OpenElement → Option Position
  | [] => none
  | e :: around =>
    some ⟨e.name, (e :: around).find? fun e => statementNames.contains e.name⟩

theorem toList_textNode? (around : List OpenElement) (start : Nat) (t : Text) (verbatim : Bool) :
    (textNode? around start t verbatim).toList = nodesAt (position? around) start t verbatim := by
  cases around with
  | nil => rfl
  | cons e around =>
    simp only [textNode?, position?, nodesAt, Bool.or_eq_true, List.contains_iff_mem]
    split <;> rfl

theorem valueOf?_valued (name : Text) (as : List (Text × Text)) :
    valueOf? name (valued as) = as.lookup name := by
  induction as with
  | nil => rfl
  | cons a as ih =>
    obtain ⟨n, v⟩ := a
    rw [List.lookup_cons, ← ih]
    by_cases h : name = n
    · simp [valueOf?, valued, h]
    · have hbeq : (name == n) = false := by simpa using h
      simp [valueOf?, valued, hbeq, Ne.symm h]

/-- An element that is opened is the position of what comes next. -/
theorem position?_cons (tag : StartTag) (start : Nat) (around : List OpenElement) :
    position? (⟨tag.name, tag.value? "id", start⟩ :: around) =
      some (Position.inside (position? around) tag start) := by
  by_cases h : tag.name ∈ statementNames
  · simp [position?, Position.inside, h]
  · cases around <;> simp [position?, Position.inside, h]

/-- A closing tag closes the element that was opened last. -/
theorem closeElement_cons (name : Text) (id : Option Text) (start : Nat)
    (around : List OpenElement) : closeElement name (⟨name, id, start⟩ :: around) = around := by
  simp [closeElement]

theorem textNodes_runPieces_append (around : List OpenElement) (start : Nat) (t : Text)
    (ps : List Piece) :
    textNodes around start (runPieces t ++ ps) =
      nodesAt (position? around) start t false ++ textNodes around (start + byteSize t) ps := by
  unfold runPieces
  split
  · next h =>
    subst h
    have hnone : nodesAt (position? around) start [] false = [] := by
      cases around with
      | nil => rfl
      | cons e around => exact if_pos (Or.inr rfl)
    simp [hnone]
  · rw [List.singleton_append, textNodes, toList_textNode?]
    rfl

mutual

/-- The elements that are open are the same after an item as before it. -/
theorem Item.textNodes_append : ∀ (i : Item) (around : List OpenElement) (start : Nat)
    (ps : List Piece), textNodes around start (i.pieces ++ ps) =
      i.nodes (position? around) start ++ textNodes around (start + byteSize i.render) ps
  | .comment _, _, _, _ | .instruction _, _, _, _ | .empty _, _, _, _ => rfl
  | .section x, around, start, ps => by
    rw [Item.pieces, List.singleton_append, textNodes, toList_textNode?]
    rfl
  | .element tag content space, around, start, ps => by
    rw [Item.pieces, List.cons_append, List.append_assoc, textNodes, valueOf?_valued]
    have hid : tag.attributes.lookup "id".toList = tag.value? "id" := rfl
    rw [hid, content.textNodes_append, position?_cons, List.singleton_append, textNodes,
      closeElement_cons, Item.nodes, Item.render]
    simp only [Piece.text, byteSize_append, Nat.add_assoc]

theorem Content.textNodes_append : ∀ (c : Content) (around : List OpenElement) (start : Nat)
    (ps : List Piece), textNodes around start (c.pieces ++ ps) =
      c.nodes (position? around) start ++ textNodes around (start + byteSize c.render) ps
  | .last run, around, start, ps => textNodes_runPieces_append around start run.1 ps
  | .cons run item rest, around, start, ps => by
    rw [Content.pieces, List.append_assoc, List.append_assoc, textNodes_runPieces_append,
      item.textNodes_append, rest.textNodes_append, Content.nodes, Content.render]
    simp only [byteSize_append, Nat.add_assoc, List.append_assoc]

end

/-- Outside all elements there are no nodes. -/
theorem Content.nodes_of_isMisc {c : Content} (h : c.isMisc = true) (start : Nat) :
    c.nodes none start = [] := by
  match c with
  | .last _ => rfl
  | .cons run item rest =>
    simp only [Content.isMisc, Bool.and_eq_true] at h
    have hitem : ∀ start, item.nodes none start = [] := by
      intro start
      cases item with
      | comment x => rfl
      | instruction x => rfl
      | «section» x => rfl
      | empty tag => rfl
      | element tag content space => exact absurd h.1.2 (by simp [Item.isMisc])
    rw [Content.nodes, hitem, rest.nodes_of_isMisc h.2]
    rfl

theorem Tree.textNodes_pieces (d : Tree) :
    textNodes [] 0 d.pieces = d.rootItem.nodes none d.rootStart := by
  have hepilog : ∀ start, textNodes [] start d.epilog.pieces = [] := by
    intro start
    have h := d.epilog.textNodes_append [] start []
    rw [List.append_nil, position?, Content.nodes_of_isMisc d.epilog_isMisc] at h
    exact h
  rw [Tree.pieces, Content.textNodes_append, position?, Content.nodes_of_isMisc d.prolog_isMisc,
    List.nil_append, textNodes, Content.textNodes_append, position?,
    Content.nodes_of_isMisc d.misc_isMisc, List.nil_append, Item.textNodes_append, hepilog,
    List.append_nil]
  simp only [Piece.text, position?, Tree.rootStart, Nat.zero_add]

/-! ## The namespace of a tree -/

theorem namespaceOf?_opening (name : Text) (as : List Attribute) (w : Text) :
    namespaceOf? (.markup (.opening name as) w) =
      if name = rootName then some (valueOf? "namespace".toList as) else none := rfl

theorem namespaceOf?_empty (name : Text) (as : List Attribute) (w : Text) :
    namespaceOf? (.markup (.empty name as) w) =
      if name = rootName then some (valueOf? "namespace".toList as) else none := rfl

theorem namespaces_runPieces (t : Text) : (runPieces t).filterMap namespaceOf? = [] := by
  unfold runPieces
  split <;> rfl

mutual

theorem Item.namespaces_eq_nil : ∀ i : Item, rootName ∉ i.elementNames →
    i.pieces.filterMap namespaceOf? = []
  | .comment _, _ | .instruction _, _ | .section _, _ => rfl
  | .empty tag, h => by
    rw [Item.elementNames, List.mem_singleton] at h
    exact List.filterMap_cons_none ((namespaceOf?_empty _ _ _).trans (if_neg (Ne.symm h)))
  | .element tag content space, h => by
    rw [Item.elementNames, List.mem_cons, not_or] at h
    rw [Item.pieces, List.filterMap_cons_none
      ((namespaceOf?_opening _ _ _).trans (if_neg (Ne.symm h.1))), List.filterMap_append,
      content.namespaces_eq_nil h.2]
    rfl

theorem Content.namespaces_eq_nil : ∀ c : Content, rootName ∉ c.elementNames →
    c.pieces.filterMap namespaceOf? = []
  | .last run, _ => namespaces_runPieces run.1
  | .cons run item rest, h => by
    rw [Content.elementNames, List.mem_append, not_or] at h
    rw [Content.pieces, List.filterMap_append, List.filterMap_append, namespaces_runPieces,
      item.namespaces_eq_nil h.1, rest.namespaces_eq_nil h.2]
    rfl

end

theorem Content.elementNames_of_isMisc {c : Content} (h : c.isMisc = true) :
    c.elementNames = [] := by
  match c with
  | .last _ => rfl
  | .cons run item rest =>
    simp only [Content.isMisc, Bool.and_eq_true] at h
    rw [Content.elementNames, rest.elementNames_of_isMisc h.2, List.append_nil]
    cases item with
    | comment x => rfl
    | instruction x => rfl
    | _ => exact absurd h.1.2 (by simp [Item.isMisc])

theorem Content.namespaces_of_isMisc {c : Content} (h : c.isMisc = true) :
    c.pieces.filterMap namespaceOf? = [] :=
  c.namespaces_eq_nil (by rw [Content.elementNames_of_isMisc h]; exact List.not_mem_nil)

namespace Tree

variable (d : Tree)

theorem namespaces_rootItem :
    d.rootItem.pieces.filterMap namespaceOf? = [d.root.value? "namespace"] := by
  have hroot := valueOf?_valued "namespace".toList d.root.attributes
  unfold rootItem
  split
  · rw [Item.pieces, List.filterMap_cons_some
      ((namespaceOf?_empty _ _ _).trans (if_pos d.root_name)), hroot]
    rfl
  · next content space hbody =>
    rw [Item.pieces, List.filterMap_cons_some
      ((namespaceOf?_opening _ _ _).trans (if_pos d.root_name)), List.filterMap_append,
      content.namespaces_eq_nil (d.root_only _ hbody), hroot]
    rfl

theorem namespaces_pieces : d.pieces.filterMap namespaceOf? = [d.root.value? "namespace"] := by
  rw [Tree.pieces, List.filterMap_append, Content.namespaces_of_isMisc d.prolog_isMisc,
    List.nil_append, List.filterMap_cons_none rfl, List.filterMap_append,
    Content.namespaces_of_isMisc d.misc_isMisc, List.nil_append, List.filterMap_append,
    Content.namespaces_of_isMisc d.epilog_isMisc, List.append_nil, d.namespaces_rootItem]

end Tree

/-! ## The document type -/

/-- Whether the start of a document type declaration stands in a text, in any letter case. -/
def mentionsType : Text → Bool
  | [] => false
  | c :: t => (stripWord? "<!doctype".toList (c :: t)).isSome || mentionsType t

/-- A word is not read across a character that is none of its letters. -/
theorem stripWord?_append_cons {w : Text} {c : Char} (hw : ∀ l ∈ w, sameLetter l c = false)
    (s t : Text) : stripWord? w (s ++ c :: t) = (stripWord? w s).map (· ++ c :: t) := by
  induction w generalizing s with
  | nil => rfl
  | cons l w ih =>
    cases s with
    | nil => simp [stripWord?, hw l List.mem_cons_self]
    | cons d s =>
      have ih := ih (fun l hl => hw l (List.mem_cons_of_mem _ hl)) s
      simp only [List.cons_append, stripWord?]
      split
      · exact ih
      · rfl

/-- A text that mentions no document type does not hide one behind it. -/
theorem doctype?_append_of_mentionsType {s : Text} (h : mentionsType s = false) (t : Text) :
    doctype? (s ++ '<' :: t) = doctype? ('<' :: t) := by
  induction s with
  | nil => rfl
  | cons c s ih =>
    rw [mentionsType, Bool.or_eq_false_iff, Option.isSome_eq_false_iff,
      Option.isNone_iff_eq_none] at h
    have hnone : stripWord? "<!doctype".toList (c :: s ++ '<' :: t) = none := by
      have hletters : ∀ l ∈ "!doctype".toList, sameLetter l '<' = false := by decide
      have hword : "<!doctype".toList = '<' :: "!doctype".toList := rfl
      have hs := h.1
      rw [hword, stripWord?] at hs
      rw [hword, List.cons_append, stripWord?, stripWord?_append_cons hletters]
      split at hs
      · next hc => rw [if_pos hc, hs]; rfl
      · next hc => rw [if_neg hc]
    rw [List.cons_append] at hnone ⊢
    rw [doctype?, hnone]
    exact ih h.2

namespace Tree

variable (d : Tree)

theorem isMapper_render (h : mentionsType d.prolog.render = false) : isMapper d.render = true := by
  obtain ⟨rest, hrest⟩ : ∃ rest, d.render =
      d.prolog.render ++ ('<' :: ("!DOCTYPE".toList ++ (d.doctype ++ '>' :: rest))) :=
    ⟨d.misc.render ++ (d.rootItem.render ++ d.epilog.render), by
      simp [render, declaration, enclose]⟩
  have hcut : cut? '>' (d.doctype ++ '>' :: rest) = some (d.doctype, rest) :=
    cut?_eq_some_iff.2 ⟨rfl, d.doctype_ends⟩
  have htype : doctype? d.render = some d.doctype := by
    rw [hrest, doctype?_append_of_mentionsType h, doctype?]
    have hstrip : stripWord? "<!doctype".toList
        ('<' :: ("!DOCTYPE".toList ++ (d.doctype ++ '>' :: rest))) =
          some (d.doctype ++ '>' :: rest) := rfl
    rw [hstrip]
    simp only [hcut, Option.map_some]
  rw [isMapper, htype]
  exact d.doctype_isMapper

/-- **A written tree is read as the document of the tree if it is taken for a mapper, and it is
whenever no document type is mentioned before its own.** -/
theorem parse?_render :
    Document.parse? d.render = (if isMapper d.render then some d.document else none) ∧
      (mentionsType d.prolog.render = false → isMapper d.render = true) := by
  refine ⟨?_, d.isMapper_render⟩
  rw [Document.parse?]
  simp only [pieces_render, namespaces_pieces, textNodes_pieces]
  rfl

end Tree

/-! ### Two mappers -/

theorem attributes_quoted {as : List (Text × Text)}
    (h : ∀ a ∈ as, a.1 ≠ [] ∧ (∀ c ∈ a.1, isAttributeChar c = true) ∧ '"' ∉ a.2) :
    Attributes (valued as) (as.flatMap fun a => quoted a.1 a.2) := by
  induction as with
  | nil => exact Attributes.nil (List.forall_mem_nil _)
  | cons a as ih =>
    obtain ⟨hname, hchars, hvalue⟩ := h a List.mem_cons_self
    exact Attributes.quoted hname hchars hvalue (ih fun b hb => h b (List.mem_cons_of_mem _ hb))

/-- A tag with one blank before each attribute. -/
def StartTag.quoted (name : Text) (attributes : List (Text × Text)) (tagName : TagName name)
    (h : ∀ a ∈ attributes, a.1 ≠ [] ∧ (∀ c ∈ a.1, isAttributeChar c = true) ∧ '"' ∉ a.2) :
    StartTag :=
  ⟨name, attributes, attributes.flatMap fun a => Mapper.quoted a.1 a.2, tagName,
    attributes_quoted h⟩

/-- No text. -/
def Run.none : Run := ⟨[], List.not_mem_nil⟩

/-- The tag of a root element. -/
def mapperTag : StartTag :=
  StartTag.quoted "mapper".toList [("namespace".toList, "a.B".toList)]
    ⟨'m', "apper".toList, rfl, by decide, by decide⟩ (by decide)

/-- The tag of a statement, one of whose attributes looks like markup. -/
def selectTag : StartTag :=
  StartTag.quoted "select".toList [("title".toList, "<a> id='x'".toList), ("id".toList, "q".toList)]
    ⟨'s', "elect".toList, rfl, by decide, by decide⟩ (by decide)

/-- The tag of an element that is no statement. -/
def whereTag : StartTag :=
  StartTag.quoted "where".toList [] ⟨'w', "here".toList, rfl, by decide, by decide⟩ (by decide)

/-- A statement with an element in it that holds a section. -/
def selectItem : Item :=
  .element selectTag
    (.cons ⟨"from t ".toList, by decide⟩
      (.element whereTag
        (.cons Run.none (.section ⟨"a < 1 </where>".toList, by decide⟩) (.last Run.none))
        ⟨[], by decide⟩)
      (.last ⟨"\n".toList, by decide⟩))
    ⟨[], by decide⟩

/-- A mapper with an instruction before its document type. -/
def mapperAfter (x : Enclosed "?>") : Tree where
  prolog := .cons Run.none (.instruction x) (.last ⟨"\n".toList, by decide⟩)
  doctype := " mapper PUBLIC \"-//mybatis.org//DTD Mapper 3.0//EN\" \"mybatis-3-mapper.dtd\"".toList
  misc := .cons ⟨"\n".toList, by decide⟩ (.comment ⟨" <mapper> ".toList, by decide⟩) (.last Run.none)
  root := mapperTag
  body := some (.cons Run.none selectItem (.last Run.none), ⟨[], by decide⟩)
  epilog := .last ⟨"\n".toList, by decide⟩
  prolog_isMisc := rfl
  misc_isMisc := by decide
  epilog_isMisc := by decide
  doctype_ends := by decide
  doctype_isMapper := by decide +kernel
  root_name := rfl
  root_only := by decide

namespace Tree

/-- A mapper whose first instruction is the usual one. -/
def declared : Tree := mapperAfter ⟨"xml version=\"1.0\"".toList, by decide⟩

theorem parse?_render_declared :
    mentionsType declared.prolog.render = false ∧
      Document.parse? declared.render = some declared.document ∧
      declared.document.nodes.map (fun n => (n.text, n.parent, n.statementId)) =
        [("from t ".toList, "select".toList, some "q".toList),
          ("a < 1 </where>".toList, "where".toList, some "q".toList)] := by
  have h : mentionsType declared.prolog.render = false := by decide +kernel
  obtain ⟨hparse, hmapper⟩ := declared.parse?_render
  rw [if_pos (hmapper h)] at hparse
  exact ⟨h, hparse, by decide +kernel⟩

/-- The same mapper with a document type in its first instruction. -/
def hiddenType : Tree := mapperAfter ⟨"note <!DOCTYPE x>".toList, by decide⟩

/-- It is not taken for a mapper, although it has the same texts. -/
theorem parse?_render_hiddenType :
    Document.parse? hiddenType.render = none ∧ hiddenType.document.nodes.length = 2 :=
  ⟨Option.isNone_iff_eq_none.1 (by decide +kernel), by decide +kernel⟩

end Tree

end SqlInjection.Mapper
