import SqlInjection.Mapper.Markup
import SqlInjection.Text.Case

/-!
# Mappers

A mapper is a document that declares the mapper document type. Of interest are its text nodes: the
runs of text and the sections inside the elements of its statements, each with the element it is in
and the statement around it.
-/

namespace SqlInjection.Mapper

/-- The declaration of the document type, from the first place where one starts. -/
def doctype? : Text → Option Text
  | [] => none
  | c :: t =>
    match Text.stripWord? "<!doctype".toList (c :: t) with
    | some rest => (Text.cut? '>' rest).map Prod.fst
    | none => doctype? t

/-- Whether a document declares the mapper document type. -/
def isMapper (source : Text) : Bool :=
  match doctype? source with
  | some d => Text.contains d "mybatis.org".toList && Text.contains d "mapper.dtd".toList
  | none => false

/-- The value of the first attribute with a name that has a value. -/
def valueOf? (name : Text) (attributes : List Attribute) : Option Text :=
  attributes.findSome? fun a => if a.name = name then a.value else none

/-- An element that is open, and the byte offset of its tag. -/
structure OpenElement where
  name : Text
  id : Option Text
  start : Nat
  deriving DecidableEq, Repr

/-- The elements whose own text is not inspected. -/
def skippedParents : List Text := ["mapper".toList, "sql".toList]

/-- The elements that are statements. -/
def statementNames : List Text := ["select", "insert", "update", "delete", "sql"].map String.toList

/-- A text node. -/
structure TextNode where
  text : Text
  span : Span
  /-- Whether the text stands in a section. -/
  verbatim : Bool
  /-- The name of the element that holds the node. -/
  parent : Text
  /-- The name of the statement around the node. -/
  statementId : Option Text
  /-- The byte offset of the statement's tag, or of the node itself if no statement is around it. -/
  anchor : Nat
  deriving DecidableEq, Repr

/-- The node for a text at a byte offset inside the open elements, the innermost first. Blank text
makes none. -/
def textNode? (around : List OpenElement) (start : Nat) (text : Text) (verbatim : Bool) :
    Option TextNode :=
  match around with
  | [] => none
  | parent :: _ =>
    if skippedParents.contains parent.name || Text.blank text then none
    else
      let statement := around.find? fun e => statementNames.contains e.name
      some
        { text
          span := ⟨start, start + Text.byteSize text⟩
          verbatim
          parent := parent.name
          statementId := statement.bind OpenElement.id
          anchor := (statement.map OpenElement.start).getD start }

/-- The elements that are open after a tag that closes `name`: the innermost element of that name is
closed with all that is inside it. A tag that closes no open element changes nothing. -/
def closeElement (name : Text) (around : List OpenElement) : List OpenElement :=
  match around.dropWhile (·.name != name) with
  | [] => around
  | _ :: outer => outer

/-- The number of bytes before the content of a section. -/
def sectionStart : Nat := 9

/-- The text nodes of pieces that start at a byte offset inside the open elements. -/
def textNodes (around : List OpenElement) (start : Nat) : List Piece → List TextNode
  | [] => []
  | p :: ps =>
    let next := start + Text.byteSize p.text
    match p with
    | .run t => (textNode? around start t false).toList ++ textNodes around next ps
    | .markup m _ =>
      match m with
      | .comment | .declaration | .empty _ _ => textNodes around next ps
      | .section content =>
        (textNode? around (start + sectionStart) content true).toList ++ textNodes around next ps
      | .opening name attributes =>
        textNodes (⟨name, valueOf? "id".toList attributes, start⟩ :: around) next ps
      | .closing name => textNodes (closeElement name around) next ps

/-- The namespace that a piece declares: a tag of the root element does, by an attribute or by the
lack of one. -/
def namespaceOf? : Piece → Option (Option Text)
  | .markup (.opening name attributes) _ | .markup (.empty name attributes) _ =>
    if name = "mapper".toList then some (valueOf? "namespace".toList attributes) else none
  | _ => none

/-- A mapper. -/
structure Document where
  source : Text
  namespaceName : Option Text
  nodes : List TextNode
  deriving Repr

namespace Document

/-- The mapper of a source that declares the mapper document type. The last tag of the root element
decides the namespace. -/
def parse? (source : Text) : Option Document :=
  if isMapper source then
    let ps := pieces source
    some ⟨source, ((ps.filterMap namespaceOf?).getLast?).bind id, textNodes [] 0 ps⟩
  else none

/-- The name of the location of a node: its namespace and its statement. -/
def locationName (d : Document) (n : TextNode) : Text :=
  let shown (t : Option Text) : Text := t.getD "null".toList
  shown d.namespaceName ++ '#' :: shown n.statementId

end Document

end SqlInjection.Mapper
