import SqlInjection.Detector.Basic
import SqlInjection.Template.Binding

/-!
# Statements in mapper documents

Each text node of a mapper is inspected by itself. Interpolations where values stand are flagged and
bound in place; what cannot be bound gets a comment above its statement.
-/

namespace SqlInjection

/-- What is said of a statement in a mapper document. -/
def mapperDocumentMessage : String :=
  "Mapper statement interpolates $\x7b\x7d into a value position; use #\x7b\x7d parameters"

/-- The binder for a text node. In a section no elements may be inserted, and entities stand for
themselves. -/
def Mapper.TextNode.binder (n : Mapper.TextNode) (ignore : IgnoreList) : Binder :=
  ⟨ignore, !n.verbatim, !n.verbatim⟩

/-- The fix for a text node. -/
def nodeFix (d : Mapper.Document) (n : Mapper.TextNode) (r : Binder.Outcome) : Fix :=
  let edits := if r.text = n.text then [] else [⟨n.span, r.text⟩]
  if r.complete then Fix.binding edits
  else (Fix.binding edits).withAdvisory ((adviseAt? .xml d.source n.anchor).bind id)

/-- The detection for a text node, if there is one. -/
def inspectNode (c : Settings) (d : Mapper.Document) (n : Mapper.TextNode) : Option Detection :=
  let r := n.binder c.ignore
  if (r.remainingRisk n.text).isRisky then
    some
      { inspection := .mapperDocument
        message := mapperDocumentMessage.toList
        span := n.span
        flagged := n.text
        location := d.locationName n
        fix := nodeFix d n (r.fix n.text) }
  else none

/-- The detections for the text nodes of a mapper. -/
def detectInMapper (c : Settings) (d : Mapper.Document) : List Detection :=
  d.nodes.filterMap (inspectNode c d)

end SqlInjection
