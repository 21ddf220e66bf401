import Mathlib.Data.List.Pairwise
import SqlInjection.Detector.MapperDocument
import SqlInjection.Proofs.Mapper.Nodes

/-!
# Which fixes of a mapper are applied

A text node that is flagged is given a new text by one edit. A node that cannot be bound completely
also gets a comment, on a line of its own above the line where its statement starts. That line may
start inside another node: then the comment goes there first, and the edit of the other node is
dropped although its values could be bound. `applied_iff_no_comment_inside` says that this is the
only way for it to happen.
-/

namespace SqlInjection

open Text Mapper

/-! ## The edits of a detection -/

/-- The binder for the text of a node, in a section or outside of one. -/
abbrev nodeBinder (c : Settings) (verbatim : Bool) : Binder := ⟨c.ignore, !verbatim, !verbatim⟩

/-- The text of a node after its values are bound, if any is flagged. -/
def nodeText (c : Settings) (verbatim : Bool) (t : Text) : Text :=
  if ((nodeBinder c verbatim).remainingRisk t).isRisky then ((nodeBinder c verbatim).fix t).text
  else t

/-- The comment that a node gets, if it has to get one. -/
def nodeComment? (d : Document) (n : TextNode) (r : Binder.Outcome) : Option Edit :=
  if r.complete then none else (adviseAt? .xml d.source n.anchor).bind id

variable {c : Settings} {d : Document} {n : TextNode} {x : Detection}

theorem inspectNode_eq_none_iff :
    inspectNode c d n = none ↔ (nodeBinder c n.verbatim).remainingRisk n.text = .safe := by
  have hbinder : n.binder c.ignore = nodeBinder c n.verbatim := rfl
  rw [inspectNode, hbinder]
  cases (nodeBinder c n.verbatim).remainingRisk n.text <;> simp [Risk.isRisky]

/-- All there is to a detection for a node. -/
theorem inspectNode_inv (h : inspectNode c d n = some x) :
    let r := (nodeBinder c n.verbatim).fix n.text
    nodeText c n.verbatim n.text = r.text ∧
      ((nodeBinder c n.verbatim).remainingRisk n.text).isRisky = true ∧
      x.fix.edits = (nodeEdit? (nodeText c) n).toList ++ (nodeComment? d n r).toList ∧
      x.fix.status = if r.complete then .fixed else .unresolved := by
  intro r
  simp only [inspectNode] at h
  split at h
  · rename_i hrisky
    have htext : nodeText c n.verbatim n.text = r.text := if_pos hrisky
    obtain rfl := Option.some.inj h
    have hedits : (if r.text = n.text then [] else [⟨n.span, r.text⟩]) =
        (nodeEdit? (nodeText c) n).toList := by
      simp only [nodeEdit?, htext]
      split <;> rfl
    refine ⟨htext, hrisky, ?_, ?_⟩
    · show (nodeFix d n r).edits = _
      rw [nodeFix, nodeComment?, ← hedits]
      cases r.complete <;> simp [Fix.binding, Fix.withAdvisory]
    · show (nodeFix d n r).status = _
      rw [nodeFix]
      cases r.complete <;> rfl
  · cases h

/-- A node that is not flagged keeps its text. -/
theorem nodeEdit?_of_inspectNode_none (h : inspectNode c d n = none) :
    nodeEdit? (nodeText c) n = none := by
  have htext : nodeText c n.verbatim n.text = n.text := by
    rw [nodeText, inspectNode_eq_none_iff.1 h]
    rfl
  simp only [nodeEdit?, htext, if_true]

/-- A fixed node is bound completely. -/
theorem complete_of_fixed (h : inspectNode c d n = some x) (hfixed : x.fix.status = .fixed) :
    ((nodeBinder c n.verbatim).fix n.text).complete = true := by
  obtain ⟨-, -, -, hstatus⟩ := inspectNode_inv h
  by_contra hne
  rw [if_neg hne, hfixed] at hstatus
  cases hstatus

/-- A fixed node is given another text, and nothing else is done for it. -/
theorem edits_of_fixed (h : inspectNode c d n = some x) (hfixed : x.fix.status = .fixed) :
    x.fix.edits = [⟨n.span, ((nodeBinder c n.verbatim).fix n.text).text⟩] := by
  obtain ⟨htext, hrisky, hedits, -⟩ := inspectNode_inv h
  have hcomplete := complete_of_fixed h hfixed
  -- the old text carries a risk and the new one does not
  have hnew : ((nodeBinder c n.verbatim).fix n.text).text ≠ n.text := by
    intro heq
    have hsafe : (!((nodeBinder c n.verbatim).remainingRisk
        ((nodeBinder c n.verbatim).fix n.text).text).isRisky) = true := hcomplete
    rw [heq, hrisky] at hsafe
    cases hsafe
  rw [hedits, nodeComment?, if_pos hcomplete, Option.toList_none, List.append_nil]
  simp only [nodeEdit?, htext, if_neg hnew, Option.toList_some]

/-- A comment is inserted between two characters of the source. -/
theorem adviseAt?_inv {style : CommentStyle} {source : Text} {k : Nat} {e : Edit}
    (h : (adviseAt? style source k).bind id = some e) :
    e.span.stop = e.span.start ∧ e.Fits source := by
  obtain ⟨o, ho, he⟩ := Option.bind_eq_some_iff.1 h
  obtain ⟨⟨before, line⟩, hline, ho⟩ := Option.map_eq_some_iff.1 ho
  simp only at ho
  split at ho
  · subst ho
    cases he
  · subst ho
    obtain rfl := Option.some.inj he
    obtain ⟨⟨l, r⟩, hsplit, heq⟩ := Option.map_eq_some_iff.1 hline
    obtain ⟨hbefore, rfl⟩ := Prod.mk.inj heq
    obtain ⟨rfl, -⟩ := splitAt?_eq_some_iff.1 hsplit
    refine ⟨rfl, before, [], (l.reverse.takeWhile (· != '\n')).reverse ++ r, ?_, rfl⟩
    have hl : (l.reverse.dropWhile (· != '\n')).reverse ++
        (l.reverse.takeWhile (· != '\n')).reverse = l := by
      rw [← List.reverse_append, List.takeWhile_append_dropWhile, List.reverse_reverse]
    rw [List.nil_append, ← List.append_assoc, ← hbefore, hl]

/-! ## The edits of a mapper -/

/-- The edits that fixing applies to a mapper. -/
def mapperEdits (c : Settings) (d : Document) : List Edit :=
  (detectInMapper c d).flatMap fun x => x.fix.edits

/-- The edits that give nodes new texts. -/
def bindingEdits (c : Settings) (d : Document) : List Edit :=
  d.nodes.filterMap (nodeEdit? (nodeText c))

theorem mem_detectInMapper : x ∈ detectInMapper c d ↔ ∃ n ∈ d.nodes, inspectNode c d n = some x :=
  List.mem_filterMap

/-- An edit of a mapper gives a node a new text or inserts a comment. -/
theorem mem_mapperEdits {e : Edit} (h : e ∈ mapperEdits c d) :
    e ∈ bindingEdits c d ∨ e.span.stop = e.span.start ∧ e.Fits d.source := by
  obtain ⟨x, hx, he⟩ := List.mem_flatMap.1 h
  obtain ⟨n, hn, hinspect⟩ := mem_detectInMapper.1 hx
  obtain ⟨-, -, hedits, -⟩ := inspectNode_inv hinspect
  rw [hedits] at he
  rcases List.mem_append.1 he with he | he
  · exact Or.inl (List.mem_filterMap.2 ⟨n, hn, by simpa using he⟩)
  · rw [nodeComment?] at he
    split at he
    · cases he
    · exact Or.inr (adviseAt?_inv (by simpa using he))

section Parsed

variable {source : Text} (hd : Document.parse? source = some d)
include hd

theorem source_of_parse? : d.source = source := by
  rw [Document.parse?] at hd
  split at hd
  · rw [← Option.some.inj hd]
  · cases hd

theorem nodes_of_parse? : d.nodes = textNodes [] 0 (pieces source) := by
  rw [Document.parse?] at hd
  split at hd
  · rw [← Option.some.inj hd]
  · cases hd

/-- Giving nodes new texts is rewriting the pieces of the source. -/
theorem splices_bindingEdits (c : Settings) :
    Splices 0 source (bindingEdits c d)
      ((rewrite (nodeText c) [] (pieces source)).flatMap Piece.text) := by
  have h := splices_textNodes (nodeText c) [] 0 fun x w h => section_of_mem_pieces (t := source) h
  rw [pieces_flatten, ← nodes_of_parse? hd] at h
  exact h

theorem start_lt_stop_of_mem_bindingEdits {e : Edit} (h : e ∈ bindingEdits c d) :
    e.span.start < e.span.stop := by
  obtain ⟨n, hn, he⟩ := List.mem_filterMap.1 h
  rw [nodes_of_parse? hd] at hn
  simp only [nodeEdit?] at he
  split at he
  · cases he
  · rw [← Option.some.inj he]
    exact start_lt_stop_of_mem_textNodes hn

theorem fits_of_mem_mapperEdits {e : Edit} (h : e ∈ mapperEdits c d) : e.Fits source := by
  rcases mem_mapperEdits h with h | ⟨-, h⟩
  · exact (splices_bindingEdits hd c).fits h
  · exact source_of_parse? hd ▸ h

/-- The edits of two nodes do not overlap. -/
theorem disjoint_of_mem_bindingEdits {e e' : Edit} (he : e ∈ bindingEdits c d)
    (he' : e' ∈ bindingEdits c d) (hne : e' ≠ e) :
    e'.span.stop ≤ e.span.start ∨ e.span.stop ≤ e'.span.start := by
  have hdisjoint : (bindingEdits c d).Pairwise fun a b =>
      a.span.stop ≤ b.span.start ∨ b.span.stop ≤ a.span.start :=
    (splices_bindingEdits hd c).pairwise.2.imp Or.inl
  have : Std.Symm fun a b : Edit => a.span.stop ≤ b.span.start ∨ b.span.stop ≤ a.span.start :=
    ⟨fun _ _ h => h.symm⟩
  exact hdisjoint.forall he' he hne

/-- The edit of a node is applied exactly when no comment is inserted inside the node. -/
theorem mem_accepted_mapperEdits_iff {e : Edit} (he : e ∈ bindingEdits c d)
    (hmem : e ∈ mapperEdits c d) :
    e ∈ Edit.accepted source (mapperEdits c d) ↔
      ∀ y ∈ detectInMapper c d, ∀ p t, Edit.insert p t ∈ y.fix.edits →
        ¬ (e.span.start < p ∧ p < e.span.stop) := by
  have hspan := start_lt_stop_of_mem_bindingEdits hd he
  have hothers : ∀ x ∈ mapperEdits c d, x ≠ e → x.span.start < x.span.stop →
      x.span.stop ≤ e.span.start ∨ e.span.stop ≤ x.span.start := by
    intro x hx hne hlt
    refine disjoint_of_mem_bindingEdits hd he ((mem_mapperEdits hx).resolve_right ?_) hne
    rintro ⟨hempty, -⟩
    omega
  have hbounds : ∀ x ∈ mapperEdits c d,
      x.span.start ≤ x.span.stop ∧ x.span.stop ≤ byteSize source := fun x hx =>
    (fits_of_mem_mapperEdits hd hx).bounds
  rw [Edit.mem_accepted_iff hmem hspan (hbounds e hmem).2 hothers hbounds]
  constructor
  · intro hnone y hy p t hp
    exact hnone (Edit.insert p t) (List.mem_flatMap.2 ⟨y, hy, hp⟩)
  · -- whatever starts inside the node is a comment
    rintro hnone ⟨⟨start, stop⟩, text⟩ hx ⟨hstart, hstop⟩
    have hempty : stop = start := by
      rcases mem_mapperEdits hx with h | h
      · have hlt := start_lt_stop_of_mem_bindingEdits hd h
        have := hothers _ hx (fun heq => by rw [← heq] at hstart; exact Nat.lt_irrefl _ hstart) hlt
        simp only at hstart hstop hlt this
        omega
      · exact h.1
    subst hempty
    obtain ⟨y, hy, hxy⟩ := List.mem_flatMap.1 hx
    exact hnone y hy _ text hxy ⟨hstart, hstop⟩

/-- **A fixed node is given its new text exactly when no comment is inserted inside it.** All edits
of a mapper together can be applied. The edit of a node that counts as fixed is applied, and its new
text stands in the new source, exactly when no comment for another node goes strictly inside its
span; else it is dropped. -/
theorem applied_iff_no_comment_inside (c : Settings) :
    ∃ new, applyEdits? source (mapperEdits c d) = some new ∧
      Splices 0 source (Edit.accepted source (mapperEdits c d)) new ∧
      ∀ n ∈ d.nodes, ∀ x, inspectNode c d n = some x → x.fix.status = .fixed →
        ∃ text, text = ((n.binder c.ignore).fix n.text).text ∧ x.fix.edits = [⟨n.span, text⟩] ∧
          (⟨n.span, text⟩ ∈ Edit.accepted source (mapperEdits c d) → text <:+: new) ∧
          (⟨n.span, text⟩ ∈ Edit.accepted source (mapperEdits c d) ↔
            ∀ y ∈ detectInMapper c d, ∀ p t, Edit.insert p t ∈ y.fix.edits →
              ¬ (n.span.start < p ∧ p < n.span.stop)) := by
  obtain ⟨new, hnew⟩ := exists_applyEdits? fun e he => fits_of_mem_mapperEdits hd (c := c) he
  have hsplices := applyEdits?_eq_some_iff.1 hnew
  refine ⟨new, hnew, hsplices, fun n hn x hx hfixed => ?_⟩
  have hedits := edits_of_fixed hx hfixed
  have hmem : ⟨n.span, ((nodeBinder c n.verbatim).fix n.text).text⟩ ∈ mapperEdits c d := by
    refine List.mem_flatMap.2 ⟨x, mem_detectInMapper.2 ⟨n, hn, hx⟩, ?_⟩
    rw [hedits]
    exact List.mem_cons_self
  have hbinding := (mem_mapperEdits hmem).resolve_right fun h => by
    rw [nodes_of_parse? hd] at hn
    exact Nat.ne_of_gt (start_lt_stop_of_mem_textNodes hn) h.1
  exact ⟨_, rfl, hedits, fun h => hsplices.replacement_isInfix h,
    mem_accepted_mapperEdits_iff hd hbinding hmem⟩

end Parsed

/-- A mapper with a statement that can be bound and one that cannot, each on a line of its own. -/
def twoLineMapper : Text :=
  ("<!DOCTYPE mapper SYSTEM \"mybatis.org/mapper.dtd\"><mapper>\n" ++
    "<select>where id = $\x7bid\x7d\n </select>\n" ++
    "<select><![CDATA[where id in ($\x7bids\x7d)]]></select></mapper>").toList

theorem applied_in_twoLineMapper :
    ∃ d, Document.parse? twoLineMapper = some d ∧ ∃ n ∈ d.nodes, ∃ x,
      inspectNode .builtin d n = some x ∧ x.fix.status = .fixed ∧
      ⟨n.span, ((n.binder Settings.builtin.ignore).fix n.text).text⟩ ∈
        Edit.accepted twoLineMapper (mapperEdits .builtin d) := by
  have heval : ∃ d ∈ Document.parse? twoLineMapper, ∃ n ∈ d.nodes,
      ∃ x ∈ inspectNode .builtin d n, x.fix.status = .fixed ∧
        ∀ y ∈ detectInMapper .builtin d, ∀ e ∈ y.fix.edits,
          ¬ (n.span.start < e.span.start ∧ e.span.start < n.span.stop) := by decide +kernel
  obtain ⟨d, hd, n, hn, x, hx, hfixed, hnone⟩ := heval
  obtain ⟨new, -, -, hall⟩ := applied_iff_no_comment_inside hd .builtin
  obtain ⟨text, rfl, -, -, hiff⟩ := hall n hn x hx hfixed
  exact ⟨d, hd, n, hn, x, hx, hfixed, hiff.2 fun y hy p t h => hnone y hy _ h⟩

/-- A mapper where the tag of a statement that cannot be bound stands on the last line of another
statement. -/
def sharedLineMapper : Text :=
  ("<!DOCTYPE mapper SYSTEM \"mybatis.org/mapper.dtd\"><mapper><select>where id = $\x7bid\x7d\n " ++
    "</select><select><![CDATA[where id in ($\x7bids\x7d)]]></select></mapper>").toList

/-- A node that counts as fixed and is left as it was: the comment for the statement behind it goes
inside it. -/
theorem fixed_edit_dropped :
    ∃ d ∈ Document.parse? sharedLineMapper,
      ∃ new ∈ applyEdits? sharedLineMapper (mapperEdits .builtin d),
        ∃ x ∈ detectInMapper .builtin d, x.fix.status = .fixed ∧ ∃ e ∈ x.fix.edits,
          e ∉ Edit.accepted sharedLineMapper (mapperEdits .builtin d) ∧
            Text.contains new e.replacement = false := by
  -- the edits come in order already, so that they need not be sorted to be evaluated
  have heval : ∃ d ∈ Document.parse? sharedLineMapper,
      (mapperEdits .builtin d).Pairwise (fun a b => a.span.start < b.span.start) ∧
      ∃ s ∈ (mapperEdits .builtin d).reverse.foldlM Splice.apply? ⟨sharedLineMapper, []⟩,
        ∃ x ∈ detectInMapper .builtin d, x.fix.status = .fixed ∧ ∃ e ∈ x.fix.edits,
          e ∉ Edit.acceptedBelow (byteSize sharedLineMapper) (mapperEdits .builtin d).reverse ∧
            Text.contains (s.left ++ s.done) e.replacement = false := by decide +kernel
  obtain ⟨d, hd, hsorted, s, hs, x, hx, hfixed, e, he, hdropped, hnew⟩ := heval
  have hnormal := Edit.normalize_of_pairwise hsorted
  refine ⟨d, hd, s.left ++ s.done, ?_, x, hx, hfixed, e, he, ?_, hnew⟩
  · rw [applyEdits?, hnormal, Option.mem_def.1 hs]
    rfl
  · rwa [Edit.accepted, hnormal, List.mem_reverse]

end SqlInjection
