import SqlInjection.Mapper.Document
import SqlInjection.Proofs.Edit.Acceptance
import SqlInjection.Proofs.Mapper.Pieces

/-!
# Text nodes and new texts in their places

The text nodes of a mapper lie one behind the other in its source, so each of them can be given a
new text by an edit. `rewrite` says what pieces come of that, and `splices_textNodes` that it is
what the edits do to the source. What the nodes hold does not depend on where the pieces start
(`map_textNodes`): it is decided by the names of the open elements alone (`contents`).
-/

namespace SqlInjection.Mapper

open Text

/-! ## What text nodes hold -/

/-- Whether a text makes a node inside open elements of these names, the innermost first. -/
def holds : List Text → Text → Bool
  | [], _ => false
  | parent :: _, t => !(skippedParents.contains parent || Text.blank t)

/-- The names of the elements that are open after a tag that closes `name`. -/
def closeName (name : Text) (around : List Text) : List Text :=
  match around.dropWhile (· != name) with
  | [] => around
  | _ :: outer => outer

/-- The texts that make nodes, each with whether it stands in a section. -/
def contents (around : List Text) : List Piece → List (Text × Bool)
  | [] => []
  | .run t :: ps => (if holds around t then [(t, false)] else []) ++ contents around ps
  | .markup m _ :: ps =>
    match m with
    | .section x => (if holds around x then [(x, true)] else []) ++ contents around ps
    | .opening name _ => contents (name :: around) ps
    | .closing name => contents (closeName name around) ps
    | .comment | .declaration | .empty _ _ => contents around ps

theorem map_closeElement (name : Text) (around : List OpenElement) :
    (closeElement name around).map OpenElement.name =
      closeName name (around.map OpenElement.name) := by
  have hdrop : (around.map OpenElement.name).dropWhile (· != name) =
      (around.dropWhile (·.name != name)).map OpenElement.name := by
    rw [List.dropWhile_map]
    rfl
  rw [closeElement, closeName, hdrop]
  cases around.dropWhile (·.name != name) <;> rfl

theorem textNode?_eq_none {around : List OpenElement} {t : Text}
    (h : holds (around.map OpenElement.name) t = false) (start : Nat) (verbatim : Bool) :
    textNode? around start t verbatim = none := by
  cases around with
  | nil => rfl
  | cons parent around =>
    simp only [holds, List.map_cons, Bool.not_eq_false'] at h
    rw [textNode?, if_pos h]

theorem exists_textNode? {around : List OpenElement} {t : Text}
    (h : holds (around.map OpenElement.name) t = true) (start : Nat) (verbatim : Bool) :
    ∃ n, textNode? around start t verbatim = some n ∧ n.text = t ∧ n.verbatim = verbatim ∧
      n.span = ⟨start, start + byteSize t⟩ := by
  cases around with
  | nil => cases h
  | cons parent around =>
    rw [textNode?, if_neg]
    · exact ⟨_, rfl, rfl, rfl, rfl⟩
    · simpa [holds] using h

theorem map_toList_textNode? (around : List OpenElement) (start : Nat) (t : Text)
    (verbatim : Bool) :
    (textNode? around start t verbatim).toList.map (fun n => (n.text, n.verbatim)) =
      if holds (around.map OpenElement.name) t then [(t, verbatim)] else [] := by
  cases h : holds (around.map OpenElement.name) t with
  | false => rw [textNode?_eq_none h]; rfl
  | true =>
    obtain ⟨n, hn, htext, hverbatim, -⟩ := exists_textNode? h start verbatim
    simp [hn, htext, hverbatim]

theorem map_textNodes (around : List OpenElement) (start : Nat) (ps : List Piece) :
    (textNodes around start ps).map (fun n => (n.text, n.verbatim)) =
      contents (around.map OpenElement.name) ps := by
  induction ps generalizing around start with
  | nil => rfl
  | cons p ps ih =>
    cases p with
    | run t => simp only [textNodes, contents, List.map_append, map_toList_textNode?, ih]
    | markup m w =>
      cases m with
      | «section» x => simp only [textNodes, contents, List.map_append, map_toList_textNode?, ih]
      | opening name as => exact ih _ _
      | closing name => simp only [textNodes, contents, ih, map_closeElement]
      | _ => exact ih _ _

theorem run_of_mem_contents {around : List Text} {ps : List Piece} {t : Text}
    (h : (t, false) ∈ contents around ps) : .run t ∈ ps := by
  have hnode : ∀ {around : List Text} {u : Text} {v : Bool},
      (t, false) ∈ (if holds around u then [(u, v)] else []) → t = u ∧ v = false := by
    intro around u v h
    split at h
    · simpa [eq_comm] using h
    · cases h
  induction ps generalizing around with
  | nil => cases h
  | cons p ps ih =>
    cases p with
    | run u =>
      rcases List.mem_append.1 h with h | h
      · rw [(hnode h).1]
        exact List.mem_cons_self
      · exact List.mem_cons_of_mem _ (ih h)
    | markup m w =>
      refine List.mem_cons_of_mem _ ?_
      cases m with
      | «section» x =>
        rcases List.mem_append.1 h with h | h
        · exact Bool.noConfusion (hnode h).2
        · exact ih h
      | _ => exact ih h

/-- A node spans its text, which is not blank. -/
theorem bounds_of_mem_textNodes {around : List OpenElement} {start : Nat} {ps : List Piece}
    {n : TextNode} (h : n ∈ textNodes around start ps) :
    n.span.stop = n.span.start + byteSize n.text ∧ Text.blank n.text = false := by
  have hnode : ∀ around start t verbatim, n ∈ (textNode? around start t verbatim).toList →
      n.span.stop = n.span.start + byteSize n.text ∧ Text.blank n.text = false := by
    intro around start t verbatim hn
    cases hholds : holds (around.map OpenElement.name) t with
    | false =>
      rw [textNode?_eq_none hholds] at hn
      cases hn
    | true =>
      obtain ⟨m, hm, htext, -, hspan⟩ := exists_textNode? hholds start verbatim
      obtain rfl : n = m := by simpa [hm] using hn
      rw [hspan, htext]
      refine ⟨rfl, ?_⟩
      cases around with
      | nil => cases hholds
      | cons parent around =>
        simp only [holds, List.map_cons, Bool.not_eq_true', Bool.or_eq_false_iff] at hholds
        exact hholds.2
  induction ps generalizing around start with
  | nil => cases h
  | cons p ps ih =>
    cases p with
    | run t => exact (List.mem_append.1 h).elim (hnode _ _ _ _) ih
    | markup m w =>
      cases m with
      | «section» x => exact (List.mem_append.1 h).elim (hnode _ _ _ _) ih
      | _ => exact ih h

theorem start_lt_stop_of_mem_textNodes {around : List OpenElement} {start : Nat} {ps : List Piece}
    {n : TextNode} (h : n ∈ textNodes around start ps) : n.span.start < n.span.stop := by
  obtain ⟨hstop, hink⟩ := bounds_of_mem_textNodes h
  have hpos : byteSize n.text ≠ 0 := fun hzero => by
    rw [eq_nil_of_byteSize hzero] at hink
    cases hink
  omega

/-! ## New texts -/

/-- A section as it is written. -/
def sectionText (x : Text) : Text := "<![CDATA[".toList ++ (x ++ "]]>".toList)

theorem sectionText_append (x rest : Text) :
    sectionText x ++ rest = "<![CDATA[".toList ++ (x ++ ("]]>".toList ++ rest)) := by
  unfold sectionText
  rw [List.append_assoc, List.append_assoc]

/-- The pieces with a new text in the place of each node, where `f` gives it for a text in a section
or outside of one. -/
def rewrite (f : Bool → Text → Text) (around : List Text) : List Piece → List Piece
  | [] => []
  | .run t :: ps =>
    (if holds around t then pieces (f false t) else [.run t]) ++ rewrite f around ps
  | .markup m w :: ps =>
    match m with
    | .section x =>
      (if holds around x then .markup (.section (f true x)) (sectionText (f true x))
        else .markup m w) :: rewrite f around ps
    | .opening name _ => .markup m w :: rewrite f (name :: around) ps
    | .closing name => .markup m w :: rewrite f (closeName name around) ps
    | .comment | .declaration | .empty _ _ => .markup m w :: rewrite f around ps

/-- The edit that gives a node its new text, if that is another one. -/
def nodeEdit? (f : Bool → Text → Text) (n : TextNode) : Option Edit :=
  let new := f n.verbatim n.text
  if new = n.text then none else some ⟨n.span, new⟩

theorem filterMap_nodeEdit?_cons (f : Bool → Text → Text) (n : TextNode) (ns : List TextNode) :
    (n :: ns).filterMap (nodeEdit? f) = (nodeEdit? f n).toList ++ ns.filterMap (nodeEdit? f) := by
  cases h : nodeEdit? f n <;> simp [h]

/-- A node between two texts gets its new text. -/
theorem splices_node {start : Nat} {t rest new : Text} {es : List Edit} {n : TextNode}
    (pre post : Text) (f : Bool → Text → Text) (htext : n.text = t)
    (hspan : n.span = ⟨start + byteSize pre, start + byteSize pre + byteSize t⟩)
    (h : Splices (start + byteSize (pre ++ (t ++ post))) rest es new) :
    Splices start (pre ++ (t ++ (post ++ rest))) ((nodeEdit? f n).toList ++ es)
      (pre ++ (f n.verbatim t ++ (post ++ new))) := by
  simp only [nodeEdit?, htext]
  by_cases hsame : f n.verbatim t = t
  · rw [if_pos hsame, hsame]
    have := h.prepend (n := start) (pre ++ (t ++ post))
    simpa using this
  · rw [if_neg hsame]
    refine Splices.edit pre t hspan ?_
    refine Splices.prepend post ?_
    rw [hspan]
    simp only [byteSize_append, ← Nat.add_assoc] at h ⊢
    exact h

/-- **Giving nodes new texts by edits of the source is rewriting the pieces.** -/
theorem splices_textNodes (f : Bool → Text → Text) (around : List OpenElement) (start : Nat)
    {ps : List Piece} (hsections : ∀ x w, .markup (.section x) w ∈ ps → w = sectionText x) :
    Splices start (ps.flatMap Piece.text) ((textNodes around start ps).filterMap (nodeEdit? f))
      ((rewrite f (around.map OpenElement.name) ps).flatMap Piece.text) := by
  induction ps generalizing around start with
  | nil => exact Splices.none _ _
  | cons p ps ih =>
    have hrest : ∀ around start, Splices start (ps.flatMap Piece.text) _ _ := fun around start =>
      ih around start fun x w h => hsections x w (List.mem_cons_of_mem _ h)
    cases p with
    | run t =>
      have hnext := hrest around (start + byteSize t)
      cases hholds : holds (around.map OpenElement.name) t with
      | false =>
        simp only [textNodes, rewrite, textNode?_eq_none hholds, hholds, List.flatMap_cons,
          Piece.text, Option.toList_none, List.nil_append]
        simpa [Piece.text] using hnext.prepend t
      | true =>
        obtain ⟨n, hn, htext, hverbatim, hspan⟩ := exists_textNode? hholds start false
        have hnode := splices_node [] [] f htext
          (by simpa using hspan) (by simpa using hnext)
        rw [hverbatim] at hnode
        simp only [textNodes, rewrite, hn, hholds, if_true, Option.toList_some,
          List.singleton_append, filterMap_nodeEdit?_cons, List.flatMap_append, pieces_flatten]
        exact hnode
    | markup m w =>
      cases m with
      | «section» x =>
        obtain rfl := hsections x w List.mem_cons_self
        have hnext := hrest around (start + byteSize (sectionText x))
        cases hholds : holds (around.map OpenElement.name) x with
        | false =>
          simp only [textNodes, rewrite, textNode?_eq_none hholds, hholds, List.flatMap_cons,
            Piece.text, Option.toList_none, List.nil_append]
          simpa [Piece.text] using hnext.prepend (sectionText x)
        | true =>
          obtain ⟨n, hn, htext, hverbatim, hspan⟩ :=
            exists_textNode? hholds (start + sectionStart) true
          have hopening : sectionStart = byteSize "<![CDATA[".toList := by decide
          simp only [hopening] at hspan
          have hnode := splices_node "<![CDATA[".toList "]]>".toList f htext
            hspan hnext
          rw [hverbatim] at hnode
          simp only [textNodes, rewrite, hn, hholds, if_true, Option.toList_some,
            List.singleton_append, filterMap_nodeEdit?_cons, List.flatMap_cons, Piece.text,
            sectionText_append]
          exact hnode
      | opening name as => exact (hrest _ _).prepend w
      | closing name =>
        have hnext := hrest (closeElement name around) (start + byteSize w)
        rw [map_closeElement] at hnext
        exact hnext.prepend w
      | _ => exact (hrest around _).prepend w

/-! ## Reading rewritten pieces -/

/-- The element that binds the values of a collection. -/
def blockName : Text := "foreach".toList

/-- Runs of text, and blocks that hold one run each: after them the same elements are open as
before. -/
inductive Balanced : List Piece → Prop
  | nil : Balanced []
  | run (t : Text) {ps : List Piece} (h : Balanced ps) : Balanced (.run t :: ps)
  | block (as : List Attribute) (w t w' : Text) {ps : List Piece} (h : Balanced ps) :
      Balanced (.markup (.opening blockName as) w :: .run t ::
        .markup (.closing blockName) w' :: ps)

theorem closeName_cons_self (name : Text) (around : List Text) :
    closeName name (name :: around) = around := by
  simp [closeName]

theorem parent_of_holds {around : List Text} {t : Text} (h : holds around t = true) :
    ∃ parent outer, around = parent :: outer ∧ parent ∉ skippedParents := by
  cases around with
  | nil => cases h
  | cons parent outer =>
    simp only [holds, Bool.not_eq_true', Bool.or_eq_false_iff, List.contains_eq_mem,
      decide_eq_false_iff_not] at h
    exact ⟨parent, outer, rfl, h.1⟩

theorem holds_cons_iff {parent : Text} (hparent : parent ∉ skippedParents) (around : List Text)
    (t : Text) : holds (parent :: around) t = true ↔ Text.blank t = false := by
  simp [holds, hparent]

/-- The texts that make nodes in a run by itself. -/
theorem forall_contents_run {P : Text × Bool → Prop} {parent : Text}
    (hparent : parent ∉ skippedParents) (hblank : ∀ t v, Text.blank t = true → P (t, v))
    (around : List Text) (t : Text) (ps : List Piece) :
    (∀ p ∈ contents (parent :: around) (.run t :: ps), P p) ↔
      P (t, false) ∧ ∀ p ∈ contents (parent :: around) ps, P p := by
  rw [contents]
  cases hink : Text.blank t with
  | false =>
    rw [if_pos ((holds_cons_iff hparent around t).2 hink), List.singleton_append,
      List.forall_mem_cons]
  | true =>
    have hno : ¬ holds (parent :: around) t = true := by
      rw [holds_cons_iff hparent, hink]
      exact Bool.noConfusion
    rw [if_neg hno, List.nil_append, and_iff_right (hblank t false hink)]

/-- Balanced pieces inside an element that is not skipped make a node of each run. -/
theorem Balanced.forall_contents {P : Text × Bool → Prop} {parent : Text} {ps : List Piece}
    (h : Balanced ps) (hparent : parent ∉ skippedParents)
    (hblank : ∀ t v, Text.blank t = true → P (t, v)) (around : List Text) (qs : List Piece) :
    (∀ p ∈ contents (parent :: around) (ps ++ qs), P p) ↔
      (∀ t, .run t ∈ ps → P (t, false)) ∧ ∀ p ∈ contents (parent :: around) qs, P p := by
  induction h with
  | nil => simp
  | run t h ih =>
    rw [List.cons_append, forall_contents_run hparent hblank, ih]
    simp [and_assoc]
  | @block as w t w' ps h ih =>
    have hblock : blockName ∉ skippedParents := by decide
    have hinner := forall_contents_run hblock hblank (parent :: around) t
      (.markup (.closing blockName) w' :: (ps ++ qs))
    rw [List.cons_append, List.cons_append, List.cons_append, contents, hinner, contents,
      closeName_cons_self, ih]
    simp [and_assoc]

/-- What the nodes of rewritten pieces hold: the new texts of sections, and of each other node the
runs that its new text is cut into. -/
theorem forall_contents_rewrite {P : Text × Bool → Prop}
    (hblank : ∀ t v, Text.blank t = true → P (t, v)) {f : Bool → Text → Text}
    {ps : List Piece} (hbalanced : ∀ t, .run t ∈ ps → Balanced (pieces (f false t)))
    (around : List Text) :
    (∀ p ∈ contents around (rewrite f around ps), P p) ↔
      ∀ p ∈ contents around ps, (p.2 = true → P (f true p.1, true)) ∧
        (p.2 = false → ∀ t, .run t ∈ pieces (f false p.1) → P (t, false)) := by
  induction ps generalizing around with
  | nil => simp [contents, rewrite]
  | cons p ps ih =>
    have hrest := ih fun t ht => hbalanced t (List.mem_cons_of_mem _ ht)
    cases p with
    | run t =>
      rw [rewrite, contents]
      cases hholds : holds around t with
      | false =>
        rw [if_neg Bool.noConfusion, if_neg Bool.noConfusion, List.singleton_append, contents,
          hholds, if_neg Bool.noConfusion, List.nil_append, List.nil_append]
        exact hrest around
      | true =>
        obtain ⟨parent, outer, rfl, hparent⟩ := parent_of_holds hholds
        rw [if_pos rfl, if_pos rfl, List.singleton_append, List.forall_mem_cons,
          (hbalanced t List.mem_cons_self).forall_contents hparent hblank, hrest]
        simp
    | markup m w =>
      cases m with
      | «section» x =>
        rw [rewrite, contents]
        cases hholds : holds around x with
        | false =>
          rw [if_neg Bool.noConfusion, if_neg Bool.noConfusion, List.nil_append, contents,
            hholds, if_neg Bool.noConfusion, List.nil_append]
          exact hrest around
        | true =>
          obtain ⟨parent, outer, rfl, hparent⟩ := parent_of_holds hholds
          rw [if_pos rfl, if_pos rfl, List.singleton_append, List.forall_mem_cons, ← hrest,
            contents]
          cases hink : Text.blank (f true x) with
          | false =>
            rw [if_pos ((holds_cons_iff hparent outer _).2 hink)]
            simp
          | true =>
            have hno : ¬ holds (parent :: outer) (f true x) = true := by
              rw [holds_cons_iff hparent, hink]
              exact Bool.noConfusion
            rw [if_neg hno]
            simp [hblank _ true hink]
      | opening name as => exact hrest (name :: around)
      | closing name => exact hrest (closeName name around)
      | _ => exact hrest around

theorem head?_rewrite {f : Bool → Text → Text} {ps : List Piece}
    (h : ∀ t, ps.head? ≠ some (.run t)) (around : List Text) (t : Text) :
    (rewrite f around ps).head? ≠ some (.run t) := by
  cases ps with
  | nil => simp [rewrite]
  | cons p ps =>
    cases p with
    | run u => exact absurd rfl (h u)
    | markup m w =>
      cases m with
      | «section» x =>
        rw [rewrite]
        split <;> simp
      | _ => simp [rewrite]

/-- Rewritten pieces are regular when the new texts are. -/
theorem Regular.rewrite {f : Bool → Text → Text} {ps : List Piece} (h : Regular ps)
    (hruns : ∀ t, .run t ∈ ps → Regular (pieces (f false t)))
    (hsections : ∀ x w, .markup (.section x) w ∈ ps → ¬ "]]>".toList <:+: f true x)
    (around : List Text) : Regular (rewrite f around ps) := by
  induction h generalizing around with
  | nil => exact Regular.nil
  | @markup m w ps hw h ih =>
    have hrest := ih (fun t ht => hruns t (List.mem_cons_of_mem _ ht))
      fun x w hx => hsections x w (List.mem_cons_of_mem _ hx)
    cases m with
    | «section» x =>
      rw [Mapper.rewrite]
      split
      · exact Regular.markup (Written.section (hsections x w List.mem_cons_self)) (hrest around)
      · exact Regular.markup hw (hrest around)
    | opening name as => exact Regular.markup hw (hrest _)
    | closing name => exact Regular.markup hw (hrest _)
    | _ => exact Regular.markup hw (hrest around)
  | @run t ps hne ht hnext h ih =>
    have hrest := ih (fun t ht => hruns t (List.mem_cons_of_mem _ ht))
      (fun x w hx => hsections x w (List.mem_cons_of_mem _ hx)) around
    rw [Mapper.rewrite]
    split
    · exact (hruns t List.mem_cons_self).append hrest (Or.inr (head?_rewrite hnext around))
    · exact Regular.run hne ht (head?_rewrite hnext around) hrest

end SqlInjection.Mapper
