import SqlInjection.Proofs.Detector.MapperFixes
import SqlInjection.Proofs.Mapper.Blocks

/-!
# Fixing a mapper and reading it again

When every flagged node of a mapper is fixed, its values are bound and the new mapper can be read
again. A node without a block is then read as it was judged. A node with a block is not: it is cut
at the block, and each fragment is judged by itself, without the clause in front of it.
`fixed_mapper_clean_iff` says that the new mapper is clean exactly when no fragment carries a risk
by itself, for mappers that are `WellFormed`; `fixed_mapper_flagged` is one that is flagged again.
-/

namespace SqlInjection

open Text

/-! ## The document type -/

namespace Mapper

theorem length_of_doctype? {t x : Text} (h : doctype? t = some x) :
    "<!doctype".toList.length ≤ t.length := by
  induction t with
  | nil => cases h
  | cons c t ih =>
    rw [doctype?] at h
    split at h
    · rename_i r hr
      obtain ⟨l, hl, hlength, -⟩ := stripWord?_inv hr
      rw [hl, List.length_append, hlength]
      exact Nat.le_add_right _ _
    · exact Nat.le_succ_of_le (ih h)

/-- The document type of a text is found again when more text follows. -/
theorem doctype?_append {t x : Text} (h : doctype? t = some x) (u : Text) :
    doctype? (t ++ u) = some x := by
  induction t with
  | nil => cases h
  | cons c t ih =>
    have hstrip := stripWord?_append (length_of_doctype? h) u
    rw [List.cons_append] at hstrip ⊢
    rw [doctype?] at h ⊢
    rw [hstrip]
    cases hr : stripWord? "<!doctype".toList (c :: t) with
    | none =>
      rw [hr] at h
      exact ih h
    | some r =>
      rw [hr] at h
      obtain ⟨⟨l, r'⟩, hcut, rfl⟩ := Option.map_eq_some_iff.1 h
      obtain ⟨rfl, hl⟩ := cut?_eq_some_iff.1 hcut
      have hcut' : cut? '>' (l ++ '>' :: r' ++ u) = some (l, r' ++ u) :=
        cut?_eq_some_iff.2 ⟨by simp, hl⟩
      simp only [Option.map_some, hcut']

theorem isMapper_append {t : Text} (h : isMapper t = true) (u : Text) :
    isMapper (t ++ u) = true := by
  rw [isMapper] at h ⊢
  split at h
  · rename_i x hx
    rw [doctype?_append hx u]
    exact h
  · cases h

theorem exists_parse? {source : Text} (h : isMapper source = true) :
    ∃ d, Document.parse? source = some d := by
  rw [Document.parse?, if_pos h]
  exact ⟨_, rfl⟩

/-! ## Well-formed mappers -/

/-- Whether a piece may stand before the root element. -/
def Piece.isProlog : Piece → Bool
  | .run _ | .markup .comment _ | .markup .declaration _ => true
  | .markup _ _ => false

/-- The text before the root element. -/
def prolog (source : Text) : Text := ((pieces source).takeWhile Piece.isProlog).flatMap Piece.text

/-- A run starts no markup and blocks may be made of the names in it; no comment and no section is
left open. -/
def Piece.Sound : Piece → Prop
  | .run t => Quiet t ∧ ∀ name ∈ interpolationNames t, BlockName name
  | .markup .declaration w => ¬ LeftOpen w
  | .markup _ _ => True

instance : DecidablePred Piece.Sound := fun p =>
  match p with
  | .run t => inferInstanceAs (Decidable (Quiet t ∧ ∀ name ∈ interpolationNames t, BlockName name))
  | .markup .declaration w => inferInstanceAs (Decidable (¬ LeftOpen w))
  | .markup .comment _ | .markup (.section _) _ | .markup (.opening _ _) _ | .markup (.empty _ _) _
  | .markup (.closing _) _ => isTrue trivial

/-- A mapper that is written as mappers are: its document type is declared before its root
element, and every piece is sound. -/
structure WellFormed (source : Text) : Prop where
  declares : isMapper (prolog source) = true
  sound : ∀ p ∈ pieces source, p.Sound

instance (source : Text) : Decidable (WellFormed source) :=
  decidable_of_iff (isMapper (prolog source) = true ∧ ∀ p ∈ pieces source, p.Sound)
    ⟨fun h => ⟨h.1, h.2⟩, fun h => ⟨h.declares, h.sound⟩⟩

/-- The runs of text that a text is cut into when it is read as a part of a mapper. -/
def fragments (t : Text) : List Text :=
  (pieces t).filterMap fun
    | .run u => some u
    | .markup _ _ => none

theorem mem_fragments {t u : Text} : u ∈ fragments t ↔ .run u ∈ pieces t := by
  rw [fragments, List.mem_filterMap]
  constructor
  · rintro ⟨p, hp, hu⟩
    cases p with
    | run v => rwa [← Option.some.inj hu]
    | markup m w => cases hu
  · exact fun h => ⟨_, h, rfl⟩

theorem fragments_of_quiet {t : Text} (ht : Quiet t) (hne : t ≠ []) : fragments t = [t] := by
  have hpieces : pieces (t ++ []) = .run t :: pieces [] :=
    pieces_run_append hne ht (by simp [pieces, piecesFrom])
  rw [List.append_nil] at hpieces
  rw [fragments, hpieces]
  rfl

/-- Text before the root element makes no node. -/
theorem rewrite_prolog (f : Bool → Text → Text) (ps : List Piece) :
    rewrite f [] ps =
      ps.takeWhile Piece.isProlog ++ rewrite f [] (ps.dropWhile Piece.isProlog) := by
  induction ps with
  | nil => rfl
  | cons p ps ih =>
    cases p with
    | run t => exact congrArg (Piece.run t :: ·) ih
    | markup m w =>
      cases m with
      | comment => exact congrArg (Piece.markup .comment w :: ·) ih
      | declaration => exact congrArg (Piece.markup .declaration w :: ·) ih
      | _ => rfl

namespace WellFormed

variable {source : Text} (h : WellFormed source)
include h

theorem regular : Regular (pieces source) :=
  regular_pieces (fun _ ht => (h.sound _ ht).1) fun _ hw => h.sound _ hw

/-- What binding makes of a run is woven. -/
theorem woven_nodeText (c : Settings) {t : Text} (ht : .run t ∈ pieces source) :
    Woven (nodeText c false t) := by
  obtain ⟨hquiet, hnames⟩ := h.sound _ ht
  unfold nodeText
  split
  · exact Binder.woven_bindAll _ hquiet hnames
  · exact Woven.last hquiet

theorem not_ends_nodeText (c : Settings) {x w : Text}
    (hx : .markup (.section x) w ∈ pieces source) : ¬ "]]>".toList <:+: nodeText c true x := by
  have hends := h.regular.not_ends_of_mem hx
  unfold nodeText
  split
  · exact Binder.not_ends_bindAll rfl hends
  · exact hends

theorem regular_rewrite (c : Settings) : Regular (rewrite (nodeText c) [] (pieces source)) :=
  h.regular.rewrite (fun _ ht => (h.woven_nodeText c ht).regular_pieces)
    (fun _ _ hx => h.not_ends_nodeText c hx) []

theorem isMapper_rewrite (c : Settings) :
    isMapper ((rewrite (nodeText c) [] (pieces source)).flatMap Piece.text) = true := by
  rw [rewrite_prolog, List.flatMap_append]
  exact isMapper_append h.declares _

end WellFormed

end Mapper

open Mapper

/-! ## Judging texts -/

/-- A text as it stands in a node carries no risk. -/
def SafeNode (c : Settings) (p : Text × Bool) : Prop := (nodeBinder c p.2).remainingRisk p.1 = .safe

theorem remainingRisk_of_blank {t : Text} (h : Text.blank t = true) (b : Binder) :
    b.remainingRisk t = .safe := by
  have hdollar : '$' ∉ t := fun hmem => absurd (List.all_eq_true.1 h _ hmem) (by decide)
  have hnone : occurrences interpolationPattern t = [] := by
    rw [occurrences_eq_interpolationsBehind, interpolationsBehind_eq,
      Interpolation.first?_eq_none_of_plain (plain_of_not_mem hdollar)]
  rw [Binder.remainingRisk, hnone]
  rfl

section Fixed

variable {c : Settings} {d : Document} (hfixed : ∀ x ∈ detectInMapper c d, x.fix.status = .fixed)
include hfixed

/-- When every node is fixed, no comment is put in. -/
theorem mapperEdits_of_fixed : mapperEdits c d = bindingEdits c d := by
  have hnode : ∀ n ∈ d.nodes, ((inspectNode c d n).toList.flatMap fun x => x.fix.edits) =
      (nodeEdit? (nodeText c) n).toList := by
    intro n hn
    cases hx : inspectNode c d n with
    | none =>
      rw [nodeEdit?_of_inspectNode_none hx]
      rfl
    | some x =>
      obtain ⟨-, -, hedits, -⟩ := inspectNode_inv hx
      have hcomplete := complete_of_fixed hx (hfixed x (mem_detectInMapper.2 ⟨n, hn, hx⟩))
      rw [nodeComment?, if_pos hcomplete, Option.toList_none, List.append_nil] at hedits
      simpa using hedits
  rw [mapperEdits, bindingEdits, detectInMapper, List.filterMap_eq_flatMap_toList,
    List.filterMap_eq_flatMap_toList, List.flatMap_assoc]
  exact List.flatMap_congr hnode

/-- The text that a node gets carries no risk as a whole. -/
theorem safeNode_nodeText {n : TextNode} (hn : n ∈ d.nodes) :
    SafeNode c (nodeText c n.verbatim n.text, n.verbatim) := by
  cases hx : inspectNode c d n with
  | none =>
    have hsafe := inspectNode_eq_none_iff.1 hx
    rw [nodeText, hsafe]
    exact hsafe
  | some x =>
    obtain ⟨htext, -, -, -⟩ := inspectNode_inv hx
    rw [htext]
    exact remainingRisk_of_complete
      (complete_of_fixed hx (hfixed x (mem_detectInMapper.2 ⟨n, hn, hx⟩)))

/-- A text that is not cut is judged as it was. -/
theorem safe_fragments {n : TextNode} (hn : n ∈ d.nodes)
    (hquiet : Quiet (nodeText c n.verbatim n.text)) :
    ∀ t ∈ fragments (nodeText c n.verbatim n.text), SafeNode c (t, n.verbatim) := by
  intro t ht
  by_cases hne : nodeText c n.verbatim n.text = []
  · rw [hne] at ht
    cases ht
  · rw [fragments_of_quiet hquiet hne, List.mem_singleton] at ht
    rw [ht]
    exact safeNode_nodeText hfixed hn

end Fixed

section Parsed

variable {c : Settings} {source : Text} {d : Document} (hd : Document.parse? source = some d)
include hd

theorem forall_nodes_iff {P : Text × Bool → Prop} :
    (∀ n ∈ d.nodes, P (n.text, n.verbatim)) ↔ ∀ p ∈ contents [] (pieces source), P p := by
  have hmap := map_textNodes [] 0 (pieces source)
  rw [← nodes_of_parse? hd, List.map_nil] at hmap
  rw [← hmap, List.forall_mem_map]

theorem detectInMapper_eq_nil_iff :
    detectInMapper c d = [] ↔ ∀ p ∈ contents [] (pieces source), SafeNode c p := by
  rw [← forall_nodes_iff hd, detectInMapper, List.filterMap_eq_nil_iff]
  exact forall₂_congr fun n _ => inspectNode_eq_none_iff

theorem run_of_mem_nodes {n : TextNode} (hn : n ∈ d.nodes) (hv : n.verbatim = false) :
    .run n.text ∈ pieces source := by
  have hmem : (n.text, n.verbatim) ∈ contents [] (pieces source) :=
    (forall_nodes_iff hd (P := (· ∈ contents [] (pieces source)))).2 (fun _ h => h) n hn
  rw [hv] at hmem
  exact run_of_mem_contents hmem

variable (hwf : WellFormed source) (hfixed : ∀ x ∈ detectInMapper c d, x.fix.status = .fixed)
include hwf hfixed

/-- A node that is not flagged is not cut. -/
theorem safe_fragments_of_not_flagged {n : TextNode} (hn : n ∈ d.nodes) (hv : n.verbatim = false)
    (hnone : inspectNode c d n = none) :
    ∀ t ∈ fragments (nodeText c n.verbatim n.text), SafeNode c (t, n.verbatim) := by
  have htext : nodeText c n.verbatim n.text = n.text := by
    rw [nodeText, inspectNode_eq_none_iff.1 hnone]
    rfl
  refine safe_fragments hfixed hn ?_
  rw [htext]
  exact (hwf.sound _ (run_of_mem_nodes hd hn hv)).1

/-- What the new mapper is judged by: the fragments of the new texts. -/
theorem clean_iff_safe_fragments {d' : Document}
    (hd' : Document.parse? ((rewrite (nodeText c) [] (pieces source)).flatMap Piece.text) =
      some d') :
    detectInMapper c d' = [] ↔ ∀ n ∈ d.nodes, n.verbatim = false →
      ∀ t ∈ fragments (nodeText c n.verbatim n.text), SafeNode c (t, n.verbatim) := by
  rw [detectInMapper_eq_nil_iff hd', (hwf.regular_rewrite c).pieces_flatMap,
    forall_contents_rewrite (fun t v h => remainingRisk_of_blank h _)
      (fun t ht => (hwf.woven_nodeText c ht).balanced_pieces), ← forall_nodes_iff hd]
  refine forall₂_congr fun n hn => ?_
  have hwhole := safeNode_nodeText hfixed hn
  cases hv : n.verbatim with
  | false => simp only [Bool.false_eq_true, false_implies, true_and, mem_fragments]
  | true =>
    rw [hv] at hwhole
    simp only [hwhole, Bool.true_eq_false, false_implies, and_true, implies_true]

/-- **A fixed mapper is clean exactly when no fragment of it carries a risk by itself.** If every
node that is flagged in a well-formed mapper counts as fixed, all edits together give a new mapper.
Nothing is flagged in it exactly when each fragment that a block cuts a new text into is safe
without the text in front of it. Where no block is put in, nothing ever is. -/
theorem fixed_mapper_clean_iff :
    ∃ new d', applyEdits? source (mapperEdits c d) = some new ∧ Document.parse? new = some d' ∧
      (detectInMapper c d' = [] ↔
        ∀ n ∈ d.nodes, n.verbatim = false → (inspectNode c d n).isSome = true →
          ∀ t ∈ fragments ((n.binder c.ignore).fix n.text).text,
            (n.binder c.ignore).remainingRisk t = .safe) ∧
      ((∀ n ∈ d.nodes, n.verbatim = false → (inspectNode c d n).isSome = true →
          ¬ '<' :: blockName <:+: ((n.binder c.ignore).fix n.text).text) →
        detectInMapper c d' = []) := by
  have hsplices := splices_bindingEdits hd c
  have happly := applyEdits?_of_splices hsplices fun e he => start_lt_stop_of_mem_bindingEdits hd he
  rw [← mapperEdits_of_fixed hfixed] at happly
  obtain ⟨d', hd'⟩ := exists_parse? (hwf.isMapper_rewrite c)
  have hclean := clean_iff_safe_fragments hd hwf hfixed hd'
  refine ⟨_, d', happly, hd', hclean.trans ?_, fun hplain => hclean.2 fun n hn hv => ?_⟩
  · refine forall₃_congr fun n hn hv => ?_
    cases hx : inspectNode c d n with
    | none =>
      exact ⟨fun _ h => absurd h (by simp),
        fun _ => safe_fragments_of_not_flagged hd hwf hfixed hn hv hx⟩
    | some x =>
      rw [(inspectNode_inv hx).1]
      exact ⟨fun h _ => h, fun h => h rfl⟩
  · cases hx : inspectNode c d n with
    | none => exact safe_fragments_of_not_flagged hd hwf hfixed hn hv hx
    | some x =>
      have hwoven := hwf.woven_nodeText c (run_of_mem_nodes hd hn hv)
      rw [← hv] at hwoven
      refine safe_fragments hfixed hn (hwoven.quiet ?_)
      rw [(inspectNode_inv hx).1]
      exact hplain n hn hv (by rw [hx]; rfl)

end Parsed

/-- A mapper with a block and, behind it, an interpolation in a place that takes no value. -/
def sortedMapper : Text :=
  ("<!DOCTYPE mapper SYSTEM \"mybatis.org/mapper.dtd\"><mapper>" ++
    "<select>where id in ($\x7bids\x7d) order by $\x7bcol\x7d</select></mapper>").toList

theorem fixed_sortedMapper_clean :
    ∃ d new d', Document.parse? sortedMapper = some d ∧ detectInMapper .builtin d ≠ [] ∧
      applyEdits? sortedMapper (mapperEdits .builtin d) = some new ∧
      Document.parse? new = some d' ∧ detectInMapper .builtin d' = [] := by
  have heval : ∃ d ∈ Document.parse? sortedMapper, detectInMapper .builtin d ≠ [] ∧
      WellFormed sortedMapper ∧ (∀ x ∈ detectInMapper .builtin d, x.fix.status = .fixed) ∧
      ∀ n ∈ d.nodes, n.verbatim = false → (inspectNode .builtin d n).isSome = true →
        ∀ t ∈ fragments ((n.binder Settings.builtin.ignore).fix n.text).text,
          (n.binder Settings.builtin.ignore).remainingRisk t = .safe := by decide +kernel
  obtain ⟨d, hd, hsome, hwf, hfixed, hsafe⟩ := heval
  obtain ⟨new, d', happly, hd', hiff, -⟩ := fixed_mapper_clean_iff hd hwf hfixed
  exact ⟨d, new, d', hd, hsome, happly, hd', hiff.2 hsafe⟩

/-- A mapper with a compared name behind a block: read by itself, the fragment that it is in shows
no clause at all, and what stands in no clause is taken for a value. -/
def comparedMapper : Text :=
  ("<!DOCTYPE mapper SYSTEM \"mybatis.org/mapper.dtd\"><mapper>" ++
    "<select>where id in ($\x7bids\x7d) and $\x7bcol\x7d = 1</select></mapper>").toList

/-- A mapper where every node counts as fixed, and the new mapper is flagged again. -/
theorem fixed_mapper_flagged :
    WellFormed comparedMapper ∧ ∃ d ∈ Document.parse? comparedMapper,
      (∀ x ∈ detectInMapper .builtin d, x.fix.status = .fixed) ∧
      ∃ new ∈ applyEdits? comparedMapper (mapperEdits .builtin d),
        ∃ d' ∈ Document.parse? new, detectInMapper .builtin d' ≠ [] := by
  decide +kernel

end SqlInjection
