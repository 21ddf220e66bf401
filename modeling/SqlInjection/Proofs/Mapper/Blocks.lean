import SqlInjection.Proofs.Mapper.Nodes
import SqlInjection.Proofs.Template.Scan

/-!
# Bound texts in a mapper

Binding may put blocks into a text of a mapper. Read again, such a text is cut at them: `Woven` says
how it is made of quiet texts and blocks, and its pieces are the runs between the blocks and inside
of them (`Woven.exists_pieces`).

* `Binder.woven_bindAll`: a quiet text is woven after binding, if blocks may be made of its names;
* `Binder.not_ends_bindAll`: where no block may be put, binding never writes the end of a section.
-/

namespace SqlInjection

open Mapper

/-! ## Blocks as they are read -/

namespace Mapper

/-- The attributes of a block for a collection. -/
def blockAttributes (collection : Text) : List Attribute :=
  [⟨"collection".toList, some collection⟩, ⟨"item".toList, some (elementName collection)⟩,
    ⟨"open".toList, some ['(']⟩, ⟨"separator".toList, some [',']⟩, ⟨"close".toList, some [')']⟩]

/-- The attributes of a block as they are written. -/
def blockAttributesText (collection : Text) : Text :=
  quoted "collection".toList collection ++ (quoted "item".toList (elementName collection) ++
    (quoted "open".toList ['('] ++ (quoted "separator".toList [','] ++
      (quoted "close".toList [')'] ++ []))))

theorem attributes_block {collection : Text} (h : '"' ∉ collection) :
    Attributes (blockAttributes collection) (blockAttributesText collection) := by
  have hitem := not_mem_elementName h (by decide)
  refine Attributes.quoted (by decide) (by decide) h ?_
  refine Attributes.quoted (by decide) (by decide) hitem ?_
  refine Attributes.quoted (by decide) (by decide) (by decide) ?_
  refine Attributes.quoted (by decide) (by decide) (by decide) ?_
  refine Attributes.quoted (by decide) (by decide) (by decide) ?_
  exact Attributes.nil (List.forall_mem_nil _)

/-- The tag that opens a block. -/
def blockTag (collection : Text) : Text :=
  '<' :: (blockName ++ (blockAttributesText collection ++ ['>']))

/-- What stands between the tags of a block. -/
def blockBody (collection : Text) : Text := '\n' :: (bound (elementName collection) ++ ['\n'])

/-- The tag that closes a block. -/
def blockEnd : Text := '<' :: '/' :: (blockName ++ ([] ++ ['>']))

theorem foreachBlock_eq (name : Text) :
    foreachBlock name = blockTag (collectionName name) ++
      (blockBody (collectionName name) ++ blockEnd) := by
  have hopening : "<foreach collection=\"".toList =
      '<' :: (blockName ++ ' ' :: ("collection".toList ++ ['=', '"'])) := by decide +kernel
  have hitem : "\" item=\"".toList = '"' :: ' ' :: ("item".toList ++ ['=', '"']) := by
    decide +kernel
  have hrest : "\" open=\"(\" separator=\",\" close=\")\">\n".toList =
      '"' :: (quoted "open".toList ['('] ++ (quoted "separator".toList [','] ++
        (quoted "close".toList [')'] ++ ['>', '\n']))) := by decide +kernel
  have hend : "\n</foreach>".toList = '\n' :: blockEnd := by decide +kernel
  unfold foreachBlock
  rw [hopening, hitem, hrest, hend]
  unfold blockTag blockBody blockAttributesText quoted
  simp only [List.append_assoc, List.cons_append, List.nil_append]

theorem tagName_blockName : TagName blockName :=
  ⟨'f', "oreach".toList, rfl, by decide, by decide⟩

/-- The pieces of a block. -/
def blockPieces (collection : Text) : List Piece :=
  [.markup (.opening blockName (blockAttributes collection)) (blockTag collection),
    .run (blockBody collection), .markup (.closing blockName) blockEnd]

theorem flatMap_blockPieces (name : Text) :
    (blockPieces (collectionName name)).flatMap Piece.text = foreachBlock name := by
  rw [foreachBlock_eq]
  simp only [blockPieces, List.flatMap_cons, List.flatMap_nil, Piece.text, List.append_nil]

theorem regular_blockPieces {collection : Text} (hquote : '"' ∉ collection)
    (hmark : '<' ∉ collection) {ps : List Piece} (h : Regular ps) :
    Regular (blockPieces collection ++ ps) := by
  have hitem := not_mem_elementName hmark (by decide)
  have hbody : '<' ∉ blockBody collection := by simpa [blockBody, bound] using hitem
  have hclosing : Written (.closing blockName) blockEnd :=
    Written.tag (Tag.closing tagName_blockName (Attributes.nil (List.forall_mem_nil _))
      (Or.inl rfl))
  refine Regular.markup (Written.tag (Tag.opening tagName_blockName (attributes_block hquote))) ?_
  exact Regular.run (by simp [blockBody]) (quiet_of_not_mem hbody) (by simp)
    (Regular.markup hclosing h)

end Mapper

/-! ## Texts with blocks in them -/

/-- Texts that start no markup, with a block between each and the next. -/
inductive Woven : Text → Prop
  | last {t : Text} (ht : Quiet t) : Woven t
  | block {t name rest : Text} (ht : Quiet t) (hmark : '<' ∉ name) (hquote : '"' ∉ name)
      (h : Woven rest) : Woven (t ++ (foreachBlock name ++ rest))

namespace Woven

variable {s t : Text}

theorem prepend (hs : Quiet s) (h : Woven t) : Woven (s ++ t) := by
  cases h with
  | last ht => exact Woven.last (hs.append ht)
  | @block t name rest ht hmark hquote h =>
    rw [← List.append_assoc]
    exact Woven.block (hs.append ht) hmark hquote h

theorem append (hs : Woven s) (ht : Woven t) : Woven (s ++ t) := by
  induction hs with
  | last hs => exact ht.prepend hs
  | block hs hmark hquote h ih =>
    rw [List.append_assoc, List.append_assoc]
    exact Woven.block hs hmark hquote ih

/-- A woven text is read as runs and blocks. -/
theorem exists_pieces (h : Woven t) :
    ∃ ps, Regular ps ∧ Balanced ps ∧ ps.flatMap Piece.text = t := by
  -- a text in front of pieces that start with no run
  have hfront : ∀ {t ps}, Quiet t → (∀ u, ps.head? ≠ some (.run u)) → Regular ps → Balanced ps →
      ∃ qs, Regular qs ∧ Balanced qs ∧ qs.flatMap Piece.text = t ++ ps.flatMap Piece.text := by
    intro t ps ht hnext hregular hbalanced
    by_cases hne : t = []
    · exact ⟨ps, hregular, hbalanced, by simp [hne]⟩
    · exact ⟨.run t :: ps, hregular.run hne ht hnext, hbalanced.run t, rfl⟩
  induction h with
  | last ht =>
    obtain ⟨qs, hregular, hbalanced, heq⟩ := hfront ht (by simp) Regular.nil Balanced.nil
    exact ⟨qs, hregular, hbalanced, by simpa using heq⟩
  | @block t name rest ht hmark hquote h ih =>
    obtain ⟨ps, hregular, hbalanced, rfl⟩ := ih
    have hsub : collectionName name ⊆ name := (List.takeWhile_sublist _).subset
    have hblock := regular_blockPieces (fun h => hquote (hsub h)) (fun h => hmark (hsub h)) hregular
    obtain ⟨qs, hregular, hbalanced, heq⟩ := hfront ht (by simp [blockPieces]) hblock
      (Balanced.block _ _ _ _ hbalanced)
    refine ⟨qs, hregular, hbalanced, ?_⟩
    rw [heq, List.flatMap_append, flatMap_blockPieces]

/-- Where no block is, no markup starts. -/
theorem quiet (h : Woven t) (hno : ¬ '<' :: blockName <:+: t) : Quiet t := by
  cases h with
  | last ht => exact ht
  | @block t name rest =>
    refine absurd ⟨t, ?_, ?_⟩ hno
    · exact blockAttributesText (collectionName name) ++ ['>'] ++
        (blockBody (collectionName name) ++ blockEnd) ++ rest
    · rw [foreachBlock_eq, blockTag]
      simp only [List.append_assoc, List.cons_append]

theorem regular_pieces (h : Woven t) : Regular (pieces t) := by
  obtain ⟨ps, hregular, -, rfl⟩ := h.exists_pieces
  rwa [hregular.pieces_flatMap]

theorem balanced_pieces (h : Woven t) : Balanced (pieces t) := by
  obtain ⟨ps, hregular, hbalanced, rfl⟩ := h.exists_pieces
  rwa [hregular.pieces_flatMap]

end Woven

/-- The name between texts that hold no part of `<` or of the end of a section. -/
def Wraps (name new : Text) : Prop :=
  ∃ l r, new = l ++ (name ++ r) ∧ l ≠ [] ∧ r ≠ [] ∧
    (∀ c ∈ l, c ∉ "<]>".toList) ∧ ∀ c ∈ r, c ∉ "<]>".toList

theorem wraps_likeExpression (leading trailing : Bool) (name : Text) :
    Wraps name (likeExpression leading trailing name) := by
  unfold likeExpression
  split
  · refine ⟨" CONCAT(".toList ++ (if leading then "'%', ".toList else []) ++ ['#', '{'],
      '}' :: (if trailing then ", '%'".toList else []) ++ ") ".toList, ?_, ?_, ?_, ?_, ?_⟩
    · simp only [bound, List.append_assoc, List.cons_append, List.nil_append]
    · exact List.append_ne_nil_of_right_ne_nil _ (by decide)
    · exact List.append_ne_nil_of_right_ne_nil _ (by decide)
    · cases leading <;> decide
    · cases trailing <;> decide
  · refine ⟨[' ', '#', '{'], ['}', ' '], ?_, by decide, by decide, by decide, by decide⟩
    simp only [bound, List.append_assoc, List.cons_append, List.nil_append]

/-- What is put in is a name between two texts, or a block. -/
theorem Inserts.wraps_or_foreach {b : Binder} {kept name new : Text} {kind : PlanKind}
    (h : Inserts b kept name kind new) :
    Wraps name new ∨ b.foreach = true ∧ new = '\n' :: foreachBlock name ++ ['\n'] := by
  cases h with
  | direct => exact Or.inl ⟨['#', '{'], ['}'], rfl, by decide, by decide, by decide, by decide⟩
  | like leading trailing => exact Or.inl (wraps_likeExpression leading trailing name)
  | foreach hforeach => exact Or.inr ⟨hforeach, rfl⟩

/-- What is put in behind a text starts no markup with it. -/
theorem Inserts.woven {b : Binder} {kept cut name new : Text} {kind : PlanKind}
    (h : Inserts b kept name kind new) (hkept : Quiet (kept ++ cut)) (hmark : '<' ∉ name)
    (hquote : '"' ∉ name) : Woven (kept ++ new) := by
  have hhead : StartsQuiet new := by
    obtain ⟨c, t, rfl, hc⟩ := h.head
    have hall : ∀ c ∈ ['#', ' ', '\n'], (!goesOnMarkup c) = true := by decide
    exact hall c hc
  rcases h.wraps_or_foreach with ⟨l, r, rfl, -, -, hl, hr⟩ | ⟨-, rfl⟩
  · have hl' : '<' ∉ l := fun h => hl _ h (by decide)
    have hr' : '<' ∉ r := fun h => hr _ h (by decide)
    exact Woven.last (hkept.change (quiet_of_not_mem (by simp [hl', hmark, hr'])) hhead)
  · have hfront : Quiet (kept ++ ['\n']) := hkept.change (quiet_of_not_mem (by decide)) (by decide)
    have hblock := Woven.block hfront hmark hquote (Woven.last (quiet_of_not_mem (t := ['\n'])
      (by decide)))
    simpa using hblock

/-- A name that a block may be made of. -/
abbrev BlockName (name : Text) : Prop := '<' ∉ name ∧ '"' ∉ name

/-- A text that starts no markup is woven after binding, if no name in it holds `<` or `"`. -/
theorem Binder.woven_bindAll {t : Text} (b : Binder) (ht : Quiet t)
    (hnames : ∀ name ∈ interpolationNames t, BlockName name) : Woven (b.bindAll t) := by
  obtain ⟨s, r, heq, hs, hr, -⟩ := b.bindFrom_invariant
    (fun seen rest => Woven seen ∧ Quiet rest ∧ ∀ name ∈ interpolationNames rest, BlockName name)
    (by
      rintro seen rest i hi ⟨hseen, hrest, hall⟩
      rw [interpolationNames_of_first? hi, List.forall_mem_cons] at hall
      rw [← Interpolation.first?_eq hi, List.append_assoc] at hrest
      have htoken : '<' ∉ interpolationOf i.name := by simpa [interpolationOf] using hall.1.1
      have hfront : Quiet (i.before ++ interpolationOf i.name) :=
        hrest.change (quiet_of_not_mem htoken) (show (!goesOnMarkup '$') = true by decide)
      rw [List.append_assoc]
      exact ⟨hseen.append (Woven.last hfront), hrest.of_append.of_append, hall.2⟩)
    (by
      rintro seen rest i p kept cut opened new hi hr ⟨hseen, hrest, hall⟩
      rw [interpolationNames_of_first? hi, List.forall_mem_cons, hr.after_eq] at hall
      have hopened : '$' ∉ opened := fun h => absurd (hr.opened_trimmed _ h) (by decide)
      rw [interpolationNames_append hopened] at hall
      rw [← Interpolation.first?_eq hi, hr.before_eq, hr.after_eq] at hrest
      have hafter : Quiet p.rest := hrest.of_append.of_append
      simp only [List.append_assoc] at hrest
      rw [hr.head_eq, List.append_assoc]
      exact ⟨hseen.append (hr.inserts.woven hrest hall.1.1 hall.1.2), hafter, hall.2⟩)
    [] t sealed_nil ⟨Woven.last trivial, ht, hnames⟩
  rw [bindAll, heq]
  exact hs.append (Woven.last hr)

/-! ## The end of a section -/

/-- A word on both sides of a character that is not in it lies on one of them. -/
theorem infix_of_infix_append_cons {w x y : Text} {c : Char} (hc : c ∉ w)
    (h : w <:+: x ++ c :: y) : w <:+: x ∨ w <:+: y := by
  obtain ⟨s, t, h⟩ := h
  rcases List.append_eq_append_iff.1 h with ⟨u, rfl, -⟩ | ⟨u, hu, hy⟩
  · exact Or.inl ⟨s, u, rfl⟩
  · cases u with
    | nil => exact Or.inl ⟨s, [], by simpa using hu⟩
    | cons d u =>
      obtain ⟨rfl, rfl⟩ := List.cons.inj hy
      rcases List.append_eq_append_iff.1 hu with ⟨v, -, rfl⟩ | ⟨v, -, hv⟩
      · exact absurd (by simp) hc
      · cases v with
        | nil =>
          rw [List.nil_append] at hv
          exact absurd (hv ▸ List.mem_cons_self) hc
        | cons d v =>
          obtain ⟨-, rfl⟩ := List.cons.inj hv
          exact Or.inr ⟨v, t, rfl⟩

/-- The same of a text that is not empty. -/
theorem infix_of_infix_append {w x m y : Text} (hne : m ≠ []) (hm : ∀ c ∈ m, c ∉ w)
    (h : w <:+: x ++ (m ++ y)) : w <:+: x ∨ w <:+: y := by
  induction m generalizing x with
  | nil => exact absurd rfl hne
  | cons c m ih =>
    rcases infix_of_infix_append_cons (hm c List.mem_cons_self) h with h | h
    · exact Or.inl h
    · by_cases hnil : m = []
      · exact Or.inr (by simpa [hnil] using h)
      · rcases ih hnil (fun d hd => hm d (List.mem_cons_of_mem c hd)) (x := []) h with h | h
        · rw [List.infix_nil.1 h]
          exact Or.inl (List.nil_infix)
        · exact Or.inr h

/-- Where no block may be put, binding never writes the end of a section. -/
theorem Binder.not_ends_bindAll {b : Binder} (hb : b.foreach = false) {t : Text}
    (ht : ¬ "]]>".toList <:+: t) : ¬ "]]>".toList <:+: b.bindAll t := by
  obtain ⟨s, r, heq, h⟩ := b.bindFrom_invariant
    (fun seen rest => ¬ "]]>".toList <:+: seen ++ rest)
    (by
      intro seen rest i hi h
      rw [← Interpolation.first?_eq hi] at h
      simpa using h)
    (by
      intro seen rest i p kept cut opened new hi hr h hnew
      refine h ?_
      rw [← Interpolation.first?_eq hi, hr.before_eq, hr.after_eq]
      obtain ⟨l, r, rfl, hl, hr', hlw, hrw⟩ := hr.inserts.wraps_or_foreach.resolve_right fun h => by
        rw [hb] at h
        exact Bool.noConfusion h.1
      have hends : "]]>".toList ⊆ "<]>".toList := by decide
      have hsplit : p.head ++ p.rest = (seen ++ kept) ++ (l ++ (i.name ++ (r ++ p.rest))) := by
        rw [hr.head_eq]
        simp
      rw [hsplit] at hnew
      -- it would lie in the text before, in the name, or in the text after
      rcases infix_of_infix_append hl (fun c hc h => hlw c hc (hends h)) hnew with hnew | hnew
      · exact hnew.trans ⟨[], cut ++ interpolationOf i.name ++ (opened ++ p.rest), by simp⟩
      · rcases infix_of_infix_append hr' (fun c hc h => hrw c hc (hends h)) hnew with hnew | hnew
        · exact hnew.trans ⟨seen ++ (kept ++ cut) ++ ['$', '{'], '}' :: (opened ++ p.rest),
            by simp [interpolationOf]⟩
        · exact hnew.trans ⟨seen ++ (kept ++ cut) ++ interpolationOf i.name ++ opened, [],
            by simp⟩)
    [] t sealed_nil (by simpa using ht)
  rwa [bindAll, heq]

end SqlInjection
