import SqlInjection.Proofs.Java.Walk

/-!
# Tokens of a source

No scanner loses a character: what it splits off and what it leaves make up what it was given
(`nextToken_append`). So the tokens and the comments of a source stand in it at their offsets, in
order and apart from each other (`lexed_tokenize`).
-/

namespace SqlInjection.Java

/-! ## Scanners -/

theorem spanOf_append (p : Char → Bool) (t : Text) : (spanOf p t).1 ++ (spanOf p t).2 = t :=
  List.takeWhile_append_dropWhile

theorem takeOne_append (cs : List Char) (t : Text) : (takeOne cs t).1 ++ (takeOne cs t).2 = t := by
  cases t with
  | nil => rfl
  | cons c t =>
    rw [takeOne]
    split <;> rfl

theorem takeExponent_append (letters : List Char) (t : Text) :
    (takeExponent letters t).1 ++ (takeExponent letters t).2 = t := by
  have hletter := takeOne_append letters t
  unfold takeExponent
  split
  · rfl
  · next e t₁ _ heq =>
    rw [heq] at hletter
    dsimp only
    split
    · rfl
    · rw [List.append_assoc, spanOf_append, List.append_assoc, takeOne_append]
      exact hletter

theorem takeFraction_append (p : Char → Bool) (t : Text) :
    (takeFraction p t).1 ++ (takeFraction p t).2 = t := by
  unfold takeFraction
  split
  · next t => exact congrArg (List.cons '.') (spanOf_append p t)
  · rfl

theorem append_ite {c : Prop} [Decidable c] {a b : Text × Text} {t : Text} (ha : a.1 ++ a.2 = t)
    (hb : b.1 ++ b.2 = t) : (if c then a else b).1 ++ (if c then a else b).2 = t := by
  split
  · exact ha
  · exact hb

theorem takeNumber_append (t : Text) : (takeNumber t).1 ++ (takeNumber t).2 = t := by
  unfold takeNumber
  split
  next radix t₁ hradix =>
  have hradix : radix ++ t₁ = t := by
    split at hradix
    · split at hradix <;> (obtain ⟨rfl, rfl⟩ := Prod.mk.inj hradix; rfl)
    · obtain ⟨rfl, rfl⟩ := Prod.mk.inj hradix
      rfl
  dsimp only
  simp only [List.append_assoc]
  rw [takeOne_append, takeExponent_append, takeFraction_append,
    append_ite (a := ([], _)) (List.nil_append _) (spanOf_append _ _),
    append_ite (b := ([], _)) (takeOne_append _ _) (List.nil_append _), spanOf_append]
  exact hradix

theorem takeString_append (block : Bool) (t : Text) :
    (takeString block t).1 ++ (takeString block t).2.2 = t := by
  fun_induction takeString block t <;> simp_all

theorem takeCharacter_append (t : Text) : (takeCharacter t).1 ++ (takeCharacter t).2 = t := by
  fun_induction takeCharacter t <;> simp_all

theorem takeBlockComment_append (t : Text) :
    (takeBlockComment t).1 ++ (takeBlockComment t).2 = t := by
  fun_induction takeBlockComment t <;> simp_all

theorem takeSymbol_append (t : Text) : (takeSymbol t).1 ++ (takeSymbol t).2 = t := by
  unfold takeSymbol
  split
  · next found hfound =>
    obtain ⟨w, -, hstrip⟩ := List.exists_of_findSome?_eq_some hfound
    obtain ⟨rest, hrest, rfl⟩ := Option.map_eq_some_iff.1 hstrip
    exact (Text.stripPrefix?_eq_some_iff.1 hrest)
  · exact List.take_append_drop 1 t

/-- **No character is lost**: a token and what follows it make up the source. -/
theorem nextToken_append (holes : List Hole) (t : Text) :
    (nextToken holes t).2.1 ++ (nextToken holes t).2.2.1 = t := by
  unfold nextToken
  split
  · simp [takeString_append]
  · simp [takeString_append]
  · simp [takeCharacter_append]
  · split
    · simp [takeString_append]
    · rfl
    · rfl
  · split <;> rfl
  · split
    · exact spanOf_append _ _
    · split
      · exact takeNumber_append _
      · exact takeSymbol_append _
  · rfl

theorem takeNumber_ne_nil {c : Char} {r : Text} (h : c.isDigit = true ∨ c = '.') :
    (takeNumber (c :: r)).1 ≠ [] := by
  unfold takeNumber
  rcases h with h | rfl
  · have hpart : isDigitPart c = true := by simp [isDigitPart, h]
    split
    next radix t₁ heq =>
    split at heq
    · split at heq
      · obtain ⟨rfl, rfl⟩ := Prod.mk.inj heq
        simp
      · obtain ⟨rfl, rfl⟩ := Prod.mk.inj heq
        simp [spanOf, hpart]
    · obtain ⟨rfl, rfl⟩ := Prod.mk.inj heq
      simp [spanOf, hpart]
  · simp [spanOf, takeFraction, isDigitPart]

theorem takeSymbol_ne_nil (c : Char) (r : Text) : (takeSymbol (c :: r)).1 ≠ [] := by
  unfold takeSymbol
  split
  · next found hfound =>
    obtain ⟨w, hw, hstrip⟩ := List.exists_of_findSome?_eq_some hfound
    obtain ⟨rest, -, rfl⟩ := Option.map_eq_some_iff.1 hstrip
    have hne : ∀ w ∈ longSymbols, w ≠ [] := by decide
    exact hne w hw
  · simp

/-- A token of a source that is not at its end has text. -/
theorem nextToken_ne_nil (holes : List Hole) (c : Char) (r : Text) :
    (nextToken holes (c :: r)).2.1 ≠ [] := by
  unfold nextToken
  split
  · simp
  · simp
  · simp
  · split <;> simp
  · split <;> simp
  · next c' r' heq =>
    obtain ⟨rfl, rfl⟩ := List.cons.inj heq
    split
    · next hname => simp [spanOf, isNamePart, hname]
    · split
      · next hnumber =>
        refine takeNumber_ne_nil ?_
        simp only [Bool.or_eq_true, Bool.and_eq_true, beq_iff_eq] at hnumber
        exact hnumber.imp_right And.left
      · exact takeSymbol_ne_nil c r
  · next heq => cases heq

theorem byteSize_pos {t : Text} (h : t ≠ []) : 0 < Text.byteSize t := by
  obtain ⟨c, t, rfl⟩ := List.exists_cons_of_ne_nil h
  have := c.utf8Size_pos
  simp
  omega

/-! ## Tokens and comments -/

/-- A gap before all tokens meets none. -/
theorem Stream.cons_gap {source : Text} {gaps : List Span} {gap : Span} {ts : List Token}
    (h : Stream ⟨source, gaps⟩ ts) (hgap : ∀ t ∈ ts, gap.stop ≤ t.start) :
    Stream ⟨source, gap :: gaps⟩ ts := by
  induction ts with
  | nil => trivial
  | cons t ts ih =>
    obtain ⟨hprevious, hnext, hclear, hon, hrest⟩ := h
    refine ⟨hprevious, hnext, ?_, hon, ih hrest fun u hu => hgap u (List.mem_cons_of_mem _ hu)⟩
    intro c hc
    rcases List.mem_cons.1 hc with rfl | hc
    · exact Or.inl (hgap t List.mem_cons_self)
    · exact hclear c hc

/-- A comment as a node: it is not empty, holds nothing, plays no part, and stands in the source. -/
structure Node.Comment (source : Text) (c : Node) : Prop where
  isComment : c.isComment = true
  span : c.span.start < c.span.stop
  role : c.role = none
  children : c.children = []
  stands : c.Stands source

theorem Node.Comment.faithful {source : Text} {c : Node} (h : c.Comment source) :
    c.Faithful source := by
  have hkind : c.kind = .lineComment ∨ c.kind = .blockComment := by
    simpa [Node.isComment] using h.isComment
  refine ⟨⟨⟨fun heq => ?_, fun heq => ?_⟩, fun heq => ?_, fun _ => h.role⟩, h.stands⟩
  · rcases hkind with hkind | hkind <;> cases heq.symm.trans hkind
  · rcases hkind with hkind | hkind <;> cases heq.symm.trans hkind
  · cases h.role.symm.trans heq

/-- Tokens and comments of a source from a byte offset on: the tokens stand in order, the comments
too, and they do not meet. -/
structure Lexed (source : Text) (previous start : Nat) (l : Lexemes) : Prop where
  stream : Stream ⟨source, l.comments.map Node.span⟩ l.tokens
  head : ∀ t ∈ l.tokens.head?, t.previousStop = previous
  tokens : ∀ t ∈ l.tokens, start ≤ t.start
  comments : ∀ c ∈ l.comments, c.Comment source ∧ start ≤ c.span.start
  order : l.comments.Pairwise fun c d => c.span.stop ≤ d.span.start

namespace Lexed

variable {source text rest : Text} {previous start n : Nat} {l : Lexemes}

theorem comment (htext : text ≠ []) (hrest : RestAt source start (text ++ rest)) {kind : Kind}
    (hkind : (commentNode kind start text).isComment = true)
    (h : Lexed source previous (start + Text.byteSize text) l) :
    Lexed source previous start
      { l with comments := commentNode kind start text :: l.comments } := by
  have hpos := byteSize_pos htext
  refine ⟨?_, h.head, ?_, ?_, ?_⟩
  · exact h.stream.cons_gap h.tokens
  · exact fun t ht => Nat.le_trans (Nat.le_add_right _ _) (h.tokens t ht)
  · intro c hc
    rcases List.mem_cons.1 hc with rfl | hc
    · have hstands := hrest.stands (n := commentNode kind start text) rfl (List.prefix_append _ _)
      exact ⟨⟨hkind, Nat.lt_add_of_pos_right hpos, rfl, rfl, hstands⟩, Nat.le_refl _⟩
    · obtain ⟨hcomment, hstart⟩ := h.comments c hc
      exact ⟨hcomment, Nat.le_trans (Nat.le_add_right _ _) hstart⟩
  · exact List.pairwise_cons.2 ⟨fun c hc => (h.comments c hc).2, h.order⟩

theorem token (htext : text ≠ []) (hrest : RestAt source start (text ++ rest))
    (hprevious : previous ≤ start) (kind : TokenKind)
    (h : Lexed source (start + Text.byteSize text) (start + Text.byteSize text) l) :
    Lexed source previous start
      { l with tokens := ⟨kind, text, start, previous, text ++ rest⟩ :: l.tokens } := by
  have hpos := byteSize_pos htext
  refine ⟨⟨hprevious, ?_, ?_, ⟨hrest, List.prefix_append _ _⟩, h.stream⟩, ?_, ?_, ?_, h.order⟩
  · exact fun u hu => ⟨Nat.lt_add_of_pos_right hpos, h.head u hu⟩
  · intro gap hgap
    obtain ⟨c, hc, rfl⟩ := List.mem_map.1 hgap
    exact Or.inr (h.comments c hc).2
  · rintro t ht
    obtain rfl := Option.some.inj ht
    rfl
  · intro t ht
    rcases List.mem_cons.1 ht with rfl | ht
    · exact Nat.le_refl _
    · exact Nat.le_trans (Nat.le_add_right _ _) (h.tokens t ht)
  · intro c hc
    obtain ⟨hcomment, hstart⟩ := h.comments c hc
    exact ⟨hcomment, Nat.le_trans (Nat.le_add_right _ _) hstart⟩

theorem blank (h : Lexed source previous (start + n) l) : Lexed source previous start l :=
  { h with
    tokens := fun t ht => Nat.le_trans (Nat.le_add_right _ _) (h.tokens t ht)
    comments := fun c hc =>
      ⟨(h.comments c hc).1, Nat.le_trans (Nat.le_add_right _ _) (h.comments c hc).2⟩ }

end Lexed

theorem lexed_tokenizeFrom (fuel : Nat) {source t : Text} {start previous : Nat}
    (hrest : RestAt source start t) (hprevious : previous ≤ start) (holes : List Hole) :
    Lexed source previous start (tokenizeFrom fuel start previous holes t) := by
  induction fuel generalizing start previous holes t with
  | zero =>
    show Lexed source previous start ⟨[], []⟩
    exact ⟨trivial, by simp, by simp, by simp, .nil⟩
  | succ fuel ih =>
    unfold tokenizeFrom
    dsimp only
    split
    · refine ⟨⟨hprevious, by simp, by simp, ⟨hrest, List.prefix_refl _⟩, trivial⟩, ?_, ?_, by simp,
        .nil⟩
      · rintro t ht
        obtain rfl := Option.some.inj ht
        rfl
      · rintro t ht
        obtain rfl := List.mem_singleton.1 ht
        exact Nat.le_refl _
    · next r =>
      have hline : '/' :: '/' :: (spanOf (· != '\n') r).1 ++ (spanOf (· != '\n') r).2 =
          '/' :: '/' :: r := congrArg (fun t => '/' :: '/' :: t) (spanOf_append _ r)
      rw [← hline] at hrest
      exact .comment (by simp) hrest rfl (ih hrest.drop (by omega) _)
    · next r =>
      have hblock : '/' :: '*' :: (takeBlockComment r).1 ++ (takeBlockComment r).2 =
          '/' :: '*' :: r := congrArg (fun t => '/' :: '*' :: t) (takeBlockComment_append r)
      rw [← hblock] at hrest
      exact .comment (by simp) hrest rfl (ih hrest.drop (by omega) _)
    · next c r _ _ =>
      split
      · have hdrop := RestAt.drop (t := [c]) hrest
        exact .blank (ih (by simpa using hdrop) (by omega) _)
      · have htoken := nextToken_append holes (c :: r)
        have hne := nextToken_ne_nil holes c r
        rw [← htoken] at hrest
        have hlexed := Lexed.token hne hrest hprevious (nextToken holes (c :: r)).1
          (ih hrest.drop (Nat.le_refl _) (nextToken holes (c :: r)).2.2.2)
        rwa [htoken] at hlexed

theorem lexed_tokenize (source : Text) : ∃ start, Lexed source 0 start (tokenize source) := by
  unfold tokenize
  split
  · next c t =>
    split
    · exact ⟨_, lexed_tokenizeFrom _ ⟨[c], rfl, by simp⟩ (Nat.zero_le _) _⟩
    · exact ⟨_, lexed_tokenizeFrom _ ⟨[], rfl, rfl⟩ (Nat.le_refl _) _⟩
  · exact ⟨_, lexed_tokenizeFrom _ ⟨[], rfl, rfl⟩ (Nat.le_refl _) _⟩

end SqlInjection.Java
