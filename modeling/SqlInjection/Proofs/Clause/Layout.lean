import SqlInjection.Clause.Statement
import SqlInjection.Proofs.Text.Cutting
import SqlInjection.Proofs.Text.Words

/-!
# Statements in another layout

A statement may be wrapped over lines: `Relaid` says that two texts differ at most in which blanks
they hold. Whether a text mentions a verb does not depend on its layout, but whether it reads like a
filtered statement does.

* `ReadsAcross`: a verb, a table word and a `where`, and between them two gaps of which every
  character is in a class. The recogniser reads across gaps without line feeds
  (`isFilteredStatement_iff`);
* `ReadsAcross.relaid`: what becomes of a reading when the layout changes.

`layout_independent_iff` says which texts are judged alike in every layout. A statement that is only
read across blanks is not, as a line feed in a gap hides it (`line_feed_hides_statement`).
-/

namespace SqlInjection

open Text

/-! ## Layouts -/

/-- Characters that are the same, or both blank. -/
def SameInk (c d : Char) : Prop := c = d ∨ isBlank c = true ∧ isBlank d = true
deriving Decidable

/-- The second text is the first with some of its blanks replaced by others. -/
def Relaid (t u : Text) : Prop := List.Forall₂ SameInk t u
deriving Decidable

theorem SameInk.isBlank_eq {c d : Char} (h : SameInk c d) : isBlank c = isBlank d := by
  rcases h with rfl | ⟨hc, hd⟩
  · rfl
  · rw [hc, hd]

theorem SameInk.eq {c d : Char} (h : SameInk c d) (hc : isBlank c = false) : c = d := by
  rcases h with rfl | ⟨hc', -⟩
  · rfl
  · rw [hc] at hc'
    cases hc'

theorem SameInk.symm {c d : Char} (h : SameInk c d) : SameInk d c := by
  rcases h with rfl | ⟨hc, hd⟩
  · exact Or.inl rfl
  · exact Or.inr ⟨hd, hc⟩

theorem Relaid.refl (t : Text) : Relaid t t := List.forall₂_same.2 fun _ _ => Or.inl rfl

theorem Relaid.symm {t u : Text} (h : Relaid t u) : Relaid u t :=
  List.Forall₂.flip (h.imp fun _ _ => SameInk.symm)

/-- A text in two parts corresponds to one in two parts. -/
theorem exists_append_of_forall₂ {R : Char → Char → Prop} {a b u : Text}
    (h : List.Forall₂ R (a ++ b) u) :
    ∃ a' b', u = a' ++ b' ∧ List.Forall₂ R a a' ∧ List.Forall₂ R b b' :=
  ⟨u.take a.length, u.drop a.length, (List.take_append_drop a.length u).symm,
    (List.forall₂_take_append u a b h.flip).flip, (List.forall₂_drop_append u a b h.flip).flip⟩

theorem forall_of_forall₂ {R : Char → Char → Prop} {g g' : Char → Prop}
    (hg : ∀ c d, R c d → g c → g' d) {a a' : Text} (h : List.Forall₂ R a a')
    (ha : ∀ c ∈ a, g c) : ∀ d ∈ a', g' d := by
  induction h with
  | nil => simp
  | cons hc _ ih =>
    simp only [List.forall_mem_cons] at ha ⊢
    exact ⟨hg _ _ hc ha.1, ih ha.2⟩

/-! ## Readings -/

/-- One of the words, then blanks, then a text with `q`. -/
def WordThen (ws : List Text) (q : Text → Prop) (t : Text) : Prop :=
  ∃ l b s, t = l ++ (b ++ s) ∧ (∃ w ∈ ws, IsWord w l) ∧ b ≠ [] ∧ (∀ c ∈ b, isBlank c = true) ∧ q s

/-- A gap with characters in `g` only, then a text with `q`. -/
def AfterGap (g : Char → Prop) (q : Text → Prop) (t : Text) : Prop :=
  ∃ gap s, t = gap ++ s ∧ (∀ c ∈ gap, g c) ∧ q s

/-- The word `where` at the front of a text. -/
def OpensFilter (t : Text) : Prop := ∃ l s, t = l ++ s ∧ IsWord "where".toList l

/-- A verb, a table word and `where`, in this order, with a gap in front of the second and one in
front of the third that hold characters in `g` only. -/
def ReadsAcross (g : Char → Prop) (t : Text) : Prop :=
  ∃ b s, t = b ++ s ∧ (∀ c ∈ b, isBlank c = true) ∧
    WordThen statementVerbs (AfterGap g (WordThen tableWords (AfterGap g OpensFilter))) s

/-- Words that begin with different small letters and hold no blank. -/
structure Keywords (ws : List Text) : Prop where
  small : ∀ w ∈ ws, w.head?.any Char.isLower = true
  distinct : ∀ w ∈ ws, ∀ v ∈ ws, w.head? = v.head? → w = v
  ink : ∀ w ∈ ws, ∀ x ∈ w, isBlank x = false

theorem keywords_statementVerbs : Keywords statementVerbs := ⟨by decide, by decide, by decide⟩

theorem keywords_tableWords : Keywords tableWords := ⟨by decide, by decide, by decide⟩

theorem keywords_where : Keywords ["where".toList] := ⟨by decide, by decide, by decide⟩

theorem Keywords.ink_of_isWord {ws : List Text} (hws : Keywords ws) {l : Text}
    (hl : ∃ w ∈ ws, IsWord w l) : ∀ c ∈ l, isBlank c = false := by
  obtain ⟨w, hw, hl⟩ := hl
  exact hl.ink (hws.ink w hw)

theorem Keywords.head_ink {ws : List Text} (hws : Keywords ws) {l : Text}
    (hl : ∃ w ∈ ws, IsWord w l) (s : Text) : ∀ c ∈ (l ++ s).head?, isBlank c = false := by
  have hink := hws.ink_of_isWord hl
  obtain ⟨w, hw, hl⟩ := hl
  cases hl with
  | nil => simpa using hws.small [] hw
  | cons _ _ => simpa using hink _ List.mem_cons_self

theorem OpensFilter.head_ink {t : Text} (h : OpensFilter t) :
    ∀ c ∈ t.head?, isBlank c = false := by
  obtain ⟨l, s, rfl, hl⟩ := h
  exact keywords_where.head_ink ⟨_, List.mem_singleton_self _, hl⟩ s

theorem WordThen.head_ink {ws : List Text} (hws : Keywords ws) {q : Text → Prop} {t : Text}
    (h : WordThen ws q t) : ∀ c ∈ t.head?, isBlank c = false := by
  obtain ⟨l, b, s, rfl, hl, -⟩ := h
  exact hws.head_ink hl (b ++ s)

/-- Blanks in front of a gap do not count. -/
theorem AfterGap.trimStart {g : Char → Prop} {q : Text → Prop} {t : Text}
    (hq : ∀ s, q s → ∀ c ∈ s.head?, isBlank c = false) (h : AfterGap g q t) :
    AfterGap g q (trimStart t) := by
  obtain ⟨gap, s, rfl, hgap, hs⟩ := h
  refine ⟨Text.trimStart gap, s, ?_, fun c hc => hgap c ((List.dropWhile_sublist _).subset hc), hs⟩
  have hs' : s.dropWhile isBlank = s := (span_append (s := []) (by simp) (hq s hs)).2
  rw [Text.trimStart, List.dropWhile_append]
  split
  · rename_i hgap
    rw [hs', Text.trimStart, List.isEmpty_iff.1 hgap, List.nil_append]
  · rfl

theorem somewhereInLine_iff {p : Text → Bool} {q : Text → Prop} (hpq : ∀ s, p s = true ↔ q s)
    {t : Text} : somewhereInLine p t = true ↔ AfterGap (· ≠ '\n') q t := by
  induction t with
  | nil =>
    rw [somewhereInLine, hpq]
    constructor
    · exact fun h => ⟨[], [], rfl, by simp, h⟩
    · rintro ⟨gap, s, heq, -, hs⟩
      obtain ⟨rfl, rfl⟩ := List.append_eq_nil_iff.1 heq.symm
      exact hs
  | cons c t ih =>
    rw [somewhereInLine, Bool.or_eq_true, Bool.and_eq_true, bne_iff_ne, hpq, ih]
    constructor
    · rintro (h | ⟨hc, gap, s, rfl, hgap, hs⟩)
      · exact ⟨[], c :: t, rfl, by simp, h⟩
      · exact ⟨c :: gap, s, rfl, List.forall_mem_cons.2 ⟨hc, hgap⟩, hs⟩
    · rintro ⟨gap, s, heq, hgap, hs⟩
      cases gap with
      | nil => exact Or.inl (heq ▸ hs)
      | cons d gap =>
        obtain ⟨rfl, rfl⟩ := List.cons.inj heq
        obtain ⟨hc, hgap⟩ := List.forall_mem_cons.1 hgap
        exact Or.inr ⟨hc, gap, s, rfl, hgap, hs⟩

/-- The scan skips all blanks behind the word, also those that a gap could begin with; so `q` must
not depend on them. -/
theorem wordThen_iff {ws : List Text} (hws : Keywords ws) {p : Text → Bool} {q : Text → Prop}
    (hpq : ∀ s, p s = true ↔ q s) (htrim : ∀ s, q s → q (trimStart s)) {t : Text} :
    wordThen ws p t = true ↔ WordThen ws q t := by
  have hread : wordThen ws p t = true ↔ ∃ r, stripAnyWord? ws t = some r ∧
      startsBlank r = true ∧ q (trimStart r) := by
    rw [wordThen]
    cases stripAnyWord? ws t <;> simp [hpq]
  simp only [hread, stripAnyWord?_eq_some_iff hws.small hws.distinct]
  constructor
  · rintro ⟨r, ⟨w, hw, l, rfl, hl⟩, hblank, hq⟩
    refine ⟨l, r.takeWhile isBlank, trimStart r, ?_, ⟨w, hw, hl⟩, ?_,
      fun _ hc => List.mem_takeWhile_imp hc, hq⟩
    · rw [trimStart, List.takeWhile_append_dropWhile]
    · cases r with
      | nil => cases hblank
      | cons c r =>
        have hc : isBlank c = true := hblank
        simp [hc]
  · rintro ⟨l, b, s, rfl, ⟨w, hw, hl⟩, hne, hb, hq⟩
    refine ⟨b ++ s, ⟨w, hw, l, rfl, hl⟩, ?_, ?_⟩
    · obtain ⟨c, b, rfl⟩ := List.exists_cons_of_ne_nil hne
      exact hb c List.mem_cons_self
    · rw [trimStart, List.dropWhile_append_of_pos hb]
      exact htrim s hq

theorem filtersInLine_iff {t : Text} :
    filtersInLine t = true ↔ AfterGap (· ≠ '\n') OpensFilter t :=
  somewhereInLine_iff fun s => by
    rw [Option.isSome_iff_exists]
    simp only [stripWord?_eq_some_iff, OpensFilter]
    exact exists_comm

/-- A text reads like a filtered statement exactly when both gaps end on the line they begin on. -/
theorem isFilteredStatement_iff {t : Text} :
    isFilteredStatement t = true ↔ ReadsAcross (· ≠ '\n') t := by
  have htable : ∀ s, wordThen tableWords filtersInLine s = true ↔
      WordThen tableWords (AfterGap (· ≠ '\n') OpensFilter) s := by
    refine fun s => wordThen_iff keywords_tableWords (fun _ => filtersInLine_iff) ?_
    exact fun _ h => h.trimStart fun _ => OpensFilter.head_ink
  have hverb : wordThen statementVerbs (somewhereInLine (wordThen tableWords filtersInLine))
        (trimStart t) = true ↔ WordThen statementVerbs (AfterGap (· ≠ '\n')
          (WordThen tableWords (AfterGap (· ≠ '\n') OpensFilter))) (trimStart t) := by
    refine wordThen_iff keywords_statementVerbs (fun _ => somewhereInLine_iff htable) ?_
    exact fun _ h => h.trimStart fun _ => WordThen.head_ink keywords_tableWords
  rw [isFilteredStatement, hverb]
  constructor
  · intro h
    obtain ⟨b, hb, hblank⟩ := trimStart_append t
    exact ⟨b, trimStart t, hb.symm, hblank, h⟩
  · rintro ⟨b, s, rfl, hb, h⟩
    rwa [trimStart_blank_append hb (h.head_ink keywords_statementVerbs)]

/-! ## Readings in another layout -/

section

variable {R : Char → Char → Prop} (hR : ∀ c d, R c d → SameInk c d)
include hR

theorem blank_of_forall₂ {b b' : Text} (h : List.Forall₂ R b b')
    (hb : ∀ c ∈ b, isBlank c = true) : ∀ c ∈ b', isBlank c = true :=
  forall_of_forall₂ (fun c d hcd hc => (hR c d hcd).isBlank_eq ▸ hc) h hb

theorem eq_of_forall₂ {l l' : Text} (h : List.Forall₂ R l l')
    (hl : ∀ c ∈ l, isBlank c = false) : l' = l := by
  induction h with
  | nil => rfl
  | cons hcd _ ih =>
    obtain ⟨hc, hl⟩ := List.forall_mem_cons.1 hl
    rw [ih hl, (hR _ _ hcd).eq hc]

theorem WordThen.relaid {ws : List Text} (hws : Keywords ws) {q q' : Text → Prop}
    (hq : ∀ s s', List.Forall₂ R s s' → q s → q' s') {t u : Text} (h : WordThen ws q t)
    (htu : List.Forall₂ R t u) : WordThen ws q' u := by
  obtain ⟨l, b, s, rfl, hl, hne, hb, hs⟩ := h
  obtain ⟨l', r', rfl, hll, hr⟩ := exists_append_of_forall₂ htu
  obtain ⟨b', s', rfl, hbb, hss⟩ := exists_append_of_forall₂ hr
  have hne' : b' ≠ [] := by
    rintro rfl
    cases hbb
    exact hne rfl
  rw [eq_of_forall₂ hR hll (hws.ink_of_isWord hl)]
  exact ⟨l, b', s', rfl, hl, hne', blank_of_forall₂ hR hbb hb, hq s s' hss hs⟩

theorem OpensFilter.relaid {t u : Text} (h : OpensFilter t) (htu : List.Forall₂ R t u) :
    OpensFilter u := by
  obtain ⟨l, s, rfl, hl⟩ := h
  obtain ⟨l', s', rfl, hll, -⟩ := exists_append_of_forall₂ htu
  have hink := keywords_where.ink_of_isWord ⟨_, List.mem_singleton_self _, hl⟩
  rw [eq_of_forall₂ hR hll hink]
  exact ⟨l, s', rfl, hl⟩

variable {g g' : Char → Prop} (hg : ∀ c d, R c d → g c → g' d)
include hg

omit hR in
theorem AfterGap.relaid {q q' : Text → Prop}
    (hq : ∀ s s', List.Forall₂ R s s' → q s → q' s') {t u : Text} (h : AfterGap g q t)
    (htu : List.Forall₂ R t u) : AfterGap g' q' u := by
  obtain ⟨gap, s, rfl, hgap, hs⟩ := h
  obtain ⟨gap', s', rfl, hgg, hss⟩ := exists_append_of_forall₂ htu
  exact ⟨gap', s', rfl, forall_of_forall₂ hg hgg hgap, hq s s' hss hs⟩

/-- A reading stays one in another layout, with the gaps that the layout gives it. -/
theorem ReadsAcross.relaid {t u : Text} (h : ReadsAcross g t) (htu : List.Forall₂ R t u) :
    ReadsAcross g' u := by
  obtain ⟨b, s, rfl, hb, hs⟩ := h
  obtain ⟨b', s', rfl, hbb, hss⟩ := exists_append_of_forall₂ htu
  refine ⟨b', s', rfl, blank_of_forall₂ hR hbb hb, ?_⟩
  refine hs.relaid hR keywords_statementVerbs (fun _ _ hrest htable => ?_) hss
  refine htable.relaid hg (fun _ _ hrest htable => ?_) hrest
  refine htable.relaid hR keywords_tableWords (fun _ _ hrest hfilter => ?_) hrest
  exact hfilter.relaid hg (fun _ _ hrest hwhere => hwhere.relaid hR hrest) hrest

end

/-! ## Verbs in another layout -/

theorem isWordChar_of_isBlank {c : Char} (h : isBlank c = true) : isWordChar c = false :=
  eq_false_of_isBlank (by decide +kernel) h

theorem SameInk.isWordChar_eq {c d : Char} (h : SameInk c d) : isWordChar c = isWordChar d := by
  rcases h with rfl | ⟨hc, hd⟩
  · rfl
  · rw [isWordChar_of_isBlank hc, isWordChar_of_isBlank hd]

theorem Relaid.wordThen_eq {t u : Text} (h : Relaid t u) :
    wordThen statementVerbs (fun _ => true) u = wordThen statementVerbs (fun _ => true) t := by
  have hread : ∀ s, wordThen statementVerbs (fun _ => true) s = true ↔
      WordThen statementVerbs (fun _ => True) s := fun s =>
    wordThen_iff keywords_statementVerbs (by simp) (by simp)
  have hmoves : ∀ {s s'}, Relaid s s' → WordThen statementVerbs (fun _ => True) s →
      WordThen statementVerbs (fun _ => True) s' := fun hss hs =>
    hs.relaid (fun _ _ => id) keywords_statementVerbs (fun _ _ _ => id) hss
  rw [Bool.eq_iff_iff, hread, hread]
  exact ⟨hmoves h.symm, hmoves h⟩

/-- Whether a verb is mentioned does not depend on the layout. -/
theorem Relaid.mentionsVerbFrom_eq {t u : Text} (h : Relaid t u) (inWord : Bool) :
    mentionsVerbFrom inWord u = mentionsVerbFrom inWord t := by
  induction h generalizing inWord with
  | nil => rfl
  | @cons c d t u hcd htu ih =>
    have hverb : Relaid (c :: t) (d :: u) := List.Forall₂.cons hcd htu
    rw [mentionsVerbFrom, mentionsVerbFrom, hverb.wordThen_eq, ih, hcd.isWordChar_eq]

/-! ## Every layout -/

/-- The text with `b` for each of its blanks. -/
def Text.withBlank (b : Char) (t : Text) : Text := t.map fun c => if isBlank c then b else c

theorem forall₂_withBlank {b : Char} (hb : isBlank b = true) (t : Text) :
    List.Forall₂ (fun c d => SameInk c d ∧ (isBlank c = true → d = b)) t (t.withBlank b) := by
  rw [Text.withBlank, List.forall₂_map_right_iff, List.forall₂_same]
  intro c _
  split
  · rename_i hc
    exact ⟨Or.inr ⟨hc, hb⟩, fun _ => rfl⟩
  · rename_i hc
    exact ⟨Or.inl rfl, fun hc' => absurd hc' hc⟩

theorem relaid_withBlank {b : Char} (hb : isBlank b = true) (t : Text) :
    Relaid t (t.withBlank b) :=
  (forall₂_withBlank hb t).imp fun _ _ => And.left

/-- On one line every reading counts. -/
theorem isFilteredStatement_withBlank_space {t : Text} (h : ReadsAcross (fun _ => True) t) :
    isFilteredStatement (t.withBlank ' ') = true := by
  refine isFilteredStatement_iff.2 (h.relaid (fun _ _ => And.left) ?_ (forall₂_withBlank rfl t))
  rintro c _ ⟨hcd, hblank⟩ - rfl
  exact absurd (hblank (hcd.isBlank_eq.trans rfl)) (by decide)

/-- With a line feed for each blank, only the readings count whose gaps hold no blank. -/
theorem readsAcross_of_withBlank_lineFeed {t : Text}
    (h : isFilteredStatement (t.withBlank '\n') = true) :
    ReadsAcross (fun c => isBlank c = false) t := by
  refine (isFilteredStatement_iff.1 h).relaid (fun _ _ hcd => hcd.1.symm) ?_
    (forall₂_withBlank rfl t).flip
  rintro d c ⟨-, hblank⟩ hd
  by_contra hc
  exact hd (hblank (Bool.not_eq_false _ ▸ hc))

/-- A reading whose gaps hold no blank counts in every layout. -/
theorem ReadsAcross.isFilteredStatement_of_relaid {t u : Text}
    (h : ReadsAcross (fun c => isBlank c = false) t) (htu : Relaid t u) :
    isFilteredStatement u = true := by
  refine isFilteredStatement_iff.2 (h.relaid (fun _ _ => id) ?_ htu)
  rintro c _ hcd hc rfl
  exact absurd (hcd.isBlank_eq.symm.trans hc) (by decide)

/-- **Which texts are judged alike in every layout.** A text is exactly when, if it reads like a
filtered statement across any gaps, it does so across gaps that hold no blank at all. Line feeds can
only hide a statement: where a text reads like one, so does every layout of it that has a line feed
only where the text has one. Whether a verb is mentioned never depends on the layout. -/
theorem layout_independent_iff (t : Text) :
    ((∀ u, Relaid t u → isFilteredStatement u = isFilteredStatement t) ↔
        (ReadsAcross (fun _ => True) t → ReadsAcross (fun c => isBlank c = false) t)) ∧
      (∀ u, List.Forall₂ (fun c d => SameInk c d ∧ (d = '\n' → c = '\n')) t u →
        isFilteredStatement t = true → isFilteredStatement u = true) ∧
      ∀ u, Relaid t u → mentionsVerb u = mentionsVerb t := by
  refine ⟨⟨fun hsame hread => ?_, fun hread u hu => ?_⟩, fun u hu h => ?_,
    fun u hu => hu.mentionsVerbFrom_eq false⟩
  · -- of all layouts, the one on a single line counts most and the one with a line feed for each
    -- blank least
    apply readsAcross_of_withBlank_lineFeed
    have hline : Relaid t (t.withBlank ' ') := relaid_withBlank rfl t
    rw [hsame _ (relaid_withBlank rfl t), ← hsame _ hline]
    exact isFilteredStatement_withBlank_space hread
  · have hany : ∀ s, Relaid t s → isFilteredStatement s = true →
        ReadsAcross (fun _ => True) t := fun s hs h =>
      (isFilteredStatement_iff.1 h).relaid (fun _ _ => id) (fun _ _ _ _ => trivial) hs.symm
    rw [Bool.eq_iff_iff]
    exact ⟨fun h => (hread (hany u hu h)).isFilteredStatement_of_relaid (Relaid.refl t),
      fun h => (hread (hany t (Relaid.refl t) h)).isFilteredStatement_of_relaid hu⟩
  · rw [isFilteredStatement_iff] at h ⊢
    exact h.relaid (fun _ _ => And.left) (fun _ _ hcd hc hd => hc (hcd.2 hd)) hu

/-- A text without blanks in its gaps is taken for a statement in every layout. -/
theorem layout_independent_touching :
    ∀ u, Relaid "update set where a = ?".toList u → isFilteredStatement u = true := by
  have hread : isFilteredStatement "update set where a = ?".toList = true := by decide
  have hbare : ReadsAcross (fun c => isBlank c = false) "update set where a = ?".toList :=
    readsAcross_of_withBlank_lineFeed (by decide)
  intro u hu
  rw [(layout_independent_iff "update set where a = ?".toList).1.2 (fun _ => hbare) u hu, hread]

/-- A statement wrapped in front of its table clause is no longer taken for one. -/
theorem line_feed_hides_statement :
    Relaid "select * from T where id = ?".toList "select *\nfrom T where id = ?".toList ∧
      isFilteredStatement "select * from T where id = ?".toList = true ∧
      isFilteredStatement "select *\nfrom T where id = ?".toList = false := by
  decide

end SqlInjection
