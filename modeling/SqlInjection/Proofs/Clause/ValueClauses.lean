import SqlInjection.Clause.Position
import SqlInjection.Proofs.Text.Cutting
import SqlInjection.Proofs.Text.SmallLetters

/-!
# Value clauses and the positions taken out of them

A point of a chain that stands in a `where` or a `values` clause holds a value, unless the text
before it leads to a name. What leads to a name is told here by the texts themselves: `PrecedesName`
by how they start and end, `EndsInOrdering` and `EndsInItems` by a keyword that only a list of items
follows. All of them are asked before the clause is, and so they hide it from the verdict:
`value_clause_unless_taken_out` says when they do, and `value_clause_taken_out` shows a clause that
is hidden.

* `Clause.words_split`: a word of a text stands in the text, and the words behind it come from the
  text behind it;
* `isItemList_iff`: reading a list with items as long as can be finds every list (`Items`);
* `leadsToSortItem_iff`: the keywords are found wherever they stand, also inside a word.
-/

namespace SqlInjection

open Text

/-! ## Words -/

namespace Clause

/-- What stands between words. -/
def isBreak (c : Char) : Bool := isBlank c || c == '('

theorem words_eq (t : Text) : words t = (splitBy isBreak t).filter fun w => !w.isEmpty := rfl

theorem words_append_break {c : Char} (hc : isBreak c = true) (x y : Text) :
    words (x ++ c :: y) = words x ++ words y := by
  rw [words_eq, splitBy_append_break hc, List.filter_append, words_eq, words_eq]

theorem words_cons_break {c : Char} (hc : isBreak c = true) (t : Text) :
    words (c :: t) = words t := words_append_break hc [] t

theorem words_of_letters {w : Text} (hne : w ≠ []) (hw : ∀ c ∈ w, isBreak c = false) :
    words w = [w] := by
  have hsplit : splitBy isBreak w = [w] := by
    clear hne
    induction w with
    | nil => rfl
    | cons c w ih =>
      rw [splitBy, if_neg (by simp [hw c List.mem_cons_self]),
        ih fun d hd => hw d (List.mem_cons_of_mem c hd)]
  rw [words_eq, hsplit]
  simp [hne]

theorem words_letters_append {w r : Text} (hne : w ≠ []) (hw : ∀ c ∈ w, isBreak c = false)
    (hr : ∀ c ∈ r.head?, isBreak c = true) : words (w ++ r) = w :: words r := by
  cases r with
  | nil => rw [List.append_nil, words_of_letters hne hw]; rfl
  | cons c r =>
    have hc : isBreak c = true := hr c rfl
    rw [words_append_break hc, words_of_letters hne hw, words_cons_break hc]
    rfl

theorem words_blank_append {b : Text} (hb : ∀ c ∈ b, isBlank c = true) (t : Text) :
    words (b ++ t) = words t := by
  induction b with
  | nil => rfl
  | cons c b ih =>
    rw [List.cons_append, words_cons_break (by simp [isBreak, hb c List.mem_cons_self])]
    exact ih fun d hd => hb d (List.mem_cons_of_mem c hd)

theorem words_eq_nil {b : Text} (hb : ∀ c ∈ b, isBlank c = true) : words b = [] := by
  have := words_blank_append hb []
  rwa [List.append_nil] at this

theorem words_append_blank {b : Text} (hb : ∀ c ∈ b, isBlank c = true) (t : Text) :
    words (t ++ b) = words t := by
  cases b with
  | nil => rw [List.append_nil]
  | cons c b =>
    rw [words_append_break (by simp [isBreak, hb c List.mem_cons_self]),
      words_eq_nil fun d hd => hb d (List.mem_cons_of_mem c hd), List.append_nil]

/-- Blanks at the ends of a text belong to no word. -/
theorem words_trim (t : Text) : words (trim t) = words t := by
  obtain ⟨b, hb, hblank⟩ := trimStart_append t
  obtain ⟨b', hb', hblank'⟩ := trimEnd_append (trimStart t)
  calc words (trim t)
      = words (trim t ++ b') := (words_append_blank hblank' _).symm
    _ = words (trimStart t) := congrArg words hb'
    _ = words (b ++ trimStart t) := (words_blank_append hblank _).symm
    _ = words t := congrArg words hb

/-- The first word of a text stands in it. -/
theorem words_eq_cons_inv {t w : Text} {ws : List Text} (h : words t = w :: ws) :
    ∃ b r, t = b ++ (w ++ r) ∧ words r = ws := by
  induction t with
  | nil => cases h
  | cons c t ih =>
    by_cases hc : isBreak c = true
    · rw [words_cons_break hc] at h
      obtain ⟨b, r, rfl, hr⟩ := ih h
      exact ⟨c :: b, r, rfl, hr⟩
    · -- the word goes up to the first break
      have hne : (c :: t).takeWhile (!isBreak ·) ≠ [] := by simp [hc]
      have hletters : ∀ d ∈ (c :: t).takeWhile (!isBreak ·), isBreak d = false := fun d hd => by
        simpa using List.mem_takeWhile_imp hd
      have hbreak : ∀ d ∈ ((c :: t).dropWhile (!isBreak ·)).head?, isBreak d = true := by
        intro d hd
        have := List.head?_dropWhile_not (!isBreak ·) (c :: t)
        rw [Option.mem_def.1 hd] at this
        simpa using this
      have hfirst := words_letters_append hne hletters hbreak
      rw [List.takeWhile_append_dropWhile, h] at hfirst
      obtain ⟨rfl, rfl⟩ := List.cons.inj hfirst
      exact ⟨[], _, List.takeWhile_append_dropWhile.symm, rfl⟩

/-- Every word of a text stands in it, and the words behind it come from the text behind it. -/
theorem words_split {t w : Text} {ws₁ ws₂ : List Text} (h : words t = ws₁ ++ w :: ws₂) :
    ∃ a r, t = a ++ (w ++ r) ∧ words r = ws₂ := by
  induction ws₁ generalizing t with
  | nil => exact words_eq_cons_inv h
  | cons x ws₁ ih =>
    obtain ⟨b, r, rfl, hr⟩ := words_eq_cons_inv h
    obtain ⟨a, r', rfl, hr'⟩ := ih hr
    exact ⟨b ++ x ++ a, r', by simp, hr'⟩

end Clause

/-! ## Lists of items -/

/-- A list of at most `n` items. An item is a run of letters, digits and the like, with a comma and
up to three blanks behind it or not. -/
inductive Items : Nat → Text → Prop
  | nil (n : Nat) : Items n []
  | cons {n : Nat} {item comma blanks rest : Text} (hne : item ≠ [])
      (hitem : ∀ c ∈ item, isItemChar c = true) (hcomma : comma = [] ∨ comma = [','])
      (hblanks : ∀ c ∈ blanks, isBlank c = true) (hshort : blanks.length ≤ 3)
      (hrest : Items n rest) : Items (n + 1) (item ++ (comma ++ (blanks ++ rest)))

theorem isItemList_succ {n : Nat} {t : Text} (h : isItemList n t = true) :
    isItemList (n + 1) t = true := by
  induction n generalizing t with
  | zero => simp_all [isItemList]
  | succ n ih =>
    rw [isItemList, Bool.or_eq_true, Bool.and_eq_true] at h ⊢
    exact h.imp_right fun h => ⟨h.1, ih h.2⟩

theorem dropOptional_comma (s : Text) :
    ∃ comma, s = comma ++ dropOptional (· == ',') s ∧ (comma = [] ∨ comma = [',']) := by
  cases s with
  | nil => exact ⟨[], rfl, Or.inl rfl⟩
  | cons c s =>
    by_cases hc : c = ','
    · exact ⟨[','], by simp [dropOptional, hc], Or.inr rfl⟩
    · exact ⟨[], by simp [dropOptional, hc], Or.inl rfl⟩

theorem dropAtMost_append (p : Char → Bool) (n : Nat) (s : Text) :
    ∃ u, s = u ++ dropAtMost p n s ∧ (∀ c ∈ u, p c = true) ∧ u.length ≤ n := by
  induction n generalizing s with
  | zero => exact ⟨[], by simp [dropAtMost], by simp, by simp⟩
  | succ n ih =>
    cases s with
    | nil => exact ⟨[], rfl, by simp, by simp⟩
    | cons c s =>
      by_cases hc : p c = true
      · obtain ⟨u, hu, hall, hlen⟩ := ih s
        refine ⟨c :: u, ?_, ?_, ?_⟩
        · simpa [dropAtMost, hc] using hu
        · simpa [hc] using hall
        · simpa using hlen
      · exact ⟨[], by simp [dropAtMost, hc], by simp, by simp⟩

theorem items_of_isItemList {n : Nat} {t : Text} (h : isItemList n t = true) : Items n t := by
  induction n generalizing t with
  | zero =>
    obtain rfl : t = [] := by simpa [isItemList] using h
    exact Items.nil 0
  | succ n ih =>
    rw [isItemList, Bool.or_eq_true, Bool.and_eq_true] at h
    rcases h with h | ⟨hne, hrest⟩
    · obtain rfl : t = [] := by simpa using h
      exact Items.nil _
    · obtain ⟨comma, hcomma, hcase⟩ := dropOptional_comma (t.dropWhile isItemChar)
      obtain ⟨blanks, hblanks, hall, hlen⟩ :=
        dropAtMost_append isBlank 3 (dropOptional (· == ',') (t.dropWhile isItemChar))
      have ht : t = t.takeWhile isItemChar ++ (comma ++ (blanks ++
          dropAtMost isBlank 3 (dropOptional (· == ',') (t.dropWhile isItemChar)))) := by
        rw [← hblanks, ← hcomma, List.takeWhile_append_dropWhile]
      rw [ht]
      exact Items.cons (by simpa using hne) (fun c hc => List.mem_takeWhile_imp hc) hcase hall hlen
        (ih hrest)

theorem isItemChar_of_isBlank {c : Char} (h : isBlank c = true) : isItemChar c = false :=
  eq_false_of_isBlank (by decide +kernel) h

theorem Items.head {n : Nat} {t : Text} (h : Items n t) : ∀ c ∈ t.head?, isBlank c = false := by
  cases h with
  | nil => simp
  | cons hne hitem =>
    intro c hc
    rw [List.head?_append_of_ne_nil _ hne] at hc
    by_contra hblank
    have := isItemChar_of_isBlank (Bool.not_eq_false _ ▸ hblank)
    rw [hitem c (List.mem_of_mem_head? hc)] at this
    cases this

theorem dropAtMost_of_blank {n : Nat} {blanks rest : Text} (hlen : blanks.length ≤ n)
    (hblanks : ∀ c ∈ blanks, isBlank c = true) (hrest : ∀ c ∈ rest.head?, isBlank c = false) :
    dropAtMost isBlank n (blanks ++ rest) = rest := by
  induction blanks generalizing n with
  | nil =>
    cases n with
    | zero => rw [List.nil_append, dropAtMost.eq_def]
    | succ n =>
      cases rest with
      | nil => rfl
      | cons c rest => simp [dropAtMost, hrest c rfl]
  | cons c blanks ih =>
    cases n with
    | zero => cases hlen
    | succ n =>
      rw [List.cons_append, dropAtMost, if_pos (hblanks c List.mem_cons_self)]
      exact ih (Nat.le_of_succ_le_succ hlen) fun d hd => hblanks d (List.mem_cons_of_mem c hd)

/-- An item is taken off a list where it ends, if something stands between it and the next one. -/
theorem isItemList_cons {n : Nat} {item comma blanks rest : Text} (hne : item ≠ [])
    (hitem : ∀ c ∈ item, isItemChar c = true) (hcomma : comma = [] ∨ comma = [','])
    (hblanks : ∀ c ∈ blanks, isBlank c = true) (hshort : blanks.length ≤ 3)
    (hrest : ∀ c ∈ rest.head?, isBlank c = false) (hends : comma ++ blanks = [] → rest = []) :
    isItemList (n + 1) (item ++ (comma ++ (blanks ++ rest))) = isItemList n rest := by
  have hblank : ∀ c ∈ (blanks ++ rest).head?, comma = [] → isBlank c = true := by
    rintro c hc rfl
    cases blanks with
    | nil =>
      rw [hends rfl] at hc
      cases hc
    | cons d blanks =>
      obtain rfl : d = c := by simpa using hc
      exact hblanks d List.mem_cons_self
  have hstop : ∀ c ∈ (comma ++ (blanks ++ rest)).head?, isItemChar c = false := by
    intro c hc
    rcases hcomma with rfl | rfl
    · exact isItemChar_of_isBlank (hblank c hc rfl)
    · obtain rfl : ',' = c := by simpa using hc
      decide
  obtain ⟨htake, hdrop⟩ := span_append hitem hstop
  have hoptional : dropOptional (· == ',') (comma ++ (blanks ++ rest)) = blanks ++ rest := by
    rcases hcomma with rfl | rfl
    · cases hs : blanks ++ rest with
      | nil => rfl
      | cons c s =>
        have hc : c ≠ ',' := by
          rintro rfl
          exact absurd (hblank ',' (by simp [hs]) rfl) (by decide)
        simp [dropOptional, hc]
    · rfl
  rw [isItemList, htake, hdrop, hoptional, dropAtMost_of_blank hshort hblanks hrest]
  obtain ⟨c, item, rfl⟩ := List.exists_cons_of_ne_nil hne
  rfl

theorem isItemList_of_items {n : Nat} {t : Text} (h : Items n t) : isItemList n t = true := by
  induction n generalizing t with
  | zero => cases h; rfl
  | succ n ih =>
    cases h with
    | nil => rfl
    | @cons _ item comma blanks rest hne hitem hcomma hblanks hshort hrest =>
      by_cases hends : comma ++ blanks = [] → rest = []
      · rw [isItemList_cons hne hitem hcomma hblanks hshort hrest.head hends]
        exact ih hrest
      · -- two items that touch are one
        obtain ⟨htouch, hrest'⟩ := Classical.not_imp.1 hends
        obtain ⟨rfl, rfl⟩ := List.append_eq_nil_iff.1 htouch
        refine isItemList_succ (ih ?_)
        cases hrest with
        | nil => exact absurd rfl hrest'
        | @cons _ item' comma' blanks' rest' hne' hitem' hcomma' hblanks' hshort' hrest'' =>
          have hmerged : ∀ c ∈ item ++ item', isItemChar c = true := by
            intro c hc
            exact (List.mem_append.1 hc).elim (hitem c) (hitem' c)
          have := Items.cons (by simp [hne]) hmerged hcomma' hblanks' hshort' hrest''
          simpa using this

theorem isItemList_iff {n : Nat} {t : Text} : isItemList n t = true ↔ Items n t :=
  ⟨items_of_isItemList, isItemList_of_items⟩

/-! ## Lists at the end of a text -/

/-- A text that ends with a word and a list of at most `n` items behind it. -/
def EndsInItems (n : Nat) (w t : Text) : Prop :=
  ∃ a b r, t = a ++ (w ++ (b ++ r)) ∧ (∀ c ∈ b, isBlank c = true) ∧ Items n r

/-- A text that ends with `order by` or `group by` and a list of at most five items behind it. -/
def EndsInOrdering (t : Text) : Prop :=
  ∃ a w b s, t = a ++ (w ++ (b ++ s)) ∧ w ∈ ["group".toList, "order".toList] ∧ b ≠ [] ∧
    (∀ c ∈ b, isBlank c = true) ∧ ∃ b' r, s = "by".toList ++ (b' ++ r) ∧
      (∀ c ∈ b', isBlank c = true) ∧ Items 5 r

theorem isItemList_trimStart_iff {n : Nat} {t : Text} :
    isItemList n (trimStart t) = true ↔
      ∃ b r, t = b ++ r ∧ (∀ c ∈ b, isBlank c = true) ∧ Items n r := by
  rw [isItemList_iff]
  constructor
  · intro h
    obtain ⟨b, hb, hblank⟩ := trimStart_append t
    exact ⟨b, trimStart t, hb.symm, hblank, h⟩
  · rintro ⟨b, r, rfl, hb, hr⟩
    rwa [trimStart_blank_append hb hr.head]

/-- A search from left to right finds an end of the text. -/
theorem search_iff {f q : Text → Bool} (hnil : f [] = false)
    (hcons : ∀ c t, f (c :: t) = (q (c :: t) || f t)) (t : Text) :
    f t = true ↔ ∃ a s, t = a ++ s ∧ s ≠ [] ∧ q s = true := by
  induction t with
  | nil => simp [hnil]
  | cons c t ih =>
    rw [hcons, Bool.or_eq_true, ih]
    constructor
    · rintro (h | ⟨a, s, rfl, hs, h⟩)
      · exact ⟨[], c :: t, rfl, by simp, h⟩
      · exact ⟨c :: a, s, rfl, hs, h⟩
    · rintro ⟨a, s, heq, hs, h⟩
      cases a with
      | nil => exact Or.inl (heq ▸ h)
      | cons d a => exact Or.inr ⟨a, s, (List.cons.inj heq).2, hs, h⟩

/-- Of words that have one length, the one that a text in small letters starts with is read. -/
theorem any_stripAnyWord?_iff {ws : List Text} {k : Nat} (hws : ∀ w ∈ ws, 's' ∉ w ∧ w.length = k)
    {s : Text} (hs : ∀ c ∈ s, IsSmall c) (q : Text → Bool) :
    (stripAnyWord? ws s).any q = true ↔ ∃ w ∈ ws, ∃ r, s = w ++ r ∧ q r = true := by
  have hread : ∀ {r}, stripAnyWord? ws s = some r → ∃ w ∈ ws, s = w ++ r := by
    intro r hr
    obtain ⟨w, hw, hwr⟩ := List.exists_of_findSome?_eq_some hr
    rw [stripWord?_eq_stripPrefix? (hws w hw).1 hs] at hwr
    exact ⟨w, hw, (stripPrefix?_eq_some_iff.1 hwr).symm⟩
  rw [Option.any_eq_true]
  constructor
  · rintro ⟨r, hr, hq⟩
    obtain ⟨w, hw, hwr⟩ := hread hr
    exact ⟨w, hw, r, hwr, hq⟩
  · rintro ⟨w, hw, r, rfl, hq⟩
    have hsome : (stripAnyWord? ws (w ++ r)).isSome = true := by
      rw [stripAnyWord?, List.findSome?_isSome_iff]
      refine ⟨w, hw, ?_⟩
      rw [stripWord?_eq_stripPrefix? (hws w hw).1 hs, stripPrefix?_eq_some_iff.2 rfl]
      rfl
    obtain ⟨r', hr'⟩ := Option.isSome_iff_exists.1 hsome
    obtain ⟨v, hv, heq⟩ := hread hr'
    obtain ⟨rfl, rfl⟩ := List.append_inj heq ((hws w hw).2.trans (hws v hv).2.symm)
    exact ⟨r, hr', hq⟩

theorem endsInItems_cons (n : Nat) (ws : List Text) (c : Char) (t : Text) :
    endsInItems n ws (c :: t) =
      ((stripAnyWord? ws (c :: t)).any (fun r => isItemList n (trimStart r)) ||
        endsInItems n ws t) := by
  rw [endsInItems]
  cases stripAnyWord? ws (c :: t) <;> rfl

theorem endsInItems_iff {n : Nat} {w t : Text} (hw : 's' ∉ w) (hne : w ≠ [])
    (ht : ∀ c ∈ t, IsSmall c) : endsInItems n [w] t = true ↔ EndsInItems n w t := by
  rw [search_iff (q := fun s => (stripAnyWord? [w] s).any fun r => isItemList n (trimStart r)) rfl
    (endsInItems_cons n [w])]
  constructor
  · rintro ⟨a, s, rfl, -, h⟩
    obtain ⟨v, hv, r, rfl, hr⟩ := (any_stripAnyWord?_iff (k := w.length) (by simpa using hw)
      (fun c hc => ht c (List.mem_append_right a hc)) _).1 h
    obtain rfl := List.mem_singleton.1 hv
    obtain ⟨b, r', rfl, hb, hr'⟩ := isItemList_trimStart_iff.1 hr
    exact ⟨a, b, r', rfl, hb, hr'⟩
  · rintro ⟨a, b, r, rfl, hb, hr⟩
    refine ⟨a, w ++ (b ++ r), rfl, by simp [hne], ?_⟩
    refine (any_stripAnyWord?_iff (k := w.length) (by simpa using hw)
      (fun c hc => ht c (List.mem_append_right a hc)) _).2 ⟨w, by simp, b ++ r, rfl, ?_⟩
    exact isItemList_trimStart_iff.2 ⟨b, r, rfl, hb, hr⟩

theorem isByItems_iff {t : Text} (ht : ∀ c ∈ t, IsSmall c) :
    isByItems t = true ↔
      ∃ b r, t = "by".toList ++ (b ++ r) ∧ (∀ c ∈ b, isBlank c = true) ∧ Items 5 r := by
  have hmatch : isByItems t =
      (stripAnyWord? ["by".toList] t).any fun r => isItemList 5 (trimStart r) := by
    simp only [isByItems, stripAnyWord?, List.findSome?_cons, List.findSome?_nil]
    cases stripWord? "by".toList t <;> rfl
  rw [hmatch, any_stripAnyWord?_iff (k := 2) (by decide) ht]
  simp only [List.mem_singleton, exists_eq_left, isItemList_trimStart_iff]
  constructor
  · rintro ⟨r, rfl, b, r', rfl, hb, hr'⟩
    exact ⟨b, r', rfl, hb, hr'⟩
  · rintro ⟨b, r, rfl, hb, hr⟩
    exact ⟨b ++ r, rfl, b, r, rfl, hb, hr⟩

theorem leadsToOrdering_cons (c : Char) (t : Text) :
    leadsToOrdering (c :: t) =
      ((stripAnyWord? ["group".toList, "order".toList] (c :: t)).any (fun r =>
        startsBlank r && isByItems (trimStart r)) || leadsToOrdering t) := by
  rw [leadsToOrdering]
  cases stripAnyWord? ["group".toList, "order".toList] (c :: t) <;> rfl

theorem startsBlank_iff {t : Text} : startsBlank t = true ↔ t.takeWhile isBlank ≠ [] := by
  cases t with
  | nil => simp [startsBlank]
  | cons c t => by_cases hc : isBlank c = true <;> simp [startsBlank, hc]

theorem leadsToOrdering_iff {t : Text} (ht : ∀ c ∈ t, IsSmall c) :
    leadsToOrdering t = true ↔ EndsInOrdering t := by
  have hwords : ∀ w ∈ ["group".toList, "order".toList], 's' ∉ w ∧ w.length = 5 := by decide
  rw [search_iff (q := fun s => (stripAnyWord? ["group".toList, "order".toList] s).any fun r =>
    startsBlank r && isByItems (trimStart r)) rfl leadsToOrdering_cons]
  constructor
  · rintro ⟨a, s, rfl, -, h⟩
    obtain ⟨w, hw, r, rfl, hr⟩ := (any_stripAnyWord?_iff hwords
      (fun c hc => ht c (List.mem_append_right a hc)) _).1 h
    obtain ⟨hstart, hby⟩ := Bool.and_eq_true_iff.1 hr
    have hr : r = r.takeWhile isBlank ++ trimStart r := List.takeWhile_append_dropWhile.symm
    have hsmall : ∀ c ∈ trimStart r, IsSmall c := fun c hc => ht c (by
      rw [hr]
      simp [hc])
    exact ⟨a, w, r.takeWhile isBlank, trimStart r, by rw [← hr], hw, startsBlank_iff.1 hstart,
      fun c hc => List.mem_takeWhile_imp hc, (isByItems_iff hsmall).1 hby⟩
  · rintro ⟨a, w, b, s, rfl, hw, hne, hb, hby⟩
    have hsmall : ∀ c ∈ w ++ (b ++ s), IsSmall c := fun c hc => ht c (List.mem_append_right a hc)
    have hs : ∀ c ∈ s.head?, isBlank c = false := by
      obtain ⟨b', r, rfl, -⟩ := hby
      rintro c ⟨⟩
      decide
    refine ⟨a, w ++ (b ++ s), rfl, by simp [hne], ?_⟩
    refine (any_stripAnyWord?_iff hwords hsmall _).2 ⟨w, hw, b ++ s, rfl, ?_⟩
    obtain ⟨htake, hdrop⟩ := span_append hb hs
    rw [Bool.and_eq_true, startsBlank_iff, htake, trimStart, hdrop]
    exact ⟨hne, (isByItems_iff fun c hc => hsmall c (by simp [hc])).2 hby⟩

/-! ## The last clause word -/

/-- The words that open a clause, or a list of an ordering, a grouping or a bound. -/
def clauseWords : List Text :=
  ["where", "values", "set", "from", "into", "join", "select", "update", "limit", "by",
    "having"].map String.toList

/-- The last word that opens something. -/
def lastClauseWord? (ws : List Text) : Option Text := ws.reverse.find? clauseWords.contains

theorem lastClauseWord?_inv {ws : List Text} {w : Text} (h : lastClauseWord? ws = some w) :
    ∃ ws₁ ws₂, ws = ws₁ ++ w :: ws₂ ∧ ∀ v ∈ ws₂, v ∉ clauseWords := by
  obtain ⟨-, l₁, l₂, hsplit, hnone⟩ := List.find?_eq_some_iff_append.1 h
  refine ⟨l₂.reverse, l₁.reverse, ?_, fun v hv hmem => ?_⟩
  · rw [← List.reverse_inj, hsplit]
    simp
  · have := hnone v (List.mem_reverse.1 hv)
    simp [hmem] at this

theorem ofWord?_eq_none {w : Text} (h : w ∉ clauseWords) : Clause.ofWord? w = none := by
  simp only [clauseWords, List.map_cons, List.map_nil, List.mem_cons, not_or] at h
  simp only [Clause.ofWord?, h, if_false]

/-- Words that open no clause do not hide the one before them. -/
theorem Clause.nearest?_append_cons {ws₁ ws₂ : List Text} {w : Text} {k : Clause}
    (hk : ofWord? w = some k) (hnone : ∀ v ∈ ws₂, ofWord? v = none) :
    nearest? (ws₁ ++ w :: ws₂) = some k := by
  have hskip : ws₂.reverse.findSome? ofWord? = none :=
    List.findSome?_eq_none_iff.2 fun v hv => hnone v (List.mem_reverse.1 hv)
  rw [nearest?, List.reverse_append, List.reverse_cons, List.append_assoc, List.findSome?_append,
    hskip]
  simp [hk]

/-- The clause of the last word that opens something is the nearest one. -/
theorem nearest?_of_lastClauseWord? {ws : List Text} {w : Text} {k : Clause}
    (h : lastClauseWord? ws = some w) (hk : Clause.ofWord? w = some k) :
    Clause.nearest? ws = some k := by
  obtain ⟨ws₁, ws₂, rfl, hnone⟩ := lastClauseWord?_inv h
  exact Clause.nearest?_append_cons hk fun v hv => ofWord?_eq_none (hnone v hv)

/-- A point behind `where` or `values` holds a value. -/
theorem positionRisk_eq_risky {t : Text} (ht : ∀ c ∈ t, IsSmall c)
    (h : lastClauseWord? (Clause.words t) = some "where".toList ∨
      lastClauseWord? (Clause.words t) = some "values".toList) :
    positionRisk t none = .risky := by
  have hjudge : Clause.judge none (Clause.nearest? (Clause.words t)) = .risky := by
    rcases h with h | h
    · rw [nearest?_of_lastClauseWord? h (k := .whereClause) (by decide)]
      rfl
    · rw [nearest?_of_lastClauseWord? h (k := .valuesClause) (by decide)]
      rfl
  simp [positionRisk, lower_of_isSmall ht, hjudge]

/-! ## The positions taken out -/

/-- A text, in small letters and trimmed, that names a table or columns come behind, whatever its
clauses. -/
def PrecedesName (t : Text) : Prop :=
  "from".toList <:+ t ∨ "join".toList <:+ t ∨ "update".toList <:+ t ∨
    ("select".toList <+: t ∧ ¬ "from".toList <:+: t) ∨
    ("update".toList <+: t ∧ "set".toList <:+ t) ∨
    ("insert into".toList <+: t ∧ ¬ "value".toList <:+: t) ∨ t = ['(']

instance : DecidablePred PrecedesName := fun _ => inferInstanceAs (Decidable (_ ∨ _))

theorem leadsToName_iff {t : Text} :
    leadsToName t = true ↔ leadsToSortItem t = true ∨ PrecedesName t := by
  simp only [leadsToName, PrecedesName, Bool.or_eq_true, Bool.and_eq_true, Bool.not_eq_true',
    ← Bool.not_eq_true, startsWith_iff, endsWith_iff, contains_iff, beq_iff_eq, or_assoc]

theorem leadsToSortItem_iff {t : Text} (ht : ∀ c ∈ t, IsSmall c) :
    leadsToSortItem t = true ↔
      (EndsInOrdering t ∧ ¬ EndsInItems 1 "limit".toList t) ∨ EndsInItems 5 "having".toList t := by
  rw [leadsToSortItem, leadsToLimit, leadsToHaving, Bool.or_eq_true, Bool.and_eq_true,
    Bool.not_eq_true', ← Bool.not_eq_true, leadsToOrdering_iff ht,
    endsInItems_iff (by decide) (by decide) ht, endsInItems_iff (by decide) (by decide) ht]

theorem isSmall_of_mem_trim_lower {p : Text} : ∀ c ∈ trim (lower p), IsSmall c := by
  intro c hc
  obtain ⟨b, hb, -⟩ := trimStart_append (lower p)
  obtain ⟨b', hb', -⟩ := trimEnd_append (trimStart (lower p))
  have hmem : c ∈ lower p := by
    rw [← hb, ← hb']
    exact List.mem_append_right b (List.mem_append_left b' hc)
  exact isSmall_of_mem_lower hmem

/-- A text with the word `w` in it and no clause word behind it. -/
def LastOpens (w t a r : Text) : Prop :=
  t = a ++ (w ++ r) ∧ ∀ v ∈ Clause.words r, v ∉ clauseWords

/-- **Which positions are taken out of a value clause.** Where `where` or `values` is the last
clause word before a point of a chain, the point is safe if a name is due there, or a list of an
ordering, a grouping or a `having` ends there and no `limit` does; and it is at risk if none of
these is so, nor a `having` list ends there. Where `limit` is the last clause word and one item at
most comes behind it, no ordering and no grouping goes on; only a `having` list may. -/
theorem value_clause_unless_taken_out (p : Text) :
    let t := trim (lower p)
    let last := lastClauseWord? (Clause.words (lower p))
    (last = some "where".toList ∨ last = some "values".toList →
      (¬ PrecedesName t → ¬ EndsInItems 5 "having".toList t →
        (EndsInOrdering t → EndsInItems 1 "limit".toList t) → chainPointRisk p = .risky) ∧
      (PrecedesName t ∨ (EndsInOrdering t ∨ EndsInItems 5 "having".toList t) ∧
        ¬ EndsInItems 1 "limit".toList t → chainPointRisk p = .safe)) ∧
    (last = some "limit".toList →
      (∃ a r, LastOpens "limit".toList t a r) ∧
      ∀ a r, LastOpens "limit".toList t a r → Items 1 (trimStart r) →
        ¬ EndsInItems 5 "having".toList t → leadsToSortItem t = false) := by
  intro t last
  have ht : ∀ c ∈ t, IsSmall c := isSmall_of_mem_trim_lower
  have hwords : Clause.words t = Clause.words (lower p) := Clause.words_trim _
  have hrisk : chainPointRisk p = if leadsToName t then .safe else positionRisk t none := rfl
  refine ⟨fun hlast => ⟨fun hname hhaving hordering => ?_, fun hout => ?_⟩,
    fun hlast => ⟨?_, fun a r hsplit hitems hhaving => ?_⟩⟩
  · have hnot : ¬ leadsToName t = true := by
      rw [leadsToName_iff, leadsToSortItem_iff ht]
      rintro ((⟨ho, hl⟩ | hh) | hn)
      · exact hl (hordering ho)
      · exact hhaving hh
      · exact hname hn
    rw [hrisk, if_neg hnot]
    exact positionRisk_eq_risky ht (hwords ▸ hlast)
  · have hin : leadsToName t = true := by
      rw [leadsToName_iff, leadsToSortItem_iff ht]
      rcases hout with hn | ⟨ho | hh, hl⟩
      · exact Or.inr hn
      · exact Or.inl (Or.inl ⟨ho, hl⟩)
      · exact Or.inl (Or.inr hh)
    rw [hrisk, if_pos hin]
  · obtain ⟨ws₁, ws₂, hsplit, hnone⟩ := lastClauseWord?_inv hlast
    obtain ⟨a, r, har, hr⟩ := Clause.words_split (hwords.trans hsplit)
    exact ⟨a, r, har, hr ▸ hnone⟩
  · obtain ⟨b, hb, hblank⟩ := trimStart_append r
    have hlimit : EndsInItems 1 "limit".toList t :=
      ⟨a, b, trimStart r, by rw [hb]; exact hsplit.1, hblank, hitems⟩
    rw [← Bool.not_eq_true, leadsToSortItem_iff ht]
    rintro (⟨-, hl⟩ | hh)
    · exact hl hlimit
    · exact hhaving hh

/-- A `where` behind an ordering that a name with a point in it ends. -/
def behindOrdering : Text :=
  "Select a From (Select b From u Order By b Limit 3) v Where v.a In (".toList

/-- A `limit` behind an ordering. -/
def behindLimit : Text := "select a from t Order By b LIMIT 10, ".toList

theorem value_clause_behindOrdering :
    chainPointRisk behindOrdering = .risky ∧
      leadsToSortItem (trim (lower behindLimit)) = false := by
  have hhaving : ∀ p ∈ [behindOrdering, behindLimit],
      ¬ EndsInItems 5 "having".toList (trim (lower p)) := by
    intro p hp h
    have hcheck : ∀ p ∈ [behindOrdering, behindLimit],
        endsInItems 5 ["having".toList] (trim (lower p)) = false := by decide +kernel
    rw [← endsInItems_iff (by decide) (by decide) isSmall_of_mem_trim_lower, hcheck p hp] at h
    cases h
  have hordering : ¬ EndsInOrdering (trim (lower behindOrdering)) := by
    rw [← leadsToOrdering_iff isSmall_of_mem_trim_lower]
    decide +kernel
  constructor
  · obtain ⟨hrisky, -⟩ := (value_clause_unless_taken_out behindOrdering).1
      (Or.inl (by decide +kernel))
    exact hrisky (by decide +kernel) (hhaving _ (by simp)) fun h => absurd h hordering
  · obtain ⟨-, hlimit⟩ := (value_clause_unless_taken_out behindLimit).2 (by decide +kernel)
    refine hlimit "select a from t order by b ".toList " 10,".toList ⟨by decide +kernel, ?_⟩
      (isItemList_iff.1 (by decide)) (hhaving _ (by simp))
    decide +kernel

/-- A `where` whose statement takes it out, and a `limit` behind a `having` list. -/
theorem value_clause_taken_out :
    let inserted := "insert into t select a from s where b in (".toList
    let grouped := "select a from t where b = 1 group by a having c limit ".toList
    lastClauseWord? (Clause.words (lower inserted)) = some "where".toList ∧
      chainPointRisk inserted = .safe ∧
      lastClauseWord? (Clause.words (lower grouped)) = some "limit".toList ∧
      leadsToSortItem (trim (lower grouped)) = true := by
  decide +kernel

end SqlInjection
