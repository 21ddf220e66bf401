import SqlInjection.Proofs.Clause.ValueClauses
import SqlInjection.Proofs.Template.Delimiters

/-!
# Operands of `in`

An operand of `in` is a list of values, and only a block can bind one. Two readings of the text
before an interpolation are compared here:

* `EndsInIn`: the text ends with the word `in`, and at most a parenthesis, a quote and blanks behind
  it;
* `EndsInFilter`: the word `in` follows a filter keyword and a single column. This is what the
  binder asks for (`leadsToInOperand_iff`).

The second asks for more, and an interpolation between the two is bound as one value:
`Binder.plan?_in_operand` says which plan is made in each case, and `Binder.plan?_negated_in` shows
a list that is bound as one value.
-/

namespace SqlInjection

/-! ## Texts that end in `in` -/

/-- What may stand between `in` and its operand: perhaps a parenthesis, and perhaps one of the
quotes. -/
def OpensOperand (quotes : List Text) (x : Text) : Prop :=
  ∃ w p v q, x = w ++ (p ++ (v ++ q)) ∧ (∀ c ∈ w, Text.isBlank c = true) ∧
    (∀ c ∈ v, Text.isBlank c = true) ∧ p ∈ [[], ['(']] ∧ q ∈ [] :: quotes

/-- The text ends with the word `in` behind a blank, with at most a parenthesis, a quote and blanks
after it. -/
def EndsInIn (t : Text) : Prop :=
  ∃ s d l x u, t = s ++ d :: (l ++ (x ++ u)) ∧ Text.isBlank d = true ∧ Text.IsWord "in".toList l ∧
    OpensOperand quoteSpellings x ∧ ∀ c ∈ u, Text.isBlank c = true

/-- The words that a filter condition comes after. -/
def filterWords : List Text := ["where".toList, "and".toList, "or".toList]

/-- The text ends with a filter keyword, a column without blanks and the word `in`, with at most a
parenthesis and, as the last character, a quote after it. -/
def EndsInFilter (t : Text) : Prop :=
  ∃ s k w column v l x, t = s ++ (k ++ (w ++ (column ++ (v ++ (l ++ x))))) ∧
    (∃ f ∈ filterWords, Text.IsWord f k) ∧ w ≠ [] ∧ (∀ c ∈ w, Text.isBlank c = true) ∧
    column ≠ [] ∧ (∀ c ∈ column, Text.isBlank c = false) ∧ v ≠ [] ∧
    (∀ c ∈ v, Text.isBlank c = true) ∧ Text.IsWord "in".toList l ∧
    OpensOperand [['\''], ['"']] x

/-! ## Reading from the end -/

theorem dropOptional_cases (p : Char → Bool) (t : Text) :
    (∃ c, p c = true ∧ t = c :: dropOptional p t) ∨ dropOptional p t = t := by
  cases t with
  | nil => exact Or.inr rfl
  | cons c t =>
    by_cases hc : p c = true
    · exact Or.inl ⟨c, hc, by simp [dropOptional, hc]⟩
    · exact Or.inr (by simp [dropOptional, hc])

theorem dropOptional_of_head {p : Char → Bool} {t : Text} (h : ∀ c ∈ t.head?, p c = false) :
    dropOptional p t = t := by
  cases t with
  | nil => rfl
  | cons c t => simp [dropOptional, h c rfl]

theorem forall_head?_append {P : Char → Prop} {s t : Text} (hs : ∀ c ∈ s, P c)
    (ht : ∀ c ∈ t.head?, P c) : ∀ c ∈ (s ++ t).head?, P c := by
  cases s with
  | nil => exact ht
  | cons d s =>
    intro c hc
    exact hs c (List.mem_of_mem_head? hc)

theorem forall_head?_of_ne_nil {P : Char → Prop} {s : Text} (hne : s ≠ []) (hs : ∀ c ∈ s, P c)
    (t : Text) : ∀ c ∈ (s ++ t).head?, P c := by
  intro c hc
  rw [List.head?_append_of_ne_nil _ hne] at hc
  exact hs c (List.mem_of_mem_head? hc)

theorem isQuote_of_isBlank {c : Char} (h : Text.isBlank c = true) :
    isQuote c = false ∧ c ≠ '%' := by
  have hmarks : ∀ c ∈ ['\'', '"', '%'], Text.isBlank c = false := by decide
  have hc : c ∉ ['\'', '"', '%'] := fun hc => absurd h (by simp [hmarks c hc])
  simp only [List.mem_cons, List.not_mem_nil, or_false, not_or] at hc
  exact ⟨by simp [isQuote, hc.1, hc.2.1], hc.2.2⟩

theorem not_mem_opening_of_sameLetter {c : Char} (h : Text.sameLetter 'n' c = true) :
    c ∉ ['\'', '"', '(', '%'] ∧ Text.isBlank c = false := by
  have hmarks : ∀ c ∈ ['\'', '"', '(', '%'], Text.sameLetter 'n' c = false := by decide
  exact ⟨fun hc => absurd h (by simp [hmarks c hc]),
    (isBlank_of_sameLetter (x := 'n') (by decide) h).1⟩

theorem reverse_paren {p : Text} (hp : p ∈ [[], ['(']]) : p.reverse = p := by
  have h : ∀ p ∈ [[], ['(']], p.reverse = p := by decide
  exact h p hp

theorem reverse_quote {q : Text} (hq : q ∈ [[], ['\''], ['"']]) : q.reverse = q := by
  have h : ∀ q ∈ [[], ['\''], ['"']], q.reverse = q := by decide
  exact h q hq

/-- What is left when an opening is passed over from the end. -/
def withoutOpening (back : Text) : Text :=
  Text.trimStart (dropOptional (· == '(') (Text.trimStart (dropOptional isQuote back)))

theorem withoutOpening_append (back : Text) :
    ∃ x, OpensOperand [['\''], ['"']] x ∧ back = x.reverse ++ withoutOpening back := by
  -- the pieces are met from the end, so the quote comes first
  have hquote : ∃ q ∈ [[], ['\''], ['"']], back = q ++ dropOptional isQuote back := by
    rcases dropOptional_cases isQuote back with ⟨c, hc, hback⟩ | hback
    · have hmem : [c] ∈ [[], ['\''], ['"']] := by simpa [isQuote] using hc
      exact ⟨[c], hmem, hback⟩
    · exact ⟨[], by simp, hback.symm⟩
  have hparen : ∀ r, ∃ p ∈ [[], ['(']], r = p ++ dropOptional (· == '(') r := by
    intro r
    rcases dropOptional_cases (· == '(') r with ⟨c, hc, hr⟩ | hr
    · exact ⟨[c], by simpa using hc, hr⟩
    · exact ⟨[], by simp, hr.symm⟩
  obtain ⟨q, hq, hback⟩ := hquote
  obtain ⟨v, hv, hvblank⟩ := Text.trimStart_append (dropOptional isQuote back)
  obtain ⟨p, hp, hinner⟩ := hparen (Text.trimStart (dropOptional isQuote back))
  obtain ⟨w, hw, hwblank⟩ := Text.trimStart_append
    (dropOptional (· == '(') (Text.trimStart (dropOptional isQuote back)))
  refine ⟨w.reverse ++ (p ++ (v.reverse ++ q)), ⟨w.reverse, p, v.reverse, q, rfl, ?_, ?_, hp, hq⟩,
    ?_⟩
  · exact fun c hc => hwblank c (List.mem_reverse.1 hc)
  · exact fun c hc => hvblank c (List.mem_reverse.1 hc)
  · calc back = q ++ (v ++ (p ++ (w ++ withoutOpening back))) := by
          rw [withoutOpening, hw, ← hinner, hv, ← hback]
      _ = _ := by simp [reverse_quote hq, reverse_paren hp]

/-! An opening read from its end, and the keyword behind it: `v`, `p` and `w` are blanks, perhaps
the parenthesis and blanks again, and `y` starts with the last letter of the keyword. -/

section

variable {v p w y : Text} (hv : ∀ c ∈ v, Text.isBlank c = true) (hp : p ∈ [[], ['(']])
  (hw : ∀ c ∈ w, Text.isBlank c = true) (hy : ∀ c ∈ y.head?, Text.sameLetter 'n' c = true)
include hv hp hw hy

theorem head?_opening : ∀ c ∈ (v ++ (p ++ (w ++ y))).head?, isQuote c = false ∧ c ≠ '%' := by
  have hparen : ∀ p ∈ [[], ['(']], ∀ c ∈ p, isQuote c = false ∧ c ≠ '%' := by decide
  refine forall_head?_append (fun c hc => isQuote_of_isBlank (hv c hc)) ?_
  refine forall_head?_append (hparen p hp) ?_
  refine forall_head?_append (fun c hc => isQuote_of_isBlank (hw c hc)) fun c hc => ?_
  have hn := (not_mem_opening_of_sameLetter (hy c hc)).1
  simp only [List.mem_cons, List.not_mem_nil, or_false, not_or] at hn
  exact ⟨by simp [isQuote, hn.1, hn.2.1], hn.2.2.2⟩

theorem trimStart_opening :
    Text.trimStart (v ++ (p ++ (w ++ y))) = y ∨
      Text.trimStart (v ++ (p ++ (w ++ y))) = '(' :: (w ++ y) := by
  rcases List.mem_pair.1 hp with rfl | rfl
  · left
    rw [List.nil_append, ← List.append_assoc]
    exact Text.trimStart_blank_append (List.forall_mem_append.2 ⟨hv, hw⟩)
      fun c hc => (not_mem_opening_of_sameLetter (hy c hc)).2
  · right
    exact Text.trimStart_blank_append hv (by simp [show Text.isBlank '(' = false from rfl])

theorem withoutOpening_opening {q : Text} (hq : q ∈ [[], ['\''], ['"']]) :
    withoutOpening (q ++ (v ++ (p ++ (w ++ y)))) = y := by
  have hyblank : ∀ c ∈ y.head?, Text.isBlank c = false := fun c hc =>
    (not_mem_opening_of_sameLetter (hy c hc)).2
  have hquote : dropOptional isQuote (q ++ (v ++ (p ++ (w ++ y)))) = v ++ (p ++ (w ++ y)) := by
    simp only [List.mem_cons, List.not_mem_nil, or_false] at hq
    rcases hq with rfl | rfl | rfl
    · exact dropOptional_of_head fun c hc => (head?_opening hv hp hw hy c hc).1
    · rfl
    · rfl
  rw [withoutOpening, hquote]
  rcases trimStart_opening hv hp hw hy with hcut | hcut
  · have hparen : dropOptional (· == '(') y = y := dropOptional_of_head fun c hc => by
      have hn := (not_mem_opening_of_sameLetter (hy c hc)).1
      simp only [List.mem_cons, List.not_mem_nil, or_false, not_or] at hn
      simpa using hn.2.2.1
    rw [hcut, hparen]
    exact Text.trimStart_blank_append (w := []) (by simp) hyblank
  · rw [hcut]
    exact Text.trimStart_blank_append hw hyblank

/-- The keyword of a pattern does not come behind it. -/
theorem stripWord?_like_opening :
    Text.stripWord? "ekil".toList (Text.trimStart (v ++ (p ++ (w ++ y)))) = none := by
  have hhead : ∀ c ∈ (Text.trimStart (v ++ (p ++ (w ++ y)))).head?,
      c = '(' ∨ Text.sameLetter 'n' c = true := by
    rcases trimStart_opening hv hp hw hy with hcut | hcut
    · rw [hcut]
      exact fun c hc => Or.inr (hy c hc)
    · rw [hcut]
      exact fun c hc => Or.inl (by simpa using hc.symm)
  rw [Option.eq_none_iff_forall_ne_some]
  intro r hr
  obtain ⟨k, hk, hkword⟩ := Text.stripWord?_eq_some_iff.1 hr
  have hklike : Text.IsWord ('e' :: ['k', 'i', 'l']) k := hkword
  rw [hk] at hhead
  cases hklike with
  | cons he _ =>
    rcases hhead _ rfl with rfl | hn
    · exact absurd he (by decide)
    · have hn' := Text.toLower_of_sameLetter (by decide) (by decide) (by decide) hn
      have he' := Text.toLower_of_sameLetter (by decide) (by decide) (by decide) he
      exact absurd (hn'.symm.trans he') (by decide)

end

theorem endsBackWith_iff {ws : List Text} {back : Text} :
    endsBackWith ws back = true ↔
      ∃ k s, back = k.reverse ++ s ∧ ∃ f ∈ ws, Text.IsWord f k := by
  rw [endsBackWith, Text.stripAnyWord?, List.findSome?_isSome_iff]
  simp only [List.mem_map, exists_exists_and_eq_and, Option.isSome_iff_exists,
    Text.stripWord?_eq_some_iff]
  constructor
  · rintro ⟨f, hf, s, k, rfl, hk⟩
    exact ⟨k.reverse, s, by rw [List.reverse_reverse], f, hf, by simpa using hk.reverse⟩
  · rintro ⟨k, s, rfl, f, hf, hk⟩
    exact ⟨f, hf, s, k.reverse, rfl, hk.reverse⟩

/-- A column behind a filter keyword, read from its end: the characters that follow `in` there. -/
def leadsToColumn (r : Text) : Bool :=
  let column := Text.trimStart r
  let rest := column.dropWhile fun c => !Text.isBlank c
  startsBlank r && !column.isEmpty && startsBlank rest &&
    endsBackWith filterWords (Text.trimStart rest)

theorem leadsToColumn_iff {r : Text} :
    leadsToColumn r = true ↔ ∃ v column w k s, r = v ++ (column ++ (w ++ (k.reverse ++ s))) ∧
      v ≠ [] ∧ (∀ c ∈ v, Text.isBlank c = true) ∧ column ≠ [] ∧
      (∀ c ∈ column, Text.isBlank c = false) ∧ w ≠ [] ∧ (∀ c ∈ w, Text.isBlank c = true) ∧
      ∃ f ∈ filterWords, Text.IsWord f k := by
  have hink : ∀ c, (!Text.isBlank c) = true ↔ Text.isBlank c = false := by simp
  simp only [leadsToColumn, Bool.and_eq_true, startsBlank_iff, Bool.not_eq_true',
    List.isEmpty_eq_false_iff, endsBackWith_iff]
  constructor
  · rintro ⟨⟨⟨hv, hcolumn⟩, hw⟩, k, s, hback, hk⟩
    refine ⟨r.takeWhile Text.isBlank, (Text.trimStart r).takeWhile fun c => !Text.isBlank c,
      ((Text.trimStart r).dropWhile fun c => !Text.isBlank c).takeWhile Text.isBlank, k, s, ?_, hv,
      fun _ hc => List.mem_takeWhile_imp hc, ?_, ?_, hw, fun _ hc => List.mem_takeWhile_imp hc, hk⟩
    · rw [← hback]
      simp only [Text.trimStart, List.takeWhile_append_dropWhile]
    · -- the text behind the blanks does not start with one
      cases hcut : Text.trimStart r with
      | nil => exact absurd hcut hcolumn
      | cons c t =>
        have hc := List.head?_dropWhile_not Text.isBlank r
        rw [← Text.trimStart, hcut] at hc
        simp [show Text.isBlank c = false from hc]
    · intro c hc
      exact (hink c).1 (List.mem_takeWhile_imp (p := fun c => !Text.isBlank c) hc)
  · rintro ⟨v, column, w, k, s, rfl, hv, hvblank, hcolumn, hcink, hw, hwblank, f, hf, hk⟩
    have hwords : ∀ f ∈ filterWords, f ≠ [] ∧ ∀ x ∈ f, Text.isBlank x = false := by decide
    have hkback : ∀ c ∈ (k.reverse ++ s).head?, Text.isBlank c = false := by
      refine forall_head?_of_ne_nil ?_ (fun c hc => ?_) s
      · rw [Ne, List.reverse_eq_nil_iff]
        rintro rfl
        exact (hwords f hf).1 (List.forall₂_nil_right_iff.1 hk)
      · exact hk.ink (hwords f hf).2 c (List.mem_reverse.1 hc)
    have hwback := forall_head?_of_ne_nil hw hwblank (k.reverse ++ s)
    have hcback := forall_head?_of_ne_nil hcolumn hcink (w ++ (k.reverse ++ s))
    have hcut : Text.trimStart (v ++ (column ++ (w ++ (k.reverse ++ s)))) =
        column ++ (w ++ (k.reverse ++ s)) := Text.trimStart_blank_append hvblank hcback
    have hrest : (column ++ (w ++ (k.reverse ++ s))).dropWhile (fun c => !Text.isBlank c) =
        w ++ (k.reverse ++ s) :=
      (Text.span_append (fun c hc => (hink c).2 (hcink c hc))
        fun c hc => by simpa using hwback c hc).2
    rw [hcut, hrest, Text.trimStart_blank_append hwblank hkback,
      (Text.span_append hvblank hcback).1, (Text.span_append hwblank hkback).1]
    exact ⟨⟨⟨hv, by simp [hcolumn]⟩, hw⟩, k, s, rfl, f, hf, hk⟩

theorem leadsToInOperand_eq (t : Text) :
    leadsToInOperand t = (Text.stripWord? "ni".toList (withoutOpening t.reverse)).any
      leadsToColumn := by
  unfold leadsToInOperand withoutOpening
  simp only
  cases Text.stripWord? "ni".toList _ <;> rfl

/-- The binder asks for a filter keyword and a column in front of `in`. -/
theorem leadsToInOperand_iff {t : Text} : leadsToInOperand t = true ↔ EndsInFilter t := by
  rw [leadsToInOperand_eq, Option.any_eq_true]
  simp only [Text.stripWord?_eq_some_iff, leadsToColumn_iff]
  constructor
  · rintro ⟨_, ⟨l, hl, hlword⟩, v, column, w, k, s, rfl, hv, hvblank, hcolumn, hcink, hw, hwblank,
      hk⟩
    obtain ⟨x, hx, hback⟩ := withoutOpening_append t.reverse
    refine ⟨s.reverse, k, w.reverse, column.reverse, v.reverse, l.reverse, x, ?_, hk, by simpa,
      by simpa, by simpa, by simpa, by simpa, by simpa, hlword.reverse, hx⟩
    rw [← List.reverse_inj, hback, hl]
    simp
  · rintro ⟨s, k, w, column, v, l, x, rfl, hk, hw, hwblank, hcolumn, hcink, hv, hvblank, hl, hx⟩
    refine ⟨v.reverse ++ (column.reverse ++ (w.reverse ++ (k.reverse ++ s.reverse))),
      ⟨l.reverse, ?_, hl.reverse⟩, v.reverse, column.reverse, w.reverse, k, s.reverse, rfl,
      by simpa, by simpa, by simpa, by simpa, by simpa, by simpa, hk⟩
    obtain ⟨b, p, u, q, rfl, hb, hu, hp, hq⟩ := hx
    have hin : Text.IsWord ('n' :: ['i']) l.reverse := hl.reverse
    rw [← withoutOpening_opening (fun c hc => hu c (List.mem_reverse.1 hc)) hp
      (fun c hc => hb c (List.mem_reverse.1 hc)) (hin.head _) hq]
    simp [reverse_quote hq, reverse_paren hp]

/-! ## No pattern of `like` -/

theorem leadsToLikePattern_of_head {t : Text}
    (h : ∀ c ∈ t.reverse.head?, isQuote c = false ∧ c ≠ '%') : leadsToLikePattern t = false := by
  have hpercent : dropOptional (· == '%') t.reverse = t.reverse :=
    dropOptional_of_head fun c hc => by simpa using (h c hc).2
  rw [leadsToLikePattern, hpercent]
  cases hback : t.reverse with
  | nil => rfl
  | cons q r =>
    have hq : isQuote q = false := (h q (by simp [hback])).1
    simp only
    split
    · rfl
    · simp [hq]

theorem leadsToLikePattern_of_quote {t r : Text} {q : Char} (hq : isQuote q = true)
    (hback : t.reverse = q :: r)
    (hr : Text.stripWord? "ekil".toList (Text.trimStart r) = none) :
    leadsToLikePattern t = false := by
  have hpercent : dropOptional (· == '%') (q :: r) = q :: r :=
    dropOptional_of_head fun c hc => by
      obtain rfl : q = c := by simpa using hc
      simpa using ne_percent_of_isQuote hq
  rw [leadsToLikePattern, hback, hpercent]
  simp only [hr]

/-- Before the operand of `in` there is no pattern of `like`. -/
theorem leadsToLikePattern_of_endsInIn {t : Text} (h : EndsInIn t) :
    leadsToLikePattern t = false := by
  obtain ⟨s, d, l, x, u, rfl, hd, hl, ⟨w, p, v, q, rfl, hw, hv, hp, hq⟩, hu⟩ := h
  have hin : Text.IsWord ('n' :: ['i']) l.reverse := hl.reverse
  have hw' : ∀ c ∈ w.reverse, Text.isBlank c = true := fun c hc => hw c (List.mem_reverse.1 hc)
  have hv' : ∀ c ∈ v.reverse, Text.isBlank c = true := fun c hc => hv c (List.mem_reverse.1 hc)
  have hhead := head?_opening hv' hp hw' (hin.head (d :: s.reverse))
  have hlike := stripWord?_like_opening hv' hp hw' (hin.head (d :: s.reverse))
  have hback : (s ++ d :: (l ++ ((w ++ (p ++ (v ++ q))) ++ u))).reverse = u.reverse ++ (q.reverse ++
      (v.reverse ++ (p ++ (w.reverse ++ (l.reverse ++ d :: s.reverse))))) := by
    simp [reverse_paren hp]
  rcases eq_or_ne u [] with rfl | hne
  · rw [List.reverse_nil, List.nil_append] at hback
    simp only [quoteSpellings, List.mem_cons, List.not_mem_nil, or_false] at hq
    -- a quote that is written out ends in a semicolon
    have hentity : isQuote ';' = false ∧ ';' ≠ '%' := by decide
    rcases hq with rfl | rfl | rfl | rfl | rfl
    · exact leadsToLikePattern_of_head (by rwa [hback])
    · exact leadsToLikePattern_of_quote rfl hback hlike
    · exact leadsToLikePattern_of_quote rfl hback hlike
    · exact leadsToLikePattern_of_head (by rw [hback]; rintro c ⟨⟩; exact hentity)
    · exact leadsToLikePattern_of_head (by rw [hback]; rintro c ⟨⟩; exact hentity)
  · refine leadsToLikePattern_of_head ?_
    rw [hback]
    exact forall_head?_of_ne_nil (by simpa using hne)
      (fun c hc => isQuote_of_isBlank (hu c (List.mem_reverse.1 hc))) _

/-! ## The plan for an operand -/

namespace Binder

variable {b : Binder} {before name after : Text}

theorem plan?_of_risky (hname : b.ignore.covers name = false)
    (hrisk : b.pointRisk before after = .risky) :
    b.plan? before name after =
      if leadsToInOperand before then
        if b.foreach then some (foreachPlan before name after) else none
      else if leadsToLikePattern before then likePlan? before name after
      else some (directPlan before name after) := by
  simp [plan?, hname, hrisk, Risk.isRisky]

/-- **An operand of `in` is bound by a block behind a filter keyword and a column, and nowhere
else.** At an interpolation that is bound and stands behind the word `in`, a block is planned when
the text before it ends in a filter on one column. Otherwise the plan is made for one value. -/
theorem plan?_in_operand (hforeach : b.foreach = true) (hname : b.ignore.covers name = false)
    (hrisk : b.pointRisk before after = .risky) (hin : EndsInIn before) :
    (EndsInFilter before → b.plan? before name after = some (foreachPlan before name after)) ∧
      (¬ EndsInFilter before →
        b.plan? before name after = some (directPlan before name after)) := by
  rw [plan?_of_risky hname hrisk, ← leadsToInOperand_iff, leadsToLikePattern_of_endsInIn hin]
  constructor
  · intro hfilter
    simp [hfilter, hforeach]
  · intro hfilter
    simp [hfilter]

theorem plan?_in_operand_quotedIds :
    let before := "where a = 1 AND u.id IN ('".toList
    dynamic.foreach = true ∧ dynamic.ignore.covers "ids".toList = false ∧
      dynamic.pointRisk before "')".toList = .risky ∧ EndsInIn before ∧
      dynamic.plan? before "ids".toList "')".toList =
        some ⟨.foreach, "where a = 1 AND u.id IN \n".toList ++ foreachBlock "ids".toList ++ ['\n'],
          []⟩ := by
  intro before
  have hname : dynamic.ignore.covers "ids".toList = false := by decide +kernel
  have hrisk : dynamic.pointRisk before "')".toList = .risky := by decide +kernel
  have hin : EndsInIn before :=
    ⟨"where a = 1 AND u.id".toList, ' ', "IN".toList, " ('".toList, [], rfl, by decide,
      .cons (by decide) (.cons (by decide) .nil),
      ⟨[' '], ['('], [], ['\''], rfl, by decide, by decide, by decide, by decide⟩, by simp⟩
  have hfilter : EndsInFilter before := leadsToInOperand_iff.1 (by decide +kernel)
  refine ⟨rfl, hname, hrisk, hin, ?_⟩
  rw [(plan?_in_operand rfl hname hrisk hin).1 hfilter]
  decide +kernel

/-- A negated `in` comes behind a column and a word more, and the list is bound as one value. -/
theorem plan?_negated_in :
    let before := "where id not in (".toList
    dynamic.foreach = true ∧ dynamic.ignore.covers "ids".toList = false ∧
      dynamic.pointRisk before ")".toList = .risky ∧ EndsInIn before ∧
      dynamic.plan? before "ids".toList ")".toList =
        some ⟨.direct, "where id not in (#\x7bids\x7d".toList, ")".toList⟩ := by
  intro before
  have hin : EndsInIn before :=
    ⟨"where id not".toList, ' ', "in".toList, " (".toList, [], rfl, by decide,
      .cons (by decide) (.cons (by decide) .nil),
      ⟨[' '], ['('], [], [], rfl, by decide, by decide, by decide, by decide⟩, by simp⟩
  exact ⟨rfl, by decide +kernel, by decide +kernel, hin, by decide +kernel⟩

end Binder

end SqlInjection
