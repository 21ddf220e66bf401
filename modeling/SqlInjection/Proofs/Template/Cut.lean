import Mathlib.Data.List.Basic
import SqlInjection.Proofs.Template.Sight
import SqlInjection.Proofs.Text.Words

/-!
# What a plan does to a text

A plan replaces one interpolation. It takes delimiters away on both sides of it and puts a bound
parameter, an expression or a block in its place. `Binder.plan?_inv` says all of it at once: behind
a text that is `Sealed`, as every text is that the binder has gone through, a plan keeps what was
read before and works within the literal text in front of the interpolation. The delimiters that it
takes away there show no comparison, and what it puts in is one of three texts (`Inserts`).
-/

namespace SqlInjection

/-! ## Texts that were read -/

/-- A character that what was read ends with, blanks left aside. -/
def isCloser (c : Char) : Bool := c == '}' || c == ')' || c == '>'

theorem isCloser_eq_true_iff {c : Char} : isCloser c = true ↔ c ∈ ['}', ')', '>'] := by
  simp [isCloser, or_assoc]

/-- A class that holds no closing character. -/
theorem isCloser_eq_false_of {p : Char → Bool} (hp : ∀ c ∈ ['}', ')', '>'], p c = false) {c : Char}
    (h : p c = true) : isCloser c = false := by
  by_contra hc
  rw [hp c (isCloser_eq_true_iff.1 (by simpa using hc))] at h
  exact absurd h (by decide)

/-- A text that is empty or ends with a closing character and blanks: no delimiter that opens before
an interpolation reaches into it. -/
def Sealed (seen : Text) : Prop :=
  seen = [] ∨ ∃ s c w, seen = s ++ c :: w ∧ isCloser c = true ∧ ∀ x ∈ w, Text.isBlank x = true

theorem sealed_nil : Sealed [] := Or.inl rfl

theorem sealed_append (s : Text) {c : Char} (hc : isCloser c = true) : Sealed (s ++ [c]) :=
  Or.inr ⟨s, c, [], rfl, hc, by simp⟩

/-- What is cut off the end of a text starts behind its sealed beginning. -/
theorem Sealed.cut {seen before r x : Text} (hs : Sealed seen) (h : r ++ x = seen ++ before)
    (hx : ∀ c ∈ x.head?, Text.isBlank c = false) (hc : ∀ c ∈ x, isCloser c = false) :
    ∃ kept, r = seen ++ kept ∧ before = kept ++ x := by
  rcases List.append_eq_append_iff.1 h with ⟨k, rfl, rfl⟩ | ⟨k, rfl, rfl⟩
  · -- the cut would start inside `r ++ k`, at a character that is neither blank nor closing
    cases k with
    | nil => exact ⟨[], by simp, by simp⟩
    | cons d k =>
      exfalso
      rcases hs with hnil | ⟨s, c, w, hseen, hcloser, hw⟩
      · simp at hnil
      · have hd : Text.isBlank d = false := hx d (by simp)
        have hmem : c ∈ d :: k ∨ d ∈ w := by
          rcases List.append_eq_append_iff.1 hseen with ⟨u, -, hu⟩ | ⟨u, -, hu⟩
          · exact Or.inl (hu ▸ by simp)
          · cases u with
            | nil =>
              simp only [List.nil_append, List.cons.injEq] at hu
              exact Or.inl (hu.1 ▸ List.mem_cons_self)
            | cons e u =>
              simp only [List.cons_append, List.cons.injEq] at hu
              exact Or.inr (hu.2 ▸ by simp)
        rcases hmem with hmem | hmem
        · have := hc c (List.mem_append_left before hmem)
          rw [hcloser] at this
          exact absurd this (by decide)
        · rw [hw d hmem] at hd
          exact absurd hd (by decide)
  · exact ⟨k, rfl, rfl⟩

/-- A keyword at the end of a text, with what comes behind it, stands behind the sealed beginning. -/
theorem Sealed.cut_keyword {seen before s l u : Text} (hs : Sealed seen)
    (h : seen ++ before = s ++ (l ++ u)) (hne : l ≠ [])
    (hl : ∀ c ∈ l, Text.isBlank c = false ∧ isCloser c = false) (hu : ∀ c ∈ u, isCloser c = false) :
    ∃ kept, s = seen ++ kept ∧ before = kept ++ (l ++ u) := by
  refine hs.cut h.symm (fun c hc => ?_) fun c hc => ?_
  · rw [List.head?_append_of_ne_nil _ hne] at hc
    exact (hl c (List.mem_of_mem_head? hc)).1
  · exact (List.mem_append.1 hc).elim (fun hc => (hl c hc).2) (hu c)

/-! ## Delimiters -/

/-- What may be taken away before an interpolation: nothing, or a delimiter with blanks before it
and a text after it that stays apart. -/
def Delimits (x : Text) : Prop :=
  x = [] ∨ ∃ w d u, x = w ++ (d ++ u) ∧ (∀ c ∈ w, Text.isBlank c = true) ∧
    (d ∈ quoteSpellings ∨ d = ['(']) ∧ Apart u

/-- Delimiters show no comparison. -/
theorem Delimits.neutral {b : Binder} {x : Text} (hx : Delimits x) (t : Text) :
    b.Neutral (x ++ '$' :: t) := by
  have hdollar : Apart ('$' :: t) := apart_cons.2 (by decide)
  rcases hx with rfl | ⟨w, d, u, rfl, hw, hd, hu⟩
  · exact Binder.neutral_cons (by decide) (by decide) (by decide) t
  · rw [List.append_assoc, List.append_assoc]
    refine Binder.neutral_blank_append hw ?_
    rcases hd with hd | rfl
    · exact Binder.neutral_quote_append hd (hu.append hdollar)
    · exact Binder.neutral_cons (by decide) (by decide) (by decide) _

/-- A character of a delimiter or a blank. -/
def isTrimmed (c : Char) : Bool := Text.isBlank c || "'\"()%&;aposqut".toList.contains c

theorem isTrimmed_of_isBlank {c : Char} (h : Text.isBlank c = true) : isTrimmed c = true := by
  simp [isTrimmed, h]

theorem not_sameLetter_of_isTrimmed {c : Char} (h : isTrimmed c = true) :
    Text.sameLetter 'n' c = false := by
  rcases Bool.or_eq_true_iff.1 h with h | h
  · exact Text.sameLetter_of_isBlank (by decide) h
  · have hall : ∀ c ∈ "'\"()%&;aposqut".toList, Text.sameLetter 'n' c = false := by decide
    exact hall c (by simpa using h)

theorem stripPair?_inv {opening closing before after r rest : Text}
    (h : stripPair? opening closing before after = some (r, rest)) :
    ∃ w v, before = r ++ (opening ++ w) ∧ after = v ++ closing ++ rest ∧
      (∀ c ∈ w, Text.isBlank c = true) ∧ ∀ c ∈ v, Text.isBlank c = true := by
  unfold stripPair? at h
  split at h
  · rename_i b a hb ha
    simp only [Option.some.injEq, Prod.mk.injEq] at h
    obtain ⟨rfl, rfl⟩ := h
    obtain ⟨w, hw, hwblank⟩ := Text.trimEnd_append before
    obtain ⟨v, hv, hvblank⟩ := Text.trimStart_append after
    refine ⟨w, v, ?_, ?_, hwblank, hvblank⟩
    · rw [← hw, ← Text.stripSuffix?_eq_some_iff.1 hb, List.append_assoc]
    · rw [List.append_assoc, Text.stripPrefix?_eq_some_iff.1 ha, hv]
  · simp at h

/-- What is taken away around a point: `x` ends the text before it, `v` starts the text after it. -/
structure Strips (before after r rest x v : Text) : Prop where
  before_eq : before = r ++ x
  after_eq : after = v ++ rest
  delimits : Delimits x
  ink : ∀ c ∈ x.head?, Text.isBlank c = false
  open_only : ∀ c ∈ x, isCloser c = false
  before_trimmed : ∀ c ∈ x, isTrimmed c = true
  after_trimmed : ∀ c ∈ v, isTrimmed c = true

theorem Strips.refl (before after : Text) : Strips before after before after [] [] where
  before_eq := by simp
  after_eq := by simp
  delimits := Or.inl rfl
  ink := by simp
  open_only := by simp
  before_trimmed := by simp
  after_trimmed := by simp

/-- A pair of delimiters, of which the opening one is a quote or a parenthesis. -/
theorem strips_of_stripPair? {opening closing before after r rest : Text}
    (hopening : opening ∈ quoteSpellings ∨ opening = ['('])
    (hclosing : ∀ c ∈ closing, isTrimmed c = true)
    (h : stripPair? opening closing before after = some (r, rest)) :
    ∃ x v, Strips before after r rest x v := by
  obtain ⟨w, v, hbefore, hafter, hw, hv⟩ := stripPair?_inv h
  have hquote : ∀ q ∈ ['('] :: quoteSpellings, q ≠ [] ∧
      ∀ c ∈ q, Text.isBlank c = false ∧ isCloser c = false ∧ isTrimmed c = true := by decide
  obtain ⟨hne, hchars⟩ := hquote opening (by
    rcases hopening with h | rfl
    · exact List.mem_cons_of_mem _ h
    · exact List.mem_cons_self)
  refine ⟨opening ++ w, v ++ closing, hbefore, hafter, ?_, ?_, ?_, ?_, ?_⟩
  · exact Or.inr ⟨[], opening, w, rfl, by simp, hopening, apart_of_blank hw⟩
  · intro c hc
    rw [List.head?_append_of_ne_nil _ hne] at hc
    exact (hchars c (List.mem_of_head? hc)).1
  · intro c hc
    rcases List.mem_append.1 hc with hc | hc
    · exact (hchars c hc).2.1
    · exact isCloser_eq_false_of (by decide) (hw c hc)
  · intro c hc
    rcases List.mem_append.1 hc with hc | hc
    · exact (hchars c hc).2.2
    · exact isTrimmed_of_isBlank (hw c hc)
  · intro c hc
    rcases List.mem_append.1 hc with hc | hc
    · exact isTrimmed_of_isBlank (hv c hc)
    · exact hclosing c hc

theorem strips_stripQuotes (before after : Text) :
    ∃ x v, Strips before after (stripQuotes before after).1 (stripQuotes before after).2 x v := by
  unfold stripQuotes
  cases h : quoteSpellings.findSome? fun q => stripPair? q q before after with
  | none => exact ⟨[], [], Strips.refl before after⟩
  | some p =>
    obtain ⟨q, hq, hp⟩ := List.exists_of_findSome?_eq_some h
    have htrimmed : ∀ q ∈ quoteSpellings, ∀ c ∈ q, isTrimmed c = true := by decide
    exact strips_of_stripPair? (Or.inl hq) (htrimmed q hq) hp

theorem strips_stripParens (before after : Text) :
    ∃ x v, Strips before after (stripParens before after).1 (stripParens before after).2 x v := by
  unfold stripParens
  cases h : stripPair? ['('] [')'] before after with
  | none => exact ⟨[], [], Strips.refl before after⟩
  | some p => exact strips_of_stripPair? (Or.inr rfl) (by decide) h

/-- Parentheses around quotes are taken away with them. -/
theorem Strips.trans {before after r₁ rest₁ x₁ v₁ r₂ rest₂ x₂ v₂ : Text}
    (h₁ : Strips before after r₁ rest₁ x₁ v₁) (h₂ : Strips r₁ rest₁ r₂ rest₂ x₂ v₂) :
    Strips before after r₂ rest₂ (x₂ ++ x₁) (v₁ ++ v₂) where
  before_eq := by rw [h₁.before_eq, h₂.before_eq, List.append_assoc]
  after_eq := by rw [h₁.after_eq, h₂.after_eq, List.append_assoc]
  delimits := by
    rcases h₂.delimits with rfl | ⟨w, d, u, rfl, hw, hd, hu⟩
    · exact h₁.delimits
    · refine Or.inr ⟨w, d, u ++ x₁, by simp, hw, hd, hu.append ?_⟩
      rcases h₁.delimits with rfl | ⟨w', d', u', rfl, hw', hd', -⟩
      · simp [Apart]
      · refine (apart_of_blank hw').append ?_
        have hquote : ∀ q ∈ ['('] :: quoteSpellings, q ≠ [] ∧ Apart q := by decide
        obtain ⟨hne, hapart⟩ := hquote d' (by
          rcases hd' with h | rfl
          · exact List.mem_cons_of_mem _ h
          · exact List.mem_cons_self)
        intro c hc
        rw [List.head?_append_of_ne_nil _ hne] at hc
        exact hapart c hc
  ink := by
    cases x₂ with
    | nil => exact h₁.ink
    | cons c x₂ => exact h₂.ink
  open_only := by
    intro c hc
    rcases List.mem_append.1 hc with hc | hc
    · exact h₂.open_only c hc
    · exact h₁.open_only c hc
  before_trimmed := by
    intro c hc
    rcases List.mem_append.1 hc with hc | hc
    · exact h₂.before_trimmed c hc
    · exact h₁.before_trimmed c hc
  after_trimmed := by
    intro c hc
    rcases List.mem_append.1 hc with hc | hc
    · exact h₁.after_trimmed c hc
    · exact h₂.after_trimmed c hc

/-! ## The operands a text leads to -/

theorem dropOptional_append (p : Char → Bool) (t : Text) :
    ∃ u, u ++ dropOptional p t = t ∧ ∀ c ∈ u, p c = true := by
  cases t with
  | nil => exact ⟨[], rfl, by simp⟩
  | cons c t =>
    by_cases hc : p c = true
    · exact ⟨[c], by simp [dropOptional, hc], by simpa using hc⟩
    · exact ⟨[], by simp [dropOptional, hc], by simp⟩

/-- No letter of a keyword is a blank or closes anything. -/
theorem isBlank_of_sameLetter {x c : Char} (hx : x ∈ "ekilni".toList)
    (h : Text.sameLetter x c = true) : Text.isBlank c = false ∧ isCloser c = false := by
  have hink : ∀ x ∈ "ekilni".toList, Text.isBlank x = false := by decide
  have hopen : ∀ x ∈ "ekilni".toList, ∀ c ∈ ['}', ')', '>'], Text.sameLetter x c = false := by
    decide
  constructor
  · by_contra hc
    rw [Text.sameLetter_of_isBlank (hink x hx) (by simpa using hc)] at h
    exact absurd h (by decide)
  · exact isCloser_eq_false_of (hopen x hx) h

/-- A text that leads to a pattern ends with the keyword, blanks, a quote and perhaps a percent
sign. -/
theorem leadsToLikePattern_inv {t : Text} (h : leadsToLikePattern t = true) :
    ∃ s l w q p, t = s ++ (l ++ (w ++ q :: p)) ∧ l ≠ [] ∧
      (∀ c ∈ l, Text.isBlank c = false ∧ isCloser c = false) ∧
      (∀ c ∈ w, Text.isBlank c = true) ∧ isQuote q = true ∧ (p = [] ∨ p = ['%']) := by
  unfold leadsToLikePattern at h
  split at h
  · simp at h
  · rename_i q r hr
    split at h
    · simp at h
    · rename_i s hs
      obtain ⟨l, hl, hlen, hletters, -⟩ := Text.stripWord?_inv hs
      obtain ⟨w, hw, hblank⟩ := Text.trimStart_append r
      simp only [Bool.and_eq_true] at h
      have hpercent : ∃ p, p ++ q :: r = t.reverse ∧ (p = [] ∨ p = ['%']) := by
        cases hrev : t.reverse with
        | nil => simp [hrev, dropOptional] at hr
        | cons c u =>
          rw [hrev] at hr
          by_cases hc : c = '%'
          · exact ⟨['%'], by simpa [dropOptional, hc] using hr.symm, Or.inr rfl⟩
          · exact ⟨[], by simpa [dropOptional, hc] using hr.symm, Or.inl rfl⟩
      obtain ⟨p, hp, hpcase⟩ := hpercent
      refine ⟨s.reverse, l.reverse, w.reverse, q, p.reverse, ?_, ?_, ?_, ?_, h.1.1.1, ?_⟩
      · rw [← List.reverse_inj, ← hp, ← hw, hl]
        simp
      · rw [Ne, List.reverse_eq_nil_iff]
        rintro rfl
        simp at hlen
      · intro c hc
        obtain ⟨x, hx, hxc⟩ := hletters c (List.mem_reverse.1 hc)
        have hsub : ∀ x ∈ "ekil".toList, x ∈ "ekilni".toList := by decide
        exact isBlank_of_sameLetter (hsub x hx) hxc
      · exact fun c hc => hblank c (List.mem_reverse.1 hc)
      · rcases hpcase with rfl | rfl
        · exact Or.inl rfl
        · exact Or.inr rfl

/-- A text that leads to an operand of `in` ends with that keyword, and delimiters after it. -/
theorem leadsToInOperand_inv {t : Text} (h : leadsToInOperand t = true) :
    ∃ s l x, t = s ++ (l ++ x) ∧ l ≠ [] ∧ (∀ c ∈ l, Text.isBlank c = false ∧ isCloser c = false) ∧
      (∃ c ∈ l, Text.sameLetter 'n' c = true) ∧ ∀ c ∈ x, isCloser c = false := by
  unfold leadsToInOperand at h
  simp only at h
  split at h
  · simp at h
  · rename_i r hr
    obtain ⟨l, hl, hlen, hletters, hword⟩ := Text.stripWord?_inv hr
    obtain ⟨q, hq, hquote⟩ := dropOptional_append isQuote t.reverse
    obtain ⟨w₁, hw₁, hblank₁⟩ := Text.trimStart_append (dropOptional isQuote t.reverse)
    obtain ⟨p, hp, hparen⟩ := dropOptional_append (· == '(')
      (Text.trimStart (dropOptional isQuote t.reverse))
    obtain ⟨w₂, hw₂, hblank₂⟩ := Text.trimStart_append
      (dropOptional (· == '(') (Text.trimStart (dropOptional isQuote t.reverse)))
    refine ⟨r.reverse, l.reverse, (q ++ w₁ ++ p ++ w₂).reverse, ?_, ?_, ?_, ?_, ?_⟩
    · rw [← List.reverse_inj, ← hq, ← hw₁, ← hp, ← hw₂, hl]
      simp
    · rw [Ne, List.reverse_eq_nil_iff]
      rintro rfl
      simp at hlen
    · intro c hc
      obtain ⟨x, hx, hxc⟩ := hletters c (List.mem_reverse.1 hc)
      have hsub : ∀ x ∈ "ni".toList, x ∈ "ekilni".toList := by decide
      exact isBlank_of_sameLetter (hsub x hx) hxc
    · obtain ⟨c, hc, hnc⟩ := hword 'n' (by decide)
      exact ⟨c, List.mem_reverse.2 hc, hnc⟩
    · intro c hc
      simp only [List.mem_reverse, List.mem_append] at hc
      rcases hc with ((hc | hc) | hc) | hc
      · exact isCloser_eq_false_of (by decide) (hquote c hc)
      · exact isCloser_eq_false_of (by decide) (hblank₁ c hc)
      · exact isCloser_eq_false_of (p := (· == '(')) (by decide) (hparen c hc)
      · exact isCloser_eq_false_of (by decide) (hblank₂ c hc)

/-! ## Quoted patterns -/

/-- The quote that opens a pattern before a point closes it right after the point; a percent sign
may stand between the point and either quote. -/
def ClosesPattern (before after : Text) : Prop :=
  ∃ body q rest, isQuote q = true ∧ (before = body ++ [q] ∨ before = body ++ [q, '%']) ∧
    (after = q :: rest ∨ after = '%' :: q :: rest)

theorem splitLastPercent_eq (t : Text) :
    t = (splitLastPercent t).1 ++ (if (splitLastPercent t).2 then ['%'] else []) := by
  unfold splitLastPercent
  split
  · rename_i b hb
    simpa using (Text.stripSuffix?_eq_some_iff.1 hb).symm
  · simp

theorem splitLastPercent_concat (t : Text) {c : Char} (hc : c ≠ '%') :
    splitLastPercent (t ++ [c]) = (t ++ [c], false) := by
  unfold splitLastPercent
  split
  · rename_i b hb
    have heq := Text.stripSuffix?_eq_some_iff.1 hb
    exact absurd (List.append_inj_right' heq rfl) (by simpa using hc.symm)
  · rfl

theorem splitLastPercent_concat_percent (t : Text) :
    splitLastPercent (t ++ ['%']) = (t, true) := by
  rw [splitLastPercent, Text.stripSuffix?_eq_some_iff.2 rfl]

theorem splitFirstPercent_eq (t : Text) :
    t = (if (splitFirstPercent t).2 then ['%'] else []) ++ (splitFirstPercent t).1 := by
  unfold splitFirstPercent
  split <;> simp

theorem splitFirstPercent_cons (t : Text) {c : Char} (hc : c ≠ '%') :
    splitFirstPercent (c :: t) = (c :: t, false) := by
  unfold splitFirstPercent
  split
  · rename_i heq
    simp_all
  · rfl

theorem mem_quotes_of_isQuote {q : Char} (h : isQuote q = true) : q ∈ ['\'', '"'] := by
  simpa [isQuote] using h

theorem ne_percent_of_isQuote {q : Char} (h : isQuote q = true) : q ≠ '%' := by
  rintro rfl
  exact absurd h (by decide)

/-- A quote and at most a percent sign behind it are read off the end of a text in one way. -/
theorem quote_percent_inj {s s' u u' : Text} {q q' : Char} (hq : isQuote q = true)
    (hq' : isQuote q' = true) (hu : u = [] ∨ u = ['%']) (hu' : u' = [] ∨ u' = ['%'])
    (h : s ++ q :: u = s' ++ q' :: u') : s = s' ∧ q = q' ∧ u = u' := by
  have hlast := congrArg List.getLast? h
  rcases hu with rfl | rfl <;> rcases hu' with rfl | rfl
  · simpa using List.append_inj' h rfl
  · simp [ne_percent_of_isQuote hq] at hlast
  · simp [(ne_percent_of_isQuote hq').symm] at hlast
  · simpa using List.append_inj' h rfl

/-- The parts of a quoted pattern, and what the plan for it makes of them. -/
theorem likePlan?_inv {before name after : Text} {p : Plan}
    (h : likePlan? before name after = some p) :
    ∃ body q opened leading trailing rest, isQuote q = true ∧
      before = body ++ q :: (if leading then ['%'] else []) ∧
      after = (if trailing then ['%'] else []) ++ q :: rest ∧ rest = opened ++ p.rest ∧
      (∀ c ∈ opened, c = ' ' ∨ c = '\t') ∧ p.kind = .like ∧
      p.head = Text.trimEnd body ++ likeExpression leading trailing name := by
  unfold likePlan? at h
  simp only at h
  split at h
  · rename_i q c rest hlast htail
    split at h
    · rename_i hquote
      simp only [Bool.and_eq_true, beq_iff_eq] at hquote
      obtain ⟨hquote, rfl⟩ := hquote
      simp only [Option.some.injEq] at h
      subst h
      obtain ⟨body, hbody⟩ := List.getLast?_eq_some_iff.1 hlast
      have hbefore := splitLastPercent_eq before
      have hafter := splitFirstPercent_eq after
      rw [hbody, List.append_assoc, List.singleton_append] at hbefore
      rw [htail] at hafter
      refine ⟨body, c, rest.takeWhile fun c => c == ' ' || c == '\t', _, _, rest, hquote, hbefore,
        hafter, List.takeWhile_append_dropWhile.symm, ?_, rfl, ?_⟩
      · intro d hd
        simpa using List.mem_takeWhile_imp hd
      · rw [hbody, List.dropLast_concat]
    · simp at h
  · simp at h

theorem isSome_likePlan?_iff (before name after : Text) :
    (likePlan? before name after).isSome = true ↔ ClosesPattern before after := by
  constructor
  · intro h
    obtain ⟨p, hp⟩ := Option.isSome_iff_exists.1 h
    obtain ⟨body, q, opened, leading, trailing, rest, hq, hbefore, hafter, -⟩ := likePlan?_inv hp
    refine ⟨body, q, rest, hq, ?_, ?_⟩
    · cases leading
      · exact Or.inl hbefore
      · exact Or.inr hbefore
    · cases trailing
      · exact Or.inl hafter
      · exact Or.inr hafter
  · rintro ⟨body, q, rest, hq, hbefore, hafter⟩
    have hne := ne_percent_of_isQuote hq
    have hlast : (splitLastPercent before).1 = body ++ [q] := by
      rcases hbefore with rfl | rfl
      · rw [splitLastPercent_concat body hne]
      · rw [List.append_cons body q ['%'], splitLastPercent_concat_percent]
    have hfirst : (splitFirstPercent after).1 = q :: rest := by
      rcases hafter with rfl | rfl
      · rw [splitFirstPercent_cons rest hne]
      · rfl
    simp [likePlan?, hlast, hfirst, hq]

/-! ## The three plans -/

/-- Which plan is made. -/
theorem Binder.plan?_cases {b : Binder} {before name after : Text} {p : Plan}
    (h : b.plan? before name after = some p) :
    (leadsToInOperand before = true ∧ b.foreach = true ∧ p = foreachPlan before name after) ∨
      (leadsToLikePattern before = true ∧ likePlan? before name after = some p) ∨
      p = directPlan before name after := by
  unfold plan? at h
  split at h
  · simp at h
  · split at h
    · rename_i hin
      split at h
      · rename_i hforeach
        exact Or.inl ⟨hin, hforeach, (Option.some.inj h).symm⟩
      · simp at h
    · split at h
      · rename_i hlike
        exact Or.inr (Or.inl ⟨hlike, h⟩)
      · exact Or.inr (Or.inr (Option.some.inj h).symm)

/-- What a plan for `name` puts behind the text that it keeps. A block only comes behind a text that
is not blank: the keyword `in` stays. -/
inductive Inserts (b : Binder) (kept name : Text) : PlanKind → Text → Prop
  | direct : Inserts b kept name .direct (bound name)
  | like (leading trailing : Bool) :
      Inserts b kept name .like (likeExpression leading trailing name)
  | foreach (hforeach : b.foreach = true) (hink : Text.blank kept = false) :
      Inserts b kept name .foreach ('\n' :: foreachBlock name ++ ['\n'])

/-- A plan at an interpolation of `name` between `seen ++ before` and `after`: it keeps `seen`, cuts
delimiters off `before` and `after`, and puts `new` in. -/
structure Rewrites (b : Binder) (seen before name after : Text) (p : Plan)
    (kept cut opened new : Text) : Prop where
  before_eq : before = kept ++ cut
  after_eq : after = opened ++ p.rest
  head_eq : p.head = seen ++ kept ++ new
  cut_delimits : Delimits cut
  opened_trimmed : ∀ c ∈ opened, isTrimmed c = true
  inserts : Inserts b kept name p.kind new

namespace Sealed

variable {b : Binder} {seen before name after : Text} {p : Plan}

theorem directPlan (hs : Sealed seen) (b : Binder) (before name after : Text) :
    ∃ kept cut opened new, Rewrites b seen before name after
      (directPlan (seen ++ before) name after) kept cut opened new := by
  obtain ⟨x, v, h⟩ := strips_stripQuotes (seen ++ before) after
  obtain ⟨kept, hkept, hbefore⟩ := hs.cut h.before_eq.symm h.ink h.open_only
  exact ⟨kept, x, v, bound name, hbefore, h.after_eq, congrArg (· ++ bound name) hkept,
    h.delimits, h.after_trimmed, Inserts.direct⟩

theorem foreachPlan (hs : Sealed seen) (hforeach : b.foreach = true)
    (hin : leadsToInOperand (seen ++ before) = true) (name after : Text) :
    ∃ kept cut opened new, Rewrites b seen before name after
      (foreachPlan (seen ++ before) name after) kept cut opened new := by
  obtain ⟨x₁, v₁, h₁⟩ := strips_stripQuotes (seen ++ before) after
  obtain ⟨x₂, v₂, h₂⟩ := strips_stripParens (stripQuotes (seen ++ before) after).1
    (stripQuotes (seen ++ before) after).2
  have h := h₁.trans h₂
  obtain ⟨kept, hkept, hbefore⟩ := hs.cut h.before_eq.symm h.ink h.open_only
  -- the keyword stands in `before`, and none of it is a delimiter
  have hink : Text.blank kept = false := by
    obtain ⟨s, l, u, heq, hne, hl, ⟨n, hn, hnletter⟩, hu⟩ := leadsToInOperand_inv hin
    obtain ⟨k, -, hk⟩ := hs.cut_keyword heq hne hl hu
    have hmem : n ∈ kept ++ (x₂ ++ x₁) := by
      rw [← hbefore, hk]
      simp [hn]
    rcases List.mem_append.1 hmem with hmem | hmem
    · simp only [Text.blank, List.all_eq_false]
      exact ⟨n, hmem, by simp [(hl n hn).1]⟩
    · rw [not_sameLetter_of_isTrimmed (h.before_trimmed n hmem)] at hnletter
      exact absurd hnletter (by decide)
  refine ⟨kept, x₂ ++ x₁, v₁ ++ v₂, _, hbefore, h.after_eq, ?_, h.delimits, h.after_trimmed,
    Inserts.foreach hforeach hink⟩
  rw [SqlInjection.foreachPlan]
  simp [hkept]

theorem likePlan? (hs : Sealed seen) (hlike : leadsToLikePattern (seen ++ before) = true)
    (h : likePlan? (seen ++ before) name after = some p) :
    ∃ kept cut opened new, Rewrites b seen before name after p kept cut opened new := by
  obtain ⟨body, q, opened, leading, trailing, rest, hq, hbody, hafter, hrest, hopened, hkind,
    hhead⟩ := likePlan?_inv h
  obtain ⟨s, l, w, q', u, heq, hne, hl, hw, hq', hu⟩ := leadsToLikePattern_inv hlike
  -- both see the same quote and the same percent sign
  have hends : body ++ q :: (if leading then ['%'] else []) = s ++ (l ++ w) ++ q' :: u := by
    rw [← hbody, heq]
    simp
  obtain ⟨rfl, rfl, hpercent⟩ := quote_percent_inj hq hq' (by cases leading <;> simp) hu hends
  have hquote : ∀ q ∈ ['\'', '"'], [q] ∈ quoteSpellings ∧ isTrimmed q = true := by decide
  obtain ⟨hspelling, htrimmed⟩ := hquote q (mem_quotes_of_isQuote hq)
  have hsign : ∀ c ∈ u, c = '%' := by rcases hu with rfl | rfl <;> simp
  obtain ⟨k, hk, hbefore⟩ := hs.cut_keyword heq hne hl fun c hc => by
    rcases List.mem_append.1 hc with hc | hc
    · exact isCloser_eq_false_of (by decide) (hw c hc)
    · rcases List.mem_cons.1 hc with rfl | hc
      · exact isCloser_eq_false_of (by decide) hq
      · rw [hsign c hc]
        decide
  have hapart : Apart u := by
    rcases hu with rfl | rfl
    · simp [Apart]
    · exact apart_cons.2 (by decide)
  refine ⟨k ++ l, w ++ ([q] ++ u), (if trailing then ['%'] else []) ++ (q :: opened), _, ?_, ?_, ?_,
    Or.inr ⟨w, [q], u, rfl, hw, Or.inl hspelling, hapart⟩, ?_,
    hkind ▸ Inserts.like leading trailing⟩
  · rw [hbefore]
    simp
  · rw [hafter, hrest]
    simp
  · rw [hhead, Text.trimEnd_of_ink hne (fun c hc => (hl c hc).1) hw, hk]
    simp
  · intro c hc
    rcases List.mem_append.1 hc with hc | hc
    · cases trailing
      · simp at hc
      · obtain rfl : c = '%' := by simpa using hc
        decide
    · rcases List.mem_cons.1 hc with rfl | hc
      · exact htrimmed
      · rcases hopened c hc with rfl | rfl <;> decide

end Sealed

/-- **What a plan does.** Behind a sealed text, every plan works within the literal text before its
interpolation. -/
theorem Binder.plan?_inv {b : Binder} {seen before name after : Text} {p : Plan}
    (hs : Sealed seen) (h : b.plan? (seen ++ before) name after = some p) :
    ∃ kept cut opened new, Rewrites b seen before name after p kept cut opened new := by
  rcases plan?_cases h with ⟨hin, hforeach, rfl⟩ | ⟨hlike, hp⟩ | rfl
  · exact hs.foreachPlan hforeach hin name after
  · exact hs.likePlan? hlike hp
  · exact hs.directPlan b before name after

/-! ## What is put in -/

namespace Inserts

variable {b : Binder} {kept name new : Text} {kind : PlanKind}

/-- What is put in starts with a character that goes on with nothing before it. -/
theorem head (h : Inserts b kept name kind new) : ∃ c t, new = c :: t ∧ c ∈ ['#', ' ', '\n'] := by
  cases h with
  | direct => exact ⟨_, _, rfl, by decide⟩
  | like leading trailing =>
    unfold likeExpression
    split
    · exact ⟨' ', _, rfl, by decide⟩
    · exact ⟨' ', _, rfl, by decide⟩
  | foreach => exact ⟨'\n', _, rfl, by decide⟩

/-- What is put in seals the text. -/
theorem isSealed (h : Inserts b kept name kind new) (s : Text) : Sealed (s ++ new) := by
  cases h with
  | direct => exact Or.inr ⟨s ++ '#' :: '{' :: name, '}', [], by simp [bound], by decide, by simp⟩
  | like leading trailing =>
    unfold likeExpression
    split
    · exact Or.inr ⟨s ++ (" CONCAT(".toList ++ (if leading then "'%', ".toList else []) ++
        bound name ++ (if trailing then ", '%'".toList else [])), ')', [' '],
        (List.append_assoc s _ [')', ' ']).symm, by decide, by decide⟩
    · exact Or.inr ⟨s ++ ' ' :: '#' :: '{' :: name, '}', [' '], by simp [bound], by decide,
        by decide⟩
  | foreach =>
    have hend : ∃ u, foreachBlock name = u ++ ['>'] :=
      ⟨_, (List.append_assoc _ "\n</foreach".toList ['>']).symm⟩
    obtain ⟨u, hu⟩ := hend
    exact Or.inr ⟨s ++ '\n' :: u, '>', ['\n'], by simp [hu], by decide, by decide⟩

/-- What is put in leaves the question of a comparison to the text that is kept. -/
theorem goesOnComparing (h : Inserts b kept name kind new) (t : Text) :
    b.goesOnComparing (kept ++ (new ++ t)) = b.goesOnComparing kept := by
  cases h with
  | direct =>
    exact Binder.goesOnComparing_append_of_neutral kept
      (Binder.neutral_cons (by decide) (by decide) (by decide) _)
  | like leading trailing =>
    have hspace : ∀ c ∈ [' '], Text.isBlank c = true := by decide
    refine Binder.goesOnComparing_append_of_neutral kept ?_
    unfold likeExpression
    split
    · exact Binder.neutral_blank_append (w := [' ']) hspace
        (Binder.neutral_cons (c := 'C') (by decide) (by decide) (by decide) _)
    · exact Binder.neutral_blank_append (w := [' ']) hspace
        (Binder.neutral_cons (c := '#') (by decide) (by decide) (by decide) _)
  | foreach hforeach hink =>
    exact Binder.goesOnComparing_append_of_ink hink (apart_cons.2 (by decide))

end Inserts

end SqlInjection
