import SqlInjection.Proofs.Template.Scan

/-!
# Plans take away what belongs together

A plan takes something away on both sides of its interpolation and puts a text in its place.

* `Surrounds`: what the plans of each kind may take away. The two sides belong together: quotes of
  one spelling, a pair of parentheses, the quotes of a pattern with its percent signs;
* `Balanced`: a text that closes the quotes and the parentheses it opens.

`Binder.plan?_replaces` says of every plan what it takes away and what it puts in;
`Binder.plan?_takes_pairs` is the same for the whole text.
-/

namespace SqlInjection

/-! ## What stands around a point -/

/-- The texts on the two sides of a point are nothing, or a pair of delimiters with blanks between
each of them and the point. -/
inductive Pair (opening closing : Text) : Text → Text → Prop
  | absent : Pair opening closing [] []
  | around {w v : Text} (hw : ∀ c ∈ w, Text.isBlank c = true)
      (hv : ∀ c ∈ v, Text.isBlank c = true) : Pair opening closing (opening ++ w) (v ++ closing)

/-- A pair of quotes of one spelling, or nothing. -/
def Quotes (opened closed : Text) : Prop := ∃ q ∈ quoteSpellings, Pair q q opened closed

/-- A percent sign, where there is one. -/
def percent (present : Bool) : Text := if present then ['%'] else []

/-- What a plan of each kind takes away: `opened` before the interpolation and `closed` behind
it. -/
inductive Surrounds : PlanKind → (opened closed : Text) → Prop
  | direct {o c : Text} (quotes : Quotes o c) : Surrounds .direct o c
  | foreach {o c o' c' : Text} (quotes : Quotes o c) (parens : Pair ['('] [')'] o' c') :
      Surrounds .foreach (o' ++ o) (c ++ c')
  | like {w u : Text} {q : Char} (leading trailing : Bool) (hw : ∀ c ∈ w, Text.isBlank c = true)
      (hq : isQuote q = true) (hu : ∀ c ∈ u, c = ' ' ∨ c = '\t') :
      Surrounds .like (w ++ q :: percent leading) (percent trailing ++ q :: u)

theorem pair_of_stripPair? {opening closing before after r rest : Text}
    (h : stripPair? opening closing before after = some (r, rest)) :
    ∃ o c, before = r ++ o ∧ after = c ++ rest ∧ Pair opening closing o c := by
  obtain ⟨w, v, hbefore, hafter, hw, hv⟩ := stripPair?_inv h
  exact ⟨opening ++ w, v ++ closing, hbefore, hafter, Pair.around hw hv⟩

theorem quotes_stripQuotes (before after : Text) :
    ∃ o c, before = (stripQuotes before after).1 ++ o ∧ after = c ++ (stripQuotes before after).2 ∧
      Quotes o c := by
  unfold stripQuotes
  cases h : quoteSpellings.findSome? fun q => stripPair? q q before after with
  | none => exact ⟨[], [], by simp, by simp, ['\''], by decide, Pair.absent⟩
  | some r =>
    obtain ⟨q, hq, hr⟩ := List.exists_of_findSome?_eq_some h
    obtain ⟨o, c, hbefore, hafter, hpair⟩ := pair_of_stripPair? hr
    exact ⟨o, c, hbefore, hafter, q, hq, hpair⟩

theorem pair_stripParens (before after : Text) :
    ∃ o c, before = (stripParens before after).1 ++ o ∧ after = c ++ (stripParens before after).2 ∧
      Pair ['('] [')'] o c := by
  unfold stripParens
  cases h : stripPair? ['('] [')'] before after with
  | none => exact ⟨[], [], by simp, by simp, Pair.absent⟩
  | some r => exact pair_of_stripPair? h

theorem Pair.not_mem_dollar {opening closing o c : Text} (hclosing : '$' ∉ closing)
    (h : Pair opening closing o c) : '$' ∉ c := by
  cases h with
  | absent => simp
  | around hw hv =>
    rw [List.mem_append, not_or]
    exact ⟨fun hmem => absurd (hv _ hmem) (by decide), hclosing⟩

theorem Quotes.not_mem_dollar {o c : Text} (h : Quotes o c) : '$' ∉ c := by
  obtain ⟨q, hq, hpair⟩ := h
  have hspelling : ∀ q ∈ quoteSpellings, '$' ∉ q := by decide
  exact hpair.not_mem_dollar (hspelling q hq)

/-- No interpolation starts in what is taken away. -/
theorem Surrounds.not_mem_dollar {kind : PlanKind} {o c : Text} (h : Surrounds kind o c) :
    '$' ∉ c := by
  cases h with
  | direct quotes => exact quotes.not_mem_dollar
  | foreach quotes parens =>
    rw [List.mem_append, not_or]
    exact ⟨quotes.not_mem_dollar, parens.not_mem_dollar (by decide)⟩
  | like leading trailing hw hq hu =>
    have hpercent : '$' ∉ percent trailing := by cases trailing <;> decide
    rw [List.mem_append, List.mem_cons, not_or, not_or]
    refine ⟨hpercent, ?_, fun hmem => ?_⟩
    · rintro rfl
      exact absurd hq (by decide)
    · rcases hu _ hmem with h | h <;> exact absurd h (by decide)

/-! ## Balanced texts -/

/-- A text that closes the quotes it opens. A quote is closed by the next one of its spelling, and
what stands between the two is read as it is. -/
inductive QuotesClose : Text → Prop
  | nil : QuotesClose []
  | cons {c : Char} {t : Text} (hc : ∀ q ∈ quoteSpellings, ¬ q <+: c :: t) (ht : QuotesClose t) :
      QuotesClose (c :: t)
  | quoted {q s t : Text} (hq : q ∈ quoteSpellings) (hs : ¬ q <:+: s) (ht : QuotesClose t) :
      QuotesClose (q ++ s ++ q ++ t)

/-- A text whose parentheses nest. -/
structure ParensNest (t : Text) : Prop where
  opened : ∀ s, s <+: t → s.count ')' ≤ s.count '('
  closed : t.count '(' = t.count ')'

/-- A text that closes what it opens. -/
structure Balanced (t : Text) : Prop where
  quotes : QuotesClose t
  parens : ParensNest t

/-- The quotes in all their spellings, and the parentheses. -/
def delimiters : List Text := ['('] :: [')'] :: quoteSpellings

/-- A text without delimiters. -/
def Undelimited (t : Text) : Prop := ∀ d ∈ delimiters, ¬ d <:+: t

instance (t : Text) : Decidable (Undelimited t) := List.decidableBAll _ _

theorem Undelimited.mono {s t : Text} (ht : Undelimited t) (h : s <:+: t) : Undelimited s :=
  fun d hd hs => ht d hd (hs.trans h)

theorem Undelimited.not_mem {t : Text} (ht : Undelimited t) {c : Char} (hc : [c] ∈ delimiters) :
    c ∉ t :=
  fun h => ht [c] hc ((List.singleton_infix_iff c t).2 h)

/-- No delimiter runs over the border before a text that is apart. -/
theorem not_prefix_append {s t d : Text} (hs : s ≠ []) (hfree : Undelimited s) (ht : Apart t)
    (hd : d ∈ delimiters) : ¬ d <+: s ++ t := by
  intro h
  have hentity : ∀ d ∈ delimiters, d.tail = [] ∨ ∃ e ∈ entities, e.1 = d := by decide
  have htail : ∀ c ∈ t.head?, c ∉ d.tail := by
    rcases hentity d hd with hnil | ⟨e, he, rfl⟩
    · simp [hnil]
    · exact ht.not_mem he
  have hlength := Text.length_le_of_prefix_append hs htail h
  exact hfree d hd (List.prefix_of_prefix_length_le h (s.prefix_append t) hlength).isInfix

theorem Undelimited.append {s t : Text} (hs : Undelimited s) (ht : Undelimited t) (h : Apart t) :
    Undelimited (s ++ t) := by
  induction s with
  | nil => exact ht
  | cons c s ih =>
    intro d hd hmem
    rcases List.infix_cons_iff.1 hmem with hmem | hmem
    · exact not_prefix_append (List.cons_ne_nil c s) hs h hd hmem
    · exact ih (hs.mono (List.suffix_cons c s).isInfix) d hd hmem

namespace QuotesClose

/-- A text without delimiters before one that is apart. -/
theorem undelimited_append {s t : Text} (hs : Undelimited s) (h : Apart t) (ht : QuotesClose t) :
    QuotesClose (s ++ t) := by
  induction s with
  | nil => exact ht
  | cons c s ih =>
    refine cons (fun q hq => ?_) (ih (hs.mono (List.suffix_cons c s).isInfix))
    exact not_prefix_append (List.cons_ne_nil c s) hs h (by simp [delimiters, hq])

/-- Characters that no quote starts with may stand anywhere. -/
theorem inert_append {s t : Text} (hs : ∀ c ∈ s, c ∉ ['\'', '"', '&']) (ht : QuotesClose t) :
    QuotesClose (s ++ t) := by
  induction s with
  | nil => exact ht
  | cons c s ih =>
    have hheads : ∀ q ∈ quoteSpellings, q ≠ [] ∧ q.headD ' ' ∈ ['\'', '"', '&'] := by decide
    refine cons (fun q hq hstart => ?_) (ih fun x hx => hs x (List.mem_cons_of_mem c hx))
    obtain ⟨hne, hhead⟩ := hheads q hq
    obtain ⟨x, q, rfl⟩ := List.exists_cons_of_ne_nil hne
    obtain rfl := (List.cons_prefix_cons.1 hstart).1
    exact hs x List.mem_cons_self hhead

theorem bound_append {name t : Text} (hname : Undelimited name) (ht : QuotesClose t) :
    QuotesClose (bound name ++ t) := by
  have hclose : QuotesClose ('}' :: t) := inert_append (s := ['}']) (by decide) ht
  have hbody : QuotesClose (name ++ '}' :: t) :=
    undelimited_append hname (apart_cons.2 (by decide)) hclose
  have hopen := inert_append (s := ['#', '{']) (by decide) hbody
  simpa [bound] using hopen

/-- A wildcard in quotes. -/
theorem wildcard_append {t : Text} (ht : QuotesClose t) : QuotesClose ("'%'".toList ++ t) :=
  quoted (q := ['\'']) (s := ['%']) (by decide) (by decide) ht

/-- An attribute in double quotes. -/
theorem attribute_append {l v t : Text} (hl : ∀ c ∈ l, c ∉ ['\'', '"', '&']) (hv : '"' ∉ v)
    (ht : QuotesClose t) : QuotesClose (l ++ ('"' :: v ++ '"' :: t)) := by
  have hquoted := quoted (q := ['"']) (s := v) (by decide)
    (fun h => hv ((List.singleton_infix_iff _ _).1 h)) ht
  refine inert_append hl ?_
  simpa using hquoted

end QuotesClose

namespace ParensNest

theorem of_not_mem {t : Text} (hopening : '(' ∉ t) (hclosing : ')' ∉ t) : ParensNest t where
  opened s hs := by
    rw [List.count_eq_zero.2 fun h => hclosing (hs.subset h)]
    exact Nat.zero_le _
  closed := by rw [List.count_eq_zero.2 hopening, List.count_eq_zero.2 hclosing]

theorem prefix_append_cases {u s t : Text} (h : u <+: s ++ t) :
    u <+: s ∨ ∃ r, u = s ++ r ∧ r <+: t := by
  rcases List.prefix_or_prefix_of_prefix h (s.prefix_append t) with hu | ⟨r, rfl⟩
  · exact Or.inl hu
  · exact Or.inr ⟨r, rfl, (List.prefix_append_right_inj s).1 h⟩

theorem append {s t : Text} (hs : ParensNest s) (ht : ParensNest t) : ParensNest (s ++ t) where
  opened u hu := by
    rcases prefix_append_cases hu with hu | ⟨r, rfl, hr⟩
    · exact hs.opened u hu
    · have hclosed := hs.closed
      have hopened := ht.opened r hr
      simp only [List.count_append]
      omega
  closed := by rw [List.count_append, List.count_append, hs.closed, ht.closed]

/-- A pair of parentheses around a text. -/
theorem wrap {s : Text} (hs : ParensNest s) : ParensNest ('(' :: s ++ [')']) where
  opened u hu := by
    have hclosed := hs.closed
    cases u with
    | nil => simp
    | cons c u =>
      obtain ⟨rfl, htail⟩ := List.cons_prefix_cons.1 hu
      have hcount : u.count ')' ≤ u.count '(' + 1 := by
        rcases prefix_append_cases htail with hin | ⟨r, rfl, hr⟩
        · exact Nat.le_succ_of_le (hs.opened u hin)
        · have hlast : r.count ')' ≤ 1 := by simpa using hr.sublist.count_le ')'
          simp only [List.count_append]
          omega
      simpa using hcount
  closed := by simp [hs.closed]

end ParensNest

/-! ## What the plans put in -/

theorem undelimited_elementName {collection : Text} (h : Undelimited collection) :
    Undelimited (elementName collection) := by
  have hlast : (collection.reverse.takeWhile (· != '.')).reverse <:+: collection := by
    have := List.reverse_suffix.2 (List.takeWhile_prefix (· != '.') (l := collection.reverse))
    rw [List.reverse_reverse] at this
    exact this.isInfix
  exact (h.mono hlast).append (by decide) (by decide)

theorem not_mem_bound {name : Text} (h : Undelimited name) {c : Char} (hc : [c] ∈ delimiters) :
    c ∉ bound name := by
  have hmarks : ∀ d ∈ delimiters, ∀ x ∈ ['#', '{', '}'], d ≠ [x] := by decide
  intro hmem
  have hcase : c ∈ name ∨ c ∈ ['#', '{', '}'] := by
    simp only [bound, List.cons_append, List.mem_cons, List.mem_append] at hmem ⊢
    tauto
  rcases hcase with hmem | hmem
  · exact h.not_mem hc hmem
  · exact hmarks [c] hc c hmem rfl

theorem balanced_bound {name : Text} (h : Undelimited name) : Balanced (bound name) where
  quotes := by simpa using QuotesClose.bound_append h QuotesClose.nil
  parens := ParensNest.of_not_mem (not_mem_bound h (by decide)) (not_mem_bound h (by decide))

/-- The arguments of a pattern expression. -/
theorem quotesClose_likeArguments (leading trailing : Bool) {name : Text} (h : Undelimited name)
    {t : Text} (ht : QuotesClose t) :
    QuotesClose ((if leading then "'%', ".toList else []) ++
      (bound name ++ ((if trailing then ", '%'".toList else []) ++ t))) := by
  have hlast : QuotesClose ((if trailing then ", '%'".toList else []) ++ t) := by
    cases trailing
    · exact ht
    · exact QuotesClose.inert_append (s := [',', ' ']) (by decide) (QuotesClose.wildcard_append ht)
  have hbound := QuotesClose.bound_append h hlast
  cases leading
  · exact hbound
  · exact QuotesClose.wildcard_append
      (QuotesClose.inert_append (s := [',', ' ']) (by decide) hbound)

theorem balanced_likeExpression (leading trailing : Bool) {name : Text} (h : Undelimited name) :
    Balanced (likeExpression leading trailing name) where
  quotes := by
    have hspace : ∀ {t : Text}, QuotesClose t → QuotesClose (' ' :: t) :=
      QuotesClose.inert_append (s := [' ']) (by decide)
    unfold likeExpression
    split
    · have hend : QuotesClose ") ".toList :=
        QuotesClose.inert_append (s := [')', ' ']) (by decide) QuotesClose.nil
      have hcall := QuotesClose.inert_append (s := " CONCAT(".toList) (by decide)
        (quotesClose_likeArguments leading trailing h hend)
      simpa only [List.append_assoc] using hcall
    · exact hspace (QuotesClose.bound_append h (hspace QuotesClose.nil))
  parens := by
    have hbare : ∀ s : Text, '(' ∉ s → ')' ∉ s → ParensNest s := fun s => ParensNest.of_not_mem
    have hname := balanced_bound h
    unfold likeExpression
    split
    · have hargs : ParensNest ((if leading then "'%', ".toList else []) ++
          (bound name ++ if trailing then ", '%'".toList else [])) :=
        (hbare _ (by cases leading <;> decide) (by cases leading <;> decide)).append
          (hname.parens.append
            (hbare _ (by cases trailing <;> decide) (by cases trailing <;> decide)))
      have hassoc : ∀ a l n t e : Text, a ++ l ++ n ++ t ++ e = a ++ (l ++ (n ++ t) ++ e) := by
        simp
      have hcall := (hbare " CONCAT".toList (by decide) (by decide)).append
        (hargs.wrap.append (hbare [' '] (by decide) (by decide)))
      rw [hassoc]
      rw [List.append_assoc] at hcall
      exact hcall
    · exact (hbare [' '] (by decide) (by decide)).append
        (hname.parens.append (hbare [' '] (by decide) (by decide)))

theorem balanced_foreachBlock {name : Text} (h : Undelimited name) :
    Balanced ('\n' :: foreachBlock name ++ ['\n']) := by
  have hcollection : Undelimited (collectionName name) := h.mono (List.takeWhile_prefix _).isInfix
  have hitem := undelimited_elementName hcollection
  have hassoc : ∀ a c b i e x d : Text, '\n' :: (a ++ c ++ b ++ i ++ e ++ x ++ d) ++ ['\n'] =
      '\n' :: a ++ (c ++ (b ++ (i ++ (e ++ (x ++ (d ++ ['\n'])))))) := by simp
  unfold foreachBlock
  rw [hassoc]
  constructor
  · have hend : QuotesClose "\n</foreach>\n".toList :=
      QuotesClose.inert_append (s := "\n</foreach>\n".toList) (by decide) QuotesClose.nil
    have hbody := QuotesClose.inert_append (s := ">\n".toList) (by decide)
      (QuotesClose.bound_append hitem hend)
    exact QuotesClose.attribute_append (l := "\n<foreach collection=".toList) (by decide)
      (hcollection.not_mem (c := '"') (by decide))
      (QuotesClose.attribute_append (l := " item=".toList) (by decide)
        (hitem.not_mem (c := '"') (by decide))
        (QuotesClose.attribute_append (l := " open=".toList) (v := ['(']) (by decide)
          (by decide)
          (QuotesClose.attribute_append (l := " separator=".toList) (v := [','])
            (by decide) (by decide)
            (QuotesClose.attribute_append (l := " close=".toList) (v := [')']) (by decide)
              (by decide) hbody))))
  · have hbare : ∀ s : Text, '(' ∉ s → ')' ∉ s → ParensNest s := fun s => ParensNest.of_not_mem
    have hvalue : ∀ {s : Text}, Undelimited s → ParensNest s := fun hs =>
      hbare _ (hs.not_mem (by decide)) (hs.not_mem (by decide))
    have hend := (balanced_bound hitem).parens.append
      (hbare "\n</foreach>\n".toList (by decide) (by decide))
    have hattributes := (hbare "\" open=\"".toList (by decide) (by decide)).append
      ((hbare "\" separator=\",\" close=\"".toList (by decide) (by decide)).wrap.append
        ((hbare "\">\n".toList (by decide) (by decide)).append hend))
    exact (hbare "\n<foreach collection=\"".toList (by decide) (by decide)).append
      ((hvalue hcollection).append ((hbare "\" item=\"".toList (by decide) (by decide)).append
        ((hvalue hitem).append hattributes)))

/-! ## What a plan does -/

/-- A plan for an interpolation of `name` between two texts: it takes `opened` and `closed` away,
and puts `new` in. -/
structure Replaces (before name after : Text) (p : Plan) (kept opened closed new : Text) :
    Prop where
  before_eq : before = kept ++ opened
  after_eq : after = closed ++ p.rest
  head_eq : p.head = kept ++ new
  surrounds : Surrounds p.kind opened closed
  balanced : Undelimited name → Balanced new

theorem replaces_directPlan (before name after : Text) :
    ∃ kept opened closed new,
      Replaces before name after (directPlan before name after) kept opened closed new := by
  obtain ⟨o, c, hbefore, hafter, hquotes⟩ := quotes_stripQuotes before after
  exact ⟨_, o, c, bound name, hbefore, hafter, rfl, Surrounds.direct hquotes, balanced_bound⟩

theorem replaces_foreachPlan (before name after : Text) :
    ∃ kept opened closed new,
      Replaces before name after (foreachPlan before name after) kept opened closed new := by
  obtain ⟨o, c, hbefore, hafter, hquotes⟩ := quotes_stripQuotes before after
  obtain ⟨o', c', hbefore', hafter', hparens⟩ := pair_stripParens (stripQuotes before after).1
    (stripQuotes before after).2
  refine ⟨(stripParens (stripQuotes before after).1 (stripQuotes before after).2).1, o' ++ o,
    c ++ c', '\n' :: foreachBlock name ++ ['\n'], ?_, ?_, ?_, Surrounds.foreach hquotes hparens,
    balanced_foreachBlock⟩
  · exact (hbefore.trans (congrArg (· ++ o) hbefore')).trans (List.append_assoc _ o' o)
  · exact (hafter.trans (congrArg (c ++ ·) hafter')).trans (List.append_assoc c c' _).symm
  · exact List.append_assoc _ ('\n' :: foreachBlock name) ['\n']

theorem replaces_likePlan? {before name after : Text} {p : Plan}
    (h : likePlan? before name after = some p) :
    ∃ kept opened closed new, Replaces before name after p kept opened closed new := by
  obtain ⟨body, q, u, leading, trailing, rest, hq, hbefore, hafter, hrest, hu, hkind, hhead⟩ :=
    likePlan?_inv h
  obtain ⟨w, hw, hblank⟩ := Text.trimEnd_append body
  refine ⟨_, w ++ q :: percent leading, percent trailing ++ q :: u, _, ?_, ?_, hhead,
    hkind ▸ Surrounds.like leading trailing hblank hq hu, balanced_likeExpression leading trailing⟩
  · rw [hbefore, ← List.append_assoc, hw]
    rfl
  · rw [hafter, hrest]
    simp [percent]

/-- **Every plan replaces an interpolation together with the delimiters around it.** -/
theorem Binder.plan?_replaces {b : Binder} {before name after : Text} {p : Plan}
    (h : b.plan? before name after = some p) :
    ∃ kept opened closed new, Replaces before name after p kept opened closed new := by
  rcases plan?_cases h with ⟨-, -, rfl⟩ | ⟨-, hlike⟩ | rfl
  · exact replaces_foreachPlan before name after
  · exact replaces_likePlan? hlike
  · exact replaces_directPlan before name after

/-- **Every plan takes away matched delimiters only.** Let a plan replace an interpolation of `name`
in a text. The text and the new text agree before and behind what is replaced. Besides the
interpolation, what is taken away are quotes of one spelling, parentheses or the ends of a quoted
pattern, on both sides, and what is put in is balanced when the name is free of delimiters. -/
theorem Binder.plan?_takes_pairs (b : Binder) {before name after : Text} {p : Plan}
    (h : b.plan? before name after = some p) :
    ∃ kept opened closed rest new,
      before = kept ++ opened ∧ after = closed ++ rest ∧
      before ++ interpolationOf name ++ after =
        kept ++ (opened ++ interpolationOf name ++ closed) ++ rest ∧
      p.text = kept ++ new ++ rest ∧ Surrounds p.kind opened closed ∧
      (Undelimited name → Balanced new) := by
  obtain ⟨kept, opened, closed, new, hr⟩ := plan?_replaces h
  refine ⟨kept, opened, closed, p.rest, new, hr.before_eq, hr.after_eq, ?_, ?_, hr.surrounds,
    hr.balanced⟩
  · rw [hr.before_eq, hr.after_eq]
    simp
  · rw [Plan.text, hr.head_eq]

/-- The binder for statements in markup, with the names that are left alone by default. -/
def Binder.dynamic : Binder := ⟨.builtin, true, true⟩

/-- A list in quotes and parentheses. -/
theorem Binder.plan?_takes_pairs_quotedList :
    ∃ p, dynamic.plan? "where id in ( '".toList "ids".toList "' )".toList = some p ∧
      p.kind = .foreach ∧ Undelimited "ids".toList ∧
      ∃ kept opened closed rest new, kept ++ opened = "where id in ( '".toList ∧
        closed ++ rest = "' )".toList ∧ p.text = kept ++ new ++ rest ∧
        Surrounds .foreach opened closed ∧ Balanced new := by
  have hfree : Undelimited "ids".toList := by decide
  have hkind : (dynamic.plan? "where id in ( '".toList "ids".toList "' )".toList).map Plan.kind =
      some .foreach := by decide +kernel
  obtain ⟨p, hp, hpkind⟩ := Option.map_eq_some_iff.1 hkind
  obtain ⟨kept, opened, closed, rest, new, hbefore, hafter, -, htext, hsurrounds, hbalanced⟩ :=
    plan?_takes_pairs dynamic hp
  exact ⟨p, hp, hpkind, hfree, kept, opened, closed, rest, new, hbefore.symm, hafter.symm, htext,
    hpkind ▸ hsurrounds, hbalanced hfree⟩

end SqlInjection
