import SqlInjection.Proofs.Template.Segments

/-!
# The normal form of a template

The binder goes through a template once and leaves some interpolations as they are.
`fix_normal_form` says which: those on the ignore list, those where no value stands, operands of
`in` where no block may be put, and patterns that are not closed where they should be. It judges
them on the final text, although each was judged when the text after it was still to be bound: what
is done to that text later changes neither verdict nor plan (`Follows`, `Follows.plan?_eq_none`). So
binding a bound template changes nothing, and a template is bound completely exactly when nothing of
the last two kinds is left.
-/

namespace SqlInjection

/-- The name that an interpolation splices. -/
def Occurrence.name (o : Occurrence) : Text := o.capture.getD []

/-! ## What plans put in -/

theorem Plain.behind {s t : Text} (ht : Plain t) (hs : '$' ∉ s) : Plain (s ++ t) :=
  (plain_of_not_mem hs).append ht (divides_of_not_mem hs t)

theorem Plain.before {s t : Text} (hs : Plain s) (ht : '$' ∉ t) (hhead : t.head? ≠ some '{') :
    Plain (s ++ t) :=
  hs.append (plain_of_not_mem ht) (Or.inr hhead)

theorem plain_bound {name : Text} (h : Plain name) : Plain (bound name) :=
  (h.before (by decide) (by decide)).behind (s := ['#', '{']) (by decide)

theorem plain_elementName {collection : Text} (h : Plain collection) :
    Plain (elementName collection) := by
  have hsuffix : (collection.reverse.takeWhile (· != '.')).reverse <:+ collection := by
    rw [← List.reverse_prefix, List.reverse_reverse]
    exact List.takeWhile_prefix _
  exact (h.mono hsuffix.isInfix).before (by decide) (by decide)

theorem plain_foreachBlock {name : Text} (h : Plain name) : Plain (foreachBlock name) := by
  have hstart : collectionName name <+: name := List.takeWhile_prefix _
  have hcollection : Plain (collectionName name) := h.mono hstart.isInfix
  have hitem := plain_elementName hcollection
  unfold foreachBlock
  refine Plain.before ?_ (by decide) (by decide)
  refine Plain.append ?_ (plain_bound hitem) (Or.inr (by simp [bound]))
  refine Plain.before ?_ (by decide) (by decide)
  refine Plain.append ?_ hitem (Or.inl (by rw [List.getLast?_append]; simp))
  refine Plain.before ?_ (by decide) (by decide)
  exact hcollection.behind (by decide)

theorem plain_likeExpression (leading trailing : Bool) {name : Text} (h : Plain name) :
    Plain (likeExpression leading trailing name) := by
  have hbound := plain_bound h
  unfold likeExpression
  split
  · refine Plain.before ?_ (by decide) (by decide)
    refine Plain.before ?_ (by cases trailing <;> decide) (by cases trailing <;> decide)
    exact hbound.behind (by cases leading <;> decide)
  · exact (hbound.before (by decide) (by decide)).behind (s := [' ']) (by decide)

theorem Inserts.plain {b : Binder} {kept name new : Text} {kind : PlanKind}
    (h : Inserts b kept name kind new) (hname : Plain name) : Plain new := by
  cases h with
  | direct => exact plain_bound hname
  | like leading trailing => exact plain_likeExpression leading trailing hname
  | foreach =>
    exact ((plain_foreachBlock hname).before (by decide) (by decide)).behind (s := ['\n'])
      (by decide)

theorem Inserts.head_ne_brace {b : Binder} {kept name new : Text} {kind : PlanKind}
    (h : Inserts b kept name kind new) : new.head? ≠ some '{' := by
  obtain ⟨c, t, rfl, hc⟩ := h.head
  intro hbrace
  obtain rfl : c = '{' := by simpa using hbrace
  exact absurd hc (by decide)

theorem Sealed.divides {s : Text} (h : Sealed s) (t : Text) : Divides s t := by
  refine Or.inl ?_
  rcases h with rfl | ⟨u, c, w, rfl, hc, hw⟩
  · simp
  · intro hlast
    obtain hmem | hmem := List.mem_cons.1 (List.mem_of_getLast? (by simpa using hlast))
    · rw [← hmem] at hc
      exact absurd hc (by decide)
    · exact absurd (hw _ hmem) (by decide)

namespace Binder

variable {b : Binder}

/-! ## Equations of the scan -/

theorem bindFrom_of_none {rest : Text} (h : Interpolation.first? rest = none) (seen : Text) :
    b.bindFrom seen rest = seen ++ rest := by
  rw [bindFrom]
  split
  · rfl
  · rename_i i hi
    rw [h] at hi
    cases hi

theorem bindFrom_of_skip {seen rest : Text} {i : Interpolation}
    (h : Interpolation.first? rest = some i)
    (hp : b.plan? (seen ++ i.before) i.name i.after = none) :
    b.bindFrom seen rest = b.bindFrom (seen ++ i.before ++ interpolationOf i.name) i.after := by
  rw [bindFrom]
  split
  · rename_i hnone
    rw [h] at hnone
    cases hnone
  · rename_i j hj
    obtain rfl : i = j := Option.some.inj (h.symm.trans hj)
    split
    · rfl
    · rename_i p hplan
      rw [hp] at hplan
      cases hplan

theorem bindFrom_of_plan {seen rest : Text} {i : Interpolation} {p : Plan}
    (h : Interpolation.first? rest = some i)
    (hp : b.plan? (seen ++ i.before) i.name i.after = some p) :
    b.bindFrom seen rest = b.bindFrom p.head p.rest := by
  rw [bindFrom]
  split
  · rename_i hnone
    rw [h] at hnone
    cases hnone
  · rename_i j hj
    obtain rfl : i = j := Option.some.inj (h.symm.trans hj)
    split
    · rename_i hplan
      rw [hp] at hplan
      cases hplan
    · rename_i q hplan
      rw [Option.some.inj (hp.symm.trans hplan)]

/-! ## What the text after an interpolation decides -/

/-- `after'` has come from `after` by binding: the same comparison follows, and no pattern is closed
that was not. -/
structure Follows (b : Binder) (after after' : Text) : Prop where
  comparing : b.goesOnComparing after' = b.goesOnComparing after
  closes : ∀ before, ClosesPattern before after' → ClosesPattern before after

theorem Follows.refl (t : Text) : b.Follows t t := ⟨rfl, fun _ h => h⟩

/-- The verdict on an interpolation depends on the text after it by the comparison alone. -/
theorem pointRisk_congr (before : Text) {after after' : Text}
    (h : b.goesOnComparing after' = b.goesOnComparing after) :
    b.pointRisk before after' = b.pointRisk before after := by
  have hjudge : ∀ k : Option Clause,
      Clause.judge (some (b.seenAs after')) k = Clause.judge (some (b.seenAs after)) k := by
    intro k
    unfold goesOnComparing at h
    rcases k with _ | k
    · rfl
    · cases k <;> simp [Clause.judge, Clause.takesValue, h]
  unfold pointRisk templatePointRisk positionRisk
  simp only [hjudge]

theorem plan?_eq_none_iff {before name after : Text} :
    b.plan? before name after = none ↔
      b.ignore.covers name = true ∨ b.pointRisk before after = .safe ∨
        (leadsToInOperand before = true ∧ b.foreach = false) ∨
        (leadsToInOperand before = false ∧ leadsToLikePattern before = true ∧
          ¬ ClosesPattern before after) := by
  have hlike := isSome_likePlan?_iff before name after
  unfold plan?
  cases hcovers : b.ignore.covers name
  · cases hrisk : b.pointRisk before after
    · simp [Risk.isRisky]
    · cases hin : leadsToInOperand before
      · cases hpattern : leadsToLikePattern before
        · simp [Risk.isRisky]
        · simp [Risk.isRisky, ← hlike]
      · cases b.foreach <;> simp [Risk.isRisky]
  · simp

/-- An interpolation that is left stays so when the text after it is bound. -/
theorem Follows.plan?_eq_none {before name after after' : Text} (hf : b.Follows after after')
    (h : b.plan? before name after = none) : b.plan? before name after' = none := by
  rw [plan?_eq_none_iff, pointRisk_congr before hf.comparing]
  rcases plan?_eq_none_iff.1 h with h | h | h | ⟨hin, hlike, hopen⟩
  · exact Or.inl h
  · exact Or.inr (Or.inl h)
  · exact Or.inr (Or.inr (Or.inl h))
  · exact Or.inr (Or.inr (Or.inr ⟨hin, hlike, fun hclosed => hopen (hf.closes before hclosed)⟩))

/-- A pattern that is closed before a character that is neither a quote nor a percent sign is closed
whatever comes in its place. -/
theorem closesPattern_of_border {before l x : Text} {c : Char} (hquote : isQuote c = false)
    (hpercent : c ≠ '%') (h : ClosesPattern before (l ++ c :: x)) (y : Text) :
    ClosesPattern before (l ++ y) := by
  obtain ⟨body, q, rest, hq, hbefore, hafter⟩ := h
  have hqc : q ≠ c := fun h => by simp [h, hquote] at hq
  have hq' := ne_percent_of_isQuote hq
  match l with
  | [] =>
    rcases hafter with hafter | hafter
    · exact absurd (List.cons.inj hafter).1.symm hqc
    · exact absurd (List.cons.inj hafter).1 hpercent
  | [d] =>
    rcases hafter with hafter | hafter
    · obtain rfl := (List.cons.inj hafter).1
      exact ⟨body, d, y, hq, hbefore, Or.inl rfl⟩
    · exact absurd (List.cons.inj (List.cons.inj hafter).2).1.symm hqc
  | d :: e :: l =>
    rcases hafter with hafter | hafter
    · obtain rfl := (List.cons.inj hafter).1
      exact ⟨body, d, e :: l ++ y, hq, hbefore, Or.inl rfl⟩
    · obtain ⟨rfl, hrest⟩ := List.cons.inj hafter
      obtain rfl := (List.cons.inj hrest).1
      exact ⟨body, e, l ++ y, hq, hbefore, Or.inr rfl⟩

/-- Text that follows a `$` does not matter. -/
theorem follows_dollar (l x y : Text) : b.Follows (l ++ '$' :: x) (l ++ '$' :: y) where
  comparing := by
    have hneutral : ∀ t, b.Neutral ('$' :: t) :=
      fun t => neutral_cons (by decide) (by decide) (by decide) t
    rw [goesOnComparing_append_of_neutral l (hneutral y),
      goesOnComparing_append_of_neutral l (hneutral x)]
  closes _ h := closesPattern_of_border (by decide) (by decide) h _

/-- Nor does it matter what a plan does to the text before the next interpolation. -/
theorem follows_of_rewrites {seen before name after x : Text} {p : Plan}
    {kept cut opened new : Text} (h : Rewrites b seen before name after p kept cut opened new)
    (y : Text) :
    b.Follows (before ++ '$' :: x) (kept ++ (new ++ y)) where
  comparing := by
    rw [h.inserts.goesOnComparing, h.before_eq, List.append_assoc,
      goesOnComparing_append_of_neutral kept (h.cut_delimits.neutral x)]
  closes bf hcloses := by
    obtain ⟨c, t, hnew, hc⟩ := h.inserts.head
    have hchar : ∀ c ∈ ['#', ' ', '\n'], isQuote c = false ∧ c ≠ '%' := by decide
    obtain ⟨hquote, hpercent⟩ := hchar c hc
    rw [hnew, List.cons_append] at hcloses
    rw [h.before_eq, List.append_assoc]
    exact closesPattern_of_border hquote hpercent hcloses _

/-! ## The whole scan -/

/-- `T'` is what binding makes of `T` behind `seen`. -/
structure Binds (b : Binder) (seen : Text) (T T' : Template) : Prop where
  bindFrom_eq : b.bindFrom seen T.render = seen ++ T'.render
  sublist : T'.tokens.Sublist T.tokens
  settled : ∀ o ∈ T'.points seen, b.plan? o.before o.name o.after = none
  follows : b.Follows T.render T'.render

theorem Binds.last (b : Binder) (seen : Text) (l : Literal) :
    b.Binds seen (.last l) (.last l) where
  bindFrom_eq := bindFrom_of_none (Template.first?_render_last l) seen
  sublist := List.Sublist.refl _
  settled := by simp [Template.points]
  follows := Follows.refl _

theorem Binds.skip {seen : Text} {l : Literal} {n : PointName} {T T' : Template}
    (hp : b.plan? (seen ++ l.text) n.text T.render = none)
    (h : b.Binds (seen ++ l.text ++ interpolationOf n.text) T T') :
    b.Binds seen (.point l n T) (.point l n T') where
  bindFrom_eq := by
    rw [bindFrom_of_skip (Template.first?_render_point l n T) hp, h.bindFrom_eq]
    simp [Template.render]
  sublist := h.sublist.cons_cons _
  settled := by
    intro o ho
    rcases List.mem_cons.1 ho with rfl | ho
    · exact h.follows.plan?_eq_none hp
    · exact h.settled o ho
  follows := follows_dollar l.text _ _

theorem Binds.plan {seen : Text} {l : Literal} {n : PointName} {T R R' : Template} {p : Plan}
    {kept cut opened new : Text} (hp : b.plan? (seen ++ l.text) n.text T.render = some p)
    (hr : Rewrites b seen l.text n.text T.render p kept cut opened new)
    (hrender : R.render = p.rest) (htokens : R.tokens = T.tokens) (h : b.Binds p.head R R')
    (hplain : Plain (kept ++ new ++ R'.first.text)) :
    b.Binds seen (.point l n T) (R'.prepend (kept ++ new) hplain) where
  bindFrom_eq := by
    rw [bindFrom_of_plan (Template.first?_render_point l n T) hp, ← hrender, h.bindFrom_eq,
      hr.head_eq]
    simp
  sublist := by
    rw [Template.tokens_prepend, Template.tokens, ← htokens]
    exact h.sublist.cons _
  settled := by
    rw [Template.points_prepend, ← List.append_assoc, ← hr.head_eq]
    exact h.settled
  follows := by
    rw [Template.render_prepend, List.append_assoc]
    exact follows_of_rewrites hr R'.render

/-- Binding turns a template into a template. -/
theorem exists_binds (b : Binder) (T : Template) {seen : Text} (hs : Sealed seen) :
    ∃ T', b.Binds seen T T' := by
  induction hn : T.size generalizing T seen with
  | zero =>
    cases T with
    | last l => exact ⟨_, Binds.last b seen l⟩
    | point l n T => cases hn
  | succ k ih =>
    cases T with
    | last l => cases hn
    | point l n T =>
      have hk : T.size = k := Nat.succ.inj hn
      cases hp : b.plan? (seen ++ l.text) n.text T.render with
      | none =>
        have hseal : Sealed (seen ++ l.text ++ interpolationOf n.text) := by
          have := sealed_append (seen ++ l.text ++ '$' :: '{' :: n.text) (c := '}') (by decide)
          simpa [interpolationOf] using this
        obtain ⟨T', hT'⟩ := ih T hseal hk
        exact ⟨_, hT'.skip hp⟩
      | some p =>
        obtain ⟨kept, cut, opened, new, hr⟩ := plan?_inv hs hp
        have hdollar : '$' ∉ opened := fun h => absurd (hr.opened_trimmed _ h) (by decide)
        obtain ⟨R, hrender, htokens, hsize⟩ := Template.exists_drop hdollar hr.after_eq
        have hseal : Sealed p.head := hr.head_eq ▸ hr.inserts.isSealed (seen ++ kept)
        obtain ⟨R', hR'⟩ := ih R hseal (hsize.trans hk)
        have hkept : Plain kept := l.plain.mono ⟨[], cut, hr.before_eq.symm⟩
        have hnew : Plain (kept ++ new) :=
          hkept.append (hr.inserts.plain n.plain) (Or.inr hr.inserts.head_ne_brace)
        exact ⟨_, Binds.plan hp hr hrender htokens hR'
          (hnew.append R'.first.plain ((hr.inserts.isSealed kept).divides _))⟩

/-- A template in which every interpolation is left stays as it is. -/
theorem bindFrom_settled (T : Template) {seen : Text}
    (h : ∀ o ∈ T.points seen, b.plan? o.before o.name o.after = none) :
    b.bindFrom seen T.render = seen ++ T.render := by
  induction T generalizing seen with
  | last l => exact bindFrom_of_none (Template.first?_render_last l) seen
  | point l n T ih =>
    have hp := h _ List.mem_cons_self
    rw [bindFrom_of_skip (Template.first?_render_point l n T) hp,
      ih fun o ho => h o (List.mem_cons_of_mem _ ho)]
    simp [Template.render]

/-! ## Interpolations that are left -/

/-- The operand of `in` stays spliced: it carries a value, and no block may be put in its place. -/
structure StaysInOperand (b : Binder) (o : Occurrence) : Prop where
  not_ignored : b.ignore.covers o.name = false
  risky : b.pointRisk o.before o.after = .risky
  leads : leadsToInOperand o.before = true
  no_block : b.foreach = false

/-- The pattern stays spliced: it carries a value, and the quote before it is not closed behind
it. -/
structure StaysInPattern (b : Binder) (o : Occurrence) : Prop where
  not_ignored : b.ignore.covers o.name = false
  risky : b.pointRisk o.before o.after = .risky
  leads : leadsToLikePattern o.before = true
  not_closed : ¬ ClosesPattern o.before o.after

/-- What is left where the plan is none, by the four reasons for that. -/
theorem left_cases {o : Occurrence} (h : b.plan? o.before o.name o.after = none) :
    b.ignore.covers o.name = true ∨ b.pointRisk o.before o.after = .safe ∨
      b.StaysInOperand o ∨ b.StaysInPattern o := by
  by_cases hcovers : b.ignore.covers o.name = true
  · exact Or.inl hcovers
  · rw [Bool.not_eq_true] at hcovers
    cases hrisk : b.pointRisk o.before o.after with
    | safe => exact Or.inr (Or.inl rfl)
    | risky =>
      rcases plan?_eq_none_iff.1 h with h | h | ⟨hin, hoff⟩ | ⟨-, hlike, hopen⟩
      · simp [hcovers] at h
      · simp [hrisk] at h
      · exact Or.inr (Or.inr (Or.inl ⟨hcovers, hrisk, hin, hoff⟩))
      · exact Or.inr (Or.inr (Or.inr ⟨hcovers, hrisk, hlike, hopen⟩))

/-- A text carries a risk when one of its interpolations that are not ignored does. -/
theorem remainingRisk_eq_risky_iff {t : Text} :
    b.remainingRisk t = .risky ↔ ∃ o ∈ occurrences interpolationPattern t,
      b.ignore.covers o.name = false ∧ b.pointRisk o.before o.after = .risky := by
  simp only [remainingRisk, Risk.all_eq_risky_iff, List.mem_map, List.mem_filter, Occurrence.name,
    Bool.not_eq_true', and_assoc]

/-- **Binding reaches a normal form.** For every template: what is left is part of what was there,
in order; each interpolation that is left is, in the final text, ignored, or in a place that takes
no value, or an operand or pattern that cannot be bound; the outcome is its own outcome; and it is
complete exactly when nothing is left of the two last kinds. -/
theorem fix_normal_form (b : Binder) (T : Template) :
    let new := b.fix T.render
    let left := occurrences interpolationPattern new.text
    (left.map Occurrence.token).Sublist
        ((occurrences interpolationPattern T.render).map Occurrence.token) ∧
      (∀ o ∈ left, b.ignore.covers o.name = true ∨ b.pointRisk o.before o.after = .safe ∨
        b.StaysInOperand o ∨ b.StaysInPattern o) ∧
      b.fix new.text = new ∧
      (new.complete = true ↔ ∀ o ∈ left, ¬ b.StaysInOperand o ∧ ¬ b.StaysInPattern o) := by
  intro new left
  obtain ⟨T', hT'⟩ := exists_binds b T sealed_nil
  have htext : new.text = T'.render := hT'.bindFrom_eq
  have hleft : left = T'.points [] := by
    rw [← Template.interpolationsBehind_render, ← htext]
    rfl
  have hcases : ∀ o ∈ left, b.ignore.covers o.name = true ∨
      b.pointRisk o.before o.after = .safe ∨ b.StaysInOperand o ∨ b.StaysInPattern o := by
    intro o ho
    exact left_cases (hT'.settled o (hleft ▸ ho))
  refine ⟨?_, hcases, ?_, ?_⟩
  · rw [hleft, occurrences_eq_interpolationsBehind, Template.interpolationsBehind_render,
      Template.map_token_points, Template.map_token_points]
    exact hT'.sublist
  · have hagain : b.bindAll new.text = new.text := by
      rw [htext]
      exact bindFrom_settled T' hT'.settled
    show (⟨_, _⟩ : Outcome) = ⟨_, _⟩
    rw [hagain]
    rfl
  · have hcomplete : new.complete = true ↔ ¬ b.remainingRisk new.text = .risky := by
      show (!(b.remainingRisk new.text).isRisky) = true ↔ _
      cases b.remainingRisk new.text <;> simp [Risk.isRisky]
    rw [hcomplete, remainingRisk_eq_risky_iff]
    constructor
    · intro hnone o ho
      exact ⟨fun h => hnone ⟨o, ho, h.not_ignored, h.risky⟩,
        fun h => hnone ⟨o, ho, h.not_ignored, h.risky⟩⟩
    · rintro hnone ⟨o, ho, hcovers, hrisk⟩
      rcases hcases o ho with h | h | h | h
      · simp [hcovers] at h
      · simp [hrisk] at h
      · exact (hnone o ho).1 h
      · exact (hnone o ho).2 h

end Binder

end SqlInjection
