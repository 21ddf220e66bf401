import SqlInjection.Detector.AnnotatedMethod
import SqlInjection.Proofs.Java.WrittenLiterals
import SqlInjection.Proofs.Template.Scan

/-!
# Fixing an annotation and reading it again

The fix of an annotation puts one literal in place of its statement. The literal is written for the
statement with the parameters bound; when the source is read again, the literal is decoded, its
value is searched for a script, and the body is judged. Each step could undo the one before:

* `Java.literalValue?_literalOf`, `Java.nextToken_literalOf`: a literal is read as one token, and
  its value is the text it was written for;
* `isSome_scriptBody?_iff`: blanks aside, a script is a text that starts with the opening tag and
  ends with the closing one, and `framed_bindAll`: binding puts neither tag there;
* `statementBody_rebound`: so a statement with its parameters bound has the same script around it.

`fixed_annotation_clean` puts them together. A statement that consists of blanks only, and has some,
has no body; `blank_annotation_hides` is a source in which one keeps another annotation from being
flagged.
-/

namespace SqlInjection

open Text

/-! ## Words at the ends of a text -/

/-- A text that starts with a word, blanks left aside. -/
def Leads (w t : Text) : Prop := w <+: trimStart t

theorem trimStart_of_ink {x : Text} (hx : Text.blank x = false) :
    trimStart x ≠ [] ∧ ∀ s, trimStart (x ++ s) = trimStart x ++ s := by
  induction x with
  | nil => simp [Text.blank] at hx
  | cons c x ih =>
    by_cases hc : isBlank c = true
    · have hx' : Text.blank x = false := by simpa [Text.blank, hc] using hx
      simpa [trimStart, hc] using ih hx'
    · simp [trimStart, hc]

/-- A word is not read over ink that it does not hold: it stands before that ink, whatever comes
behind it. -/
theorem Leads.of_foreign {w x u : Text} {c : Char} {t : Text} (hw : ∀ d ∈ w, isBlank d = false)
    (hne : w ≠ []) (hu : ∀ d ∈ u, isBlank d = true) (hc : isBlank c = false) (hforeign : c ∉ w)
    (h : Leads w (x ++ (u ++ c :: t))) (s : Text) : Leads w (x ++ s) := by
  by_cases hx : Text.blank x = true
  · have hfront : ∀ d ∈ x ++ u, isBlank d = true := by
      intro d hd
      rcases List.mem_append.1 hd with hd | hd
      · exact List.all_eq_true.1 hx d hd
      · exact hu d hd
    rw [Leads, ← List.append_assoc, trimStart_blank_append hfront (by simpa using hc)] at h
    obtain ⟨d, w, rfl⟩ := List.exists_cons_of_ne_nil hne
    exact absurd (by simp [(List.cons_prefix_cons.1 h).1]) hforeign
  · obtain ⟨hink, happend⟩ := trimStart_of_ink (Bool.eq_false_iff.2 hx)
    rw [Leads, happend] at h ⊢
    have hhead : ∀ d ∈ (u ++ c :: t).head?, d ∉ w.tail := by
      intro d hd hmem
      cases u with
      | nil =>
        obtain rfl : c = d := by simpa using hd
        exact hforeign (List.mem_of_mem_tail hmem)
      | cons e u =>
        obtain rfl : e = d := by simpa using hd
        have hblank := hu e List.mem_cons_self
        rw [hw e (List.mem_of_mem_tail hmem)] at hblank
        cases hblank
    have hlength := length_le_of_prefix_append hink hhead h
    exact (List.prefix_of_prefix_length_le h (List.prefix_append _ _) hlength).trans
      (List.prefix_append _ _)

/-! ## Scripts -/

/-- A script with blanks around it, put together. -/
def StatementBody.ofScript (w body v : Text) : StatementBody :=
  ⟨w ++ scriptOpening, body, scriptClosing ++ v, true⟩

theorem ink_scriptOpening : scriptOpening ≠ [] ∧ ∀ c ∈ scriptOpening, isBlank c = false := by
  decide

theorem ink_scriptClosing : scriptClosing ≠ [] ∧ ∀ c ∈ scriptClosing, isBlank c = false := by
  decide

theorem ink_scriptClosing_reverse :
    scriptClosing.reverse ≠ [] ∧ ∀ c ∈ scriptClosing.reverse, isBlank c = false := by
  decide

/-- A run of blanks before ink is all that is trimmed. -/
theorem span_blank_ink {w l : Text} (hw : ∀ c ∈ w, isBlank c = true)
    (hl : l ≠ [] ∧ ∀ c ∈ l, isBlank c = false) (t : Text) :
    (w ++ (l ++ t)).takeWhile isBlank = w ∧ trimStart (w ++ (l ++ t)) = l ++ t := by
  refine span_append hw fun c hc => ?_
  rw [List.head?_append_of_ne_nil _ hl.1] at hc
  exact hl.2 c (List.mem_of_mem_head? hc)

theorem scriptBody?_of_blank {w v : Text} (hw : ∀ c ∈ w, isBlank c = true)
    (hv : ∀ c ∈ v, isBlank c = true) (body : Text) :
    scriptBody? (w ++ (scriptOpening ++ (body ++ (scriptClosing ++ v)))) =
      some (.ofScript w body v) := by
  obtain ⟨hhead, hfront⟩ :=
    span_blank_ink hw ink_scriptOpening (body ++ (scriptClosing ++ v))
  have htail : (w ++ (scriptOpening ++ (body ++ (scriptClosing ++ v)))).reverse.takeWhile isBlank =
      v.reverse := by
    have := (span_blank_ink (fun c hc => hv c (List.mem_reverse.1 hc)) ink_scriptClosing_reverse
      (body.reverse ++ (scriptOpening.reverse ++ w.reverse))).1
    simpa using this
  have htrim : trim (w ++ (scriptOpening ++ (body ++ (scriptClosing ++ v)))) =
      scriptOpening ++ (body ++ scriptClosing) := by
    have hback := trimEnd_of_ink (x := scriptOpening ++ body) ink_scriptClosing.1
      ink_scriptClosing.2 hv
    rw [trim, hfront, ← List.append_assoc, hback, List.append_assoc]
  rw [scriptBody?, htrim, Text.stripPrefix?_eq_some_iff.2 rfl, Option.bind_eq_bind,
    Option.bind_some, Text.stripSuffix?_eq_some_iff.2 rfl, hhead, htail, List.reverse_reverse]
  rfl

theorem scriptBody?_inv {t : Text} {b : StatementBody} (h : scriptBody? t = some b) :
    ∃ w v, (∀ c ∈ w, isBlank c = true) ∧ (∀ c ∈ v, isBlank c = true) ∧
      t = w ++ (scriptOpening ++ (b.body ++ (scriptClosing ++ v))) ∧ b = .ofScript w b.body v := by
  have hscript := h
  simp only [scriptBody?, Option.bind_eq_bind, Option.bind_eq_some_iff] at h
  obtain ⟨inside, hinside, body, hbody, hb⟩ := h
  obtain ⟨w, hw, hwblank⟩ := trimStart_append t
  obtain ⟨v, hv, hvblank⟩ := trimEnd_append (trimStart t)
  have ht : t = w ++ (scriptOpening ++ (body ++ (scriptClosing ++ v))) := by
    rw [← hw, ← hv]
    change w ++ (trim t ++ v) = _
    rw [← Text.stripPrefix?_eq_some_iff.1 hinside, ← Text.stripSuffix?_eq_some_iff.1 hbody]
    simp
  rw [ht, scriptBody?_of_blank hwblank hvblank, Option.some.injEq] at hscript
  subst hscript
  exact ⟨w, v, hwblank, hvblank, ht, rfl⟩

theorem leads_of_blank {w l : Text} (hw : ∀ c ∈ w, isBlank c = true)
    (hl : l ≠ [] ∧ ∀ c ∈ l, isBlank c = false) (t : Text) : Leads l (w ++ (l ++ t)) := by
  rw [Leads, (span_blank_ink hw hl t).2]
  exact List.prefix_append l t

theorem Leads.exists_eq {l t : Text} (h : Leads l t) :
    ∃ w x, (∀ c ∈ w, isBlank c = true) ∧ t = w ++ (l ++ x) := by
  obtain ⟨w, hw, hblank⟩ := trimStart_append t
  obtain ⟨x, hx⟩ := h
  exact ⟨w, x, hblank, by rw [hx, hw]⟩

theorem scriptOpening_eq : scriptOpening = '<' :: 's' :: "cript>".toList := by decide

theorem scriptClosing_eq : scriptClosing = '<' :: '/' :: "script>".toList := by decide

/-- The tags of a script do not overlap. -/
theorem tags_apart {w x y v : Text} (hw : ∀ c ∈ w, isBlank c = true)
    (h : w ++ (scriptOpening ++ x) = y ++ (scriptClosing ++ v)) :
    ∃ body, x = body ++ (scriptClosing ++ v) := by
  rw [← List.append_assoc] at h
  rcases List.append_eq_append_iff.1 h with ⟨k, -, hk⟩ | ⟨k, hk, hclosing⟩
  · exact ⟨k, hk⟩
  cases k with
  | nil => exact ⟨[], hclosing.symm⟩
  | cons d k =>
    -- the closing tag would start inside the opening one, at its only angle bracket
    exfalso
    rw [scriptClosing_eq, List.cons_append] at hclosing
    obtain ⟨rfl, hslash⟩ := List.cons.inj hclosing
    have hopening : scriptOpening = '<' :: k := by
      rcases List.append_eq_append_iff.1 hk with ⟨m, -, hm⟩ | ⟨m, hm, hopening⟩
      · cases m with
        | nil => exact hm
        | cons a m =>
          have hmem : '<' ∈ scriptOpening.tail := by simp [hm]
          exact absurd hmem (by decide)
      · cases m with
        | nil => exact hopening.symm
        | cons a m =>
          obtain ⟨rfl, -⟩ : '<' = a ∧ k = m ++ scriptOpening := List.cons.inj hopening
          have hblank := hw '<' (by simp [hm])
          exact absurd hblank (by decide)
    rw [scriptOpening_eq] at hopening
    rw [← (List.cons.inj hopening).2] at hslash
    exact absurd (List.cons.inj hslash).1 (by decide)

/-- A text that starts with the opening tag and ends with the closing one is a script. -/
theorem isSome_scriptBody?_iff (t : Text) :
    (scriptBody? t).isSome = true ↔
      Leads scriptOpening t ∧ Leads scriptClosing.reverse t.reverse := by
  constructor
  · intro h
    obtain ⟨b, hb⟩ := Option.isSome_iff_exists.1 h
    obtain ⟨w, v, hw, hv, rfl, -⟩ := scriptBody?_inv hb
    refine ⟨leads_of_blank hw ink_scriptOpening _, ?_⟩
    have := leads_of_blank (fun c hc => hv c (List.mem_reverse.1 hc)) ink_scriptClosing_reverse
      (b.body.reverse ++ (scriptOpening.reverse ++ w.reverse))
    simpa using this
  · rintro ⟨hopen, hclose⟩
    obtain ⟨w, x, hw, rfl⟩ := hopen.exists_eq
    obtain ⟨v, y, hv, hy⟩ := hclose.exists_eq
    have hends : w ++ (scriptOpening ++ x) = y.reverse ++ (scriptClosing ++ v.reverse) := by
      simpa using congrArg List.reverse hy
    obtain ⟨body, rfl⟩ := tags_apart hw hends
    rw [scriptBody?_of_blank hw (fun c hc => hv c (List.mem_reverse.1 hc))]
    rfl

/-! ## What binding does to the ends of a text -/

namespace Inserts

variable {b : Binder} {kept name new : Text} {kind : PlanKind}

/-- What is put in where no block may be starts with ink that the opening tag does not hold. -/
theorem front (hb : b.foreach = false) (h : Inserts b kept name kind new) :
    ∃ u c t, new = u ++ c :: t ∧ (∀ d ∈ u, isBlank d = true) ∧ c ∈ ['#', 'C'] := by
  cases h with
  | direct => exact ⟨[], '#', _, rfl, by simp, by decide⟩
  | like leading trailing =>
    unfold likeExpression
    split
    · exact ⟨[' '], 'C', _, rfl, by decide, by decide⟩
    · exact ⟨[' '], '#', _, rfl, by decide, by decide⟩
  | foreach hforeach => rw [hb] at hforeach; cases hforeach

/-- It ends with ink that the closing tag does not hold. -/
theorem back (hb : b.foreach = false) (h : Inserts b kept name kind new) :
    ∃ t c v, new = t ++ c :: v ∧ (∀ d ∈ v, isBlank d = true) ∧ c ∈ ['\x7d', ')'] := by
  cases h with
  | direct => exact ⟨'#' :: '\x7b' :: name, '\x7d', [], by simp [bound], by simp, by decide⟩
  | like leading trailing =>
    unfold likeExpression
    split
    · exact ⟨_, ')', [' '], rfl, by decide, by decide⟩
    · exact ⟨' ' :: '#' :: '\x7b' :: name, '\x7d', [' '], by simp [bound], by decide, by decide⟩
  | foreach hforeach => rw [hb] at hforeach; cases hforeach

end Inserts

/-- A text that starts with no tag, ends with no tag and is not blank unless another is so. -/
structure Framed (t new : Text) : Prop where
  opening : Leads scriptOpening new → Leads scriptOpening t
  closing : Leads scriptClosing.reverse new.reverse → Leads scriptClosing.reverse t.reverse
  blank : Text.blank new = true → Text.blank t = true

namespace Framed

theorem refl (t : Text) : Framed t t := ⟨id, id, id⟩

theorem trans {t u v : Text} (h₁ : Framed t u) (h₂ : Framed u v) : Framed t v :=
  ⟨h₁.opening ∘ h₂.opening, h₁.closing ∘ h₂.closing, h₁.blank ∘ h₂.blank⟩

/-- What is put in has ink at both ends that no tag holds. -/
theorem insert {b : Binder} {kept name new : Text} {kind : PlanKind} (hb : b.foreach = false)
    (h : Inserts b kept name kind new) (x old y : Text) :
    Framed (x ++ (old ++ y)) (x ++ (new ++ y)) := by
  obtain ⟨u, c, t, hfront, hu, hc⟩ := h.front hb
  obtain ⟨t', d, v, hback, hv, hd⟩ := h.back hb
  have hopening : ∀ c ∈ ['#', 'C'], isBlank c = false ∧ c ∉ scriptOpening := by decide
  have hclosing : ∀ d ∈ ['\x7d', ')'], isBlank d = false ∧ d ∉ scriptClosing.reverse := by decide
  obtain ⟨hcink, hcforeign⟩ := hopening c hc
  obtain ⟨hdink, hdforeign⟩ := hclosing d hd
  constructor
  · intro hleads
    have hleads : Leads scriptOpening (x ++ (u ++ c :: (t ++ y))) := by simpa [hfront] using hleads
    exact hleads.of_foreign ink_scriptOpening.2 ink_scriptOpening.1 hu hcink hcforeign (old ++ y)
  · intro hleads
    have hleads : Leads scriptClosing.reverse
        (y.reverse ++ (v.reverse ++ d :: (t'.reverse ++ x.reverse))) := by
      simpa [hback] using hleads
    have := hleads.of_foreign ink_scriptClosing_reverse.2 ink_scriptClosing_reverse.1
      (fun e he => hv e (List.mem_reverse.1 he)) hdink hdforeign (old.reverse ++ x.reverse)
    simpa using this
  · intro hblank
    have := List.all_eq_true.1 hblank c (by simp [hfront])
    rw [hcink] at this
    cases this

end Framed

/-- Where no block may be put in, binding makes no script and no blank text. -/
theorem framed_bindAll {b : Binder} (hb : b.foreach = false) (t : Text) :
    Framed t (b.bindAll t) := by
  obtain ⟨s, r, hbind, hframed⟩ := b.bindFrom_invariant (fun seen rest => Framed t (seen ++ rest))
    (fun {seen rest i} hi h => by
      have hrest := Interpolation.first?_eq hi
      simpa [← hrest] using h)
    (fun {seen rest i p kept cut opened new} hi hr h => by
      have hold : seen ++ rest =
          seen ++ kept ++ (cut ++ interpolationOf i.name ++ opened ++ p.rest) := by
        rw [← Interpolation.first?_eq hi, hr.before_eq, hr.after_eq]
        simp
      have hstep := Framed.insert hb hr.inserts (seen ++ kept)
        (cut ++ interpolationOf i.name ++ opened) p.rest
      rw [hold] at h
      rw [hr.head_eq, List.append_assoc _ new]
      exact h.trans hstep)
    [] t sealed_nil (Framed.refl t)
  rw [Binder.bindAll, hbind]
  exact hframed

/-! ## Statements -/

namespace StatementBody

/-- The whole of a statement. -/
def text (b : StatementBody) : Text := b.head ++ b.body ++ b.tail

/-- The statement with the values in its body bound. -/
def rebound (ignore : IgnoreList) (b : StatementBody) : StatementBody :=
  { b with body := ((b.binder ignore).fix b.body).text }

end StatementBody

/-- What a statement consists of. One that is no script is all body. -/
def bodyOf (t : Text) : StatementBody := (scriptBody? t).getD ⟨[], t, [], false⟩

theorem bodyOf_of_some {t : Text} {b : StatementBody} (h : scriptBody? t = some b) :
    bodyOf t = b := by
  rw [bodyOf, h]
  rfl

theorem bodyOf_of_none {t : Text} (h : scriptBody? t = none) : bodyOf t = ⟨[], t, [], false⟩ := by
  rw [bodyOf, h]
  rfl

theorem statementBody_eq {t : Text} (ht : Text.blank t = true → t = []) :
    statementBody t = .ok (bodyOf t) := by
  rw [statementBody, if_neg]
  · rfl
  · intro h
    simp only [Bool.and_eq_true, Bool.not_eq_true', List.isEmpty_eq_false_iff] at h
    exact h.1 (ht h.2)

theorem text_ofScript (w body v : Text) :
    (StatementBody.ofScript w body v).text =
      w ++ (scriptOpening ++ (body ++ (scriptClosing ++ v))) := by
  simp [StatementBody.text, StatementBody.ofScript]

theorem text_bodyOf (t : Text) : (bodyOf t).text = t := by
  cases h : scriptBody? t with
  | none => simp [bodyOf_of_none h, StatementBody.text]
  | some b =>
    obtain ⟨w, v, -, -, ht, hb⟩ := scriptBody?_inv h
    rw [bodyOf_of_some h, hb, text_ofScript, ← ht]

/-- A statement is a script after binding if it was one, and keeps what stands around the body. -/
theorem scriptBody?_rebound (ignore : IgnoreList) (t : Text) :
    scriptBody? ((bodyOf t).rebound ignore).text =
      (scriptBody? t).map (StatementBody.rebound ignore) := by
  cases h : scriptBody? t with
  | none =>
    have hframed := framed_bindAll (b := ⟨ignore, false, false⟩) rfl t
    have hnot : ¬ (scriptBody? t).isSome = true := by simp [h]
    rw [isSome_scriptBody?_iff] at hnot
    rw [bodyOf_of_none h, Option.map_none, ← Option.not_isSome_iff_eq_none, isSome_scriptBody?_iff]
    intro hnew
    simp only [StatementBody.text, StatementBody.rebound, List.nil_append, List.append_nil] at hnew
    exact hnot ⟨hframed.opening hnew.1, hframed.closing hnew.2⟩
  | some b =>
    obtain ⟨w, v, hw, hv, -, hb⟩ := scriptBody?_inv h
    rw [bodyOf_of_some h, hb, Option.map_some]
    exact (congrArg scriptBody? (text_ofScript w _ v)).trans (scriptBody?_of_blank hw hv _)

/-- Binding makes no statement blank. -/
theorem blank_rebound {ignore : IgnoreList} {t : Text}
    (h : Text.blank ((bodyOf t).rebound ignore).text = true) : Text.blank t = true := by
  cases hscript : scriptBody? t with
  | none =>
    rw [bodyOf_of_none hscript] at h
    simp only [StatementBody.text, StatementBody.rebound, List.nil_append, List.append_nil] at h
    exact (framed_bindAll (b := ⟨ignore, false, false⟩) rfl t).blank h
  | some b =>
    obtain ⟨w, v, -, -, -, hb⟩ := scriptBody?_inv hscript
    have hink := List.all_eq_true.1 h '<' (by
      rw [bodyOf_of_some hscript, hb]
      simp [StatementBody.text, StatementBody.rebound, StatementBody.ofScript, scriptOpening_eq])
    exact absurd hink (by decide)

theorem bodyOf_rebound (ignore : IgnoreList) (t : Text) :
    bodyOf ((bodyOf t).rebound ignore).text = (bodyOf t).rebound ignore := by
  have hscript := scriptBody?_rebound ignore t
  cases h : scriptBody? t with
  | none =>
    rw [h] at hscript
    rw [bodyOf_of_none hscript, bodyOf_of_none h]
    simp [StatementBody.text, StatementBody.rebound]
  | some b =>
    rw [h] at hscript
    rw [bodyOf_of_some hscript, bodyOf_of_some h]

/-- The statement after binding is read as it was written. -/
theorem statementBody_rebound (ignore : IgnoreList) {t : Text}
    (ht : Text.blank t = true → t = []) :
    statementBody ((bodyOf t).rebound ignore).text = .ok ((bodyOf t).rebound ignore) := by
  rw [statementBody_eq, bodyOf_rebound]
  intro hblank
  obtain rfl := ht (blank_rebound hblank)
  rw [bodyOf_of_none (by decide)]
  have hfirst : Interpolation.first? [] = none := rfl
  simp [StatementBody.text, StatementBody.rebound, Binder.fix, Binder.bindAll,
    Binder.bindFrom_of_none hfirst]

/-! ## Annotations -/

theorem lower_literalOf {s : Java.Source} {value : Java.Place} {n : Text}
    (hkind : value.kind = .stringLiteral) (htext : value.text = Java.literalOf n) :
    s.lower value = .ok (.literal (.text n) value.written) := by
  have hdecode : Java.decodeLiteral? value.text = some n := by
    rw [htext]
    exact Java.decodeLiteral?_of_literalValue? (Java.literalValue?_literalOf n)
  rw [Java.Source.lower, Java.Source.readingBound, Java.readWithin, Java.readPlace,
    if_neg (by decide), hkind]
  simp only [Java.readString, hdecode]
  rfl

theorem statementContent_literalOf {s : Java.Source} {value : Java.Place} {n : Text}
    (hkind : value.kind = .stringLiteral) (htext : value.text = Java.literalOf n) :
    statementContent s value = .ok (some ⟨n, true⟩) := by
  rw [statementContent, if_neg (by simp [hkind]), lower_literalOf hkind htext]
  rfl

section

variable {c : Settings} {s : Java.Source} {p value : Java.Place} {content : StatementContent}
  {b : StatementBody} (hvalue : statementValue? s.imports p = some value)
  (hcontent : statementContent s value = .ok (some content))
  (hbody : statementBody content.text = .ok b)
include hvalue hcontent hbody

/-- An annotation is not flagged when nothing in the body of its statement is at risk. -/
theorem inspectAnnotated_eq_none
    (hsafe : ((b.binder c.ignore).remainingRisk b.body).isRisky = false) :
    inspectAnnotated c s p = .ok none := by
  simp only [inspectAnnotated, hvalue, hcontent, hbody, hsafe, bind, Except.bind]
  rfl

/-- The fix of a flagged annotation whose statement is written in literals. -/
theorem fix_of_inspectAnnotated (hliteral : content.literalOnly = true) {d : Detection}
    (hd : inspectAnnotated c s p = .ok (some d)) :
    ∃ advice, d.fix = literalFix value b ((b.binder c.ignore).fix b.body) advice := by
  simp only [inspectAnnotated, hvalue, hcontent, hbody, hliteral, bind, Except.bind] at hd
  split at hd
  · split at hd
    · cases hd
    next advice _ =>
      obtain rfl := Option.some.inj (Except.ok.inj hd)
      exact ⟨advice, rfl⟩
  · cases hd

end

/-- **A fixed annotation is read as it was fixed, and not flagged again.** A statement from literals
that is empty or not blank has a body. The fix of its annotation binds the values of this body under
the rules for it and puts one literal in place of the value. This literal is one token, whose value
is the new statement; the new statement is a script if the old one was, around the new body; and an
annotation with this literal is not flagged if nothing at risk is left. -/
theorem fixed_annotation_clean (ignore : IgnoreList) (t : Text)
    (ht : Text.blank t = true → t = []) :
    let b := bodyOf t
    let r := (b.binder ignore).fix b.body
    let new := b.head ++ r.text ++ b.tail
    statementBody t = .ok b ∧ b.head ++ b.body ++ b.tail = t ∧
      (∀ (c : Settings) (s : Java.Source) (p value : Java.Place) (d : Detection),
        c.ignore = ignore → statementValue? s.imports p = some value →
        statementContent s value = .ok (some ⟨t, true⟩) → inspectAnnotated c s p = .ok (some d) →
        ∃ advice, d.fix = literalFix value b r advice) ∧
      Java.decodeLiteral? (Java.literalOf new) = some new ∧
      (∀ holes rest, rest.head? ≠ some '"' →
        Java.nextToken holes (Java.literalOf new ++ rest) =
          (.string, Java.literalOf new, rest, holes)) ∧
      scriptBody? new = (scriptBody? t).map ({ · with body := r.text }) ∧
      statementBody new = .ok { b with body := r.text } ∧
      (r.complete = true → ∀ (c : Settings) (s : Java.Source) (p value : Java.Place),
        c.ignore = ignore → statementValue? s.imports p = some value →
        value.kind = .stringLiteral → value.text = Java.literalOf new →
        inspectAnnotated c s p = .ok none) := by
  intro b r new
  have hbody : statementBody t = .ok b := statementBody_eq ht
  have hnew : statementBody new = .ok { b with body := r.text } := statementBody_rebound ignore ht
  refine ⟨hbody, text_bodyOf t, ?_, ?_, ?_, ?_, hnew, ?_⟩
  · rintro c s p value d rfl hvalue hcontent hd
    exact fix_of_inspectAnnotated hvalue hcontent hbody rfl hd
  · exact Java.decodeLiteral?_of_literalValue? (Java.literalValue?_literalOf new)
  · exact fun holes rest hrest => Java.nextToken_literalOf new holes hrest
  · refine (scriptBody?_rebound ignore t).trans ?_
    cases h : scriptBody? t with
    | none => rfl
    | some b' =>
      obtain rfl : b = b' := bodyOf_of_some h
      rfl
  · rintro hcomplete c s p value rfl hvalue hkind htext
    have hsafe : ((b.binder c.ignore).remainingRisk r.text).isRisky = false := by
      simpa [r, Binder.fix] using hcomplete
    exact inspectAnnotated_eq_none hvalue (statementContent_literalOf hkind htext) hnew hsafe

/-- A source with one annotation that is given a literal. -/
def annotatedSource (literal : Text) : Text :=
  "import org.apache.ibatis.annotations.Select; interface M \x7b @Select(".toList ++ literal ++
    ") T f(String b, List<String> c); \x7d".toList

/-- A script with a quoted pattern and a collection, between blanks. -/
def patternScript : Text :=
  ("\n<script>select a from t where b like \"%$\x7bb\x7d\" and c in ($\x7bc\x7d)" ++
    "</script> ").toList

theorem fixed_annotation_clean_patternScript :
    let b := bodyOf patternScript
    let r := (b.binder Settings.builtin.ignore).fix b.body
    let new := b.head ++ r.text ++ b.tail
    b.scripted = true ∧ r.text ≠ b.body ∧ r.complete = true ∧
      ∃ s p value, Java.Source.parse? (annotatedSource (Java.literalOf new)) = some s ∧
        p ∈ s.places ∧ statementValue? s.imports p = some value ∧
        value.text = Java.literalOf new ∧ inspectAnnotated .builtin s p = .ok none := by
  intro b r new
  have hcheck : (Java.Source.parse? (annotatedSource (Java.literalOf new))).any (fun s =>
      s.places.any fun p => (statementValue? s.imports p).any fun value =>
        value.kind == .stringLiteral && value.text == Java.literalOf new) = true := by
    decide +kernel
  simp only [Option.any_eq_true, List.any_eq_true, Bool.and_eq_true, beq_iff_eq] at hcheck
  obtain ⟨s, hs, p, hp, value, hvalue, hkind, htext⟩ := hcheck
  have hcomplete : r.complete = true := by decide +kernel
  obtain ⟨-, -, -, -, -, -, -, hclean⟩ :=
    fixed_annotation_clean Settings.builtin.ignore patternScript (by decide)
  exact ⟨by decide, by decide +kernel, hcomplete, s, p, value, hs, hp, hvalue, htext,
    hclean hcomplete .builtin s p value rfl hvalue hkind htext⟩

/-- A blank statement before one that is at risk. -/
def blankThenFlaggedSource : Text :=
  ("import org.apache.ibatis.annotations.Select; interface M \x7b @Select(\" \") T f(); " ++
    "@Select(\"select a from t where b = $\x7bb\x7d\") T g(String b); \x7d").toList

/-- A blank statement has no body, and no annotation of its source is flagged. -/
theorem blank_annotation_hides : ∃ s, Java.Source.parse? blankThenFlaggedSource = some s ∧
    (detectAnnotated .builtin s matches .error .blankStatement) ∧
    (∃ p ∈ s.places, inspectAnnotated .builtin s p matches .error .blankStatement) ∧
    ∃ p ∈ s.places, inspectAnnotated .builtin s p matches .ok (some _) := by
  have hcheck : (Java.Source.parse? blankThenFlaggedSource).any (fun s =>
      (detectAnnotated .builtin s matches .error .blankStatement) &&
      (s.places.any fun p => inspectAnnotated .builtin s p matches .error .blankStatement) &&
      s.places.any fun p => inspectAnnotated .builtin s p matches .ok (some _)) = true := by
    decide +kernel
  simp only [Option.any_eq_true, List.any_eq_true, Bool.and_eq_true] at hcheck
  obtain ⟨s, hs, ⟨hdetect, hblank⟩, hflagged⟩ := hcheck
  exact ⟨s, hs, hdetect, hblank, hflagged⟩

end SqlInjection
