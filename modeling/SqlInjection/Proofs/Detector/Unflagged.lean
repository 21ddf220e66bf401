import SqlInjection.Detector.AnnotatedMethod
import SqlInjection.Proofs.Detector.MapperFixes
import SqlInjection.Proofs.Template.Rounds

/-!
# Texts that are not flagged stay as they are

Two procedures go through the interpolations of a text. The verdict on the text lists them once and
judges each; binding takes round after round, and looks for the next one in a text that may have
changed. They agree: where nothing has to be bound, the rounds meet exactly the interpolations that
were judged, with the same texts around them (`Binder.run_of_settled`).

So a text without risk, and a text that an inspection does not flag (`Unflagged`), is left as it is;
and since a complete outcome carries no risk, it is its own outcome. `Binder.fix_of_safe` says so.
-/

namespace SqlInjection

/-- The interpolation that stands in a text. -/
def Occurrence.point (o : Occurrence) : Interpolation := ⟨o.before, o.name, o.after⟩

namespace Binder

variable {b : Binder} {t : Text}

/-- Where every interpolation is left, the rounds meet those that a reading lists, and end with the
text as it was. -/
theorem run_of_settled {seen rest : Text}
    (h : ∀ o ∈ interpolationsBehind seen rest, b.plan? o.before o.name o.after = none) :
    Run b ⟨seen ++ rest, Text.byteSize seen⟩
      ((interpolationsBehind seen rest).map Occurrence.point) (seen ++ rest) := by
  -- on the text that is still to be read: each round passes over one interpolation of it
  induction hn : rest.length using Nat.strong_induction_on generalizing seen rest with
  | _ n ih =>
    let m : Moment := ⟨seen ++ rest, Text.byteSize seen⟩
    have hcut : Text.cutFrom m.text m.offset = (seen, rest) := Text.cutFrom_byteSize seen rest
    have hle : m.offset ≤ Text.byteSize m.text := by
      rw [Text.byteSize_append]
      exact Nat.le_add_right _ _
    rw [interpolationsBehind_eq] at h ⊢
    cases hi : Interpolation.first? rest with
    | none => exact Run.finished (round_of_none hcut hi)
    | some i =>
      simp only [hi, List.forall_mem_cons] at h
      obtain ⟨hplan, hrest⟩ := h
      have hresume : b.resumeAt (i.behind seen) =
          (seen ++ i.before ++ interpolationOf i.name, i.after) := by
        rw [resumeAt, show b.plan? (i.behind seen).before (i.behind seen).name
          (i.behind seen).after = none from hplan]
        rfl
      have hround := round_of_first? (b := b) hle hcut hi
      rw [hresume, ← text_of_first? hcut hi] at hround
      have hnext := ih i.after.length (hn ▸ Interpolation.length_after_lt hi) hrest rfl
      rw [← text_of_first? hcut hi] at hnext
      exact Run.next hround hnext

theorem settled_of_safe (h : b.remainingRisk t = .safe) :
    ∀ o ∈ occurrences interpolationPattern t, b.plan? o.before o.name o.after = none := by
  intro o ho
  refine plan?_eq_none_iff.2 ?_
  by_cases hname : b.ignore.covers o.name = true
  · exact Or.inl hname
  · refine Or.inr (Or.inl ?_)
    cases hrisk : b.pointRisk o.before o.after with
    | safe => rfl
    | risky =>
      have hrisky := remainingRisk_eq_risky_iff.2 ⟨o, ho, Bool.eq_false_iff.2 hname, hrisk⟩
      rw [h] at hrisky
      cases hrisky

theorem run_of_safe (h : b.remainingRisk t = .safe) :
    Run b ⟨t, 0⟩ ((occurrences interpolationPattern t).map Occurrence.point) t := by
  have hsettled : ∀ o ∈ interpolationsBehind [] t, b.plan? o.before o.name o.after = none :=
    settled_of_safe h
  exact run_of_settled hsettled

theorem bindAt_of_safe (h : b.remainingRisk t = .safe) : b.bindAt t 0 = t := by
  obtain ⟨points, hrun, -⟩ := b.exists_run (m := ⟨t, 0⟩) (Text.cutFrom_zero t)
  rw [bindAt_eq, Text.cutFrom_zero]
  exact (hrun.unique (run_of_safe h)).2

theorem fix_eq_of_safe (h : b.remainingRisk t = .safe) : b.fix t = ⟨t, true⟩ := by
  have hall : b.bindAll t = t := by
    have hbound := bindAt_of_safe h
    rwa [bindAt_eq, Text.cutFrom_zero] at hbound
  rw [fix, hall, h]
  rfl

end Binder

/-! ## What the inspections read -/

/-- A text that an inspection has read, to bind it by `b` if need be, and has not flagged: of a node
of a mapper, or the body of a statement in an annotation. -/
inductive Unflagged : (b : Binder) → (t : Text) → Prop
  | node {c : Settings} {d : Mapper.Document} {n : Mapper.TextNode}
      (h : inspectNode c d n = none) : Unflagged (n.binder c.ignore) n.text
  | annotated {c : Settings} {s : Java.Source} {p value : Java.Place} {content : StatementContent}
      {body : StatementBody} (hvalue : statementValue? s.imports p = some value)
      (hcontent : statementContent s value = .ok (some content))
      (hbody : statementBody content.text = .ok body) (h : inspectAnnotated c s p = .ok none) :
      Unflagged (body.binder c.ignore) body.body

theorem Unflagged.remainingRisk {b : Binder} {t : Text} (h : Unflagged b t) :
    b.remainingRisk t = .safe := by
  cases h with
  | node h => exact inspectNode_eq_none_iff.1 h
  | @annotated c s p value content body hvalue hcontent hbody h =>
    simp only [inspectAnnotated, hvalue, hcontent, hbody, bind, Except.bind] at h
    cases hrisk : (body.binder c.ignore).remainingRisk body.body with
    | safe => rfl
    | risky =>
      -- a risk ends in a detection, or in no answer at all
      simp only [hrisk, Risk.isRisky, if_true] at h
      split at h <;> cases h

/-- **A text without risk is left as it is.** The rounds of the scan meet the interpolations that
the verdict has judged, with the same texts around them, and pass over each. This holds of every
text that an inspection has not flagged. And an outcome that is complete is its own outcome. -/
theorem Binder.fix_of_safe (b : Binder) (t : Text) :
    (b.remainingRisk t = .safe →
      Run b ⟨t, 0⟩ ((occurrences interpolationPattern t).map Occurrence.point) t ∧
        b.bindAt t 0 = t ∧ b.fix t = ⟨t, true⟩) ∧
      (Unflagged b t → b.bindAt t 0 = t ∧ b.fix t = ⟨t, true⟩) ∧
      ((b.fix t).complete = true → b.fix (b.fix t).text = b.fix t) := by
  refine ⟨fun h => ⟨run_of_safe h, bindAt_of_safe h, fix_eq_of_safe h⟩,
    fun h => ⟨bindAt_of_safe h.remainingRisk, fix_eq_of_safe h.remainingRisk⟩, fun h => ?_⟩
  rw [fix_eq_of_safe (remainingRisk_of_complete h), ← h]

/-- A mapper with interpolations where names stand: one that another seems to start in, and one that
is not closed before a blank. -/
def nestedNamesMapper : Text :=
  ("<!DOCTYPE mapper SYSTEM \"mybatis.org/mapper.dtd\"><mapper>" ++
    "<select>select $\x7ba$\x7bb\x7d from $\x7b t order by $\x7bc\x7d</select></mapper>").toList

theorem Binder.fix_of_safe_nestedNames :
    (∃ d ∈ Mapper.Document.parse? nestedNamesMapper, ∃ n ∈ d.nodes,
      (occurrences interpolationPattern n.text).map Occurrence.name =
        ["a$\x7bb".toList, "c".toList] ∧
      (n.binder Settings.builtin.ignore).remainingRisk n.text = .safe ∧
      (n.binder Settings.builtin.ignore).bindAt n.text 0 = n.text ∧
      (n.binder Settings.builtin.ignore).fix n.text = ⟨n.text, true⟩) ∧
      let new := dynamic.fix "where id = '$\x7bid\x7d'".toList
      new.complete = true ∧ dynamic.fix new.text = new := by
  constructor
  · have heval : ∃ d ∈ Mapper.Document.parse? nestedNamesMapper, ∃ n ∈ d.nodes,
        (occurrences interpolationPattern n.text).map Occurrence.name =
          ["a$\x7bb".toList, "c".toList] ∧ (inspectNode .builtin d n).isNone = true := by
      decide +kernel
    obtain ⟨d, hd, n, hn, hnames, hflag⟩ := heval
    have hunflagged := Unflagged.node (Option.isNone_iff_eq_none.1 hflag)
    obtain ⟨-, hkept, -⟩ := fix_of_safe (n.binder Settings.builtin.ignore) n.text
    exact ⟨d, hd, n, hn, hnames, hunflagged.remainingRisk, hkept hunflagged⟩
  · have hcomplete : (dynamic.fix "where id = '$\x7bid\x7d'".toList).complete = true := by
      decide +kernel
    exact ⟨hcomplete, (fix_of_safe dynamic _).2.2 hcomplete⟩

end SqlInjection
