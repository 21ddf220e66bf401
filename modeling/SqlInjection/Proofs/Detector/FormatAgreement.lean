import SqlInjection.Detector.FormatTemplate
import SqlInjection.Proofs.Template.Segments

/-!
# Two readings of a format template

A format template is judged in two ways. A concatenation that builds one asks for the texts between
its placeholders and takes each placeholder to carry text (`templateRisk`); a call that fills one in
puts the fragments of the arguments between those texts (`templateFragments`). The two go through
the template in different ways: one cuts it into segments, the other lists the placeholders and
takes what lies between them.

* `alternates_segments`: the segments are the texts between consecutive placeholders, one for each;
* `chainRisk_templateFragments`: the fragments are judged at the placeholders whose argument is
  missing or carries text, each with the text before it that the segments give.

`templateRisk_agrees` compares the verdicts: the call is flagged only if the template is, and
exactly then when every argument that is used carries text.
-/

namespace SqlInjection

/-! ## Segments and placeholders -/

/-- A pattern that reads a piece of its text, and never an empty one. -/
def Pattern.Consumes (p : Pattern) : Prop :=
  ∀ t r, p t = some r → r.token ++ r.after = t ∧ r.token ≠ []

theorem readPosition_eq {t position rest : Text} (h : readPosition t = some (position, rest)) :
    position ++ rest = t := by
  unfold readPosition at h
  split at h
  · simp only at h
    split at h
    · simp only [Option.some.injEq, Prod.mk.injEq] at h
      obtain ⟨rfl, rfl⟩ := h
      simp [List.takeWhile_append_dropWhile]
    · simp at h
  · simp at h

theorem consumes_formatPattern : formatPattern.Consumes := by
  intro t r h
  unfold formatPattern at h
  split at h
  · rename_i u
    split at h
    · rename_i position rest hposition
      obtain rfl := Option.some.inj h
      have := readPosition_eq hposition
      simp [← this]
    · split at h
      · obtain rfl := Option.some.inj h
        simp
      · simp at h
  · simp at h

/-- The rest of a placeholder whose first character has been passed. -/
theorem Pattern.Consumes.rest {p : Pattern} (hp : p.Consumes) {c : Char} {t : Text} {r : Reading}
    (h : p (c :: t) = some r) :
    c :: t.take (r.token.length - 1) = r.token ∧ t.drop (r.token.length - 1) = r.after := by
  obtain ⟨heq, hne⟩ := hp _ _ h
  obtain ⟨d, u, hu⟩ := List.exists_cons_of_ne_nil hne
  rw [hu, List.cons_append, List.cons.injEq] at heq
  obtain ⟨rfl, rfl⟩ := heq
  simp [hu]

theorem segmentsFrom_skip (p : Pattern) (piece : Text) (k : Nat) (t : Text) :
    segmentsFrom p piece k t = segmentsFrom p piece 0 (t.drop k) := by
  induction t generalizing k with
  | nil => simp [segmentsFrom]
  | cons c t ih =>
    cases k with
    | zero => rfl
    | succ k => simpa [segmentsFrom] using ih k

/-- Segments and placeholders of the text `t` in turn, from the end of `seen` on: there is one
segment for each placeholder, which stands right behind it. -/
def Alternates (t seen : Text) : List Text → List Occurrence → Prop
  | [], [] => True
  | s :: ss, o :: os =>
    o.before = seen ++ s ∧ o.before ++ o.token ++ o.after = t ∧
      Alternates t (seen ++ s ++ o.token) ss os
  | _, _ => False

theorem Alternates.length_eq {t seen : Text} {ss : List Text} {os : List Occurrence}
    (h : Alternates t seen ss os) : ss.length = os.length := by
  induction ss generalizing seen os with
  | nil =>
    cases os with
    | nil => rfl
    | cons o os => exact h.elim
  | cons s ss ih =>
    cases os with
    | nil => exact h.elim
    | cons o os => simp [ih h.2.2]

/-- Both scans stand at the same place: `piece` has been read since the last placeholder. -/
theorem alternates_segmentsFrom {p : Pattern} (hp : p.Consumes) (seen piece t : Text) :
    Alternates (seen ++ piece.reverse ++ t) seen (segmentsFrom p piece 0 t)
      (occurrencesFrom p (seen ++ piece.reverse).reverse 0 t) := by
  induction hn : t.length using Nat.strong_induction_on generalizing seen piece t with
  | _ n ih =>
    cases t with
    | nil => trivial
    | cons c t =>
      rw [segmentsFrom, occurrencesFrom]
      cases hread : p (c :: t) with
      | none =>
        have hrest := ih t.length (by simp [← hn]) seen (c :: piece) t rfl
        simpa using hrest
      | some r =>
        obtain ⟨htake, hdrop⟩ := hp.rest hread
        obtain ⟨heq, hne⟩ := hp _ _ hread
        have hshort : r.after.length < n := by
          have hlength := congrArg List.length heq
          have hpos := List.length_pos_iff.2 hne
          simp only [List.length_append, List.length_cons] at hlength hn
          omega
        have hseen : (t.take (r.token.length - 1)).reverse ++ c :: (seen ++ piece.reverse).reverse =
            (seen ++ piece.reverse ++ r.token).reverse := by
          rw [← htake]
          simp
        have hrest := ih _ hshort (seen ++ piece.reverse ++ r.token) [] r.after rfl
        simp only [List.reverse_nil, List.append_nil, List.append_assoc, heq] at hrest
        refine ⟨List.reverse_reverse _, ?_, ?_⟩
        · simp [heq]
        · simp only [segmentsFrom_skip p [] _ t, occurrencesFrom_skip p _ _ t, hdrop, hseen]
          simpa using hrest

/-- **There is one segment for each placeholder, the text since the one before it.** -/
theorem alternates_segments {p : Pattern} (hp : p.Consumes) (t : Text) :
    Alternates t [] (segments p t) (occurrences p t) :=
  alternates_segmentsFrom hp [] [] t

/-! ## Arguments and verdicts -/

/-- The argument of each placeholder, if there is one; `next` is the index of the next argument that
is taken in order. -/
def argumentsOf (args : List Expr) (next : Nat) : List Occurrence → List (Option Expr)
  | [] => []
  | o :: os =>
    match o.capture with
    | some position => (positionIndex? position).bind (args[·]?) :: argumentsOf args next os
    | none => args[next]? :: argumentsOf args (next + 1) os

/-- Whether text may come from an argument: a missing one may be anything. -/
def argumentCarriesText : Option Expr → Bool
  | some a => a.fragments.any Fragment.carriesText
  | none => true

/-- The verdict on a placeholder by its argument and the text before it. -/
def placeholderRisk (a : Option Expr) (before : Text) : Risk :=
  if argumentCarriesText a then chainPointRisk before else .safe

section

variable {args : List Expr} (hargs : ∀ a ∈ args, ∃ e, a.fragments = [.dynamic e])
include hargs

theorem placeholderFragments_eq (index : Option Nat) (token : Text) :
    ∃ e, placeholderFragments args index token = [.dynamic e] ∧
      e.carriesText = argumentCarriesText (index.bind (args[·]?)) := by
  unfold placeholderFragments
  cases h : index.bind (args[·]?) with
  | none => exact ⟨_, rfl, rfl⟩
  | some a =>
    obtain ⟨i, -, hi⟩ := Option.bind_eq_some_iff.1 h
    obtain ⟨e, he⟩ := hargs a (List.mem_of_getElem? hi)
    exact ⟨e, he, by simp [argumentCarriesText, he, Fragment.carriesText]⟩

/-- One placeholder: its segment, then its argument, which leaves a mark. -/
theorem chainRiskFrom_placeholder (acc s token : Text) (index : Option Nat) (fs : List Fragment) :
    chainRiskFrom acc (.constant s :: placeholderFragments args index token ++ fs) =
      (placeholderRisk (index.bind (args[·]?)) (acc ++ s)).or
        (chainRiskFrom (acc ++ s ++ holeMark) fs) := by
  obtain ⟨e, he, hcarries⟩ := placeholderFragments_eq hargs index token
  rw [he]
  simp only [List.cons_append, List.nil_append, chainRiskFrom, Fragment.carriesText,
    Fragment.marked, Bool.false_eq_true, if_false, Risk.or, hcarries, placeholderRisk]

/-- The fragments of a template are judged placeholder by placeholder. -/
theorem chainRiskFrom_templateFragments {t seen : Text} {ss : List Text} {os : List Occurrence}
    (h : Alternates t seen ss os) (acc tail : Text) (next : Nat) :
    chainRiskFrom acc (templateFragmentsFrom args next seen.length tail os) =
      Risk.all (List.zipWith placeholderRisk (argumentsOf args next os) (textsBefore acc ss)) := by
  induction ss generalizing seen os acc tail next with
  | nil =>
    cases os with
    | nil => rfl
    | cons o os => exact h.elim
  | cons s ss ih =>
    cases os with
    | nil => exact h.elim
    | cons o os =>
      obtain ⟨hbefore, -, hrest⟩ := h
      have hdrop : o.before.drop seen.length = s := by rw [hbefore, List.drop_left]
      have hlength : o.before.length + o.token.length = (seen ++ s ++ o.token).length := by
        simp [hbefore, Nat.add_assoc]
      rw [templateFragmentsFrom, hdrop, hlength, textsBefore]
      cases hcapture : o.capture with
      | none =>
        simp only [Option.isSome_none, Bool.false_eq_true, if_false, argumentsOf, hcapture,
          List.zipWith_cons_cons, Risk.all_cons]
        rw [chainRiskFrom_placeholder hargs, ih hrest]
        rfl
      | some position =>
        simp only [Option.isSome_some, if_true, argumentsOf, hcapture, List.zipWith_cons_cons,
          Risk.all_cons]
        rw [chainRiskFrom_placeholder hargs, ih hrest]

theorem chainRisk_templateFragments (t : Text) :
    chainRisk (templateFragments t args) =
      Risk.all (List.zipWith placeholderRisk (argumentsOf args 0 (occurrences formatPattern t))
        (textsBefore [] (segments formatPattern t))) :=
  chainRiskFrom_templateFragments hargs (alternates_segments consumes_formatPattern t) [] t 0

end

theorem mem_of_mem_argumentsOf {args : List Expr} {next : Nat} {os : List Occurrence} {a : Expr}
    (h : some a ∈ argumentsOf args next os) : a ∈ args := by
  induction os generalizing next with
  | nil => cases h
  | cons o os ih =>
    rw [argumentsOf] at h
    split at h
    · rcases List.mem_cons.1 h with h | h
      · obtain ⟨i, -, hi⟩ := Option.bind_eq_some_iff.1 h.symm
        exact List.mem_of_getElem? hi
      · exact ih h
    · rcases List.mem_cons.1 h with h | h
      · exact List.mem_of_getElem? h.symm
      · exact ih h

theorem length_argumentsOf (args : List Expr) (next : Nat) (os : List Occurrence) :
    (argumentsOf args next os).length = os.length := by
  induction os generalizing next with
  | nil => rfl
  | cons o os ih =>
    rw [argumentsOf]
    split <;> simp [ih]

theorem length_textsBefore (seen : Text) (ss : List Text) :
    (textsBefore seen ss).length = ss.length := by
  induction ss generalizing seen with
  | nil => rfl
  | cons s ss ih => simp [textsBefore, ih]

/-- A verdict on placeholders that carry text is one on all of them. -/
theorem risky_of_zipWith {as : List (Option Expr)} {texts : List Text}
    (h : Risk.all (List.zipWith placeholderRisk as texts) = .risky) :
    Risk.all (texts.map chainPointRisk) = .risky := by
  rw [Risk.all_eq_risky_iff] at h ⊢
  induction as generalizing texts with
  | nil => simp at h
  | cons a as ih =>
    cases texts with
    | nil => simp at h
    | cons s texts =>
      rw [List.zipWith_cons_cons] at h
      rcases List.mem_cons.1 h with h | h
      · refine List.mem_cons.2 (Or.inl ?_)
        unfold placeholderRisk at h
        split at h
        · exact h
        · cases h
      · exact List.mem_cons_of_mem _ (ih h)

/-- Where text may come from every argument, nothing is left out. -/
theorem zipWith_placeholderRisk {as : List (Option Expr)} {texts : List Text}
    (hlength : texts.length = as.length) (has : ∀ a ∈ as, argumentCarriesText a = true) :
    List.zipWith placeholderRisk as texts = texts.map chainPointRisk := by
  induction as generalizing texts with
  | nil => simp [List.length_eq_zero_iff.1 hlength]
  | cons a as ih =>
    cases texts with
    | nil => cases hlength
    | cons s texts =>
      have hrest := ih (Nat.succ.inj hlength) fun x hx => has x (List.mem_cons_of_mem a hx)
      rw [List.zipWith_cons_cons, hrest, placeholderRisk, if_pos (has a List.mem_cons_self),
        List.map_cons]

/-- **The two readings of a format template agree.** Let every argument be one dynamic part. If a
call that fills the template in is flagged, then so is the template by itself, and both verdicts are
the same when every placeholder's argument is missing or carries text. The template is cut into one
segment for each placeholder, the text between it and the one before. -/
theorem templateRisk_agrees (t : Text) (args : List Expr)
    (hargs : ∀ a ∈ args, ∃ e, a.fragments = [.dynamic e]) :
    (chainRisk (templateFragments t args) = .risky → templateRisk formatPattern t = .risky) ∧
      ((∀ a, some a ∈ argumentsOf args 0 (occurrences formatPattern t) →
          ∀ e, a.fragments = [.dynamic e] → e.carriesText = true) →
        chainRisk (templateFragments t args) = templateRisk formatPattern t) ∧
      (segments formatPattern t).length = (occurrences formatPattern t).length ∧
      Alternates t [] (segments formatPattern t) (occurrences formatPattern t) := by
  have halternates := alternates_segments consumes_formatPattern t
  refine ⟨fun h => ?_, fun hcarries => ?_, halternates.length_eq, halternates⟩
  · rw [chainRisk_templateFragments hargs] at h
    exact risky_of_zipWith h
  · rw [chainRisk_templateFragments hargs, zipWith_placeholderRisk, templateRisk]
    · rw [length_textsBefore, length_argumentsOf, halternates.length_eq]
    · intro a ha
      cases a with
      | none => rfl
      | some a =>
        obtain ⟨e, he⟩ := hargs a (mem_of_mem_argumentsOf ha)
        simp [argumentCarriesText, he, Fragment.carriesText, hcarries a ha e he]

/-- A template that takes its arguments in order and by position; the last one is missing. -/
def filteredTemplate : Text := "select * from %s where a = %2$s and b = '%s'%s".toList

/-- A table and a column, both of them given as text. -/
def textArguments : List Expr :=
  [.ofRef .variable "table".toList (some "String".toList) none,
    .ofRef .field "column".toList (some "String".toList) none]

theorem templateRisk_agrees_filteredTemplate :
    (occurrences formatPattern filteredTemplate).length = 4 ∧
      (∀ a ∈ textArguments, ∃ e, a.fragments = [.dynamic e]) ∧
      chainRisk (templateFragments filteredTemplate textArguments) = .risky ∧
      templateRisk formatPattern filteredTemplate = .risky ∧
      chainRisk (templateFragments filteredTemplate textArguments) =
        templateRisk formatPattern filteredTemplate := by
  have hcount : (occurrences formatPattern filteredTemplate).length = 4 := by decide +kernel
  have hargs : ∀ a ∈ textArguments, ∃ e, a.fragments = [.dynamic e] ∧ e.carriesText = true := by
    simp only [textArguments, List.forall_mem_cons, List.not_mem_nil, false_implies, implies_true,
      and_true]
    exact ⟨⟨_, rfl, rfl⟩, ⟨_, rfl, rfl⟩⟩
  have hsingle : ∀ a ∈ textArguments, ∃ e, a.fragments = [.dynamic e] := fun a ha =>
    (hargs a ha).imp fun _ => And.left
  have hrisky : chainRisk (templateFragments filteredTemplate textArguments) = .risky := by
    decide +kernel
  obtain ⟨himplies, hequal, -⟩ := templateRisk_agrees filteredTemplate textArguments hsingle
  refine ⟨hcount, hsingle, hrisky, himplies hrisky, hequal fun a ha e he => ?_⟩
  obtain ⟨e', he', hcarries⟩ := hargs a (mem_of_mem_argumentsOf ha)
  rw [he'] at he
  simp only [List.cons.injEq, Fragment.dynamic.injEq, and_true] at he
  exact he ▸ hcarries

end SqlInjection
