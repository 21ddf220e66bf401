import SqlInjection.Proofs.Template.Delimiters

/-!
# The rounds of a scan

The scan of a template, taken at byte offsets. A `Moment` is the text as it stands and the offset
from which it is still to be read. `Binder.round` takes one step: it looks for the next
interpolation, cuts the text at both ends of it, and goes on behind it or behind what a plan has put
in its place. A cut inside a character or outside the text is a fault.

* `Binder.round_advances`: what one round does. No fault occurs, and less is left to be read;
* `Binder.exists_run`: the rounds come to an end, with the text that `Binder.bindFrom` gives, and
  have met each interpolation once.

`Binder.bindAt_rounds` puts the two together for a scan from any offset.
-/

namespace SqlInjection

namespace Text

/-- The text cut where the first character starts that does not lie before byte offset `n`. -/
def cutFrom : Text → Nat → Text × Text
  | t, 0 => ([], t)
  | [], _ + 1 => ([], [])
  | c :: t, n + 1 =>
    let (l, r) := cutFrom t (n + 1 - c.utf8Size)
    (c :: l, r)

@[simp] theorem cutFrom_zero (t : Text) : cutFrom t 0 = ([], t) := by
  cases t <;> rfl

theorem cutFrom_append (t : Text) (n : Nat) : (cutFrom t n).1 ++ (cutFrom t n).2 = t := by
  fun_induction cutFrom t n with
  | case1 => rfl
  | case2 => rfl
  | case3 c t n l r h ih => simpa [h] using ih

/-- The part that is passed over reaches the offset, unless the text ends before it. -/
theorem le_byteSize_cutFrom {t : Text} {n : Nat} (h : n ≤ byteSize t) :
    n ≤ byteSize (cutFrom t n).1 := by
  fun_induction cutFrom t n with
  | case1 => exact Nat.zero_le _
  | case2 => exact h
  | case3 c t n l r hcut ih =>
    simp only [hcut, byteSize_cons] at h ih ⊢
    have := ih (by omega)
    omega

theorem cutFrom_byteSize (l r : Text) : cutFrom (l ++ r) (byteSize l) = (l, r) := by
  induction l with
  | nil => simp
  | cons c l ih =>
    obtain ⟨n, hn⟩ := Nat.exists_eq_succ_of_ne_zero
      (Nat.ne_of_gt (Nat.add_pos_left c.utf8Size_pos (byteSize l)))
    rw [List.cons_append, byteSize_cons, hn, cutFrom, ← Nat.succ_eq_add_one, ← hn,
      Nat.add_sub_cancel_left, ih]

theorem cutFrom_of_le {t : Text} {n : Nat} (h : byteSize t ≤ n) : (cutFrom t n).2 = [] := by
  fun_induction cutFrom t n with
  | case1 t => exact eq_nil_of_byteSize (Nat.le_zero.1 h)
  | case2 => rfl
  | case3 c t n l r hcut ih =>
    simp only [hcut, byteSize_cons] at h ih ⊢
    exact ih (by omega)

end Text

/-! ## One round -/

/-- The interpolation, where `seen` comes before the text it stands in. -/
def Interpolation.behind (seen : Text) (i : Interpolation) : Interpolation :=
  { i with before := seen ++ i.before }

/-- The text as it stands, and the byte offset from which it is still to be read. -/
structure Moment where
  text : Text
  offset : Nat
  deriving DecidableEq, Repr

/-- The number of bytes that are still to be read. -/
def Moment.left (m : Moment) : Nat := Text.byteSize m.text - m.offset

/-- What a round comes to. -/
inductive Round where
  /-- No interpolation is left. -/
  | finished
  /-- An interpolation of the text has been met, and the scan goes on at the moment given. -/
  | next (point : Interpolation) (m : Moment)
  /-- The text would have been cut inside a character or outside its bounds. -/
  | fault
  deriving DecidableEq, Repr

namespace Binder

variable {b : Binder}

/-- One round of the scan. -/
def round (b : Binder) (m : Moment) : Round :=
  if Text.byteSize m.text < m.offset then .finished
  else
    let (seen, rest) := Text.cutFrom m.text m.offset
    match Interpolation.first? rest with
    | none => .finished
    | some i =>
      let start := Text.byteSize (seen ++ i.before)
      let stop := start + Text.byteSize (interpolationOf i.name)
      match Text.splitAt? m.text start, Text.splitAt? m.text stop with
      | some (before, _), some (_, after) =>
        match b.plan? before i.name after with
        | none => .next ⟨before, i.name, after⟩ ⟨m.text, stop⟩
        | some p => .next ⟨before, i.name, after⟩ ⟨p.text, p.resume⟩
      | _, _ => .fault

/-- Where the scan goes on behind an interpolation. -/
def resumeAt (b : Binder) (i : Interpolation) : Text × Text :=
  match b.plan? i.before i.name i.after with
  | none => (i.before ++ interpolationOf i.name, i.after)
  | some p => (p.head, p.rest)

theorem round_of_lt {m : Moment} (h : Text.byteSize m.text < m.offset) : b.round m = .finished := by
  rw [round, if_pos h]

theorem round_of_none {m : Moment} {seen rest : Text}
    (hcut : Text.cutFrom m.text m.offset = (seen, rest)) (hi : Interpolation.first? rest = none) :
    b.round m = .finished := by
  rw [round, hcut]
  simp [hi]

/-- An interpolation that is met divides the text. -/
theorem text_of_first? {m : Moment} {seen rest : Text} {i : Interpolation}
    (hcut : Text.cutFrom m.text m.offset = (seen, rest))
    (hi : Interpolation.first? rest = some i) :
    m.text = seen ++ i.before ++ interpolationOf i.name ++ i.after := by
  have happend := Text.cutFrom_append m.text m.offset
  rw [hcut, ← Interpolation.first?_eq hi] at happend
  rw [← happend]
  simp

/-- Both cuts of a round succeed, and give the texts around the interpolation. -/
theorem round_of_first? {m : Moment} {seen rest : Text} {i : Interpolation}
    (hle : m.offset ≤ Text.byteSize m.text) (hcut : Text.cutFrom m.text m.offset = (seen, rest))
    (hi : Interpolation.first? rest = some i) :
    b.round m = .next (i.behind seen) ⟨(b.resumeAt (i.behind seen)).1 ++
      (b.resumeAt (i.behind seen)).2, Text.byteSize (b.resumeAt (i.behind seen)).1⟩ := by
  have htext := text_of_first? hcut hi
  have hstart : Text.splitAt? m.text (Text.byteSize (seen ++ i.before)) =
      some (seen ++ i.before, interpolationOf i.name ++ i.after) :=
    Text.splitAt?_eq_some_iff.2 ⟨by simp [htext], rfl⟩
  have hstop : Text.splitAt? m.text
        (Text.byteSize (seen ++ i.before) + Text.byteSize (interpolationOf i.name)) =
      some (seen ++ i.before ++ interpolationOf i.name, i.after) :=
    Text.splitAt?_eq_some_iff.2 ⟨htext.symm, Text.byteSize_append _ _⟩
  rw [round, if_neg (Nat.not_lt.2 hle), hcut]
  simp only [hi, hstart, hstop, resumeAt, Interpolation.behind]
  cases b.plan? (seen ++ i.before) i.name i.after with
  | none => simp only [← htext, ← Text.byteSize_append]
  | some p => rfl

/-- How a round gets from one moment to the next. -/
structure Advances (m : Moment) (i : Interpolation) (m' : Moment) : Prop where
  /-- The interpolation that has been met stands in the text. -/
  text_eq : m.text = i.before ++ interpolationOf i.name ++ i.after
  /-- It does not start before the offset. -/
  offset_le : m.offset ≤ Text.byteSize i.before
  /-- The new offset lies in the new text. -/
  in_text : m'.offset ≤ Text.byteSize m'.text
  /-- A character starts there, or the text ends, and all that follows has stood behind the
  interpolation. -/
  resumes : ∃ read rest, Text.splitAt? m'.text m'.offset = some (read, rest) ∧ rest <:+ i.after
  /-- Less is left to be read. -/
  left_lt : m'.left < m.left

/-- Of the text behind an interpolation at most delimiters are passed over. -/
theorem after_resumeAt (b : Binder) (i : Interpolation) :
    ∃ closed, i.after = closed ++ (b.resumeAt i).2 ∧ '$' ∉ closed := by
  unfold resumeAt
  split
  · exact ⟨[], rfl, by simp⟩
  · rename_i p hp
    obtain ⟨kept, opened, closed, new, hr⟩ := plan?_replaces hp
    exact ⟨closed, hr.after_eq, hr.surrounds.not_mem_dollar⟩

/-- A round finishes the scan, or it advances. -/
theorem round_cases (b : Binder) (m : Moment) :
    b.round m = .finished ∨ ∃ i m', b.round m = .next i m' ∧ Advances m i m' := by
  rcases Nat.lt_or_ge (Text.byteSize m.text) m.offset with hlt | hle
  · exact Or.inl (round_of_lt hlt)
  · obtain ⟨⟨seen, rest⟩, hcut⟩ : ∃ c, Text.cutFrom m.text m.offset = c := ⟨_, rfl⟩
    cases hi : Interpolation.first? rest with
    | none => exact Or.inl (round_of_none hcut hi)
    | some i =>
      refine Or.inr ⟨_, _, round_of_first? hle hcut hi, ?_⟩
      generalize hpoint : i.behind seen = point
      obtain ⟨closed, hclosed, -⟩ := b.after_resumeAt point
      have hsuffix : (b.resumeAt point).2 <:+ point.after := ⟨closed, hclosed.symm⟩
      have htext : m.text = point.before ++ interpolationOf point.name ++ point.after :=
        hpoint ▸ text_of_first? hcut hi
      have hreached : m.offset ≤ Text.byteSize point.before := by
        have hseen := Text.le_byteSize_cutFrom hle
        rw [hcut] at hseen
        rw [← hpoint, Interpolation.behind, Text.byteSize_append]
        exact Nat.le_add_right_of_le hseen
      refine ⟨htext, hreached, ?_, ⟨_, _, Text.splitAt?_eq_some_iff.2 ⟨rfl, rfl⟩, hsuffix⟩, ?_⟩
      · rw [Text.byteSize_append]
        exact Nat.le_add_right _ _
      · have hshort := congrArg Text.byteSize hclosed
        rw [Text.byteSize_append] at hshort
        have htoken : 0 < Text.byteSize (interpolationOf point.name) :=
          Nat.add_pos_left ('$').utf8Size_pos _
        simp only [Moment.left, htext, Text.byteSize_append] at hreached ⊢
        omega

theorem round_advances {m m' : Moment} {i : Interpolation} (h : b.round m = .next i m') :
    Advances m i m' := by
  rcases b.round_cases m with hfinished | ⟨j, n, hnext, hadvances⟩
  · rw [hfinished] at h
    cases h
  · rw [hnext] at h
    cases h
    exact hadvances

theorem round_ne_fault (b : Binder) (m : Moment) : b.round m ≠ .fault := by
  rcases b.round_cases m with h | ⟨i, m', h, -⟩
  · simp [h]
  · simp [h]

/-! ## All rounds -/

/-- A scan from a moment to its end: the interpolations that it meets and the text it ends with. -/
inductive Run (b : Binder) : Moment → List Interpolation → Text → Prop
  | finished {m : Moment} (h : b.round m = .finished) : Run b m [] m.text
  | next {m m' : Moment} {i : Interpolation} {points : List Interpolation} {t : Text}
      (h : b.round m = .next i m') (hrun : Run b m' points t) : Run b m (i :: points) t

theorem Run.unique {m : Moment} {ps qs : List Interpolation} {s t : Text} (h : Run b m ps s)
    (h' : Run b m qs t) : ps = qs ∧ s = t := by
  induction h generalizing qs t with
  | finished hround =>
    cases h' with
    | finished => exact ⟨rfl, rfl⟩
    | next hround' => rw [hround] at hround'; cases hround'
  | next hround hrun ih =>
    cases h' with
    | finished hround' => rw [hround] at hround'; cases hround'
    | next hround' hrun' =>
      rw [hround] at hround'
      cases hround'
      obtain ⟨rfl, rfl⟩ := ih hrun'
      exact ⟨rfl, rfl⟩

theorem bindFrom_of_first? {seen rest : Text} {i : Interpolation}
    (hi : Interpolation.first? rest = some i) :
    b.bindFrom seen rest =
      b.bindFrom (b.resumeAt (i.behind seen)).1 (b.resumeAt (i.behind seen)).2 := by
  cases hp : b.plan? (seen ++ i.before) i.name i.after with
  | none => simp only [bindFrom_of_skip hi hp, resumeAt, Interpolation.behind, hp]
  | some p => simp only [bindFrom_of_plan hi hp, resumeAt, Interpolation.behind, hp]

/-- The rounds from a moment on come to an end. They give the text that the scan gives, and meet the
interpolations of what was still to be read. -/
theorem exists_run (b : Binder) {m : Moment} {seen rest : Text}
    (hcut : Text.cutFrom m.text m.offset = (seen, rest)) :
    ∃ points, Run b m points (b.bindFrom seen rest) ∧
      points.map (fun i => (i.name, i.after)) = interpolationPoints rest := by
  induction hn : rest.length using Nat.strong_induction_on generalizing m seen rest with
  | _ n ih =>
    cases hi : Interpolation.first? rest with
    | none =>
      refine ⟨[], ?_, (interpolationPoints_of_none hi).symm⟩
      have htext := Text.cutFrom_append m.text m.offset
      rw [hcut] at htext
      rw [bindFrom_of_none hi, htext]
      exact Run.finished (round_of_none hcut hi)
    | some i =>
      have hle : m.offset ≤ Text.byteSize m.text := by
        by_contra hlt
        have hrest : rest = [] := by
          simpa [hcut] using Text.cutFrom_of_le (Nat.le_of_not_le hlt)
        subst hrest
        cases hi
      have hround := round_of_first? (b := b) hle hcut hi
      rw [bindFrom_of_first? hi, interpolationPoints_of_first? hi]
      obtain ⟨closed, hclosed, hdollar⟩ := b.after_resumeAt (i.behind seen)
      generalize b.resumeAt (i.behind seen) = r at hround hclosed ⊢
      have hlength := Interpolation.length_after_lt hi
      have hclosed : i.after = closed ++ r.2 := hclosed
      rw [hclosed, List.length_append] at hlength
      let m' : Moment := ⟨r.1 ++ r.2, Text.byteSize r.1⟩
      have hcut' : Text.cutFrom m'.text m'.offset = (r.1, r.2) := Text.cutFrom_byteSize r.1 r.2
      obtain ⟨points, hrun, hpoints⟩ := ih r.2.length (by omega) hcut' rfl
      refine ⟨_, Run.next hround hrun, ?_⟩
      rw [List.map_cons, hpoints, hclosed, interpolationPoints_append hdollar, ← hclosed]
      rfl

theorem bindAt_eq (b : Binder) (t : Text) (n : Nat) :
    b.bindAt t n = b.bindFrom (Text.cutFrom t n).1 (Text.cutFrom t n).2 := by
  suffices h : ∀ seen, bindAt.go b seen t n =
      b.bindFrom (seen ++ (Text.cutFrom t n).1) (Text.cutFrom t n).2 from h []
  fun_induction Text.cutFrom t n with
  | case1 t => intro seen; cases t <;> simp [bindAt.go]
  | case2 n =>
    intro seen
    have hnone : Interpolation.first? [] = none := rfl
    simp [bindAt.go, bindFrom_of_none hnone]
  | case3 c t n l r hcut ih =>
    intro seen
    rw [hcut] at ih
    rw [bindAt.go, ih]
    simp

/-- **A scan ends, and meets every interpolation once.** No round cuts the text inside a character
or outside its bounds. A round that meets an interpolation goes on at a character of the text behind
it, so what was put in is not read again, and less is left to be read. From any offset the rounds
come to one end, with the text that the scan gives, and the interpolations they meet are those of
the text behind the offset, in order. -/
theorem bindAt_rounds (b : Binder) (t : Text) (n : Nat) :
    (∀ m, b.round m ≠ .fault) ∧
      (∀ m i m', b.round m = .next i m' → Advances m i m') ∧
      ∃ points, (∀ ps s, Run b ⟨t, n⟩ ps s ↔ ps = points ∧ s = b.bindAt t n) ∧
        points.map (fun i => (i.name, i.after)) = interpolationPoints (Text.cutFrom t n).2 := by
  have hcut : Text.cutFrom t n = ((Text.cutFrom t n).1, (Text.cutFrom t n).2) := rfl
  obtain ⟨points, hrun, hpoints⟩ := b.exists_run (m := ⟨t, n⟩) hcut
  rw [← bindAt_eq] at hrun
  refine ⟨b.round_ne_fault, fun _ _ _ => round_advances, points, fun ps s => ?_, hpoints⟩
  constructor
  · exact fun h => h.unique hrun
  · rintro ⟨rfl, rfl⟩
    exact hrun

end Binder

end SqlInjection
