import SqlInjection.Proofs.Template.Cut

/-!
# Templates as literals and interpolations

A template is a sequence of literal texts that hold no `${`, with an interpolation between each and
the next. `Template.render` writes it down. Reading finds the same literals and the same names
again: `first?_render_point` for the first interpolation, `interpolationsBehind_render` for all of
them.

Templates are closed under what the binder does to the text after an interpolation
(`Template.exists_drop`) and before it (`Template.prepend`).
-/

namespace SqlInjection

/-! ## Texts without a start of an interpolation -/

/-- No interpolation starts in the text. -/
def Plain (t : Text) : Prop := ¬ ['$', '{'] <:+: t

theorem Plain.mono {s t : Text} (ht : Plain t) (h : s <:+: t) : Plain s :=
  fun hs => ht (hs.trans h)

theorem plain_cons_iff {c : Char} {t : Text} :
    Plain (c :: t) ↔ ¬ ['$', '{'] <+: c :: t ∧ Plain t := by
  rw [Plain, List.infix_cons_iff, not_or, Plain]

/-- The border between two texts does not fall inside `${`. -/
def Divides (s t : Text) : Prop := s.getLast? ≠ some '$' ∨ t.head? ≠ some '{'

theorem Divides.tail {c : Char} {s t : Text} (h : Divides (c :: s) t) : Divides s t := by
  cases s with
  | nil => exact Or.inl (by simp)
  | cons d s => simpa [Divides] using h

theorem Divides.not_starts {c : Char} {s t : Text} (h : Divides (c :: s) t)
    (hc : ¬ ['$', '{'] <+: c :: s) : ¬ ['$', '{'] <+: c :: (s ++ t) := by
  intro hstart
  obtain ⟨rfl, hrest⟩ := List.cons_prefix_cons.1 hstart
  cases s with
  | nil =>
    rcases h with h | h
    · simp at h
    · cases t with
      | nil => simp at hrest
      | cons d t =>
        obtain ⟨rfl, -⟩ := List.cons_prefix_cons.1 hrest
        simp at h
  | cons d s =>
    obtain ⟨rfl, -⟩ := List.cons_prefix_cons.1 hrest
    exact hc ⟨s, rfl⟩

theorem Plain.append {s t : Text} (hs : Plain s) (ht : Plain t) (h : Divides s t) :
    Plain (s ++ t) := by
  induction s with
  | nil => exact ht
  | cons c s ih =>
    obtain ⟨hc, hs⟩ := plain_cons_iff.1 hs
    exact plain_cons_iff.2 ⟨h.not_starts hc, ih hs h.tail⟩

theorem plain_of_not_mem {t : Text} (h : '$' ∉ t) : Plain t :=
  fun hpart => h (hpart.subset (by simp))

theorem divides_of_not_mem {s : Text} (h : '$' ∉ s) (t : Text) : Divides s t :=
  Or.inl fun hlast => h (List.mem_of_getLast? hlast)

/-! ## Reading one interpolation -/

theorem readInterpolation_eq_none {t : Text} (h : ¬ ['$', '{'] <+: t) :
    readInterpolation t = none := by
  unfold readInterpolation
  split
  · exact absurd ⟨_, rfl⟩ h
  · rfl

/-- A text without a start of an interpolation is passed over. -/
theorem Interpolation.first?_plain_append {l t : Text} (hl : Plain l) (h : Divides l t) :
    first? (l ++ t) = (first? t).map fun i => { i with before := l ++ i.before } := by
  induction l with
  | nil => simp
  | cons c l ih =>
    obtain ⟨hc, hl⟩ := plain_cons_iff.1 hl
    rw [List.cons_append, first?, readInterpolation_eq_none (h.not_starts hc), ih hl h.tail,
      Option.map_map]
    rfl

theorem Interpolation.first?_append_of_not_mem {s : Text} (hs : '$' ∉ s) (t : Text) :
    first? (s ++ t) = (first? t).map fun i => { i with before := s ++ i.before } :=
  first?_plain_append (plain_of_not_mem hs) (divides_of_not_mem hs t)

theorem Interpolation.first?_eq_none_of_plain {l : Text} (hl : Plain l) : first? l = none := by
  have h := first?_plain_append (t := []) hl (Or.inr (by simp))
  simpa [first?] using h

/-- The name of an interpolation as a template may hold it. -/
structure PointName where
  text : Text
  ne_nil : text ≠ []
  ink : ∀ c ∈ text, Text.isBlank c = false
  no_brace : '}' ∉ text
  plain : Plain text

theorem readNameTail_append {name : Text} (hink : ∀ c ∈ name, Text.isBlank c = false)
    (hbrace : '}' ∉ name) (rest : Text) :
    readNameTail (name ++ '}' :: rest) = some (name, rest) := by
  induction name with
  | nil => simp [readNameTail]
  | cons c name ih =>
    have hc : c ≠ '}' := fun h => hbrace (h ▸ List.mem_cons_self)
    have hrest := ih (fun d hd => hink d (List.mem_cons_of_mem c hd))
      (fun h => hbrace (List.mem_cons_of_mem c h))
    rw [List.cons_append, readNameTail, if_neg hc, if_neg (by simp [hink c List.mem_cons_self]),
      hrest]
    rfl

theorem PointName.readInterpolation (n : PointName) (rest : Text) :
    readInterpolation (interpolationOf n.text ++ rest) = some (n.text, rest) := by
  obtain ⟨c, u, hu⟩ := List.exists_cons_of_ne_nil n.ne_nil
  have hink := n.ink
  have hbrace := n.no_brace
  rw [hu] at hink hbrace ⊢
  have htail := readNameTail_append (fun d hd => hink d (List.mem_cons_of_mem c hd))
    (fun h => hbrace (List.mem_cons_of_mem c h)) rest
  simp [interpolationOf, SqlInjection.readInterpolation, readName, hink c List.mem_cons_self, htail]

/-! ## Templates -/

/-- A literal text of a template. -/
structure Literal where
  text : Text
  plain : Plain text

/-- Literal texts with interpolations between them. -/
inductive Template where
  | last (literal : Literal)
  | point (literal : Literal) (name : PointName) (rest : Template)

namespace Template

/-- The template as it is written. -/
def render : Template → Text
  | last l => l.text
  | point l n rest => l.text ++ (interpolationOf n.text ++ rest.render)

/-- The interpolations of a template as they are written, in order. -/
def tokens : Template → List Text
  | last _ => []
  | point _ n rest => interpolationOf n.text :: rest.tokens

/-- The interpolations of a template that stands behind `seen`, each with all the text around it. -/
def points (seen : Text) : Template → List Occurrence
  | last _ => []
  | point l n rest =>
    ⟨seen ++ l.text, interpolationOf n.text, some n.text, rest.render⟩ ::
      rest.points (seen ++ l.text ++ interpolationOf n.text)

theorem map_token_points (seen : Text) (T : Template) :
    (T.points seen).map Occurrence.token = T.tokens := by
  induction T generalizing seen with
  | last l => rfl
  | point l n rest ih => simp [points, tokens, ih]

theorem first?_render_last (l : Literal) : Interpolation.first? (last l).render = none :=
  Interpolation.first?_eq_none_of_plain l.plain

theorem first?_render_point (l : Literal) (n : PointName) (rest : Template) :
    Interpolation.first? (point l n rest).render = some ⟨l.text, n.text, rest.render⟩ := by
  have hread := n.readInterpolation rest.render
  have hfirst : Interpolation.first? (interpolationOf n.text ++ rest.render) =
      some ⟨[], n.text, rest.render⟩ := by
    simp only [interpolationOf, List.cons_append] at hread ⊢
    rw [Interpolation.first?, hread]
  rw [render, Interpolation.first?_plain_append l.plain (Or.inr (by simp [interpolationOf])),
    hfirst]
  simp

end Template

/-! ## All interpolations of a text -/

/-- The interpolations of a text that stands behind `seen`, each with all the text around it. -/
def interpolationsBehind (seen t : Text) : List Occurrence :=
  occurrencesFrom interpolationPattern seen.reverse 0 t

theorem occurrences_eq_interpolationsBehind (t : Text) :
    occurrences interpolationPattern t = interpolationsBehind [] t := rfl

theorem occurrencesFrom_skip (p : Pattern) (seen : Text) (k : Nat) (t : Text) :
    occurrencesFrom p seen k t = occurrencesFrom p ((t.take k).reverse ++ seen) 0 (t.drop k) := by
  induction t generalizing seen k with
  | nil => simp [occurrencesFrom]
  | cons c t ih =>
    cases k with
    | zero => simp
    | succ k => simpa [occurrencesFrom] using ih (c :: seen) k

/-- The interpolations of a text are its first one and those behind it. -/
theorem interpolationsBehind_eq (seen t : Text) :
    interpolationsBehind seen t = match Interpolation.first? t with
      | none => []
      | some i => ⟨seen ++ i.before, interpolationOf i.name, some i.name, i.after⟩ ::
          interpolationsBehind (seen ++ i.before ++ interpolationOf i.name) i.after := by
  induction t generalizing seen with
  | nil => rfl
  | cons c t ih =>
    rw [Interpolation.first?, interpolationsBehind, occurrencesFrom, interpolationPattern]
    cases hread : readInterpolation (c :: t) with
    | none =>
      have hrest := ih (seen ++ [c])
      rw [interpolationsBehind, List.reverse_append, List.reverse_singleton,
        List.singleton_append] at hrest
      simp only [Option.map_none, hrest]
      cases Interpolation.first? t <;> simp
    | some r =>
      obtain ⟨name, after⟩ := r
      have htoken : interpolationOf name ++ after = c :: t := readInterpolation_eq hread
      have htake : c :: t.take ((interpolationOf name).length - 1) = interpolationOf name := by
        have := congrArg (List.take (interpolationOf name).length) htoken
        rw [List.take_left] at this
        rw [this]
        simp [interpolationOf]
      have hdrop : t.drop ((interpolationOf name).length - 1) = after := by
        have := congrArg (List.drop (interpolationOf name).length) htoken
        rw [List.drop_left] at this
        rw [this]
        simp [interpolationOf]
      have hseen : (t.take ((interpolationOf name).length - 1)).reverse ++ c :: seen.reverse =
          (seen ++ interpolationOf name).reverse := by
        have := congrArg List.reverse htake
        rw [List.reverse_cons] at this
        rw [List.reverse_append, ← this, List.append_assoc, List.singleton_append]
      simp only [Option.map_some, occurrencesFrom_skip _ _ _ t, hdrop, hseen, List.append_nil,
        List.reverse_reverse]
      rfl

/-- **Reading finds the interpolations that were written.** -/
theorem Template.interpolationsBehind_render (seen : Text) (T : Template) :
    interpolationsBehind seen T.render = T.points seen := by
  induction T generalizing seen with
  | last l => rw [interpolationsBehind_eq, first?_render_last, points]
  | point l n rest ih =>
    rw [interpolationsBehind_eq, first?_render_point, points]
    simp only [ih]

/-! ## What the binder does to a template -/

namespace Template

/-- The number of interpolations. -/
def size : Template → Nat
  | last _ => 0
  | point _ _ rest => rest.size + 1

/-- The literal that a template starts with. -/
def first : Template → Literal
  | last l | point l _ _ => l

/-- The template with another literal at its start. -/
def withFirst (l : Literal) : Template → Template
  | last _ => last l
  | point _ n rest => point l n rest

/-- The template behind more literal text. -/
def prepend (x : Text) (T : Template) (h : Plain (x ++ T.first.text)) : Template :=
  T.withFirst ⟨x ++ T.first.text, h⟩

@[simp] theorem render_prepend (x : Text) (T : Template) (h : Plain (x ++ T.first.text)) :
    (T.prepend x h).render = x ++ T.render := by
  cases T <;> simp [prepend, withFirst, first, render]

@[simp] theorem tokens_prepend (x : Text) (T : Template) (h : Plain (x ++ T.first.text)) :
    (T.prepend x h).tokens = T.tokens := by
  cases T <;> rfl

@[simp] theorem points_prepend (seen x : Text) (T : Template) (h : Plain (x ++ T.first.text)) :
    (T.prepend x h).points seen = T.points (seen ++ x) := by
  cases T <;> simp [prepend, withFirst, first, points]

/-- A text without `$` in front of a template comes from the literal that it starts with. -/
theorem exists_drop {T : Template} {v rest : Text} (hv : '$' ∉ v) (h : T.render = v ++ rest) :
    ∃ T' : Template, T'.render = rest ∧ T'.tokens = T.tokens ∧ T'.size = T.size := by
  cases T with
  | last l =>
    have hsuffix : rest <:+ l.text := ⟨v, h.symm⟩
    exact ⟨last ⟨rest, l.plain.mono hsuffix.isInfix⟩, rfl, rfl, rfl⟩
  | point l n T =>
    rcases List.append_eq_append_iff.1 h with ⟨u, hu, hrest⟩ | ⟨u, hu, hrest⟩
    · -- `v` would reach the `$` of the interpolation
      cases u with
      | nil =>
        refine ⟨point ⟨[], plain_of_not_mem (by simp)⟩ n T, ?_, rfl, rfl⟩
        simpa [render] using hrest
      | cons c u =>
        simp only [interpolationOf, List.cons_append, List.cons.injEq] at hrest
        refine absurd ?_ hv
        rw [hu, ← hrest.1]
        simp
    · have hsuffix : u <:+ l.text := ⟨v, hu.symm⟩
      refine ⟨point ⟨u, l.plain.mono hsuffix.isInfix⟩ n T, ?_, rfl, rfl⟩
      rw [hrest, render]

end Template

end SqlInjection
