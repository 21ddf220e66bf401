import SqlInjection.Proofs.Mapper.Reading

/-!
# Pieces and what they are written as

The pieces of a text are found by reading markup wherever it can be read. This module turns that
around: `Regular` says when pieces are found again in the text that they are written as
(`Regular.pieces_flatMap`), and `regular_pieces` that the pieces of a text are of that kind when all
runs of text are `Quiet` and no comment or section is left open.
-/

namespace SqlInjection.Mapper

/-- A character goes to the run that pieces start with, or is a run by itself. -/
theorem prepend_cases (c : Char) (ps : List Piece) :
    (∃ u qs, ps = .run u :: qs ∧ prepend c ps = .run (c :: u) :: qs) ∨
      (∀ u, ps.head? ≠ some (.run u)) ∧ prepend c ps = .run [c] :: ps := by
  unfold prepend
  split
  · exact Or.inl ⟨_, _, rfl, rfl⟩
  · rename_i hno
    refine Or.inr ⟨fun u hu => ?_, rfl⟩
    cases ps with
    | nil => cases hu
    | cons p ps => exact hno u ps (by rw [Option.some.inj hu])

theorem piecesFrom_eq_drop (k : Nat) (t : Text) : piecesFrom k t = pieces (t.drop k) := by
  induction t generalizing k with
  | nil => cases k <;> rfl
  | cons c t ih =>
    cases k with
    | zero => rfl
    | succ k => rw [piecesFrom, ih k, List.drop_succ_cons]

theorem pieces_cons_of_none {c : Char} {t : Text} (h : readMarkup? (c :: t) = none) :
    pieces (c :: t) = prepend c (pieces t) := by
  rw [pieces, piecesFrom, h]
  rfl

theorem pieces_of_readMarkup? {m : Markup} {w rest : Text} (hne : w ≠ [])
    (h : readMarkup? (w ++ rest) = some (m, rest)) :
    pieces (w ++ rest) = .markup m w :: pieces rest := by
  obtain ⟨c, w, rfl⟩ := List.exists_cons_of_ne_nil hne
  rw [List.cons_append] at h ⊢
  have htaken : (w ++ rest).length - rest.length = w.length := by
    rw [List.length_append, Nat.add_sub_cancel]
  rw [pieces, piecesFrom, h]
  simp only [htaken, List.take_left, piecesFrom_eq_drop, List.drop_left]

/-- The first piece of a text that is not empty: markup, or the start of a run. -/
theorem pieces_cases {t : Text} (ht : t ≠ []) :
    (∃ c r, t = c :: r ∧ pieces t = prepend c (pieces r)) ∨
      ∃ m w rest, w ≠ [] ∧ t = w ++ rest ∧ pieces t = .markup m w :: pieces rest ∧
        (Written m w ∨ m = .declaration ∧ LeftOpen w) := by
  obtain ⟨c, r, rfl⟩ := List.exists_cons_of_ne_nil ht
  cases h : readMarkup? (c :: r) with
  | none => exact Or.inl ⟨c, r, rfl, pieces_cons_of_none h⟩
  | some p =>
    obtain ⟨m, rest⟩ := p
    obtain ⟨w, hw, hwritten⟩ := written_of_readMarkup? h
    have hne : w ≠ [] := by
      rintro rfl
      rcases hwritten with hwritten | ⟨-, hstart | hstart⟩
      · obtain ⟨c, r, hr, -⟩ := hwritten.head
        cases hr
      · simp at hstart
      · simp at hstart
    rw [hw] at h ⊢
    exact Or.inr ⟨m, w, rest, hne, rfl, pieces_of_readMarkup? hne h, hwritten⟩

/-- A property of every list of pieces that starts with markup or with a run one character longer
holds of the pieces of every text. -/
theorem pieces_induction {P : List Piece → Prop} (nil : P [])
    (run : ∀ c ps, P ps → P (prepend c ps))
    (markup : ∀ m w ps, (Written m w ∨ m = .declaration ∧ LeftOpen w) → P ps →
      P (.markup m w :: ps)) (t : Text) : P (pieces t) := by
  induction hn : t.length using Nat.strong_induction_on generalizing t with
  | _ n ih =>
    subst hn
    by_cases ht : t = []
    · rw [ht]
      exact nil
    rcases pieces_cases ht with ⟨c, r, rfl, hp⟩ | ⟨m, w, rest, hne, rfl, hp, hwritten⟩
    · rw [hp]
      exact run c _ (ih _ (by simp) r rfl)
    · rw [hp]
      have hlength := List.length_pos_iff.2 hne
      exact markup m w _ hwritten (ih _ (by rw [List.length_append]; omega) rest rfl)

/-- A section among the pieces of a text, as it is written. -/
theorem section_of_mem_pieces {t x w : Text} (h : .markup (.section x) w ∈ pieces t) :
    w = "<![CDATA[".toList ++ (x ++ "]]>".toList) := by
  revert h
  refine pieces_induction (P := fun ps => .markup (.section x) w ∈ ps → _) ?_ ?_ ?_ t
  · intro h
    cases h
  · intro c ps ih h
    refine ih ?_
    rcases prepend_cases c ps with ⟨u, qs, rfl, hp⟩ | ⟨-, hp⟩
    · rw [hp] at h
      rcases List.mem_cons.1 h with h | h
      · cases h
      · exact List.mem_cons_of_mem _ h
    · rw [hp] at h
      rcases List.mem_cons.1 h with h | h
      · cases h
      · exact h
  · intro m v ps hwritten ih h
    rcases List.mem_cons.1 h with h | h
    · cases h
      rcases hwritten with hwritten | ⟨h, -⟩
      · cases hwritten with
        | «section» => rfl
        | tag htag => cases htag
      · cases h
    · exact ih h

/-! ## Pieces that are found again -/

/-- Pieces that are found again in the text that they are written as. -/
inductive Regular : List Piece → Prop
  | nil : Regular []
  | markup {m : Markup} {w : Text} {ps : List Piece} (hw : Written m w) (h : Regular ps) :
      Regular (.markup m w :: ps)
  | run {t : Text} {ps : List Piece} (hne : t ≠ []) (ht : Quiet t)
      (hnext : ∀ u, ps.head? ≠ some (.run u)) (h : Regular ps) : Regular (.run t :: ps)

theorem pieces_run_append {t rest : Text} (hne : t ≠ []) (ht : Quiet t)
    (hnext : ∀ u, (pieces rest).head? ≠ some (.run u)) :
    pieces (t ++ rest) = .run t :: pieces rest := by
  induction t with
  | nil => exact absurd rfl hne
  | cons c t ih =>
    have hc : c = '<' → StartsQuiet (t ++ rest) := by
      intro heq
      cases t with
      | nil => exact absurd (ht.1 heq) (by simp)
      | cons d t => exact ht.1 heq
    rw [List.cons_append, pieces_cons_of_none (readMarkup?_eq_none hc)]
    by_cases hnil : t = []
    · subst hnil
      rcases prepend_cases c (pieces rest) with ⟨u, qs, hu, -⟩ | ⟨-, hp⟩
      · exact absurd (by rw [hu]; rfl) (hnext u)
      · exact hp
    · rw [ih hnil ht.2]
      rfl

namespace Regular

variable {ps qs : List Piece}

/-- **Regular pieces are the pieces of what they are written as.** -/
theorem pieces_flatMap (h : Regular ps) : pieces (ps.flatMap Piece.text) = ps := by
  induction h with
  | nil => rfl
  | @markup m w ps hw h ih =>
    have hne : w ≠ [] := by
      obtain ⟨c, r, rfl, -⟩ := hw.head
      simp
    rw [List.flatMap_cons, Piece.text, pieces_of_readMarkup? hne (hw.readMarkup? _), ih]
  | @run t ps hne ht hnext h ih =>
    rw [List.flatMap_cons, Piece.text, pieces_run_append hne ht (by rwa [ih]), ih]

/-- The text of a section does not hold the end of one. -/
theorem not_ends_of_mem {x w : Text} (h : Regular ps)
    (hx : .markup (.section x) w ∈ ps) : ¬ "]]>".toList <:+: x := by
  induction h with
  | nil => cases hx
  | markup hw h ih =>
    rcases List.mem_cons.1 hx with hx | hx
    · cases hx
      cases hw with
      | «section» hends => exact hends
      | tag htag => cases htag
    · exact ih hx
  | run hne ht hnext h ih =>
    rcases List.mem_cons.1 hx with hx | hx
    · cases hx
    · exact ih hx

/-- Regular pieces side by side are regular where no two runs meet. -/
theorem append (hp : Regular ps) (hq : Regular qs)
    (hmeet : (∀ u, ps.getLast? ≠ some (.run u)) ∨ ∀ u, qs.head? ≠ some (.run u)) :
    Regular (ps ++ qs) := by
  induction hp with
  | nil => exact hq
  | @markup m w ps hw h ih =>
    refine Regular.markup hw (ih ?_)
    cases ps with
    | nil => exact Or.inl (by simp)
    | cons p ps => simpa using hmeet
  | @run t ps hne ht hnext h ih =>
    cases ps with
    | nil =>
      refine Regular.run hne ht ?_ hq
      rcases hmeet with hmeet | hmeet
      · exact absurd rfl (hmeet t)
      · exact hmeet
    | cons p ps => exact Regular.run hne ht hnext (ih (by simpa using hmeet))

end Regular

/-- The pieces of a text are regular when its runs start no markup and no comment or section is left
open. -/
theorem regular_pieces {t : Text} (hruns : ∀ u, .run u ∈ pieces t → Quiet u)
    (hclosed : ∀ w, .markup .declaration w ∈ pieces t → ¬ LeftOpen w) : Regular (pieces t) := by
  revert hruns hclosed
  refine pieces_induction (P := fun ps => (∀ u, .run u ∈ ps → Quiet u) →
    (∀ w, .markup .declaration w ∈ ps → ¬ LeftOpen w) → Regular ps) ?_ ?_ ?_ t
  · exact fun _ _ => Regular.nil
  · intro c ps ih hruns hclosed
    rcases prepend_cases c ps with ⟨u, qs, rfl, hp⟩ | ⟨hnext, hp⟩
    · rw [hp] at hruns hclosed ⊢
      have hcu : Quiet (c :: u) := hruns _ List.mem_cons_self
      have hps : Regular (.run u :: qs) := by
        refine ih (fun v hv => ?_) fun w hw => hclosed w ?_
        · rcases List.mem_cons.1 hv with hv | hv
          · cases hv
            exact hcu.2
          · exact hruns v (List.mem_cons_of_mem _ hv)
        · rcases List.mem_cons.1 hw with hw | hw
          · cases hw
          · exact List.mem_cons_of_mem _ hw
      cases hps with
      | run hne hu hnext h => exact Regular.run (by simp) hcu hnext h
    · rw [hp] at hruns hclosed ⊢
      have hps : Regular ps := ih (fun v hv => hruns v (List.mem_cons_of_mem _ hv))
        fun w hw => hclosed w (List.mem_cons_of_mem _ hw)
      exact Regular.run (by simp) (hruns _ List.mem_cons_self) hnext hps
  · intro m w ps hwritten ih hruns hclosed
    have hps : Regular ps := ih (fun v hv => hruns v (List.mem_cons_of_mem _ hv))
      fun w hw => hclosed w (List.mem_cons_of_mem _ hw)
    rcases hwritten with hwritten | ⟨rfl, hopen⟩
    · exact Regular.markup hwritten hps
    · exact absurd hopen (hclosed w List.mem_cons_self)

end SqlInjection.Mapper
