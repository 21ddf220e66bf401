import Mathlib.Data.List.Forall2
import SqlInjection.Proofs.Text.SmallLetters
import SqlInjection.Text.Blank

/-!
# Words in any letter case

A word is given in small letters and read in any letter case. `IsWord` says what is read for it, and
`stripWord?_eq_some_iff` that reading takes exactly this off the front of a text. No blank is part
of a word, and a text starts with at most one of several words that begin with different letters
(`stripAnyWord?_eq_some_iff`).
-/

namespace SqlInjection.Text

/-! ## Letters -/

theorem toLower_of_isBlank {c : Char} (h : isBlank c = true) : c.toLower = c := by
  unfold Char.toLower
  rw [dif_neg]
  rintro ⟨hlo, hhi⟩
  simp only [isBlank, Bool.or_eq_true, Bool.and_eq_true, decide_eq_true_eq, beq_iff_eq] at h
  have h1 : 65 ≤ c.toNat := hlo
  have h2 : c.toNat ≤ 90 := hhi
  omega

/-- No blank is a letter of a keyword. -/
theorem sameLetter_of_isBlank {l c : Char} (hl : isBlank l = false) (hc : isBlank c = true) :
    sameLetter l c = false := by
  have hne : c ≠ l := fun h => by simp [h, hl] at hc
  have hs : c ≠ longS := fun h => by rw [h] at hc; exact absurd hc (by decide)
  have hk : c ≠ kelvinSign := fun h => by rw [h] at hc; exact absurd hc (by decide)
  simp [sameLetter, toLower_of_isBlank hc, hne, hs, hk]

theorem toLower_of_sameLetter {l c : Char} (hl : l.toLower = l) (hs : l ≠ 's') (hk : l ≠ 'k')
    (h : sameLetter l c = true) : c.toLower = l := by
  simp only [sameLetter, Bool.or_eq_true, Bool.and_eq_true, beq_iff_eq, hs, hk, false_and,
    or_false] at h
  rcases h with rfl | h
  · exact hl
  · exact h

/-- The small letter that a character is read as. -/
def smallLetter (c : Char) : Char :=
  if c = longS then 's' else if c = kelvinSign then 'k' else c.toLower

theorem eq_smallLetter_of_sameLetter {l c : Char} (hl : l.isLower = true)
    (h : sameLetter l c = true) : l = smallLetter c := by
  -- the two characters outside ASCII stay as they are, and are no small letters
  have hplain : c.toLower = l → l = smallLetter c := by
    rintro rfl
    have hs : c ≠ longS := by rintro rfl; exact absurd hl (by decide)
    have hk : c ≠ kelvinSign := by rintro rfl; exact absurd hl (by decide)
    rw [smallLetter, if_neg hs, if_neg hk]
  simp only [sameLetter, Bool.or_eq_true, Bool.and_eq_true, beq_iff_eq] at h
  rcases h with ((rfl | hlower) | ⟨rfl, rfl⟩) | ⟨rfl, rfl⟩
  · have hle : 97 ≤ c.toNat := by
      change (decide ('a'.val ≤ c.val) && decide (c.val ≤ 'z'.val)) = true at hl
      simp only [Bool.and_eq_true, decide_eq_true_eq] at hl
      exact hl.1
    exact hplain (toLower_of_lt (by omega))
  · exact hplain hlower
  · rfl
  · rfl

/-! ## Words -/

/-- A word, given in small letters, written in any letter case. -/
def IsWord (w l : Text) : Prop := List.Forall₂ (fun x c => sameLetter x c = true) w l

theorem stripWord?_eq_some_iff {w t r : Text} :
    stripWord? w t = some r ↔ ∃ l, t = l ++ r ∧ IsWord w l := by
  induction w generalizing t with
  | nil =>
    simp only [stripWord?, Option.some.injEq, IsWord, List.forall₂_nil_left_iff]
    exact ⟨fun h => ⟨[], h, rfl⟩, by rintro ⟨l, rfl, rfl⟩; rfl⟩
  | cons x w ih =>
    constructor
    · intro h
      cases t with
      | nil => simp [stripWord?] at h
      | cons c t =>
        simp only [stripWord?] at h
        split at h
        · rename_i hx
          obtain ⟨l, rfl, hl⟩ := ih.1 h
          exact ⟨c :: l, rfl, List.Forall₂.cons hx hl⟩
        · simp at h
    · rintro ⟨l, rfl, hl⟩
      cases hl with
      | cons hx hl =>
        rw [List.cons_append, stripWord?, if_pos hx]
        exact ih.2 ⟨_, rfl, hl⟩

theorem IsWord.reverse {w l : Text} (h : IsWord w l) : IsWord w.reverse l.reverse :=
  List.forall₂_reverse_iff.2 h

theorem IsWord.head {x : Char} {w l : Text} (h : IsWord (x :: w) l) (t : Text) :
    ∀ c ∈ (l ++ t).head?, sameLetter x c = true := by
  cases h with
  | cons hx _ => simpa using hx

theorem IsWord.ink {w l : Text} (h : IsWord w l) (hw : ∀ x ∈ w, isBlank x = false) :
    ∀ c ∈ l, isBlank c = false := by
  induction h with
  | nil => simp
  | cons hx _ ih =>
    simp only [List.forall_mem_cons] at hw ⊢
    refine ⟨?_, ih hw.2⟩
    by_contra hc
    rw [sameLetter_of_isBlank hw.1 (by simpa using hc)] at hx
    exact absurd hx (by decide)

/-- Of words that begin with different letters, a text starts with at most one. -/
theorem stripAnyWord?_eq_some_iff {ws : List Text} {t r : Text}
    (hsmall : ∀ w ∈ ws, w.head?.any Char.isLower = true)
    (hdistinct : ∀ w ∈ ws, ∀ v ∈ ws, w.head? = v.head? → w = v) :
    stripAnyWord? ws t = some r ↔ ∃ w ∈ ws, ∃ l, t = l ++ r ∧ IsWord w l := by
  constructor
  · intro h
    obtain ⟨w, hw, hr⟩ := List.exists_of_findSome?_eq_some h
    exact ⟨w, hw, stripWord?_eq_some_iff.1 hr⟩
  · rintro ⟨w, hw, l, rfl, hl⟩
    have hsome : (stripAnyWord? ws (l ++ r)).isSome = true := by
      rw [stripAnyWord?, List.findSome?_isSome_iff]
      exact ⟨w, hw, by rw [stripWord?_eq_some_iff.2 ⟨l, rfl, hl⟩]; rfl⟩
    obtain ⟨r', hr'⟩ := Option.isSome_iff_exists.1 hsome
    obtain ⟨v, hv, hread⟩ := List.exists_of_findSome?_eq_some hr'
    obtain ⟨l', heq, hl'⟩ := stripWord?_eq_some_iff.1 hread
    obtain ⟨x, hx, hxsmall⟩ := (Option.any_eq_true _ _).1 (hsmall w hw)
    obtain ⟨y, hy, hysmall⟩ := (Option.any_eq_true _ _).1 (hsmall v hv)
    obtain ⟨w', rfl⟩ : ∃ w', w = x :: w' := ⟨w.tail, List.eq_cons_of_mem_head? hx⟩
    obtain ⟨v', rfl⟩ : ∃ v', v = y :: v' := ⟨v.tail, List.eq_cons_of_mem_head? hy⟩
    have hxy : x = y := by
      cases hl with
      | @cons _ c _ _ hxc _ =>
        have hyc := hl'.head r' c (by rw [← heq]; rfl)
        rw [eq_smallLetter_of_sameLetter hxsmall hxc, eq_smallLetter_of_sameLetter hysmall hyc]
    have hlength : l.length = l'.length := by
      rw [← hl.length_eq, ← hl'.length_eq, hdistinct _ hw _ hv (by rw [hxy]; rfl)]
    rw [hr', (List.append_inj heq hlength).2]

end SqlInjection.Text
