import Mathlib.Data.List.Basic
import SqlInjection.Text.Case

/-!
# Texts in small letters

Lower-casing is done once: `isSmall_of_mem_lower` says that no character of a lower-cased text
changes when it is lower-cased again, wherever it stands, and `lower_of_isSmall` that such a text
stays as it is.
-/

namespace SqlInjection.Text

/-- A character that lower-casing leaves as it is, wherever it stands. -/
def IsSmall (c : Char) : Prop := lowerChar c = [c] ∧ c.toNat ≠ 0x3A3

instance : DecidablePred IsSmall := fun _ => inferInstanceAs (Decidable (_ ∧ _))

theorem lowerAfter_of_isSmall (before : Text) {t : Text} (h : ∀ c ∈ t, IsSmall c) :
    lowerAfter before t = t := by
  induction t generalizing before with
  | nil => rfl
  | cons c t ih =>
    obtain ⟨hfixed, hsigma⟩ := h c List.mem_cons_self
    rw [lowerAfter, if_neg hsigma, hfixed, ih _ fun d hd => h d (List.mem_cons_of_mem c hd)]
    rfl

theorem lower_of_isSmall {t : Text} (h : ∀ c ∈ t, IsSmall c) : lower t = t :=
  lowerAfter_of_isSmall [] h

/-! ## The small letters of capitals -/

theorem CodeRun.covers_iff {r : CodeRun} {n : Nat} :
    r.covers n = true ↔ r.first ≤ n ∧ n ≤ r.last ∧ (n - r.first) % r.step = 0 := by
  simp [covers, and_assoc]

/-- Whether two runs have no code point in common: one lies before the other, or the second skips
every other code point and the first has only those that it skips. -/
def CodeRun.clear (r s : CodeRun) : Bool :=
  Nat.blt r.last s.first || Nat.blt s.last r.first ||
    (s.step == 2 && (r.step == 2 || r.first == r.last) && r.first % 2 != s.first % 2)

theorem CodeRun.not_covers_of_clear {r s : CodeRun} (h : r.clear s = true) {n : Nat}
    (hn : r.covers n = true) : s.covers n = false := by
  by_contra hs
  simp only [clear, Nat.blt_eq, Bool.or_eq_true, Bool.and_eq_true, beq_iff_eq, bne_iff_ne] at h
  obtain ⟨hn₁, hn₂, hstep⟩ := covers_iff.1 hn
  obtain ⟨hs₁, hs₂, hsstep⟩ := covers_iff.1 (Bool.not_eq_false _ ▸ hs)
  rcases h with (h | h) | ⟨⟨hs2, hr2⟩, hparity⟩
  · omega
  · omega
  · rw [hs2] at hsstep
    rcases hr2 with hr2 | hr2
    · rw [hr2] at hstep
      omega
    · omega

namespace CaseRun

/-- The capital letters of a run. -/
def capitals (r : CaseRun) : CodeRun := ⟨r.first, r.last, r.step⟩

/-- The small letters of a run. -/
def smalls (r : CaseRun) : CodeRun :=
  ⟨(r.first + r.shift).toNat, (r.last + r.shift).toNat, r.step⟩

theorem covers_smalls {r : CaseRun} (hr : 90 < r.smalls.first) {n : Nat}
    (hn : r.capitals.covers n = true) : r.smalls.covers (n + r.shift).toNat = true := by
  obtain ⟨hn₁, hn₂, hstep⟩ := CodeRun.covers_iff.1 hn
  change r.first ≤ n at hn₁
  change n ≤ r.last at hn₂
  change 90 < (r.first + r.shift).toNat at hr
  have hshift : (n + r.shift).toNat - (r.first + r.shift).toNat = n - r.first := by omega
  refine CodeRun.covers_iff.2 ⟨?_, ?_, hshift ▸ hstep⟩
  · exact Int.toNat_le_toNat (by omega)
  · exact Int.toNat_le_toNat (by omega)

end CaseRun

/-- The capital with two small letters, and the runs of the others. -/
def allCapitals : List CodeRun := ⟨0x130, 0x130, 1⟩ :: capitalRuns.map CaseRun.capitals

/-- No small letter of a capital is a capital. -/
theorem clear_allCapitals : ((capitalRuns.map CaseRun.smalls).all fun r =>
    Nat.blt 90 r.first && allCapitals.all r.clear) = true := by
  decide +kernel

theorem toLower_of_lt {c : Char} (h : 90 < c.toNat) : Char.toLower c = c := by
  unfold Char.toLower
  rw [dif_neg]
  rintro ⟨-, hle⟩
  have : c.toNat ≤ 90 := hle
  omega

/-- What is neither a capital nor before the small letters is small. -/
theorem isSmall_of_not_capital {c : Char} (hascii : 90 < c.toNat)
    (h : ∀ s ∈ allCapitals, s.covers c.toNat = false) : IsSmall c := by
  have hdot : c.toNat ≠ 0x130 := by
    intro heq
    have := h ⟨0x130, 0x130, 1⟩ List.mem_cons_self
    rw [heq] at this
    exact absurd this (by decide)
  have hnone : capitalRuns.find? (fun r => CodeRun.covers ⟨r.first, r.last, r.step⟩ c.toNat) =
      none :=
    List.find?_eq_none.2 fun r hr => by
      have := h r.capitals (List.mem_cons_of_mem _ (List.mem_map_of_mem hr))
      exact Bool.eq_false_iff.1 this
  constructor
  · simp only [lowerChar, toLower_of_lt hascii, if_neg hdot, hnone, ite_self]
  · intro heq
    have := h ⟨0x3A3, 0x3AB, 1⟩ (by decide)
    rw [heq] at this
    exact absurd this (by decide)

theorem isSmall_of_capital {r : CaseRun} (hr : r ∈ capitalRuns) {n : Nat}
    (hn : r.capitals.covers n = true) : IsSmall (Char.ofNat (n + r.shift).toNat) := by
  have hclear := List.all_eq_true.1 clear_allCapitals r.smalls (List.mem_map_of_mem hr)
  obtain ⟨hfirst, hclear⟩ := Bool.and_eq_true_iff.1 hclear
  have hfirst : 90 < r.smalls.first := by simpa using hfirst
  have hcovers := CaseRun.covers_smalls hfirst hn
  have hle := (CodeRun.covers_iff.1 hcovers).1
  generalize (n + r.shift).toNat = m at hcovers hle
  by_cases hvalid : m.isValidChar
  · have htoNat : (Char.ofNat m).toNat = m := by
      rw [Char.ofNat, dif_pos hvalid]
      rfl
    refine isSmall_of_not_capital (by omega) fun s hs => ?_
    rw [htoNat]
    exact CodeRun.not_covers_of_clear (List.all_eq_true.1 hclear s hs) hcovers
  · rw [Char.ofNat, dif_neg hvalid]
    decide

theorem isSmall_of_ascii : ∀ n < 0x80, IsSmall (Char.toLower (Char.ofNat n)) := by decide +kernel

theorem isSmall_of_mem_lowerChar {c d : Char} (hc : c.toNat ≠ 0x3A3) (h : d ∈ lowerChar c) :
    IsSmall d := by
  simp only [lowerChar] at h
  split at h
  next hascii =>
    have hsmall := isSmall_of_ascii c.toNat hascii
    rw [Char.ofNat_toNat] at hsmall
    rwa [List.mem_singleton.1 h]
  next hascii =>
  split at h
  next hdot =>
    have hall : ∀ d ∈ ['i', Char.ofNat 0x307], IsSmall d := by decide
    exact hall d h
  next hdot =>
  split at h
  next r hr =>
    rw [List.mem_singleton.1 h]
    have hcovers := List.find?_some hr
    exact isSmall_of_capital (List.mem_of_find?_eq_some hr) hcovers
  next hnone =>
    obtain rfl := List.mem_singleton.1 h
    refine ⟨?_, hc⟩
    simp only [lowerChar, if_neg hascii, if_neg hdot, hnone]

theorem isSmall_of_mem_lowerAfter {before t : Text} {d : Char} (h : d ∈ lowerAfter before t) :
    IsSmall d := by
  induction t generalizing before with
  | nil => cases h
  | cons c t ih =>
    rw [lowerAfter] at h
    rcases List.mem_append.1 h with h | h
    · split at h
      next =>
        have hsigma : ∀ b : Bool, IsSmall (Char.ofNat (if b then 0x3C2 else 0x3C3)) := by
          decide
        rw [List.mem_singleton.1 h]
        exact hsigma _
      next hc => exact isSmall_of_mem_lowerChar hc h
    · exact ih h

/-- No character of a text in small letters changes when the text is lower-cased again. -/
theorem isSmall_of_mem_lower {t : Text} {c : Char} (h : c ∈ lower t) : IsSmall c :=
  isSmall_of_mem_lowerAfter h

/-! ## Words in small letters -/

theorem sameLetter_iff {l c : Char} (hl : l ≠ 's') (hc : IsSmall c) :
    sameLetter l c = true ↔ c = l := by
  have hlower : Char.toLower c = c := by
    by_cases hascii : c.toNat < 0x80
    · have hfixed := hc.1
      simp only [lowerChar, if_pos hascii] at hfixed
      exact List.singleton_inj.1 hfixed
    · exact toLower_of_lt (by omega)
  have hkelvin : c ≠ kelvinSign := by
    rintro rfl
    exact absurd hc (by decide)
  simp [sameLetter, hlower, hl, hkelvin]

/-- In small letters a word without an `s`, which has another small form, is read as it stands. -/
theorem stripWord?_eq_stripPrefix? {w t : Text} (hw : 's' ∉ w) (ht : ∀ c ∈ t, IsSmall c) :
    stripWord? w t = stripPrefix? w t := by
  induction w generalizing t with
  | nil => rfl
  | cons l w ih =>
    cases t with
    | nil => rfl
    | cons c t =>
      have hl : l ≠ 's' := fun h => hw (by simp [h])
      rw [stripWord?, stripPrefix?, ih (fun h => hw (List.mem_cons_of_mem l h))
        fun d hd => ht d (List.mem_cons_of_mem c hd)]
      simp only [sameLetter_iff hl (ht c List.mem_cons_self), eq_comm]

end SqlInjection.Text
