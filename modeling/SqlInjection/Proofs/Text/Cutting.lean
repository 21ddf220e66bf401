import Mathlib.Data.List.Infix
import Mathlib.Data.List.TakeWhile
import SqlInjection.Text.Blank
import SqlInjection.Text.Case

/-!
# Cutting texts

What it means to find a word at the front of a text, to cut a text at a character, and to take a run
of characters off one of its ends.
-/

namespace SqlInjection.Text

/-- A property of every character of a text is decided along the text, not over all characters. -/
instance (priority := 1100) decidableForallMem (p : Char → Prop) [DecidablePred p] (t : Text) :
    Decidable (∀ c ∈ t, p c) :=
  List.decidableBAll p t

/-- The code points of the blanks. -/
def blankPoints : List Nat :=
  [9, 10, 11, 12, 13, 0x20, 0x85, 0xA0, 0x1680, 0x2000, 0x2001, 0x2002, 0x2003, 0x2004, 0x2005,
    0x2006, 0x2007, 0x2008, 0x2009, 0x200A, 0x2028, 0x2029, 0x202F, 0x205F, 0x3000]

/-- A class that holds none of the code points of blanks holds no blank. -/
theorem eq_false_of_isBlank {p : Char → Bool}
    (hp : ∀ n ∈ blankPoints, p (Char.ofNat n) = false) {c : Char} (h : isBlank c = true) :
    p c = false := by
  have hc := hp c.toNat
  rw [Char.ofNat_toNat] at hc
  refine hc ?_
  simp only [isBlank, Bool.or_eq_true, Bool.and_eq_true, decide_eq_true_eq, beq_iff_eq] at h
  simp only [blankPoints, List.mem_cons, List.not_mem_nil, or_false]
  omega

theorem eq_nil_of_byteSize {t : Text} (h : byteSize t = 0) : t = [] := by
  cases t with
  | nil => rfl
  | cons c t =>
    have := c.utf8Size_pos
    rw [byteSize_cons] at h
    omega

theorem byteSize_take_le (line : Text) {m n : Nat} (h : m ≤ n) :
    byteSize (line.take m) ≤ byteSize (line.take n) := by
  obtain ⟨k, hk⟩ := List.take_prefix_take_left (l := line) h
  rw [← hk, byteSize_append]
  omega

/-- A cut in the first of two texts is a cut in both. -/
theorem splitAt?_append {l : Text} {n : Nat} (h : n ≤ byteSize l) (w : Text) :
    splitAt? (l ++ w) n = (splitAt? l n).map fun (a, r) => (a, r ++ w) := by
  refine Option.ext fun (a, r) => ?_
  simp only [Option.map_eq_some_iff, Prod.exists, Prod.mk.injEq, splitAt?_eq_some_iff]
  constructor
  · rintro ⟨heq, rfl⟩
    rcases List.append_eq_append_iff.1 heq with ⟨k, rfl, rfl⟩ | ⟨k, rfl, rfl⟩
    · exact ⟨a, k, ⟨rfl, rfl⟩, rfl, rfl⟩
    · -- the cut is at the end of the first text
      have hk : k = [] := by
        rw [byteSize_append] at h
        exact eq_nil_of_byteSize (by omega)
      subst hk
      exact ⟨l, [], ⟨List.append_nil l, by rw [List.append_nil]⟩, (List.append_nil l).symm, rfl⟩
  · rintro ⟨a, r, ⟨rfl, rfl⟩, rfl, rfl⟩
    exact ⟨by rw [List.append_assoc], rfl⟩

theorem startsWith_iff {t w : Text} : startsWith t w = true ↔ w <+: t := by
  rw [startsWith, Option.isSome_iff_exists]
  exact exists_congr fun r => stripPrefix?_eq_some_iff

theorem endsWith_iff {t w : Text} : endsWith t w = true ↔ w <:+ t := by
  rw [endsWith, startsWith_iff, List.reverse_prefix]

theorem contains_iff {t w : Text} : contains t w = true ↔ w <:+: t := by
  induction t with
  | nil => simp [contains]
  | cons c t ih => rw [contains, Bool.or_eq_true, startsWith_iff, ih, List.infix_cons_iff]

theorem cut?_eq_some_iff {sep : Char} {t l r : Text} :
    cut? sep t = some (l, r) ↔ t = l ++ sep :: r ∧ sep ∉ l := by
  induction t generalizing l r with
  | nil => simp [cut?]
  | cons c t ih =>
    rw [cut?]
    split
    · rename_i hc
      subst hc
      cases l with
      | nil => simp
      | cons d l =>
        simp only [Option.some.injEq, Prod.mk.injEq, reduceCtorEq, false_and, List.cons_append,
          List.cons.injEq, List.mem_cons, not_or, false_iff, not_and]
        rintro ⟨rfl, -⟩ h
        exact absurd rfl h
    · rename_i hc
      simp only [Option.map_eq_some_iff, Prod.exists, ih, Prod.mk.injEq]
      constructor
      · rintro ⟨l, r, ⟨rfl, hl⟩, rfl, rfl⟩
        exact ⟨rfl, by simp [hl, Ne.symm hc]⟩
      · cases l with
        | nil =>
          rintro ⟨h, -⟩
          exact absurd (List.cons.inj h).1 hc
        | cons d l =>
          rintro ⟨h, hl⟩
          obtain ⟨rfl, rfl⟩ := List.cons.inj h
          exact ⟨l, r, ⟨rfl, fun h => hl (List.mem_cons_of_mem c h)⟩, rfl, rfl⟩

theorem splitBy_ne_nil (p : Char → Bool) (t : Text) : splitBy p t ≠ [] := by
  cases t with
  | nil => simp [splitBy]
  | cons c t =>
    rw [splitBy]
    split
    · simp
    · split <;> simp

/-- A text is split at each break by itself. -/
theorem splitBy_append_break {p : Char → Bool} {c : Char} (hc : p c = true) (x y : Text) :
    splitBy p (x ++ c :: y) = splitBy p x ++ splitBy p y := by
  induction x with
  | nil => simp [splitBy, hc]
  | cons d x ih =>
    rw [List.cons_append, splitBy, splitBy, ih]
    split
    · rfl
    · obtain ⟨piece, more, hpieces⟩ := List.exists_cons_of_ne_nil (splitBy_ne_nil p x)
      rw [hpieces]
      rfl

/-- A text without breaks before another belongs to its first piece. -/
theorem splitBy_letters_append {p : Char → Bool} {s : Text} (hs : ∀ c ∈ s, p c = false) {t : Text}
    {piece : Text} {more : List Text} (h : splitBy p t = piece :: more) :
    splitBy p (s ++ t) = (s ++ piece) :: more := by
  induction s with
  | nil => exact h
  | cons c s ih =>
    rw [List.cons_append, splitBy, ih fun d hd => hs d (List.mem_cons_of_mem c hd)]
    simp [hs c List.mem_cons_self]

theorem splitOn_of_not_mem {sep : Char} {t : Text} (h : sep ∉ t) : splitOn sep t = [t] := by
  have hletters : ∀ c ∈ t, (c == sep) = false := by
    intro c hc
    rw [beq_eq_false_iff_ne]
    rintro rfl
    exact h hc
  simpa [splitOn] using splitBy_letters_append hletters (show splitBy _ [] = [] :: [] from rfl)

theorem splitOn_append_cons {sep : Char} {l : Text} (h : sep ∉ l) (r : Text) :
    splitOn sep (l ++ sep :: r) = l :: splitOn sep r := by
  have hone := splitOn_of_not_mem h
  rw [splitOn] at hone
  rw [splitOn, splitBy_append_break (p := (· == sep)) (beq_self_eq_true sep), hone]
  rfl

/-- The pieces of a text make it up. -/
theorem join_splitOn (sep : Char) (t : Text) : join [sep] (splitOn sep t) = t := by
  induction t with
  | nil => rfl
  | cons c t ih =>
    rw [splitOn] at ih
    obtain ⟨piece, more, hpieces⟩ :=
      List.exists_cons_of_ne_nil (splitBy_ne_nil (fun d => d == sep) t)
    rw [hpieces] at ih
    rw [splitOn, splitBy, hpieces]
    by_cases hc : c = sep
    · rw [if_pos (beq_iff_eq.2 hc), join, ih, hc]
      · rfl
      · simp
    · rw [if_neg (by simpa using hc)]
      cases more with
      | nil => exact congrArg (c :: ·) ih
      | cons next more => exact congrArg (c :: ·) ih

/-- A word is read letter by letter. -/
theorem stripWord?_inv {w t r : Text} (h : stripWord? w t = some r) :
    ∃ l, t = l ++ r ∧ l.length = w.length ∧ (∀ c ∈ l, ∃ x ∈ w, sameLetter x c = true) ∧
      ∀ x ∈ w, ∃ c ∈ l, sameLetter x c = true := by
  induction w generalizing t with
  | nil =>
    simp only [stripWord?, Option.some.injEq] at h
    exact ⟨[], by simpa using h, rfl, by simp, by simp⟩
  | cons x w ih =>
    cases t with
    | nil => simp [stripWord?] at h
    | cons c t =>
      simp only [stripWord?] at h
      split at h
      · rename_i hx
        obtain ⟨l, rfl, hlen, hl, hw⟩ := ih h
        refine ⟨c :: l, rfl, by simp [hlen], ?_, ?_⟩
        · intro d hd
          rcases List.mem_cons.1 hd with rfl | hd
          · exact ⟨x, List.mem_cons_self, hx⟩
          · obtain ⟨y, hy, hyd⟩ := hl d hd
            exact ⟨y, List.mem_cons_of_mem x hy, hyd⟩
        · intro y hy
          rcases List.mem_cons.1 hy with rfl | hy
          · exact ⟨c, List.mem_cons_self, hx⟩
          · obtain ⟨d, hd, hyd⟩ := hw y hy
            exact ⟨d, List.mem_cons_of_mem c hd, hyd⟩
      · simp at h

/-- A word is read off the front of a text that is long enough for it, whatever follows. -/
theorem stripWord?_append {w t : Text} (h : w.length ≤ t.length) (u : Text) :
    stripWord? w (t ++ u) = (stripWord? w t).map (· ++ u) := by
  induction w generalizing t with
  | nil => rfl
  | cons l w ih =>
    cases t with
    | nil => cases h
    | cons c t =>
      rw [List.cons_append, stripWord?, stripWord?]
      split
      · exact ih (Nat.le_of_succ_le_succ h)
      · rfl

/-- A run of characters of a class ends where another class goes on. -/
theorem span_append {p : Char → Bool} {s t : Text} (hs : ∀ c ∈ s, p c = true)
    (ht : ∀ c ∈ t.head?, p c = false) :
    (s ++ t).takeWhile p = s ∧ (s ++ t).dropWhile p = t := by
  have hstop : t.takeWhile p = [] ∧ t.dropWhile p = t := by
    cases t with
    | nil => simp
    | cons c t => simp [ht c rfl]
  rw [List.takeWhile_append_of_pos hs, List.dropWhile_append_of_pos hs, hstop.1, hstop.2]
  simp

/-- Where a text starts with the same run by two classes, so does its front. -/
theorem takeWhile_eq_of_append {p q : Char → Bool} {s t : Text}
    (h : (s ++ t).takeWhile p = (s ++ t).takeWhile q) : s.takeWhile p = s.takeWhile q := by
  have htake : ∀ r : Char → Bool, s.takeWhile r = ((s ++ t).takeWhile r).take s.length := by
    intro r
    rw [List.take_takeWhile, List.take_left' rfl]
  rw [htake p, htake q, h]

theorem blank_iff {t : Text} : blank t = true ↔ t.takeWhile isBlank = t := by
  rw [List.takeWhile_eq_self_iff, blank, List.all_eq_true]

theorem trimStart_blank_append {w t : Text} (hw : ∀ c ∈ w, isBlank c = true)
    (ht : ∀ c ∈ t.head?, isBlank c = false) : trimStart (w ++ t) = t :=
  (span_append hw ht).2

theorem trimStart_append (t : Text) :
    ∃ w, w ++ trimStart t = t ∧ ∀ c ∈ w, isBlank c = true :=
  ⟨t.takeWhile isBlank, List.takeWhile_append_dropWhile, fun _ hc => List.mem_takeWhile_imp hc⟩

theorem trimEnd_append (t : Text) : ∃ w, trimEnd t ++ w = t ∧ ∀ c ∈ w, isBlank c = true := by
  obtain ⟨w, hw, hblank⟩ := trimStart_append t.reverse
  refine ⟨w.reverse, ?_, fun c hc => hblank c (List.mem_reverse.1 hc)⟩
  have := congrArg List.reverse hw
  rwa [List.reverse_append, List.reverse_reverse] at this

theorem trimEnd_of_ink {x l w : Text} (hne : l ≠ []) (hl : ∀ c ∈ l, isBlank c = false)
    (hw : ∀ c ∈ w, isBlank c = true) : trimEnd (x ++ (l ++ w)) = x ++ l := by
  obtain ⟨k, c, rfl⟩ : ∃ k c, l = k ++ [c] := ⟨_, _, (List.dropLast_concat_getLast hne).symm⟩
  have hc : isBlank c = false := hl c (by simp)
  rw [trimEnd, dropEndWhile, List.reverse_append, List.reverse_append, List.append_assoc,
    List.dropWhile_append_of_pos (fun d hd => hw d (List.mem_reverse.1 hd)),
    List.reverse_append, List.reverse_singleton, List.singleton_append, List.cons_append,
    List.dropWhile_cons_of_neg (by simp [hc])]
  simp

theorem trimEnd_append_blank {w : Text} (hw : ∀ c ∈ w, isBlank c = true) (t : Text) :
    trimEnd (t ++ w) = trimEnd t := by
  rw [trimEnd, dropEndWhile, List.reverse_append,
    List.dropWhile_append_of_pos fun c hc => hw c (List.mem_reverse.1 hc)]
  rfl

theorem trimEnd_of_blank {w : Text} (hw : ∀ c ∈ w, isBlank c = true) : trimEnd w = [] :=
  trimEnd_append_blank hw []

theorem blank_append_blank {w : Text} (hw : ∀ c ∈ w, isBlank c = true) (l : Text) :
    blank (l ++ w) = blank l := by
  rw [blank, List.all_append, List.all_eq_true.2 hw, Bool.and_true]
  rfl

end SqlInjection.Text
