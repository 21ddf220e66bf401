import SqlInjection.Proofs.Java.Evaluation

/-!
# Literals that are written for values

A value is written as a literal on one line: backslashes, quotes, line ends and tabs as escapes, and
all else as it is (`encodeChar_cases`). What is written is read back:

* `literalValue?_literalOf`: the literal of a value has this value;
* `nextToken_literalOf`: in a source it is one token;
* `odd_backslashesBefore`: a quote in it stands behind an odd number of backslashes, so that it does
  not close the literal.

`literalOf_reads_back` puts these together.
-/

namespace SqlInjection.Java

open Text

/-! ## Written characters -/

/-- A character is written as an escape that names it, or as itself if it needs none. -/
theorem encodeChar_cases (c : Char) :
    (∃ e, encodeChar c = ['\\', e] ∧ namedEscape? e = some c ∧ isOctal e = false ∧ e ≠ '\x7b') ∨
      (encodeChar c = [c] ∧ c ≠ '\\' ∧ c ≠ '"' ∧ c ≠ '\n' ∧ c ≠ '\r') := by
  unfold encodeChar
  split
  next h => exact Or.inl ⟨'\\', rfl, by subst h; decide⟩
  split
  next h => exact Or.inl ⟨'"', rfl, by subst h; decide⟩
  split
  next h => exact Or.inl ⟨'n', rfl, by subst h; decide⟩
  split
  next h => exact Or.inl ⟨'r', rfl, by subst h; decide⟩
  split
  next h => exact Or.inl ⟨'t', rfl, by subst h; decide⟩
  next hback hquote hline hreturn _ => exact Or.inr ⟨rfl, hback, hquote, hline, hreturn⟩

theorem encodeContent_cons (c : Char) (n : Text) :
    encodeContent (c :: n) = encodeChar c ++ encodeContent n := rfl

theorem contentWithin_encodeContent {n : Text} {fuel : Nat} (h : n.length ≤ fuel) :
    contentWithin fuel (encodeContent n) = some n := by
  induction n generalizing fuel with
  | nil => cases fuel <;> rfl
  | cons c n ih =>
    obtain ⟨fuel, rfl⟩ := Nat.exists_eq_add_of_le' h
    rw [encodeContent_cons]
    have hn : contentWithin (fuel + n.length) (encodeContent n) = some n :=
      ih (Nat.le_add_left _ _)
    rcases encodeChar_cases c with ⟨e, hwritten, hnamed, hoctal, -⟩ |
      ⟨hwritten, hback, hquote, hline, hreturn⟩
    · have hescape : escape? (e :: encodeContent n) = some (c, encodeContent n) := by
        simp [escape?, hoctal, hnamed]
      simp [hwritten, List.length_cons, ← Nat.add_assoc, contentWithin, hescape, hn]
    · simp [hwritten, List.length_cons, ← Nat.add_assoc, contentWithin, hback, hquote, hline,
        hreturn, hn]

theorem length_le_encodeContent (n : Text) : n.length ≤ (encodeContent n).length := by
  induction n with
  | nil => exact Nat.le_refl 0
  | cons c n ih =>
    have hpos : 0 < (encodeChar c).length := by
      rcases encodeChar_cases c with ⟨e, h, -⟩ | ⟨h, -⟩ <;> simp [h]
    simp only [encodeContent_cons, List.length_append, List.length_cons]
    omega

/-- The literal of a value has this value by the rules of the language. -/
theorem literalValue?_literalOf (n : Text) : literalValue? (literalOf n) = some n := by
  have hlength := length_le_encodeContent n
  rw [literalOf, List.cons_append, literalValue?, if_pos ⟨rfl, by simp⟩, List.dropLast_concat]
  exact contentWithin_encodeContent (by simp; omega)

theorem takeString_encodeContent (n rest : Text) :
    takeString false (encodeContent n ++ '"' :: rest) =
      (encodeContent n ++ ['"'], .closed, rest) := by
  induction n with
  | nil =>
    -- further quotes behind the closing one are not read
    change takeString false ('"' :: rest) = (['"'], .closed, rest)
    by_cases h : ∃ r, rest = '"' :: '"' :: r
    · obtain ⟨r, rfl⟩ := h
      rfl
    · simp [takeString, not_exists.1 h]
  | cons c n ih =>
    rw [encodeContent_cons]
    rcases encodeChar_cases c with ⟨e, hwritten, -, -, hbrace⟩ | ⟨hwritten, hback, hquote, -, -⟩
    · simp [hwritten, takeString, ih]
    · simp [hwritten, takeString, ih, hback, hquote]

theorem literalOf_append (n rest : Text) :
    literalOf n ++ rest = '"' :: (encodeContent n ++ '"' :: rest) := by
  simp [literalOf]

/-- A literal does not open a text block, unless it is empty and another quote follows. -/
theorem encodeContent_ne_quotes (n : Text) {rest : Text} (hrest : rest.head? ≠ some '"')
    (r : Text) : encodeContent n ++ '"' :: rest ≠ '"' :: '"' :: r := by
  intro h
  cases n with
  | nil => simp [encodeContent] at h; simp [h] at hrest
  | cons c n =>
    rw [encodeContent_cons] at h
    rcases encodeChar_cases c with ⟨e, hwritten, -⟩ | ⟨hwritten, -, hquote, -⟩
    · simp [hwritten] at h
    · simp [hwritten, hquote] at h

/-- A literal is read as one token, unless it is empty and another quote follows. -/
theorem nextToken_literalOf (n : Text) (holes : List Hole) {rest : Text}
    (hrest : rest.head? ≠ some '"') :
    nextToken holes (literalOf n ++ rest) = (.string, literalOf n, rest, holes) := by
  have hblock := encodeContent_ne_quotes n hrest
  rw [literalOf_append]
  simp [nextToken, takeString_encodeContent, stringToken, literalOf]

theorem between?_blockQuote_literalOf (n : Text) : between? blockQuote (literalOf n) = none := by
  cases hstrip : stripPrefix? blockQuote (literalOf n) with
  | none => rw [between?, hstrip]; rfl
  | some r =>
    have hopen : '"' :: '"' :: r = encodeContent n ++ ['"'] := by
      simpa [blockQuote, literalOf] using stripPrefix?_eq_some_iff.1 hstrip
    have hnil : ([] : Text).head? ≠ some '"' := by simp
    exact absurd hopen.symm (encodeContent_ne_quotes n hnil r)

/-! ## Quotes and line ends -/

theorem encodeContent_no_lineEnd (n : Text) :
    '\n' ∉ encodeContent n ∧ '\r' ∉ encodeContent n := by
  have hchar : ∀ (c : Char), '\n' ∉ encodeChar c ∧ '\r' ∉ encodeChar c := by
    intro c
    rcases encodeChar_cases c with ⟨e, hwritten, hnamed, -⟩ | ⟨hwritten, -, -, hline, hreturn⟩
    · have hline : e ≠ '\n' := by
        rintro rfl
        cases hnamed
      have hreturn : e ≠ '\r' := by
        rintro rfl
        cases hnamed
      simp [hwritten, hline.symm, hreturn.symm]
    · simp [hwritten, hline.symm, hreturn.symm]
  constructor
  · intro h
    obtain ⟨c, -, hc⟩ := List.mem_flatMap.1 h
    exact (hchar c).1 hc
  · intro h
    obtain ⟨c, -, hc⟩ := List.mem_flatMap.1 h
    exact (hchar c).2 hc

/-- The number of backslashes at the end of a text. -/
def backslashesBefore (t : Text) : Nat := (t.reverse.takeWhile (· == '\\')).length

/-- An even number of backslashes in front of a text does not change what is odd in it. -/
theorem backslashesBefore_append {s : Text} (hs : backslashesBefore s % 2 = 0) (t : Text) :
    backslashesBefore (s ++ t) % 2 = backslashesBefore t % 2 := by
  unfold backslashesBefore at hs ⊢
  rw [List.reverse_append, List.takeWhile_append]
  split
  · next hall =>
    rw [List.length_append, hall]
    omega
  · rfl

theorem backslashesBefore_encodeChar (c : Char) : backslashesBefore (encodeChar c) % 2 = 0 := by
  rcases encodeChar_cases c with ⟨e, hwritten, -⟩ | ⟨hwritten, hback, -⟩
  · rw [hwritten]
    by_cases he : e = '\\'
    · rw [he]
      rfl
    · simp [backslashesBefore, he]
  · simp [hwritten, backslashesBefore, hback]

/-- A quote in a written value stands behind an odd number of backslashes. -/
theorem odd_backslashesBefore {n l r : Text} (h : encodeContent n = l ++ '"' :: r) :
    backslashesBefore l % 2 = 1 := by
  induction n generalizing l with
  | nil => simp [encodeContent] at h
  | cons c n ih =>
    rw [encodeContent_cons] at h
    have hcases : (∃ k, l = encodeChar c ++ k ∧ encodeContent n = k ++ '"' :: r) ∨
        ∃ k, encodeChar c = l ++ '"' :: k := by
      rcases List.append_eq_append_iff.1 h with ⟨k, hl, hk⟩ | ⟨k, hk, hr⟩
      · exact Or.inl ⟨k, hl, hk⟩
      · cases k with
        | nil => exact Or.inl ⟨[], by simpa using hk.symm, hr.symm⟩
        | cons d k =>
          obtain ⟨rfl, -⟩ := List.cons.inj hr
          exact Or.inr ⟨k, hk⟩
    rcases hcases with ⟨k, rfl, hk⟩ | ⟨k, hk⟩
    · -- the quote is written for a later character
      rw [backslashesBefore_append (backslashesBefore_encodeChar c)]
      exact ih hk
    · rcases encodeChar_cases c with ⟨e, hwritten, -⟩ | ⟨hwritten, -, hquote, -⟩
      · -- the first character written is the backslash
        rw [hwritten] at hk
        cases l with
        | nil => cases hk
        | cons d l =>
          obtain ⟨rfl, hl⟩ := List.cons.inj hk
          obtain rfl : l = [] := by
            cases l with
            | nil => rfl
            | cons d l => simp at hl
          rfl
      · have hmem : '"' ∈ encodeChar c := by simp [hk]
        rw [hwritten, List.mem_singleton] at hmem
        exact absurd hmem.symm hquote

/-- **A value is read back from the literal that is written for it.** What is written between the
quotes holds no line end, and each quote in it stands behind an odd number of backslashes. So the
literal is no text block, and a source that goes on with no quote holds it as one string. -/
theorem literalOf_reads_back (value : Text) :
    decodeLiteral? (literalOf value) = some value ∧
      '\n' ∉ encodeContent value ∧ '\r' ∉ encodeContent value ∧
      (∀ l r, encodeContent value = l ++ '"' :: r → backslashesBefore l % 2 = 1) ∧
      between? blockQuote (literalOf value) = none ∧
      ∀ holes rest, rest.head? ≠ some '"' →
        nextToken holes (literalOf value ++ rest) = (.string, literalOf value, rest, holes) := by
  obtain ⟨hline, hreturn⟩ := encodeContent_no_lineEnd value
  refine ⟨decodeLiteral?_of_literalValue? (literalValue?_literalOf value), hline, hreturn, ?_,
    between?_blockQuote_literalOf value, ?_⟩
  · intro l r h
    exact odd_backslashesBefore h
  · intro holes rest hrest
    exact nextToken_literalOf value holes hrest

-- backslashes before a letter of an escape, digits and a quote, and quotes at both ends
example : literalOf "\"\\u0041\\\"\\101\"".toList =
    "\"\\\"\\\\u0041\\\\\\\"\\\\101\\\"\"".toList := by
  decide

end SqlInjection.Java
