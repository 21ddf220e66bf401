import Mathlib.Data.List.Forall2
import SqlInjection.Proofs.Clause.ValueClauses

/-!
# The nearest clause decides

The verdict on a point is asked of the words of a lower-cased text. Here it is told by the words of
the text itself, in whatever letter case they are.

* `Lowered`: how a text may look in small letters. What a capital sigma becomes depends on the text
  around it, so this is a relation; it holds piece by piece where `lower` does not;
* `Text.inertPoints`: the characters that divide words or stand at their ends. Lower-casing keeps
  them and makes no new ones (`Lowers.eq_of_inert`), and so the words of a lower-cased text are the
  words of the text, each lower-cased (`Clause.forall₂_words_lower`);
* `Clause.Spells`: a keyword in any letter case. Lower-casing finds these and no others
  (`Clause.ofWord?_of_lowered`).

`nearest_clause_decides` follows: nothing before the nearest clause keyword changes the verdict.
-/

namespace SqlInjection

namespace Text

/-! ## Lower-casing, character by character -/

/-- What may become of a character in small letters. The capital sigma has two small forms. -/
def Lowers (c : Char) (s : Text) : Prop :=
  if c.toNat = 0x3A3 then s = [Char.ofNat 0x3C2] ∨ s = [Char.ofNat 0x3C3] else s = lowerChar c

/-- How a text may look in small letters. -/
inductive Lowered : Text → Text → Prop
  | nil : Lowered [] []
  | cons {c : Char} {s t t' : Text} (hc : Lowers c s) (ht : Lowered t t') :
      Lowered (c :: t) (s ++ t')

theorem lowered_lowerAfter (before t : Text) : Lowered t (lowerAfter before t) := by
  induction t generalizing before with
  | nil => exact Lowered.nil
  | cons c t ih =>
    refine Lowered.cons ?_ (ih (c :: before))
    unfold Lowers
    split
    · split
      · exact Or.inl rfl
      · exact Or.inr rfl
    · rfl

theorem lowered_lower (t : Text) : Lowered t (lower t) := lowered_lowerAfter [] t

theorem Lowers.of_ascii {c : Char} {s : Text} (h : Lowers c s) (hc : c.toNat < 0x80) :
    s = [Char.toLower c] := by
  rw [Lowers, if_neg (by omega)] at h
  rw [h, lowerChar, if_pos hc]

/-- Beyond ASCII a character stays as it is, or becomes a small letter of a known run; two of them
have forms of their own. -/
theorem Lowers.of_not_ascii {c : Char} {s : Text} (h : Lowers c s) (hc : 0x80 ≤ c.toNat) :
    s = [c] ∨ s = ['i', Char.ofNat 0x307] ∨ s = [Char.ofNat 0x3C2] ∨
      ∃ r ∈ capitalRuns, ∃ n, r.smalls.covers n = true ∧ s = [Char.ofNat n] := by
  unfold Lowers at h
  split at h
  · rcases h with h | h
    · exact Or.inr (Or.inr (Or.inl h))
    · exact Or.inr (Or.inr (Or.inr ⟨⟨0x3A3, 0x3AB, 1, 32⟩, by decide, 0x3C3, by decide, h⟩))
  · rw [lowerChar] at h
    simp only [if_neg (Nat.not_lt.2 hc)] at h
    split at h
    · exact Or.inr (Or.inl h)
    · split at h
      · rename_i r hr
        have hmem := List.mem_of_find?_eq_some hr
        have hclear := List.all_eq_true.1 clear_allCapitals r.smalls (List.mem_map_of_mem hmem)
        have hfirst : 90 < r.smalls.first := by simpa using (Bool.and_eq_true_iff.1 hclear).1
        have hcovers := List.find?_some hr
        exact Or.inr (Or.inr (Or.inr ⟨r, hmem, _, CaseRun.covers_smalls hfirst hcovers, h⟩))
      · exact Or.inl h

theorem Lowers.ne_nil {c : Char} {s : Text} (h : Lowers c s) : s ≠ [] := by
  by_cases hc : c.toNat < 0x80
  · simp [h.of_ascii hc]
  · rcases h.of_not_ascii (Nat.not_lt.1 hc) with rfl | rfl | rfl | ⟨r, -, n, -, rfl⟩ <;> simp

theorem toNat_ofNat (n : Nat) : (Char.ofNat n).toNat = n ∨ (Char.ofNat n).toNat = 0 := by
  rw [Char.ofNat]
  by_cases h : n.isValidChar
  · rw [dif_pos h]
    exact Or.inl rfl
  · rw [dif_neg h]
    exact Or.inr rfl

/-- Code points that no capital beyond ASCII has for its small letter. -/
theorem not_mem_of_smalls {points : List Nat} (hzero : 0 ∉ points)
    (hpoints : (capitalRuns.all fun r => points.all fun n => !r.smalls.covers n) = true)
    {r : CaseRun} (hr : r ∈ capitalRuns) {n : Nat} (hn : r.smalls.covers n = true) :
    (Char.ofNat n).toNat ∉ points := by
  intro hmem
  rcases toNat_ofNat n with heq | heq
  · have hall := List.all_eq_true.1 (List.all_eq_true.1 hpoints r hr) n (heq ▸ hmem)
    simp [hn] at hall
  · exact hzero (heq ▸ hmem)

/-! ## Characters around words -/

/-- The code points of the characters that divide words or stand at their ends: the blanks, the
opening parenthesis, the equals sign, the quotes and the percent sign. -/
def inertPoints : List Nat := blankPoints ++ "(='\"%".toList.map Char.toNat

theorem forall_inert {P : Char → Prop} (hall : ∀ n ∈ inertPoints, P (Char.ofNat n)) {c : Char}
    (h : c.toNat ∈ inertPoints) : P c := by
  have hc := hall c.toNat h
  rwa [Char.ofNat_toNat] at hc

theorem isSmall_of_inert {c : Char} (h : c.toNat ∈ inertPoints) : IsSmall c :=
  forall_inert (by decide +kernel) h

theorem Lowers.of_inert {c : Char} {s : Text} (h : Lowers c s) (hc : c.toNat ∈ inertPoints) :
    s = [c] := by
  obtain ⟨hfixed, hsigma⟩ := isSmall_of_inert hc
  rw [Lowers, if_neg hsigma] at h
  rw [h, hfixed]

/-- Lower-casing makes none of these characters. -/
theorem Lowers.eq_of_inert {c d : Char} {s : Text} (h : Lowers c s) (hd : d ∈ s)
    (hinert : d.toNat ∈ inertPoints) : d = c := by
  by_cases hc : c.toNat < 0x80
  · have hall : ∀ n < 0x80, (Char.toLower (Char.ofNat n)).toNat ∈ inertPoints →
        Char.toLower (Char.ofNat n) = Char.ofNat n := by decide +kernel
    have hkept := hall c.toNat hc
    rw [Char.ofNat_toNat] at hkept
    rw [h.of_ascii hc, List.mem_singleton] at hd
    rw [hd] at hinert ⊢
    exact hkept hinert
  · rcases h.of_not_ascii (Nat.not_lt.1 hc) with rfl | rfl | rfl | ⟨r, hr, n, hn, rfl⟩
    · exact List.mem_singleton.1 hd
    · have hall : ∀ d ∈ ['i', Char.ofNat 0x307], d.toNat ∉ inertPoints := by decide
      exact absurd hinert (hall d hd)
    · have hall : ∀ d ∈ [Char.ofNat 0x3C2], d.toNat ∉ inertPoints := by decide
      exact absurd hinert (hall d hd)
    · rw [List.mem_singleton.1 hd] at hinert
      exact absurd hinert (not_mem_of_smalls (by decide) (by decide +kernel) hr hn)

namespace Lowered

theorem append_inv {x y z : Text} (h : Lowered (x ++ y) z) :
    ∃ x' y', z = x' ++ y' ∧ Lowered x x' ∧ Lowered y y' := by
  induction x generalizing z with
  | nil => exact ⟨[], z, rfl, nil, h⟩
  | cons c x ih =>
    cases h with
    | @cons _ s _ _ hc ht =>
      obtain ⟨x', y', rfl, hx, hy⟩ := ih ht
      exact ⟨s ++ x', y', by simp, cons hc hx, hy⟩

theorem eq_nil_iff {t t' : Text} (h : Lowered t t') : t' = [] ↔ t = [] := by
  cases h with
  | nil => rfl
  | cons hc ht => simp [hc.ne_nil]

theorem of_inert {t t' : Text} (h : Lowered t t') (ht : ∀ c ∈ t, c.toNat ∈ inertPoints) :
    t' = t := by
  induction h with
  | nil => rfl
  | cons hc _ ih =>
    rw [hc.of_inert (ht _ List.mem_cons_self), ih fun d hd => ht d (List.mem_cons_of_mem _ hd)]
    rfl

theorem eq_of_inert {t t' : Text} (h : Lowered t t') (ht : ∀ c ∈ t', c.toNat ∈ inertPoints) :
    t' = t := by
  refine h.of_inert fun c hc => ?_
  induction h with
  | nil => cases hc
  | @cons c' s t t' hc' _ ih =>
    rcases List.mem_cons.1 hc with rfl | hc
    · obtain ⟨d, u, rfl⟩ := List.exists_cons_of_ne_nil hc'.ne_nil
      have hd := ht d (by simp)
      rwa [hc'.eq_of_inert List.mem_cons_self hd] at hd
    · exact ih (fun d hd => ht d (List.mem_append_right s hd)) hc

end Lowered

end Text

/-! ## The words of a lower-cased text -/

namespace Clause

open Text

theorem inert_of_isBreak {c : Char} (h : isBreak c = true) : c.toNat ∈ inertPoints := by
  rcases Bool.or_eq_true_iff.1 h with h | h
  · have := eq_false_of_isBlank (p := fun c => !inertPoints.contains c.toNat) (by decide) h
    simpa using this
  · rw [beq_iff_eq.1 h]
    decide

theorem forall₂_splitBy {t t' : Text} (h : Lowered t t') :
    List.Forall₂ Lowered (splitBy isBreak t) (splitBy isBreak t') := by
  induction h with
  | nil => exact List.Forall₂.cons Lowered.nil List.Forall₂.nil
  | @cons c s t t' hc ht ih =>
    by_cases hbreak : isBreak c = true
    · rw [hc.of_inert (inert_of_isBreak hbreak), List.singleton_append, splitBy, splitBy,
        if_pos hbreak, if_pos hbreak]
      exact List.Forall₂.cons Lowered.nil ih
    · have hletters : ∀ d ∈ s, isBreak d = false := by
        intro d hd
        rw [← Bool.not_eq_true]
        intro hd'
        exact hbreak (hc.eq_of_inert hd (inert_of_isBreak hd') ▸ hd')
      obtain ⟨piece, more, hpieces⟩ := List.exists_cons_of_ne_nil (splitBy_ne_nil isBreak t)
      obtain ⟨piece', more', hpieces'⟩ := List.exists_cons_of_ne_nil (splitBy_ne_nil isBreak t')
      rw [hpieces, hpieces', List.forall₂_cons] at ih
      have hfirst := splitBy_letters_append (s := [c]) (by simpa using hbreak) hpieces
      rw [List.singleton_append] at hfirst
      rw [hfirst, splitBy_letters_append hletters hpieces']
      exact List.Forall₂.cons (Lowered.cons hc ih.1) ih.2

/-- **Lower-casing keeps the words apart.** -/
theorem forall₂_words_lower (t : Text) :
    List.Forall₂ Lowered (words t) (words (lower t)) := by
  rw [words_eq, words_eq]
  refine List.rel_filter (fun w w' hw => ?_) (forall₂_splitBy (lowered_lower t))
  simp [hw.eq_nil_iff]

/-! ## Keywords in any letter case -/

/-- The keyword of a clause, in small letters. -/
def word : Clause → Text
  | whereClause => "where".toList
  | valuesClause => "values".toList
  | setClause => "set".toList
  | fromClause => "from".toList
  | intoClause => "into".toList
  | joinClause => "join".toList
  | selectClause => "select".toList
  | updateClause => "update".toList

theorem ofWord?_eq_some_iff {w : Text} {k : Clause} : ofWord? w = some k ↔ w = k.word := by
  constructor
  · intro h
    unfold ofWord? at h
    split_ifs at h <;> cases h <;> assumption
  · rintro rfl
    cases k <;> decide

/-- A word is the keyword of the clause, in some letter case. -/
def Spells (k : Clause) (w : Text) : Prop := w.map Char.toLower = k.word

instance (k : Clause) (w : Text) : Decidable (k.Spells w) :=
  inferInstanceAs (Decidable (_ = _))

/-- The code points of the letters that keywords are made of. There is no `k` in them, which is the
small letter of the Kelvin sign too. -/
def letterPoints : List Nat := "abcdefghijlmnopqrstuvwxyz".toList.map Char.toNat

theorem lt_of_mem_letterPoints : ∀ n ∈ letterPoints, n < 0x80 := by decide

/-- No character beyond ASCII becomes letters of keywords only. -/
theorem exists_not_letter {c : Char} {s : Text} (h : Lowers c s) (hc : 0x80 ≤ c.toNat) :
    ∃ d ∈ s, d.toNat ∉ letterPoints := by
  rcases h.of_not_ascii hc with rfl | rfl | rfl | ⟨r, hr, n, hn, rfl⟩
  · exact ⟨c, List.mem_singleton_self c, fun hmem =>
      absurd (lt_of_mem_letterPoints _ hmem) (Nat.not_lt.2 hc)⟩
  · exact ⟨Char.ofNat 0x307, by decide, by decide⟩
  · exact ⟨Char.ofNat 0x3C2, by decide, by decide⟩
  · exact ⟨_, List.mem_singleton_self _, not_mem_of_smalls (by decide) (by decide +kernel) hr hn⟩

/-- A word of such letters is the small form of a text exactly when it is so letter by letter. -/
theorem eq_iff_of_lowered {w w' x : Text} (h : Lowered w w')
    (hx : ∀ c ∈ x, c.toNat ∈ letterPoints) : w' = x ↔ w.map Char.toLower = x := by
  induction h generalizing x with
  | nil => rfl
  | @cons c s t t' hc _ ih =>
    by_cases hascii : c.toNat < 0x80
    · rw [hc.of_ascii hascii]
      cases x with
      | nil => simp
      | cons d x => simp [ih fun e he => hx e (List.mem_cons_of_mem d he)]
    · have hbeyond := Nat.not_lt.1 hascii
      constructor
      · rintro rfl
        obtain ⟨d, hd, hletter⟩ := exists_not_letter hc hbeyond
        exact absurd (hx d (List.mem_append_left t' hd)) hletter
      · rintro rfl
        have hletter := lt_of_mem_letterPoints _ (hx (Char.toLower c) (by simp))
        rw [toLower_of_lt (by omega)] at hletter
        exact absurd hletter hascii

theorem letter_of_mem_word {k : Clause} : ∀ c ∈ k.word, c.toNat ∈ letterPoints := by
  cases k <;> decide

theorem ofWord?_of_lowered {w w' : Text} (h : Lowered w w') :
    ofWord? w' = ofWord? (w.map Char.toLower) := by
  refine Option.ext fun k => ?_
  rw [ofWord?_eq_some_iff, ofWord?_eq_some_iff, eq_iff_of_lowered h letter_of_mem_word]

/-- The nearest clause of a lower-cased text is found among the words as they are spelled. -/
theorem nearest?_of_forall₂ {ws ws' : List Text} (h : List.Forall₂ Lowered ws ws') :
    nearest? ws' = nearest? (ws.map (List.map Char.toLower)) := by
  have hmap : ws'.map ofWord? = (ws.map (List.map Char.toLower)).map ofWord? := by
    induction h with
    | nil => rfl
    | cons hw _ ih => rw [List.map_cons, List.map_cons, List.map_cons, ih, ofWord?_of_lowered hw]
  have hfind : ∀ vs : List Text, nearest? vs = (vs.map ofWord?).reverse.findSome? id := by
    intro vs
    rw [nearest?, ← List.map_reverse, List.findSome?_map]
    rfl
  rw [hfind, hfind, hmap]

end Clause

/-! ## Words that end with an equals sign -/

/-- A word that ends with an equals sign, quotes and percent signs after it left aside. -/
def Assigns (w : Text) : Prop := ∃ x z, w = x ++ '=' :: z ∧ ∀ c ∈ z, c ∈ ['\'', '"', '%']

theorem Assigns.cons {t : Text} (h : Assigns t) (c : Char) : Assigns (c :: t) := by
  obtain ⟨x, z, rfl, hz⟩ := h
  exact ⟨c :: x, z, rfl, hz⟩

theorem assigns_iff {p : Char → Bool} (hp : ∀ c, p c = true ↔ c ∈ ['\'', '"', '%']) {w : Text} :
    Assigns w ↔ (Text.dropEndWhile p w).getLast? = some '=' := by
  rw [Text.dropEndWhile, List.getLast?_reverse]
  constructor
  · rintro ⟨x, z, rfl, hz⟩
    have hmarks : ∀ c ∈ z.reverse, p c = true := fun c hc => (hp c).2 (hz c (List.mem_reverse.1 hc))
    have hequals : ∀ c ∈ ('=' :: x.reverse).head?, p c = false := by
      rintro c ⟨⟩
      rw [Bool.eq_false_iff, Ne, hp]
      decide
    rw [List.reverse_append, List.reverse_cons, List.append_assoc, List.singleton_append,
      (Text.span_append hmarks hequals).2]
    rfl
  · intro h
    obtain ⟨r, hr⟩ := List.head?_eq_some_iff.1 h
    refine ⟨r.reverse, (w.reverse.takeWhile p).reverse, ?_, fun c hc => ?_⟩
    · have hsplit := congrArg List.reverse
        (List.takeWhile_append_dropWhile (p := p) (l := w.reverse))
      rw [hr, List.reverse_reverse] at hsplit
      simpa using hsplit.symm
    · exact (hp c).1 (List.mem_takeWhile_imp (List.mem_reverse.1 hc))

theorem endsInEquals_iff {ws : List Text} :
    endsInEquals ws = true ↔ ∃ w, ws.getLast? = some w ∧ Assigns w := by
  unfold endsInEquals
  cases ws.getLast? with
  | none => simp
  | some w =>
    have hmarks : ∀ c : Char, (c == '\'' || c == '"' || c == '%') = true ↔
        c ∈ ['\'', '"', '%'] := by simp [or_assoc]
    simp only [Option.some.injEq, exists_eq_left', beq_iff_eq, assigns_iff hmarks]

/-- Lower-casing neither takes the equals sign from the end of a word nor puts one there. -/
theorem assigns_iff_of_lowered {w w' : Text} (h : Text.Lowered w w') : Assigns w' ↔ Assigns w := by
  have hinert : ∀ c ∈ ['=', '\'', '"', '%'], c.toNat ∈ Text.inertPoints := by decide
  constructor
  · intro hassigns
    induction h with
    | nil => exact hassigns
    | @cons c s t t' hc ht ih =>
      obtain ⟨x, z, heq, hz⟩ := hassigns
      rcases List.append_eq_append_iff.1 heq with ⟨k, -, rfl⟩ | ⟨k, rfl, hk⟩
      · exact (ih ⟨k, z, rfl, hz⟩).cons c
      · cases k with
        | nil => exact (ih ⟨[], z, hk.symm, hz⟩).cons c
        | cons d k =>
          -- the equals sign comes from the first character, which therefore is one
          obtain ⟨rfl, rfl⟩ := List.cons.inj hk
          have hequals : '=' = c := hc.eq_of_inert (by simp) (hinert '=' (by simp))
          have htail : t' = t := ht.eq_of_inert fun e he =>
            hinert e (List.mem_cons_of_mem _ (hz e (List.mem_append_right k he)))
          rw [← hequals, ← htail]
          exact ⟨[], t', rfl, fun e he => hz e (List.mem_append_right k he)⟩
  · rintro ⟨x, z, rfl, hz⟩
    obtain ⟨x', y', rfl, -, hy⟩ := h.append_inv
    have hkept : y' = '=' :: z := hy.of_inert fun c hc => by
      rcases List.mem_cons.1 hc with rfl | hc
      · exact hinert '=' (by simp)
      · exact hinert c (List.mem_cons_of_mem _ (hz c hc))
    exact ⟨x', z, by rw [hkept], hz⟩

theorem endsInEquals_of_forall₂ {ws ws' : List Text} (h : List.Forall₂ Text.Lowered ws ws') :
    endsInEquals ws' = endsInEquals ws := by
  have hrev := List.forall₂_reverse_iff.2 h
  rw [Bool.eq_iff_iff, endsInEquals_iff, endsInEquals_iff, List.getLast?_eq_head?_reverse,
    List.getLast?_eq_head?_reverse]
  generalize ws.reverse = vs, ws'.reverse = vs' at hrev
  cases hrev with
  | nil => simp
  | cons hw _ => simp [assigns_iff_of_lowered hw]

/-! ## The verdict on a point -/

/-- The verdict, told by the words of the text as they are. -/
theorem positionRisk_eq (p : Text) (after : Option Text) :
    positionRisk p after =
      if endsInEquals (Clause.words p) then .risky
      else Clause.judge after
        (Clause.nearest? ((Clause.words p).map (List.map Char.toLower))) := by
  have hwords := Clause.forall₂_words_lower p
  rw [positionRisk, endsInEquals_of_forall₂ hwords, Clause.nearest?_of_forall₂ hwords]

theorem positionRisk_of_assigns {p w : Text} (hw : (Clause.words p).getLast? = some w)
    (hassigns : Assigns w) (after : Option Text) : positionRisk p after = .risky := by
  rw [positionRisk_eq, if_pos (endsInEquals_iff.2 ⟨w, hw, hassigns⟩)]

namespace Clause

/-- No character of a keyword divides words or stands at their ends. -/
theorem Spells.not_inert {k : Clause} {w : Text} (h : k.Spells w) {c : Char} (hc : c ∈ w) :
    c.toNat ∉ Text.inertPoints := by
  intro hinert
  have hdistinct : ∀ n ∈ Text.inertPoints, n ∉ letterPoints := by decide +kernel
  have hkept : Char.toLower c = c :=
    Text.forall_inert (P := fun c => Char.toLower c = c) (by decide) hinert
  have hmem : c ∈ k.word := h ▸ List.mem_map.2 ⟨c, hc, hkept⟩
  exact hdistinct c.toNat hinert (letter_of_mem_word c hmem)

theorem Spells.words_eq {k : Clause} {w : Text} (h : k.Spells w) : words w = [w] := by
  refine words_of_letters ?_ fun c hc => ?_
  · rintro rfl
    cases k <;> cases h
  · rw [← Bool.not_eq_true]
    exact fun hbreak => h.not_inert hc (inert_of_isBreak hbreak)

theorem Spells.not_assigns {k : Clause} {w : Text} (h : k.Spells w) : ¬ Assigns w := by
  rintro ⟨x, z, rfl, -⟩
  exact h.not_inert (c := '=') (by simp) (by decide)

theorem comparesNext_iff {after : Option Text} :
    comparesNext after = true ↔ ∃ u d s, after = some (u ++ d :: s) ∧
      (∀ c ∈ u, Text.isBlank c = true) ∧ d ∈ ['=', '>', '<'] := by
  constructor
  · intro h
    unfold comparesNext at h
    split at h
    · rename_i d s htrim
      obtain ⟨a, rfl, ha⟩ := Option.map_eq_some_iff.1 htrim
      obtain ⟨u, hu, hblank⟩ := Text.trimStart_append a
      refine ⟨u, d, s, by rw [← ha, hu], hblank, ?_⟩
      simpa [or_assoc] using h
    · cases h
  · rintro ⟨u, d, s, rfl, hu, hd⟩
    have hink : ∀ d ∈ ['=', '>', '<'], Text.isBlank d = false := by decide
    have htrim : Text.trimStart (u ++ d :: s) = d :: s :=
      Text.trimStart_blank_append hu (by rintro c ⟨⟩; exact hink _ hd)
    rw [comparesNext, Option.map_some, htrim]
    simpa [or_assoc] using hd

end Clause

/-- Behind a keyword, and no other after it, the clause gives the verdict. -/
theorem positionRisk_behind {q w t : Text} {k : Clause} (hk : k.Spells w)
    (hnone : ∀ v ∈ Clause.words t, ∀ k : Clause, ¬ k.Spells v)
    (hends : ∀ v, (Clause.words t).getLast? = some v → ¬ Assigns v) (after : Option Text) :
    positionRisk (q ++ ' ' :: w ++ ' ' :: t) after = .ofBool (k.takesValue after) := by
  have hwords : Clause.words (q ++ ' ' :: w ++ ' ' :: t) =
      Clause.words q ++ w :: Clause.words t := by
    rw [Clause.words_append_break (by decide), Clause.words_append_break (by decide), hk.words_eq,
      List.append_assoc, List.singleton_append]
  have hequals : endsInEquals (Clause.words q ++ w :: Clause.words t) = false := by
    rw [← Bool.not_eq_true, endsInEquals_iff]
    rintro ⟨v, hv, hassigns⟩
    rw [List.getLast?_append, List.getLast?_cons, Option.some_or, Option.some.injEq] at hv
    cases hlast : (Clause.words t).getLast? with
    | none =>
      rw [hlast] at hv
      obtain rfl : w = v := hv
      exact hk.not_assigns hassigns
    | some v' =>
      rw [hlast] at hv
      obtain rfl : v' = v := hv
      exact hends v' hlast hassigns
  have hnearest : Clause.nearest? ((Clause.words q ++ w :: Clause.words t).map
      (List.map Char.toLower)) = some k := by
    rw [List.map_append, List.map_cons]
    refine Clause.nearest?_append_cons (Clause.ofWord?_eq_some_iff.2 hk) fun v hv => ?_
    obtain ⟨u, hu, rfl⟩ := List.mem_map.1 hv
    refine Option.eq_none_iff_forall_not_mem.2 fun k' hk' => ?_
    exact hnone u hu k' (Clause.ofWord?_eq_some_iff.1 hk')
  rw [positionRisk_eq, hwords, hequals, hnearest]
  rfl

/-- **The nearest clause alone decides.** Let a keyword, in any letter case, stand between spaces,
and let no word behind it be a keyword and the last of them not end with an equals sign. Whatever
comes before, the point after the text is safe in a clause of names and at risk among `values`; in
`where` and `set` it is safe exactly when a comparison follows it. And a point behind an equals sign
is always at risk; quotes and percent signs between them do not count. -/
theorem nearest_clause_decides :
    (∀ (q w t : Text) (k : Clause) (after : Option Text), k.Spells w →
      (∀ v ∈ Clause.words t, ∀ k : Clause, ¬ k.Spells v) →
      (∀ v, (Clause.words t).getLast? = some v → ¬ Assigns v) →
      (k ∈ [.fromClause, .intoClause, .joinClause, .selectClause, .updateClause] →
        positionRisk (q ++ ' ' :: w ++ ' ' :: t) after = .safe) ∧
      (k = .valuesClause → positionRisk (q ++ ' ' :: w ++ ' ' :: t) after = .risky) ∧
      (k = .whereClause ∨ k = .setClause →
        (positionRisk (q ++ ' ' :: w ++ ' ' :: t) after = .safe ↔
          ∃ u d s, after = some (u ++ d :: s) ∧ (∀ c ∈ u, Text.isBlank c = true) ∧
            d ∈ ['=', '>', '<']))) ∧
    ∀ (p w : Text) (after : Option Text), (Clause.words p).getLast? = some w → Assigns w →
      positionRisk p after = .risky := by
  refine ⟨fun q w t k after hk hnone hends => ?_,
    fun p w after hw hassigns => positionRisk_of_assigns hw hassigns after⟩
  rw [positionRisk_behind hk hnone hends after, ← Clause.comparesNext_iff]
  refine ⟨fun hname => ?_, ?_, ?_⟩
  · have hall : ∀ k ∈ [Clause.fromClause, .intoClause, .joinClause, .selectClause, .updateClause],
        k.takesValue after = false := by simp [Clause.takesValue]
    rw [hall k hname]
    rfl
  · rintro rfl
    rfl
  · have hcompares : ∀ b : Bool, Risk.ofBool (!b) = .safe ↔ b = true := by decide
    rintro (rfl | rfl) <;> exact hcompares _

/-- A keyword in mixed letter case behind other clauses, with words after it that open no clause,
and an equals sign with a quote and a percent sign after it. -/
theorem nearest_clause_decides_mixedCase :
    let before := "INSERT Into T Values (x = ".toList ++ ' ' :: "WheRE".toList ++
      ' ' :: "(Limit a.b OR\nHaving wherever".toList
    positionRisk before (some " \t>= 3".toList) = .safe ∧ positionRisk before none ≠ .safe ∧
      positionRisk "select a From t where b ='%".toList (some "> 1".toList) = .risky := by
  intro before
  have hnone : ∀ v ∈ Clause.words "(Limit a.b OR\nHaving wherever".toList,
      ∀ k : Clause, ¬ k.Spells v := by
    intro v hv k
    revert v
    cases k <;> decide
  have hends : ∀ v, (Clause.words "(Limit a.b OR\nHaving wherever".toList).getLast? = some v →
      ¬ Assigns v := by
    have hlast : (Clause.words "(Limit a.b OR\nHaving wherever".toList).getLast? =
        some "wherever".toList := by decide
    rintro v hv ⟨x, z, rfl, -⟩
    rw [hlast, Option.some.injEq] at hv
    have hequals : '=' ∈ "wherever".toList := hv ▸ by simp
    exact absurd hequals (by decide)
  have hwhere := fun after => (nearest_clause_decides.1 "INSERT Into T Values (x = ".toList
    "WheRE".toList _ .whereClause after (by decide) hnone hends).2.2 (Or.inl rfl)
  refine ⟨(hwhere _).2 ⟨" \t".toList, '>', "= 3".toList, by decide, by decide, by decide⟩,
    fun h => ?_, ?_⟩
  · obtain ⟨u, d, s, hafter, -⟩ := (hwhere none).1 h
    cases hafter
  · exact nearest_clause_decides.2 _ "='%".toList _ (by decide)
      ⟨[], "'%".toList, by decide, by decide⟩

end SqlInjection
