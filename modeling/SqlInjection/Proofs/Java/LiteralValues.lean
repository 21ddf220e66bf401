import Mathlib.Data.List.Chain
import SqlInjection.Proofs.Java.LiteralRules
import SqlInjection.Proofs.Text.Cutting

/-!
# Literals and their values

The decoder replaces all escapes in one pass and counts the indentation of text blocks in bytes. The
language replaces unicode escapes first, then strips the lines, then replaces the other escapes.
Both agree on the literals that `decodeLiteral?_of_javaValue?` describes, and differ elsewhere, as
`decodeLiteral?_pairs_and_wide_blanks` shows.

* `unescapeFrom_plain_eq`: one pass is enough when a unicode escape stands for a character that is
  no backslash and no quote (`Input.isInert`), and for no digit of an octal escape
  (`OctalsWritten`);
* `sourceLines_eq`: the lines of a text are read one by one, without the returns at their ends;
* `stripIndent?_eq`: bytes may be counted for characters when as many blanks at the front of two
  lines have as many bytes (`EvenlyIndented`).
-/

namespace SqlInjection.Java

open Text

/-! ## Octal escapes -/

/-- What is read first of a text. -/
def firstInput? (s : InputState) : Text → Option Input
  | [] => none
  | c :: t => (s.step? (fun _ => true) c).bind fun (xs, s') => xs.head?.or (firstInput? s' t)

/-- Whether an octal escape that may have `most` more digits goes on, behind those that are written,
with a digit that a unicode escape stands for. -/
def octalGoesOn : Nat → Text → Bool
  | 0, _ => false
  | _ + 1, [] => false
  | most + 1, c :: t =>
    if isOctal c then octalGoesOn most t else (firstInput? .plain (c :: t)).any Input.isOctalDigit

/-- Whether no octal escape goes on with a unicode escape. The text may stand behind a backslash
that an even number of backslashes stands before (`escaped`). -/
def octalsWritten (escaped : Bool) : Text → Bool
  | [] => true
  | c :: t => !(escaped && isOctal c && octalGoesOn (if c ≤ '3' then 2 else 1) t) &&
      octalsWritten (!escaped && c == '\\') t

/-- The digits of all octal escapes in a text are written as they are. -/
def OctalsWritten (t : Text) : Prop := octalsWritten false t = true

instance (t : Text) : Decidable (OctalsWritten t) := inferInstanceAs (Decidable (_ = true))

section Octals

variable {allowed : Input → Bool} {s : InputState} {x : Input} {l r : Text} {most : Nat}
  {escaped : Bool}

theorem firstInput?_cons {c : Char} {t : Text} : firstInput? s (c :: t) = some x ↔
    ∃ xs s', s.step? (fun _ => true) c = some (xs, s') ∧
      xs.head?.or (firstInput? s' t) = some x := by
  rw [firstInput?, Option.bind_eq_some_iff, Prod.exists]

/-- A digit that a source starts with, once it is read, is what is read first. -/
theorem firstInput?_of_inputFrom? {t : Text} {zs : List Input}
    (h : inputFrom? allowed s t = some (x :: zs)) (hx : x.isOctalDigit = true) :
    firstInput? s t = some x := by
  induction t generalizing s with
  | nil =>
    cases s with
    | plain => cases h
    | backslash =>
      obtain ⟨rfl, -⟩ := List.cons.inj (Option.some.inj h)
      cases hx
    | escape => cases h
  | cons c t ih =>
    obtain ⟨xs, s', ys, hstep, hys, heq⟩ := inputFrom?_cons.1 h
    refine firstInput?_cons.2 ⟨xs, s', InputState.step?_mono hstep, ?_⟩
    cases xs with
    | nil => exact ih (heq ▸ hys)
    | cons y xs => rw [(List.cons.inj heq).1, List.head?_cons, Option.some_or]

theorem firstInput?_append (h : firstInput? s l = some x) (r : Text) :
    firstInput? s (l ++ r) = some x := by
  induction l generalizing s with
  | nil => cases h
  | cons c l ih =>
    obtain ⟨xs, s', hstep, hfirst⟩ := firstInput?_cons.1 h
    refine firstInput?_cons.2 ⟨xs, s', hstep, ?_⟩
    cases xs with
    | nil => exact ih hfirst
    | cons y xs => exact hfirst

/-- A digit that is read first stands in the first line. -/
theorem firstInput?_feed (h : firstInput? s (l ++ '\n' :: r) = some x)
    (hx : x.isOctalDigit = true) : firstInput? s l = some x := by
  induction l generalizing s with
  | nil =>
    obtain ⟨xs, s', hstep, hfirst⟩ := firstInput?_cons.1 h
    have hends : EndsEscape '\n' := by refine ⟨?_, ?_, ?_⟩ <;> decide
    rw [InputState.step?_of_endsEscape hends] at hstep
    obtain ⟨ys, hys, heq⟩ := Option.map_eq_some_iff.1 hstep
    obtain ⟨rfl, rfl⟩ := Prod.mk.inj heq
    cases s with
    | plain | backslash =>
      obtain rfl := Option.some.inj hys
      obtain rfl := Option.some.inj hfirst
      cases hx
    | escape => cases hys
  | cons c l ih =>
    obtain ⟨xs, s', hstep, hfirst⟩ := firstInput?_cons.1 h
    refine firstInput?_cons.2 ⟨xs, s', hstep, ?_⟩
    cases xs with
    | nil => exact ih hfirst
    | cons y xs => exact hfirst

theorem octalGoesOn_append (h : octalGoesOn most l = true) (r : Text) :
    octalGoesOn most (l ++ r) = true := by
  induction most generalizing l with
  | zero => cases h
  | succ most ih =>
    cases l with
    | nil => cases h
    | cons c l =>
      rw [octalGoesOn] at h
      rw [List.cons_append, octalGoesOn]
      split at h
      · next hc => rw [if_pos hc, ih h]
      · next hc =>
        obtain ⟨x, hfirst, hx⟩ := (Option.any_eq_true _ _).1 h
        rw [if_neg hc, ← List.cons_append, firstInput?_append hfirst]
        exact hx

/-- An octal escape ends with the line. -/
theorem octalGoesOn_feed (most : Nat) (l r : Text) :
    octalGoesOn most (l ++ '\n' :: r) = octalGoesOn most l := by
  refine Bool.eq_iff_iff.2 ⟨fun h => ?_, fun h => octalGoesOn_append h _⟩
  induction most generalizing l with
  | zero => cases h
  | succ most ih =>
    cases l with
    | nil => cases h
    | cons c l =>
      rw [List.cons_append, octalGoesOn] at h
      rw [octalGoesOn]
      split at h
      · next hc => rw [if_pos hc, ih l h]
      · next hc =>
        obtain ⟨x, hfirst, hx⟩ := (Option.any_eq_true _ _).1 h
        rw [if_neg hc, firstInput?_feed hfirst hx]
        exact hx

theorem octalsWritten_cons {c : Char} {t : Text} : octalsWritten escaped (c :: t) = true ↔
    (escaped = true → isOctal c = true → octalGoesOn (if c ≤ '3' then 2 else 1) t = false) ∧
      octalsWritten (!escaped && c == '\\') t = true := by
  rw [octalsWritten, Bool.and_eq_true_iff, Bool.not_eq_true', ← Bool.not_eq_true,
    Bool.and_eq_true_iff, Bool.and_eq_true_iff, not_and, and_imp, Bool.not_eq_true]

theorem octalsWritten_of_append (h : octalsWritten escaped (l ++ r) = true) :
    octalsWritten escaped l = true := by
  induction l generalizing escaped with
  | nil => rfl
  | cons c l ih =>
    obtain ⟨hoctal, hrest⟩ := octalsWritten_cons.1 h
    refine octalsWritten_cons.2 ⟨fun hescaped hc => ?_, ih hrest⟩
    rw [← Bool.not_eq_true]
    intro hgoes
    cases (octalGoesOn_append hgoes r).symm.trans (hoctal hescaped hc)

theorem OctalsWritten.tail {c : Char} {t : Text} (h : OctalsWritten (c :: t)) (hc : c ≠ '\\') :
    OctalsWritten t := by
  have hrest := (octalsWritten_cons.1 h).2
  rwa [beq_eq_false_iff_ne.2 hc, Bool.and_false] at hrest

/-- No octal escape begins in a text without a backslash. -/
theorem OctalsWritten.of_append_right (h : OctalsWritten (l ++ r)) (hl : '\\' ∉ l) :
    OctalsWritten r := by
  induction l with
  | nil => exact h
  | cons c l ih =>
    rw [List.mem_cons, not_or] at hl
    exact ih (h.tail (Ne.symm hl.1)) hl.2

/-- The octal escapes of a text are those of its lines. -/
theorem octalsWritten_feed : octalsWritten escaped (l ++ '\n' :: r) = true ↔
    octalsWritten escaped l = true ∧ OctalsWritten r := by
  induction l generalizing escaped with
  | nil =>
    have hfeed : ('\n' == '\\') = false := by decide
    rw [List.nil_append, octalsWritten_cons, hfeed, Bool.and_false]
    simp [OctalsWritten, octalsWritten, show isOctal '\n' = false by decide]
  | cons c l ih =>
    rw [List.cons_append, octalsWritten_cons, octalsWritten_cons, octalGoesOn_feed, ih, and_assoc]

theorem octalsWritten_join {lines : List Text} :
    OctalsWritten (join ['\n'] lines) ↔ ∀ line ∈ lines, OctalsWritten line := by
  induction lines with
  | nil => simp [join, OctalsWritten, octalsWritten]
  | cons line lines ih =>
    cases lines with
    | nil => simp [join]
    | cons next lines =>
      rw [join, List.append_assoc, List.singleton_append, OctalsWritten, octalsWritten_feed, ih]
      · exact (List.forall_mem_cons (p := OctalsWritten)).symm
      · simp

end Octals

/-! ## Escape sequences -/

/-- What a unicode escape may stand for without playing another part in a literal, digits of octal
escapes aside: a character that is no backslash and no quote. -/
def Input.isInert : Input → Bool
  | .char c => c != '\\' && c != '"'
  | .half _ => false

theorem hexFrom?_concat (digits : Text) (c : Char) (n : Nat) :
    hexFrom? n (digits ++ [c]) = (hexFrom? n digits).bind fun m =>
      (hexDigit? c).map fun d => 16 * m + d := by
  induction digits generalizing n with
  | nil => simp only [List.nil_append, hexFrom?]; cases hexDigit? c <;> rfl
  | cons d digits ih =>
    simp only [List.cons_append, hexFrom?]
    cases hexDigit? d with
    | none => rfl
    | some d => exact ih _

theorem hexValue?_of_hexFrom? {digits : Text} {n : Nat} (hne : digits ≠ [])
    (h : hexFrom? 0 digits = some n) : hexValue? digits = some n := by
  cases digits with
  | nil => exact absurd rfl hne
  | cons c digits =>
    have hc : c ≠ '+' := by
      rintro rfl
      cases h
    rw [← h]
    simp [hexValue?, hc]

theorem ne_backslash_of_hexDigit? {c : Char} {n : Nat} (h : hexDigit? c = some n) : c ≠ '\\' := by
  rintro rfl
  cases h

/-- The digits of a unicode escape are read to the character that it stands for. -/
theorem unescapeFrom_unicode {allowed : Input → Bool} {digits t : Text} {code : Nat}
    {ys : List Input} (hcode : hexFrom? 0 digits = some code) (hlength : digits.length ≤ 3)
    (h : inputFrom? allowed (.escape code digits.length) t = some ys) :
    ∃ x r zs, ys = x :: zs ∧ allowed x = true ∧ r.length < t.length ∧
      (OctalsWritten t → OctalsWritten r) ∧ inputFrom? allowed .plain r = some zs ∧
      ∀ c, x = .char c → unescapeFrom (.unicode digits) t = c :: unescapeFrom .plain r := by
  induction t generalizing digits code ys with
  | nil => cases h
  | cons c t ih =>
    obtain ⟨xs, s', zs, hstep, hzs, rfl⟩ := inputFrom?_cons.1 h
    rcases InputState.step?_escape.1 hstep with ⟨⟨hzero, rfl⟩, heq⟩ |
      ⟨hu, d, hd, ⟨hdigits, heq⟩ | ⟨hdigits, hallowed, heq⟩⟩ <;>
      obtain ⟨rfl, rfl⟩ := Prod.mk.inj heq
    · obtain rfl := List.length_eq_zero_iff.1 hzero
      obtain ⟨x, r, ws, rfl, hallowed, hlt, hwritten, hr, hread⟩ :=
        ih (show hexFrom? 0 [] = some 0 from rfl) (Nat.zero_le 3) hzs
      refine ⟨x, r, ws, rfl, hallowed, Nat.lt_succ_of_lt hlt,
        fun h => hwritten (h.tail (by decide)), hr, fun c hc => ?_⟩
      rw [← hread c hc]
      rfl
    · have hcode' : hexFrom? 0 (digits ++ [c]) = some (16 * code + d) := by
        rw [hexFrom?_concat, hcode, hd]
        rfl
      obtain ⟨x, r, ws, rfl, hallowed, hlt, hwritten, hr, hread⟩ := ih hcode'
        (by simp; omega) (by simpa using hzs)
      refine ⟨x, r, ws, rfl, hallowed, Nat.lt_succ_of_lt hlt,
        fun h => hwritten (h.tail (ne_backslash_of_hexDigit? hd)), hr, fun c' hc => ?_⟩
      rw [← hread c' hc, unescapeFrom, EscapeState.step, if_neg (by simpa using hu),
        if_neg (by omega)]
      rfl
    · have hcode' : hexFrom? 0 (digits ++ [c]) = some (16 * code + d) := by
        rw [hexFrom?_concat, hcode, hd]
        rfl
      refine ⟨_, t, zs, rfl, hallowed, Nat.lt_succ_self _,
        fun h => h.tail (ne_backslash_of_hexDigit? hd), hzs, fun c' hc => ?_⟩
      have hchar : unicodeChar (digits ++ [c]) = [c'] := by
        unfold Input.ofCode at hc
        split at hc
        · next hvalid =>
          rw [unicodeChar, hexValue?_of_hexFrom? (by simp) hcode', Option.bind_some, charOfCode?,
            if_pos hvalid, Input.char.inj hc]
        · cases hc
      rw [unescapeFrom, EscapeState.step, if_neg (by simpa using hu), if_pos (by omega), hchar]
      rfl

theorem interpretFrom?_skip {k : Nat} {xs vs : List Input} (h : interpretFrom? k xs = some vs) :
    interpretFrom? 0 (xs.drop k) = some vs := by
  induction k generalizing xs with
  | zero => exact h
  | succ k ih =>
    cases xs with
    | nil => cases h
    | cons x xs => exact ih h

/-- The digits that an octal escape goes on with are those that are written there. -/
theorem octalFront_inputFrom? {allowed : Input → Bool} {t : Text} {ys : List Input}
    (h : inputFrom? allowed .plain t = some ys) {most : Nat} (hends : octalGoesOn most t = false) :
    (ys.take most).takeWhile Input.isOctalDigit = (octalFront most t).map .char ∧
      inputFrom? allowed .plain (t.drop (octalFront most t).length) =
        some (ys.drop (octalFront most t).length) := by
  induction most generalizing t ys with
  | zero => exact ⟨rfl, h⟩
  | succ most ih =>
    cases t with
    | nil =>
      obtain rfl := Option.some.inj h
      exact ⟨rfl, rfl⟩
    | cons c t =>
      rw [octalGoesOn] at hends
      split at hends
      · next hc =>
        have hback : c ≠ '\\' := by
          rintro rfl
          cases hc
        obtain ⟨zs, hzs, rfl⟩ := (inputFrom?_plain hback).1 h
        obtain ⟨hfront, hrest⟩ := ih hzs hends
        have hdigits : octalFront (most + 1) (c :: t) = c :: octalFront most t := by
          rw [octalFront, List.take_succ_cons, List.takeWhile_cons_of_pos hc, octalFront]
        rw [hdigits, List.take_succ_cons,
          List.takeWhile_cons_of_pos (show Input.isOctalDigit (.char c) = true from hc), hfront]
        exact ⟨rfl, hrest⟩
      · next hc =>
        have hdigits : octalFront (most + 1) (c :: t) = [] := by
          rw [octalFront, List.take_succ_cons, List.takeWhile_cons_of_neg hc]
        rw [hdigits]
        refine ⟨?_, h⟩
        cases ys with
        | nil => rfl
        | cons y ys =>
          rw [List.take_succ_cons]
          refine List.takeWhile_cons_of_neg fun hy => ?_
          rw [firstInput?_of_inputFrom? h hy, Option.any_some, hy] at hends
          cases hends

theorem OctalsWritten.drop_octalFront {t : Text} (h : OctalsWritten t) (most : Nat) :
    OctalsWritten (t.drop (octalFront most t).length) := by
  have hprefix : octalFront most t <+: t :=
    (List.takeWhile_prefix isOctal).trans (List.take_prefix most t)
  rw [← List.prefix_iff_eq_append.1 hprefix] at h
  refine h.of_append_right fun hback => ?_
  cases List.mem_takeWhile_imp hback

theorem octalFrom_eq (n : Nat) (digits : Text) :
    (digits.map Input.char).foldl (fun n d => 8 * n + d.digit) n = octalFrom n digits := by
  rw [List.foldl_map]
  rfl

/-- An escape sequence is read as the language says, and the rest behind it. -/
theorem unescapeFrom_sequence {allowed : Input → Bool} {d : Char} {r : Text}
    {ys value : List Input} {length : Nat} (hu : d ≠ 'u')
    (hwritten : octalsWritten true (d :: r) = true)
    (hys : inputFrom? allowed .plain r = some ys)
    (h : escapeSequence? (.char d :: ys) = some (value, length)) :
    ∃ w n, value = w.map .char ∧ length = n + 1 ∧ OctalsWritten (r.drop n) ∧
      inputFrom? allowed .plain (r.drop n) = some (ys.drop n) ∧
      unescapeFrom .escaped (d :: r) = w ++ unescapeFrom .plain (r.drop n) := by
  obtain ⟨hends, hwritten⟩ := octalsWritten_cons.1 hwritten
  simp only [escapeSequence?] at h
  rw [unescapeFrom, EscapeState.step, if_neg hu]
  split at h
  · next hoctal =>
    obtain ⟨rfl, rfl⟩ := Prod.mk.inj (Option.some.inj h)
    obtain ⟨hdigits, hdrop⟩ := octalFront_inputFrom? hys (hends rfl hoctal)
    rw [hdigits, octalFrom_eq, List.length_map, if_pos hoctal]
    refine ⟨[Char.ofNat (octalFrom _ (octalFront _ r))], _, rfl, Nat.add_comm _ _,
      OctalsWritten.drop_octalFront hwritten _, hdrop, ?_⟩
    exact unescapeFrom_octal _ _ r
  · next hoctal =>
    rw [if_neg hoctal]
    split at h
    · next hfeed =>
      subst hfeed
      obtain ⟨rfl, rfl⟩ := Prod.mk.inj (Option.some.inj h)
      exact ⟨[], 0, rfl, rfl, hwritten, hys, rfl⟩
    · obtain ⟨e, hnamed, heq⟩ := Option.map_eq_some_iff.1 h
      obtain ⟨rfl, rfl⟩ := Prod.mk.inj heq
      obtain ⟨-, -, hvalue⟩ := escapeValue_of_namedEscape? hnamed
      exact ⟨[e], 0, rfl, rfl, hwritten, hys, by rw [hvalue]; rfl⟩

theorem paired?_append (w : Text) (xs : List Input) :
    paired? (w.map .char ++ xs) = (paired? xs).map (w ++ ·) := by
  induction w with
  | nil => simp
  | cons c w ih =>
    rw [List.map_cons, List.cons_append, paired?, ih, Option.map_map]
    rfl

/-- **Escape sequences are read as the language says**, when each unicode escape stands for a
character that plays no other part in a literal. -/
theorem unescapeFrom_plain_eq {allowed : Input → Bool}
    (hinert : ∀ x, allowed x = true → x.isInert = true) {t : Text} {ys vs : List Input} {v : Text}
    (hwritten : OctalsWritten t) (h : inputFrom? allowed .plain t = some ys)
    (hvs : interpretFrom? 0 ys = some vs) (hv : paired? vs = some v) :
    unescapeFrom .plain t = v := by
  induction hlength : t.length using Nat.strongRecOn generalizing t ys vs v with
  | ind k ih =>
    subst hlength
    -- what stands for itself is followed by what the rest stands for
    have hself : ∀ {c : Char} {r : Text} {zs : List Input}, r.length < t.length → c ≠ '\\' →
        OctalsWritten r → inputFrom? allowed .plain r = some zs → ys = .char c :: zs →
        c :: unescapeFrom .plain r = v := by
      rintro c r zs hlt hc hr hzs rfl
      obtain ⟨ws, hws, rfl⟩ := Option.map_eq_some_iff.1
        (show (interpretFrom? 0 zs).map _ = some vs by simpa [interpretFrom?, hc] using hvs)
      obtain ⟨w, hw, rfl⟩ := Option.map_eq_some_iff.1 (show (paired? ws).map _ = some v from hv)
      rw [ih _ hlt hr hzs hws hw rfl]
    cases t with
    | nil =>
      obtain rfl := Option.some.inj h
      obtain rfl := Option.some.inj hvs
      exact Option.some.inj hv
    | cons c t =>
      by_cases hc : c = '\\'
      · subst hc
        rcases inputFrom?_backslash h with ⟨-, rfl⟩ | ⟨d, r, zs, rfl, hu, hzs, rfl⟩ |
          ⟨r, rfl, hescape⟩
        · cases hvs
        · obtain ⟨⟨value, length⟩, hsequence, hvs⟩ := Option.bind_eq_some_iff.1
            (show (escapeSequence? (.char d :: zs)).bind _ = some vs from hvs)
          obtain ⟨ws, hws, rfl⟩ := Option.map_eq_some_iff.1 hvs
          obtain ⟨w, n, rfl, rfl, hdropped, hrest, hread⟩ :=
            unescapeFrom_sequence hu (octalsWritten_cons.1 hwritten).2 hzs hsequence
          rw [paired?_append] at hv
          obtain ⟨w', hw', rfl⟩ := Option.map_eq_some_iff.1 hv
          have hlt : (r.drop n).length < ('\\' :: d :: r).length := by
            simp only [List.length_drop, List.length_cons]
            omega
          rw [← ih _ hlt hdropped hrest (interpretFrom?_skip hws) hw' rfl, ← hread]
          rfl
        · obtain ⟨x, r', zs, rfl, hallowed, hlt, hkept, hr', hread⟩ :=
            unescapeFrom_unicode (show hexFrom? 0 [] = some 0 from rfl) (Nat.zero_le 3) hescape
          obtain ⟨c, rfl, hc⟩ : ∃ c, x = .char c ∧ c ≠ '\\' := by
            have := hinert x hallowed
            cases x with
            | char c => exact ⟨c, rfl, by rintro rfl; cases this⟩
            | half code => cases this
          have hrest := (octalsWritten_cons.1 (octalsWritten_cons.1 hwritten).2).2
          rw [← hself (by simp only [List.length_cons]; omega) hc (hkept hrest) hr' rfl,
            ← hread c rfl]
          rfl
      · obtain ⟨zs, hzs, rfl⟩ := (inputFrom?_plain hc).1 h
        rw [← hself (Nat.lt_succ_self _) hc (hwritten.tail hc) hzs rfl, unescapeFrom,
          EscapeState.step, if_neg hc]
        rfl

/-! ## White space -/

theorem endsEscape_of_isJavaSpace {c : Char} (h : isJavaSpace c = true) : EndsEscape c := by
  refine ⟨(by rintro rfl; cases h), (by rintro rfl; cases h), ?_⟩
  simp only [isJavaSpace, Bool.or_eq_true, Bool.and_eq_true, decide_eq_true_eq, beq_iff_eq] at h
  have hval : c.toNat = c.val.toNat := rfl
  simp only [hexDigit?, Char.isDigit, Char.le_def, UInt32.le_iff_toNat_le, ge_iff_le, hval,
    Bool.and_eq_true, decide_eq_true_eq] at h ⊢
  rw [if_neg, if_neg, if_neg]
  all_goals
    rintro ⟨hlow, hhigh⟩
    simp at hlow hhigh
    omega

/-! ## Lines -/

/-- A line without the return at its end. -/
def withoutReturn (line : Text) : Text := dropEndWhile (· == '\r') line

theorem withoutReturn_of_not_mem {l : Text} (h : '\r' ∉ l) : withoutReturn l = l := by
  rw [withoutReturn, dropEndWhile, List.dropWhile_eq_self_iff.2, List.reverse_reverse]
  intro hpos hreturn
  refine h (List.mem_reverse.1 ?_)
  rw [← beq_iff_eq.1 hreturn]
  exact List.getElem_mem hpos

theorem withoutReturn_concat {l : Text} (h : '\r' ∉ l) : withoutReturn (l ++ ['\r']) = l := by
  have hdrop : withoutReturn (l ++ ['\r']) = withoutReturn l := by
    simp [withoutReturn, dropEndWhile]
  rw [hdrop, withoutReturn_of_not_mem h]

/-- The lines of a text, without the returns at their ends. -/
def textLines (t : Text) : List Text := (splitOn '\n' t).map withoutReturn

/-- Whether the second of two neighbours may follow the first: behind a return is a line feed. -/
def FeedAfterReturn (a b : Char) : Prop := a = '\r' → b = '\n'

instance (a b : Char) : Decidable (FeedAfterReturn a b) := inferInstanceAs (Decidable (_ → _))

/-- A return stands at the end of a line only, before a line feed. -/
theorem return_cases {l : Text} {d : Char} (hfeed : '\n' ∉ l)
    (h : (l ++ [d]).IsChain FeedAfterReturn) :
    '\r' ∉ l ∨ ∃ k, l = k ++ ['\r'] ∧ '\r' ∉ k ∧ d = '\n' := by
  by_cases hmem : '\r' ∈ l
  · refine Or.inr ?_
    obtain ⟨k, r, rfl, hk⟩ := List.eq_append_cons_of_mem hmem
    cases r with
    | nil =>
      rw [List.append_assoc, List.singleton_append, List.isChain_append_cons_cons] at h
      exact ⟨k, rfl, hk, h.2.1 rfl⟩
    | cons b r =>
      rw [List.append_assoc, List.cons_append, List.cons_append,
        List.isChain_append_cons_cons] at h
      rw [h.2.1 rfl] at hfeed
      simp at hfeed
  · exact Or.inl hmem

section Lines

variable {allowed : Input → Bool}

theorem sourceLines_letters {a b line : List Input} {lines : List (List Input)}
    (ha : ∀ x ∈ a, x ≠ .char '\r' ∧ x ≠ .char '\n') (hb : sourceLines b = line :: lines) :
    sourceLines (a ++ b) = (a ++ line) :: lines := by
  induction a with
  | nil => exact hb
  | cons x a ih =>
    obtain ⟨hreturn, hfeed⟩ := ha x List.mem_cons_self
    rw [List.cons_append, sourceLines, if_neg (fun h => hreturn h.1),
      if_neg (fun h => h.elim hreturn hfeed), ih fun y hy => ha y (List.mem_cons_of_mem x hy)]
    rfl

/-- What a line is read as. -/
def readLine (allowed : Input → Bool) (line : Text) : List Input :=
  (inputFrom? allowed .plain line).getD []

theorem written_of_isSpace (hspace : ∀ x, allowed x = true → x.isSpace = false) {x : Input}
    (hx : x.isSpace = true) : allowed x = false ∧ x ≠ .char '\\' := by
  refine ⟨?_, by rintro rfl; cases hx⟩
  rw [← Bool.not_eq_true]
  intro hallowed
  rw [hspace x hallowed] at hx
  cases hx

/-- White space is read where it is written only. -/
theorem not_mem_inputFrom? (hspace : ∀ x, allowed x = true → x.isSpace = false) {t : Text}
    {xs : List Input} (h : inputFrom? allowed .plain t = some xs) {c : Char}
    (hc : isJavaSpace c = true) (ht : c ∉ t) : Input.char c ∉ xs := by
  intro hmem
  obtain ⟨hnot, hback⟩ := written_of_isSpace hspace (show Input.isSpace (.char c) = true from hc)
  rcases mem_inputFrom? h hmem with heq | hallowed | ⟨d, hd, heq⟩
  · exact hback heq
  · rw [hnot] at hallowed
    cases hallowed
  · obtain rfl := Input.char.inj heq
    exact ht hd

theorem letters_of_inputFrom? (hspace : ∀ x, allowed x = true → x.isSpace = false) {t : Text}
    {xs : List Input} (h : inputFrom? allowed .plain t = some xs) (hreturn : '\r' ∉ t)
    (hfeed : '\n' ∉ t) : ∀ x ∈ xs, x ≠ .char '\r' ∧ x ≠ .char '\n' := by
  intro x hx
  constructor
  · rintro rfl
    exact not_mem_inputFrom? hspace h (by decide) hreturn hx
  · rintro rfl
    exact not_mem_inputFrom? hspace h (by decide) hfeed hx

/-- The first line of a text is read without the return at its end. -/
theorem sourceLines_cons (hspace : ∀ x, allowed x = true → x.isSpace = false) {l : Text}
    {a : List Input} (ha : inputFrom? allowed .plain l = some a) (hfeed : '\n' ∉ l)
    (hreturns : (l ++ ['\n']).IsChain FeedAfterReturn) (b : List Input) :
    ∃ ys, inputFrom? allowed .plain (withoutReturn l) = some ys ∧
      sourceLines (a ++ .char '\n' :: b) = ys :: sourceLines b := by
  have hfeeds : sourceLines (.char '\n' :: b) = [] :: sourceLines b := by
    rw [sourceLines, if_neg (by simp), if_pos (Or.inr rfl)]
  rcases return_cases hfeed hreturns with hreturn | ⟨k, rfl, hreturn, -⟩
  · refine ⟨a, by rwa [withoutReturn_of_not_mem hreturn], ?_⟩
    rw [sourceLines_letters (letters_of_inputFrom? hspace ha hreturn hfeed) hfeeds, List.append_nil]
  · obtain ⟨ys, zs, hys, hzs, rfl⟩ :=
      (inputFrom?_append (endsEscape_of_isJavaSpace (by decide))).1 ha
    obtain rfl := Option.some.inj hzs
    have hk : '\n' ∉ k := fun h => hfeed (List.mem_append_left _ h)
    have hboth : sourceLines (.char '\r' :: .char '\n' :: b) = [] :: sourceLines b := by
      rw [sourceLines, if_pos ⟨rfl, rfl⟩, hfeeds]
    refine ⟨ys, by rwa [withoutReturn_concat hreturn], ?_⟩
    rw [List.append_assoc, List.cons_append, List.nil_append,
      sourceLines_letters (letters_of_inputFrom? hspace hys hreturn hk) hboth, List.append_nil]

/-- The lines of a text are read one by one. -/
theorem sourceLines_eq (hspace : ∀ x, allowed x = true → x.isSpace = false) {t : Text}
    {xs : List Input} (h : inputFrom? allowed .plain t = some xs) {d : Char} (hd : d ≠ '\n')
    (hreturns : (t ++ [d]).IsChain FeedAfterReturn) :
    sourceLines xs = (textLines t).map (readLine allowed) ∧
      (∀ line ∈ textLines t, inputFrom? allowed .plain line = some (readLine allowed line)) ∧
      ∀ line ∈ (splitOn '\n' t).getLast?, withoutReturn line = line := by
  induction hn : t.length using Nat.strongRecOn generalizing t xs with
  | ind n ih =>
    subst hn
    by_cases hmem : '\n' ∈ t
    · obtain ⟨l, r, rfl, hfeed⟩ := List.eq_append_cons_of_mem hmem
      obtain ⟨a, b, ha, hb, rfl⟩ :=
        (inputFrom?_append (endsEscape_of_isJavaSpace (by decide))).1 h
      rw [List.append_assoc, List.cons_append, List.isChain_split] at hreturns
      obtain ⟨hlines, hread, hlast⟩ := ih r.length (by simp; omega) hb hreturns.2.tail rfl
      obtain ⟨ys, hys, hfirst⟩ := sourceLines_cons hspace ha hfeed hreturns.1 b
      have hsplit := splitOn_append_cons hfeed r
      have hline : readLine allowed (withoutReturn l) = ys := by rw [readLine, hys]; rfl
      rw [textLines, hsplit, List.map_cons, List.map_cons, hline, hfirst, hlines]
      refine ⟨rfl, List.forall_mem_cons.2 ⟨by rw [hline, hys], hread⟩, ?_⟩
      rwa [List.getLast?_cons_of_ne_nil (show splitOn '\n' r ≠ [] from splitBy_ne_nil _ r)]
    · have hreturn : '\r' ∉ t := by
        rcases return_cases hmem hreturns with hreturn | ⟨k, -, -, heq⟩
        · exact hreturn
        · exact absurd heq hd
      have hline : readLine allowed t = xs := by rw [readLine, h]; rfl
      have hone : sourceLines xs = [xs] := by
        have hletters := letters_of_inputFrom? hspace h hreturn hmem
        simpa using sourceLines_letters hletters (show sourceLines [] = [] :: [] from rfl)
      rw [textLines, splitOn_of_not_mem hmem, List.map_singleton, List.map_singleton,
        withoutReturn_of_not_mem hreturn, hline, hone]
      refine ⟨rfl, ?_, ?_⟩
      · intro line hmem
        rw [List.mem_singleton.1 hmem, hline, h]
      · intro line hlast
        obtain rfl := Option.some.inj hlast
        exact withoutReturn_of_not_mem hreturn

end Lines

/-! ## Returns -/

theorem leadingBytes_append {l : Text} (hl : blank l = false) (w : Text) :
    leadingBytes (l ++ w) = leadingBytes l := by
  have hlength : (l.takeWhile isBlank).length ≠ l.length := by
    intro hlength
    rw [← Bool.not_eq_true, blank_iff] at hl
    exact hl ((List.takeWhile_prefix isBlank).eq_of_length hlength)
  rw [leadingBytes, List.takeWhile_append, if_neg hlength]
  rfl

theorem leadingBytes_le (l : Text) : leadingBytes l ≤ byteSize l := by
  have hsplit := congrArg byteSize (List.takeWhile_append_dropWhile (p := isBlank) (l := l))
  rw [byteSize_append] at hsplit
  rw [leadingBytes]
  omega

theorem byteSize_of_returns {w : Text} (hw : ∀ c ∈ w, c = '\r') : byteSize w = w.length := by
  induction w with
  | nil => rfl
  | cons c w ih =>
    have hsize : ('\r').utf8Size = 1 := rfl
    rw [byteSize_cons, hw c List.mem_cons_self, hsize,
      ih fun d hd => hw d (List.mem_cons_of_mem c hd), List.length_cons, Nat.add_comm]

theorem withoutReturn_append (line : Text) :
    ∃ w, line = withoutReturn line ++ w ∧ ∀ c ∈ w, c = '\r' := by
  refine ⟨(line.reverse.takeWhile (· == '\r')).reverse, ?_, fun c hc => ?_⟩
  · rw [withoutReturn, dropEndWhile, ← List.reverse_append, List.takeWhile_append_dropWhile,
      List.reverse_reverse]
  · have := List.mem_takeWhile_imp (List.mem_reverse.1 hc)
    exact beq_iff_eq.1 this

/-- A line is stripped as the line without the return at its end. -/
theorem stripLine?_withoutReturn (indent : Nat) (line : Text) :
    stripLine? indent (withoutReturn line) = stripLine? indent line := by
  obtain ⟨w, hline, hw⟩ := withoutReturn_append line
  generalize withoutReturn line = l at hline
  subst hline
  have hblank : ∀ c ∈ w, isBlank c = true := fun c hc => by rw [hw c hc]; rfl
  -- a cut in front of the returns leaves them at the end
  have hfront : ∀ n ≤ byteSize l, (splitAt? l n).map (fun cut => trimEnd cut.2) =
      (splitAt? (l ++ w) n).map fun cut => trimEnd cut.2 := by
    intro n hn
    rw [splitAt?_append hn, Option.map_map]
    congr 1
    funext cut
    exact (trimEnd_append_blank hblank cut.2).symm
  cases hl : blank l with
  | false =>
    have hle := leadingBytes_le l
    rw [stripLine?, stripLine?, leadingBytes_append hl]
    exact hfront _ (by omega)
  | true =>
    have hall : leadingBytes l = byteSize l := by rw [leadingBytes, blank_iff.1 hl]
    have hall' : leadingBytes (l ++ w) = byteSize l + byteSize w := by
      rw [leadingBytes, blank_iff.1 ((blank_append_blank hblank l).trans hl), byteSize_append]
    rw [stripLine?, stripLine?, hall, hall']
    rcases Nat.le_total indent (byteSize l) with hle | hle
    · rw [Nat.min_eq_left hle, Nat.min_eq_left (by omega)]
      exact hfront _ hle
    · -- behind the blanks of the line there are returns only
      obtain ⟨j, hcut⟩ : ∃ j,
          min indent (byteSize l + byteSize w) = byteSize l + byteSize (w.take j) := by
        have hsize : ∀ k, byteSize (w.take k) = min k (byteSize w) := by
          intro k
          rw [byteSize_of_returns hw,
            byteSize_of_returns fun c hc => hw c (List.mem_of_mem_take hc), List.length_take]
        exact ⟨indent - byteSize l, by rw [hsize]; omega⟩
      have hsplit : splitAt? (l ++ w) (min indent (byteSize l + byteSize w)) =
          some (l ++ w.take j, w.drop j) := by
        rw [splitAt?_eq_some_iff, List.append_assoc, List.take_append_drop, byteSize_append, hcut]
        exact ⟨rfl, rfl⟩
      have hend : splitAt? l (byteSize l) = some (l, []) :=
        splitAt?_eq_some_iff.2 ⟨List.append_nil l, rfl⟩
      have htrim : trimEnd (w.drop j) = [] :=
        trimEnd_of_blank fun c hc => hblank c (List.mem_of_mem_drop hc)
      rw [hsplit, Nat.min_eq_right hle, hend]
      exact congrArg some htrim.symm

/-- The indentation of lines is that of the lines without returns, if the last has none. -/
theorem commonIndent_withoutReturn {lines : List Text}
    (hlast : ∀ line ∈ lines.getLast?, withoutReturn line = line) :
    commonIndent (lines.map withoutReturn) = commonIndent lines := by
  have hblank : ∀ line, blank (withoutReturn line) = blank line := by
    intro line
    obtain ⟨w, hline, hw⟩ := withoutReturn_append line
    conv_rhs => rw [hline]
    exact (blank_append_blank (fun c hc => by rw [hw c hc]; rfl) _).symm
  have hend : (lines.getLast?.map withoutReturn) = lines.getLast? := by
    cases hlines : lines.getLast? with
    | none => rfl
    | some line => rw [Option.map_some, hlast line hlines]
  have hbytes : ∀ line ∈ lines.dropLast.filter fun l => !blank l,
      leadingBytes (withoutReturn line) = leadingBytes line := by
    intro line hmem
    obtain ⟨w, hline, -⟩ := withoutReturn_append line
    have hink : blank (withoutReturn line) = false := by
      rw [hblank]
      simpa using (List.mem_filter.1 hmem).2
    conv_rhs => rw [hline, leadingBytes_append hink]
  have hfilter : ((fun l => !blank l) ∘ withoutReturn) = fun l => !blank l := by
    funext l
    exact congrArg not (hblank l)
  simp only [commonIndent]
  rw [← List.map_dropLast, List.filter_map, hfilter, List.getLast?_map, hend, List.map_append,
    List.map_append, List.map_map, List.map_congr_left (f := leadingBytes ∘ withoutReturn) hbytes]

/-! ## Indentation -/

/-- The number of blanks that a line starts with. -/
def leadingBlanks (line : Text) : Nat := (line.takeWhile isBlank).length

/-- Lines whose indentation may be counted in bytes: the blanks at their ends are white space of the
language, and as many blanks at the front of two lines have as many bytes. -/
structure EvenlyIndented (lines : List Text) : Prop where
  front : ∀ line ∈ lines, line.takeWhile isBlank = line.takeWhile isJavaSpace
  back : ∀ line ∈ lines, line.reverse.takeWhile isBlank = line.reverse.takeWhile isJavaSpace
  widths : ∀ line ∈ lines, ∀ line' ∈ lines, ∀ n ≤ leadingBlanks line, n ≤ leadingBlanks line' →
    byteSize (line.take n) = byteSize (line'.take n)

theorem take_leadingBlanks (line : Text) :
    line.take (leadingBlanks line) = line.takeWhile isBlank :=
  (List.prefix_iff_eq_take.1 (List.takeWhile_prefix isBlank)).symm

theorem leadingBytes_eq (line : Text) :
    leadingBytes line = byteSize (line.take (leadingBlanks line)) := by
  rw [take_leadingBlanks]
  rfl

section Indentation

variable {lines : List Text}

/-- The lines whose indentation counts. -/
def countedLines (lines : List Text) : List Text :=
  lines.dropLast.filter (fun l => !blank l) ++ lines.getLast?.toList

theorem mem_lines_of_mem_countedLines {line : Text} (h : line ∈ countedLines lines) :
    line ∈ lines := by
  rcases List.mem_append.1 h with h | h
  · exact List.dropLast_subset lines (List.mem_filter.1 h).1
  · exact List.mem_of_getLast? (Option.mem_toList.1 h)

theorem mem_countedLines {line : Text} (h : line ∈ lines) (hink : blank line = false) :
    line ∈ countedLines lines := by
  rw [countedLines, List.mem_append, Option.mem_toList]
  rcases List.eq_nil_or_concat' lines with rfl | ⟨front, last, rfl⟩
  · cases h
  · rw [List.dropLast_concat, List.getLast?_concat]
    rcases List.mem_append.1 h with h | h
    · exact Or.inl (List.mem_filter.2 ⟨h, by rw [hink]; rfl⟩)
    · exact Or.inr (by rw [List.mem_singleton.1 h])

theorem countedLines_ne_nil (hne : lines ≠ []) : countedLines lines ≠ [] := by
  rcases List.eq_nil_or_concat' lines with rfl | ⟨front, last, rfl⟩
  · exact absurd rfl hne
  · simp [countedLines]

/-- The indentation in blanks: that of a line that counts, and no line that counts has less. -/
theorem exists_indent (hne : lines ≠ []) :
    ∃ k, ((countedLines lines).map leadingBlanks).min? = some k ∧
      (∃ first ∈ lines, k = leadingBlanks first) ∧
      ∀ line ∈ countedLines lines, k ≤ leadingBlanks line := by
  cases hmin : ((countedLines lines).map leadingBlanks).min? with
  | none =>
    rw [List.min?_eq_none_iff, List.map_eq_nil_iff] at hmin
    exact absurd hmin (countedLines_ne_nil hne)
  | some k =>
    obtain ⟨hmem, hle⟩ := List.min?_eq_some_iff.1 hmin
    obtain ⟨first, hfirst, rfl⟩ := List.mem_map.1 hmem
    exact ⟨_, rfl, ⟨first, mem_lines_of_mem_countedLines hfirst, rfl⟩,
      fun line hline => hle _ (List.mem_map_of_mem hline)⟩

/-- The common indentation in bytes is that of as many blanks as are common to the lines. -/
theorem commonIndent_eq (h : EvenlyIndented lines) {k : Nat}
    (hk : ((countedLines lines).map leadingBlanks).min? = some k) {first : Text}
    (hfirst : first ∈ lines) (hle : k ≤ leadingBlanks first) :
    commonIndent lines = byteSize (first.take k) := by
  obtain ⟨hmem, hleast⟩ := List.min?_eq_some_iff.1 hk
  obtain ⟨least, hleastMem, hleastEq⟩ := List.mem_map.1 hmem
  have hmin : ((countedLines lines).map leadingBytes).min? = some (byteSize (first.take k)) := by
    rw [List.min?_eq_some_iff]
    refine ⟨List.mem_map.2 ⟨least, hleastMem, ?_⟩, fun n hn => ?_⟩
    · rw [leadingBytes_eq, hleastEq]
      exact h.widths least (mem_lines_of_mem_countedLines hleastMem) first hfirst k
        (Nat.le_of_eq hleastEq.symm) hle
    · obtain ⟨line, hline, rfl⟩ := List.mem_map.1 hn
      have hline' := hleast _ (List.mem_map_of_mem hline)
      rw [leadingBytes_eq, h.widths first hfirst line (mem_lines_of_mem_countedLines hline) k hle
        hline']
      exact byteSize_take_le line hline'
  show (((countedLines lines).map leadingBytes).min?).getD 0 = _
  rw [hmin]
  rfl

/-- A line loses the common blanks, or all if it has fewer. -/
theorem stripLine?_eq (h : EvenlyIndented lines) {k : Nat}
    (hk : ((countedLines lines).map leadingBlanks).min? = some k)
    (hfirst : ∃ first ∈ lines, k = leadingBlanks first) {line : Text} (hline : line ∈ lines) :
    stripLine? (commonIndent lines) line =
      some (trimEnd (line.drop (min k (leadingBlanks line)))) := by
  have hcut : min (commonIndent lines) (leadingBytes line) =
      byteSize (line.take (min k (leadingBlanks line))) := by
    rw [leadingBytes_eq]
    rcases Nat.le_total k (leadingBlanks line) with hle | hle
    · rw [commonIndent_eq h hk hline hle, Nat.min_eq_left hle,
        Nat.min_eq_left (byteSize_take_le line hle)]
    · obtain ⟨first, hmem, rfl⟩ := hfirst
      have hsmaller := byteSize_take_le first hle
      rw [commonIndent_eq h hk hmem (Nat.le_refl _), Nat.min_eq_right hle,
        h.widths line hline first hmem _ (Nat.le_refl _) hle, Nat.min_eq_right hsmaller]
  have hsplit : splitAt? line (min (commonIndent lines) (leadingBytes line)) = some
      (line.take (min k (leadingBlanks line)), line.drop (min k (leadingBlanks line))) :=
    splitAt?_eq_some_iff.2 ⟨List.take_append_drop _ _, hcut.symm⟩
  rw [stripLine?, hsplit]
  rfl

end Indentation

section Stripping

variable {allowed : Input → Bool} (hspace : ∀ x, allowed x = true → x.isSpace = false)
include hspace

/-- The white space that a line starts with is read as it is. -/
theorem takeWhile_readLine {line : Text} {ys : List Input}
    (h : inputFrom? allowed .plain line = some ys)
    (hfront : line.takeWhile isBlank = line.takeWhile isJavaSpace) :
    (ys.takeWhile Input.isSpace).length = leadingBlanks line ∧
      ys.all Input.isSpace = blank line ∧
      ∀ n ≤ leadingBlanks line, inputFrom? allowed .plain (line.drop n) = some (ys.drop n) := by
  obtain ⟨htake, hdrop⟩ := takeWhile_inputFrom? (p := isJavaSpace) (fun _ => rfl)
    (fun _ hx => written_of_isSpace hspace hx) h
  rw [← hfront] at htake hdrop
  have hlength : (ys.takeWhile Input.isSpace).length = leadingBlanks line := by
    rw [htake, List.length_map]
    rfl
  refine ⟨hlength, ?_, hdrop⟩
  rw [Bool.eq_iff_iff, List.all_eq_true, ← List.takeWhile_eq_self_iff, blank_iff]
  have hprefix := List.takeWhile_prefix (l := ys) Input.isSpace
  have hrest := hdrop _ (Nat.le_refl _)
  constructor
  · intro hall
    rw [hall] at hlength
    rw [show (line.takeWhile isBlank).length = ys.length from hlength.symm,
      List.drop_length] at hrest
    have hnil := inputFrom?_eq_nil hrest
    rw [hlength] at hnil
    rw [← take_leadingBlanks]
    exact List.take_of_length_le (List.drop_eq_nil_iff.1 hnil)
  · intro hall
    rw [hall, List.drop_length] at hrest
    have hnil := (Option.some.inj hrest).symm
    refine hprefix.eq_of_length (Nat.le_antisymm hprefix.length_le ?_)
    rw [hlength, leadingBlanks, hall]
    exact List.drop_eq_nil_iff.1 hnil

/-- The white space that a line ends with is read as it is. -/
theorem inputFrom?_trimEnd {line : Text} {ys : List Input}
    (h : inputFrom? allowed .plain line = some ys)
    (hback : line.reverse.takeWhile isBlank = line.reverse.takeWhile isJavaSpace) :
    inputFrom? allowed .plain (trimEnd line) =
      some (ys.reverse.dropWhile Input.isSpace).reverse := by
  have hdrop : line.reverse.dropWhile isBlank = line.reverse.dropWhile isJavaSpace := by
    have hboth := (List.takeWhile_append_dropWhile (p := isBlank) (l := line.reverse)).trans
      (List.takeWhile_append_dropWhile (p := isJavaSpace) (l := line.reverse)).symm
    rw [hback] at hboth
    exact List.append_cancel_left hboth
  have hsplit : line = trimEnd line ++ (line.reverse.takeWhile isJavaSpace).reverse := by
    rw [trimEnd, dropEndWhile, hdrop, ← List.reverse_append, List.takeWhile_append_dropWhile,
      List.reverse_reverse]
  have hends : ∀ c ∈ (line.reverse.takeWhile isJavaSpace).reverse, isJavaSpace c = true :=
    fun c hc => List.mem_takeWhile_imp (List.mem_reverse.1 hc)
  rw [hsplit] at h
  obtain ⟨zs, hzs, rfl⟩ :=
    inputFrom?_append_map (fun c hc => endsEscape_of_isJavaSpace (hends c hc)) h
  have hlast : zs.reverse.dropWhile Input.isSpace = zs.reverse := by
    rcases List.eq_nil_or_concat' (trimEnd line) with hnil | ⟨r, c, hconcat⟩
    · rw [hnil] at hzs
      obtain rfl := Option.some.inj hzs
      rfl
    · -- what is read last stands for no white space
      have hc : isJavaSpace c = false := by
        have hhead : (line.reverse.dropWhile isJavaSpace).head? = some c := by
          rw [← hdrop, ← List.reverse_reverse (line.reverse.dropWhile isBlank)]
          show (trimEnd line).reverse.head? = some c
          rw [hconcat, List.reverse_concat, List.head?_cons]
        have hnot := List.head?_dropWhile_not isJavaSpace line.reverse
        rw [hhead] at hnot
        simpa using hnot
      rw [hconcat] at hzs
      obtain ⟨x, hx, hcase⟩ := getLast?_inputFrom? hzs
      have hxspace : ¬ x.isSpace = true := by
        rw [Bool.not_eq_true]
        rcases hcase with rfl | hallowed
        · exact hc
        · exact hspace x hallowed
      obtain ⟨us, rfl⟩ := List.getLast?_eq_some_iff.1 hx
      rw [List.reverse_concat, List.dropWhile_cons_of_neg hxspace]
  rw [hzs, List.reverse_append, List.dropWhile_append_of_pos, hlast, List.reverse_reverse]
  intro x hx
  obtain ⟨c, hc, rfl⟩ := List.mem_map.1 (List.mem_reverse.1 hx)
  exact hends c hc

theorem inputFrom?_stripped {line : Text} {ys : List Input}
    (h : inputFrom? allowed .plain line = some ys)
    (hfront : line.takeWhile isBlank = line.takeWhile isJavaSpace)
    (hback : line.reverse.takeWhile isBlank = line.reverse.takeWhile isJavaSpace) {k : Nat}
    (hk : blank line = false → k ≤ leadingBlanks line) :
    inputFrom? allowed .plain (trimEnd (line.drop (min k (leadingBlanks line)))) =
      some (stripSpace k ys) := by
  obtain ⟨hlength, hall, hdrop⟩ := takeWhile_readLine hspace h hfront
  rcases Nat.lt_or_ge (leadingBlanks line) k with hlt | hle
  · -- a line with fewer blanks is blank, and nothing is left of it
    have hblank : blank line = true := by
      rw [← Bool.not_eq_false]
      intro hink
      exact absurd (hk hink) (Nat.not_le_of_lt hlt)
    have hwhole : leadingBlanks line = line.length := by rw [leadingBlanks, blank_iff.1 hblank]
    rw [hblank, List.all_eq_true, ← List.takeWhile_eq_self_iff] at hall
    rw [hall] at hlength
    rw [Nat.min_eq_right (Nat.le_of_lt hlt), hwhole, List.drop_length, stripSpace,
      List.drop_of_length_le (by omega)]
    rfl
  · rw [Nat.min_eq_left hle]
    rw [← List.take_append_drop k line, List.reverse_append] at hback
    exact inputFrom?_trimEnd hspace (hdrop k hle) (takeWhile_eq_of_append hback)

end Stripping

theorem mapM_eq_some_map {α β : Type} {f : α → Option β} {g : α → β} {as : List α}
    (h : ∀ a ∈ as, f a = some (g a)) : as.mapM f = some (as.map g) := by
  induction as with
  | nil => rfl
  | cons a as ih =>
    rw [List.mapM_cons, h a List.mem_cons_self, ih fun b hb => h b (List.mem_cons_of_mem a hb)]
    rfl

/-- Lines that are joined are read one by one. -/
theorem inputFrom?_join {allowed : Input → Bool} {lines : List Text} {f : Text → Text}
    {g : Text → List Input} (hne : lines ≠ [])
    (h : ∀ line ∈ lines, inputFrom? allowed .plain (f line) = some (g line)) :
    inputFrom? allowed .plain (join ['\n'] (lines.map f)) =
      some ([.char '\n'].intercalate (lines.map g)) := by
  induction lines with
  | nil => exact absurd rfl hne
  | cons line lines ih =>
    have hfirst := h line List.mem_cons_self
    cases lines with
    | nil => simpa [join] using hfirst
    | cons next lines =>
      have hrest := ih (by simp) fun l hl => h l (List.mem_cons_of_mem line hl)
      simp only [List.map_cons, List.intercalate_cons_cons] at hrest ⊢
      rw [join, List.append_assoc, List.singleton_append,
        inputFrom?_append (endsEscape_of_isJavaSpace (by decide))]
      · exact ⟨_, _, hfirst, hrest, by simp⟩
      · simp

/-- The indentation of the lines of a text block, counted in what is read. -/
theorem spaceBefore_readLine {allowed : Input → Bool}
    (hspace : ∀ x, allowed x = true → x.isSpace = false) {lines : List Text}
    (hread : ∀ line ∈ lines, inputFrom? allowed .plain line = some (readLine allowed line))
    (h : EvenlyIndented lines) {k : Nat}
    (hk : ((countedLines lines).map leadingBlanks).min? = some k) :
    spaceBefore (lines.map (readLine allowed)) = k := by
  have hfilter : lines.dropLast.filter ((fun l => !l.all Input.isSpace) ∘ readLine allowed) =
      lines.dropLast.filter fun l => !blank l := by
    refine List.filter_congr fun line hline => ?_
    have hmem := List.dropLast_subset lines hline
    exact congrArg not (takeWhile_readLine hspace (hread line hmem) (h.front line hmem)).2.1
  have hcount : ∀ line ∈ countedLines lines,
      ((readLine allowed line).takeWhile Input.isSpace).length = leadingBlanks line := by
    intro line hline
    have hmem := mem_lines_of_mem_countedLines hline
    exact (takeWhile_readLine hspace (hread line hmem) (h.front line hmem)).1
  have hcounted : (lines.map (readLine allowed)).dropLast.filter (fun l => !l.all Input.isSpace) ++
      (lines.map (readLine allowed)).getLast?.toList =
      (countedLines lines).map (readLine allowed) := by
    rw [← List.map_dropLast, List.filter_map, hfilter, List.getLast?_map, countedLines,
      List.map_append]
    cases lines.getLast? <;> rfl
  rw [spaceBefore, hcounted, List.map_map,
    List.map_congr_left (f := _ ∘ readLine allowed) hcount, hk]
  rfl

/-- A line that is stripped keeps its octal escapes. -/
theorem OctalsWritten.stripped {line : Text} (h : OctalsWritten line) (k : Nat) :
    OctalsWritten
      (trimEnd ((withoutReturn line).drop (min k (leadingBlanks (withoutReturn line))))) := by
  obtain ⟨w, hline, -⟩ := withoutReturn_append line
  generalize withoutReturn line = l at hline ⊢
  subst hline
  have hl : OctalsWritten l := octalsWritten_of_append h
  rw [← List.take_append_drop (min k (leadingBlanks l)) l] at hl
  have hdrop : OctalsWritten (l.drop (min k (leadingBlanks l))) := by
    refine hl.of_append_right fun hback => ?_
    have hmem := (List.take_prefix_take_left (Nat.min_le_right k _)).subset hback
    rw [take_leadingBlanks] at hmem
    cases List.mem_takeWhile_imp hmem
  obtain ⟨blanks, htrim, -⟩ := trimEnd_append (l.drop (min k (leadingBlanks l)))
  rw [← htrim] at hdrop
  exact octalsWritten_of_append hdrop

/-- **The lines of a text block are stripped as the language says**, when their indentation may be
counted in bytes. -/
theorem stripIndent?_eq {allowed : Input → Bool}
    (hspace : ∀ x, allowed x = true → x.isSpace = false) {t : Text} {xs : List Input}
    (h : inputFrom? allowed .plain t = some xs) {d : Char} (hd : d ≠ '\n')
    (hreturns : (t ++ [d]).IsChain FeedAfterReturn) (heven : EvenlyIndented (textLines t)) :
    ∃ r, stripIndent? t = some r ∧ (OctalsWritten t → OctalsWritten r) ∧
      inputFrom? allowed .plain r =
        some ([.char '\n'].intercalate (stripLines (sourceLines xs))) := by
  obtain ⟨hlines, hread, hlast⟩ := sourceLines_eq hspace h hd hreturns
  have hne : textLines t ≠ [] := by
    rw [textLines, Ne, List.map_eq_nil_iff]
    exact splitBy_ne_nil _ t
  obtain ⟨k, hk, hfirst, hleast⟩ := exists_indent hne
  have hstrip : ∀ line ∈ splitOn '\n' t, stripLine? (commonIndent (splitOn '\n' t)) line =
      some (trimEnd ((withoutReturn line).drop (min k (leadingBlanks (withoutReturn line))))) := by
    intro line hline
    rw [← commonIndent_withoutReturn hlast, ← stripLine?_withoutReturn]
    exact stripLine?_eq heven hk hfirst (List.mem_map_of_mem hline)
  have hstripped : ∀ line ∈ textLines t, inputFrom? allowed .plain
      (trimEnd (line.drop (min k (leadingBlanks line)))) =
        some (stripSpace k (readLine allowed line)) := by
    intro line hline
    exact inputFrom?_stripped hspace (hread line hline) (heven.front line hline)
      (heven.back line hline) fun hink => hleast line (mem_countedLines hline hink)
  refine ⟨_, by rw [stripIndent?, mapM_eq_some_map hstrip, Option.map_some], fun hwritten => ?_, ?_⟩
  · rw [← join_splitOn '\n' t, octalsWritten_join] at hwritten
    rw [octalsWritten_join, List.forall_mem_map]
    exact fun line hline => (hwritten line hline).stripped k
  have hmap : (splitOn '\n' t).map (fun line => trimEnd
      ((withoutReturn line).drop (min k (leadingBlanks (withoutReturn line))))) =
      (textLines t).map fun line => trimEnd (line.drop (min k (leadingBlanks line))) := by
    rw [textLines, List.map_map]
    rfl
  rw [hlines, stripLines, spaceBefore_readLine hspace hread heven hk, List.map_map, hmap]
  exact inputFrom?_join hne hstripped

/-! ## Literals -/

theorem between?_eq_some_iff {delimiter t body : Text} :
    between? delimiter t = some body ↔ delimiter ++ (body ++ delimiter) = t := by
  rw [between?, Option.bind_eq_some_iff]
  simp [stripPrefix?_eq_some_iff, stripSuffix?_eq_some_iff]

theorem eq_append_of_content? {delimiter xs content : List Input}
    (h : content? delimiter xs = some content) : xs = content ++ delimiter := by
  induction xs using content?.induct delimiter generalizing content with
  | case1 => cases h
  | case2 x xs hopen heq =>
    rw [content?.eq_def] at h
    simp only [hopen, if_true, if_pos heq] at h
    obtain rfl := Option.some.inj h
    exact heq.symm
  | case3 x xs hopen hne =>
    rw [content?.eq_def] at h
    simp [hopen, hne] at h
  | case4 hopen =>
    rw [content?.eq_def] at h
    simp [hopen] at h
  | case5 y ys hopen ih =>
    rw [content?.eq_def] at h
    simp only [hopen, if_true] at h
    obtain ⟨more, hmore, rfl⟩ := Option.map_eq_some_iff.1 h
    rw [ih hmore, List.cons_append, List.cons_append]
  | case6 y ys hopen hback ih =>
    rw [content?.eq_def] at h
    simp only [hopen, hback, if_false] at h
    obtain ⟨more, hmore, rfl⟩ := Option.map_eq_some_iff.1 h
    rw [ih hmore, List.cons_append]

section Delimiters

variable {allowed : Input → Bool} (hquote : allowed quote = false)
include hquote

/-- A quote that is read is written. -/
theorem eq_cons_quote {t : Text} {xs : List Input}
    (h : inputFrom? allowed .plain t = some (quote :: xs)) :
    ∃ r, t = '"' :: r ∧ inputFrom? allowed .plain r = some xs := by
  obtain ⟨c, r, rfl, -, heq, hr⟩ := eq_cons_of_inputFrom? h hquote (by decide)
  obtain rfl := Input.char.inj heq
  exact ⟨r, rfl, hr⟩

theorem eq_concat_quote {t : Text} {xs : List Input}
    (h : inputFrom? allowed .plain t = some (xs ++ [quote])) :
    ∃ r, t = r ++ ['"'] ∧ inputFrom? allowed .plain r = some xs :=
  eq_concat_of_inputFrom? h hquote (by refine ⟨?_, ?_, ?_⟩ <;> decide)

end Delimiters

/-- White space that is read is written. -/
theorem eq_cons_space {allowed : Input → Bool}
    (hspace : ∀ x, allowed x = true → x.isSpace = false) {c : Char} (hc : isJavaSpace c = true)
    {t : Text} {xs : List Input} (h : inputFrom? allowed .plain t = some (.char c :: xs)) :
    ∃ r, t = c :: r ∧ inputFrom? allowed .plain r = some xs := by
  have hchar : Input.isSpace (.char c) = true := hc
  obtain ⟨hallowed, hback⟩ := written_of_isSpace hspace hchar
  obtain ⟨d, r, rfl, -, heq, hr⟩ := eq_cons_of_inputFrom? h hallowed hback
  obtain rfl := Input.char.inj heq
  exact ⟨r, rfl, hr⟩

/-- The line that opens a text block ends with the first line feed. -/
theorem eq_append_of_afterOpening? {allowed : Input → Bool}
    (hspace : ∀ x, allowed x = true → x.isSpace = false) {t : Text} {xs ys : List Input}
    (h : inputFrom? allowed .plain t = some xs) (hreturns : t.IsChain FeedAfterReturn)
    (hys : afterOpening? xs = some ys) (hne : ys ≠ []) :
    ∃ l r, t = l ++ '\n' :: r ∧ '\n' ∉ l ∧ inputFrom? allowed .plain r = some ys := by
  induction xs generalizing t with
  | nil => cases hys
  | cons x xs ih =>
    rw [afterOpening?] at hys
    split at hys
    · next hx =>
      subst hx
      obtain rfl := Option.some.inj hys
      obtain ⟨r, rfl, hr⟩ := eq_cons_space hspace (by decide) h
      exact ⟨[], r, rfl, List.not_mem_nil, hr⟩
    · split at hys
      · next hx =>
        subst hx
        obtain ⟨r, rfl, hr⟩ := eq_cons_space hspace (by decide) h
        cases r with
        | nil =>
          obtain rfl := Option.some.inj hr
          obtain rfl := Option.some.inj hys
          exact absurd rfl hne
        | cons c r =>
          obtain rfl := (List.isChain_cons_cons.1 hreturns).1 rfl
          obtain ⟨zs, hzs, rfl⟩ := (inputFrom?_plain (by decide)).1 hr
          obtain rfl := Option.some.inj hys
          exact ⟨['\r'], r, rfl, by decide, hzs⟩
      · split at hys
        · next hx =>
          obtain ⟨c, rfl, hc, hfeed⟩ : ∃ c, x = .char c ∧ isJavaSpace c = true ∧ '\n' ≠ c := by
            rcases hx with rfl | rfl | rfl
            · exact ⟨' ', rfl, rfl, by decide⟩
            · exact ⟨'\t', rfl, rfl, by decide⟩
            · exact ⟨'\x0c', rfl, rfl, by decide⟩
          obtain ⟨r, rfl, hr⟩ := eq_cons_space hspace hc h
          obtain ⟨l, r', rfl, hl, hr'⟩ := ih hr hreturns.tail hys
          refine ⟨c :: l, r', rfl, ?_, hr'⟩
          rw [List.mem_cons, not_or]
          exact ⟨hfeed, hl⟩
        · cases hys

/-- The text between the line that opens a text block and its closing delimiter. -/
def blockContent (raw : Text) : Text :=
  match between? blockQuote raw with
  | some body => ((cut? '\n' body).map Prod.snd).getD body
  | none => []

/-- A text block that is decoded as the language says: no unicode escape stands for white space, a
return is part of a line end with a line feed, and its indentation may be counted in bytes. -/
structure TidyBlock (raw : Text) : Prop where
  escapes : EscapesStandFor (fun x => x.isInert && !x.isSpace) raw
  returns : raw.IsChain FeedAfterReturn
  lines : EvenlyIndented (textLines (blockContent raw))

theorem decodeLiteral?_of_stringValue? {r v : Text} {xs vs : List Input}
    (hwritten : OctalsWritten ('"' :: r)) (h : inputFrom? Input.isInert .plain r = some xs)
    (hvs : stringValue? xs = some vs) (hv : paired? vs = some v)
    (hblock : between? blockQuote ('"' :: r) = none) : decodeLiteral? ('"' :: r) = some v := by
  obtain ⟨content, hcontent, hinterpret⟩ := Option.bind_eq_some_iff.1 hvs
  obtain rfl := eq_append_of_content? hcontent
  obtain ⟨body, rfl, hbody⟩ := eq_concat_quote rfl h
  have hvs : interpretFrom? 0 content = some vs := by
    split at hinterpret
    · cases hinterpret
    · exact hinterpret
  have hbetween : between? ['"'] ('"' :: (body ++ ['"'])) = some body :=
    between?_eq_some_iff.2 rfl
  rw [decodeLiteral?, hblock, hbetween]
  have hoctals : OctalsWritten body := octalsWritten_of_append (hwritten.tail (by decide))
  exact congrArg some (unescapeFrom_plain_eq (fun _ h => h) hoctals hbody hvs hv)

theorem decodeLiteral?_of_blockValue? {r v : Text} {xs vs : List Input}
    (hwritten : OctalsWritten (blockQuote ++ r)) (htidy : TidyBlock (blockQuote ++ r))
    (h : inputFrom? (fun x => x.isInert && !x.isSpace) .plain r = some xs)
    (hvs : blockValue? xs = some vs) (hv : paired? vs = some v) :
    decodeLiteral? (blockQuote ++ r) = some v := by
  have hspace : ∀ x : Input, (x.isInert && !x.isSpace) = true → x.isSpace = false := by simp
  obtain ⟨ys, hys, hrest⟩ := Option.bind_eq_some_iff.1 hvs
  obtain ⟨content, hcontent, hinterpret⟩ := Option.bind_eq_some_iff.1 hrest
  obtain rfl := eq_append_of_content? hcontent
  obtain ⟨l, t, rfl, hl, ht⟩ :=
    eq_append_of_afterOpening? hspace h htidy.returns.right_of_append hys (by simp)
  -- the closing delimiter is written as it is
  obtain ⟨body, rfl, hbody⟩ : ∃ body, t = body ++ blockQuote ∧
      inputFrom? (fun x => x.isInert && !x.isSpace) .plain body = some content := by
    have hends : content ++ [quote, quote, quote] = content ++ [quote] ++ [quote] ++ [quote] := by
      simp
    rw [hends] at ht
    obtain ⟨t₂, rfl, ht₂⟩ := eq_concat_quote rfl ht
    obtain ⟨t₁, rfl, ht₁⟩ := eq_concat_quote rfl ht₂
    obtain ⟨body, rfl, hbody⟩ := eq_concat_quote rfl ht₁
    exact ⟨body, by simp [blockQuote], hbody⟩
  have hbetween : between? blockQuote (blockQuote ++ (l ++ '\n' :: (body ++ blockQuote))) =
      some (l ++ '\n' :: body) :=
    between?_eq_some_iff.2 (by simp)
  have hcut : cut? '\n' (l ++ '\n' :: body) = some (l, body) := cut?_eq_some_iff.2 ⟨rfl, hl⟩
  have hlines := htidy.lines
  rw [blockContent, hbetween] at hlines
  simp only [hcut, Option.map_some, Option.getD_some] at hlines
  have hreturns : (body ++ ['"']).IsChain FeedAfterReturn :=
    htidy.returns.infix ⟨blockQuote ++ (l ++ ['\n']), ['"', '"'], by simp [blockQuote]⟩
  have hoctals : OctalsWritten body := by
    rw [← List.append_assoc] at hwritten
    exact octalsWritten_of_append (octalsWritten_feed.1 hwritten).2
  obtain ⟨stripped, hstripped, hkept, hinput⟩ :=
    stripIndent?_eq hspace hbody (by decide) hreturns hlines
  rw [decodeLiteral?, hbetween]
  simp only [hcut, Option.map_some, Option.getD_some, hstripped]
  exact congrArg some (unescapeFrom_plain_eq (fun x hx => (Bool.and_eq_true_iff.1 hx).1)
    (hkept hoctals) hinput hinterpret hv)

/-- A literal that is not read with three quotes at its front is no text block. -/
theorem between?_blockQuote_eq_none {allowed : Input → Bool} {raw : Text} {xs : List Input}
    (h : inputFrom? allowed .plain raw = some xs)
    (hne : ¬ [quote, quote, quote] <+: xs) : between? blockQuote raw = none := by
  rw [Option.eq_none_iff_forall_ne_some]
  intro body hbody
  obtain rfl := between?_eq_some_iff.1 hbody
  obtain ⟨ys₁, h₁, rfl⟩ := (inputFrom?_plain (by decide)).1 h
  obtain ⟨ys₂, h₂, rfl⟩ := (inputFrom?_plain (by decide)).1 h₁
  obtain ⟨ys₃, -, rfl⟩ := (inputFrom?_plain (by decide)).1 h₂
  exact hne ⟨ys₃, rfl⟩

/-- **Literals are decoded to their value**, when each unicode escape stands for a character that
is no backslash and no quote, and for no digit of an octal escape before it, and text blocks are
tidy. -/
theorem decodeLiteral?_of_javaValue? {raw v : Text} (hv : javaValue? raw = some v)
    (hescapes : EscapesStandFor Input.isInert raw) (hoctals : OctalsWritten raw)
    (hblock : blockQuote <+: raw → TidyBlock raw) : decodeLiteral? raw = some v := by
  obtain ⟨xs, hxs⟩ := Option.isSome_iff_exists.1 hescapes
  rw [javaValue?, input?, inputFrom?_mono hxs, Option.bind_some] at hv
  obtain ⟨vs, hvs, hpaired⟩ := Option.bind_eq_some_iff.1 hv
  rw [inputValue?] at hvs
  split at hvs
  · next hquotes =>
    -- a text block is read again with the escapes that it has
    obtain ⟨ys, rfl⟩ := hquotes
    obtain ⟨r₁, rfl, h₁⟩ := eq_cons_quote rfl hxs
    obtain ⟨r₂, rfl, h₂⟩ := eq_cons_quote rfl h₁
    obtain ⟨r, rfl, h₃⟩ := eq_cons_quote rfl h₂
    have htidy := hblock ⟨r, rfl⟩
    obtain ⟨zs, hzs⟩ := Option.isSome_iff_exists.1 htidy.escapes
    obtain ⟨zs₁, hzs₁, rfl⟩ := (inputFrom?_plain (by decide)).1 hzs
    obtain ⟨zs₂, hzs₂, rfl⟩ := (inputFrom?_plain (by decide)).1 hzs₁
    obtain ⟨zs₃, hzs₃, rfl⟩ := (inputFrom?_plain (by decide)).1 hzs₂
    obtain rfl : ys = zs₃ :=
      Option.some.inj ((inputFrom?_mono h₃).symm.trans (inputFrom?_mono hzs₃))
    exact decodeLiteral?_of_blockValue? hoctals htidy hzs₃ hvs hpaired
  · next hquotes =>
    split at hvs
    · next hquote =>
      obtain ⟨ys, rfl⟩ := hquote
      have hnone := between?_blockQuote_eq_none hxs hquotes
      obtain ⟨r, rfl, hr⟩ := eq_cons_quote rfl hxs
      exact decodeLiteral?_of_stringValue? hoctals hr hvs hpaired hnone
    · cases hvs

/-- A text block over lines with different indentation, with escapes of all kinds. An escape for a
digit stands behind an octal escape that has all its digits. -/
def indentedBlock : Text :=
  "\"\"\"\n    a\\uu00e9\\101\\u0031 \r\n\n      b\\t\n    \"\"\"".toList

theorem tidyBlock_indentedBlock : TidyBlock indentedBlock where
  escapes := by decide +kernel
  returns := by decide +kernel
  lines := by
    have hlines : textLines (blockContent indentedBlock) =
        ["    a\\uu00e9\\101\\u0031 ".toList, [], "      b\\t".toList, "    ".toList] := by
      decide +kernel
    rw [hlines]
    exact ⟨by decide, by decide, by decide⟩

theorem decodeLiteral?_of_javaValue?_indentedBlock :
    javaValue? indentedBlock = some "aéA1\n\n  b\t\n".toList ∧
      decodeLiteral? indentedBlock = some "aéA1\n\n  b\t\n".toList := by
  have hvalue : javaValue? indentedBlock = some "aéA1\n\n  b\t\n".toList := by decide +kernel
  have hescapes : EscapesStandFor Input.isInert indentedBlock := by decide +kernel
  have hoctals : OctalsWritten indentedBlock := by decide +kernel
  exact ⟨hvalue,
    decodeLiteral?_of_javaValue? hvalue hescapes hoctals fun _ => tidyBlock_indentedBlock⟩

/-- A surrogate pair is left as it is written, and a block has no value at all if its indentation in
bytes ends inside a blank. -/
theorem decodeLiteral?_pairs_and_wide_blanks :
    (javaValue? "\"\\uD83D\\uDE00\"".toList = some ['😀'] ∧
      decodeLiteral? "\"\\uD83D\\uDE00\"".toList = some "\\uD83D\\uDE00".toList) ∧
    javaValue? "\"\"\"\n\u3000a\n  b\"\"\"".toList = some "a\n b".toList ∧
      decodeLiteral? "\"\"\"\n\u3000a\n  b\"\"\"".toList = none := by
  decide +kernel

end SqlInjection.Java
