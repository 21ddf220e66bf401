import SqlInjection.Proofs.Java.Evaluation

/-!
# The value of a literal by the rules of the language

What a string literal or a text block stands for, said in the order in which the language says it:

* `inputFrom?`: unicode escapes are replaced first, in the whole source. A character may be half of
  a surrogate pair after that;
* `content?`: a literal ends at the first delimiter that no backslash stands before;
* `sourceLines` and `stripLines`: the lines of a text block lose the white space that all of them
  start with, counted in characters, and the white space at their ends;
* `interpretFrom?`: then escape sequences are replaced;
* `paired?`: last, halves of surrogate pairs that stand side by side are put together.

`javaValue?` puts these together. What has no value is no literal, or has half a pair in its value.
-/

namespace SqlInjection.Java

/-! ## Unicode escapes -/

/-- A character of a source when its unicode escapes are replaced. An escape may name half of a
surrogate pair, which is no character by itself. -/
inductive Input where
  | char (c : Char)
  | half (code : Nat)
  deriving DecidableEq, Repr

/-- What a unicode escape with the given code stands for. -/
def Input.ofCode (code : Nat) : Input :=
  if code.isValidChar then .char (Char.ofNat code) else .half code

/-- Where the reader of a source stands. -/
inductive InputState where
  | plain
  /-- After a backslash that an even number of backslashes stands before. -/
  | backslash
  /-- In a unicode escape: the code so far and the number of its digits. -/
  | escape (code digits : Nat)
  deriving DecidableEq, Repr

/-- One character of a source: what is read with it, and the state after it. There is none if a
unicode escape has no further digit, or stands for something that is not `allowed`. -/
def InputState.step? (allowed : Input → Bool) : InputState → Char → Option (List Input × InputState)
  | .plain, c => some (if c = '\\' then ([], .backslash) else ([.char c], .plain))
  | .backslash, c =>
    some (if c = 'u' then ([], .escape 0 0) else ([.char '\\', .char c], .plain))
  | .escape code digits, c =>
    if digits = 0 ∧ c = 'u' then some ([], .escape 0 0)
    else (hexDigit? c).bind fun d =>
      if digits < 3 then some ([], .escape (16 * code + d) (digits + 1))
      else if allowed (.ofCode (16 * code + d)) then some ([.ofCode (16 * code + d)], .plain)
      else none

/-- What is left to read at the end of a source. -/
def InputState.finish? : InputState → Option (List Input)
  | .plain => some []
  | .backslash => some [.char '\\']
  | .escape _ _ => none

/-- The characters of the rest of a source with its unicode escapes replaced. -/
def inputFrom? (allowed : Input → Bool) (s : InputState) : Text → Option (List Input)
  | [] => s.finish?
  | c :: t =>
    (s.step? allowed c).bind fun (xs, s') => (inputFrom? allowed s' t).map (xs ++ ·)

/-- The characters of a source with its unicode escapes replaced. -/
def input? (t : Text) : Option (List Input) := inputFrom? (fun _ => true) .plain t

/-- Every unicode escape of a source stands for something that is `allowed`. -/
def EscapesStandFor (allowed : Input → Bool) (t : Text) : Prop :=
  (inputFrom? allowed .plain t).isSome = true

instance (allowed : Input → Bool) (t : Text) : Decidable (EscapesStandFor allowed t) :=
  inferInstanceAs (Decidable (_ = true))

section Reading

variable {allowed : Input → Bool}

/-- What a character of a unicode escape does. -/
theorem InputState.step?_escape {code digits : Nat} {c : Char} {r : List Input × InputState} :
    (InputState.escape code digits).step? allowed c = some r ↔
      (digits = 0 ∧ c = 'u') ∧ r = ([], .escape 0 0) ∨
      ¬ (digits = 0 ∧ c = 'u') ∧ ∃ d, hexDigit? c = some d ∧
        (digits < 3 ∧ r = ([], .escape (16 * code + d) (digits + 1)) ∨
          ¬ digits < 3 ∧ allowed (.ofCode (16 * code + d)) = true ∧
            r = ([.ofCode (16 * code + d)], .plain)) := by
  rw [InputState.step?]
  split
  · next hu => simp only [Option.some.injEq, hu, true_and, not_true, false_and, or_false, eq_comm]
  · next hu =>
    rw [Option.bind_eq_some_iff]
    simp only [hu, false_and, false_or, not_false_eq_true, true_and]
    refine exists_congr fun d => and_congr_right fun hd => ?_
    split
    · next hdigits =>
      simp only [Option.some.injEq, hdigits, true_and, not_true, false_and, or_false, eq_comm]
    · next hdigits =>
      simp only [hdigits, false_and, false_or, not_false_eq_true, true_and]
      split
      · next hallowed => simp only [Option.some.injEq, hallowed, true_and, eq_comm]
      · next hallowed => simp [hallowed]

theorem InputState.step?_mono {s s' : InputState} {c : Char} {xs : List Input}
    (h : s.step? allowed c = some (xs, s')) : s.step? (fun _ => true) c = some (xs, s') := by
  cases s with
  | plain => exact h
  | backslash => exact h
  | escape code digits =>
    rw [InputState.step?_escape] at h ⊢
    refine h.imp_right (And.imp_right ?_)
    rintro ⟨d, hd, hcases⟩
    exact ⟨d, hd, hcases.imp_right fun ⟨hdigits, _, hr⟩ => ⟨hdigits, rfl, hr⟩⟩

theorem inputFrom?_cons {s : InputState} {c : Char} {t : Text} {ys : List Input} :
    inputFrom? allowed s (c :: t) = some ys ↔ ∃ xs s' zs, s.step? allowed c = some (xs, s') ∧
      inputFrom? allowed s' t = some zs ∧ ys = xs ++ zs := by
  rw [inputFrom?, Option.bind_eq_some_iff]
  constructor
  · rintro ⟨⟨xs, s'⟩, hstep, h⟩
    obtain ⟨zs, hzs, rfl⟩ := Option.map_eq_some_iff.1 h
    exact ⟨xs, s', zs, hstep, hzs, rfl⟩
  · rintro ⟨xs, s', zs, hstep, hzs, rfl⟩
    exact ⟨(xs, s'), hstep, Option.map_eq_some_iff.2 ⟨zs, hzs, rfl⟩⟩

theorem inputFrom?_mono {s : InputState} {t : Text} {xs : List Input}
    (h : inputFrom? allowed s t = some xs) : inputFrom? (fun _ => true) s t = some xs := by
  induction t generalizing s xs with
  | nil => exact h
  | cons c t ih =>
    obtain ⟨ys, s', zs, hstep, hzs, rfl⟩ := inputFrom?_cons.1 h
    exact inputFrom?_cons.2 ⟨ys, s', zs, InputState.step?_mono hstep, ih hzs, rfl⟩

/-- A character that no unicode escape starts or goes on with. -/
def EndsEscape (c : Char) : Prop := c ≠ '\\' ∧ c ≠ 'u' ∧ hexDigit? c = none

theorem InputState.step?_of_endsEscape {c : Char} (hc : EndsEscape c) (s : InputState) :
    s.step? allowed c = s.finish?.map fun xs => (xs ++ [.char c], .plain) := by
  obtain ⟨hback, hu, hhex⟩ := hc
  cases s <;> simp [InputState.step?, InputState.finish?, hback, hu, hhex]

/-- A source is read in two parts at a character that is no part of a unicode escape. -/
theorem inputFrom?_append {c : Char} (hc : EndsEscape c) {s : InputState} {l r : Text}
    {ys : List Input} :
    inputFrom? allowed s (l ++ c :: r) = some ys ↔ ∃ xs zs, inputFrom? allowed s l = some xs ∧
      inputFrom? allowed .plain r = some zs ∧ ys = xs ++ .char c :: zs := by
  induction l generalizing s ys with
  | nil =>
    rw [List.nil_append, inputFrom?_cons, InputState.step?_of_endsEscape hc]
    constructor
    · rintro ⟨xs, s', zs, hstep, hzs, rfl⟩
      obtain ⟨front, hfront, heq⟩ := Option.map_eq_some_iff.1 hstep
      obtain ⟨rfl, rfl⟩ := Prod.mk.inj heq
      exact ⟨front, zs, hfront, hzs, by simp⟩
    · rintro ⟨front, zs, hfront, hzs, rfl⟩
      exact ⟨_, _, zs, Option.map_eq_some_iff.2 ⟨front, hfront, rfl⟩, hzs, by simp⟩
  | cons d l ih =>
    rw [List.cons_append, inputFrom?_cons]
    constructor
    · rintro ⟨front, s', rest, hstep, hrest, rfl⟩
      obtain ⟨xs, zs, hxs, hzs, rfl⟩ := ih.1 hrest
      exact ⟨front ++ xs, zs, inputFrom?_cons.2 ⟨front, s', xs, hstep, hxs, rfl⟩, hzs, by simp⟩
    · rintro ⟨xs, zs, hxs, hzs, rfl⟩
      obtain ⟨front, s', back, hstep, hback, rfl⟩ := inputFrom?_cons.1 hxs
      exact ⟨front, s', _, hstep, ih.2 ⟨back, zs, hback, hzs, rfl⟩, by simp⟩

/-- The last thing read is the last character, or what a unicode escape stands for. -/
theorem getLast?_inputFrom? {s : InputState} {t : Text} {c : Char} {xs : List Input}
    (h : inputFrom? allowed s (t ++ [c]) = some xs) :
    ∃ x, xs.getLast? = some x ∧ (x = .char c ∨ allowed x = true) := by
  induction t generalizing s xs with
  | nil =>
    obtain ⟨ys, s', zs, hstep, hzs, rfl⟩ := inputFrom?_cons.1 h
    cases s with
    | plain =>
      simp only [InputState.step?, Option.some.injEq] at hstep
      split at hstep
      · next hc =>
        obtain ⟨rfl, rfl⟩ := Prod.mk.inj hstep
        obtain rfl := Option.some.inj hzs
        exact ⟨.char '\\', rfl, Or.inl (by rw [hc])⟩
      · obtain ⟨rfl, rfl⟩ := Prod.mk.inj hstep
        obtain rfl := Option.some.inj hzs
        exact ⟨_, rfl, Or.inl rfl⟩
    | backslash =>
      simp only [InputState.step?, Option.some.injEq] at hstep
      split at hstep
      · obtain ⟨rfl, rfl⟩ := Prod.mk.inj hstep
        cases hzs
      · obtain ⟨rfl, rfl⟩ := Prod.mk.inj hstep
        obtain rfl := Option.some.inj hzs
        exact ⟨_, rfl, Or.inl rfl⟩
    | escape code digits =>
      rcases InputState.step?_escape.1 hstep with ⟨-, heq⟩ | ⟨-, d, -, hcases⟩
      · obtain ⟨rfl, rfl⟩ := Prod.mk.inj heq
        cases hzs
      · rcases hcases with ⟨-, heq⟩ | ⟨-, hallowed, heq⟩
        · obtain ⟨rfl, rfl⟩ := Prod.mk.inj heq
          cases hzs
        · obtain ⟨rfl, rfl⟩ := Prod.mk.inj heq
          obtain rfl := Option.some.inj hzs
          exact ⟨_, rfl, Or.inr hallowed⟩
  | cons d t ih =>
    obtain ⟨ys, s', zs, hstep, hzs, rfl⟩ := inputFrom?_cons.1 h
    obtain ⟨x, hx, hcase⟩ := ih hzs
    refine ⟨x, ?_, hcase⟩
    rw [List.getLast?_append, hx]
    rfl

/-- A unicode escape stands for something. -/
theorem inputFrom?_escape {code digits : Nat} {t : Text} {xs : List Input}
    (h : inputFrom? allowed (.escape code digits) t = some xs) :
    ∃ x ys, xs = x :: ys ∧ allowed x = true := by
  induction t generalizing code digits xs with
  | nil => cases h
  | cons c t ih =>
    obtain ⟨ys, s', zs, hstep, hzs, rfl⟩ := inputFrom?_cons.1 h
    rcases InputState.step?_escape.1 hstep with
      ⟨-, heq⟩ | ⟨-, d, -, ⟨-, heq⟩ | ⟨-, hallowed, heq⟩⟩ <;>
      obtain ⟨rfl, rfl⟩ := Prod.mk.inj heq
    · exact ih hzs
    · exact ih hzs
    · exact ⟨_, zs, rfl, hallowed⟩

theorem inputFrom?_plain {c : Char} (hc : c ≠ '\\') {t : Text} {xs : List Input} :
    inputFrom? allowed .plain (c :: t) = some xs ↔
      ∃ ys, inputFrom? allowed .plain t = some ys ∧ xs = .char c :: ys := by
  rw [inputFrom?, InputState.step?, if_neg hc, Option.bind_some, Option.map_eq_some_iff]
  exact exists_congr fun ys => and_congr_right fun _ => eq_comm

/-- What a backslash stands for: with a character behind it for both, or else for what the unicode
escape stands for. -/
theorem inputFrom?_backslash {t : Text} {xs : List Input}
    (h : inputFrom? allowed .plain ('\\' :: t) = some xs) :
    t = [] ∧ xs = [.char '\\'] ∨
      (∃ c r ys, t = c :: r ∧ c ≠ 'u' ∧ inputFrom? allowed .plain r = some ys ∧
        xs = .char '\\' :: .char c :: ys) ∨
      ∃ r, t = 'u' :: r ∧ inputFrom? allowed (.escape 0 0) r = some xs := by
  have hback : inputFrom? allowed .backslash t = some xs := by
    simpa [inputFrom?, InputState.step?] using h
  cases t with
  | nil => exact Or.inl ⟨rfl, (Option.some.inj hback).symm⟩
  | cons c r =>
    refine Or.inr ?_
    by_cases hc : c = 'u'
    · subst hc
      exact Or.inr ⟨r, rfl, by simpa [inputFrom?, InputState.step?] using hback⟩
    · obtain ⟨ys, hys, rfl⟩ : ∃ ys, inputFrom? allowed .plain r = some ys ∧
          .char '\\' :: .char c :: ys = xs := by
        simpa [inputFrom?, InputState.step?, hc] using hback
      exact Or.inl ⟨c, r, ys, rfl, hc, hys, rfl⟩

/-- What is no backslash, and what no unicode escape may stand for, is written as it is. -/
theorem eq_cons_of_inputFrom? {t : Text} {x : Input} {xs : List Input}
    (h : inputFrom? allowed .plain t = some (x :: xs)) (hx : allowed x = false)
    (hback : x ≠ .char '\\') :
    ∃ c r, t = c :: r ∧ c ≠ '\\' ∧ x = .char c ∧ inputFrom? allowed .plain r = some xs := by
  cases t with
  | nil => cases h
  | cons c r =>
    by_cases hc : c = '\\'
    · subst hc
      rcases inputFrom?_backslash h with ⟨-, heq⟩ | ⟨d, r, ys, -, -, -, heq⟩ | ⟨r, -, hescape⟩
      · exact absurd (List.cons.inj heq).1 hback
      · exact absurd (List.cons.inj heq).1 hback
      · obtain ⟨y, ys, heq, hallowed⟩ := inputFrom?_escape hescape
        rw [← (List.cons.inj heq).1, hx] at hallowed
        cases hallowed
    · obtain ⟨ys, hys, heq⟩ := (inputFrom?_plain hc).1 h
      obtain ⟨rfl, rfl⟩ := List.cons.inj heq
      exact ⟨c, r, rfl, hc, rfl, hys⟩

theorem eq_concat_of_inputFrom? {t : Text} {c : Char} {xs : List Input}
    (h : inputFrom? allowed .plain t = some (xs ++ [.char c])) (hx : allowed (.char c) = false)
    (hc : EndsEscape c) : ∃ r, t = r ++ [c] ∧ inputFrom? allowed .plain r = some xs := by
  rcases List.eq_nil_or_concat' t with rfl | ⟨r, d, rfl⟩
  · have := congrArg List.length (Option.some.inj h)
    simp at this
  · obtain ⟨x, hlast, hcase⟩ := getLast?_inputFrom? h
    rw [List.getLast?_concat] at hlast
    obtain rfl := Option.some.inj hlast
    rcases hcase with heq | hallowed
    · obtain rfl := Input.char.inj heq
      obtain ⟨ys, zs, hys, hzs, heq⟩ := (inputFrom?_append hc).1 h
      obtain rfl := Option.some.inj hzs
      obtain rfl := List.append_inj_left' heq rfl
      exact ⟨r, rfl, hys⟩
    · rw [hx] at hallowed
      cases hallowed

theorem InputState.mem_step? {s s' : InputState} {c : Char} {xs : List Input}
    (h : s.step? allowed c = some (xs, s')) {x : Input} (hx : x ∈ xs) :
    x = .char '\\' ∨ allowed x = true ∨ x = .char c := by
  cases s with
  | plain =>
    simp only [InputState.step?, Option.some.injEq] at h
    split at h <;> obtain ⟨rfl, rfl⟩ := Prod.mk.inj h
    · cases hx
    · exact Or.inr (Or.inr (List.mem_singleton.1 hx))
  | backslash =>
    simp only [InputState.step?, Option.some.injEq] at h
    split at h <;> obtain ⟨rfl, rfl⟩ := Prod.mk.inj h
    · cases hx
    · exact (List.mem_cons.1 hx).imp_right fun hx => Or.inr (List.mem_singleton.1 hx)
  | escape code digits =>
    rcases InputState.step?_escape.1 h with ⟨-, heq⟩ | ⟨-, d, -, ⟨-, heq⟩ | ⟨-, hallowed, heq⟩⟩ <;>
      obtain ⟨rfl, rfl⟩ := Prod.mk.inj heq
    · cases hx
    · cases hx
    · exact Or.inr (Or.inl (by rwa [List.mem_singleton.1 hx]))

/-- What is read is a backslash, what a unicode escape stands for, or a character as it is. -/
theorem mem_inputFrom? {s : InputState} {t : Text} {xs : List Input}
    (h : inputFrom? allowed s t = some xs) {x : Input} (hx : x ∈ xs) :
    x = .char '\\' ∨ allowed x = true ∨ ∃ c ∈ t, x = .char c := by
  induction t generalizing s xs with
  | nil =>
    cases s with
    | plain => obtain rfl := Option.some.inj h; cases hx
    | backslash => obtain rfl := Option.some.inj h; exact Or.inl (List.mem_singleton.1 hx)
    | escape code digits => cases h
  | cons c t ih =>
    obtain ⟨ys, s', zs, hstep, hzs, rfl⟩ := inputFrom?_cons.1 h
    rcases List.mem_append.1 hx with hx | hx
    · exact (InputState.mem_step? hstep hx).imp_right fun h =>
        h.imp_right fun h => ⟨c, List.mem_cons_self, h⟩
    · exact (ih hzs hx).imp_right fun h =>
        h.imp_right fun ⟨d, hd, h⟩ => ⟨d, List.mem_cons_of_mem c hd, h⟩

/-- The characters of a class at the front of a source are those that are written there, when no
unicode escape stands for one of them. -/
theorem takeWhile_inputFrom? {q : Input → Bool} {p : Char → Bool} (hp : ∀ c, q (.char c) = p c)
    (hq : ∀ x, q x = true → allowed x = false ∧ x ≠ .char '\\') {t : Text} {ys : List Input}
    (h : inputFrom? allowed .plain t = some ys) :
    ys.takeWhile q = (t.takeWhile p).map .char ∧ ∀ n ≤ (t.takeWhile p).length,
      inputFrom? allowed .plain (t.drop n) = some (ys.drop n) := by
  induction t generalizing ys with
  | nil =>
    obtain rfl := Option.some.inj h
    refine ⟨rfl, fun n _ => ?_⟩
    rw [List.drop_nil, List.drop_nil]
    rfl
  | cons c t ih =>
    by_cases hc : p c = true
    · have hback : c ≠ '\\' := fun heq => (hq _ ((hp c).trans hc)).2 (by rw [heq])
      obtain ⟨zs, hzs, rfl⟩ := (inputFrom?_plain hback).1 h
      obtain ⟨hfront, hdrop⟩ := ih hzs
      rw [List.takeWhile_cons_of_pos hc, List.takeWhile_cons_of_pos ((hp c).trans hc), hfront,
        List.map_cons]
      refine ⟨rfl, fun n hn => ?_⟩
      cases n with
      | zero => exact h
      | succ n => exact hdrop n (Nat.le_of_succ_le_succ hn)
    · rw [List.takeWhile_cons_of_neg hc]
      refine ⟨?_, fun n hn => ?_⟩
      · cases ys with
        | nil => rfl
        | cons y ys =>
          refine List.takeWhile_cons_of_neg fun hy => ?_
          obtain ⟨d, r, heq, -, rfl, -⟩ := eq_cons_of_inputFrom? h (hq y hy).1 (hq y hy).2
          obtain ⟨rfl, -⟩ := List.cons.inj heq
          exact hc ((hp c).symm.trans hy)
      · obtain rfl : n = 0 := Nat.le_zero.1 hn
        exact h

/-- Characters that are no part of a unicode escape are read as they are behind any source. -/
theorem inputFrom?_append_map {w : Text} (hw : ∀ c ∈ w, EndsEscape c) {t : Text} {xs : List Input}
    (h : inputFrom? allowed .plain (t ++ w) = some xs) :
    ∃ ys, inputFrom? allowed .plain t = some ys ∧ xs = ys ++ w.map .char := by
  induction w generalizing t xs with
  | nil => exact ⟨xs, by rwa [List.append_nil] at h, by rw [List.map_nil, List.append_nil]⟩
  | cons c w ih =>
    obtain ⟨ys, zs, hys, hzs, rfl⟩ :=
      (inputFrom?_append (hw c List.mem_cons_self)).1 h
    rw [← List.nil_append w] at hzs
    obtain ⟨ws, hws, rfl⟩ := ih (fun d hd => hw d (List.mem_cons_of_mem c hd)) hzs
    obtain rfl := Option.some.inj hws
    exact ⟨ys, hys, by rw [List.map_cons, List.nil_append]⟩

theorem inputFrom?_eq_nil {t : Text} (h : inputFrom? allowed .plain t = some []) : t = [] := by
  rcases List.eq_nil_or_concat' t with rfl | ⟨r, d, rfl⟩
  · rfl
  · obtain ⟨x, hlast, -⟩ := getLast?_inputFrom? h
    cases hlast

end Reading

/-! ## Delimiters -/

/-- The text up to a delimiter that stands at its end and nowhere before, unless behind a
backslash. -/
def content? (delimiter : List Input) : List Input → Option (List Input)
  | [] => none
  | x :: xs =>
    if delimiter.isPrefixOf (x :: xs) then if delimiter = x :: xs then some [] else none
    else if x = .char '\\' then
      match xs with
      | [] => none
      | y :: ys => (content? delimiter ys).map (x :: y :: ·)
    else (content? delimiter xs).map (x :: ·)

/-- What follows the opening delimiter of a text block, after white space and the end of the line. -/
def afterOpening? : List Input → Option (List Input)
  | [] => none
  | x :: xs =>
    if x = .char '\n' then some xs
    else if x = .char '\r' then
      if xs.head? = some (.char '\n') then some xs.tail else some xs
    else if x = .char ' ' ∨ x = .char '\t' ∨ x = .char '\x0c' then afterOpening? xs
    else none

/-! ## Lines -/

/-- White space. -/
def isJavaSpace (c : Char) : Bool :=
  let n := c.toNat
  (9 ≤ n && n ≤ 13) || (0x1C ≤ n && n ≤ 0x20) || n == 0x1680 || (0x2000 ≤ n && n ≤ 0x2006) ||
    (0x2008 ≤ n && n ≤ 0x200A) || n == 0x2028 || n == 0x2029 || n == 0x205F || n == 0x3000

def Input.isSpace : Input → Bool
  | .char c => isJavaSpace c
  | .half _ => false

/-- The lines of a text. A line ends at a line feed, at a return, or at both together. -/
def sourceLines : List Input → List (List Input)
  | [] => [[]]
  | x :: xs =>
    if x = .char '\r' ∧ xs.head? = some (.char '\n') then sourceLines xs
    else if x = .char '\r' ∨ x = .char '\n' then [] :: sourceLines xs
    else
      match sourceLines xs with
      | [] => [[x]]
      | line :: lines => (x :: line) :: lines

/-- The white space that all lines start with that are not blank, and the last one too. -/
def spaceBefore (lines : List (List Input)) : Nat :=
  let counted := lines.dropLast.filter (fun l => !l.all Input.isSpace) ++ lines.getLast?.toList
  ((counted.map fun l => (l.takeWhile Input.isSpace).length).min?).getD 0

/-- A line without the given number of characters at its start and without blanks at its end. -/
def stripSpace (indent : Nat) (line : List Input) : List Input :=
  ((line.drop indent).reverse.dropWhile Input.isSpace).reverse

/-- The lines of a text block without the white space before and after them. -/
def stripLines (lines : List (List Input)) : List (List Input) :=
  lines.map (stripSpace (spaceBefore lines))

/-! ## Escape sequences -/

/-- Octal digits. -/
def Input.isOctalDigit : Input → Bool
  | .char c => isOctal c
  | .half _ => false

/-- The value of an octal digit. -/
def Input.digit : Input → Nat
  | .char c => c.toNat - '0'.toNat
  | .half _ => 0

/-- What an escape sequence stands for, and how many characters it has after its backslash. An
octal escape has three digits at most, and two if the first is greater than three; the end of a
line after a backslash is left out. -/
def escapeSequence? : List Input → Option (List Input × Nat)
  | .char c :: xs =>
    if isOctal c then
      let more := (xs.take (if c ≤ '3' then 2 else 1)).takeWhile Input.isOctalDigit
      let code := more.foldl (fun n d => 8 * n + d.digit) (c.toNat - '0'.toNat)
      some ([.char (Char.ofNat code)], 1 + more.length)
    else if c = '\n' then some ([], 1)
    else (namedEscape? c).map fun d => ([.char d], 1)
  | _ => none

/-- What the rest of a text stands for, when its first `skip` characters belong to an escape
sequence before them. -/
def interpretFrom? (skip : Nat) : List Input → Option (List Input)
  | [] => if skip = 0 then some [] else none
  | x :: xs =>
    match skip with
    | k + 1 => interpretFrom? k xs
    | 0 =>
      if x = .char '\\' then
        (escapeSequence? xs).bind fun (value, length) =>
          (interpretFrom? length xs).map (value ++ ·)
      else (interpretFrom? 0 xs).map (x :: ·)

/-! ## Values -/

/-- The character of a surrogate pair. -/
def pairedChar? (high low : Nat) : Option Char :=
  if 0xD800 ≤ high ∧ high < 0xDC00 ∧ 0xDC00 ≤ low ∧ low < 0xE000 then
    some (Char.ofNat (0x10000 + (high - 0xD800) * 0x400 + (low - 0xDC00)))
  else none

/-- The text of characters, where two halves of a pair make one. -/
def paired? : List Input → Option Text
  | [] => some []
  | .char c :: xs => (paired? xs).map (c :: ·)
  | .half high :: .half low :: xs =>
    (pairedChar? high low).bind fun c => (paired? xs).map (c :: ·)
  | .half _ :: _ => none

/-- The quote that string literals are written between. -/
def quote : Input := .char '"'

/-- What a string literal stands for, from the text behind its opening quote. -/
def stringValue? (xs : List Input) : Option (List Input) := do
  let content ← content? [quote] xs
  if .char '\n' ∈ content ∨ .char '\r' ∈ content then none else interpretFrom? 0 content

/-- What a text block stands for, from the text behind its opening delimiter. -/
def blockValue? (xs : List Input) : Option (List Input) := do
  let content ← content? [quote, quote, quote] (← afterOpening? xs)
  interpretFrom? 0 ([.char '\n'].intercalate (stripLines (sourceLines content)))

/-- What a literal stands for: a text block if it starts with three quotes. -/
def inputValue? (xs : List Input) : Option (List Input) :=
  if [quote, quote, quote] <+: xs then blockValue? (xs.drop 3)
  else if [quote] <+: xs then stringValue? (xs.drop 1)
  else none

/-- The value of a literal or text block as it is written. -/
def javaValue? (raw : Text) : Option Text :=
  (input? raw).bind fun xs => (inputValue? xs).bind paired?

end SqlInjection.Java
