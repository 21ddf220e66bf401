import Mathlib.Data.List.Perm.Subperm
import SqlInjection.Proofs.Detector.FormatAgreement

/-!
# Placeholders and the arguments that a formatter fills in

A formatter reads a template as conversions: a percent sign, an argument index, flags, a width, a
precision and letters, of which only the sign and the letters have to be there. A conversion with an
index takes the argument of that number. The others take the arguments in turn, except those that
repeat an argument or take none. `formatterIndex?` is the index of the argument that is filled in
where a placeholder stands.

The fragments of a template are made from its placeholders alone (`sequentialIndex?`), and so they
count fewer conversions than there are, or more: `templateFragments_pairs_iff` says for which
templates every placeholder gets the argument that the formatter fills in there, and
`templateFragments_behind_number` shows a text taken for a number.

* `templateFragments_eq`: the fragments are the texts between the placeholders, with the argument of
  each at its index;
* `filledIn_iff`: two ways to choose arguments give the same fragments of all of them only if they
  choose the same indices;
* `countP_lt_iff`: indices are the same when no other conversion is counted.
-/

namespace SqlInjection

/-! ## Conversions -/

/-- A flag of a conversion. -/
def isConversionFlag (c : Char) : Bool := decide (c ∈ "-#+ 0,(<".toList)

/-- The letters of a conversion that is written with one. -/
def conversionLetters : Text := "bBhHsScCdoxXeEfgGaAn%".toList

/-- The letters that select a part of a time, behind a `t`. -/
def timeLetters : Text := "HIklMSLNpzZsQBbhAaCYyjmdeRTrDFc".toList

/-- The digits of an argument index, its text, and the text after it. -/
def readArgumentIndex (t : Text) : Option Text × Text × Text :=
  match t.takeWhile Char.isDigit, t.dropWhile Char.isDigit with
  | d :: ds, '$' :: rest => (some (d :: ds), d :: ds ++ ['$'], rest)
  | _, _ => (none, [], t)

/-- A precision and the text after it. -/
def readPrecision : Text → Text × Text
  | '.' :: t =>
    if (t.takeWhile Char.isDigit).isEmpty then ([], '.' :: t)
    else ('.' :: t.takeWhile Char.isDigit, t.dropWhile Char.isDigit)
  | t => ([], t)

/-- The letters of a conversion and the text after them. -/
def readLetters : Text → Option (Text × Text)
  | c :: t =>
    if c = 't' ∨ c = 'T' then
      match t with
      | d :: rest => if d ∈ timeLetters then some ([c, d], rest) else none
      | [] => none
    else if c ∈ conversionLetters then some ([c], t) else none
  | [] => none

/-- Reads a conversion, with the digits of its argument index captured. -/
def conversionPattern : Pattern
  | '%' :: t =>
    let (index, indexText, t₁) := readArgumentIndex t
    let t₂ := t₁.dropWhile isConversionFlag
    let (precision, t₃) := readPrecision (t₂.dropWhile Char.isDigit)
    (readLetters t₃).map fun (letters, rest) =>
      ⟨'%' :: (indexText ++ (t₁.takeWhile isConversionFlag ++ (t₂.takeWhile Char.isDigit ++
        (precision ++ letters)))), index, rest⟩
  | _ => none

/-- Whether a conversion takes the next argument: it has no index, does not repeat an argument, and
is neither a line break nor a percent sign. -/
def Occurrence.isOrdinary (c : Occurrence) : Bool :=
  c.capture.isNone && decide ('<' ∉ c.token) && c.token.getLast? != some 'n' &&
    c.token.getLast? != some '%'

/-- Where the conversions begin that take the arguments in turn. -/
def ordinaryPlaces (t : Text) : List Nat :=
  ((occurrences conversionPattern t).filter Occurrence.isOrdinary).map (·.before.length)

/-- The index of the argument that a formatter fills in where a placeholder stands: `none` when no
conversion begins there, or none that takes an argument. -/
def formatterIndex? (t : Text) (o : Occurrence) : Option Nat :=
  match (occurrences conversionPattern t).find? (·.before == o.before) with
  | none => none
  | some c =>
    match c.capture with
    | some digits =>
      match numberOf? digits with
      | some (n + 1) => some n
      | _ => none
    | none =>
      if c.isOrdinary then some ((ordinaryPlaces t).countP (· < o.before.length)) else none

/-! ## Placeholders of a text -/

/-- What an occurrence is: a pattern reads it at its place. -/
theorem reads_of_mem_occurrencesFrom {p : Pattern} (hp : p.Consumes) {seen t : Text} {k : Nat}
    {o : Occurrence} (h : o ∈ occurrencesFrom p seen k t) :
    ∃ s, o.before = seen.reverse ++ s ∧ t = s ++ (o.token ++ o.after) ∧
      p (o.token ++ o.after) = some ⟨o.token, o.capture, o.after⟩ := by
  induction t generalizing seen k with
  | nil => simp [occurrencesFrom] at h
  | cons c t ih =>
    have hpass : ∀ k, o ∈ occurrencesFrom p (c :: seen) k t →
        ∃ s, o.before = seen.reverse ++ s ∧ c :: t = s ++ (o.token ++ o.after) ∧
          p (o.token ++ o.after) = some ⟨o.token, o.capture, o.after⟩ := by
      intro k hk
      obtain ⟨s, hbefore, rfl, hread⟩ := ih hk
      exact ⟨c :: s, by simp [hbefore], rfl, hread⟩
    cases k with
    | succ k => exact hpass k h
    | zero =>
      rw [occurrencesFrom] at h
      cases hread : p (c :: t) with
      | none =>
        rw [hread] at h
        exact hpass 0 h
      | some r =>
        rw [hread] at h
        rcases List.mem_cons.1 h with rfl | h
        · have heq := (hp _ _ hread).1
          exact ⟨[], by simp, heq.symm, by rw [heq, hread]⟩
        · exact hpass _ h

theorem pairwise_occurrencesFrom {p : Pattern} (hp : p.Consumes) (seen t : Text) (k : Nat) :
    (occurrencesFrom p seen k t).Pairwise fun o o' => o.before.length < o'.before.length := by
  induction t generalizing seen k with
  | nil => simp [occurrencesFrom]
  | cons c t ih =>
    cases k with
    | succ k => exact ih (c :: seen) k
    | zero =>
      rw [occurrencesFrom]
      cases p (c :: t) with
      | none => exact ih (c :: seen) 0
      | some r =>
        refine List.Pairwise.cons (fun o ho => ?_) (ih (c :: seen) _)
        obtain ⟨s, hbefore, -⟩ := reads_of_mem_occurrencesFrom hp ho
        simp [hbefore]

section

variable {p : Pattern} (hp : p.Consumes) {t : Text} {o o' : Occurrence}
include hp

theorem reads_of_mem_occurrences (h : o ∈ occurrences p t) :
    o.before ++ (o.token ++ o.after) = t ∧
      p (o.token ++ o.after) = some ⟨o.token, o.capture, o.after⟩ := by
  obtain ⟨s, hbefore, ht, hread⟩ := reads_of_mem_occurrencesFrom hp h
  rw [List.reverse_nil, List.nil_append] at hbefore
  exact ⟨by rw [hbefore, ht], hread⟩

theorem pairwise_occurrences (t : Text) :
    (occurrences p t).Pairwise fun o o' => o.before.length < o'.before.length :=
  pairwise_occurrencesFrom hp [] t 0

theorem eq_of_before_eq (h : o ∈ occurrences p t) (h' : o' ∈ occurrences p t)
    (heq : o.before = o'.before) : o = o' := by
  obtain ⟨ht, hread⟩ := reads_of_mem_occurrences hp h
  obtain ⟨ht', hread'⟩ := reads_of_mem_occurrences hp h'
  rw [← ht', heq, List.append_cancel_left_eq] at ht
  rw [ht, hread', Option.some.injEq, Reading.mk.injEq] at hread
  obtain ⟨htoken, hcapture, hafter⟩ := hread
  cases o
  cases o'
  simp_all

theorem nodup_places (q : Occurrence → Bool) (t : Text) :
    (((occurrences p t).filter q).map (·.before.length)).Nodup := by
  refine List.Pairwise.map _ (fun _ _ h => Nat.ne_of_lt h) ?_
  exact (pairwise_occurrences hp t).sublist List.filter_sublist

end

/-- A pattern whose first character is not among the others of what it reads finds every place
where it can be read. -/
theorem mem_occurrencesFrom {p : Pattern} (hp : p.Consumes) {c : Char}
    (hc : ∀ t r, p t = some r → c ∉ r.token.tail) {s u : Text} {r : Reading}
    (hread : p (c :: u) = some r) {seen : Text} {k : Nat} (hk : k ≤ s.length) :
    ⟨seen.reverse ++ s, r.token, r.capture, r.after⟩ ∈ occurrencesFrom p seen k (s ++ c :: u) := by
  induction s generalizing seen k with
  | nil =>
    obtain rfl := Nat.le_zero.1 hk
    simp [occurrencesFrom, hread]
  | cons d s ih =>
    have hstep : seen.reverse ++ d :: s = (d :: seen).reverse ++ s := by simp
    rw [List.cons_append, hstep]
    cases k with
    | succ k => exact ih (Nat.le_of_succ_le_succ hk)
    | zero =>
      rw [occurrencesFrom]
      cases hd : p (d :: (s ++ c :: u)) with
      | none => exact ih (Nat.zero_le _)
      | some r' =>
        -- what is read here ends before the place, or it would hold `c`
        refine List.mem_cons_of_mem _ (ih ?_)
        by_contra hlong
        obtain ⟨m, hm⟩ : ∃ m, r'.token.length - 1 = s.length + (m + 1) :=
          ⟨r'.token.length - 1 - s.length - 1, by omega⟩
        refine hc _ _ hd ?_
        rw [← (hp.rest hd).1, hm, List.tail_cons, List.take_length_add_append, List.take_succ_cons]
        exact List.mem_append_right s List.mem_cons_self

theorem mem_occurrences {p : Pattern} (hp : p.Consumes) {c : Char}
    (hc : ∀ t r, p t = some r → c ∉ r.token.tail) {u : Text} {r : Reading}
    (hread : p (c :: u) = some r) (s : Text) :
    ⟨s, r.token, r.capture, r.after⟩ ∈ occurrences p (s ++ c :: u) := by
  have hmem : ⟨([] : Text).reverse ++ s, r.token, r.capture, r.after⟩ ∈
      occurrencesFrom p [] 0 (s ++ c :: u) := mem_occurrencesFrom hp hc hread (Nat.zero_le _)
  exact hmem

theorem readArgumentIndex_eq (t : Text) :
    (readArgumentIndex t).2.1 ++ (readArgumentIndex t).2.2 = t := by
  unfold readArgumentIndex
  split
  · rename_i d ds rest hdigits hrest
    have happend := List.takeWhile_append_dropWhile (p := Char.isDigit) (l := t)
    rw [hdigits, hrest] at happend
    simpa using happend
  · rfl

theorem readPrecision_eq (t : Text) : (readPrecision t).1 ++ (readPrecision t).2 = t := by
  unfold readPrecision
  split
  · split
    · rfl
    · simp [List.takeWhile_append_dropWhile]
  · rfl

theorem readLetters_eq {t letters rest : Text} (h : readLetters t = some (letters, rest)) :
    letters ++ rest = t ∧ letters ≠ [] := by
  unfold readLetters at h
  split at h
  · split at h
    · split at h
      · split at h
        · simp only [Option.some.injEq, Prod.mk.injEq] at h
          obtain ⟨rfl, rfl⟩ := h
          simp
        · simp at h
      · simp at h
    · split at h
      · simp only [Option.some.injEq, Prod.mk.injEq] at h
        obtain ⟨rfl, rfl⟩ := h
        simp
      · simp at h
  · simp at h

theorem consumes_conversionPattern : conversionPattern.Consumes := by
  intro t r h
  unfold conversionPattern at h
  split at h
  · rename_i t
    simp only [Option.map_eq_some_iff, Prod.exists] at h
    obtain ⟨letters, rest, hletters, rfl⟩ := h
    have hindex := readArgumentIndex_eq t
    have hprecision := readPrecision_eq
      (((readArgumentIndex t).2.2.dropWhile isConversionFlag).dropWhile Char.isDigit)
    refine ⟨?_, by simp⟩
    simp only [List.cons_append, List.append_assoc, (readLetters_eq hletters).1, hprecision,
      List.takeWhile_append_dropWhile, hindex]
  · simp at h

example : (occurrences conversionPattern "%-5d%% %tY %2$s%n%<s %s".toList).map
    Occurrence.isOrdinary = [true, false, true, false, false, false, true] := by decide +kernel

/-! ## Placeholders and conversions at one place -/

/-- The digit of an explicit position. -/
def Occurrence.position? (o : Occurrence) : Option Char := o.capture.bind List.head?

theorem isDigit_of_isDecimalDigit {c : Char} (h : Text.isDecimalDigit c = true)
    (hc : c.toNat < 128) : c.isDigit = true := by
  rw [Text.isDecimalDigit, if_pos hc] at h
  exact h

theorem readPosition_inv {t position rest : Text} (h : readPosition t = some (position, rest)) :
    ∃ d width, position = d :: '$' :: width ∧ Text.isDecimalDigit d = true ∧
      ∀ c ∈ width, Text.isDecimalDigit c = true := by
  unfold readPosition at h
  split at h
  · simp only at h
    split at h
    · rename_i d u hd
      simp only [Option.some.injEq, Prod.mk.injEq] at h
      obtain ⟨rfl, rfl⟩ := h
      simp only [Bool.and_eq_true] at hd
      exact ⟨d, _, rfl, hd.1, fun c hc => List.mem_takeWhile_imp hc⟩
    · simp at h
  · simp at h

/-- A placeholder is `%s`, or it has a position of one digit and a width. -/
theorem formatPattern_inv {t : Text} {r : Reading} (h : formatPattern t = some r) :
    (r.token = ['%', 's'] ∧ r.capture = none) ∨
      ∃ d width, r.token = '%' :: d :: '$' :: width ++ ['s'] ∧
        r.capture = some (d :: '$' :: width) ∧ Text.isDecimalDigit d = true ∧
        ∀ c ∈ width, Text.isDecimalDigit c = true := by
  unfold formatPattern at h
  split at h
  · split at h
    · rename_i position rest hposition
      obtain rfl := Option.some.inj h
      obtain ⟨d, width, rfl, hd, hwidth⟩ := readPosition_inv hposition
      exact Or.inr ⟨d, width, rfl, rfl, hd, hwidth⟩
    · split at h
      · obtain rfl := Option.some.inj h
        exact Or.inl ⟨rfl, rfl⟩
      · simp at h
  · simp at h

theorem formatPattern_percent_not_mem (t : Text) (r : Reading) (h : formatPattern t = some r) :
    '%' ∉ r.token.tail := by
  have hdigit : Text.isDecimalDigit '%' = false := by decide
  rcases formatPattern_inv h with ⟨htoken, -⟩ | ⟨d, width, htoken, -, hd, hwidth⟩
  · rw [htoken]
    decide
  · rw [htoken]
    simp only [List.cons_append, List.tail_cons, List.mem_cons, List.mem_append, not_or]
    refine ⟨?_, by decide, ?_, by decide⟩
    · rintro rfl
      simp [hdigit] at hd
    · intro hmem
      exact absurd (hwidth _ hmem) (by simp [hdigit])

theorem formatPattern_plain (t : Text) :
    formatPattern ('%' :: 's' :: t) = some ⟨['%', 's'], none, t⟩ := by
  have hletter : Text.isDecimalDigit 's' = false := by decide
  have hposition : readPosition ('s' :: t) = none := by
    unfold readPosition
    split
    · rename_i heq
      obtain ⟨rfl, -⟩ := List.cons.inj heq
      simp [hletter]
    · rfl
  simp [formatPattern, hposition]

theorem conversionPattern_plain (t : Text) :
    conversionPattern ('%' :: 's' :: t) = some ⟨['%', 's'], none, t⟩ := by
  have hdigit : Char.isDigit 's' = false := by decide
  have hflag : isConversionFlag 's' = false := by decide
  have hletter : 's' ∈ conversionLetters := by decide
  simp [conversionPattern, readArgumentIndex, readPrecision, readLetters, hdigit, hflag, hletter]

/-- A conversion at a position has that digit as its index. -/
theorem conversionPattern_position {d : Char} {t : Text} {r : Reading}
    (hd : Text.isDecimalDigit d = true) (h : conversionPattern ('%' :: d :: '$' :: t) = some r) :
    d.isDigit = true ∧ r.capture = some [d] := by
  cases hdigit : d.isDigit with
  | true =>
    have hindex : readArgumentIndex (d :: '$' :: t) = (some [d], [d, '$'], t) := by
      have hdollar : Char.isDigit '$' = false := by decide
      simp [readArgumentIndex, hdigit, hdollar]
    simp only [conversionPattern, hindex, Option.map_eq_some_iff, Prod.exists] at h
    obtain ⟨letters, rest, -, rfl⟩ := h
    exact ⟨rfl, rfl⟩
  | false =>
    -- a digit of another script is none of the characters of a conversion
    have hwide : ¬ d.toNat < 128 := fun hlt => by
      rw [isDigit_of_isDecimalDigit hd hlt] at hdigit
      cases hdigit
    have hother : ∀ l, l.toNat < 128 → d ≠ l := by
      rintro l hl rfl
      exact hwide hl
    have hflag : isConversionFlag d = false := by
      have hascii : ∀ l ∈ "-#+ 0,(<".toList, l.toNat < 128 := by decide
      exact decide_eq_false fun hmem => hwide (hascii d hmem)
    have hletter : d ∉ conversionLetters := by
      have hascii : ∀ l ∈ conversionLetters, l.toNat < 128 := by decide
      exact fun hmem => hwide (hascii d hmem)
    have hindex : readArgumentIndex (d :: '$' :: t) = (none, [], d :: '$' :: t) := by
      simp [readArgumentIndex, hdigit]
    have hprecision : readPrecision (d :: '$' :: t) = ([], d :: '$' :: t) := by
      unfold readPrecision
      split
      · rename_i heq
        exact absurd (List.cons.inj heq).1 (hother '.' (by decide))
      · rfl
    have hletters : readLetters (d :: '$' :: t) = none := by
      simp [readLetters, hletter, hother 't' (by decide), hother 'T' (by decide)]
    simp [conversionPattern, hindex, hflag, hdigit, hprecision, hletters] at h

/-! ## The two indices -/

/-- Where the placeholders stand that take the arguments in turn. -/
def sequentialPlaces (t : Text) : List Nat :=
  ((occurrences formatPattern t).filter (·.capture.isNone)).map (·.before.length)

/-- The index of the argument that a placeholder is given: its position, or the number of
placeholders without one that stand before it. -/
def sequentialIndex? (t : Text) (o : Occurrence) : Option Nat :=
  match o.capture with
  | some position => positionIndex? position
  | none => some ((sequentialPlaces t).countP (· < o.before.length))

/-- The texts between the placeholders, with fragments for each placeholder put in. -/
def filledIn (t : Text) (fill : Occurrence → List Fragment) : List Fragment :=
  let os := occurrences formatPattern t
  (List.zipWith (fun s o => .constant s :: fill o) (segments formatPattern t) os).flatten ++
    [.constant ((os.getLast?.map (·.after)).getD t)]

/-- Placeholders behind those that are done: the next argument has as many before it. -/
theorem countP_sequentialPlaces {t : Text} {done os : List Occurrence} {o : Occurrence}
    (h : occurrences formatPattern t = done ++ o :: os) :
    (sequentialPlaces t).countP (· < o.before.length) = done.countP (·.capture.isNone) := by
  have hpairwise := pairwise_occurrences consumes_formatPattern t
  rw [h, List.pairwise_append, List.pairwise_cons] at hpairwise
  obtain ⟨-, ⟨hos, -⟩, hdone⟩ := hpairwise
  rw [sequentialPlaces, List.countP_map, List.countP_filter, h, List.countP_append]
  have hrest : ∀ c ∈ o :: os, ¬ c.before.length < o.before.length := by
    intro c hc
    rcases List.mem_cons.1 hc with rfl | hc
    · exact Nat.lt_irrefl _
    · exact Nat.lt_asymm (hos c hc)
  rw [(List.countP_eq_zero (l := o :: os)).2 fun c hc => by simp [hrest c hc], Nat.add_zero]
  exact List.countP_congr fun c hc => by simp [hdone c hc o List.mem_cons_self]

/-- The scan over the placeholders: what is done determines the next index. -/
theorem templateFragmentsFrom_eq (args : List Expr) {t seen : Text} {ss : List Text}
    {os done : List Occurrence} (h : Alternates t seen ss os)
    (hos : occurrences formatPattern t = done ++ os) (tail : Text) :
    templateFragmentsFrom args (done.countP (·.capture.isNone)) seen.length tail os =
      (List.zipWith (fun s o => .constant s ::
        placeholderFragments args (sequentialIndex? t o) o.token) ss os).flatten ++
        [.constant ((os.getLast?.map (·.after)).getD tail)] := by
  induction ss generalizing seen os done tail with
  | nil =>
    cases os with
    | nil => rfl
    | cons o os => exact h.elim
  | cons s ss ih =>
    cases os with
    | nil => exact h.elim
    | cons o os =>
      obtain ⟨hbefore, -, hrest⟩ := h
      have hdrop : o.before.drop seen.length = s := by rw [hbefore, List.drop_left]
      have hlength : o.before.length + o.token.length = (seen ++ s ++ o.token).length := by
        simp [hbefore, Nat.add_assoc]
      have hlast : ((o :: os).getLast?.map (·.after)).getD tail =
          (os.getLast?.map (·.after)).getD o.after := by
        rw [List.getLast?_cons]
        cases os.getLast? <;> rfl
      have hsplit : occurrences formatPattern t = (done ++ [o]) ++ os := by simp [hos]
      have hnext := ih hrest hsplit o.after
      rw [templateFragmentsFrom, hdrop, hlength, hlast, List.zipWith_cons_cons, List.flatten_cons,
        List.append_assoc (_ :: _), ← hnext]
      cases hcapture : o.capture with
      | none =>
        simp [hcapture, sequentialIndex?, countP_sequentialPlaces hos]
      | some position =>
        simp [hcapture, sequentialIndex?]

/-- The fragments of a template, by the index of each placeholder. -/
theorem templateFragments_eq (t : Text) (args : List Expr) :
    templateFragments t args =
      filledIn t fun o => placeholderFragments args (sequentialIndex? t o) o.token := by
  have hnone : occurrences formatPattern t = [] ++ occurrences formatPattern t := rfl
  exact templateFragmentsFrom_eq args (alternates_segments consumes_formatPattern t) hnone t

theorem flatten_zipWith_inj {f g : Occurrence → List Fragment} (hf : ∀ o, (f o).length = 1)
    (hg : ∀ o, (g o).length = 1) {ss : List Text} {os : List Occurrence}
    (hlength : ss.length = os.length)
    (h : (List.zipWith (fun s o => Fragment.constant s :: f o) ss os).flatten =
      (List.zipWith (fun s o => Fragment.constant s :: g o) ss os).flatten) :
    ∀ o ∈ os, f o = g o := by
  induction ss generalizing os with
  | nil => simp [List.length_eq_zero_iff.1 hlength.symm]
  | cons s ss ih =>
    cases os with
    | nil => cases hlength
    | cons o os =>
      simp only [List.zipWith_cons_cons, List.flatten_cons, List.cons_append, List.cons.injEq,
        true_and] at h
      obtain ⟨ho, hrest⟩ := List.append_inj h (by rw [hf, hg])
      exact List.forall_mem_cons.2 ⟨ho, ih (Nat.succ.inj hlength) hrest⟩

/-- Where each placeholder gets one fragment, the fragments of a template show which. -/
theorem filledIn_inj {t : Text} {f g : Occurrence → List Fragment}
    (hf : ∀ o, (f o).length = 1) (hg : ∀ o, (g o).length = 1) (h : filledIn t f = filledIn t g) :
    ∀ o ∈ occurrences formatPattern t, f o = g o :=
  flatten_zipWith_inj hf hg (alternates_segments consumes_formatPattern t).length_eq
    (List.append_cancel_right h)

theorem filledIn_congr {t : Text} {f g : Occurrence → List Fragment}
    (h : ∀ o ∈ occurrences formatPattern t, f o = g o) : filledIn t f = filledIn t g := by
  have hmap : ∀ f : Occurrence → List Fragment,
      List.zipWith (fun s o => Fragment.constant s :: f o) (segments formatPattern t)
        (occurrences formatPattern t) =
      List.zipWith (fun s fs => Fragment.constant s :: fs) (segments formatPattern t)
        ((occurrences formatPattern t).map f) := fun f => by rw [List.zipWith_map_right]
  rw [filledIn, filledIn, hmap f, hmap g, List.map_congr_left h]

/-- A variable for each number, with a name of its own. -/
def numberedVariable (k : Nat) : Expr := .ofRef .variable (List.replicate k 'x') none none

theorem numberedVariable_injective : Function.Injective numberedVariable := by
  intro j k h
  have hname : List.replicate j 'x' = List.replicate k 'x' := by
    simp only [numberedVariable, Expr.ofRef, Expr.ref.injEq] at h
    exact h.2.1
  simpa using congrArg List.length hname

theorem placeholderFragments_numbered {n : Nat} {i : Option Nat} (hi : ∀ k ∈ i, k < n)
    (token : Text) :
    placeholderFragments ((List.range n).map numberedVariable) i token =
      [.dynamic ((i.map numberedVariable).getD (Expr.ofUnknown none token))] := by
  cases i with
  | none => rfl
  | some k =>
    have harg : ((List.range n).map numberedVariable)[k]? = some (numberedVariable k) := by
      simp [hi k rfl]
    rw [placeholderFragments, Option.bind_some, harg]
    rfl

/-- Two ways to choose arguments fill every list of arguments in alike only if they choose the same
indices. -/
theorem filledIn_iff {t : Text} {f g : Occurrence → Option Nat} :
    (∀ args, filledIn t (fun o => placeholderFragments args (f o) o.token) =
      filledIn t fun o => placeholderFragments args (g o) o.token) ↔
      ∀ o ∈ occurrences formatPattern t, f o = g o := by
  constructor
  · intro h o ho
    obtain ⟨n, hf, hg⟩ : ∃ n, (∀ k ∈ f o, k < n) ∧ ∀ k ∈ g o, k < n := by
      refine ⟨(f o).getD 0 + (g o).getD 0 + 1, fun k hk => ?_, fun k hk => ?_⟩
      · rw [hk, Option.getD_some]
        omega
      · rw [hk, Option.getD_some]
        omega
    have hargs : ∀ a ∈ (List.range n).map numberedVariable, ∃ e, a.fragments = [.dynamic e] := by
      intro a ha
      obtain ⟨k, -, rfl⟩ := List.mem_map.1 ha
      exact ⟨numberedVariable k, rfl⟩
    have hone : ∀ i token, (placeholderFragments ((List.range n).map numberedVariable) i
        token).length = 1 := by
      intro i token
      obtain ⟨e, he, -⟩ := placeholderFragments_eq hargs i token
      rw [he]
      rfl
    have hpoint := filledIn_inj (fun o => hone _ _) (fun o => hone _ _) (h _) o ho
    rw [placeholderFragments_numbered hf, placeholderFragments_numbered hg, List.cons.injEq,
      Fragment.dynamic.injEq] at hpoint
    have hexpr := hpoint.1
    cases hfo : f o with
    | none =>
      cases hgo : g o with
      | none => rfl
      | some k => simp [hfo, hgo, numberedVariable, Expr.ofRef, Expr.ofUnknown] at hexpr
    | some j =>
      cases hgo : g o with
      | none => simp [hfo, hgo, numberedVariable, Expr.ofRef, Expr.ofUnknown] at hexpr
      | some k =>
        simp only [hfo, hgo, Option.map_some, Option.getD_some] at hexpr
        rw [numberedVariable_injective hexpr]
  · intro h args
    exact filledIn_congr fun o ho => by rw [h o ho]

/-! ## When the indices agree -/

/-- A conversion begins where the placeholder stands. -/
def BeginsConversion (t : Text) (o : Occurrence) : Prop :=
  ∃ c ∈ occurrences conversionPattern t, c.before = o.before

section

variable {t : Text} {o c : Occurrence}

theorem formatterIndex?_of_forall_ne
    (h : ∀ c ∈ occurrences conversionPattern t, c.before ≠ o.before) :
    formatterIndex? t o = none := by
  have hfind : (occurrences conversionPattern t).find? (·.before == o.before) = none :=
    List.find?_eq_none.2 fun c hc => by simpa using h c hc
  rw [formatterIndex?, hfind]

theorem find?_conversion (hc : c ∈ occurrences conversionPattern t) (heq : c.before = o.before) :
    (occurrences conversionPattern t).find? (·.before == o.before) = some c := by
  cases hfind : (occurrences conversionPattern t).find? (·.before == o.before) with
  | none => exact absurd heq (by simpa using List.find?_eq_none.1 hfind c hc)
  | some c' =>
    have hc' := List.mem_of_find?_eq_some hfind
    have heq' : c'.before = o.before := by simpa using List.find?_some hfind
    rw [eq_of_before_eq consumes_conversionPattern hc' hc (heq'.trans heq.symm)]

/-- A placeholder and a conversion at one place are read from the same text. -/
theorem reads_of_before_eq (ho : o ∈ occurrences formatPattern t)
    (hc : c ∈ occurrences conversionPattern t) (heq : c.before = o.before) :
    conversionPattern (o.token ++ o.after) = some ⟨c.token, c.capture, c.after⟩ := by
  obtain ⟨hot, -⟩ := reads_of_mem_occurrences consumes_formatPattern ho
  obtain ⟨hct, hread⟩ := reads_of_mem_occurrences consumes_conversionPattern hc
  rw [← hot, heq, List.append_cancel_left_eq] at hct
  rw [← hct, hread]

theorem before_eq_of_length_eq (ho : o ∈ occurrences formatPattern t)
    (hc : c ∈ occurrences conversionPattern t) (heq : c.before.length = o.before.length) :
    c.before = o.before :=
  List.append_inj_left ((reads_of_mem_occurrences consumes_conversionPattern hc).1.trans
    (reads_of_mem_occurrences consumes_formatPattern ho).1.symm) heq

theorem conversion_of_plain (ho : o ∈ occurrences formatPattern t) (hcapture : o.capture = none)
    (hc : c ∈ occurrences conversionPattern t) (heq : c.before = o.before) :
    c.token = ['%', 's'] ∧ c.capture = none := by
  have hread := (reads_of_mem_occurrences consumes_formatPattern ho).2
  have hconversion := reads_of_before_eq ho hc heq
  rcases formatPattern_inv hread with ⟨htoken, -⟩ | ⟨d, width, -, hposition, -⟩
  · rw [show o.token = ['%', 's'] from htoken] at hconversion
    rw [List.cons_append, List.cons_append, List.nil_append, conversionPattern_plain] at hconversion
    simp only [Option.some.injEq, Reading.mk.injEq] at hconversion
    exact ⟨hconversion.1.symm, hconversion.2.1.symm⟩
  · simp [hcapture] at hposition

theorem isOrdinary_of_plain (htoken : c.token = ['%', 's']) (hcapture : c.capture = none) :
    c.isOrdinary = true := by
  simp [Occurrence.isOrdinary, htoken, hcapture]

theorem index_eq_iff_of_plain (ho : o ∈ occurrences formatPattern t) (hcapture : o.capture = none) :
    sequentialIndex? t o = formatterIndex? t o ↔
      BeginsConversion t o ∧
        (sequentialPlaces t).countP (· < o.before.length) =
          (ordinaryPlaces t).countP (· < o.before.length) := by
  rw [sequentialIndex?, hcapture]
  by_cases hbegins : BeginsConversion t o
  · obtain ⟨c, hc, heq⟩ := hbegins
    obtain ⟨htoken, hnone⟩ := conversion_of_plain ho hcapture hc heq
    rw [formatterIndex?, find?_conversion hc heq]
    simp only [hnone, isOrdinary_of_plain htoken hnone, if_true, Option.some.injEq]
    exact ⟨fun h => ⟨⟨c, hc, heq⟩, h⟩, And.right⟩
  · rw [formatterIndex?_of_forall_ne fun c hc heq => hbegins ⟨c, hc, heq⟩]
    simp [hbegins]

theorem numberOf?_digit {d : Char} (hd : d.isDigit = true) :
    numberOf? [d] = some (d.toNat - 48) := by
  simp [numberOf?, hd]

theorem positionIndex?_eq {d : Char} (hd : Text.isDecimalDigit d = true) (width : Text) :
    positionIndex? (d :: '$' :: width) = (numberOf? [d]).map (· - 1) := by
  have hdollar : d ≠ '$' := by
    rintro rfl
    exact absurd hd (by decide)
  simp [positionIndex?, hdollar]

theorem ne_zero_of_isDigit {d : Char} (hd : d.isDigit = true) : d ≠ '0' ↔ d.toNat - 48 ≠ 0 := by
  simp only [Char.isDigit, Bool.and_eq_true, decide_eq_true_eq] at hd
  have hlow : 48 ≤ d.toNat := hd.1
  rw [Ne, ← Char.toNat_inj, show Char.toNat '0' = 48 from rfl]
  omega

theorem index_eq_iff_of_position {position : Text} (ho : o ∈ occurrences formatPattern t)
    (hcapture : o.capture = some position) :
    sequentialIndex? t o = formatterIndex? t o ↔
      ∀ d ∈ o.position?, d.isDigit = true → BeginsConversion t o ∧ d ≠ '0' := by
  obtain ⟨d, width, htoken, hposition, hd⟩ : ∃ d width,
      o.token = '%' :: d :: '$' :: width ++ ['s'] ∧ o.capture = some (d :: '$' :: width) ∧
        Text.isDecimalDigit d = true := by
    rcases formatPattern_inv (reads_of_mem_occurrences consumes_formatPattern ho).2 with
      ⟨-, hnone⟩ | ⟨d, width, htoken, hposition, hd, -⟩
    · rw [hcapture] at hnone
      cases hnone
    · exact ⟨d, width, htoken, hposition, hd⟩
  have hdigit : o.position? = some d := by rw [Occurrence.position?, hposition]; rfl
  simp only [hdigit, Option.mem_def, Option.some.injEq, forall_eq']
  rw [sequentialIndex?, hposition]
  simp only
  rw [positionIndex?_eq hd]
  by_cases hbegins : BeginsConversion t o
  · obtain ⟨c, hc, heq⟩ := hbegins
    have hread := reads_of_before_eq ho hc heq
    rw [htoken] at hread
    obtain ⟨hascii, hindex⟩ := conversionPattern_position hd hread
    have hexists : BeginsConversion t o := ⟨c, hc, heq⟩
    rw [formatterIndex?, find?_conversion hc heq, ne_zero_of_isDigit hascii]
    simp only [show c.capture = some [d] from hindex, numberOf?_digit hascii, Option.map_some]
    cases d.toNat - 48 with
    | zero => simp [hascii]
    | succ n => simp [hexists]
  · rw [formatterIndex?_of_forall_ne fun c hc heq => hbegins ⟨c, hc, heq⟩]
    cases hascii : d.isDigit with
    | true => simp [numberOf?_digit hascii, hbegins]
    | false => simp [numberOf?, hascii]

end

/-- Of the numbers below a bound, a list without repetition that is part of another has as many as
that only if it has all of them. -/
theorem countP_lt_iff {as bs : List Nat} (has : as.Nodup) (hbs : bs.Nodup) (hsub : as ⊆ bs)
    (n : Nat) : as.countP (· < n) = bs.countP (· < n) ↔ ∀ b ∈ bs, b < n → b ∈ as := by
  rw [List.countP_eq_length_filter, List.countP_eq_length_filter]
  have hfilter : as.filter (· < n) ⊆ bs.filter (· < n) := fun k hk => by
    rw [List.mem_filter] at hk ⊢
    exact ⟨hsub hk.1, hk.2⟩
  constructor
  · intro hlength b hb hlt
    have hperm := (List.subperm_of_subset (has.filter _) hfilter).perm_of_length_le hlength.ge
    exact List.mem_of_mem_filter (hperm.mem_iff.2 (List.mem_filter.2 ⟨hb, by simpa using hlt⟩))
  · intro hall
    refine List.Perm.length_eq ((List.perm_ext_iff_of_nodup (has.filter _) (hbs.filter _)).2
      fun k => ⟨fun hk => hfilter hk, fun hk => ?_⟩)
    rw [List.mem_filter, decide_eq_true_eq] at hk ⊢
    exact ⟨hall k hk.1 hk.2, hk.2⟩

/-- A template whose placeholders are its conversions in order: a conversion begins at each
placeholder, positions count from one, and of the conversions that take the arguments in turn only
`%s` comes before a placeholder that does. A position in digits of another script is no index for
either reading. -/
structure PlaceholdersInOrder (t : Text) : Prop where
  begins : ∀ o ∈ occurrences formatPattern t, (∀ d ∈ o.position?, d.isDigit = true) →
    BeginsConversion t o
  positive : ∀ o ∈ occurrences formatPattern t, '0' ∉ o.position?
  ordinary : ∀ o ∈ occurrences formatPattern t, o.position? = none →
    ∀ c ∈ occurrences conversionPattern t, c.isOrdinary = true →
      c.before.length < o.before.length → c.token = ['%', 's']

theorem sequentialPlaces_subset {t : Text}
    (h : ∀ o ∈ occurrences formatPattern t, o.capture = none → BeginsConversion t o) :
    sequentialPlaces t ⊆ ordinaryPlaces t := by
  intro n hn
  simp only [sequentialPlaces, List.mem_map, List.mem_filter, Option.isNone_iff_eq_none] at hn
  obtain ⟨o, ⟨ho, hcapture⟩, rfl⟩ := hn
  obtain ⟨c, hc, heq⟩ := h o ho hcapture
  obtain ⟨htoken, hnone⟩ := conversion_of_plain ho hcapture hc heq
  exact List.mem_map.2 ⟨c, List.mem_filter.2 ⟨hc, isOrdinary_of_plain htoken hnone⟩, by rw [heq]⟩

/-- A conversion that takes the arguments in turn is counted as a placeholder if it is `%s`. -/
theorem mem_sequentialPlaces_iff {t : Text} {c : Occurrence}
    (hc : c ∈ occurrences conversionPattern t) :
    c.before.length ∈ sequentialPlaces t ↔ c.token = ['%', 's'] := by
  simp only [sequentialPlaces, List.mem_map, List.mem_filter, Option.isNone_iff_eq_none]
  constructor
  · rintro ⟨o, ⟨ho, hcapture⟩, hlength⟩
    exact (conversion_of_plain ho hcapture hc (before_eq_of_length_eq ho hc hlength.symm)).1
  · intro htoken
    have ht := (reads_of_mem_occurrences consumes_conversionPattern hc).1
    have hmem := mem_occurrences consumes_formatPattern formatPattern_percent_not_mem
      (formatPattern_plain c.after) c.before
    have hplain : c.before ++ '%' :: 's' :: c.after = t := by rw [← ht, htoken]; rfl
    rw [hplain] at hmem
    exact ⟨_, ⟨hmem, rfl⟩, rfl⟩

theorem position?_eq_none_iff {t : Text} {o : Occurrence} (ho : o ∈ occurrences formatPattern t) :
    o.position? = none ↔ o.capture = none := by
  rcases formatPattern_inv (reads_of_mem_occurrences consumes_formatPattern ho).2 with
    ⟨-, hcapture⟩ | ⟨d, width, -, hcapture, -⟩
  · simp [Occurrence.position?, show o.capture = none from hcapture]
  · simp [Occurrence.position?, show o.capture = some (d :: '$' :: width) from hcapture]

theorem index_eq_iff_inOrder (t : Text) :
    (∀ o ∈ occurrences formatPattern t, sequentialIndex? t o = formatterIndex? t o) ↔
      PlaceholdersInOrder t := by
  have hseq : (sequentialPlaces t).Nodup := nodup_places consumes_formatPattern _ t
  have hord : (ordinaryPlaces t).Nodup := nodup_places consumes_conversionPattern _ t
  constructor
  · intro h
    have hplain : ∀ o ∈ occurrences formatPattern t, o.capture = none →
        BeginsConversion t o := fun o ho hcapture =>
      ((index_eq_iff_of_plain ho hcapture).1 (h o ho)).1
    refine ⟨fun o ho hdigits => ?_, fun o ho hzero => ?_, fun o ho hnone c hc hordinary hlt => ?_⟩
    · cases hcapture : o.capture with
      | none => exact hplain o ho hcapture
      | some position =>
        obtain ⟨d, hd⟩ := Option.ne_none_iff_exists'.1 fun hnone => by
          rw [(position?_eq_none_iff ho).1 hnone] at hcapture
          cases hcapture
        exact ((index_eq_iff_of_position ho hcapture).1 (h o ho) d hd (hdigits d hd)).1
    · cases hcapture : o.capture with
      | none =>
        rw [(position?_eq_none_iff ho).2 hcapture] at hzero
        cases hzero
      | some position =>
        exact ((index_eq_iff_of_position ho hcapture).1 (h o ho) '0' hzero rfl).2 rfl
    · have hcount := ((index_eq_iff_of_plain ho ((position?_eq_none_iff ho).1 hnone)).1 (h o ho)).2
      rw [countP_lt_iff hseq hord (sequentialPlaces_subset hplain)] at hcount
      refine (mem_sequentialPlaces_iff hc).1 (hcount _ ?_ hlt)
      exact List.mem_map.2 ⟨c, List.mem_filter.2 ⟨hc, hordinary⟩, rfl⟩
  · intro h o ho
    have hplain : ∀ o ∈ occurrences formatPattern t, o.capture = none →
        BeginsConversion t o := fun o ho hcapture =>
      h.begins o ho (by simp [(position?_eq_none_iff ho).2 hcapture])
    cases hcapture : o.capture with
    | none =>
      refine (index_eq_iff_of_plain ho hcapture).2 ⟨hplain o ho hcapture, ?_⟩
      rw [countP_lt_iff hseq hord (sequentialPlaces_subset hplain)]
      intro n hn hlt
      obtain ⟨c, hc, rfl⟩ := List.mem_map.1 hn
      obtain ⟨hc, hordinary⟩ := List.mem_filter.1 hc
      exact (mem_sequentialPlaces_iff hc).2
        (h.ordinary o ho ((position?_eq_none_iff ho).2 hcapture) c hc hordinary hlt)
    | some position =>
      refine (index_eq_iff_of_position ho hcapture).2 fun d hd hdigit => ⟨?_, ?_⟩
      · refine h.begins o ho fun d' hd' => ?_
        obtain rfl : d = d' := Option.some.inj (hd.symm.trans hd')
        exact hdigit
      · rintro rfl
        exact h.positive o ho hd

/-- **Every placeholder gets the argument that the formatter fills in there, if and only if the
placeholders of the template are its conversions in order.** Otherwise there are arguments for which
the fragments differ from those of the text that is made. -/
theorem templateFragments_pairs_iff (t : Text) :
    (∀ args, templateFragments t args =
      filledIn t fun o => placeholderFragments args (formatterIndex? t o) o.token) ↔
      PlaceholdersInOrder t := by
  simp only [templateFragments_eq]
  rw [filledIn_iff, index_eq_iff_inOrder]

/-- A template with a number and a text. -/
def numberedTemplate : Text := "select * from t where id = %d and name = '%s'".toList

/-- The number and the text for it. -/
def numberedArguments : List Expr :=
  [.ofRef .variable "id".toList (some "int".toList) none,
    .ofRef .variable "name".toList (some "String".toList) none]

/-- The number is put where the text stands, and no text is seen there. -/
theorem templateFragments_behind_number :
    templateFragments numberedTemplate numberedArguments ≠
        filledIn numberedTemplate (fun o => placeholderFragments numberedArguments
          (formatterIndex? numberedTemplate o) o.token) ∧
      chainRisk (templateFragments numberedTemplate numberedArguments) = .safe ∧
      chainRisk (filledIn numberedTemplate (fun o => placeholderFragments numberedArguments
        (formatterIndex? numberedTemplate o) o.token)) = .risky := by
  have hsafe : chainRisk (templateFragments numberedTemplate numberedArguments) = .safe := by
    decide +kernel
  have hrisky : chainRisk (filledIn numberedTemplate (fun o => placeholderFragments
      numberedArguments (formatterIndex? numberedTemplate o) o.token)) = .risky := by
    decide +kernel
  refine ⟨fun heq => ?_, hsafe, hrisky⟩
  rw [← heq, hsafe] at hrisky
  cases hrisky

end SqlInjection
