/-!
# Texts and byte offsets

A text under analysis is the list of its characters. Positions that leave the library (spans of
syntax nodes, edits, report lines) count bytes of the UTF-8 form, so this module relates the two:

* `Text.byteSize`: the number of bytes of a text;
* `Text.splitAt?`: the two halves at a byte offset, `none` when the offset lies inside a character
  or past the end;
* `Span` and `Text.slice?`: a range of bytes and the text it covers.

`Text.splitAt?_eq_some_iff` says that a cut succeeds exactly at the character boundaries.
-/

namespace SqlInjection

/-- A text, as its characters. -/
abbrev Text := List Char

namespace Text

/-- Number of bytes of the UTF-8 form. -/
def byteSize : Text → Nat
  | [] => 0
  | c :: t => c.utf8Size + byteSize t

@[simp] theorem byteSize_nil : byteSize [] = 0 := rfl

@[simp] theorem byteSize_cons (c : Char) (t : Text) :
    byteSize (c :: t) = c.utf8Size + byteSize t := rfl

@[simp] theorem byteSize_append (s t : Text) : byteSize (s ++ t) = byteSize s + byteSize t := by
  induction s with
  | nil => simp
  | cons c s ih => simp [ih, Nat.add_assoc]

/-- The two halves of a text at byte offset `n`; `none` inside a character or past the end. -/
def splitAt? : Text → Nat → Option (Text × Text)
  | t, 0 => some ([], t)
  | [], _ + 1 => none
  | c :: t, n + 1 =>
    if c.utf8Size ≤ n + 1 then
      (splitAt? t (n + 1 - c.utf8Size)).map fun (l, r) => (c :: l, r)
    else none

@[simp] theorem splitAt?_zero (t : Text) : splitAt? t 0 = some ([], t) := by
  cases t <;> rfl

/-- A cut succeeds exactly where a character ends. -/
theorem splitAt?_eq_some_iff {t : Text} {n : Nat} {l r : Text} :
    splitAt? t n = some (l, r) ↔ l ++ r = t ∧ byteSize l = n := by
  induction t generalizing n l r with
  | nil =>
    cases n with
    | zero =>
      simp only [splitAt?_zero, Option.some.injEq, Prod.mk.injEq, List.append_eq_nil_iff]
      constructor
      · rintro ⟨rfl, rfl⟩; simp
      · rintro ⟨⟨rfl, rfl⟩, -⟩; simp
    | succ n =>
      simp only [splitAt?, reduceCtorEq, List.append_eq_nil_iff, false_iff]
      rintro ⟨⟨rfl, rfl⟩, h⟩
      simp at h
  | cons c t ih =>
    have hc : 0 < c.utf8Size := c.utf8Size_pos
    cases n with
    | zero =>
      simp only [splitAt?_zero, Option.some.injEq, Prod.mk.injEq]
      constructor
      · rintro ⟨rfl, rfl⟩; simp
      · rintro ⟨h, hl⟩
        cases l with
        | nil => simpa using h.symm
        | cons d l => simp at hl; have := d.utf8Size_pos; omega
    | succ n =>
      simp only [splitAt?]
      split
      · rename_i hle
        simp only [Option.map_eq_some_iff, Prod.mk.injEq, Prod.exists]
        constructor
        · rintro ⟨a, b, h, rfl, rfl⟩
          obtain ⟨rfl, hb⟩ := ih.1 h
          exact ⟨rfl, by simp [hb]; omega⟩
        · rintro ⟨h, hl⟩
          cases l with
          | nil => simp at hl
          | cons d l =>
            simp only [List.cons_append, List.cons.injEq] at h
            obtain ⟨rfl, rfl⟩ := h
            refine ⟨l, r, ih.2 ⟨rfl, ?_⟩, rfl, rfl⟩
            simp at hl
            omega
      · rename_i hle
        simp only [reduceCtorEq, false_iff]
        rintro ⟨h, hl⟩
        cases l with
        | nil => simp at hl
        | cons d l =>
          simp only [List.cons_append, List.cons.injEq] at h
          obtain ⟨rfl, rfl⟩ := h
          simp at hl
          omega

/-- The text left after `w`, when the text starts with `w`. -/
def stripPrefix? : Text → Text → Option Text
  | [], t => some t
  | _ :: _, [] => none
  | a :: w, c :: t => if a = c then stripPrefix? w t else none

theorem stripPrefix?_eq_some_iff {w t r : Text} : stripPrefix? w t = some r ↔ w ++ r = t := by
  induction w generalizing t with
  | nil => simp [stripPrefix?, eq_comm]
  | cons a w ih =>
    cases t with
    | nil => simp [stripPrefix?]
    | cons c t =>
      by_cases h : a = c
      · simp [stripPrefix?, h, ih]
      · simp [stripPrefix?, h]

/-- The text left before `w`, when the text ends with `w`. -/
def stripSuffix? (w t : Text) : Option Text :=
  (stripPrefix? w.reverse t.reverse).map List.reverse

theorem stripSuffix?_eq_some_iff {w t r : Text} : stripSuffix? w t = some r ↔ r ++ w = t := by
  simp only [stripSuffix?, Option.map_eq_some_iff, stripPrefix?_eq_some_iff]
  constructor
  · rintro ⟨a, h, rfl⟩
    simpa using congrArg List.reverse h
  · rintro rfl
    exact ⟨r.reverse, by simp, by simp⟩

/-- Whether the text starts with `w`. -/
def startsWith (t w : Text) : Bool := (stripPrefix? w t).isSome

/-- Whether the text ends with `w`. -/
def endsWith (t w : Text) : Bool := startsWith t.reverse w.reverse

/-- Whether `w` occurs in the text. -/
def contains : Text → Text → Bool
  | [], w => w.isEmpty
  | c :: t, w => startsWith (c :: t) w || contains t w

/-- The text before the first `sep` and the text after it. -/
def cut? (sep : Char) : Text → Option (Text × Text)
  | [] => none
  | c :: t => if c = sep then some ([], t) else (cut? sep t).map fun (l, r) => (c :: l, r)

/-- The pieces between the characters that satisfy `p`; one more than there are such characters. -/
def splitBy (p : Char → Bool) : Text → List Text
  | [] => [[]]
  | c :: t =>
    if p c then [] :: splitBy p t
    else match splitBy p t with
      | [] => [[c]]
      | piece :: more => (c :: piece) :: more

/-- The pieces between the occurrences of `sep`. -/
def splitOn (sep : Char) (t : Text) : List Text := splitBy (· == sep) t

/-- The pieces between the copies of `w`, which are taken from left to right and do not overlap;
`skip` characters of the copy under way are passed over. -/
def splitAroundFrom (w : Text) (skip : Nat) : Text → List Text
  | [] => [[]]
  | c :: t =>
    match skip with
    | k + 1 => splitAroundFrom w k t
    | 0 =>
      if startsWith (c :: t) w then [] :: splitAroundFrom w (w.length - 1) t
      else match splitAroundFrom w 0 t with
        | [] => [[c]]
        | p :: ps => (c :: p) :: ps

/-- The pieces between the copies of `w`, which is not empty. -/
def splitAround (w t : Text) : List Text := splitAroundFrom w 0 t

/-- The pieces joined by `sep`. -/
def join (sep : Text) : List Text → Text
  | [] => []
  | [t] => t
  | t :: more => t ++ sep ++ join sep more

/-- Every occurrence of `w` replaced by `new`, leftmost first; `skip` characters of the current
occurrence are still to be dropped. -/
def replaceFrom (w new : Text) (skip : Nat) : Text → Text
  | [] => []
  | c :: t =>
    match skip with
    | k + 1 => replaceFrom w new k t
    | 0 =>
      if startsWith (c :: t) w then new ++ replaceFrom w new (w.length - 1) t
      else c :: replaceFrom w new 0 t

/-- Every occurrence of the nonempty `w` replaced by `new`, leftmost first. -/
def replace (w new t : Text) : Text := replaceFrom w new 0 t

/-- The text without the copies of `w` at its front. -/
def trimStartMatches (w : Text) (t : Text) : Text :=
  go t.length t
where
  /-- At most `fuel` copies are dropped. -/
  go : Nat → Text → Text
    | 0, t => t
    | fuel + 1, t =>
      match stripPrefix? w t with
      | some r => if w.isEmpty then t else go fuel r
      | none => t

/-- The text without the copies of `w` at its end. -/
def trimEndMatches (w : Text) (t : Text) : Text :=
  (trimStartMatches w.reverse t.reverse).reverse

/-- The longest end of the text that satisfies `p` throughout is dropped. -/
def dropEndWhile (p : Char → Bool) (t : Text) : Text :=
  (t.reverse.dropWhile p).reverse

/-- Lexicographic order by code point, which is also the order of the UTF-8 bytes. -/
def compare : Text → Text → Ordering
  | [], [] => .eq
  | [], _ :: _ => .lt
  | _ :: _, [] => .gt
  | a :: s, b :: t => (Ord.compare a.val b.val).then (compare s t)

end Text

/-- A range of bytes: `start` is the first, `stop` is one past the last. -/
structure Span where
  start : Nat
  stop : Nat
  deriving DecidableEq, Repr, Inhabited

/-- The text a span covers; `none` when an end lies inside a character or past the end of the
text, or when the span is reversed. -/
def Text.slice? (t : Text) (s : Span) : Option Text :=
  if s.start ≤ s.stop then do
    let (l, _) ← Text.splitAt? t s.stop
    let (_, m) ← Text.splitAt? l s.start
    return m
  else none

end SqlInjection
