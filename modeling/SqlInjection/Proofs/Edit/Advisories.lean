import Mathlib.Data.List.Perm.Subperm
import SqlInjection.Edit.Fix
import SqlInjection.Proofs.Edit.Splicing

/-!
# Comments are inserted once

An advisory comment goes on a line of its own above the line that holds an offset, and is left out
where that line already is the comment. Here the comments for many offsets are inserted together,
and the source that comes of it is asked again.

* `LiesIn.lineAt?_eq`: a line starts behind whole lines, and an offset in it stands behind a part of
  it without a line feed;
* `Splices.cut`: insertions at a place and before it stay in front of that place, all others behind
  it;
* `Splices.liesIn`: when lines are put between lines, every offset lies in the line it lay in;
* `Splices.lastLine_eq`: where nothing is put in front of a line, the line above it is what it was.

`advised_once` puts these together: the second time there is nothing to insert.
-/

namespace SqlInjection

open Text

/-! ## Lines -/

namespace Text

/-- The text consists of whole lines: it is empty or ends with a line feed. -/
def WholeLines (t : Text) : Prop := ∀ c ∈ t.getLast?, c = '\n'

theorem WholeLines.of_append {s t : Text} (h : WholeLines (s ++ t)) : WholeLines t := by
  intro c hc
  apply h
  rw [List.getLast?_append, hc]
  rfl

theorem WholeLines.append {s t : Text} (hs : WholeLines s) (ht : WholeLines t) :
    WholeLines (s ++ t) := by
  intro c hc
  rw [List.getLast?_append, Option.mem_def, Option.or_eq_some_iff] at hc
  rcases hc with hc | ⟨-, hc⟩
  · exact ht c hc
  · exact hs c hc

theorem WholeLines.mem {t : Text} (h : WholeLines t) (hne : t ≠ []) : '\n' ∈ t := by
  obtain ⟨s, c, rfl⟩ := (List.eq_nil_or_concat' t).resolve_left hne
  obtain rfl : c = '\n' := h c (List.getLast?_concat ..)
  simp

/-- Whole lines end where a line feed was looked for from the end. -/
theorem WholeLines.span {b line : Text} (hb : WholeLines b) (hline : '\n' ∉ line) :
    ((b ++ line).reverse.takeWhile (· != '\n')).reverse = line ∧
      ((b ++ line).reverse.dropWhile (· != '\n')).reverse = b := by
  have hspan : (line.reverse ++ b.reverse).takeWhile (· != '\n') = line.reverse ∧
      (line.reverse ++ b.reverse).dropWhile (· != '\n') = b.reverse := by
    apply span_append
    · intro c hc
      have : c ≠ '\n' := fun h => hline (h ▸ List.mem_reverse.1 hc)
      simpa using this
    · intro c hc
      rw [List.head?_reverse] at hc
      simpa using hb c hc
  rw [List.reverse_append, hspan.1, hspan.2, List.reverse_reverse, List.reverse_reverse]
  exact ⟨rfl, rfl⟩

/-- Every text is made of whole lines and a part of a line. -/
theorem exists_wholeLines (t : Text) :
    ∃ b line, WholeLines b ∧ '\n' ∉ line ∧ t = b ++ line := by
  refine ⟨(t.reverse.dropWhile (· != '\n')).reverse, (t.reverse.takeWhile (· != '\n')).reverse,
    ?_, ?_, ?_⟩
  · intro c hc
    rw [List.getLast?_reverse] at hc
    have hnot := List.head?_dropWhile_not (· != '\n') t.reverse
    rw [hc] at hnot
    simpa using hnot
  · intro h
    have := List.mem_takeWhile_imp (List.mem_reverse.1 h)
    simp at this
  · rw [← List.reverse_append, List.takeWhile_append_dropWhile, List.reverse_reverse]

theorem lastLine_append {b line : Text} (hb : WholeLines b) (hline : '\n' ∉ line) :
    lastLine (b ++ (line ++ ['\n'])) = line := by
  rw [lastLine, ← List.append_assoc, List.dropLast_concat, (hb.span hline).1]

/-- Whole lines that are there have a last one. -/
theorem WholeLines.exists_lastLine {t : Text} (h : WholeLines t) (hne : t ≠ []) :
    ∃ b line, WholeLines b ∧ '\n' ∉ line ∧ t = b ++ (line ++ ['\n']) := by
  obtain ⟨s, c, rfl⟩ := (List.eq_nil_or_concat' t).resolve_left hne
  obtain rfl : c = '\n' := h c (List.getLast?_concat ..)
  obtain ⟨b, line, hb, hline, rfl⟩ := exists_wholeLines s
  exact ⟨b, line, hb, hline, List.append_assoc ..⟩

/-- Byte offset `n` of a text lies in the line `head ++ tail`, behind its part `head`; the lines
`above` stand before that line, and `below` is the rest of the text. -/
structure LiesIn (t : Text) (n : Nat) (above head tail below : Text) : Prop where
  eq : t = above ++ (head ++ tail ++ below)
  offset : n = byteSize above + byteSize head
  above : WholeLines above
  line : '\n' ∉ head ++ tail
  below : ∀ c ∈ below.head?, c = '\n'

theorem exists_liesIn {t : Text} {n : Nat} (h : (splitAt? t n).isSome = true) :
    ∃ above head tail below, LiesIn t n above head tail below := by
  obtain ⟨⟨l, r⟩, hsplit⟩ := Option.isSome_iff_exists.1 h
  obtain ⟨rfl, rfl⟩ := splitAt?_eq_some_iff.1 hsplit
  obtain ⟨above, head, habove, hhead, rfl⟩ := exists_wholeLines l
  refine ⟨above, head, r.takeWhile (· != '\n'), r.dropWhile (· != '\n'), ?_,
    byteSize_append .., habove, ?_, ?_⟩
  · rw [List.append_assoc, List.append_assoc, List.takeWhile_append_dropWhile]
  · rw [List.mem_append, not_or]
    refine ⟨hhead, fun hmem => ?_⟩
    have := List.mem_takeWhile_imp hmem
    simp at this
  · intro c hc
    have hnot := List.head?_dropWhile_not (· != '\n') r
    rw [hc] at hnot
    simpa using hnot

theorem LiesIn.lineAt?_eq {t above head tail below : Text} {n : Nat}
    (h : LiesIn t n above head tail below) :
    lineAt? t n = some (above, head ++ tail ++ below) := by
  have hhead : '\n' ∉ head := fun hmem => h.line (List.mem_append_left tail hmem)
  have hsplit : splitAt? t (min n (byteSize t)) = some (above ++ head, tail ++ below) := by
    rw [splitAt?_eq_some_iff, h.eq, h.offset]
    refine ⟨by simp, ?_⟩
    simp only [byteSize_append]
    omega
  obtain ⟨htake, hdrop⟩ := h.above.span hhead
  rw [lineAt?, hsplit]
  simp only [Option.map_some, htake, hdrop, List.append_assoc]

/-- A line starts where another one starts, before it or behind its end. -/
theorem lineStart_cases {a b above line below : Text} (ha : WholeLines a) (hline : '\n' ∉ line)
    (h : a ++ b = above ++ (line ++ below)) :
    byteSize a ≤ byteSize above ∨ byteSize above + byteSize line < byteSize a := by
  rcases List.append_eq_append_iff.1 h with ⟨k, rfl, -⟩ | ⟨k, rfl, hk⟩
  · exact Or.inl (by rw [byteSize_append]; omega)
  · by_cases hnil : k = []
    · exact Or.inl (by rw [hnil, List.append_nil])
    · have hfeed : '\n' ∈ k := ha.of_append.mem hnil
      rcases List.append_eq_append_iff.1 hk with ⟨m, rfl, -⟩ | ⟨m, rfl, -⟩
      · -- the line feed that ends `a` stands behind the line
        cases m with
        | nil => exact absurd (by simpa using hfeed) hline
        | cons c m =>
          have := c.utf8Size_pos
          refine Or.inr ?_
          simp only [byteSize_append, byteSize_cons]
          omega
      · exact absurd (List.mem_append_left m hfeed) hline

end Text

/-! ## Lines put between lines -/

/-- The edit puts whole lines in front of a line. -/
structure Edit.PutsLines (source : Text) (e : Edit) : Prop where
  place : ∃ above below, source = above ++ below ∧ WholeLines above ∧
    e.span = ⟨byteSize above, byteSize above⟩
  lines : e.replacement.getLast? = some '\n'

theorem Edit.PutsLines.empty {source : Text} {e : Edit} (h : e.PutsLines source) :
    e.span.stop = e.span.start := by
  obtain ⟨a, b, -, -, hspan⟩ := h.place
  rw [hspan]

namespace Splices

variable {n : Nat} {t new : Text} {es : List Edit}

/-- Insertions at a place and before it stay in front of it, and all others behind it. -/
theorem cut {l r : Text} (h : Splices n (l ++ r) es new)
    (hempty : ∀ e ∈ es, e.span.stop = e.span.start) :
    ∃ es₁ es₂ l' r', es = es₁ ++ es₂ ∧ new = l' ++ r' ∧ Splices n l es₁ l' ∧
      Splices (n + byteSize l) r es₂ r' ∧ (∀ e ∈ es₁, e.span.stop ≤ n + byteSize l) ∧
      ∀ e ∈ es₂, n + byteSize l < e.span.stop := by
  generalize ht : l ++ r = t at h
  induction h generalizing l with
  | none n t =>
    subst ht
    exact ⟨[], [], l, r, rfl, rfl, .none n l, .none _ r, by simp, by simp⟩
  | @edit n kept gone e rest new es hspan hrest ih =>
    have hstart : e.span.start = n + byteSize kept := by rw [hspan]
    have hstop : e.span.stop = n + byteSize kept + byteSize gone := by rw [hspan]
    have hsize : byteSize gone = 0 := by
      have := hempty e List.mem_cons_self
      omega
    obtain rfl : gone = [] := eq_nil_of_byteSize hsize
    rw [List.nil_append] at ht
    have hcases : (∃ k, l = kept ++ k ∧ rest = k ++ r) ∨
        ∃ c k, kept = l ++ c :: k ∧ r = c :: k ++ rest := by
      rcases List.append_eq_append_iff.1 ht with ⟨k, hk, hr⟩ | ⟨k, hl, hr⟩
      · cases k with
        | nil => exact Or.inl ⟨[], by simpa using hk.symm, by simpa using hr.symm⟩
        | cons c k => exact Or.inr ⟨c, k, hk, hr⟩
      · exact Or.inl ⟨k, hl, hr⟩
    rcases hcases with ⟨k, rfl, rfl⟩ | ⟨c, k, rfl, rfl⟩
    · -- the first insertion stands in front of the place
      have hplace : e.span.stop + byteSize k = n + byteSize (kept ++ k) := by
        rw [hstop, hsize, byteSize_append]
        omega
      obtain ⟨es₁, es₂, l', r', rfl, rfl, hl, hr, hbefore, hbehind⟩ :=
        ih (fun x hx => hempty x (List.mem_cons_of_mem e hx)) rfl
      rw [hplace] at hr hbefore hbehind
      refine ⟨e :: es₁, es₂, kept ++ (e.replacement ++ l'), r', rfl, by simp, ?_, hr, ?_, hbehind⟩
      · exact .edit kept [] hspan hl
      · apply List.forall_mem_cons.2 ⟨?_, hbefore⟩
        rw [← hplace]
        omega
    · -- all insertions stand behind it
      have hwhole : Splices (n + byteSize l) (c :: k ++ rest) (e :: es)
          (c :: k ++ (e.replacement ++ new)) := by
        rw [byteSize_append, ← Nat.add_assoc] at hspan
        exact .edit (c :: k) [] hspan hrest
      refine ⟨[], e :: es, l, _, rfl, by simp, .none n l, hwhole, by simp, fun x hx => ?_⟩
      have hfirst : n + byteSize l < e.span.stop := by
        have := c.utf8Size_pos
        rw [hstop, byteSize_append, byteSize_cons]
        omega
      rcases List.mem_cons.1 hx with rfl | hmem
      · exact hfirst
      · have := hrest.pairwise.1 x hmem
        have := hempty x hx
        omega

/-- What insertions add to the size of a text. -/
theorem byteSize_eq (h : Splices n t es new) (hempty : ∀ e ∈ es, e.span.stop = e.span.start) :
    byteSize new = byteSize t + (es.map fun e => byteSize e.replacement).sum := by
  induction h with
  | none n t => simp
  | @edit n kept gone e rest new es hspan hrest ih =>
    have hstart : e.span.start = n + byteSize kept := by rw [hspan]
    have hstop : e.span.stop = n + byteSize kept + byteSize gone := by rw [hspan]
    have := hempty e List.mem_cons_self
    have hnew := ih fun x hx => hempty x (List.mem_cons_of_mem e hx)
    simp only [byteSize_append, List.map_cons, List.sum_cons]
    omega

/-- Whole lines stay whole lines when whole lines are put in. -/
theorem wholeLines (h : Splices n t es new) (ht : WholeLines t)
    (hes : ∀ e ∈ es, e.replacement.getLast? = some '\n') : WholeLines new := by
  induction h with
  | none n t => exact ht
  | @edit n kept gone e rest new es hspan hrest ih =>
    have hnew : WholeLines new := ih ht.of_append.of_append fun x hx =>
      hes x (List.mem_cons_of_mem e hx)
    have hlast := hes e List.mem_cons_self
    have hput : WholeLines (e.replacement ++ new) := by
      refine WholeLines.append (fun c hc => ?_) hnew
      rw [hlast] at hc
      exact (Option.some.inj hc).symm
    intro c hc
    rw [List.getLast?_append_of_ne_nil _ fun hnil => ?_] at hc
    · exact hput c hc
    · rw [(List.append_eq_nil_iff.1 hnil).1] at hlast
      cases hlast

/-- Nothing is put in front of the first character by insertions behind it. -/
theorem head?_eq (h : Splices n t es new) (hstart : ∀ e ∈ es, n < e.span.start) :
    new.head? = t.head? := by
  cases h with
  | none => rfl
  | @edit _ kept gone e rest new es hspan hrest =>
    cases kept with
    | nil =>
      have hplace : e.span.start = n + byteSize [] := by rw [hspan]
      have := hstart e List.mem_cons_self
      rw [byteSize_nil] at hplace
      omega
    | cons c kept => rfl

section Lines

variable {source : Text} (h : Splices 0 source es new) (hes : ∀ e ∈ es, e.PutsLines source)
include h hes

/-- When lines are put between lines, an offset lies in the line it lay in, and what is put in at
the start of this line and before it moves it on. -/
theorem liesIn {m : Nat} {above head tail below : Text}
    (hm : LiesIn source m above head tail below) :
    ∃ above' below', LiesIn new (m + Edit.bytesIn (byteSize above) es) above' head tail below' ∧
      Splices 0 above (es.filter (·.span.stop ≤ byteSize above)) above' := by
  have hempty := fun e he => (hes e he).empty
  -- no line starts in the line of the offset
  have hbehind : ∀ e ∈ es, byteSize above < e.span.stop →
      byteSize above + byteSize (head ++ tail) < e.span.start := by
    intro e he hlt
    obtain ⟨a, b, hab, ha, hspan⟩ := (hes e he).place
    have hstart : e.span.start = byteSize a := by rw [hspan]
    have := lineStart_cases ha hm.line (hab.symm.trans hm.eq)
    have := hempty e he
    omega
  rw [hm.eq] at h
  obtain ⟨es₁, es₂, above', r', rfl, rfl, habove, hr, hfront, hback⟩ := h.cut hempty
  simp only [Nat.zero_add] at hr hfront hback
  have hstarts : ∀ e ∈ es₂, byteSize above + byteSize (head ++ tail) < e.span.start := fun e he =>
    hbehind e (List.mem_append_right es₁ he) (hback e he)
  obtain ⟨es₃, es₄, line', below', rfl, rfl, hline, hbelow, hinside, -⟩ :=
    hr.cut fun e he => hempty e (List.mem_append_right es₁ he)
  obtain rfl : es₃ = [] := by
    refine List.eq_nil_iff_forall_not_mem.2 fun e he => ?_
    have := hstarts e (List.mem_append_left es₄ he)
    have := hinside e he
    have := hempty e (by simp [he])
    omega
  obtain rfl := nil_iff.1 hline
  have hfilter : (es₁ ++ ([] ++ es₄)).filter (·.span.stop ≤ byteSize above) = es₁ := by
    rw [List.filter_append, List.filter_eq_self.2 fun e he => decide_eq_true (hfront e he),
      List.filter_eq_nil_iff.2 fun e he => by simpa using hback e he, List.append_nil]
  have hsize := habove.byteSize_eq fun e he => hempty e (List.mem_append_left _ he)
  refine ⟨above', below', ⟨rfl, ?_, ?_, hm.line, ?_⟩, ?_⟩
  · rw [Edit.bytesIn, hfilter, hsize, hm.offset]
    omega
  · exact habove.wholeLines hm.above fun e he => (hes e (List.mem_append_left _ he)).lines
  · rw [hbelow.head?_eq hstarts]
    exact hm.below
  · rw [hfilter]
    exact habove

end Lines

section LastLine

variable {above below above' : Text} (h : Splices 0 above es above')
  (hes : ∀ e ∈ es, e.PutsLines (above ++ below)) (habove : WholeLines above)
include h hes habove

/-- Where nothing is put in front of a line, the line above it is what it was. -/
theorem lastLine_eq (hne : above ≠ []) (hnone : ∀ e ∈ es, e.span.stop ≠ byteSize above) :
    above' ≠ [] ∧ lastLine above' = lastLine above := by
  obtain ⟨b, line, hb, hline, rfl⟩ := habove.exists_lastLine hne
  obtain ⟨es₁, es₂, b', r', rfl, rfl, hfront, hback, -, hbehind⟩ :=
    h.cut fun e he => (hes e he).empty
  obtain rfl : es₂ = [] := by
    refine List.eq_nil_iff_forall_not_mem.2 fun e he => ?_
    have hmem : e ∈ es₁ ++ es₂ := List.mem_append_right es₁ he
    obtain ⟨a, r, hab, ha, hspan⟩ := (hes e hmem).place
    have hstop : e.span.stop = byteSize a := by rw [hspan]
    have hsplit : a ++ r = b ++ (line ++ '\n' :: below) := by
      rw [← hab]
      simp
    have hcases := lineStart_cases ha hline hsplit
    have hle : byteSize a ≤ byteSize (b ++ (line ++ ['\n'])) := by
      obtain ⟨l, gone, r, heq, hspan'⟩ := h.exists_cut hmem
      rw [heq, ← hstop, hspan']
      simp only [byteSize_append]
      omega
    have hfeed : byteSize ['\n'] = 1 := rfl
    have := hbehind e he
    have := hnone e hmem
    rw [byteSize_append, byteSize_append, hfeed] at this hle
    omega
  obtain rfl := nil_iff.1 hback
  have hb' : WholeLines b' := hfront.wholeLines hb fun e he =>
    (hes e (List.mem_append_left [] he)).lines
  refine ⟨by simp, ?_⟩
  rw [lastLine_append hb' hline, lastLine_append hb hline]

/-- Where one line is put in front of a line, it is the line above. -/
theorem lastLine_of_mem {e : Edit} {line : Text} (he : e ∈ es)
    (hstop : e.span.stop = byteSize above)
    (honly : ∀ x ∈ es, x.span.stop = byteSize above → x = e) (hline : '\n' ∉ line)
    (hreplacement : e.replacement = line ++ ['\n']) : above' ≠ [] ∧ lastLine above' = line := by
  obtain ⟨as, y, rfl⟩ := (List.eq_nil_or_concat' es).resolve_left (List.ne_nil_of_mem he)
  obtain ⟨l, gone, r, new', rfl, hspan, hl, rfl⟩ := concat_iff.1 h
  -- the last edit stands at the end of the text
  have hlast : byteSize gone = 0 ∧ byteSize r = 0 := by
    have hempty := (hes y (by simp)).empty
    have hystart : y.span.start = 0 + byteSize l := by rw [hspan]
    have hystop : y.span.stop = 0 + byteSize l + byteSize gone := by rw [hspan]
    simp only [byteSize_append] at hstop
    rcases List.mem_append.1 he with hmem | hmem
    · have := (List.pairwise_append.1 h.pairwise.2).2.2 e hmem y List.mem_cons_self
      omega
    · obtain rfl : e = y := by simpa using hmem
      omega
  obtain rfl : gone = [] := eq_nil_of_byteSize hlast.1
  obtain rfl : r = [] := eq_nil_of_byteSize hlast.2
  obtain rfl : y = e := honly y (by simp) (by rw [hspan]; simp)
  have hnew' : WholeLines new' := by
    refine hl.wholeLines ?_ fun x hx => (hes x (List.mem_append_left _ hx)).lines
    simpa using habove
  rw [List.append_nil, hreplacement]
  exact ⟨by simp, lastLine_append hnew' hline⟩

end LastLine

end Splices

/-- Lines that are put between lines do not overlap, so that all are put in. -/
theorem exists_splices_normalize {source : Text} {edits : List Edit}
    (h : ∀ e ∈ Edit.normalize edits, e.PutsLines source) :
    ∃ new, applyEdits? source edits = some new ∧ Splices 0 source (Edit.normalize edits) new := by
  have hfits : ∀ e ∈ edits, e.Fits source := by
    intro e he
    obtain ⟨above, below, hsource, -, hspan⟩ := (h e (Edit.mem_normalize.2 he)).place
    exact ⟨above, [], below, hsource, hspan⟩
  have hchosen := Edit.chosen_accepted source edits
  have hall : ∀ e ∈ Edit.normalize edits, e ∈ Edit.accepted source edits := by
    intro e he
    refine hchosen.mem_of_apart (Edit.pairwise_lt_normalize edits)
      (fun x hx => (hfits x (Edit.mem_normalize.1 hx)).bounds) (fun a ha b hb _ => ?_) he
    have := (h a ha).empty
    have := (h b hb).empty
    omega
  have haccepted : Edit.accepted source edits = Edit.normalize edits :=
    hchosen.sublist.eq_of_length_le
      (List.subperm_of_subset (Edit.nodup_normalize edits) hall).length_le
  obtain ⟨new, hnew⟩ := exists_applyEdits? hfits
  refine ⟨new, hnew, ?_⟩
  rw [← haccepted]
  exact applyEdits?_eq_some_iff.1 hnew

/-! ## Comments -/

/-- The edits that put the comment above the lines of several offsets. -/
def adviseAll? (style : CommentStyle) (source : Text) : List Nat → Option (List Edit)
  | [] => some []
  | n :: ns => do
    let advice ← adviseAt? style source n
    let edits ← adviseAll? style source ns
    pure (advice.toList ++ edits)

/-- The byte offset at which the line of an offset starts. -/
def Text.lineStart (t : Text) (n : Nat) : Nat :=
  ((lineAt? t n).map fun (above, _) => byteSize above).getD 0

/-- Where an offset stands after edits: it is moved by what is put in at the start of its line and
before it. -/
def movedOffset (source : Text) (edits : List Edit) (n : Nat) : Nat :=
  n + Edit.bytesIn (lineStart source n) (Edit.normalize edits)

section Advice

variable {style : CommentStyle} {source : Text} {offsets : List Nat}

theorem CommentStyle.comment_ne (style : CommentStyle) :
    '\n' ∉ style.comment ∧ trim style.comment = style.comment ∧
      ∀ c ∈ style.comment.head?, isBlank c = false := by
  cases style <;> refine ⟨by decide, by rfl, ?_⟩ <;> rintro c ⟨⟩ <;> rfl

theorem indentOf_blank {t : Text} {c : Char} (h : c ∈ indentOf t) :
    isBlank c = true ∧ c ≠ '\n' := by
  have := List.mem_takeWhile_imp h
  simp only [Bool.or_eq_true, beq_iff_eq] at this
  rcases this with rfl | rfl <;> decide

/-- The comment is found behind any indentation. -/
theorem trim_indent_comment (style : CommentStyle) (t : Text) :
    trim (indentOf t ++ style.comment) = style.comment := by
  obtain ⟨-, htrim, hhead⟩ := style.comment_ne
  have hstart : trimStart style.comment = style.comment :=
    trimStart_blank_append (w := []) (by simp) hhead
  rw [trim, hstart] at htrim
  rw [trim, trimStart_blank_append (fun c hc => (indentOf_blank hc).1) hhead, htrim]

theorem adviseAt?_of_liesIn (style : CommentStyle) {n : Nat} {above head tail below : Text}
    (h : LiesIn source n above head tail below) :
    adviseAt? style source n = some (if !above.isEmpty && trim (lastLine above) == style.comment
      then none
      else some (Edit.insert (byteSize above)
        (indentOf (head ++ tail ++ below) ++ style.comment ++ ['\n']))) := by
  rw [adviseAt?, h.lineAt?_eq]
  rfl

theorem mem_adviseAll? (style : CommentStyle)
    (h : ∀ n ∈ offsets, (splitAt? source n).isSome = true) :
    ∃ edits, adviseAll? style source offsets = some edits ∧
      ∀ e, e ∈ edits ↔ ∃ n ∈ offsets, adviseAt? style source n = some (some e) := by
  induction offsets with
  | nil => exact ⟨[], rfl, by simp⟩
  | cons n ns ih =>
    obtain ⟨edits, hedits, hmem⟩ := ih fun m hm => h m (List.mem_cons_of_mem n hm)
    obtain ⟨above, head, tail, below, hn⟩ := exists_liesIn (h n List.mem_cons_self)
    obtain ⟨advice, hadvice⟩ : ∃ advice, adviseAt? style source n = some advice :=
      ⟨_, adviseAt?_of_liesIn style hn⟩
    refine ⟨advice.toList ++ edits, by rw [adviseAll?, hadvice, hedits]; rfl, fun e => ?_⟩
    rw [List.mem_append, hmem, List.exists_mem_cons_iff, hadvice, Option.mem_toList]
    simp

theorem adviseAll?_of_quiet (h : ∀ n ∈ offsets, adviseAt? style source n = some none) :
    adviseAll? style source offsets = some [] := by
  induction offsets with
  | nil => rfl
  | cons n ns ih =>
    rw [adviseAll?, h n List.mem_cons_self, ih fun m hm => h m (List.mem_cons_of_mem n hm)]
    rfl

theorem putsLines_of_adviseAt? {n : Nat} {e : Edit} (hn : (splitAt? source n).isSome = true)
    (h : adviseAt? style source n = some (some e)) : e.PutsLines source := by
  obtain ⟨above, head, tail, below, hn⟩ := exists_liesIn hn
  rw [adviseAt?_of_liesIn style hn, Option.some.injEq] at h
  split at h
  · cases h
  · obtain rfl := Option.some.inj h
    exact ⟨⟨above, _, hn.eq, hn.above, rfl⟩, List.getLast?_concat ..⟩

/-- All comments that go in front of a line are the same. -/
theorem eq_of_adviseAt? {n : Nat} {e : Edit} {above line : Text}
    (hn : (splitAt? source n).isSome = true) (h : adviseAt? style source n = some (some e))
    (hsource : source = above ++ line) (hstop : e.span.stop = byteSize above) :
    e = Edit.insert (byteSize above) (indentOf line ++ style.comment ++ ['\n']) := by
  obtain ⟨above₂, head, tail, below, hn⟩ := exists_liesIn hn
  rw [adviseAt?_of_liesIn style hn, Option.some.injEq] at h
  split at h
  · cases h
  · obtain rfl := Option.some.inj h
    have hcut : splitAt? source (byteSize above) = some (above₂, head ++ tail ++ below) :=
      splitAt?_eq_some_iff.2 ⟨hn.eq.symm, hstop⟩
    rw [splitAt?_eq_some_iff.2 ⟨hsource.symm, rfl⟩, Option.some.injEq, Prod.mk.injEq] at hcut
    obtain ⟨rfl, rfl⟩ := hcut
    rfl

/-- When the comments for all offsets are inserted, one of them or one that was there stands above
the line of each offset. -/
theorem comment_above {edits : List Edit} (h : ∀ n ∈ offsets, (splitAt? source n).isSome = true)
    (hmem : ∀ e, e ∈ edits ↔ ∃ n ∈ offsets, adviseAt? style source n = some (some e)) {n : Nat}
    (hn : n ∈ offsets) {above head tail below above' : Text}
    (hlies : LiesIn source n above head tail below)
    (habove : Splices 0 above ((Edit.normalize edits).filter (·.span.stop ≤ byteSize above))
      above') :
    above' ≠ [] ∧ trim (lastLine above') = style.comment := by
  have hputs : ∀ e ∈ (Edit.normalize edits).filter (·.span.stop ≤ byteSize above),
      e.PutsLines (above ++ (head ++ tail ++ below)) := by
    intro e he
    obtain ⟨m, hm, hadvice⟩ := (hmem e).1 (Edit.mem_normalize.1 (List.mem_of_mem_filter he))
    rw [← hlies.eq]
    exact putsLines_of_adviseAt? (h m hm) hadvice
  have honly : ∀ e ∈ Edit.normalize edits, e.span.stop = byteSize above →
      e = Edit.insert (byteSize above)
        (indentOf (head ++ tail ++ below) ++ style.comment ++ ['\n']) := by
    intro e he hstop
    obtain ⟨m, hm, hadvice⟩ := (hmem e).1 (Edit.mem_normalize.1 he)
    exact eq_of_adviseAt? (h m hm) hadvice hlies.eq hstop
  by_cases hhere : ∃ e ∈ Edit.normalize edits, e.span.stop = byteSize above
  · -- the comment was put in front of this line
    obtain ⟨e, he, hstop⟩ := hhere
    have hline : '\n' ∉ indentOf (head ++ tail ++ below) ++ style.comment := by
      rw [List.mem_append, not_or]
      exact ⟨fun hfeed => (indentOf_blank hfeed).2 rfl, style.comment_ne.1⟩
    obtain ⟨hne, hlast⟩ := habove.lastLine_of_mem hputs hlies.above
      (List.mem_filter.2 ⟨he, by simp [hstop]⟩) hstop
      (fun x hx hx' => (honly x (List.mem_of_mem_filter hx) hx').trans (honly e he hstop).symm)
      hline (by rw [honly e he hstop]; rfl)
    exact ⟨hne, by rw [hlast, trim_indent_comment]⟩
  · -- nothing was put in front of it, because the comment was there
    have hthere : above ≠ [] ∧ trim (lastLine above) = style.comment := by
      by_contra hnot
      have hadvice := adviseAt?_of_liesIn style hlies
      rw [if_neg (by simpa using hnot)] at hadvice
      exact hhere ⟨_, Edit.mem_normalize.2 ((hmem _).2 ⟨n, hn, hadvice⟩), rfl⟩
    obtain ⟨hne, hlast⟩ := habove.lastLine_eq hputs hlies.above hthere.1
      fun e he hstop => hhere ⟨e, List.mem_of_mem_filter he, hstop⟩
    exact ⟨hne, by rw [hlast, hthere.2]⟩

/-- **Comments are inserted once.** The comments for any offsets between characters can be computed
and inserted together. In the new source, each offset, moved by what is inserted at the start of its
line and before it, lies where it lay in its line, and there is no comment to insert for it, so
that nothing is inserted when all are asked for again. -/
theorem advised_once (style : CommentStyle) {source : Text} {offsets : List Nat}
    (h : ∀ n ∈ offsets, (splitAt? source n).isSome = true) :
    ∃ edits new, adviseAll? style source offsets = some edits ∧
      applyEdits? source edits = some new ∧
      (∀ n ∈ offsets, adviseAt? style new (movedOffset source edits n) = some none ∧
        ∃ above head tail below above' below', LiesIn source n above head tail below ∧
          LiesIn new (movedOffset source edits n) above' head tail below') ∧
      adviseAll? style new (offsets.map (movedOffset source edits)) = some [] := by
  obtain ⟨edits, hedits, hmem⟩ := mem_adviseAll? style h
  have hputs : ∀ e ∈ Edit.normalize edits, e.PutsLines source := by
    intro e he
    obtain ⟨n, hn, hadvice⟩ := (hmem e).1 (Edit.mem_normalize.1 he)
    exact putsLines_of_adviseAt? (h n hn) hadvice
  obtain ⟨new, hnew, hsplices⟩ := exists_splices_normalize hputs
  have hquiet : ∀ n ∈ offsets, adviseAt? style new (movedOffset source edits n) = some none ∧
      ∃ above head tail below above' below', LiesIn source n above head tail below ∧
        LiesIn new (movedOffset source edits n) above' head tail below' := by
    intro n hn
    obtain ⟨above, head, tail, below, hlies⟩ := exists_liesIn (h n hn)
    obtain ⟨above', below', hlies', habove⟩ := hsplices.liesIn hputs hlies
    have hmoved : movedOffset source edits n =
        n + Edit.bytesIn (byteSize above) (Edit.normalize edits) := by
      rw [movedOffset, lineStart, hlies.lineAt?_eq]
      rfl
    rw [← hmoved] at hlies'
    refine ⟨?_, above, head, tail, below, above', below', hlies, hlies'⟩
    have hcomment := comment_above h hmem hn hlies habove
    rw [adviseAt?_of_liesIn style hlies', if_pos (by simpa using hcomment)]
  refine ⟨edits, new, hedits, hnew, hquiet, adviseAll?_of_quiet fun m hm => ?_⟩
  obtain ⟨n, hn, rfl⟩ := List.mem_map.1 hm
  exact (hquiet n hn).1

end Advice

/-- A line at the front of a source and one below it, which is indented. -/
def neighbouringLines : Text := "s = a;\n  t = é;\n".toList

/-- The comment that is put above a line of Java, with the indentation of the line. -/
def javaComment (indentation : Text) : Text :=
  indentation ++ ("// ".toList ++ ("sqlsentry: possible SQL injection; " ++
    "bind values as parameters instead of concatenating them").toList) ++ ['\n']

theorem advised_once_neighbours :
    let offsets := [0, 15, 9]
    (∀ n ∈ offsets, (splitAt? neighbouringLines n).isSome = true) ∧
      ∃ edits new, adviseAll? .java neighbouringLines offsets = some edits ∧
        edits = [.insert 0 (javaComment []), .insert 7 (javaComment "  ".toList),
          .insert 7 (javaComment "  ".toList)] ∧
        applyEdits? neighbouringLines edits = some new ∧
        adviseAll? .java new (offsets.map (movedOffset neighbouringLines edits)) = some [] := by
  intro offsets
  have hcut : ∀ n ∈ offsets, (splitAt? neighbouringLines n).isSome = true := by decide
  have hall : adviseAll? .java neighbouringLines offsets =
      some [.insert 0 (javaComment []), .insert 7 (javaComment "  ".toList),
        .insert 7 (javaComment "  ".toList)] := by
    rfl
  obtain ⟨edits, new, hedits, hnew, -, hquiet⟩ := advised_once .java hcut
  exact ⟨hcut, edits, new, hedits, Option.some.inj (hedits.symm.trans hall), hnew, hquiet⟩

end SqlInjection
