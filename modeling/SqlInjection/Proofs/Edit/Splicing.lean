import Mathlib.Algebra.GroupWithZero.Nat
import SqlInjection.Proofs.Edit.Acceptance

/-!
# Edits as one splice

Edits are applied to a source from its end to its front. Here they are read from front to end.

* `normalize_eq_of_mem_iff`: the edits in order depend only on which edits there are, and these are
  strictly ordered (`pairwise_lt_normalize`);
* `Edit.Chosen`: the edits that are applied, said without a pass over the source. An edit is chosen
  exactly when it ends before the next chosen one starts;
* `Splices.keeps`: a character that no edit in place covers is kept, and moved by what the edits
  before it put in and take out.

`applyEdits?_splices_chosen` puts this together.
-/

namespace SqlInjection

open Text

/-! ## The edits of a set -/

theorem Text.eq_of_compare {s t : Text} (h : Text.compare s t = .eq) : s = t := by
  induction s generalizing t with
  | nil => cases t <;> first | rfl | cases h
  | cons c s ih =>
    cases t with
    | nil => cases h
    | cons d t =>
      obtain ⟨hhead, htail⟩ := Ordering.then_eq_eq.1 h
      rw [ih htail, Char.val_inj.1 (Std.LawfulEqCmp.eq_of_compare hhead)]

namespace Edit

theorem eq_of_compare {a b : Edit} (h : compare a b = .eq) : a = b := by
  obtain ⟨hstart, hrest⟩ := Ordering.then_eq_eq.1 h
  obtain ⟨hstop, hreplacement⟩ := Ordering.then_eq_eq.1 hrest
  obtain ⟨⟨start, stop⟩, replacement⟩ := a
  obtain ⟨⟨start', stop'⟩, replacement'⟩ := b
  obtain rfl : start = start' := Nat.compare_eq_eq.1 hstart
  obtain rfl : stop = stop' := Nat.compare_eq_eq.1 hstop
  obtain rfl : replacement = replacement' := Text.eq_of_compare hreplacement
  rfl

theorem lt_of_le_of_ne {a b : Edit} (h : le a b = true) (hne : a ≠ b) : compare a b = .lt := by
  cases hab : compare a b with
  | lt => rfl
  | eq => exact absurd (eq_of_compare hab) hne
  | gt => rw [le, hab] at h; cases h

/-- Of equal edits in order one is left, so that each comes strictly before the next. -/
theorem pairwise_lt_once {es : List Edit} (h : es.Pairwise fun a b => le a b = true) :
    (once es).Pairwise fun a b => compare a b = .lt := by
  induction es with
  | nil => exact List.Pairwise.nil
  | cons e es ih =>
    obtain ⟨he, hes⟩ := List.pairwise_cons.1 h
    rw [once_cons]
    split
    · exact ih hes
    · rename_i hhead
      refine List.pairwise_cons.2 ⟨fun x hx => ?_, ih hes⟩
      refine lt_of_le_of_ne (he x (mem_once.1 hx)) fun hex => hhead ?_
      subst hex
      -- the copy of `e` is the first one left, as nothing comes before it
      obtain ⟨y, ys, hys⟩ := List.exists_cons_of_ne_nil (List.ne_nil_of_mem hx)
      rw [hys, List.head?_cons]
      rw [hys] at hx
      rcases List.mem_cons.1 hx with rfl | hx
      · rfl
      · have hlt := (List.pairwise_cons.1 (hys ▸ ih hes)).1 e hx
        have hle := he y (mem_once.1 (hys ▸ List.mem_cons_self))
        rw [le, @Std.OrientedCmp.eq_swap Edit compare, hlt] at hle
        cases hle

theorem pairwise_lt_normalize (es : List Edit) :
    (normalize es).Pairwise fun a b => compare a b = .lt := by
  rw [normalize_eq]
  exact pairwise_lt_once (List.pairwise_mergeSort le_trans le_total es)

theorem ne_of_compare {a b : Edit} (h : compare a b = .lt) : a ≠ b := by
  rintro rfl
  rw [@Std.ReflCmp.compare_self Edit compare] at h
  cases h

theorem nodup_normalize (es : List Edit) : (normalize es).Nodup :=
  (pairwise_lt_normalize es).imp ne_of_compare

/-- A list of the same edits in strict order is the only one. -/
theorem normalize_eq_of_pairwise_lt {es ordered : List Edit}
    (hlt : ordered.Pairwise fun a b => compare a b = .lt) (h : ∀ e, e ∈ es ↔ e ∈ ordered) :
    normalize es = ordered := by
  have hperm : (normalize es).Perm ordered :=
    (List.perm_ext_iff_of_nodup (nodup_normalize es) (hlt.imp ne_of_compare)).2 fun e => by
      rw [mem_normalize, h]
  refine hperm.eq_of_pairwise (fun a b _ _ hab hba => ?_) (pairwise_lt_normalize es) hlt
  exact absurd hba (Std.OrientedCmp.not_lt_of_lt hab)

/-- The edits in order depend only on which edits there are. -/
theorem normalize_eq_of_mem_iff {es fs : List Edit} (h : ∀ e, e ∈ fs ↔ e ∈ es) :
    normalize fs = normalize es :=
  normalize_eq_of_pairwise_lt (pairwise_lt_normalize es) fun e => by rw [h, mem_normalize]

/-! ## Choosing from front to end -/

/-- Where the first of the edits starts; `limit` when there is none. -/
def nextStart (limit : Nat) : List Edit → Nat
  | [] => limit
  | e :: _ => e.span.start

/-- The edits of an ordered list that are applied to a source of `size` bytes: those that are not
reversed and end before the next one that is applied starts, or before the source ends. -/
structure Chosen (size : Nat) (ordered chosen : List Edit) : Prop where
  sublist : chosen.Sublist ordered
  mem_iff : ∀ l e r, ordered = l ++ e :: r →
    (e ∈ chosen ↔ e.span.start ≤ e.span.stop ∧
      e.span.stop ≤ nextStart size (chosen.filter (· ∈ r)))

theorem nextStart_concat (limit : Nat) (es : List Edit) (e : Edit) :
    nextStart limit (es ++ [e]) = nextStart e.span.start es := by
  cases es <;> rfl

/-- A pass leaves the source as it was up to the edit it has applied last. -/
theorem limitAfter_eq_nextStart (limit : Nat) (es : List Edit) :
    limitAfter limit es = nextStart limit (acceptedBelow limit es).reverse := by
  induction es generalizing limit with
  | nil => rfl
  | cons e es ih =>
    rw [limitAfter, acceptedBelow]
    split
    · rw [ih, List.reverse_cons, nextStart_concat]
    · exact ih limit

/-- Behind an edit, what is applied is what is applied of the edits behind it. -/
theorem filter_accepted {limit : Nat} {l r : List Edit} {e : Edit} (h : (l ++ e :: r).Nodup) :
    ((acceptedBelow limit (l ++ e :: r).reverse).reverse).filter (· ∈ r) =
      (acceptedBelow limit r.reverse).reverse := by
  obtain ⟨-, her, hdisjoint⟩ := List.nodup_append.1 h
  have hsub : ∀ x limit, x ∈ acceptedBelow limit (e :: l.reverse) → x ∉ r := by
    intro x limit hx hxr
    rcases List.mem_cons.1 ((acceptedBelow_sublist limit _).subset hx) with rfl | hxl
    · exact (List.nodup_cons.1 her).1 hxr
    · exact hdisjoint x (List.mem_reverse.1 hxl) x (List.mem_cons_of_mem e hxr) rfl
  rw [List.reverse_append, List.reverse_cons, List.append_assoc, List.singleton_append,
    acceptedBelow_append, List.reverse_append, List.filter_append]
  rw [List.filter_eq_nil_iff.2 fun x hx => by
    simpa using hsub x _ (List.mem_reverse.1 hx), List.nil_append, List.filter_eq_self]
  intro x hx
  simpa using (acceptedBelow_sublist limit _).subset (List.mem_reverse.1 hx)

theorem chosen_accepted (source : Text) (es : List Edit) :
    Chosen (byteSize source) (normalize es) (accepted source es) where
  sublist := by
    have := (acceptedBelow_sublist (byteSize source) (normalize es).reverse).reverse
    rwa [List.reverse_reverse] at this
  mem_iff := by
    intro l e r heq
    have hnodup := nodup_normalize es
    rw [heq] at hnodup
    have hnew : e ∉ r.reverse := fun h =>
      (List.nodup_cons.1 (List.nodup_append.1 hnodup).2.1).1 (List.mem_reverse.1 h)
    rw [accepted, heq, filter_accepted hnodup, ← limitAfter_eq_nextStart, List.mem_reverse,
      List.reverse_append, List.reverse_cons, List.append_assoc, List.singleton_append,
      mem_acceptedBelow_append_cons hnew]

/-- Edits in range that do not overlap are all chosen. Two insertions at one place do not overlap,
and neither does an insertion at an end of a range. -/
theorem Chosen.mem_of_apart {size : Nat} {ordered chosen : List Edit}
    (h : Chosen size ordered chosen) (hlt : ordered.Pairwise fun a b => compare a b = .lt)
    (hrange : ∀ e ∈ ordered, e.Accepts size)
    (hapart : ∀ a ∈ ordered, ∀ b ∈ ordered, a ≠ b →
      a.span.stop ≤ b.span.start ∨ b.span.stop ≤ a.span.start) {e : Edit} (he : e ∈ ordered) :
    e ∈ chosen := by
  obtain ⟨l, r, rfl⟩ := List.append_of_mem he
  refine (h.mem_iff l e r rfl).2 ⟨(hrange e he).1, ?_⟩
  cases hnext : chosen.filter (· ∈ r) with
  | nil => exact (hrange e he).2
  | cons x xs =>
    have hx : x ∈ r := by
      have : x ∈ chosen.filter (· ∈ r) := hnext ▸ List.mem_cons_self
      simpa using (List.mem_filter.1 this).2
    have hxall : x ∈ l ++ e :: r := by simp [hx]
    have hex : compare e x = .lt :=
      (List.pairwise_cons.1 (List.pairwise_append.1 hlt).2.1).1 x hx
    have horder := start_le_of_le (a := e) (b := x) (by rw [le, hex]; rfl)
    have hxrange := hrange x hxall
    have := hapart e he x hxall (ne_of_compare hex)
    change e.span.stop ≤ x.span.start
    omega

end Edit

/-! ## What is kept -/

/-- The bytes that edits which end at `n` or before take out. -/
def Edit.bytesOut (n : Nat) (es : List Edit) : Nat :=
  ((es.filter (·.span.stop ≤ n)).map fun e => e.span.stop - e.span.start).sum

/-- The bytes that edits which end at `n` or before put in. -/
def Edit.bytesIn (n : Nat) (es : List Edit) : Nat :=
  ((es.filter (·.span.stop ≤ n)).map fun e => byteSize e.replacement).sum

theorem Edit.bytes_eq_zero {n : Nat} {es : List Edit} (h : ∀ e ∈ es, n < e.span.stop) :
    Edit.bytesOut n es = 0 ∧ Edit.bytesIn n es = 0 := by
  have hnone : es.filter (·.span.stop ≤ n) = [] :=
    List.filter_eq_nil_iff.2 fun e he => by simpa using h e he
  rw [Edit.bytesOut, Edit.bytesIn, hnone]
  exact ⟨rfl, rfl⟩

theorem Edit.bytes_cons {n : Nat} {e : Edit} (h : e.span.stop ≤ n) (es : List Edit) :
    Edit.bytesOut n (e :: es) = e.span.stop - e.span.start + Edit.bytesOut n es ∧
      Edit.bytesIn n (e :: es) = byteSize e.replacement + Edit.bytesIn n es := by
  simp [Edit.bytesOut, Edit.bytesIn, h]

/-- Offsets of characters tell where these stand to each other. -/
theorem Text.cut_of_byteSize {l r s t : Text} {c : Char} (h : l ++ c :: r = s ++ t) :
    byteSize l < byteSize s ∧ (∃ k, s = l ++ c :: k) ∨
      byteSize s ≤ byteSize l ∧ ∃ k, l = s ++ k ∧ t = k ++ c :: r := by
  rcases List.append_eq_append_iff.1 h with ⟨u, hu, ht⟩ | ⟨u, hu, ht⟩
  · cases u with
    | nil =>
      refine Or.inr ⟨?_, [], by simpa using hu.symm, ht.symm⟩
      rw [hu, List.append_nil]
    | cons d u =>
      obtain ⟨rfl, -⟩ := List.cons.inj ht
      refine Or.inl ⟨?_, u, hu⟩
      have := c.utf8Size_pos
      rw [hu, byteSize_append, byteSize_cons]
      omega
  · refine Or.inr ⟨?_, u, hu, ht⟩
    rw [hu, byteSize_append]
    omega

namespace Splices

variable {n : Nat} {t new : Text} {es : List Edit}

theorem start_le_stop (h : Splices n t es new) : ∀ e ∈ es, e.span.start ≤ e.span.stop := by
  intro e he
  obtain ⟨l, cut, r, -, hspan⟩ := h.exists_cut he
  simp only [hspan]
  omega

/-- **A character that no edit in place covers is kept**, moved by what the edits before it put in
and take out. -/
theorem keeps (h : Splices n t es new) {l r : Text} {c : Char} (ht : t = l ++ c :: r)
    (hout : ∀ e ∈ es, n + byteSize l < e.span.start ∨ e.span.stop ≤ n + byteSize l) :
    ∃ l' r', new = l' ++ c :: r' ∧ byteSize l' + Edit.bytesOut (n + byteSize l) es =
      byteSize l + Edit.bytesIn (n + byteSize l) es := by
  induction h generalizing l with
  | none n t => exact ⟨l, r, ht, rfl⟩
  | @edit n kept cut e rest new es hspan hrest ih =>
    have hstart : e.span.start = n + byteSize kept := by rw [hspan]
    have hstop : e.span.stop = n + byteSize kept + byteSize cut := by rw [hspan]
    rcases hout e List.mem_cons_self with hbefore | hbehind
    · -- the character stands in front of all edits
      obtain ⟨k, rfl⟩ : ∃ k, kept = l ++ c :: k := by
        rcases cut_of_byteSize ht.symm with ⟨-, hk⟩ | ⟨hle, -⟩
        · exact hk
        · omega
      have hnone : ∀ x ∈ e :: es, n + byteSize l < x.span.stop := by
        intro x hx
        rcases List.mem_cons.1 hx with rfl | hx
        · omega
        · have := hrest.pairwise.1 x hx
          have := hrest.start_le_stop x hx
          omega
      obtain ⟨hbytesOut, hbytesIn⟩ := Edit.bytes_eq_zero hnone
      exact ⟨l, k ++ (e.replacement ++ new), by simp, by rw [hbytesOut, hbytesIn]⟩
    · rw [← List.append_assoc] at ht
      obtain ⟨k, rfl, hk⟩ : ∃ k, l = kept ++ cut ++ k ∧ rest = k ++ c :: r := by
        rcases cut_of_byteSize ht.symm with ⟨hlt, -⟩ | ⟨-, hk⟩
        · rw [byteSize_append] at hlt
          omega
        · exact hk
      have hoffset : n + byteSize (kept ++ cut ++ k) = e.span.stop + byteSize k := by
        rw [hstop, byteSize_append, byteSize_append]
        omega
      rw [hoffset] at hout hbehind ⊢
      obtain ⟨l', r', rfl, hmoved⟩ := ih hk fun x hx => hout x (List.mem_cons_of_mem e hx)
      obtain ⟨hbytesOut, hbytesIn⟩ := Edit.bytes_cons hbehind es
      refine ⟨kept ++ (e.replacement ++ l'), r', by simp, ?_⟩
      rw [hbytesOut, hbytesIn]
      simp only [byteSize_append]
      omega

end Splices

/-- **Applying edits is one splice that depends on the set of edits alone.** Let every edit in range
start and end between characters. All lists of these edits, in any order and with any repetitions,
give the same new text. It is the source with the chosen edits in place: in the order of start, end
and replacement, an edit is chosen exactly when it is not reversed and ends before the next chosen
one starts, or before the source ends. Every character outside the chosen ranges is kept, and edits
in range that do not overlap are all chosen. -/
theorem applyEdits?_splices_chosen {source : Text} {es : List Edit}
    (h : ∀ e ∈ es, e.Accepts (byteSize source) → e.Fits source) :
    ∃ ordered chosen new,
      (∀ e, e ∈ ordered ↔ e ∈ es) ∧ (ordered.Pairwise fun a b => Edit.compare a b = .lt) ∧
      Edit.Chosen (byteSize source) ordered chosen ∧ Splices 0 source chosen new ∧
      (∀ fs, (∀ e, e ∈ fs ↔ e ∈ es) → applyEdits? source fs = some new) ∧
      (∀ l c r, source = l ++ c :: r →
        (∀ e ∈ chosen, byteSize l < e.span.start ∨ e.span.stop ≤ byteSize l) →
        ∃ l' r', new = l' ++ c :: r' ∧ byteSize l' + Edit.bytesOut (byteSize l) chosen =
          byteSize l + Edit.bytesIn (byteSize l) chosen) ∧
      ((∀ e ∈ es, e.Accepts (byteSize source)) →
        (∀ a ∈ es, ∀ b ∈ es, a ≠ b →
          a.span.stop ≤ b.span.start ∨ b.span.stop ≤ a.span.start) →
        ∀ e ∈ es, e ∈ chosen) := by
  obtain ⟨new, hnew⟩ := exists_applyEdits?_of_inRange h
  have hsplices := applyEdits?_eq_some_iff.1 hnew
  have hchosen := Edit.chosen_accepted source es
  have hmem : ∀ e, e ∈ Edit.normalize es ↔ e ∈ es := fun e => Edit.mem_normalize
  refine ⟨Edit.normalize es, Edit.accepted source es, new, hmem, Edit.pairwise_lt_normalize es,
    hchosen, hsplices, fun fs hfs => ?_, fun l c r hsource hout => ?_,
    fun hrange hapart e he => ?_⟩
  · rw [applyEdits?, Edit.normalize_eq_of_mem_iff hfs, ← applyEdits?, hnew]
  · simpa using hsplices.keeps hsource (by simpa using hout)
  · simp only [← hmem] at hrange hapart he
    exact hchosen.mem_of_apart (Edit.pairwise_lt_normalize es) hrange hapart he

/-- An insertion given twice, one range inside another, a reversed one and one that reaches past the
end of the source. -/
def tangledEdits : List Edit :=
  [⟨⟨1, 4⟩, ['X']⟩, ⟨⟨2, 3⟩, ['Y']⟩, .insert 0 "> ".toList, .insert 0 "> ".toList,
    ⟨⟨5, 2⟩, ['R']⟩, ⟨⟨4, 9⟩, ['E']⟩]

theorem applyEdits?_splices_chosen_tangled :
    (∀ e ∈ tangledEdits, e.Accepts (byteSize "abcdef".toList) → e.Fits "abcdef".toList) ∧
      applyEdits? "abcdef".toList tangledEdits = some "> abYdef".toList ∧
      applyEdits? "abcdef".toList tangledEdits.reverse = some "> abYdef".toList := by
  have hfits : ∀ e ∈ tangledEdits, e.Accepts (byteSize "abcdef".toList) →
      e.Fits "abcdef".toList := by
    simp only [tangledEdits, List.forall_mem_cons, List.not_mem_nil, false_implies, implies_true,
      and_true]
    refine ⟨fun _ => ⟨"a".toList, "bcd".toList, "ef".toList, rfl, rfl⟩,
      fun _ => ⟨"ab".toList, "c".toList, "def".toList, rfl, rfl⟩,
      fun _ => ⟨[], [], "abcdef".toList, rfl, rfl⟩, fun _ => ⟨[], [], "abcdef".toList, rfl, rfl⟩,
      fun hrange => absurd hrange (by decide), fun hrange => absurd hrange (by decide)⟩
  have hordered : Edit.normalize tangledEdits =
      [.insert 0 "> ".toList, ⟨⟨1, 4⟩, ['X']⟩, ⟨⟨2, 3⟩, ['Y']⟩, ⟨⟨4, 9⟩, ['E']⟩,
        ⟨⟨5, 2⟩, ['R']⟩] := by
    refine Edit.normalize_eq_of_pairwise_lt (by decide) fun e => ?_
    simp only [tangledEdits, List.mem_cons, List.not_mem_nil, or_false]
    tauto
  have hdone : applyEdits? "abcdef".toList tangledEdits = some "> abYdef".toList := by
    rw [applyEdits?, hordered]
    decide
  obtain ⟨ordered, chosen, new, -, -, -, -, hsame, -⟩ := applyEdits?_splices_chosen hfits
  refine ⟨hfits, hdone, ?_⟩
  rw [hsame tangledEdits.reverse fun e => List.mem_reverse, ← hsame tangledEdits fun e => Iff.rfl,
    hdone]

end SqlInjection
