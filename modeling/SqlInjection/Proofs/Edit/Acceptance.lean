import Mathlib.Data.List.Induction
import SqlInjection.Edit.Basic
import SqlInjection.Proofs.Text.Cutting

/-!
# Which edits are applied

The edits of a source are applied from its end to its front, and an edit that reaches into a part
already edited is dropped without a word. This module says which edits are applied, and what comes
of them.

* `accepted`: the edits of a list that are applied, from front to end;
* `Splices`: a text with edits in place, said without byte offsets into what is left;
* `applyEdits?_eq_some_iff`: the edited source is the source with the accepted edits in place;
* `applyEdits?_of_splices`: edits in order that do not overlap are all applied;
* `mem_accepted_iff`: an edit that only insertions can overlap is applied exactly when nothing is
  inserted inside it.
-/

namespace SqlInjection

open Text

/-! ## The order of edits -/

theorem Text.compare_eq_compareLex (s t : Text) :
    Text.compare s t = List.compareLex (compareOn Char.val) s t := by
  induction s generalizing t with
  | nil => cases t <;> rfl
  | cons c s ih =>
    cases t with
    | nil => rfl
    | cons d t => rw [Text.compare, List.compareLex_cons_cons, ih]; rfl

namespace Edit

/-- Whether an edit may come before another. -/
abbrev le (a b : Edit) : Bool := (compare a b).isLE

theorem compare_eq_compareLex (a b : Edit) :
    compare a b = compareLex (compareOn (·.span.start)) (compareLex (compareOn (·.span.stop))
      fun a b => List.compareLex (compareOn Char.val) a.replacement b.replacement) a b := by
  rw [compare, Text.compare_eq_compareLex]
  rfl

instance : Std.TransCmp fun a b : Edit =>
    List.compareLex (compareOn Char.val) a.replacement b.replacement where
  eq_swap := Std.OrientedCmp.eq_swap
  isLE_trans := Std.TransCmp.isLE_trans

instance : Std.TransCmp compare := by
  rw [funext fun a => funext (compare_eq_compareLex a)]
  infer_instance

theorem le_trans (a b c : Edit) (hab : le a b = true) (hbc : le b c = true) : le a c = true :=
  Std.TransCmp.isLE_trans hab hbc

theorem le_total (a b : Edit) : (le a b || le b a) = true := by
  have hswap : (b.compare a).isLE = (a.compare b).isGE :=
    Bool.eq_iff_iff.2 Std.OrientedCmp.isGE_iff_isLE.symm
  rw [le, le, hswap]
  cases a.compare b <;> rfl

/-- An edit that comes before another starts first, or ends first where both start. -/
theorem start_le_of_le {a b : Edit} (h : le a b = true) :
    a.span.start < b.span.start ∨
      a.span.start = b.span.start ∧ a.span.stop ≤ b.span.stop := by
  rw [le, compare, Ordering.isLE_then_iff_or] at h
  rcases h with h | ⟨h, hrest⟩
  · exact Or.inl (Nat.compare_eq_lt.1 h)
  · refine Or.inr ⟨Nat.compare_eq_eq.1 h, ?_⟩
    rcases Ordering.isLE_then_iff_or.1 hrest with h | ⟨h, -⟩
    · exact Nat.le_of_lt (Nat.compare_eq_lt.1 h)
    · exact Nat.le_of_eq (Nat.compare_eq_eq.1 h)

theorem le_of_start_lt {a b : Edit} (h : a.span.start < b.span.start) : le a b = true := by
  rw [le, compare, Ordering.isLE_then_iff_or]
  exact Or.inl (Nat.compare_eq_lt.2 h)

/-! ## Edits in order, each once -/

/-- The list without the edits that are followed by a copy. -/
def once (es : List Edit) : List Edit :=
  es.foldr (fun e acc => if acc.head? = some e then acc else e :: acc) []

theorem normalize_eq (es : List Edit) : normalize es = once (es.mergeSort le) := rfl

theorem once_cons (e : Edit) (es : List Edit) :
    once (e :: es) = if (once es).head? = some e then once es else e :: once es := rfl

theorem once_sublist (es : List Edit) : (once es).Sublist es := by
  induction es with
  | nil => exact List.Sublist.refl _
  | cons e es ih =>
    rw [once_cons]
    split
    · exact ih.cons e
    · exact ih.cons_cons e

theorem mem_once {e : Edit} {es : List Edit} : e ∈ once es ↔ e ∈ es := by
  refine ⟨fun h => (once_sublist es).subset h, fun h => ?_⟩
  induction es with
  | nil => cases h
  | cons x es ih =>
    rw [once_cons]
    rcases List.mem_cons.1 h with rfl | h
    · split
      · rename_i hhead
        exact List.mem_of_head? hhead
      · exact List.mem_cons_self
    · split
      · exact ih h
      · exact List.mem_cons_of_mem x (ih h)

theorem once_of_nodup {es : List Edit} (h : es.Nodup) : once es = es := by
  induction es with
  | nil => rfl
  | cons e es ih =>
    obtain ⟨he, hes⟩ := List.nodup_cons.1 h
    rw [once_cons, ih hes, if_neg fun hhead => he (List.mem_of_head? hhead)]

theorem mem_normalize {e : Edit} {es : List Edit} : e ∈ normalize es ↔ e ∈ es := by
  rw [normalize_eq, mem_once, (List.mergeSort_perm es le).mem_iff]

theorem pairwise_normalize (es : List Edit) :
    (normalize es).Pairwise fun a b => le a b = true := by
  rw [normalize_eq]
  exact (List.pairwise_mergeSort le_trans le_total es).sublist (once_sublist _)

/-- Edits in order of their starts stay as they are. -/
theorem normalize_of_pairwise {es : List Edit}
    (h : es.Pairwise fun a b => a.span.start < b.span.start) : normalize es = es := by
  have hsorted : es.mergeSort le = es := List.mergeSort_of_pairwise (h.imp le_of_start_lt)
  have hnodup : es.Nodup := h.imp fun hlt heq => by
    rw [heq] at hlt
    exact Nat.lt_irrefl _ hlt
  rw [normalize_eq, hsorted, once_of_nodup hnodup]

/-! ## Edits that are applied -/

/-- Whether an edit is applied when the source is still as it was up to byte offset `limit`. -/
abbrev Accepts (limit : Nat) (e : Edit) : Prop :=
  e.span.start ≤ e.span.stop ∧ e.span.stop ≤ limit

/-- The edits that are applied, when the source is still as it was up to `limit` and the edits come
from its end to its front. -/
def acceptedBelow (limit : Nat) : List Edit → List Edit
  | [] => []
  | e :: es =>
    if Accepts limit e then e :: acceptedBelow e.span.start es else acceptedBelow limit es

/-- The byte offset up to which the source is still as it was after the edits. -/
def limitAfter (limit : Nat) : List Edit → Nat
  | [] => limit
  | e :: es => if Accepts limit e then limitAfter e.span.start es else limitAfter limit es

/-- The edits of a source that are applied, from its front to its end. -/
def accepted (source : Text) (es : List Edit) : List Edit :=
  (acceptedBelow (byteSize source) (normalize es).reverse).reverse

theorem acceptedBelow_append (limit : Nat) (es fs : List Edit) :
    acceptedBelow limit (es ++ fs) =
      acceptedBelow limit es ++ acceptedBelow (limitAfter limit es) fs := by
  induction es generalizing limit with
  | nil => rfl
  | cons e es ih =>
    rw [List.cons_append, acceptedBelow, acceptedBelow, limitAfter]
    split
    · rw [ih, List.cons_append]
    · exact ih limit

theorem limitAfter_append (limit : Nat) (es fs : List Edit) :
    limitAfter limit (es ++ fs) = limitAfter (limitAfter limit es) fs := by
  induction es generalizing limit with
  | nil => rfl
  | cons e es ih =>
    rw [List.cons_append, limitAfter, limitAfter]
    split
    · exact ih _
    · exact ih limit

theorem limitAfter_le (limit : Nat) (es : List Edit) : limitAfter limit es ≤ limit := by
  induction es generalizing limit with
  | nil => exact Nat.le_refl limit
  | cons e es ih =>
    rw [limitAfter]
    split
    · rename_i h
      have := ih e.span.start
      omega
    · exact ih limit

/-- What lies before all edits is still as it was. -/
theorem le_limitAfter {n limit : Nat} {es : List Edit} (hlimit : n ≤ limit)
    (h : ∀ e ∈ es, n ≤ e.span.start) : n ≤ limitAfter limit es := by
  induction es generalizing limit with
  | nil => exact hlimit
  | cons e es ih =>
    have hrest : ∀ x ∈ es, n ≤ x.span.start := fun x hx => h x (List.mem_cons_of_mem e hx)
    rw [limitAfter]
    split
    · exact ih (h e List.mem_cons_self) hrest
    · exact ih hlimit hrest

theorem acceptedBelow_sublist (limit : Nat) (es : List Edit) :
    (acceptedBelow limit es).Sublist es := by
  induction es generalizing limit with
  | nil => exact List.Sublist.refl _
  | cons e es ih =>
    rw [acceptedBelow]
    split
    · exact (ih _).cons_cons e
    · exact (ih limit).cons e

theorem accepts_of_mem_acceptedBelow {limit : Nat} {e : Edit} {es : List Edit}
    (h : e ∈ acceptedBelow limit es) : Accepts limit e := by
  induction es generalizing limit with
  | nil => cases h
  | cons x es ih =>
    rw [acceptedBelow] at h
    split at h
    · rename_i hx
      rcases List.mem_cons.1 h with rfl | h
      · exact hx
      · have := ih h
        exact ⟨this.1, by omega⟩
    · exact ih h

/-- An edit is applied exactly when it lies in what the edits before it have left. -/
theorem mem_acceptedBelow_append_cons {limit : Nat} {e : Edit} {es fs : List Edit} (he : e ∉ es) :
    e ∈ acceptedBelow limit (es ++ e :: fs) ↔ Accepts (limitAfter limit es) e := by
  have hes : e ∉ acceptedBelow limit es := fun h => he ((acceptedBelow_sublist limit es).subset h)
  rw [acceptedBelow_append, List.mem_append, or_iff_right hes, acceptedBelow]
  split
  · rename_i h
    exact ⟨fun _ => h, fun _ => List.mem_cons_self⟩
  · rename_i h
    exact ⟨accepts_of_mem_acceptedBelow, fun h' => absurd h' h⟩

/-- Nothing behind an insertion is left as it was. -/
theorem limitAfter_le_of_insertion {limit : Nat} {x : Edit} {es : List Edit}
    (hsorted : es.Pairwise fun a b => b.span.start ≤ a.span.start) (hx : x ∈ es)
    (hempty : x.span.stop = x.span.start) (hlimit : x.span.start ≤ limit) :
    limitAfter limit es ≤ x.span.start := by
  obtain ⟨as, bs, rfl⟩ := List.append_of_mem hx
  have hbefore : ∀ a ∈ as, x.span.start ≤ a.span.start := fun a ha =>
    (List.pairwise_append.1 hsorted).2.2 a ha x List.mem_cons_self
  have haccepts : Accepts (limitAfter limit as) x :=
    ⟨Nat.le_of_eq hempty.symm, hempty ▸ le_limitAfter hlimit hbefore⟩
  rw [limitAfter_append, limitAfter, if_pos haccepts]
  exact limitAfter_le _ bs

/-- **An edit that only insertions can overlap is applied exactly when nothing is inserted inside
it.** -/
theorem mem_accepted_iff {source : Text} {es : List Edit} {e : Edit} (he : e ∈ es)
    (hspan : e.span.start < e.span.stop) (hstop : e.span.stop ≤ byteSize source)
    (hothers : ∀ x ∈ es, x ≠ e → x.span.start < x.span.stop →
      x.span.stop ≤ e.span.start ∨ e.span.stop ≤ x.span.start)
    (hbounds : ∀ x ∈ es, x.span.start ≤ x.span.stop ∧ x.span.stop ≤ byteSize source) :
    e ∈ accepted source es ↔
      ∀ x ∈ es, ¬ (e.span.start < x.span.start ∧ x.span.start < e.span.stop) := by
  have hmem : e ∈ (normalize es).reverse := by rwa [List.mem_reverse, mem_normalize]
  obtain ⟨as, bs, heq, hnew⟩ := List.eq_append_cons_of_mem hmem
  have hall : ∀ x, x ∈ as ++ e :: bs ↔ x ∈ es := fun x => by
    rw [← heq, List.mem_reverse, mem_normalize]
  have hsorted : (as ++ e :: bs).Pairwise fun a b => le b a = true := by
    rw [← heq, List.pairwise_reverse]
    exact pairwise_normalize es
  have hstarts : as.Pairwise fun a b => b.span.start ≤ a.span.start :=
    (List.pairwise_append.1 hsorted).1.imp fun h => by
      have := start_le_of_le h
      omega
  have hafter : ∀ x ∈ as, le e x = true := fun x hx =>
    (List.pairwise_append.1 hsorted).2.2 x hx e List.mem_cons_self
  rw [accepted, List.mem_reverse, heq, mem_acceptedBelow_append_cons hnew]
  constructor
  · -- an edit that starts inside `e` is an insertion, and is applied before `e`
    rintro ⟨-, hlimit⟩ x hx ⟨hstart, hinside⟩
    have hxb := hbounds x hx
    have hempty : x.span.stop = x.span.start := by
      by_contra hne
      have := hothers x hx (fun h => by rw [h] at hstart; omega) (by omega)
      omega
    have hxas : x ∈ as := by
      rcases List.mem_append.1 ((hall x).2 hx) with h | h
      · exact h
      · have hle : le x e = true := by
          rcases List.mem_cons.1 h with rfl | h
          · omega
          · exact (List.pairwise_cons.1 (List.pairwise_append.1 hsorted).2.1).1 x h
        have := start_le_of_le hle
        omega
    have := limitAfter_le_of_insertion hstarts hxas hempty (hempty ▸ hxb.2)
    omega
  · intro hnone
    refine ⟨Nat.le_of_lt hspan, le_limitAfter hstop fun x hx => ?_⟩
    have hxes : x ∈ es := (hall x).1 (List.mem_append_left _ hx)
    have hne : x ≠ e := fun h => hnew (h ▸ hx)
    have hle := start_le_of_le (hafter x hx)
    have hxb := hbounds x hxes
    have hinside := hnone x hxes
    by_cases hx' : x.span.start < x.span.stop
    · have := hothers x hxes hne hx'
      omega
    · omega

end Edit

/-! ## What comes of the edits -/

/-- `new` is `t`, which starts at byte offset `n`, with the edits in place, in order. -/
inductive Splices : Nat → Text → List Edit → Text → Prop
  | none (n : Nat) (t : Text) : Splices n t [] t
  | edit {n : Nat} (kept cut : Text) {e : Edit} {rest new : Text} {es : List Edit}
      (hspan : e.span = ⟨n + byteSize kept, n + byteSize kept + byteSize cut⟩)
      (hrest : Splices e.span.stop rest es new) :
      Splices n (kept ++ (cut ++ rest)) (e :: es) (kept ++ (e.replacement ++ new))

namespace Splices

variable {n : Nat} {t new : Text} {es : List Edit} {e : Edit}

theorem nil_iff : Splices n t [] new ↔ new = t := by
  constructor
  · rintro ⟨⟩
    rfl
  · rintro rfl
    exact Splices.none n new

/-- The same text in front of a source and of what comes of it. -/
theorem prepend (x : Text) (h : Splices (n + byteSize x) t es new) :
    Splices n (x ++ t) es (x ++ new) := by
  cases h with
  | none => exact Splices.none n _
  | edit kept cut hspan hrest =>
    have hedit := Splices.edit (n := n) (x ++ kept) cut
      (by rw [hspan, byteSize_append, Nat.add_assoc]) hrest
    simpa using hedit

/-- The last edit of a list stands behind what comes of the others. -/
theorem concat_iff : Splices n t (es ++ [e]) new ↔ ∃ l cut r new',
    t = l ++ (cut ++ r) ∧ e.span = ⟨n + byteSize l, n + byteSize l + byteSize cut⟩ ∧
      Splices n l es new' ∧ new = new' ++ (e.replacement ++ r) := by
  induction es generalizing n t new with
  | nil =>
    constructor
    · intro h
      cases h with
      | edit kept cut hspan hrest =>
        cases hrest
        exact ⟨kept, cut, _, kept, rfl, hspan, Splices.none n kept, rfl⟩
    · rintro ⟨l, cut, r, new', rfl, hspan, hl, rfl⟩
      cases hl
      exact Splices.edit l cut hspan (Splices.none _ r)
  | cons x es ih =>
    constructor
    · intro h
      cases h with
      | edit kept cut hspan hrest =>
        obtain ⟨l, cut', r, new', rfl, hspan', hl, rfl⟩ := ih.1 hrest
        refine ⟨kept ++ (cut ++ l), cut', r, kept ++ (x.replacement ++ new'), by simp, ?_,
          Splices.edit kept cut hspan hl, by simp⟩
        rw [hspan', hspan]
        simp only [byteSize_append, Span.mk.injEq]
        omega
    · rintro ⟨l, cut, r, new', rfl, hspan, hl, rfl⟩
      cases hl with
      | @edit _ kept cut' _ rest new'' _ hspan' hrest =>
        have hlast := ih.2 ⟨rest, cut, r, new'', rfl, ?_, hrest, rfl⟩
        · simpa using Splices.edit kept cut' hspan' hlast
        · rw [hspan, hspan']
          simp only [byteSize_append, Span.mk.injEq]
          omega

/-- Edits in place lie one behind the other. -/
theorem pairwise (h : Splices n t es new) :
    (∀ e ∈ es, n ≤ e.span.start) ∧ es.Pairwise fun a b => a.span.stop ≤ b.span.start := by
  induction h with
  | none n t => simp
  | @edit n kept cut e rest new es hspan hrest ih =>
    have hstart : e.span.start = n + byteSize kept := by rw [hspan]
    have hstop : e.span.stop = n + byteSize kept + byteSize cut := by rw [hspan]
    refine ⟨fun x hx => ?_, List.pairwise_cons.2 ih⟩
    rcases List.mem_cons.1 hx with rfl | hx
    · omega
    · have := ih.1 x hx
      omega

/-- Edits in place are all accepted. -/
theorem acceptedBelow_reverse (h : Splices n t es new) :
    Edit.acceptedBelow (n + byteSize t) es.reverse = es.reverse := by
  induction es using List.reverseRecOn generalizing t new with
  | nil => rfl
  | append_singleton es e ih =>
    obtain ⟨l, cut, r, new', rfl, hspan, hl, -⟩ := concat_iff.1 h
    have haccepts : e.Accepts (n + byteSize (l ++ (cut ++ r))) := by
      simp only [Edit.Accepts, hspan, byteSize_append]
      omega
    have hrest := ih hl
    rw [List.reverse_append, List.reverse_singleton, List.singleton_append, Edit.acceptedBelow,
      if_pos haccepts, hspan, hrest]

/-- What an edit puts in its place is there. -/
theorem replacement_isInfix (h : Splices n t es new) (he : e ∈ es) :
    e.replacement <:+: new := by
  induction h with
  | none n t => cases he
  | @edit n kept cut x rest new es hspan hrest ih =>
    rcases List.mem_cons.1 he with rfl | he
    · exact ⟨kept, new, by simp⟩
    · exact (ih he).trans ⟨kept ++ x.replacement, [], by simp⟩

end Splices

theorem Splice.apply?_of_not_accepts {s : Splice} {e : Edit}
    (h : ¬ e.Accepts (byteSize s.left)) : s.apply? e = some s := if_neg h

/-- What an edit does that is applied. -/
theorem Splice.apply?_eq_some_iff {s s' : Splice} {e : Edit} (h : e.Accepts (byteSize s.left)) :
    s.apply? e = some s' ↔ ∃ l cut r, s.left = l ++ (cut ++ r) ∧
      e.span = ⟨byteSize l, byteSize l + byteSize cut⟩ ∧
      s' = ⟨l, e.replacement ++ r ++ s.done⟩ := by
  unfold Splice.apply?
  rw [if_pos h]
  simp only [Option.bind_eq_bind, Option.bind_eq_some_iff, Prod.exists, Option.pure_def,
    Option.some.injEq, splitAt?_eq_some_iff]
  constructor
  · rintro ⟨a, r, ⟨hleft, hstop⟩, l, cut, ⟨rfl, hstart⟩, rfl⟩
    refine ⟨l, cut, r, by rw [← hleft, List.append_assoc], ?_, rfl⟩
    rw [byteSize_append] at hstop
    cases hspan : e.span
    simp_all
  · rintro ⟨l, cut, r, hleft, hspan, rfl⟩
    refine ⟨l ++ cut, r, ⟨by rw [hleft, List.append_assoc], by simp [hspan]⟩, l, cut, ⟨rfl, ?_⟩,
      rfl⟩
    rw [hspan]

/-- The rest of a pass over a source puts the edits in place that are accepted. -/
theorem foldlM_apply?_eq_some_iff {es : List Edit} {s : Splice} {new : Text} :
    (es.foldlM Splice.apply? s).map (fun s => s.left ++ s.done) = some new ↔
      ∃ new', Splices 0 s.left (Edit.acceptedBelow (byteSize s.left) es).reverse new' ∧
        new = new' ++ s.done := by
  induction es generalizing s with
  | nil =>
    simp only [List.foldlM_nil, Option.pure_def, Option.map_some, Option.some.injEq,
      Edit.acceptedBelow, List.reverse_nil, Splices.nil_iff, exists_eq_left, eq_comm]
  | cons e es ih =>
    rw [List.foldlM_cons, Edit.acceptedBelow]
    split
    · rename_i h
      rw [List.reverse_cons, Option.bind_eq_bind, Option.map_bind, Option.bind_eq_some_iff]
      simp only [Splices.concat_iff, Nat.zero_add]
      constructor
      · rintro ⟨s', hs', hnew⟩
        obtain ⟨l, cut, r, hleft, hspan, rfl⟩ := (Splice.apply?_eq_some_iff h).1 hs'
        obtain ⟨new', hnew', rfl⟩ := ih.1 hnew
        refine ⟨_, ⟨l, cut, r, new', hleft, hspan, ?_, rfl⟩, by simp⟩
        rwa [hspan]
      · rintro ⟨_, ⟨l, cut, r, new', hleft, hspan, hnew', rfl⟩, rfl⟩
        refine ⟨_, (Splice.apply?_eq_some_iff h).2 ⟨l, cut, r, hleft, hspan, rfl⟩, ?_⟩
        refine ih.2 ⟨new', ?_, by simp⟩
        rwa [hspan] at hnew'
    · rename_i h
      rw [Splice.apply?_of_not_accepts h]
      exact ih

/-- **The edited source is the source with the accepted edits in place.** -/
theorem applyEdits?_eq_some_iff {source new : Text} {es : List Edit} :
    applyEdits? source es = some new ↔ Splices 0 source (Edit.accepted source es) new := by
  rw [applyEdits?, foldlM_apply?_eq_some_iff]
  simp [Edit.accepted]

/-- Edits in order that do not overlap are all applied. -/
theorem applyEdits?_of_splices {source new : Text} {es : List Edit} (h : Splices 0 source es new)
    (hne : ∀ e ∈ es, e.span.start < e.span.stop) : applyEdits? source es = some new := by
  have hnormal : Edit.normalize es = es := by
    refine Edit.normalize_of_pairwise (h.pairwise.2.imp_of_mem fun ha _ hab => ?_)
    exact Nat.lt_of_lt_of_le (hne _ ha) hab
  have haccepted : Edit.accepted source es = es := by
    have hall := h.acceptedBelow_reverse
    rw [Nat.zero_add] at hall
    rw [Edit.accepted, hnormal, hall, List.reverse_reverse]
  rw [applyEdits?_eq_some_iff, haccepted]
  exact h

/-- The edit starts and ends between characters of the source. -/
def Edit.Fits (source : Text) (e : Edit) : Prop :=
  ∃ l cut r, source = l ++ (cut ++ r) ∧ e.span = ⟨byteSize l, byteSize l + byteSize cut⟩

theorem Splices.exists_cut {n : Nat} {t new : Text} {es : List Edit} {e : Edit}
    (h : Splices n t es new) (he : e ∈ es) :
    ∃ l cut r, t = l ++ (cut ++ r) ∧ e.span = ⟨n + byteSize l, n + byteSize l + byteSize cut⟩ := by
  induction h with
  | none n t => cases he
  | @edit n kept cut x rest new es hspan hrest ih =>
    rcases List.mem_cons.1 he with rfl | he
    · exact ⟨kept, cut, rest, rfl, hspan⟩
    · obtain ⟨l, cut', r, rfl, hspan'⟩ := ih he
      refine ⟨kept ++ (cut ++ l), cut', r, by simp, ?_⟩
      rw [hspan', hspan]
      simp only [byteSize_append, Span.mk.injEq]
      omega

theorem Splices.fits {source new : Text} {es : List Edit} {e : Edit} (h : Splices 0 source es new)
    (he : e ∈ es) : e.Fits source := by
  have hcut := h.exists_cut he
  simp only [Nat.zero_add] at hcut
  exact hcut

theorem Edit.Fits.bounds {source : Text} {e : Edit} (h : e.Fits source) :
    e.span.start ≤ e.span.stop ∧ e.span.stop ≤ byteSize source := by
  obtain ⟨l, cut, r, rfl, hspan⟩ := h
  simp only [hspan, byteSize_append]
  omega

/-- An edit between characters of a source lies between characters of every part of it that it lies
in. -/
theorem Edit.Fits.of_append {s t : Text} {e : Edit} (h : e.Fits (s ++ t))
    (hstop : e.span.stop ≤ byteSize s) : e.Fits s := by
  obtain ⟨l, cut, r, heq, hspan⟩ := h
  simp only [hspan] at hstop
  rw [← List.append_assoc] at heq
  rcases List.append_eq_append_iff.1 heq with ⟨u, hu, hr⟩ | ⟨u, hu, -⟩
  · have hnil : u = [] := by
      have := congrArg byteSize hu
      rw [byteSize_append, byteSize_append] at this
      exact eq_nil_of_byteSize (by omega)
    subst hnil
    exact ⟨l, cut, [], by simpa using hu.symm, hspan⟩
  · exact ⟨l, cut, u, by rw [hu, List.append_assoc], hspan⟩

theorem exists_foldlM_apply? {source : Text} {es : List Edit} {s : Splice}
    (hleft : s.left <+: source) (h : ∀ e ∈ es, e.Accepts (byteSize source) → e.Fits source) :
    ∃ s', es.foldlM Splice.apply? s = some s' := by
  induction es generalizing s with
  | nil => exact ⟨s, rfl⟩
  | cons e es ih =>
    have hrest : ∀ x ∈ es, x.Accepts (byteSize source) → x.Fits source := fun x hx =>
      h x (List.mem_cons_of_mem e hx)
    obtain ⟨after, rfl⟩ := hleft
    rw [List.foldlM_cons]
    by_cases haccepts : e.Accepts (byteSize s.left)
    · have hrange : e.Accepts (byteSize (s.left ++ after)) :=
        ⟨haccepts.1, haccepts.2.trans (by simp)⟩
      obtain ⟨l, cut, r, heq, hspan⟩ := (h e List.mem_cons_self hrange).of_append haccepts.2
      rw [(Splice.apply?_eq_some_iff haccepts).2 ⟨l, cut, r, heq, hspan, rfl⟩]
      refine ih ⟨cut ++ r ++ after, ?_⟩ hrest
      simp [heq]
    · rw [Splice.apply?_of_not_accepts haccepts]
      exact ih ⟨after, rfl⟩ hrest

/-- Edits can always be applied when those in range start and end between characters. -/
theorem exists_applyEdits?_of_inRange {source : Text} {es : List Edit}
    (h : ∀ e ∈ es, e.Accepts (byteSize source) → e.Fits source) :
    ∃ new, applyEdits? source es = some new := by
  have hnormal : ∀ e ∈ (Edit.normalize es).reverse, e.Accepts (byteSize source) →
      e.Fits source := fun e he =>
    h e (Edit.mem_normalize.1 (List.mem_reverse.1 he))
  obtain ⟨s, hs⟩ := exists_foldlM_apply? (s := ⟨source, []⟩) ⟨[], List.append_nil source⟩ hnormal
  exact ⟨s.left ++ s.done, by rw [applyEdits?, hs]; rfl⟩

/-- Edits that start and end between characters can always be applied. -/
theorem exists_applyEdits? {source : Text} {es : List Edit} (h : ∀ e ∈ es, e.Fits source) :
    ∃ new, applyEdits? source es = some new :=
  exists_applyEdits?_of_inRange fun e he _ => h e he

end SqlInjection
