import SqlInjection.Proofs.Template.Entities
import SqlInjection.Template.Binding

/-!
# What a reader sees of a text

The verdict on an interpolation asks whether the text after it goes on with a comparison, as its
reader sees that text: with entities decoded, where the template is markup. This module says how
that question splits over a text in two parts.

* `decodeEntities_append`: no entity runs over a border that is followed by a character no entity
  goes on with (`Apart`), so both sides are decoded by themselves;
* `goesOnComparing_append_of_ink`: a first part that is not blank decides alone;
* `goesOnComparing_append_of_neutral`: so it does when the second part shows no comparison itself.
-/

namespace SqlInjection

namespace Text

/-- A copy of `w` does not run over a border that is followed by a character `w` does not go on
with. -/
theorem length_le_of_prefix_append {w s t : Text} (hs : s ≠ []) (ht : ∀ c ∈ t.head?, c ∉ w.tail)
    (h : w <+: s ++ t) : w.length ≤ s.length := by
  by_contra hlt
  obtain ⟨u, rfl⟩ : s <+: w := List.prefix_of_prefix_length_le (s.prefix_append t) h (by omega)
  have hu : u <+: t := (List.prefix_append_right_inj s).1 h
  cases u with
  | nil => simp at hlt
  | cons c u =>
    obtain ⟨r, rfl⟩ := hu
    refine ht c (by simp) ?_
    cases s with
    | nil => exact absurd rfl hs
    | cons d s => simp

end Text

/-! ## Decoding on both sides of a border -/

/-- Whether an entity that has started may go on with the character. -/
def goesOnEntity (c : Char) : Bool := entities.any fun e => e.1.tail.contains c

/-- A text that does not go on with an entity started before it. -/
def Apart (t : Text) : Prop := ∀ c ∈ t.head?, goesOnEntity c = false

theorem apart_cons {c : Char} {t : Text} : Apart (c :: t) ↔ goesOnEntity c = false := by
  simp [Apart]

instance decidableApart : (t : Text) → Decidable (Apart t)
  | [] => isTrue (by simp [Apart])
  | _ :: _ => decidable_of_iff _ apart_cons.symm

theorem Apart.append {s t : Text} (hs : Apart s) (ht : Apart t) : Apart (s ++ t) := by
  cases s with
  | nil => exact ht
  | cons c s => exact apart_cons.2 (apart_cons.1 hs)

theorem apart_of_blank {w : Text} (hw : ∀ c ∈ w, Text.isBlank c = true) : Apart w := by
  cases w with
  | nil => simp [Apart]
  | cons c w =>
    have hc := hw c List.mem_cons_self
    refine apart_cons.2 ?_
    by_contra h
    simp only [goesOnEntity, Bool.not_eq_false, List.any_eq_true, List.contains_eq_mem,
      decide_eq_true_eq] at h
    obtain ⟨e, he, hce⟩ := h
    have hink : ∀ e ∈ entities, ∀ d ∈ e.1.tail, Text.isBlank d = false := by decide
    rw [hink e he c hce] at hc
    exact absurd hc (by decide)

theorem Apart.not_mem {t : Text} (ht : Apart t) {e : Text × Char} (he : e ∈ entities) :
    ∀ c ∈ t.head?, c ∉ e.1.tail := by
  intro c hc hmem
  have := ht c hc
  simp only [goesOnEntity, List.any_eq_false, List.contains_eq_mem, decide_eq_true_eq] at this
  exact this e he hmem

/-- No entity starts before a border and runs over it. -/
theorem NoEntityAt.append {c : Char} {s t : Text} (h : NoEntityAt (c :: s)) (ht : Apart t) :
    NoEntityAt (c :: (s ++ t)) := by
  intro e he hstarts
  rw [← List.cons_append] at hstarts
  have hle := Text.length_le_of_prefix_append (by simp) (ht.not_mem he) hstarts
  exact h e he (List.prefix_of_prefix_length_le hstarts ((c :: s).prefix_append t) hle)

theorem decodeEntities_append (s : Text) {t : Text} (ht : Apart t) :
    decodeEntities (s ++ t) = decodeEntities s ++ decodeEntities t := by
  induction s using entityInduction with
  | nil => rfl
  | entity e he s ih =>
    rw [List.append_assoc, decodeEntities_entity he, decodeEntities_entity he, ih, List.cons_append]
  | char c s h ih =>
    rw [List.cons_append, decodeEntities_char (h.append ht), decodeEntities_char h, ih,
      List.cons_append]

theorem blank_of_blank_decodeEntities {t : Text} (h : Text.blank (decodeEntities t) = true) :
    Text.blank t = true := by
  induction t using entityInduction with
  | nil => rfl
  | entity e he t _ =>
    have hink : ∀ e ∈ entities, Text.isBlank e.2 = false := by decide
    rw [decodeEntities_entity he] at h
    simp [Text.blank, hink e he] at h
  | char c t hno ih =>
    rw [decodeEntities_char hno] at h
    simp only [Text.blank, List.all_cons, Bool.and_eq_true] at h ih ⊢
    exact ⟨h.1, ih h.2⟩

theorem decodeEntities_of_not_mem {t : Text} (h : '&' ∉ t) : decodeEntities t = t := by
  induction t with
  | nil => rfl
  | cons c t ih =>
    rw [decodeEntities_cons (fun hc => h (by simp [hc])),
      ih fun ht => h (List.mem_cons_of_mem c ht)]

/-! ## Whether a text goes on with a comparison -/

theorem Clause.comparesNext_append (s t : Text) :
    comparesNext (some (s ++ t)) =
      if Text.blank s then comparesNext (some t) else comparesNext (some s) := by
  have hdrop : Text.trimStart (s ++ t) =
      if Text.blank s then Text.trimStart t else Text.trimStart s ++ t := by
    simp only [Text.trimStart, List.dropWhile_append, Text.blank, List.isEmpty_iff,
      List.dropWhile_eq_nil_iff, List.all_eq_true]
  unfold comparesNext
  rw [Option.map_some, hdrop, Option.map_some, Option.map_some]
  by_cases hs : Text.blank s = true
  · rw [if_pos hs, if_pos hs]
  · have hne : Text.trimStart s ≠ [] := by
      simpa [Text.trimStart, Text.blank] using hs
    obtain ⟨c, r, hcr⟩ := List.exists_cons_of_ne_nil hne
    rw [if_neg hs, if_neg hs, hcr, List.cons_append]

namespace Binder

variable (b : Binder)

/-- Whether a text goes on with a comparison, as its reader sees it. -/
def goesOnComparing (t : Text) : Bool := Clause.comparesNext (some (b.seenAs t))

/-- A text that shows no comparison, and no end of an entity started before it. -/
def Neutral (t : Text) : Prop := Apart t ∧ b.goesOnComparing t = false

variable {b}

theorem seenAs_append (s : Text) {t : Text} (ht : Apart t) :
    b.seenAs (s ++ t) = b.seenAs s ++ b.seenAs t := by
  unfold seenAs
  split
  · exact decodeEntities_append s ht
  · rfl

theorem seenAs_cons {c : Char} (hc : c ≠ '&') (t : Text) : b.seenAs (c :: t) = c :: b.seenAs t := by
  unfold seenAs
  split
  · exact decodeEntities_cons hc t
  · rfl

theorem blank_of_blank_seenAs {t : Text} (h : Text.blank (b.seenAs t) = true) :
    Text.blank t = true := by
  unfold seenAs at h
  split at h
  · exact blank_of_blank_decodeEntities h
  · exact h

/-- A first part that is not blank decides alone. -/
theorem goesOnComparing_append_of_ink {s t : Text} (hs : Text.blank s = false) (ht : Apart t) :
    b.goesOnComparing (s ++ t) = b.goesOnComparing s := by
  have hseen : Text.blank (b.seenAs s) = false := by
    by_contra h
    rw [blank_of_blank_seenAs (Bool.not_eq_false _ ▸ h)] at hs
    exact absurd hs (by decide)
  rw [goesOnComparing, seenAs_append s ht, Clause.comparesNext_append, hseen]
  rfl

theorem goesOnComparing_of_blank {s : Text} (hs : Text.blank (b.seenAs s) = true) :
    b.goesOnComparing s = false := by
  have hnil : Text.trimStart (b.seenAs s) = [] := by
    simpa [Text.trimStart, Text.blank] using hs
  simp [goesOnComparing, Clause.comparesNext, hnil]

/-- A second part that shows no comparison leaves the question to the first. -/
theorem goesOnComparing_append_of_neutral (s : Text) {t : Text} (ht : b.Neutral t) :
    b.goesOnComparing (s ++ t) = b.goesOnComparing s := by
  rw [goesOnComparing, seenAs_append s ht.1, Clause.comparesNext_append]
  split
  · rename_i hs
    rw [goesOnComparing_of_blank hs]
    exact ht.2
  · rfl

theorem neutral_cons {c : Char} (hc : c ∉ ['&', '=', '>', '<']) (hink : Text.isBlank c = false)
    (hgo : goesOnEntity c = false) (t : Text) : b.Neutral (c :: t) := by
  simp only [List.mem_cons, List.not_mem_nil, or_false, not_or] at hc
  refine ⟨apart_cons.2 hgo, ?_⟩
  simp [goesOnComparing, seenAs_cons hc.1, Clause.comparesNext, Text.trimStart, hink, hc]

theorem neutral_blank_append {w t : Text} (hw : ∀ c ∈ w, Text.isBlank c = true)
    (ht : b.Neutral t) : b.Neutral (w ++ t) := by
  refine ⟨(apart_of_blank hw).append ht.1, ?_⟩
  rw [goesOnComparing_append_of_neutral w ht]
  apply goesOnComparing_of_blank
  have hamp : '&' ∉ w := fun h => absurd (hw _ h) (by decide)
  have hseen : b.seenAs w = w := by
    unfold seenAs
    split
    · exact decodeEntities_of_not_mem hamp
    · rfl
  rw [hseen]
  exact List.all_eq_true.2 hw

theorem neutral_quote_append {q : Text} (hq : q ∈ quoteSpellings) {u : Text} (hu : Apart u) :
    b.Neutral (q ++ u) := by
  have hapart : ∀ q ∈ quoteSpellings, Apart q := by decide
  have hne : ∀ q ∈ quoteSpellings, Text.blank q = false := by decide
  refine ⟨Apart.append (hapart q hq) hu, ?_⟩
  rw [goesOnComparing_append_of_ink (hne q hq) hu, goesOnComparing, seenAs]
  revert q
  cases b.markup <;> decide

end Binder

end SqlInjection
