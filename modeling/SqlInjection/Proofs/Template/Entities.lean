import SqlInjection.Proofs.Text.Cutting
import SqlInjection.Template.Entity

/-!
# Decoding in one pass

`decodeEntities` goes over the whole text once for each entity, and each time over what the times
before have left. Still nothing is decoded twice: no character that is put in goes on with an
entity, and none that starts one is put in while an entity is still to have its turn.

* `decodeEntities_entity`, `decodeEntities_char`: what decoding makes of the front of a text. Every
  text is read off in these two ways (`entityInduction`);
* `decodeEntities_eq_decodeOnce`: decoding is one pass from left to right;
* `decodeEntities_escapeEntities`: it gives back what was escaped.
-/

namespace SqlInjection

namespace Text

theorem replaceFrom_eq_drop (w new : Text) (k : Nat) (t : Text) :
    replaceFrom w new k t = replace w new (t.drop k) := by
  induction t generalizing k with
  | nil => simp [replace, replaceFrom]
  | cons c t ih =>
    cases k with
    | zero => rfl
    | succ k => simpa [replaceFrom] using ih k

theorem replace_cons_of_starts {w t : Text} {c : Char} (new : Text) (h : w <+: c :: t) :
    replace w new (c :: t) = new ++ replace w new (t.drop (w.length - 1)) := by
  rw [replace, replaceFrom, if_pos (startsWith_iff.2 h), replaceFrom_eq_drop]

theorem replace_cons_of_not_starts {w t : Text} {c : Char} (new : Text) (h : ¬ w <+: c :: t) :
    replace w new (c :: t) = c :: replace w new t := by
  rw [replace, replaceFrom, if_neg (fun hs => h (startsWith_iff.1 hs)), replace]

/-- A copy at the front is replaced. -/
theorem replace_self_append {w : Text} (hw : w ≠ []) (new t : Text) :
    replace w new (w ++ t) = new ++ replace w new t := by
  obtain ⟨c, w, rfl⟩ := List.exists_cons_of_ne_nil hw
  have hstarts : c :: w <+: c :: (w ++ t) := ⟨t, rfl⟩
  rw [List.cons_append, replace_cons_of_starts new hstarts, List.length_cons, Nat.add_sub_cancel,
    List.drop_left]

theorem not_prefix_cons {w : Text} {c d : Char} (hw : w.head? = some c) (hne : c ≠ d) (t : Text) :
    ¬ w <+: d :: t := by
  obtain ⟨v, rfl⟩ := List.head?_eq_some_iff.1 hw
  exact fun h => hne (List.cons_prefix_cons.1 h).1

/-- A text in which no copy starts is passed over. -/
theorem replace_append_of_not_mem {w s : Text} {c : Char} (hw : w.head? = some c) (hs : c ∉ s)
    (new t : Text) : replace w new (s ++ t) = s ++ replace w new t := by
  induction s with
  | nil => rfl
  | cons d s ih =>
    have hd : c ≠ d := fun h => hs (h ▸ List.mem_cons_self)
    rw [List.cons_append, replace_cons_of_not_starts new (not_prefix_cons hw hd _),
      ih fun h => hs (List.mem_cons_of_mem d h), List.cons_append]

/-- Replacing brings no word to the front that does not hold the character put in. -/
theorem prefix_of_prefix_replace {v w t : Text} {d : Char} (hd : d ∉ v)
    (h : v <+: replace w [d] t) : v <+: t := by
  induction v generalizing t with
  | nil => exact List.nil_prefix
  | cons x v ih =>
    cases t with
    | nil => exact h
    | cons c t =>
      by_cases hw : w <+: c :: t
      · rw [replace_cons_of_starts _ hw, List.singleton_append] at h
        obtain ⟨rfl, -⟩ := List.cons_prefix_cons.1 h
        exact absurd List.mem_cons_self hd
      · rw [replace_cons_of_not_starts _ hw] at h
        obtain ⟨rfl, hv⟩ := List.cons_prefix_cons.1 h
        exact List.cons_prefix_cons.2 ⟨rfl, ih (fun hmem => hd (List.mem_cons_of_mem x hmem)) hv⟩

end Text

/-! ## The entities -/

/-- No entity starts the text. -/
def NoEntityAt (t : Text) : Prop := ∀ e ∈ entities, ¬ e.1 <+: t

theorem NoEntityAt.mono {s t : Text} (ht : NoEntityAt t) (h : s <+: t) : NoEntityAt s :=
  fun e he hs => ht e he (hs.trans h)

/-- An entity starts with an ampersand, and goes on with nothing that an entity stands for. -/
theorem exists_tail_of_mem_entities {e : Text × Char} (he : e ∈ entities) :
    ∃ v, e.1 = '&' :: v ∧ ∀ e' ∈ entities, e'.2 ∉ v := by
  have htail : ∀ e ∈ entities, e.1 = '&' :: e.1.tail ∧ ∀ e' ∈ entities, e'.2 ∉ e.1.tail := by
    decide
  exact ⟨e.1.tail, htail e he⟩

theorem head?_of_mem_entities {e : Text × Char} (he : e ∈ entities) : e.1.head? = some '&' := by
  obtain ⟨v, hv, -⟩ := exists_tail_of_mem_entities he
  rw [hv, List.head?_cons]

theorem ne_nil_of_mem_entities {e : Text × Char} (he : e ∈ entities) : e.1 ≠ [] := by
  obtain ⟨v, hv, -⟩ := exists_tail_of_mem_entities he
  simp [hv]

/-- Entities are told apart by their front. -/
theorem entity_eq_of_front {e e' : Text × Char} (he : e ∈ entities) (he' : e' ∈ entities)
    (h : e.1 <+: e'.1) : e = e' := by
  have hall : ∀ e ∈ entities, ∀ e' ∈ entities, e.1 <+: e'.1 → e = e' := by decide
  exact hall e he e' he' h

/-- An entity that has its turn later does not start with what an earlier one stands for: the
ampersand comes last. -/
theorem pairwise_entities :
    entities.Pairwise fun e e' => e ≠ e' ∧ e'.1.head? ≠ some e.2 := by
  decide

theorem noEntityAt_cons {c : Char} (hc : c ≠ '&') (t : Text) : NoEntityAt (c :: t) :=
  fun _ he => Text.not_prefix_cons (head?_of_mem_entities he) hc.symm t

/-- Two entities do not start at the same place. -/
theorem not_prefix_entity_append {e e' : Text × Char} (he : e ∈ entities) (he' : e' ∈ entities)
    (hne : e ≠ e') (t : Text) : ¬ e.1 <+: e'.1 ++ t := by
  intro h
  rcases List.prefix_or_prefix_of_prefix h (List.prefix_append e'.1 t) with h | h
  · exact hne (entity_eq_of_front he he' h)
  · exact hne (entity_eq_of_front he' he h).symm

/-! ## One entity after another -/

/-- The text with the entities of a list decoded, one after another. -/
def decodeEach (es : List (Text × Char)) (t : Text) : Text :=
  es.foldl (fun t e => Text.replace e.1 [e.2] t) t

theorem decodeEntities_eq_decodeEach (t : Text) : decodeEntities t = decodeEach entities t := rfl

theorem decodeEach_cons (e : Text × Char) (es : List (Text × Char)) (t : Text) :
    decodeEach (e :: es) t = decodeEach es (Text.replace e.1 [e.2] t) := rfl

theorem decodeEach_append (es es' : List (Text × Char)) (t : Text) :
    decodeEach (es ++ es') t = decodeEach es' (decodeEach es t) :=
  List.foldl_append

/-- An entity is passed over while others have their turn. -/
theorem decodeEach_entity {e : Text × Char} (he : e ∈ entities) {es : List (Text × Char)}
    (hes : es ⊆ entities) (hne : e ∉ es) (t : Text) :
    decodeEach es (e.1 ++ t) = e.1 ++ decodeEach es t := by
  obtain ⟨v, hv, hout⟩ := exists_tail_of_mem_entities he
  have hfree : '&' ∉ v := hout ("&amp;".toList, '&') (by decide)
  induction es generalizing t with
  | nil => rfl
  | cons e' es ih =>
    have he' : e' ∈ entities := hes List.mem_cons_self
    have hne' : e' ≠ e := fun h => hne (h ▸ List.mem_cons_self)
    have hnot : ¬ e'.1 <+: '&' :: (v ++ t) := by
      have := not_prefix_entity_append he' he hne' t
      rwa [hv] at this
    have hpass : Text.replace e'.1 [e'.2] (e.1 ++ t) = e.1 ++ Text.replace e'.1 [e'.2] t := by
      rw [hv, List.cons_append, Text.replace_cons_of_not_starts _ hnot,
        Text.replace_append_of_not_mem (head?_of_mem_entities he') hfree, List.cons_append]
    rw [decodeEach_cons, decodeEach_cons, hpass]
    exact ih (fun x hx => hes (List.mem_cons_of_mem e' hx))
      (fun h => hne (List.mem_cons_of_mem e' h)) _

/-- A character at which no entity starts is passed over, since none comes to start there. -/
theorem decodeEach_char {c : Char} {es : List (Text × Char)} (hes : es ⊆ entities) {t : Text}
    (h : ∀ e ∈ es, ¬ e.1 <+: c :: t) : decodeEach es (c :: t) = c :: decodeEach es t := by
  induction es generalizing t with
  | nil => rfl
  | cons e es ih =>
    have he : e ∈ entities := hes List.mem_cons_self
    have hstill : ∀ e' ∈ es, ¬ e'.1 <+: c :: Text.replace e.1 [e.2] t := by
      intro e' he' hstarts
      have hbefore := h e' (List.mem_cons_of_mem e he')
      obtain ⟨v, hv, hout⟩ := exists_tail_of_mem_entities (hes (List.mem_cons_of_mem e he'))
      rw [hv] at hbefore hstarts
      obtain ⟨hc, hgoes⟩ := List.cons_prefix_cons.1 hstarts
      exact hbefore (List.cons_prefix_cons.2 ⟨hc, Text.prefix_of_prefix_replace (hout e he) hgoes⟩)
    rw [decodeEach_cons, decodeEach_cons,
      Text.replace_cons_of_not_starts _ (h e List.mem_cons_self)]
    exact ih (fun x hx => hes (List.mem_cons_of_mem e hx)) hstill

/-- Decoding brings no word to the front that holds nothing an entity stands for. -/
theorem prefix_of_prefix_decodeEach {es : List (Text × Char)} {w t : Text}
    (hw : ∀ e ∈ es, e.2 ∉ w) (h : w <+: decodeEach es t) : w <+: t := by
  induction es generalizing t with
  | nil => exact h
  | cons e es ih =>
    obtain ⟨he, hes⟩ := List.forall_mem_cons.1 hw
    exact Text.prefix_of_prefix_replace he (ih hes h)

/-- An entity at the front is decoded, and what it stands for is not read again. -/
theorem decodeEntities_entity {e : Text × Char} (he : e ∈ entities) (t : Text) :
    decodeEntities (e.1 ++ t) = e.2 :: decodeEntities t := by
  obtain ⟨done, more, hsplit⟩ := List.append_of_mem he
  have hpairwise := pairwise_entities
  rw [hsplit, List.pairwise_append, List.pairwise_cons] at hpairwise
  obtain ⟨-, ⟨hmore, -⟩, hdone⟩ := hpairwise
  have hne : e ∉ done := fun h => (hdone e h e List.mem_cons_self).1 rfl
  have hsub : done ⊆ entities ∧ more ⊆ entities := by
    rw [hsplit]
    simp
  have hput : ∀ u, ∀ e' ∈ more, ¬ e'.1 <+: e.2 :: u := by
    intro u e' he'
    have hhead := head?_of_mem_entities (hsub.2 he')
    exact Text.not_prefix_cons hhead (fun h => (hmore e' he').2 (by rw [hhead, h])) u
  rw [decodeEntities_eq_decodeEach, decodeEntities_eq_decodeEach, hsplit, decodeEach_append,
    decodeEach_append, decodeEach_entity he hsub.1 hne, decodeEach_cons, decodeEach_cons,
    Text.replace_self_append (ne_nil_of_mem_entities he), List.singleton_append,
    decodeEach_char hsub.2 (hput _)]

/-- A character at which no entity starts is kept. -/
theorem decodeEntities_char {c : Char} {t : Text} (h : NoEntityAt (c :: t)) :
    decodeEntities (c :: t) = c :: decodeEntities t :=
  decodeEach_char (fun _ h => h) h

theorem decodeEntities_cons {c : Char} (hc : c ≠ '&') (t : Text) :
    decodeEntities (c :: t) = c :: decodeEntities t :=
  decodeEntities_char (noEntityAt_cons hc t)

/-- A text is read off from the front, entity by entity and character by character. -/
@[elab_as_elim]
theorem entityInduction {motive : Text → Prop} (nil : motive [])
    (entity : ∀ e ∈ entities, ∀ t, motive t → motive (e.1 ++ t))
    (char : ∀ c t, NoEntityAt (c :: t) → motive t → motive (c :: t)) (t : Text) : motive t := by
  induction hn : t.length using Nat.strong_induction_on generalizing t with
  | _ n ih =>
    cases t with
    | nil => exact nil
    | cons c t =>
      by_cases h : NoEntityAt (c :: t)
      · exact char c t h (ih t.length (by simp [← hn]) t rfl)
      · simp only [NoEntityAt, not_forall, not_not] at h
        obtain ⟨e, he, u, hu⟩ := h
        have hpos := List.length_pos_iff.2 (ne_nil_of_mem_entities he)
        have hlength := congrArg List.length hu
        rw [List.length_append] at hlength
        rw [← hu]
        exact entity e he u (ih u.length (by omega) u rfl)

/-! ## One pass -/

/-- The text with its entities decoded in one pass from left to right: each is replaced where it
stands, and the pass goes on behind it. -/
def decodeOnce : Text → Text
  | [] => []
  | '&' :: 'l' :: 't' :: ';' :: t => '<' :: decodeOnce t
  | '&' :: 'g' :: 't' :: ';' :: t => '>' :: decodeOnce t
  | '&' :: 'q' :: 'u' :: 'o' :: 't' :: ';' :: t => '"' :: decodeOnce t
  | '&' :: 'a' :: 'p' :: 'o' :: 's' :: ';' :: t => '\'' :: decodeOnce t
  | '&' :: 'a' :: 'm' :: 'p' :: ';' :: t => '&' :: decodeOnce t
  | c :: t => c :: decodeOnce t

theorem decodeOnce_entity {e : Text × Char} (he : e ∈ entities) (t : Text) :
    decodeOnce (e.1 ++ t) = e.2 :: decodeOnce t := by
  simp only [entities, List.mem_cons, List.not_mem_nil, or_false] at he
  rcases he with rfl | rfl | rfl | rfl | rfl <;> rfl

theorem decodeOnce_char {c : Char} {t : Text} (h : NoEntityAt (c :: t)) :
    decodeOnce (c :: t) = c :: decodeOnce t := by
  simp only [NoEntityAt, entities, List.forall_mem_cons] at h
  obtain ⟨hlt, hgt, hquot, hapos, hamp, -⟩ := h
  rw [decodeOnce]
  · rintro u rfl rfl
    exact hlt ⟨u, rfl⟩
  · rintro u rfl rfl
    exact hgt ⟨u, rfl⟩
  · rintro u rfl rfl
    exact hquot ⟨u, rfl⟩
  · rintro u rfl rfl
    exact hapos ⟨u, rfl⟩
  · rintro u rfl rfl
    exact hamp ⟨u, rfl⟩

/-- **Decoding is one pass.** -/
theorem decodeEntities_eq_decodeOnce (t : Text) : decodeEntities t = decodeOnce t := by
  induction t using entityInduction with
  | nil => rfl
  | entity e he t ih => rw [decodeEntities_entity he, decodeOnce_entity he, ih]
  | char c t h ih => rw [decodeEntities_char h, decodeOnce_char h, ih]

/-! ## Escaping -/

/-- The entity of a character, if it has one. -/
def entityOf? : Char → Option Text
  | '<' => some "&lt;".toList
  | '>' => some "&gt;".toList
  | '"' => some "&quot;".toList
  | '\'' => some "&apos;".toList
  | '&' => some "&amp;".toList
  | _ => none

/-- The character as markup writes it. An ampersand is always written as an entity, and so is any
other character that is `chosen` and has one. -/
def markupSpelling (chosen : Char → Bool) (c : Char) : Text :=
  if c = '&' ∨ chosen c = true then (entityOf? c).getD [c] else [c]

/-- The text as markup writes it. -/
def escapeEntities (chosen : Char → Bool) (t : Text) : Text := t.flatMap (markupSpelling chosen)

theorem mem_entities_of_entityOf? {c : Char} {w : Text} (h : entityOf? c = some w) :
    (w, c) ∈ entities := by
  unfold entityOf? at h
  split at h
  case h_6 => cases h
  all_goals
    obtain rfl := Option.some.inj h
    decide

/-- A character is written as its entity, or as itself if it starts none. -/
theorem markupSpelling_cases (chosen : Char → Bool) (c : Char) :
    (markupSpelling chosen c, c) ∈ entities ∨ markupSpelling chosen c = [c] ∧ c ≠ '&' := by
  unfold markupSpelling
  split
  · cases hw : entityOf? c with
    | some w => exact Or.inl (mem_entities_of_entityOf? hw)
    | none =>
      refine Or.inr ⟨rfl, ?_⟩
      rintro rfl
      cases hw
  · rename_i hc
    exact Or.inr ⟨rfl, fun h => hc (Or.inl h)⟩

/-- **Decoding gives back what was escaped.** -/
theorem decodeEntities_escapeEntities (chosen : Char → Bool) (t : Text) :
    decodeEntities (escapeEntities chosen t) = t := by
  induction t with
  | nil => rfl
  | cons c t ih =>
    rw [escapeEntities, List.flatMap_cons, ← escapeEntities]
    rcases markupSpelling_cases chosen c with he | ⟨hw, hc⟩
    · rw [decodeEntities_entity he, ih]
    · rw [hw, List.singleton_append, decodeEntities_cons hc, ih]

end SqlInjection
