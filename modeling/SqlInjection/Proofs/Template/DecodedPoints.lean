import SqlInjection.Proofs.Detector.FormatPairing

/-!
# The interpolations of a decoded text

A binder for markup decodes what stands before an interpolation and what stands after it, each by
itself. This module says that it sees what a reader of the whole decoded text sees.

* `decodeEntities_split`: decoding works by itself on each side of an interpolation and within it;
* `readInterpolation_decodeEntities`: what is read in the decoded text is what is read in the text,
  decoded. Entities neither make nor hide a dollar sign, a brace or a blank;
* `occurrences_decodeEntities`: so the decoded text has the interpolations of the text, decoded.

`decodeEntities_at_once` puts this together with the one pass.
-/

namespace SqlInjection

/-! ## Decoding around an interpolation -/

theorem decodeEntities_open (t : Text) :
    decodeEntities ('$' :: '{' :: t) = '$' :: '{' :: decodeEntities t := by
  rw [decodeEntities_cons (by decide), decodeEntities_cons (by decide)]

/-- No entity runs over an end of an interpolation. -/
theorem decodeEntities_around (s name t : Text) :
    decodeEntities (s ++ interpolationOf name ++ t) =
      decodeEntities s ++ interpolationOf (decodeEntities name) ++ decodeEntities t := by
  have htoken : interpolationOf name ++ t = '$' :: '{' :: (name ++ '}' :: t) := by
    simp [interpolationOf]
  have hopen : Apart ('$' :: '{' :: (name ++ '}' :: t)) := apart_cons.2 (by decide)
  have hclose : Apart ('}' :: t) := apart_cons.2 (by decide)
  rw [List.append_assoc, htoken, decodeEntities_append s hopen, decodeEntities_open,
    decodeEntities_append name hclose, decodeEntities_cons (by decide)]
  simp [interpolationOf]

theorem decodeEntities_append_interpolationOf (s name : Text) :
    decodeEntities (s ++ interpolationOf name) =
      decodeEntities s ++ interpolationOf (decodeEntities name) := by
  have h := decodeEntities_around s name []
  rwa [List.append_nil, show decodeEntities [] = [] from rfl, List.append_nil] at h

theorem decodeEntities_interpolationOf (name : Text) :
    decodeEntities (interpolationOf name) = interpolationOf (decodeEntities name) :=
  decodeEntities_append_interpolationOf [] name

theorem consumes_interpolationPattern : interpolationPattern.Consumes := by
  intro t r h
  obtain ⟨⟨name, after⟩, hread, rfl⟩ := Option.map_eq_some_iff.1 h
  exact ⟨readInterpolation_eq hread, by simp [interpolationOf]⟩

/-- What stands before an interpolation, the interpolation and what stands after it are decoded by
themselves. -/
theorem decodeEntities_split (before : Text) {rest : Text} {r : Reading}
    (h : interpolationPattern rest = some r) :
    decodeEntities (before ++ rest) =
      decodeEntities before ++ decodeEntities r.token ++ decodeEntities r.after := by
  obtain ⟨⟨name, after⟩, hread, rfl⟩ := Option.map_eq_some_iff.1 h
  rw [← readInterpolation_eq hread, ← List.append_assoc, decodeEntities_around,
    decodeEntities_interpolationOf]

/-! ## Reading what was decoded -/

/-- What an entity is made of and what it stands for may stand in a name. -/
theorem readNameTail_ink_append {s : Text} (hink : ∀ c ∈ s, c ≠ '}' ∧ Text.isBlank c = false)
    (t : Text) : readNameTail (s ++ t) = (readNameTail t).map fun r => (s ++ r.1, r.2) := by
  induction s with
  | nil => simp
  | cons c s ih =>
    obtain ⟨hc, hs⟩ := List.forall_mem_cons.1 hink
    rw [List.cons_append, readNameTail, if_neg hc.1, if_neg (by simp [hc.2]), ih hs,
      Option.map_map]
    rfl

/-- A name and the rest, both decoded. -/
def decodedPair (r : Text × Text) : Text × Text := (decodeEntities r.1, decodeEntities r.2)

theorem readNameTail_decodeEntities (t : Text) :
    readNameTail (decodeEntities t) = (readNameTail t).map decodedPair := by
  induction t using entityInduction with
  | nil => rfl
  | entity e he t ih =>
    have hink : ∀ e ∈ entities, ∀ c ∈ e.2 :: e.1, c ≠ '}' ∧ Text.isBlank c = false := by decide
    obtain ⟨hput, hink⟩ := List.forall_mem_cons.1 (hink e he)
    have hread := readNameTail_ink_append (s := [e.2]) (by simpa using hput) (decodeEntities t)
    rw [decodeEntities_entity he, ← List.singleton_append, hread, ih, readNameTail_ink_append hink,
      Option.map_map, Option.map_map]
    congr 1
    funext r
    simp [decodedPair, decodeEntities_entity he]
  | char c t h ih =>
    rw [decodeEntities_char h, readNameTail, readNameTail, ih]
    split
    · rfl
    · split
      · rfl
      · cases hread : readNameTail t with
        | none => rfl
        | some r =>
          -- the name is a front of the text, so that no entity starts with `c` in it either
          have hname : c :: r.1 <+: c :: t := by
            rw [← readNameTail_eq hread]
            simp
          simp [decodedPair, decodeEntities_char (h.mono hname)]

theorem readName_eq_readNameTail {t : Text} (h : ¬ ['}'] <+: t) : readName t = readNameTail t := by
  cases t with
  | nil => rfl
  | cons c t =>
    have hc : c ≠ '}' := by
      rintro rfl
      exact h ⟨t, rfl⟩
    rw [readName, readNameTail, if_neg hc]

theorem readName_decodeEntities (t : Text) :
    readName (decodeEntities t) = (readName t).map decodedPair := by
  by_cases h : ['}'] <+: t
  · obtain ⟨u, rfl⟩ := h
    rw [List.singleton_append, decodeEntities_cons (by decide), readName, readName,
      if_neg (by decide), if_neg (by decide), readNameTail_decodeEntities]
    cases readNameTail u with
    | none => rfl
    | some r => simp [decodedPair, decodeEntities_cons]
  · have h' : ¬ ['}'] <+: decodeEntities t :=
      fun hd => h (prefix_of_prefix_decodeEach (by decide) hd)
    rw [readName_eq_readNameTail h, readName_eq_readNameTail h', readNameTail_decodeEntities]

/-- What is read in the decoded text is what is read in the text, decoded. -/
theorem readInterpolation_decodeEntities (t : Text) :
    readInterpolation (decodeEntities t) = (readInterpolation t).map decodedPair := by
  by_cases h : ['$', '{'] <+: t
  · obtain ⟨u, rfl⟩ := h
    rw [List.cons_append, List.singleton_append, decodeEntities_open]
    exact readName_decodeEntities u
  · have h' : ¬ ['$', '{'] <+: decodeEntities t :=
      fun hd => h (prefix_of_prefix_decodeEach (by decide) hd)
    rw [readInterpolation_eq_none h, readInterpolation_eq_none h', Option.map_none]

/-! ## All interpolations -/

/-- The interpolation with all the text around it decoded. -/
def Interpolation.decoded (i : Interpolation) : Interpolation :=
  ⟨decodeEntities i.before, decodeEntities i.name, decodeEntities i.after⟩

theorem Interpolation.first?_decodeEntities (t : Text) :
    first? (decodeEntities t) = (first? t).map decoded := by
  induction t using entityInduction with
  | nil => rfl
  | entity e he t ih =>
    have hplain : ∀ e ∈ entities, '$' ∉ e.1 ∧ '$' ∉ [e.2] := by decide
    obtain ⟨hfrom, hto⟩ := hplain e he
    rw [decodeEntities_entity he, ← List.singleton_append, first?_append_of_not_mem hto,
      first?_append_of_not_mem hfrom, ih, Option.map_map, Option.map_map]
    congr 1
    funext i
    simp [decoded, decodeEntities_entity he]
  | char c t h ih =>
    have hread := readInterpolation_decodeEntities (c :: t)
    rw [decodeEntities_char h] at hread ⊢
    rw [first?, first?, hread, ih]
    cases readInterpolation (c :: t) with
    | some r => rfl
    | none =>
      cases hi : first? t with
      | none => rfl
      | some i =>
        have hbefore : c :: i.before <+: c :: t := by
          rw [← first?_eq hi]
          simp
        simp [decoded, decodeEntities_char (h.mono hbefore)]

/-- The placeholder with all the text around it decoded. -/
def Occurrence.decoded (o : Occurrence) : Occurrence :=
  ⟨decodeEntities o.before, decodeEntities o.token, o.capture.map decodeEntities,
    decodeEntities o.after⟩

theorem interpolationsBehind_decodeEntities (seen : Text)
    (hseen : ∀ u, decodeEntities (seen ++ u) = decodeEntities seen ++ decodeEntities u) (t : Text) :
    interpolationsBehind (decodeEntities seen) (decodeEntities t) =
      (interpolationsBehind seen t).map Occurrence.decoded := by
  induction hn : t.length using Nat.strong_induction_on generalizing seen t with
  | _ n ih =>
    rw [interpolationsBehind_eq, interpolationsBehind_eq, Interpolation.first?_decodeEntities]
    cases hi : Interpolation.first? t with
    | none => rfl
    | some i =>
      have hlength := Interpolation.length_after_lt hi
      -- no entity runs over the end of an interpolation, so that the rest is decoded by itself
      have hread : ∀ u, decodeEntities (seen ++ i.before ++ interpolationOf i.name ++ u) =
          decodeEntities (seen ++ i.before ++ interpolationOf i.name) ++ decodeEntities u := by
        intro u
        rw [decodeEntities_around, decodeEntities_append_interpolationOf]
      have hrest := ih _ (hn ▸ hlength) _ hread i.after rfl
      rw [decodeEntities_append_interpolationOf, hseen] at hrest
      simp only [Option.map_some, Interpolation.decoded, hrest, List.map_cons, Occurrence.decoded,
        hseen, decodeEntities_interpolationOf]

/-- **The decoded text has the interpolations of the text, decoded.** -/
theorem occurrences_decodeEntities (t : Text) :
    occurrences interpolationPattern (decodeEntities t) =
      (occurrences interpolationPattern t).map Occurrence.decoded :=
  interpolationsBehind_decodeEntities [] (fun _ => rfl) t

/-- **Entities are decoded all at once, and interpolations divide the text.** For every text:
decoding it entity by entity comes to one pass from left to right, which never reads again what it
has put in; decoding gives back what was escaped; at each interpolation that a scan finds, and
wherever else one can be read, what stands before it, the interpolation and what stands after it are
decoded by themselves; and so a binder for markup judges each interpolation as it stands in the
decoded text. -/
theorem decodeEntities_at_once (t : Text) :
    decodeEntities t = decodeOnce t ∧
      (∀ chosen, decodeEntities (escapeEntities chosen t) = t) ∧
      (∀ o ∈ occurrences interpolationPattern t, decodeEntities t =
        decodeEntities o.before ++ decodeEntities o.token ++ decodeEntities o.after) ∧
      (∀ before rest r, before ++ rest = t → interpolationPattern rest = some r →
        decodeEntities t =
          decodeEntities before ++ decodeEntities r.token ++ decodeEntities r.after) ∧
      ∀ b : Binder, b.markup = true →
        (occurrences interpolationPattern t).map (fun o => b.pointRisk o.before o.after) =
          (occurrences interpolationPattern (decodeEntities t)).map
            fun o => templatePointRisk o.before o.after := by
  refine ⟨decodeEntities_eq_decodeOnce t, fun chosen => decodeEntities_escapeEntities chosen t,
    fun o ho => ?_, fun before rest r ht hread => ?_, fun b hb => ?_⟩
  · obtain ⟨ht, hread⟩ := reads_of_mem_occurrences consumes_interpolationPattern ho
    have hsplit := decodeEntities_split o.before hread
    rwa [ht] at hsplit
  · rw [← ht]
    exact decodeEntities_split before hread
  · rw [occurrences_decodeEntities, List.map_map]
    refine List.map_congr_left fun o _ => ?_
    rw [Binder.pointRisk, Binder.seenAs, Binder.seenAs, if_pos hb, if_pos hb]
    rfl

/-- The text `where a &amp;lt; ${x&gt;&${y}lt;`. An interpolation can be read inside the name of
another; an ampersand stands before it, and what follows both would go on with an entity. -/
def nestedInterpolations : Text := "where a &amp;lt; $\x7bx&gt;&$\x7by\x7dlt;".toList

theorem decodeEntities_at_once_nested :
    decodeEntities nestedInterpolations = "where a &lt; $\x7bx>&$\x7by\x7dlt;".toList ∧
      decodeEntities (escapeEntities (· == '>') nestedInterpolations) = nestedInterpolations ∧
      (∃ o ∈ occurrences interpolationPattern nestedInterpolations,
        o.token = "$\x7bx&gt;&$\x7by\x7d".toList ∧ decodeEntities nestedInterpolations =
          decodeEntities o.before ++ decodeEntities o.token ++ decodeEntities o.after) ∧
      (∃ before rest r, before ++ rest = nestedInterpolations ∧
        interpolationPattern rest = some r ∧ r.token = "$\x7by\x7d".toList ∧
        decodeEntities nestedInterpolations =
          decodeEntities before ++ decodeEntities r.token ++ decodeEntities r.after) ∧
      (occurrences interpolationPattern nestedInterpolations).map
          (fun o => Binder.pointRisk ⟨.builtin, true, true⟩ o.before o.after) = [.risky] ∧
      (occurrences interpolationPattern (decodeEntities nestedInterpolations)).map
          (fun o => templatePointRisk o.before o.after) = [.risky] := by
  obtain ⟨hpass, hescaped, hscan, hplace, hverdicts⟩ := decodeEntities_at_once nestedInterpolations
  have hfound : occurrences interpolationPattern nestedInterpolations =
      [⟨"where a &amp;lt; ".toList, "$\x7bx&gt;&$\x7by\x7d".toList, some "x&gt;&$\x7by".toList,
        "lt;".toList⟩] := by decide
  have hread : interpolationPattern "$\x7by\x7dlt;".toList =
      some ⟨"$\x7by\x7d".toList, some "y".toList, "lt;".toList⟩ := by decide
  have hrisky : (occurrences interpolationPattern nestedInterpolations).map
      (fun o => Binder.pointRisk ⟨.builtin, true, true⟩ o.before o.after) = [.risky] := by
    decide +kernel
  refine ⟨hpass.trans (by decide), hescaped _, ?_, ?_, hrisky, ?_⟩
  · rw [hfound] at hscan ⊢
    exact ⟨_, List.mem_singleton_self _, rfl, hscan _ (List.mem_singleton_self _)⟩
  · exact ⟨"where a &amp;lt; $\x7bx&gt;&".toList, _, _, rfl, hread, rfl, hplace _ _ _ rfl hread⟩
  · rw [← hverdicts ⟨.builtin, true, true⟩ rfl, hrisky]

end SqlInjection
