import SqlInjection.Proofs.Template.NormalForm

/-!
# Along the scan of a template

What holds of a whole run of the binder, from what one step does.

* `interpolationPoints`, `interpolationNames`: what a text splices and where, and how this goes from
  one step to the next;
* `Binder.bindFrom_invariant`: what a plan keeps, the whole scan keeps.
-/

namespace SqlInjection

/-! ## Names of interpolations -/

/-- The interpolations of a text, each by its name and the text behind it. -/
def interpolationPoints (t : Text) : List (Text × Text) :=
  (occurrences interpolationPattern t).map fun o => (o.name, o.after)

/-- The names that the interpolations of a text splice. -/
def interpolationNames (t : Text) : List Text :=
  (occurrences interpolationPattern t).map Occurrence.name

theorem interpolationNames_eq (t : Text) :
    interpolationNames t = (interpolationPoints t).map Prod.fst := by
  rw [interpolationPoints, List.map_map]
  rfl

theorem map_interpolationsBehind (seen t : Text) :
    ((interpolationsBehind seen t).map fun o => (o.name, o.after)) = interpolationPoints t := by
  rw [interpolationPoints, occurrences_eq_interpolationsBehind]
  generalize ([] : Text) = seen'
  induction hn : t.length using Nat.strong_induction_on generalizing t seen seen' with
  | _ n ih =>
    rw [interpolationsBehind_eq seen, interpolationsBehind_eq seen']
    cases hi : Interpolation.first? t with
    | none => rfl
    | some i =>
      have hlength := Interpolation.length_after_lt hi
      simp only [List.map_cons]
      exact congrArg ((i.name, i.after) :: ·) (ih _ (hn ▸ hlength) _ i.after _ rfl)

theorem interpolationPoints_of_none {t : Text} (h : Interpolation.first? t = none) :
    interpolationPoints t = [] := by
  rw [interpolationPoints, occurrences_eq_interpolationsBehind, interpolationsBehind_eq, h]
  rfl

theorem interpolationPoints_of_first? {t : Text} {i : Interpolation}
    (h : Interpolation.first? t = some i) :
    interpolationPoints t = (i.name, i.after) :: interpolationPoints i.after := by
  rw [interpolationPoints, occurrences_eq_interpolationsBehind, interpolationsBehind_eq, h]
  simp only [List.map_cons, map_interpolationsBehind]
  rfl

theorem interpolationPoints_append {v : Text} (hv : '$' ∉ v) (t : Text) :
    interpolationPoints (v ++ t) = interpolationPoints t := by
  have hfirst := Interpolation.first?_append_of_not_mem hv t
  cases hi : Interpolation.first? t with
  | none =>
    rw [hi] at hfirst
    rw [interpolationPoints_of_none hfirst, interpolationPoints_of_none hi]
  | some i =>
    rw [hi] at hfirst
    rw [interpolationPoints_of_first? hfirst, interpolationPoints_of_first? hi]

theorem interpolationNames_of_first? {t : Text} {i : Interpolation}
    (h : Interpolation.first? t = some i) :
    interpolationNames t = i.name :: interpolationNames i.after := by
  rw [interpolationNames_eq, interpolationPoints_of_first? h, List.map_cons,
    ← interpolationNames_eq]

theorem interpolationNames_append {v : Text} (hv : '$' ∉ v) (t : Text) :
    interpolationNames (v ++ t) = interpolationNames t := by
  rw [interpolationNames_eq, interpolationPoints_append hv, ← interpolationNames_eq]

theorem not_mem_collectionName {name : Text} {c : Char} (h : c ∉ name) : c ∉ collectionName name :=
  fun hc => h ((List.takeWhile_prefix _).subset hc)

theorem not_mem_elementName {collection : Text} {c : Char} (h : c ∉ collection)
    (hc : c ∉ "Item".toList) : c ∉ elementName collection := by
  rw [elementName, List.mem_append, List.mem_reverse]
  rintro (hmem | hmem)
  · exact h (List.mem_reverse.1 ((List.takeWhile_sublist _).subset hmem))
  · exact hc hmem

/-! ## Along the scan -/

theorem remainingRisk_of_complete {b : Binder} {t : Text} (h : (b.fix t).complete = true) :
    b.remainingRisk (b.fix t).text = .safe := by
  have hrisk : (!(b.remainingRisk (b.fix t).text).isRisky) = true := h
  cases hcase : b.remainingRisk (b.fix t).text with
  | safe => rfl
  | risky =>
    rw [hcase] at hrisk
    cases hrisk

/-- What the scan keeps when it passes over an interpolation and when it binds one, it keeps to its
end. -/
theorem Binder.bindFrom_invariant (b : Binder) (I : Text → Text → Prop)
    (hskip : ∀ {seen rest i}, Interpolation.first? rest = some i → I seen rest →
      I (seen ++ i.before ++ interpolationOf i.name) i.after)
    (hplan : ∀ {seen rest i p kept cut opened new}, Interpolation.first? rest = some i →
      Rewrites b seen i.before i.name i.after p kept cut opened new → I seen rest → I p.head p.rest)
    (seen rest : Text) (hs : Sealed seen) (h : I seen rest) :
    ∃ s r, b.bindFrom seen rest = s ++ r ∧ I s r := by
  induction hn : rest.length using Nat.strong_induction_on generalizing seen rest with
  | _ n ih =>
    cases hi : Interpolation.first? rest with
    | none => exact ⟨seen, rest, bindFrom_of_none hi seen, h⟩
    | some i =>
      have hlength := Interpolation.length_after_lt hi
      cases hp : b.plan? (seen ++ i.before) i.name i.after with
      | none =>
        rw [bindFrom_of_skip hi hp]
        have hseal : Sealed (seen ++ i.before ++ interpolationOf i.name) := by
          have := sealed_append (seen ++ i.before ++ '$' :: '{' :: i.name) (c := '}') (by decide)
          simpa [interpolationOf] using this
        exact ih _ (hn ▸ hlength) _ _ hseal (hskip hi h) rfl
      | some p =>
        rw [bindFrom_of_plan hi hp]
        obtain ⟨kept, cut, opened, new, hr⟩ := plan?_inv hs hp
        have hseal : Sealed p.head := hr.head_eq ▸ hr.inserts.isSealed (seen ++ kept)
        exact ih _ (hn ▸ Nat.lt_of_le_of_lt (length_plan_rest hp) hlength) _ _ hseal
          (hplan hi hr h) rfl

end SqlInjection
