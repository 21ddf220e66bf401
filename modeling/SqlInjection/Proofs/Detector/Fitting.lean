import SqlInjection.Detector.Engine
import SqlInjection.Project.SourceKind
import SqlInjection.Proofs.Detector.MapperFixes
import SqlInjection.Proofs.Java.Places

/-!
# Fixes fit their source

An edit can be applied if it starts and ends between two characters of the source. All edits that
the inspections offer do: a comment is inserted where a line starts, and what is replaced is a node
of the source (`fits_of_mem_run`).
-/

namespace SqlInjection

/-- All edits of a fix start and end between characters of the source. -/
def Fix.Fits (source : Text) (f : Fix) : Prop := ∀ e ∈ f.edits, e.Fits source

section Sources

open Java

variable {c : Settings} {s : Source} {p value : Place} {d : Detection} {advice : Option Edit}

/-! ## Comments -/

theorem fits_of_adviseAbove {n : Nat} (h : adviseAbove s n = .ok advice) :
    ∀ e ∈ advice, e.Fits s.text := by
  intro e he
  unfold adviseAbove at h
  split at h
  · next hadvice =>
    obtain rfl := Except.ok.inj h
    exact (adviseAt?_inv (by rw [hadvice]; exact he)).2
  · cases h

theorem fits_advisory (h : ∀ e ∈ advice, e.Fits s.text) : (Fix.advisory advice).Fits s.text :=
  fun e he => h e (Option.mem_toList.1 he)

theorem fits_of_advisoryDetection {i : Inspection} {message : String}
    (h : advisoryDetection i message s p = .ok d) : d.fix.Fits s.text := by
  obtain ⟨advice, hadvice, h⟩ := bind_eq_ok h
  obtain rfl := Except.ok.inj h
  exact fits_advisory (fits_of_adviseAbove hadvice)

theorem fits_of_inspectConcatenation (h : inspectConcatenation c s p = .ok (some d)) :
    d.fix.Fits s.text := by
  obtain ⟨e, -, h⟩ := bind_eq_ok h
  dsimp only at h
  split at h
  · cases h
  · split at h
    · obtain ⟨d', hd, h⟩ := map_eq_ok h
      obtain rfl := Option.some.inj h
      exact fits_of_advisoryDetection hd
    · cases h

theorem fits_of_inspectFormatCall (h : inspectFormatCall c s p = .ok (some d)) :
    d.fix.Fits s.text := by
  obtain ⟨arguments, -, h⟩ := bind_eq_ok h
  split at h
  · cases h
  · obtain ⟨e, -, h⟩ := bind_eq_ok h
    split at h
    · cases h
    · split at h
      · cases h
      · obtain ⟨args, -, h⟩ := bind_eq_ok h
        split at h
        · obtain ⟨d', hd, h⟩ := map_eq_ok h
          obtain rfl := Option.some.inj h
          exact fits_of_advisoryDetection hd
        · cases h

/-! ## Literals -/

theorem mem_children_of_annotationValue? (h : annotationValue? p = some value) :
    ∃ q ∈ p.below, value ∈ q.children := by
  obtain ⟨list, hlist, h⟩ := Option.bind_eq_some_iff.1 h
  have hbelow := Place.mem_below_of_child (Place.mem_children_of_child? hlist).1
  split at h
  · next element heq =>
    have helement : element ∈ list.children :=
      List.mem_of_mem_filter (heq ▸ List.mem_singleton_self element)
    split at h
    · split at h
      · have hpair := Place.below_trans hbelow (Place.mem_below_of_child helement)
        exact ⟨element, hpair, (Place.mem_children_of_child? h).1⟩
      · cases h
    · obtain rfl := Option.some.inj h
      exact ⟨list, hbelow, helement⟩
  · cases h

theorem fits_literalFix (hvalue : value.node.Stands s.text) (hadvice : ∀ e ∈ advice, e.Fits s.text)
    (b : StatementBody) (r : Binder.Outcome) : (literalFix value b r advice).Fits s.text := by
  obtain ⟨before, after, hsource, hspan⟩ := hvalue
  have hedits : ∀ e ∈ (if r.text = b.body then ([] : List Edit)
      else [⟨value.node.span, literalOf (b.head ++ r.text ++ b.tail)⟩]), e.Fits s.text := by
    split
    · simp
    · exact List.forall_mem_singleton.2 ⟨before, value.node.text, after, hsource, hspan⟩
  rw [literalFix]
  generalize (if r.text = b.body then ([] : List Edit) else _) = edits at hedits ⊢
  cases r.complete with
  | true => exact hedits
  | false => exact List.forall_mem_append.2 ⟨hedits, fits_advisory hadvice⟩

theorem fits_of_inspectAnnotated (hs : Source.parse? s.text = some s) (hp : p ∈ s.places)
    (h : inspectAnnotated c s p = .ok (some d)) : d.fix.Fits s.text := by
  unfold inspectAnnotated at h
  split at h
  · cases h
  · next value hvalue =>
    obtain ⟨name, -, hvalue⟩ := Option.bind_eq_some_iff.1 hvalue
    obtain ⟨content, -, h⟩ := bind_eq_ok h
    split at h
    · cases h
    · obtain ⟨b, -, h⟩ := bind_eq_ok h
      dsimp only at h
      split at h
      · obtain ⟨advice, hadvice, h⟩ := bind_eq_ok h
        obtain rfl := Option.some.inj (Except.ok.inj h)
        have hadvice := fits_of_adviseAbove hadvice
        have hstands : value.node.Stands s.text := by
          split at hvalue
          · obtain ⟨q, hq, hchild⟩ := mem_children_of_annotationValue? hvalue
            exact stands_of_child hs (mem_places_of_below hp hq) hchild
          · cases hvalue
        dsimp only
        split
        · exact fits_literalFix hstands hadvice _ _
        · exact fits_advisory hadvice
      · cases h

/-! ## Inspections -/

/-- What is reported for places fits if what is found at each of them does. -/
theorem fits_of_mem_reported {source : Text} {inspect : Place → Lowered (Option Detection)}
    {ps : List Place} (h : ∀ p ∈ ps, ∀ d, inspect p = .ok (some d) → d.fix.Fits source) :
    ∀ d ∈ reported (do let found ← ps.mapM inspect; pure (found.filterMap id)),
      d.fix.Fits source := by
  intro d hd
  unfold reported at hd
  split at hd
  · next ds heq =>
    obtain ⟨found, hfound, heq⟩ := bind_eq_ok heq
    obtain rfl := Except.ok.inj heq
    obtain ⟨o, ho, rfl⟩ := List.mem_filterMap.1 hd
    obtain ⟨p, hp, hinspect⟩ := exists_of_mem_mapM hfound _ ho
    exact h p hp d hinspect
  · cases hd

end Sources

theorem fits_of_mem_detect {kind : SourceKind} {text : Text} {f : SourceFile}
    (hf : kind.read? text = some f) (i : Inspection) (c : Settings) :
    ∀ d ∈ i.detect c f, d.fix.Fits text := by
  cases kind with
  | java =>
    obtain ⟨s, hs, rfl⟩ := Option.map_eq_some_iff.1 hf
    obtain ⟨root, -, rfl⟩ := Option.map_eq_some_iff.1 hs
    cases i with
    | concatenation =>
      exact fits_of_mem_reported fun p _ d => fits_of_inspectConcatenation
    | formatTemplate =>
      exact fits_of_mem_reported fun p _ d => fits_of_inspectFormatCall
    | annotatedMethod =>
      exact fits_of_mem_reported fun p hp d =>
        fits_of_inspectAnnotated hs (List.mem_of_mem_filter hp)
    | mapperDocument => nofun
  | xml =>
    obtain ⟨m, hm, rfl⟩ := Option.map_eq_some_iff.1 hf
    cases i with
    | mapperDocument =>
      exact fun d hd e he => fits_of_mem_mapperEdits hm (List.mem_flatMap.2 ⟨d, hd, he⟩)
    | _ => nofun

/-- **All edits that are offered for a source start and end between its characters.** -/
theorem fits_of_mem_run (e : Engine) {kind : SourceKind} {text : Text} {f : SourceFile}
    (hf : kind.read? text = some f) : ∀ d ∈ e.run f, d.fix.Fits text := by
  intro d hd
  obtain ⟨⟨i, severity⟩, -, hd⟩ := List.mem_flatMap.1 hd
  exact fits_of_mem_detect hf i e.settings d hd

end SqlInjection
