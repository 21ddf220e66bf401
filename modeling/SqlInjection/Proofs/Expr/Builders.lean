import SqlInjection.Proofs.Expr.Fragments

/-!
# String builders

A string builder is created, perhaps with a first text, and then given one expression after the
other. It is read from its last append back to its creation, a chain of concatenations from its
first operand on; both come to the same.

* `Expr.Builds`: a builder and the expressions it was given, in order. These are the expressions
  that can be unrolled (`Expr.builderPieces?_eq_some_iff`);
* `Expr.appends` and `Expr.newBuilder`: builders as they are spelled in one expression.

`builder_reads_as_chain` says that such a builder has the fragments of the chain of what it was
given, whether its text is asked for or a variable holds it.
-/

namespace SqlInjection

namespace Expr

/-- `e.Builds es`: the string builder `e` was given the expressions `es`, from first to last. What
carries no text in its creation is a capacity. -/
inductive Builds : Expr → List Expr → Prop
  | created {name : Text} (receiver first : Option Expr) (w : Written)
      (hname : name ∈ builderTypes) (hfirst : ∀ a ∈ first, a.carriesText = true) :
      Builds (.call receiver name first.toList true w) first.toList
  | sized {name : Text} {capacity : Expr} (receiver : Option Expr) (w : Written)
      (hname : name ∈ builderTypes) (hcapacity : capacity.carriesText = false) :
      Builds (.call receiver name [capacity] true w) []
  | appended {r : Expr} {es : List Expr} (a : Expr) (creates : Bool) (w : Written)
      (hr : Builds r es) : Builds (.call (some r) "append".toList [a] creates w) (es ++ [a])
  | held {value : Expr} {es : List Expr} {type : Text} (name : Text) (w : Written)
      (htype : type ∈ builderTypes) (hvalue : Builds value es) :
      Builds (.ref .variable name (some type) (some value) w) es

theorem isBuilderType_some_iff {type : Text} :
    isBuilderType (some type) = true ↔ type ∈ builderTypes :=
  List.contains_iff_mem

theorem append_not_mem_builderTypes : "append".toList ∉ builderTypes := by decide

/-! ## Unrolling -/

theorem builderPieces?_created {name : Text} (hname : name ∈ builderTypes)
    (receiver : Option Expr) (args : List Expr) (w : Written) :
    (Expr.call receiver name args true w).builderPieces? =
      match args with
      | [] => some []
      | [a] => some (if a.carriesText then a.pieces else [])
      | _ => none := by
  rw [builderPieces?.eq_def]
  exact if_pos (by simpa using hname)

theorem builderPieces?_appended (r a : Expr) (creates : Bool) (w : Written) :
    (Expr.call (some r) "append".toList [a] creates w).builderPieces? =
      (r.builderPieces?).map (· ++ a.pieces) := by
  have hname : ¬ (creates && builderTypes.contains "append".toList) = true := by
    simpa using fun _ => append_not_mem_builderTypes
  rw [builderPieces?.eq_def]
  exact (if_neg hname).trans (if_pos rfl)

theorem builderPieces?_held {type : Text} (htype : type ∈ builderTypes) (name : Text)
    (value : Expr) (w : Written) :
    (Expr.ref .variable name (some type) (some value) w).builderPieces? =
      value.builderPieces? := by
  rw [builderPieces?.eq_def]
  exact if_pos (isBuilderType_some_iff.2 htype)

/-- A builder is unrolled to the parts of what it was given. -/
theorem Builds.builderPieces?_eq {e : Expr} {es : List Expr} (h : e.Builds es) :
    e.builderPieces? = some (piecesOfAll es) := by
  induction h with
  | created receiver first w hname hfirst =>
    rw [builderPieces?_created hname]
    cases first with
    | none => rfl
    | some a => simp [hfirst a rfl, piecesOfAll]
  | sized receiver w hname hcapacity =>
    rw [builderPieces?_created hname]
    simp [hcapacity, piecesOfAll]
  | appended a creates w _ ih =>
    rw [builderPieces?_appended, ih, piecesOfAll_append, piecesOfAll_singleton]
    rfl
  | held name w htype _ ih => rw [builderPieces?_held htype, ih]

/-- Only builders are unrolled. -/
theorem exists_builds : (e : Expr) → {ps : List Fragment} → e.builderPieces? = some ps →
    ∃ es, e.Builds es
  | .call receiver name args creates w, ps, h => by
    -- the one equation holds for all expressions; its tests give the cases of `Builds`
    rw [builderPieces?.eq_def] at h
    simp only at h
    split at h
    · next hcreates =>
      obtain ⟨rfl, hname⟩ : creates = true ∧ name ∈ builderTypes := by simpa using hcreates
      split at h
      · exact ⟨[], .created receiver none w hname (by simp)⟩
      · next a =>
        cases ha : a.carriesText with
        | true => exact ⟨[a], .created receiver (some a) w hname (by simpa using ha)⟩
        | false => exact ⟨[], .sized receiver w hname ha⟩
      · cases h
    · split at h
      · next hname =>
        subst hname
        split at h
        · next r a =>
          obtain ⟨qs, hqs, -⟩ := Option.map_eq_some_iff.1 h
          obtain ⟨es, hes⟩ := exists_builds r hqs
          exact ⟨es ++ [a], .appended a creates w hes⟩
        · cases h
      · cases h
  | .ref .variable name type (some value) w, ps, h => by
    rw [builderPieces?.eq_def] at h
    simp only at h
    split at h
    · next htype =>
      cases type with
      | none => cases htype
      | some type =>
        obtain ⟨es, hes⟩ := exists_builds value h
        exact ⟨es, .held name w (isBuilderType_some_iff.1 htype) hes⟩
    · cases h
  | .ref .variable _ _ none _, _, h | .ref .field _ _ _ _, _, h | .literal _ _, _, h
  | .chain _ _ _, _, h | .unknown _ _, _, h => by
    rw [builderPieces?.eq_def] at h
    cases h

/-- **Exactly the builders can be unrolled**, to the parts of what they were given. -/
theorem builderPieces?_eq_some_iff {e : Expr} {ps : List Fragment} :
    e.builderPieces? = some ps ↔ ∃ es, e.Builds es ∧ ps = piecesOfAll es := by
  constructor
  · intro h
    obtain ⟨es, hes⟩ := exists_builds e h
    rw [hes.builderPieces?_eq] at h
    exact ⟨es, hes, (Option.some.inj h).symm⟩
  · rintro ⟨es, hes, rfl⟩
    exact hes.builderPieces?_eq

/-! ## Builders in one expression -/

/-- The creation of a string builder, perhaps with a first argument. -/
def newBuilder (name : Text) (first : Option Expr) (w : Written) : Expr :=
  .call none name first.toList true w

/-- Calls that append to a builder, each with its argument and how it is written. -/
def appends (e : Expr) (calls : List (Expr × Written)) : Expr :=
  calls.foldl (fun r a => .call (some r) "append".toList [a.1] false a.2) e

/-- The call that asks a builder for its text. -/
def builtText (e : Expr) (w : Written) : Expr := .call (some e) "toString".toList [] false w

theorem Builds.appends {e : Expr} {es : List Expr} (h : e.Builds es)
    (calls : List (Expr × Written)) : (e.appends calls).Builds (es ++ calls.map Prod.fst) := by
  induction calls generalizing e es with
  | nil => simpa [Expr.appends] using h
  | cons call calls ih => simpa [Expr.appends] using ih (h.appended call.1 false call.2)

theorem isCall_appends {e : Expr} (h : e.isCall = true) (calls : List (Expr × Written)) :
    (e.appends calls).isCall = true := by
  induction calls generalizing e with
  | nil => exact h
  | cons call calls ih => exact ih rfl

/-- The text of a builder has the parts of what the builder was given. -/
theorem Builds.pieces_builtText {e : Expr} {es : List Expr} (h : e.Builds es) (w : Written) :
    (e.builtText w).pieces = piecesOfAll es := by
  rw [builtText, pieces, if_pos ⟨rfl, rfl⟩, builderPieces?_eq_some_iff.2 ⟨es, h, rfl⟩]
  rfl

/-- So has a reference to the calls of a builder. -/
theorem Builds.pieces_ref {value : Expr} {es : List Expr} {type : Text} (h : value.Builds es)
    (hcall : value.isCall = true) (htype : type ∈ builderTypes) (kind : RefKind) (name : Text)
    (w : Written) : (Expr.ref kind name (some type) (some value) w).pieces = piecesOfAll es := by
  have hother : ¬ (value.literalText?.isSome || value.isPlusChain) = true := by
    cases value <;> simp_all [isCall, literalText?, isPlusChain]
  rw [pieces, if_neg hother, hcall, Bool.true_and, if_pos (isBuilderType_some_iff.2 htype),
    builderPieces?_eq_some_iff.2 ⟨es, h, rfl⟩]
  rfl

end Expr

theorem pieces_chain (es : List Expr) (w : Written) :
    (Expr.chain Expr.plus es w).pieces = piecesOfAll es := by
  rw [Expr.pieces, if_pos rfl]

/-- **A string builder is read as the chain it builds.** A builder of either class, created with a
first expression that carries text or with none, and given any expressions one after the other: the
call that asks for its text, and a reference of a builder's type that is known to hold it, have the
fragments of the concatenation of all these expressions, and the same verdict. -/
theorem builder_reads_as_chain {name : Text} (hname : name ∈ builderTypes) (first : Option Expr)
    (hfirst : ∀ a ∈ first, a.carriesText = true) (calls : List (Expr × Written))
    (creation chained : Written) :
    let builder := (Expr.newBuilder name first creation).appends calls
    let operands := first.toList ++ calls.map Prod.fst
    let chain := Expr.chain Expr.plus operands chained
    chain.fragments = mergeConstants (operands.flatMap Expr.fragments) ∧
      (∀ w, (builder.builtText w).fragments = chain.fragments ∧
        chainRisk (builder.builtText w).fragments = chainRisk chain.fragments) ∧
      ∀ kind id type w, type ∈ builderTypes →
        let held := Expr.ref kind id (some type) (some builder) w
        held.fragments = chain.fragments ∧
          chainRisk held.fragments = chainRisk chain.fragments := by
  intro builder operands chain
  have hbuilds : builder.Builds operands :=
    (Expr.Builds.created none first creation hname hfirst).appends calls
  have hcall : builder.isCall = true := Expr.isCall_appends rfl calls
  refine ⟨?_, fun w => ?_, fun kind id type w htype => ?_⟩
  · rw [mergeConstants_flatMap_fragments, Expr.fragments, pieces_chain]
  · have htext : (builder.builtText w).fragments = chain.fragments := by
      rw [Expr.fragments, Expr.fragments, hbuilds.pieces_builtText, pieces_chain]
    exact ⟨htext, congrArg chainRisk htext⟩
  · have hheld : (Expr.ref kind id (some type) (some builder) w).fragments =
        chain.fragments := by
      rw [Expr.fragments, Expr.fragments, hbuilds.pieces_ref hcall htype, pieces_chain]
    exact ⟨hheld, congrArg chainRisk hheld⟩

/-- A filter that a second builder makes, for a variable that it is also given. -/
def innerFilter (p : Expr) : Expr :=
  let calls := [(Expr.ofText " and b = ".toList, Expr.nowhere []), (p, Expr.nowhere [])]
  ((Expr.newBuilder "StringBuilder".toList none (Expr.nowhere [])).appends calls).builtText
    (Expr.nowhere [])

theorem builder_reads_as_chain_nested :
    let p := Expr.ofRef .variable ['p'] (some "String".toList) none
    let start := Expr.ofText "select a from t where a = ".toList
    let calls := [(p, Expr.nowhere []), (innerFilter p, Expr.nowhere [])]
    let builder := (Expr.newBuilder "java.lang.StringBuffer".toList (some start)
      (Expr.nowhere [])).appends calls
    let held := Expr.ofRef .field ['b'] (some "StringBuffer".toList) (some builder)
    let chain := Expr.ofChain Expr.plus [start, p, innerFilter p]
    start.carriesText = true ∧
      (builder.builtText (Expr.nowhere [])).fragments = chain.fragments ∧
      held.fragments = chain.fragments ∧
      chain.fragments = [.constant "select a from t where a = ".toList, .dynamic p,
        .constant " and b = ".toList, .dynamic p] ∧
      chainRisk held.fragments = .risky := by
  intro p start calls builder held chain
  have hstart : start.carriesText = true := rfl
  have hname : "java.lang.StringBuffer".toList ∈ builderTypes := by decide
  obtain ⟨-, htext, hrefs⟩ := builder_reads_as_chain hname (some start) (by simpa using hstart)
    calls (Expr.nowhere []) chain.written
  obtain ⟨hheld, hrisk⟩ := hrefs .field ['b'] "StringBuffer".toList (Expr.nowhere ['b']) (by decide)
  exact ⟨hstart, (htext (Expr.nowhere [])).1, hheld, rfl, hrisk.trans (by decide)⟩

end SqlInjection
