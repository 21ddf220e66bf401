import Mathlib.Logic.Relation
import SqlInjection.Proofs.Expr.Fragments

/-!
# Verdicts on chains

The scan of a chain carries two things along: the text seen so far, in which every dynamic part
leaves a mark, and the verdict so far. `chainRiskFrom_eq_risky_iff` takes them apart: a chain is
risky exactly when one of its points is, judged by the text of all that stands before it.

So the verdict does not depend on how constants are cut (`Resplits`), and more fragments behind a
risky chain leave it risky. `chainRisk_iff_point` puts this together.
-/

namespace SqlInjection

theorem Risk.or_assoc (a b c : Risk) : (a.or b).or c = a.or (b.or c) := by
  cases a <;> rfl

theorem Risk.or_eq_risky_iff {a b : Risk} : a.or b = .risky ↔ a = .risky ∨ b = .risky := by
  cases a <;> simp [Risk.or]

theorem Risk.eq_safe_iff {r : Risk} : r = .safe ↔ r ≠ .risky := by
  cases r <;> simp

/-! ## One point decides -/

/-- A fragment is risky by itself exactly when it is a point that carries text in a risky place. -/
theorem fragment_eq_risky_iff {f : Fragment} {seen : Text} :
    (if f.carriesText then chainPointRisk seen else .safe) = Risk.risky ↔
      ∃ e, f = .dynamic e ∧ e.carriesText = true ∧ chainPointRisk seen = .risky := by
  cases f with
  | constant t => simp [Fragment.carriesText]
  | dynamic e => cases he : e.carriesText <;> simp [Fragment.carriesText, he]

/-- The scan that has seen a text finds the points that are risky behind it. -/
theorem chainRiskFrom_eq_risky_iff {seen : Text} {fs : List Fragment} :
    chainRiskFrom seen fs = .risky ↔ ∃ i e, fs[i]? = some (.dynamic e) ∧ e.carriesText = true ∧
      chainPointRisk (seen ++ shape (fs.take i)) = .risky := by
  induction fs generalizing seen with
  | nil => simp [chainRiskFrom]
  | cons f fs ih =>
    rw [chainRiskFrom, Risk.or_eq_risky_iff, fragment_eq_risky_iff, ih]
    constructor
    · rintro (⟨e, rfl, he, hrisk⟩ | ⟨i, e, hi, he, hrisk⟩)
      · exact ⟨0, e, rfl, he, by simpa [shape] using hrisk⟩
      · exact ⟨i + 1, e, hi, he, by simpa [shape] using hrisk⟩
    · rintro ⟨i, e, hi, he, hrisk⟩
      cases i with
      | zero => exact Or.inl ⟨e, Option.some.inj hi, he, by simpa [shape] using hrisk⟩
      | succ i => exact Or.inr ⟨i, e, hi, he, by simpa [shape] using hrisk⟩

/-! ## Constants and endings -/

/-- One constant is cut in two that stand next to each other. -/
inductive Resplits : List Fragment → List Fragment → Prop
  | cut (l r : List Fragment) (s t : Text) :
      Resplits (l ++ .constant (s ++ t) :: r) (l ++ .constant s :: .constant t :: r)

theorem Resplits.mergeConstants_eq {fs gs : List Fragment} (h : Resplits fs gs) :
    mergeConstants fs = mergeConstants gs := by
  obtain ⟨l, r, s, t⟩ := h
  rw [mergeConstants_append, mergeConstants_append, mergeConstants_cons, mergeConstants_cons,
    mergeConstants_cons, onto_onto]

theorem mergeConstants_eq_of_eqvGen {fs gs : List Fragment}
    (h : Relation.EqvGen Resplits fs gs) : mergeConstants fs = mergeConstants gs := by
  have hle : Resplits ≤ Function.onFun Eq mergeConstants := fun _ _ => Resplits.mergeConstants_eq
  exact (eq_equivalence.comap mergeConstants).eqvGen_iff.1 (Relation.EqvGen.mono hle fs gs h)

theorem chainRiskFrom_onto (seen : Text) (f : Fragment) (fs : List Fragment) :
    chainRiskFrom seen (f.onto fs) = chainRiskFrom seen (f :: fs) := by
  cases f with
  | dynamic e => rfl
  | constant s =>
    cases fs with
    | nil => rfl
    | cons g fs =>
      cases g with
      | dynamic e => rfl
      | constant t =>
        simp [Fragment.onto, chainRiskFrom, Fragment.carriesText, Fragment.marked, Risk.or]

/-- A constant is judged by nothing, so constants may be merged. -/
theorem chainRiskFrom_mergeConstants (seen : Text) (fs : List Fragment) :
    chainRiskFrom seen (mergeConstants fs) = chainRiskFrom seen fs := by
  induction fs generalizing seen with
  | nil => rfl
  | cons f fs ih => rw [mergeConstants_cons, chainRiskFrom_onto, chainRiskFrom, chainRiskFrom, ih]

/-- What stands behind a chain adds to its verdict. -/
theorem chainRiskFrom_append (seen : Text) (fs gs : List Fragment) :
    chainRiskFrom seen (fs ++ gs) =
      (chainRiskFrom seen fs).or (chainRiskFrom (seen ++ shape fs) gs) := by
  induction fs generalizing seen with
  | nil => simp [chainRiskFrom, shape, Risk.or]
  | cons f fs ih =>
    rw [List.cons_append, chainRiskFrom, chainRiskFrom, ih, Risk.or_assoc]
    simp [shape]

/-- **A chain is risky exactly when one of its points is:** a dynamic part that carries text, behind
a text, with a mark for each dynamic part in it, that leads to a value. So the verdict is the same
however constants are cut, stays risky when fragments are added behind, and is safe where no dynamic
part carries text. -/
theorem chainRisk_iff_point (fs : List Fragment) :
    (chainRisk fs = .risky ↔ ∃ i e, fs[i]? = some (.dynamic e) ∧ e.carriesText = true ∧
        chainPointRisk (shape (fs.take i)) = .risky) ∧
      (∀ gs, Relation.EqvGen Resplits fs gs → chainRisk gs = chainRisk fs) ∧
      (∀ gs, chainRisk fs = .risky → chainRisk (fs ++ gs) = .risky) ∧
      ((∀ e, .dynamic e ∈ fs → e.carriesText = false) → chainRisk fs = .safe) := by
  refine ⟨chainRiskFrom_eq_risky_iff, fun gs h => ?_, fun gs h => ?_, fun h => ?_⟩
  · calc chainRisk gs = chainRisk (mergeConstants gs) := (chainRiskFrom_mergeConstants [] gs).symm
      _ = chainRisk (mergeConstants fs) := by rw [mergeConstants_eq_of_eqvGen h]
      _ = chainRisk fs := chainRiskFrom_mergeConstants [] fs
  · rw [chainRisk, chainRiskFrom_append, Risk.or_eq_risky_iff]
    exact Or.inl h
  · rw [Risk.eq_safe_iff, chainRisk, Ne, chainRiskFrom_eq_risky_iff]
    rintro ⟨i, e, hi, he, -⟩
    rw [h e (List.mem_of_getElem? hi)] at he
    cases he

/-- A table, a number and a text, each put into a statement. -/
def mixedChain (id : Expr) : List Fragment :=
  [.constant "select a from ".toList,
    .dynamic (.ofRef .variable "table".toList (some "String".toList) none),
    .constant " where b = ".toList, .dynamic (.ofLiteral (.number ['1'])),
    .constant " and c = ".toList, .dynamic id]

theorem chainRisk_iff_point_mixedChain :
    let id := Expr.ofRef .variable "id".toList (some "String".toList) none
    let cut := .constant "select a ".toList :: .constant "from ".toList :: (mixedChain id).tail
    let numbers := (mixedChain (.ofLiteral .null)).drop 2
    chainPointRisk "select a from ? where b = ? and c = ".toList = .risky ∧
      chainRisk (mixedChain id) = .risky ∧
      Resplits (mixedChain id) cut ∧ chainRisk cut = chainRisk (mixedChain id) ∧
      chainRisk (mixedChain id ++ [.constant " limit 1".toList]) = .risky ∧
      (∀ e, .dynamic e ∈ numbers → e.carriesText = false) ∧ chainRisk numbers = .safe := by
  intro id cut numbers
  have hpoint : chainPointRisk "select a from ? where b = ? and c = ".toList = .risky := by decide
  have hcut : Resplits (mixedChain id) cut := Resplits.cut [] _ "select a ".toList "from ".toList
  obtain ⟨hiff, hsplit, hmore, -⟩ := chainRisk_iff_point (mixedChain id)
  obtain ⟨-, -, -, hnone⟩ := chainRisk_iff_point numbers
  have hnumbers : ∀ e, .dynamic e ∈ numbers → e.carriesText = false := by
    intro e he
    simp only [numbers, mixedChain, List.drop_succ_cons, List.drop_zero, List.mem_cons,
      reduceCtorEq, Fragment.dynamic.injEq, List.not_mem_nil, or_false, false_or] at he
    rcases he with rfl | rfl <;> rfl
  have hrisky : chainRisk (mixedChain id) = .risky := hiff.2 ⟨5, id, rfl, rfl, hpoint⟩
  exact ⟨hpoint, hrisky, hcut, hsplit cut (.rel _ _ hcut), hmore _ hrisky, hnumbers, hnone hnumbers⟩

end SqlInjection
