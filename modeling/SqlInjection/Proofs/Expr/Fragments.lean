import Mathlib.Data.List.Basic
import Mathlib.Logic.Relation
import SqlInjection.Expr.Fragment

/-!
# Fragments of concatenations

Reading an expression into fragments takes a chain of concatenations apart, operand by operand and
through the references that are known to hold one, and merges constants at the end. Merging may be
done before as well as after (`foldr_onto_mergeConstants`), so it does not matter how operands are
grouped.

* `Expr.plusLeaves`: what a chain is built from in the end, in order;
* `Regroups`: one change of parentheses, or one reference followed. Two expressions have the same
  leaves exactly when such changes lead from one to the other (`regroups_iff`).

`fragments_of_leaves` says that fragments depend on the leaves alone.
-/

namespace SqlInjection

/-! ## Merging constants -/

/-- A fragment in front of merged ones. -/
def Fragment.onto : Fragment → List Fragment → List Fragment
  | .constant s, .constant t :: fs => .constant (s ++ t) :: fs
  | f, fs => f :: fs

/-- No two constants stand next to each other. -/
def Separated (fs : List Fragment) : Prop :=
  fs.IsChain fun f g => f.constant? = none ∨ g.constant? = none

section Merging

open Fragment

theorem mergeConstants_cons (f : Fragment) (fs : List Fragment) :
    mergeConstants (f :: fs) = f.onto (mergeConstants fs) := by
  cases f with
  | dynamic e => rfl
  | constant s =>
    rw [mergeConstants]
    split <;> simp_all [onto]

theorem mergeConstants_append (fs gs : List Fragment) :
    mergeConstants (fs ++ gs) = fs.foldr onto (mergeConstants gs) := by
  induction fs with
  | nil => rfl
  | cons f fs ih => rw [List.cons_append, mergeConstants_cons, ih, List.foldr_cons]

theorem onto_onto (s t : Text) (fs : List Fragment) :
    (constant s).onto ((constant t).onto fs) = (constant (s ++ t)).onto fs := by
  cases fs with
  | nil => rfl
  | cons f fs => cases f <;> simp [onto]

theorem foldr_onto (f : Fragment) (fs gs : List Fragment) :
    (f.onto fs).foldr onto gs = f.onto (fs.foldr onto gs) := by
  cases f with
  | dynamic e => rfl
  | constant s =>
    cases fs with
    | nil => rfl
    | cons g fs =>
      cases g with
      | dynamic e => rfl
      | constant t => rw [onto, List.foldr_cons, List.foldr_cons, onto_onto]

/-- Constants may be merged before others are put behind them. -/
theorem foldr_onto_mergeConstants (fs gs : List Fragment) :
    (mergeConstants fs).foldr onto gs = fs.foldr onto gs := by
  induction fs with
  | nil => rfl
  | cons f fs ih => rw [mergeConstants_cons, foldr_onto, ih, List.foldr_cons]

/-- Expressions one after the other have the same fragments whether constants are merged in each of
them before or not. -/
theorem mergeConstants_flatMap_fragments (es : List Expr) :
    mergeConstants (es.flatMap Expr.fragments) = mergeConstants (piecesOfAll es) := by
  induction es with
  | nil => rfl
  | cons e es ih =>
    rw [List.flatMap_cons, piecesOfAll, mergeConstants_append, mergeConstants_append, ih,
      Expr.fragments, foldr_onto_mergeConstants]

theorem Separated.onto {fs : List Fragment} (h : Separated fs) (f : Fragment) :
    Separated (f.onto fs) := by
  cases fs with
  | nil => cases f <;> exact List.IsChain.singleton _
  | cons g fs =>
    cases f with
    | dynamic e => exact List.IsChain.cons_cons (Or.inl rfl) h
    | constant s =>
      cases g with
      | dynamic e => exact List.IsChain.cons_cons (Or.inr rfl) h
      | constant t =>
        -- the merged constant stands where the second one stood
        cases fs with
        | nil => exact List.IsChain.singleton _
        | cons f fs =>
          obtain ⟨hnext, hrest⟩ := List.isChain_cons_cons.1 h
          exact List.IsChain.cons_cons (Or.inr (hnext.resolve_left (by simp [constant?]))) hrest

theorem separated_mergeConstants (fs : List Fragment) : Separated (mergeConstants fs) := by
  induction fs with
  | nil => exact List.IsChain.nil
  | cons f fs ih =>
    rw [mergeConstants_cons]
    exact ih.onto f

end Merging

theorem piecesOfAll_append (es es' : List Expr) :
    piecesOfAll (es ++ es') = piecesOfAll es ++ piecesOfAll es' := by
  induction es with
  | nil => rfl
  | cons e es ih => rw [List.cons_append, piecesOfAll, piecesOfAll, ih, List.append_assoc]

theorem piecesOfAll_singleton (e : Expr) : piecesOfAll [e] = e.pieces := by
  rw [piecesOfAll, piecesOfAll, List.append_nil]

/-! ## Leaves of chains -/

mutual

/-- What the chains of concatenations in an expression are built from in the end, from left to
right. A reference that is known to hold a chain counts as that chain. -/
def Expr.plusLeaves : Expr → List Expr
  | .ref kind name type (some value) w =>
    if value.isPlusChain then value.plusLeaves else [.ref kind name type (some value) w]
  | .chain op operands w =>
    if op = Expr.plus then leavesOfAll operands else [.chain op operands w]
  | e => [e]

/-- The leaves of several expressions, one after the other. -/
def leavesOfAll : List Expr → List Expr
  | [] => []
  | e :: es => e.plusLeaves ++ leavesOfAll es

end

theorem leavesOfAll_append (es es' : List Expr) :
    leavesOfAll (es ++ es') = leavesOfAll es ++ leavesOfAll es' := by
  induction es with
  | nil => rfl
  | cons e es ih => rw [List.cons_append, leavesOfAll, leavesOfAll, ih, List.append_assoc]

theorem plusLeaves_chain (es : List Expr) (w : Written) :
    (Expr.chain Expr.plus es w).plusLeaves = leavesOfAll es := by
  rw [Expr.plusLeaves, if_pos rfl]

theorem plusLeaves_ref {value : Expr} (h : value.isPlusChain = true) (kind : RefKind) (name : Text)
    (type : Option Text) (w : Written) :
    (Expr.ref kind name type (some value) w).plusLeaves = value.plusLeaves := by
  rw [Expr.plusLeaves, if_pos h]

mutual

/-- The parts of an expression are those of its leaves. -/
theorem piecesOfAll_plusLeaves : (e : Expr) → piecesOfAll e.plusLeaves = e.pieces
  | .ref kind name type (some value) w => by
    rw [Expr.plusLeaves]
    split
    · next h => rw [piecesOfAll_plusLeaves value, Expr.pieces, if_pos (by simp [h])]
    · exact piecesOfAll_singleton _
  | .chain op operands w => by
    rw [Expr.plusLeaves]
    split
    · next h => rw [piecesOfAll_leavesOfAll operands, Expr.pieces, if_pos h]
    · exact piecesOfAll_singleton _
  | .literal _ _ | .ref _ _ _ none _ | .call .. | .unknown _ _ => by
    rw [Expr.plusLeaves]
    · exact piecesOfAll_singleton _
    all_goals simp

theorem piecesOfAll_leavesOfAll : (es : List Expr) → piecesOfAll (leavesOfAll es) = piecesOfAll es
  | [] => rfl
  | e :: es => by
    rw [leavesOfAll, piecesOfAll_append, piecesOfAll_plusLeaves e, piecesOfAll_leavesOfAll es,
      piecesOfAll]

end

/-! ## Regrouping -/

/-- One step that changes how operands are grouped: the operands of a chain inside a chain join
those around them, an operand stands for a chain of its own, a reference is followed to the chain
it holds, or such a step is made in an operand. How a chain is written does not count. -/
inductive Regroups : Expr → Expr → Prop
  | unnest (l m r : List Expr) (u w : Written) :
      Regroups (.chain Expr.plus (l ++ .chain Expr.plus m u :: r) w)
        (.chain Expr.plus (l ++ (m ++ r)) w)
  | single (e : Expr) (w : Written) : Regroups (.chain Expr.plus [e] w) e
  | follow {value : Expr} (h : value.isPlusChain = true) (kind : RefKind) (name : Text)
      (type : Option Text) (w : Written) : Regroups (.ref kind name type (some value) w) value
  | operand (l r : List Expr) (w : Written) {e e' : Expr} (h : Regroups e e') :
      Regroups (.chain Expr.plus (l ++ e :: r) w) (.chain Expr.plus (l ++ e' :: r) w)
  | rewritten (es : List Expr) (u w : Written) :
      Regroups (.chain Expr.plus es u) (.chain Expr.plus es w)

/-- A step keeps the leaves. -/
theorem Regroups.plusLeaves_eq {e e' : Expr} (h : Regroups e e') :
    e.plusLeaves = e'.plusLeaves := by
  induction h with
  | unnest l m r u w =>
    simp only [plusLeaves_chain, leavesOfAll_append, leavesOfAll]
  | single e w => rw [plusLeaves_chain, leavesOfAll, leavesOfAll, List.append_nil]
  | follow h kind name type w => exact plusLeaves_ref h kind name type w
  | operand l r w _ ih => simp only [plusLeaves_chain, leavesOfAll_append, leavesOfAll, ih]
  | rewritten es u w => rw [plusLeaves_chain, plusLeaves_chain]

theorem eqvGen_operand {e e' : Expr} (h : Relation.EqvGen Regroups e e') (l r : List Expr)
    (w : Written) :
    Relation.EqvGen Regroups (.chain Expr.plus (l ++ e :: r) w)
      (.chain Expr.plus (l ++ e' :: r) w) := by
  induction h with
  | rel _ _ h => exact .rel _ _ (.operand l r w h)
  | refl => exact .refl _
  | symm _ _ _ ih => exact .symm _ _ ih
  | trans _ _ _ _ _ ih ih' => exact .trans _ _ _ ih ih'

mutual

/-- Every expression can be regrouped into one chain of its leaves. -/
theorem eqvGen_plusLeaves (w : Written) : (e : Expr) →
    Relation.EqvGen Regroups e (.chain Expr.plus e.plusLeaves w)
  | .ref kind name type (some value) u => by
    rw [Expr.plusLeaves]
    split
    · next h =>
      exact .trans _ _ _ (.rel _ _ (.follow h kind name type u)) (eqvGen_plusLeaves w value)
    · exact .symm _ _ (.rel _ _ (.single _ w))
  | .chain op operands u => by
    rw [Expr.plusLeaves]
    split
    · next h =>
      subst h
      exact .trans _ _ _ (.rel _ _ (.rewritten operands u w)) (eqvGen_leavesOfAll w operands [])
    · exact .symm _ _ (.rel _ _ (.single _ w))
  | .literal _ _ | .ref _ _ _ none _ | .call .. | .unknown _ _ => by
    rw [Expr.plusLeaves]
    · exact .symm _ _ (.rel _ _ (.single _ w))
    all_goals simp

theorem eqvGen_leavesOfAll (w : Written) : (es l : List Expr) →
    Relation.EqvGen Regroups (.chain Expr.plus (l ++ es) w)
      (.chain Expr.plus (l ++ leavesOfAll es) w)
  | [], l => .refl _
  | e :: es, l => by
    have hoperand := eqvGen_operand (eqvGen_plusLeaves w e) l es w
    have hunnest := Regroups.unnest l e.plusLeaves es w w
    have hrest := eqvGen_leavesOfAll w es (l ++ e.plusLeaves)
    rw [List.append_assoc, List.append_assoc] at hrest
    rw [leavesOfAll]
    exact .trans _ _ _ hoperand (.trans _ _ _ (.rel _ _ hunnest) hrest)

end

/-- Expressions have the same leaves exactly when they differ by how operands are grouped. -/
theorem regroups_iff {e e' : Expr} :
    Relation.EqvGen Regroups e e' ↔ e.plusLeaves = e'.plusLeaves := by
  constructor
  · intro h
    induction h with
    | rel _ _ h => exact h.plusLeaves_eq
    | refl => rfl
    | symm _ _ _ ih => exact ih.symm
    | trans _ _ _ _ _ ih ih' => exact ih.trans ih'
  · intro h
    have hleft := eqvGen_plusLeaves (Expr.nowhere []) e
    have hright := eqvGen_plusLeaves (Expr.nowhere []) e'
    rw [h] at hleft
    exact .trans _ _ _ hleft (.symm _ _ hright)

/-- The fragments of an expression are those of its leaves, one after the other. -/
theorem fragments_eq_flatMap_plusLeaves (e : Expr) :
    e.fragments = mergeConstants (e.plusLeaves.flatMap Expr.fragments) := by
  rw [mergeConstants_flatMap_fragments, piecesOfAll_plusLeaves]
  rfl

/-- **Fragments depend on the leaves of a concatenation alone.** The fragments of a chain are those
of its operands, in order, with adjacent constants merged. So expressions with the same leaves have
the same fragments, and these are the expressions that differ by the grouping of operands and by
references to chains. No two constants stand next to each other. -/
theorem fragments_of_leaves (e : Expr) :
    (∀ es w, (Expr.chain Expr.plus es w).fragments =
        mergeConstants (es.flatMap Expr.fragments)) ∧
      e.fragments = mergeConstants (e.plusLeaves.flatMap Expr.fragments) ∧
      (∀ e' : Expr, e'.plusLeaves = e.plusLeaves → e'.fragments = e.fragments) ∧
      (∀ e' : Expr, Relation.EqvGen Regroups e' e ↔ e'.plusLeaves = e.plusLeaves) ∧
      Separated e.fragments := by
  refine ⟨fun es w => ?_, fragments_eq_flatMap_plusLeaves e, fun e' h => ?_,
    fun e' => regroups_iff, separated_mergeConstants e.pieces⟩
  · rw [mergeConstants_flatMap_fragments, Expr.fragments, Expr.pieces, if_pos rfl]
  · rw [fragments_eq_flatMap_plusLeaves e', h, ← fragments_eq_flatMap_plusLeaves e]

/-- A chain of two operands of which one refers to a chain, inside a chain. -/
def groupedChain (p : Expr) : Expr :=
  let held := Expr.ofChain Expr.plus [.ofText ['x'], p]
  .ofChain Expr.plus [.ofText ['a'],
    .ofChain Expr.plus [.ofRef .variable ['v'] none (some held), .ofText ['b']]]

theorem fragments_of_leaves_groupedChain :
    let p := Expr.ofRef .variable ['p'] (some "String".toList) none
    let flat := Expr.ofChain Expr.plus [.ofText ['a'], .ofText ['x'], p, .ofText ['b']]
    Relation.EqvGen Regroups flat (groupedChain p) ∧
      flat.fragments = (groupedChain p).fragments ∧
      flat.fragments = [.constant "ax".toList, .dynamic p, .constant ['b']] := by
  intro p flat
  obtain ⟨-, -, hsame, hregroups, -⟩ := fragments_of_leaves (groupedChain p)
  have hleaves : flat.plusLeaves = (groupedChain p).plusLeaves := rfl
  exact ⟨(hregroups flat).2 hleaves, hsame flat hleaves, rfl⟩

end SqlInjection
