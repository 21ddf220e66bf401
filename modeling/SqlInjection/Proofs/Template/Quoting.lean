import Mathlib.Algebra.Group.Nat.Even
import SqlInjection.Proofs.Template.Scan

/-!
# Parameters and string literals

A parameter is bound where it stands outside every string literal of a statement; inside one it is
text. A place is outside when an even number of apostrophes stands before it (`Outside`).

`Binder.placements` lists the parameters that the binder puts into a template. Binding keeps the
parity of the apostrophes up to every place that it goes on from, so each parameter can be compared
with the interpolation that it replaces: `outside_front_iff` says that it stands outside exactly when
the interpolation did and no apostrophes were taken away around it, or the interpolation stood in a
literal and the apostrophes around it were taken away. The plans do not ask for that: they take
apostrophes away wherever they stand on both sides, and put a parameter wherever a value is.
-/

namespace SqlInjection

/-- Every string literal that starts in the text also ends in it. -/
def Outside (t : Text) : Prop := Even (t.count '\'')

instance (t : Text) : Decidable (Outside t) := inferInstanceAs (Decidable (Even _))

theorem outside_iff {t : Text} : Outside t ↔ t.count '\'' % 2 = 0 := Nat.even_iff

theorem count_apostrophe_of_blank {w : Text} (hw : ∀ c ∈ w, Text.isBlank c = true) :
    w.count '\'' = 0 :=
  List.count_eq_zero.2 fun h => absurd (hw _ h) (by decide)

/-! ## What a plan puts around its parameter -/

/-- What stands before the parameter in a pattern expression. -/
def likeOpening (leading trailing : Bool) : Text :=
  if leading || trailing then " CONCAT(".toList ++ (if leading then "'%', ".toList else [])
  else [' ']

/-- What stands behind the parameter in a pattern expression. -/
def likeClosing (leading trailing : Bool) : Text :=
  if leading || trailing then (if trailing then ", '%'".toList else []) ++ ") ".toList else [' ']

theorem likeExpression_eq (leading trailing : Bool) (name : Text) :
    likeExpression leading trailing name =
      likeOpening leading trailing ++ (bound name ++ likeClosing leading trailing) := by
  unfold likeExpression likeOpening likeClosing
  split
  · rw [List.append_assoc, List.append_assoc]
  · rfl

/-- What stands before the parameter in a block. -/
def blockOpening (name : Text) : Text :=
  "<foreach collection=\"".toList ++ collectionName name ++ "\" item=\"".toList ++
    elementName (collectionName name) ++ "\" open=\"(\" separator=\",\" close=\")\">\n".toList

/-- What stands behind the parameter in a block. -/
def blockClosing : Text := "\n</foreach>".toList

theorem foreachBlock_eq_opening (name : Text) :
    foreachBlock name =
      blockOpening name ++ (bound (elementName (collectionName name)) ++ blockClosing) :=
  List.append_assoc (blockOpening name) _ _

/-- The name that a plan binds. -/
def PlanKind.parameter (kind : PlanKind) (name : Text) : Text :=
  match kind with
  | .direct | .like => name
  | .foreach => elementName (collectionName name)

/-- The text before the parameter, after a plan for an interpolation of `name` between two texts. -/
def PlanKind.front (kind : PlanKind) (before name after : Text) : Text :=
  match kind with
  | .direct => (stripQuotes before after).1
  | .like =>
    Text.trimEnd (splitLastPercent before).1.dropLast ++
      likeOpening (splitLastPercent before).2 (splitFirstPercent after).2
  | .foreach =>
    let (b, a) := stripQuotes before after
    (stripParens b a).1 ++ '\n' :: blockOpening name

/-- What a plan puts behind the parameter. -/
def PlanKind.back (kind : PlanKind) (before after : Text) : Text :=
  match kind with
  | .direct => []
  | .like => likeClosing (splitLastPercent before).2 (splitFirstPercent after).2
  | .foreach => blockClosing ++ ['\n']

/-- Whether a plan takes an apostrophe away on both sides of the interpolation. -/
def PlanKind.takesApostrophes (kind : PlanKind) (before after : Text) : Bool :=
  match kind with
  | .like => (splitLastPercent before).1.getLast? == some '\''
  | .direct | .foreach => (stripPair? ['\''] ['\''] before after).isSome

/-! ## Apostrophes before and after a plan -/

theorem count_stripPair? {opening closing before after b a : Text}
    (h : stripPair? opening closing before after = some (b, a)) :
    before.count '\'' = b.count '\'' + opening.count '\'' ∧
      ∃ v, after = v ++ a ∧ v.count '\'' = closing.count '\'' := by
  obtain ⟨w, v, rfl, rfl, hw, hv⟩ := stripPair?_inv h
  refine ⟨?_, v ++ closing, by simp, ?_⟩
  · simp only [List.count_append, count_apostrophe_of_blank hw]
    omega
  · rw [List.count_append, count_apostrophe_of_blank hv, Nat.zero_add]

/-- Of the quotes around a point only a pair of apostrophes changes the count. -/
theorem count_stripQuotes (before after : Text) :
    before.count '\'' = (stripQuotes before after).1.count '\'' +
        ((stripPair? ['\''] ['\''] before after).isSome).toNat ∧
      ∃ v, after = v ++ (stripQuotes before after).2 ∧
        v.count '\'' = ((stripPair? ['\''] ['\''] before after).isSome).toNat := by
  unfold stripQuotes quoteSpellings
  rw [List.findSome?_cons]
  cases h : stripPair? ['\''] ['\''] before after with
  | some r =>
    have hcount := count_stripPair? h
    simpa [h] using hcount
  | none =>
    have hrest : ∀ q ∈ ["\"".toList, "&apos;".toList, "&quot;".toList], q.count '\'' = 0 := by decide
    have hpair : stripPair? "'".toList "'".toList before after = none := h
    simp only [hpair, Option.isSome_none, Bool.toNat_false, Nat.add_zero]
    cases hq : ["\"".toList, "&apos;".toList, "&quot;".toList].findSome? fun q =>
        stripPair? q q before after with
    | none => exact ⟨rfl, [], rfl, rfl⟩
    | some r =>
      obtain ⟨q, hmem, hstrip⟩ := List.exists_of_findSome?_eq_some hq
      have hcount := count_stripPair? hstrip
      rw [hrest q hmem] at hcount
      exact hcount

theorem count_stripParens (before after : Text) :
    before.count '\'' = (stripParens before after).1.count '\'' ∧
      ∃ v, after = v ++ (stripParens before after).2 ∧ v.count '\'' = 0 := by
  unfold stripParens
  cases h : stripPair? ['('] [')'] before after with
  | none => exact ⟨rfl, [], rfl, rfl⟩
  | some r => exact count_stripPair? h

theorem count_likeOpening (leading trailing : Bool) :
    (likeOpening leading trailing).count '\'' % 2 = 0 := by
  cases leading <;> cases trailing <;> decide

theorem count_likeClosing (leading trailing : Bool) :
    (likeClosing leading trailing).count '\'' % 2 = 0 := by
  cases leading <;> cases trailing <;> decide

theorem count_bound {name : Text} (h : '\'' ∉ name) : (bound name).count '\'' = 0 := by
  simp [bound, List.count_eq_zero.2 h]

theorem count_interpolationOf {name : Text} (h : '\'' ∉ name) :
    (interpolationOf name).count '\'' = 0 := by
  simp [interpolationOf, List.count_eq_zero.2 h]

theorem count_blockOpening {name : Text} (h : '\'' ∉ name) : (blockOpening name).count '\'' = 0 := by
  have hcollection := not_mem_collectionName h
  have hitem := not_mem_elementName hcollection (by decide)
  refine List.count_eq_zero.2 fun hmem => ?_
  rcases List.mem_append.1 hmem with hmem | hmem
  · rcases List.mem_append.1 hmem with hmem | hmem
    · rcases List.mem_append.1 hmem with hmem | hmem
      · rcases List.mem_append.1 hmem with hmem | hmem
        · exact absurd hmem (by decide)
        · exact hcollection hmem
      · exact absurd hmem (by decide)
    · exact hitem hmem
  · exact absurd hmem (by decide)

/-- What a plan for `name` between `before` and `after` does to the apostrophes: each side loses one
where the plan takes them away, and what the plan puts in has an even number on both sides of its
parameter. -/
structure CountsApostrophes (before name after : Text) (p : Plan) : Prop where
  head_eq : p.head = p.kind.front before name after ++
    (bound (p.kind.parameter name) ++ p.kind.back before after)
  front : ((p.kind.front before name after).count '\'' +
    (p.kind.takesApostrophes before after).toNat) % 2 = before.count '\'' % 2
  parameter : '\'' ∉ p.kind.parameter name
  back : (p.kind.back before after).count '\'' % 2 = 0
  opened : ∃ v, after = v ++ p.rest ∧ v.count '\'' = (p.kind.takesApostrophes before after).toNat

theorem countsApostrophes_directPlan (before after : Text) {name : Text} (h : '\'' ∉ name) :
    CountsApostrophes before name after (directPlan before name after) where
  head_eq := by simp [directPlan, PlanKind.front, PlanKind.parameter, PlanKind.back]
  front := congrArg (· % 2) (count_stripQuotes before after).1.symm
  parameter := h
  back := rfl
  opened := (count_stripQuotes before after).2

theorem countsApostrophes_foreachPlan (before after : Text) {name : Text} (h : '\'' ∉ name) :
    CountsApostrophes before name after (foreachPlan before name after) where
  head_eq := by
    show _ ++ '\n' :: foreachBlock name ++ ['\n'] = _ ++ '\n' :: blockOpening name ++ _
    rw [foreachBlock_eq_opening]
    simp only [PlanKind.parameter, PlanKind.back, List.append_assoc, List.cons_append]
    rfl
  front := by
    have hquotes := (count_stripQuotes before after).1
    have hparens := (count_stripParens (stripQuotes before after).1 (stripQuotes before after).2).1
    have hfront : (PlanKind.foreach.front before name after).count '\'' =
        (stripParens (stripQuotes before after).1 (stripQuotes before after).2).1.count '\'' := by
      rw [PlanKind.front, List.count_append, List.count_cons_of_ne (by decide),
        count_blockOpening h, Nat.add_zero]
    show ((PlanKind.foreach.front before name after).count '\'' + _) % 2 = _
    rw [hfront, ← hparens, hquotes]
    rfl
  parameter := not_mem_elementName (not_mem_collectionName h) (by decide)
  back := show (blockClosing ++ ['\n']).count '\'' % 2 = 0 by decide
  opened := by
    obtain ⟨v, hv, hcount⟩ := (count_stripQuotes before after).2
    obtain ⟨u, hu, hzero⟩ :=
      (count_stripParens (stripQuotes before after).1 (stripQuotes before after).2).2
    refine ⟨v ++ u, ?_, ?_⟩
    · rw [List.append_assoc]
      exact hv.trans (congrArg (v ++ ·) hu)
    · rw [List.count_append, hzero, hcount]
      rfl

theorem countsApostrophes_likePlan? {before name after : Text} {p : Plan} (h : '\'' ∉ name)
    (hp : likePlan? before name after = some p) : CountsApostrophes before name after p := by
  unfold likePlan? at hp
  simp only at hp
  split at hp
  · rename_i q c rest hlast htail
    split at hp
    · rename_i hquote
      simp only [Bool.and_eq_true, beq_iff_eq] at hquote
      obtain ⟨-, rfl⟩ := hquote
      simp only [Option.some.injEq] at hp
      subst hp
      obtain ⟨body, hbody⟩ := List.getLast?_eq_some_iff.1 hlast
      have hpercent : ∀ b : Bool, (if b then ['%'] else []).count '\'' = 0 := by decide
      have htakes : (PlanKind.like.takesApostrophes before after).toNat = [c].count '\'' := by
        by_cases hc : c = '\''
        · simp [PlanKind.takesApostrophes, hlast, hc]
        · simp [PlanKind.takesApostrophes, hlast, hc]
      refine ⟨?_, ?_, h, count_likeClosing _ _, ?_⟩
      · simp only [PlanKind.front, PlanKind.parameter, PlanKind.back, likeExpression_eq,
          List.append_assoc]
      · have hbefore := congrArg (List.count '\'') (splitLastPercent_eq before)
        obtain ⟨w, hw, hblank⟩ := Text.trimEnd_append body
        have hcount := congrArg (List.count '\'') hw
        have hopening := count_likeOpening (splitLastPercent before).2 (splitFirstPercent after).2
        rw [htakes]
        simp only [hbody, List.count_append, hpercent, count_apostrophe_of_blank hblank,
          PlanKind.front, List.dropLast_concat] at hbefore hcount ⊢
        omega
      · refine ⟨(if (splitFirstPercent after).2 then ['%'] else []) ++
          (c :: rest.takeWhile fun c => c == ' ' || c == '\t'), ?_, ?_⟩
        · have hafter := splitFirstPercent_eq after
          rw [htail] at hafter
          rw [List.append_assoc, List.cons_append, List.takeWhile_append_dropWhile]
          exact hafter
        · have hspaces : (rest.takeWhile fun c => c == ' ' || c == '\t').count '\'' = 0 :=
            List.count_eq_zero.2 fun hmem => absurd (List.mem_takeWhile_imp hmem) (by decide)
          rw [htakes, List.count_append, hpercent, Nat.zero_add, ← List.singleton_append,
            List.count_append, hspaces, Nat.add_zero]
    · simp at hp
  · simp at hp

theorem Binder.countsApostrophes_plan? {b : Binder} {before name after : Text} {p : Plan}
    (h : '\'' ∉ name) (hp : b.plan? before name after = some p) :
    CountsApostrophes before name after p := by
  rcases plan?_cases hp with ⟨-, -, rfl⟩ | ⟨-, hlike⟩ | rfl
  · exact countsApostrophes_foreachPlan before after h
  · exact countsApostrophes_likePlan? h hlike
  · exact countsApostrophes_directPlan before after h

namespace CountsApostrophes

variable {before name after given opened : Text} {p : Plan}

theorem count_opened (h : CountsApostrophes before name after p) (hafter : after = opened ++ p.rest) :
    opened.count '\'' = (p.kind.takesApostrophes before after).toNat := by
  obtain ⟨v, hv, hcount⟩ := h.opened
  obtain rfl : v = opened := List.append_cancel_right (hv.symm.trans hafter)
  exact hcount

/-- Taking apostrophes away brings the parameter to the other side of them. -/
theorem outside_front (h : CountsApostrophes before name after p)
    (hparity : before.count '\'' % 2 = given.count '\'' % 2) :
    Outside (p.kind.front before name after) ↔
      (Outside given ↔ p.kind.takesApostrophes before after = false) := by
  have hfront := h.front
  rw [outside_iff, outside_iff]
  cases htakes : p.kind.takesApostrophes before after with
  | false => rw [htakes] at hfront; simp at hfront ⊢; omega
  | true => rw [htakes] at hfront; simp at hfront ⊢; omega

/-- What a plan takes away on one side it takes away on the other. -/
theorem parity_head (h : CountsApostrophes before name after p) (hname : '\'' ∉ name)
    (hparity : before.count '\'' % 2 = given.count '\'' % 2) (hafter : after = opened ++ p.rest) :
    p.head.count '\'' % 2 = (given ++ interpolationOf name ++ opened).count '\'' % 2 := by
  have hfront := h.front
  have hback := h.back
  rw [h.head_eq]
  simp only [List.count_append, count_bound h.parameter, count_interpolationOf hname,
    h.count_opened hafter]
  omega

end CountsApostrophes

/-! ## The parameters of a run -/

/-- A parameter that the binder puts into a template. -/
structure Placement where
  /-- The text before the interpolation in the template that was given. -/
  given : Text
  /-- The text before the interpolation when its turn comes. -/
  before : Text
  name : Text
  after : Text
  kind : PlanKind
  deriving DecidableEq, Repr

namespace Placement

/-- The name that is bound. -/
def parameter (x : Placement) : Text := x.kind.parameter x.name

/-- The text before the parameter in the template after binding. -/
def front (x : Placement) : Text := x.kind.front x.before x.name x.after

/-- Whether the apostrophes around the interpolation are taken away. -/
def takesApostrophes (x : Placement) : Bool := x.kind.takesApostrophes x.before x.after

end Placement

namespace Binder

variable {b : Binder}

/-- The parameters that the binder puts into `rest`, where `seen` has come from `given` and stands
before it. -/
def placementsFrom (b : Binder) (given seen rest : Text) : List Placement :=
  match _h : Interpolation.first? rest with
  | none => []
  | some i =>
    let reached := given ++ i.before ++ interpolationOf i.name
    match _hp : b.plan? (seen ++ i.before) i.name i.after with
    | none => placementsFrom b reached (seen ++ i.before ++ interpolationOf i.name) i.after
    | some p =>
      ⟨given ++ i.before, seen ++ i.before, i.name, i.after, p.kind⟩ ::
        placementsFrom b (reached ++ i.after.take (i.after.length - p.rest.length)) p.head p.rest
termination_by rest.length
decreasing_by
  · exact Interpolation.length_after_lt _h
  · exact Nat.lt_of_le_of_lt (length_plan_rest _hp) (Interpolation.length_after_lt _h)

/-- The parameters that the binder puts into a template, from left to right. -/
def placements (b : Binder) (t : Text) : List Placement := b.placementsFrom [] [] t

/-- What was read before is not touched again. -/
theorem prefix_bindFrom {seen : Text} (hs : Sealed seen) (rest : Text) :
    seen <+: b.bindFrom seen rest := by
  obtain ⟨s, r, heq, hkept⟩ := b.bindFrom_invariant (fun s _ => seen <+: s)
    (fun _ h => h.trans (by simp [List.append_assoc]))
    (fun _ hr h => h.trans (hr.head_eq ▸ by simp [List.append_assoc])) seen rest hs
    (List.prefix_refl seen)
  exact heq ▸ hkept.trans (s.prefix_append r)

/-- What a placement stands for: an interpolation of `template` and a parameter of `new`, and how
the apostrophes before the two compare. -/
structure Places (template new : Text) (x : Placement) : Prop where
  interpolation : x.given ++ interpolationOf x.name <+: template
  parameter : x.front ++ bound x.parameter <+: new
  outside_iff : Outside x.front ↔ (Outside x.given ↔ x.takesApostrophes = false)

theorem places_placementsFrom {given seen rest : Text} (hs : Sealed seen)
    (hnames : ∀ name ∈ interpolationNames rest, '\'' ∉ name)
    (hparity : seen.count '\'' % 2 = given.count '\'' % 2) {x : Placement}
    (hx : x ∈ b.placementsFrom given seen rest) :
    Places (given ++ rest) (b.bindFrom seen rest) x := by
  fun_induction placementsFrom b given seen rest with
  | case1 => simp at hx
  | case2 given seen rest i hi reached hp ih =>
    have hseal : Sealed (seen ++ i.before ++ interpolationOf i.name) := by
      have := sealed_append (seen ++ i.before ++ '$' :: '{' :: i.name) (c := '}') (by decide)
      simpa [interpolationOf] using this
    have hrest : given ++ rest = reached ++ i.after := by
      rw [← Interpolation.first?_eq hi]
      simp [reached]
    rw [interpolationNames_of_first? hi] at hnames
    rw [bindFrom_of_skip hi hp, hrest]
    refine ih hseal (fun n hn => hnames n (List.mem_cons_of_mem _ hn)) ?_ hx
    simp only [reached, List.count_append]
    omega
  | case3 given seen rest i hi reached p hp ih =>
    rw [interpolationNames_of_first? hi] at hnames
    have hname := hnames i.name List.mem_cons_self
    have hcounts := countsApostrophes_plan? hname hp
    have hbefore : (seen ++ i.before).count '\'' % 2 = (given ++ i.before).count '\'' % 2 := by
      simp only [List.count_append]
      omega
    obtain ⟨kept, cut, opened, new, hr⟩ := plan?_inv hs hp
    have hseal : Sealed p.head := hr.head_eq ▸ hr.inserts.isSealed (seen ++ kept)
    have htake : i.after.take (i.after.length - p.rest.length) = opened := by
      rw [hr.after_eq, List.length_append, Nat.add_sub_cancel, List.take_left]
    have hrest : given ++ rest = reached ++ opened ++ p.rest := by
      rw [← Interpolation.first?_eq hi, hr.after_eq]
      simp [reached]
    rw [bindFrom_of_plan hi hp, hrest]
    rcases List.mem_cons.1 hx with rfl | hx
    · refine ⟨⟨opened ++ p.rest, by simp [reached]⟩, ?_, hcounts.outside_front hbefore⟩
      refine List.IsPrefix.trans ?_ (prefix_bindFrom hseal p.rest)
      exact ⟨_, (hcounts.head_eq.trans (List.append_assoc _ _ _).symm).symm⟩
    · rw [htake] at ih hx
      refine ih hseal (fun n hn => ?_) (hcounts.parity_head hname hbefore hr.after_eq) hx
      have hdollar : '$' ∉ opened := fun h => absurd (hr.opened_trimmed _ h) (by decide)
      refine hnames n (List.mem_cons_of_mem _ ?_)
      rwa [hr.after_eq, interpolationNames_append hdollar]

/-- **When a parameter is bound and not quoted.** Each parameter that the binder puts into a template
replaces an interpolation of it and stands in the template after binding. It stands outside every
string literal exactly when the interpolation stood outside and no apostrophes are taken away around
it, or the interpolation stood inside and they are. -/
theorem outside_front_iff {t : Text} (hnames : ∀ name ∈ interpolationNames t, '\'' ∉ name)
    {x : Placement} (hx : x ∈ b.placements t) :
    x.given ++ interpolationOf x.name <+: t ∧ x.front ++ bound x.parameter <+: (b.fix t).text ∧
      (Outside x.front ↔ (Outside x.given ↔ x.takesApostrophes = false)) :=
  let h := places_placementsFrom sealed_nil hnames rfl hx
  ⟨h.interpolation, h.parameter, h.outside_iff⟩

/-- The binder for statements outside markup, with the names that are left alone by default. -/
def plain : Binder := ⟨.builtin, false, false⟩

/-- A quoted value and a quoted pattern. -/
def quotedValues : Text := "where id = '$\x7bid\x7d' and name like '%$\x7bname\x7d'".toList

theorem outside_front_quotedValues :
    ∃ x ∈ plain.placements quotedValues, ∃ y ∈ plain.placements quotedValues,
      x.kind = .direct ∧ y.kind = .like ∧ Outside x.front ∧ Outside y.front := by
  have hnames : ∀ name ∈ interpolationNames quotedValues, '\'' ∉ name := by decide +kernel
  have heval : ∃ x ∈ plain.placements quotedValues, ∃ y ∈ plain.placements quotedValues,
      x.kind = .direct ∧ y.kind = .like ∧ (¬ Outside x.given ∧ x.takesApostrophes = true) ∧
        ¬ Outside y.given ∧ y.takesApostrophes = true := by decide +kernel
  obtain ⟨x, hx, y, hy, hxkind, hykind, ⟨hxgiven, hxtakes⟩, hygiven, hytakes⟩ := heval
  refine ⟨x, hx, y, hy, hxkind, hykind, ?_, ?_⟩
  · exact (outside_front_iff hnames hx).2.2.2 (by simp [hxgiven, hxtakes])
  · exact (outside_front_iff hnames hy).2.2.2 (by simp [hygiven, hytakes])

/-- A value between two literals. -/
def betweenLiterals : Text := "where name = 'a' $\x7bop\x7d 'b'".toList

/-- The apostrophes that end the literal before an interpolation and start the one behind it are
taken for quotes around it: the parameter ends up inside a literal, and nothing is left to bind. -/
theorem inside_front_betweenLiterals :
    Outside betweenLiterals ∧ '"' ∉ betweenLiterals ∧ (plain.fix betweenLiterals).complete = true ∧
      (plain.fix betweenLiterals).text = "where name = 'a#\x7bop\x7db'".toList ∧
      ∃ x ∈ plain.placements betweenLiterals,
        x.front ++ bound x.parameter <+: (plain.fix betweenLiterals).text ∧ ¬ Outside x.front := by
  decide +kernel

end Binder

end SqlInjection
