import SqlInjection.Proofs.Template.Delimiters

/-!
# Patterns keep their meaning

In place of a quoted pattern such as `'%${name}%'` the binder puts an expression over the bound
parameter. The two sides are read by rules of their own:

* `spliced`: a text in which every interpolation gives way to the value of its name, which is what
  happens to the quoted pattern;
* `denoted?`: the text that an expression stands for. The expression is a literal, a parameter or a
  call of `CONCAT`, and it is read back from its characters.

`textOperands?_textExpression` says that operands are read back from the expression for them, and
`Binder.plan?_like_denotes` that the plan for a pattern puts in an expression that stands for the
pattern with its interpolation replaced by the value.
-/

namespace SqlInjection

/-! ## Names -/

/-- A name that is read to its end wherever a brace closes it. -/
def IsName (name : Text) : Prop :=
  ∀ rest, readName (name ++ '}' :: rest) = some (name, rest)

theorem readNameTail_of_readNameTail {t name after : Text} (h : readNameTail t = some (name, after))
    (rest : Text) : readNameTail (name ++ '}' :: rest) = some (name, rest) := by
  induction t generalizing name with
  | nil => simp [readNameTail] at h
  | cons c t ih =>
    rw [readNameTail] at h
    split at h
    · obtain ⟨rfl, -⟩ := Prod.mk.inj (Option.some.inj h)
      simp [readNameTail]
    · rename_i hbrace
      split at h
      · simp at h
      · rename_i hink
        obtain ⟨⟨u, after'⟩, hu, heq⟩ := Option.map_eq_some_iff.1 h
        obtain ⟨rfl, rfl⟩ := Prod.mk.inj heq
        rw [List.cons_append, readNameTail, if_neg hbrace, if_neg hink, ih hu]
        rfl

/-- Every interpolation that is read has such a name. -/
theorem isName_of_readInterpolation {t name after : Text}
    (h : readInterpolation t = some (name, after)) : IsName name := by
  intro rest
  unfold readInterpolation at h
  split at h
  · rename_i u
    cases u with
    | nil => simp [readName] at h
    | cons c u =>
      rw [readName] at h
      split at h
      · simp at h
      · rename_i hink
        obtain ⟨⟨v, after'⟩, hv, heq⟩ := Option.map_eq_some_iff.1 h
        obtain ⟨rfl, rfl⟩ := Prod.mk.inj heq
        rw [List.cons_append, readName, if_neg hink, readNameTail_of_readNameTail hv]
        rfl
  · simp at h

/-! ## Values in place of interpolations -/

/-- The text in which every interpolation gives way to the value of its name. -/
def spliced (values : Text → Text) (t : Text) : Text :=
  match _h : Interpolation.first? t with
  | none => t
  | some i => i.before ++ values i.name ++ spliced values i.after
termination_by t.length
decreasing_by exact Interpolation.length_after_lt _h

theorem spliced_of_plain (values : Text → Text) {t : Text} (ht : Plain t) :
    spliced values t = t := by
  have hfirst := Interpolation.first?_eq_none_of_plain ht
  rw [spliced]
  split
  · rfl
  · rename_i i hi
    simp [hfirst] at hi

theorem spliced_append (values : Text → Text) {l name : Text} (hl : Plain l)
    (hname : IsName name) (rest : Text) :
    spliced values (l ++ (interpolationOf name ++ rest)) =
      l ++ values name ++ spliced values rest := by
  have hread : Interpolation.first? (interpolationOf name ++ rest) = some ⟨[], name, rest⟩ := by
    have := hname rest
    simp [interpolationOf, Interpolation.first?, readInterpolation, this]
  have hfirst : Interpolation.first? (l ++ (interpolationOf name ++ rest)) =
      some ⟨l, name, rest⟩ := by
    rw [Interpolation.first?_plain_append hl (Or.inr (by simp [interpolationOf])), hread]
    simp
  rw [spliced]
  split
  · rename_i hnone
    simp [hfirst] at hnone
  · rename_i i hi
    rw [hfirst, Option.some.injEq] at hi
    rw [← hi]

/-! ## Expressions over texts -/

/-- An operand of an expression. -/
inductive TextOperand where
  | literal (content : Text)
  | parameter (name : Text)
  deriving DecidableEq, Repr

namespace TextOperand

/-- The operand as it is written. -/
def render : TextOperand → Text
  | literal content => '\'' :: content ++ ['\'']
  | parameter name => bound name

/-- The text that the operand stands for. -/
def value (values : Text → Text) : TextOperand → Text
  | literal content => content
  | parameter name => values name

/-- The operand at the front of a text, and the text after it. -/
def read? : Text → Option (TextOperand × Text)
  | '\'' :: t => (Text.cut? '\'' t).map fun (content, rest) => (literal content, rest)
  | '#' :: '{' :: t => (readName t).map fun (name, rest) => (parameter name, rest)
  | _ => none

/-- An operand that can be written: no quote in a literal, and a name that ends at its brace. -/
def Writable : TextOperand → Prop
  | literal content => '\'' ∉ content
  | parameter name => IsName name

theorem read?_render {o : TextOperand} (ho : o.Writable) (rest : Text) :
    read? (o.render ++ rest) = some (o, rest) := by
  cases o with
  | literal content =>
    have hcut : Text.cut? '\'' (content ++ '\'' :: rest) = some (content, rest) :=
      Text.cut?_eq_some_iff.2 ⟨rfl, ho⟩
    simp [render, read?, hcut]
  | parameter name =>
    have hread : readName (name ++ '}' :: rest) = some (name, rest) := ho rest
    simp [render, bound, read?, hread]

theorem length_read?_lt {t rest : Text} {o : TextOperand} (h : read? t = some (o, rest)) :
    rest.length < t.length := by
  unfold read? at h
  split at h
  · obtain ⟨⟨content, rest'⟩, hcut, heq⟩ := Option.map_eq_some_iff.1 h
    obtain ⟨-, rfl⟩ := Prod.mk.inj heq
    rw [(Text.cut?_eq_some_iff.1 hcut).1]
    simp
    omega
  · rename_i u
    obtain ⟨⟨name, rest'⟩, hname, heq⟩ := Option.map_eq_some_iff.1 h
    obtain ⟨-, rfl⟩ := Prod.mk.inj heq
    have hread : readInterpolation ('$' :: '{' :: u) = some (name, rest') := hname
    have hlength := congrArg List.length (readInterpolation_eq hread)
    simp only [interpolationOf, List.length_append, List.length_cons, List.length_nil] at hlength ⊢
    omega
  · simp at h

end TextOperand

/-- The expression for the operands put together: the operand itself where there is one, and a call
where there are more. -/
def textExpression : List TextOperand → Text
  | [o] => o.render
  | os => "CONCAT(".toList ++ Text.join ", ".toList (os.map TextOperand.render) ++ [')']

/-- The operands of a call, up to its closing parenthesis at the end of the text. -/
def readOperands? (t : Text) : Option (List TextOperand) :=
  match _h : TextOperand.read? t with
  | some (o, [')']) => some [o]
  | some (o, ',' :: ' ' :: more) => (readOperands? more).map (o :: ·)
  | _ => none
termination_by t.length
decreasing_by
  have := TextOperand.length_read?_lt _h
  simp only [List.length_cons] at this
  omega

/-- The operands of an expression: those of a call, or the one that is the whole text. -/
def textOperands? (t : Text) : Option (List TextOperand) :=
  match Text.stripPrefix? "CONCAT(".toList t with
  | some operands => readOperands? operands
  | none =>
    match TextOperand.read? t with
    | some (o, []) => some [o]
    | _ => none

/-- The text that an expression stands for, when the parameters have the given values. -/
def denoted? (values : Text → Text) (t : Text) : Option Text :=
  (textOperands? t).map (List.flatMap (TextOperand.value values))

theorem readOperands?_last {t : Text} {o : TextOperand}
    (h : TextOperand.read? t = some (o, [')'])) : readOperands? t = some [o] := by
  rw [readOperands?]
  split <;> simp_all

theorem readOperands?_more {t more : Text} {o : TextOperand}
    (h : TextOperand.read? t = some (o, ", ".toList ++ more)) :
    readOperands? t = (readOperands? more).map (o :: ·) := by
  rw [readOperands?]
  split <;> simp_all

/-- The operands of a call are read back. -/
theorem readOperands?_join {os : List TextOperand} (hne : os ≠ []) (hos : ∀ o ∈ os, o.Writable) :
    readOperands? (Text.join ", ".toList (os.map TextOperand.render) ++ [')']) = some os := by
  induction os with
  | nil => exact absurd rfl hne
  | cons o os ih =>
    have ho := TextOperand.read?_render (hos o List.mem_cons_self)
    cases os with
    | nil => exact readOperands?_last (ho [')'])
    | cons o' os =>
      have hmore := ih (List.cons_ne_nil o' os) fun x hx => hos x (List.mem_cons_of_mem o hx)
      have hjoin : Text.join ", ".toList ((o :: o' :: os).map TextOperand.render) ++ [')'] =
          o.render ++ (", ".toList ++ (Text.join ", ".toList
            ((o' :: os).map TextOperand.render) ++ [')'])) := by
        simp [Text.join]
      rw [hjoin, readOperands?_more (ho _), hmore]
      rfl

/-- **The operands of an expression are read back from it.** -/
theorem textOperands?_textExpression {os : List TextOperand} (hne : os ≠ [])
    (hos : ∀ o ∈ os, o.Writable) : textOperands? (textExpression os) = some os := by
  match os, hne with
  | [o], _ =>
    have hcall : Text.stripPrefix? "CONCAT(".toList o.render = none := by
      cases o <;> rfl
    have hread := TextOperand.read?_render (hos o List.mem_cons_self) []
    rw [List.append_nil] at hread
    rw [textExpression, textOperands?, hcall]
    simp only [hread]
  | o :: o' :: os, hne =>
    have hcall := Text.stripPrefix?_eq_some_iff.2 (List.append_assoc "CONCAT(".toList
      (Text.join ", ".toList ((o :: o' :: os).map TextOperand.render)) [')']).symm
    rw [textExpression, textOperands?, hcall]
    · exact readOperands?_join hne hos
    · simp

theorem denoted?_textExpression (values : Text → Text) {os : List TextOperand} (hne : os ≠ [])
    (hos : ∀ o ∈ os, o.Writable) :
    denoted? values (textExpression os) = some (os.flatMap (TextOperand.value values)) := by
  rw [denoted?, textOperands?_textExpression hne hos]
  rfl

/-! ## The expression for a pattern -/

/-- The operands of a pattern: the parameter, and a wildcard on the sides that have one. -/
def patternOperands (leading trailing : Bool) (name : Text) : List TextOperand :=
  (if leading then [.literal ['%']] else []) ++ .parameter name ::
    if trailing then [.literal ['%']] else []

theorem likeExpression_eq_textExpression (leading trailing : Bool) (name : Text) :
    likeExpression leading trailing name =
      ' ' :: textExpression (patternOperands leading trailing name) ++ [' '] := by
  cases leading <;> cases trailing <;>
    simp [likeExpression, patternOperands, textExpression, TextOperand.render, Text.join]

theorem denoted?_patternOperands (values : Text → Text) (leading trailing : Bool) {name : Text}
    (hname : IsName name) :
    denoted? values (textExpression (patternOperands leading trailing name)) =
      some (percent leading ++ values name ++ percent trailing) := by
  have hwildcard : (TextOperand.literal ['%']).Writable := (by decide : '\'' ∉ ['%'])
  have hparameter : (TextOperand.parameter name).Writable := hname
  have hwritable : ∀ o ∈ patternOperands leading trailing name, o.Writable := by
    cases leading <;> cases trailing <;> simp [patternOperands, hwildcard, hparameter]
  rw [denoted?_textExpression values (by simp [patternOperands]) hwritable]
  cases leading <;> cases trailing <;> simp [patternOperands, percent, TextOperand.value]

theorem spliced_pattern (values : Text → Text) (leading trailing : Bool) {name : Text}
    (hname : IsName name) :
    spliced values (percent leading ++ interpolationOf name ++ percent trailing) =
      percent leading ++ values name ++ percent trailing := by
  have hplain : ∀ present, Plain (percent present) := fun present =>
    plain_of_not_mem (by cases present <;> decide)
  rw [List.append_assoc, spliced_append values (hplain leading) hname,
    spliced_of_plain values (hplain trailing)]

/-! ## Plans for patterns -/

/-- A blank stands before the quote that opens a pattern. -/
theorem startsBlank_of_leadsToLikePattern {body : Text} {q : Char} (hq : isQuote q = true)
    (leading : Bool) (h : leadsToLikePattern (body ++ q :: percent leading) = true) :
    startsBlank body.reverse = true := by
  have hne := ne_percent_of_isQuote hq
  have hdrop : dropOptional (· == '%') (body ++ q :: percent leading).reverse =
      q :: body.reverse := by
    cases leading <;> simp [percent, dropOptional, hne]
  unfold leadsToLikePattern at h
  rw [hdrop] at h
  simp only at h
  split at h
  · simp at h
  · simp only [Bool.and_eq_true] at h
    exact h.1.1.2

/-- What is trimmed off the end of a text that ends with a blank. -/
theorem exists_trimEnd_append {t : Text} (h : startsBlank t.reverse = true) :
    ∃ w, Text.trimEnd t ++ w = t ∧ w ≠ [] ∧ ∀ c ∈ w, Text.isBlank c = true := by
  obtain ⟨w, hw, hblank⟩ := Text.trimEnd_append t
  refine ⟨w, hw, ?_, hblank⟩
  rintro rfl
  have hlength := congrArg List.length hw
  cases hrev : t.reverse with
  | nil => simp [hrev, startsBlank] at h
  | cons c r =>
    have hc : Text.isBlank c = true := by simpa [hrev, startsBlank] using h
    have hshort := length_dropWhile_le Text.isBlank r
    have ht : t.length = r.length + 1 := by rw [← List.length_reverse, hrev, List.length_cons]
    simp only [Text.trimEnd, Text.dropEndWhile, hrev, List.dropWhile_cons_of_pos hc,
      List.append_nil, List.length_reverse] at hlength
    omega

/-- **The expression for a pattern stands for the pattern.** Let a binder plan to bind an
interpolation of `name` as a pattern. The text holds the interpolation between quotes of one kind,
with at most a percent sign on either side of it and blanks before the opening quote. The plan puts
an expression between spaces in place of all of it: the parameter, or a call of `CONCAT` that adds a
wildcard on the sides that had one. For all values of the parameters, the expression stands for the
content of the quotes with the value in place of the interpolation. -/
theorem Binder.plan?_like_denotes (b : Binder) {before rest name after : Text} {p : Plan}
    (hread : readInterpolation rest = some (name, after))
    (hp : b.plan? before name after = some p) (hkind : p.kind = .like) :
    ∃ head gap q leading trailing blanks last w,
      isQuote q = true ∧ gap ≠ [] ∧ (∀ c ∈ gap, Text.isBlank c = true) ∧
      (∀ c ∈ blanks, c = ' ' ∨ c = '\t') ∧
      before = head ++ gap ++ q :: percent leading ∧
      before ++ rest = head ++ gap ++
        q :: (percent leading ++ interpolationOf name ++ percent trailing) ++
        q :: blanks ++ last ∧
      p.text = head ++ ' ' :: w ++ ' ' :: last ∧
      w = textExpression (patternOperands leading trailing name) ∧
      ∀ values, denoted? values w = some (percent leading ++ values name ++ percent trailing) ∧
        spliced values (percent leading ++ interpolationOf name ++ percent trailing) =
          percent leading ++ values name ++ percent trailing := by
  have hname := isName_of_readInterpolation hread
  rcases plan?_cases hp with ⟨-, -, rfl⟩ | ⟨hleads, hlike⟩ | rfl
  · cases hkind
  · obtain ⟨body, q, blanks, leading, trailing, u, hq, hbefore, hafter, hu, hblanks, -, hhead⟩ :=
      likePlan?_inv hlike
    have hstarts := startsBlank_of_leadsToLikePattern hq leading (hbefore ▸ hleads)
    obtain ⟨gap, hgap, hne, hblank⟩ := exists_trimEnd_append hstarts
    have hsides : before = Text.trimEnd body ++ gap ++ q :: percent leading := by
      rw [hgap]
      exact hbefore
    refine ⟨Text.trimEnd body, gap, q, leading, trailing, blanks, p.rest, _, hq, hne, hblank,
      hblanks, hsides, ?_, ?_, rfl, fun values =>
        ⟨denoted?_patternOperands values leading trailing hname,
          spliced_pattern values leading trailing hname⟩⟩
    · rw [← readInterpolation_eq hread, hafter, hu, hsides]
      simp [percent]
    · rw [Plan.text, hhead, likeExpression_eq_textExpression]
      simp
  · cases hkind

/-- A pattern on a line of its own, in double quotes and with a wildcard before the name only. -/
theorem Binder.plan?_like_denotes_wildcardBefore :
    readInterpolation "$\x7bn\x7d\" \tand x = 1".toList =
        some ("n".toList, "\" \tand x = 1".toList) ∧
      ∃ p, dynamic.plan? "where name like\n  \"%".toList "n".toList "\" \tand x = 1".toList =
          some p ∧ p.kind = .like ∧
        ∃ head gap q leading trailing last w,
          "where name like\n  \"%".toList = head ++ gap ++ q :: percent leading ∧
          p.text = head ++ ' ' :: w ++ ' ' :: last ∧
          denoted? (fun _ => "a%b".toList) w =
            some (percent leading ++ "a%b".toList ++ percent trailing) := by
  have hread : readInterpolation "$\x7bn\x7d\" \tand x = 1".toList =
      some ("n".toList, "\" \tand x = 1".toList) := by decide
  have hplan : (dynamic.plan? "where name like\n  \"%".toList "n".toList
      "\" \tand x = 1".toList).map Plan.kind = some .like := by decide +kernel
  obtain ⟨p, hp, hkind⟩ := Option.map_eq_some_iff.1 hplan
  obtain ⟨head, gap, q, leading, trailing, blanks, last, w, -, -, -, -, hbefore, -, htext, -,
    hvalue⟩ := plan?_like_denotes dynamic hread hp hkind
  exact ⟨hread, p, hp, hkind, head, gap, q, leading, trailing, last, w, hbefore, htext,
    (hvalue _).1⟩

end SqlInjection
