import SqlInjection.Mapper.Markup
import SqlInjection.Proofs.Text.Cutting

/-!
# Markup as it is written

The reader of mappers is told here by the texts that it accepts. `Attributes`, `Tag` and `Written`
say how attributes, tags and all markup are written; they do not mention what follows.

* `readTag?_eq_some_iff`: the reader takes a tag off a text exactly when the text starts with one;
* `Written.readMarkup?`: what is written as markup is read as that markup, whatever follows;
* `written_of_readMarkup?`: what is read was written so, but for a declaration that starts like a
  comment or a section that never ends.
-/

namespace SqlInjection

/-! ## Texts up to a mark -/

namespace Mapper

/-- A mark whose last character does not occur before in it cannot start a text and end inside
itself: where it also stands behind `l`, it is in `l`, or `l` is empty. -/
theorem eq_nil_of_mark {w u : Text} {e : Char} (hw : w = u ++ [e]) (hu : e ∉ u) {l r rest : Text}
    (heq : w ++ rest = l ++ (w ++ r)) (hl : ¬ w <:+: l) : l = [] := by
  rcases List.append_eq_append_iff.1 heq with ⟨v, rfl, -⟩ | ⟨v, hv, hr⟩
  · exact absurd ⟨[], v, rfl⟩ hl
  · by_contra hne
    have hpos := List.length_pos_iff.2 hne
    rcases List.eq_nil_or_concat v with rfl | ⟨v, x, rfl⟩
    · rw [List.append_nil] at hv
      exact hl (hv ▸ List.infix_refl _)
    · -- the rest of the front mark ends with its last character and stands at the front of a mark
      rw [hw, List.concat_eq_append, ← List.append_assoc] at hv
      obtain ⟨hu', hx⟩ := List.append_inj' hv rfl
      obtain rfl : e = x := by simpa using hx
      have hlen : (v.concat e).length ≤ u.length := by
        rw [hu', List.length_append, List.length_concat]
        omega
      have hstart : v.concat e <+: u :=
        List.prefix_of_prefix_length_le ⟨rest, hr.symm⟩ ⟨e :: r, by simp [hw]⟩ hlen
      exact hu (hstart.subset (by simp))

/-- A mark whose last character does not occur before is found at its first occurrence. -/
theorem cutAt?_eq_some_iff {w u : Text} {e : Char} (hw : w = u ++ [e]) (hu : e ∉ u) {t l r : Text} :
    cutAt? w t = some (l, r) ↔ t = l ++ (w ++ r) ∧ ¬ w <:+: l := by
  have hne : w ≠ [] := by simp [hw]
  induction t generalizing l r with
  | nil => simp [cutAt?, hne]
  | cons c t ih =>
    rw [cutAt?]
    cases hstrip : Text.stripPrefix? w (c :: t) with
    | some rest =>
      have hrest : w ++ rest = c :: t := Text.stripPrefix?_eq_some_iff.1 hstrip
      simp only [Option.some.injEq, Prod.mk.injEq]
      constructor
      · rintro ⟨rfl, rfl⟩
        exact ⟨hrest.symm, fun h => hne (List.infix_nil.1 h)⟩
      · rintro ⟨heq, hl⟩
        rw [← hrest] at heq
        obtain rfl := eq_nil_of_mark hw hu heq hl
        exact ⟨rfl, List.append_cancel_left heq⟩
    | none =>
      simp only [Option.map_eq_some_iff, Prod.exists, ih, Prod.mk.injEq]
      constructor
      · rintro ⟨l, r, ⟨rfl, hl⟩, rfl, rfl⟩
        refine ⟨rfl, fun h => ?_⟩
        rcases List.infix_cons_iff.1 h with ⟨v, hv⟩ | h
        · have : Text.stripPrefix? w (c :: (l ++ (w ++ r))) = some (v ++ (w ++ r)) :=
            Text.stripPrefix?_eq_some_iff.2 (by rw [← List.append_assoc, hv, List.cons_append])
          rw [hstrip] at this
          cases this
        · exact hl h
      · cases l with
        | nil =>
          rintro ⟨h, -⟩
          have hfront : Text.stripPrefix? w (c :: t) = some r :=
            Text.stripPrefix?_eq_some_iff.2 h.symm
          rw [hstrip] at hfront
          cases hfront
        | cons d l =>
          rintro ⟨h, hl⟩
          obtain ⟨rfl, rfl⟩ := List.cons.inj h
          exact ⟨l, r, ⟨rfl, fun h => hl (h.trans ⟨[c], [], by simp⟩)⟩, rfl, rfl⟩

theorem between?_eq_some_iff {opening closing : String} {u : Text} {e : Char}
    (hclosing : closing.toList = u ++ [e]) (hu : e ∉ u) {t x r : Text} :
    between? opening closing t = some (x, r) ↔
      t = opening.toList ++ (x ++ (closing.toList ++ r)) ∧ ¬ closing.toList <:+: x := by
  simp only [between?, Option.bind_eq_bind, Option.bind_eq_some_iff, Text.stripPrefix?_eq_some_iff,
    cutAt?_eq_some_iff hclosing hu]
  constructor
  · rintro ⟨_, rfl, rfl, hx⟩
    exact ⟨rfl, hx⟩
  · rintro ⟨rfl, hx⟩
    exact ⟨_, rfl, rfl, hx⟩

/-! ## Classes of characters -/

/-- Blanks only. -/
abbrev Blanks (w : Text) : Prop := ∀ c ∈ w, Text.isBlank c = true

/-- No blank goes on with a name. -/
theorem isNamePart_of_isBlank {c : Char} (h : Text.isBlank c = true) : isNamePart c = false :=
  Text.eq_false_of_isBlank (by decide +kernel) h

theorem isAttributeChar_of_isBlank {c : Char} (h : Text.isBlank c = true) :
    isAttributeChar c = false := by
  simp [isAttributeChar, h]

theorem isBlank_of_isAttributeChar {c : Char} (h : isAttributeChar c = true) :
    Text.isBlank c = false := by
  simp only [isAttributeChar, Bool.and_eq_true, Bool.not_eq_true'] at h
  exact h.1.1.1

theorem ne_of_isAttributeChar {c d : Char} (h : isAttributeChar c = true)
    (hd : isAttributeChar d = false) : c ≠ d := by
  rintro rfl
  rw [h] at hd
  cases hd

/-! ## Attributes -/

/-- A value as it is written behind the name of an attribute. -/
inductive Value (value : Text) : Text → Prop
  | mk {w₁ w₂ : Text} {q : Char} (h₁ : Blanks w₁) (h₂ : Blanks w₂) (hq : q = '"' ∨ q = '\'')
      (hvalue : q ∉ value) : Value value (w₁ ++ '=' :: (w₂ ++ q :: (value ++ [q])))

/-- Attributes as they are written, with the blanks before each and behind the last. -/
inductive Attributes : List Attribute → Text → Prop
  | nil {w : Text} (hw : Blanks w) : Attributes [] w
  | bare {w name rest : Text} {as : List Attribute} (hw : Blanks w) (hne : w ≠ [])
      (hname : name ≠ []) (hchars : ∀ c ∈ name, isAttributeChar c = true)
      (h : Attributes as rest) : Attributes (⟨name, none⟩ :: as) (w ++ (name ++ rest))
  | valued {w name value v rest : Text} {as : List Attribute} (hw : Blanks w) (hne : w ≠ [])
      (hname : name ≠ []) (hchars : ∀ c ∈ name, isAttributeChar c = true) (hv : Value value v)
      (h : Attributes as rest) :
      Attributes (⟨name, some value⟩ :: as) (w ++ (name ++ (v ++ rest)))

theorem readQuoted?_eq_some_iff {t value r : Text} :
    readQuoted? t = some (value, r) ↔
      ∃ q, (q = '"' ∨ q = '\'') ∧ t = q :: (value ++ q :: r) ∧ q ∉ value := by
  unfold readQuoted?
  split
  · simp [Text.cut?_eq_some_iff]
  · simp [Text.cut?_eq_some_iff]
  · rename_i h₁ h₂
    simp only [reduceCtorEq, false_iff]
    rintro ⟨q, rfl | rfl, rfl, -⟩
    · exact h₁ _ rfl
    · exact h₂ _ rfl

theorem readValue?_eq_some_iff {t value r : Text} :
    readValue? t = some (value, r) ↔ ∃ v, Value value v ∧ t = v ++ r := by
  constructor
  · intro h
    unfold readValue? at h
    split at h
    · rename_i u hu
      obtain ⟨q, hq, hquoted, hvalue⟩ := readQuoted?_eq_some_iff.1 h
      obtain ⟨w₁, ht, hw₁⟩ := Text.trimStart_append t
      obtain ⟨w₂, hu', hw₂⟩ := Text.trimStart_append u
      refine ⟨_, Value.mk hw₁ hw₂ hq hvalue, ?_⟩
      rw [← ht, hu, ← hu', hquoted]
      simp
    · cases h
  · rintro ⟨_, @⟨w₁, w₂, q, h₁, h₂, hq, hvalue⟩, rfl⟩
    have hq' : Text.isBlank q = false := by rcases hq with rfl | rfl <;> decide
    have hfirst : Text.trimStart (w₁ ++ '=' :: (w₂ ++ q :: (value ++ [q])) ++ r) =
        '=' :: (w₂ ++ q :: (value ++ q :: r)) := by
      have := Text.trimStart_blank_append (t := '=' :: (w₂ ++ q :: (value ++ q :: r))) h₁
        (by simp; decide)
      simpa using this
    rw [readValue?, hfirst]
    simp only
    rw [Text.trimStart_blank_append h₂ (by simpa using hq')]
    exact readQuoted?_eq_some_iff.2 ⟨q, hq, rfl, hvalue⟩

/-- Text behind a name that shows no value. -/
theorem readValue?_eq_none {t : Text} (h : ∀ c ∈ (Text.trimStart t).head?, c ≠ '=') :
    readValue? t = none := by
  unfold readValue?
  split
  · rename_i u hu
    rw [hu] at h
    exact absurd rfl (h '=' rfl)
  · rfl

/-- What is read as an attribute: blanks, a name, and a value if there is one. -/
theorem readAttribute?_inv {t r : Text} {a : Attribute} (h : readAttribute? t = some (a, r)) :
    ∃ w v, Blanks w ∧ w ≠ [] ∧ a.name ≠ [] ∧ (∀ c ∈ a.name, isAttributeChar c = true) ∧
      t = w ++ (a.name ++ (v ++ r)) ∧
      ((∃ value, a.value = some value ∧ Value value v) ∨ a.value = none ∧ v = []) := by
  obtain ⟨w, ht, hw⟩ := Text.trimStart_append t
  have hinside : (Text.trimStart t).takeWhile isAttributeChar ++
      (Text.trimStart t).dropWhile isAttributeChar = Text.trimStart t :=
    List.takeWhile_append_dropWhile
  have hchars : ∀ c ∈ (Text.trimStart t).takeWhile isAttributeChar, isAttributeChar c = true :=
    fun c hc => List.mem_takeWhile_imp hc
  unfold readAttribute? at h
  simp only at h
  split at h
  · rename_i hread
    have hne : w ≠ [] := by
      rintro rfl
      rw [List.nil_append] at ht
      have hlt := hread.1
      rw [ht] at hlt
      exact Nat.lt_irrefl _ hlt
    split at h
    · rename_i value rest hvalue
      obtain ⟨rfl, rfl⟩ : a = _ ∧ r = rest := by simpa [eq_comm] using h
      obtain ⟨v, hv, hrest⟩ := readValue?_eq_some_iff.1 hvalue
      refine ⟨w, v, hw, hne, hread.2, hchars, ?_, Or.inl ⟨value, rfl, hv⟩⟩
      rw [← hrest, hinside, ht]
    · obtain ⟨rfl, rfl⟩ : a = _ ∧ r = _ := by simpa [eq_comm] using h
      refine ⟨w, [], hw, hne, hread.2, hchars, ?_, Or.inr ⟨rfl, rfl⟩⟩
      rw [List.nil_append, hinside, ht]
  · cases h

theorem attributes_of_readAttributes {fuel : Nat} {t rest : Text} {as : List Attribute}
    (h : readAttributes fuel t = (as, rest)) :
    ∃ w, Attributes as w ∧ t = w ++ Text.trimStart rest := by
  have hend : ∀ t : Text, ∃ w, Attributes [] w ∧ t = w ++ Text.trimStart t := fun t => by
    obtain ⟨w, ht, hw⟩ := Text.trimStart_append t
    exact ⟨w, Attributes.nil hw, ht.symm⟩
  induction fuel generalizing t as with
  | zero =>
    obtain ⟨rfl, rfl⟩ : as = [] ∧ rest = t := by simpa [readAttributes, eq_comm] using h
    exact hend rest
  | succ fuel ih =>
    rw [readAttributes] at h
    split at h
    · rename_i a r ha
      obtain ⟨rfl, hrest⟩ := Prod.mk.inj h
      obtain ⟨w, hw, hr⟩ := ih (Prod.ext rfl hrest)
      obtain ⟨w₀, v, hw₀, hne, hname, hchars, rfl, ⟨value, hvalue, hv⟩ | ⟨hvalue, rfl⟩⟩ :=
        readAttribute?_inv ha
      · have hattributes := Attributes.valued hw₀ hne hname hchars hv hw
        rw [← hvalue] at hattributes
        exact ⟨_, hattributes, by simpa using hr⟩
      · have hattributes := Attributes.bare hw₀ hne hname hchars hw
        rw [← hvalue] at hattributes
        exact ⟨_, hattributes, by simpa using hr⟩
    · obtain ⟨rfl, rfl⟩ : as = [] ∧ rest = t := by simpa [eq_comm] using h
      exact hend rest

/-- An attribute is read from its blanks on, and its name ends where its characters do. -/
theorem readAttribute?_append {w name t : Text} (hw : Blanks w) (hne : w ≠ []) (hname : name ≠ [])
    (hchars : ∀ c ∈ name, isAttributeChar c = true)
    (ht : ∀ c ∈ t.head?, isAttributeChar c = false) :
    readAttribute? (w ++ (name ++ t)) = match readValue? t with
      | some (value, rest) => some (⟨name, some value⟩, rest)
      | none => some (⟨name, none⟩, t) := by
  have htrim : Text.trimStart (w ++ (name ++ t)) = name ++ t := by
    refine Text.trimStart_blank_append hw ?_
    obtain ⟨x, name, rfl⟩ := List.exists_cons_of_ne_nil hname
    simpa using isBlank_of_isAttributeChar (hchars x List.mem_cons_self)
  obtain ⟨htake, hdrop⟩ := Text.span_append hchars ht
  have hlength : (name ++ t).length < (w ++ (name ++ t)).length := by
    have := List.length_pos_iff.2 hne
    simp only [List.length_append]
    omega
  unfold readAttribute?
  simp only [htrim, htake, hdrop]
  refine (if_pos ⟨hlength, hname⟩).trans ?_
  cases readValue? t <;> rfl

namespace Attributes

variable {as : List Attribute} {w s : Text}

/-- The end of a tag: what follows its attributes. -/
abbrev Ends (s : Text) : Prop := ∃ c r, s = c :: r ∧ (c = '>' ∨ c = '/')

theorem length_le (h : Attributes as w) : as.length ≤ w.length := by
  induction h with
  | nil => exact Nat.zero_le _
  | bare hw hne hname hchars h ih =>
    have := List.length_pos_iff.2 hne
    simp only [List.length_cons, List.length_append]
    omega
  | valued hw hne hname hchars hv h ih =>
    have := List.length_pos_iff.2 hne
    simp only [List.length_cons, List.length_append]
    omega

/-- What attributes start with, up to the end of the tag. -/
theorem head_append (h : Attributes as w) (hs : Ends s) :
    ∀ c ∈ (w ++ s).head?, Text.isBlank c = true ∨ c = '>' ∨ c = '/' := by
  obtain ⟨d, r, rfl, hd⟩ := hs
  have hfront : ∀ w₀ t : Text, Blanks w₀ → w₀ ≠ [] →
      ∀ c ∈ (w₀ ++ t).head?, Text.isBlank c = true := by
    intro w₀ t hw₀ hne c hc
    obtain ⟨x, w₀, rfl⟩ := List.exists_cons_of_ne_nil hne
    obtain rfl : x = c := by simpa using hc
    exact hw₀ x List.mem_cons_self
  cases h with
  | nil hw =>
    intro c hc
    by_cases hne : w = []
    · subst hne
      obtain rfl : d = c := by simpa using hc
      exact Or.inr hd
    · exact Or.inl (hfront w _ hw hne c hc)
  | bare hw hne =>
    intro c hc
    rw [List.append_assoc] at hc
    exact Or.inl (hfront _ _ hw hne c hc)
  | valued hw hne =>
    intro c hc
    rw [List.append_assoc] at hc
    exact Or.inl (hfront _ _ hw hne c hc)

/-- Behind the blanks comes a name or the end of the tag. -/
theorem trimStart_head_append (h : Attributes as w) (hs : Ends s) :
    ∀ c ∈ (Text.trimStart (w ++ s)).head?, c ≠ '=' := by
  obtain ⟨d, r, rfl, hd⟩ := hs
  have hd' : Text.isBlank d = false ∧ d ≠ '=' := by rcases hd with rfl | rfl <;> decide
  have hfront : ∀ w₀ name t : Text, Blanks w₀ → name ≠ [] →
      (∀ c ∈ name, isAttributeChar c = true) →
      ∀ c ∈ (Text.trimStart (w₀ ++ (name ++ t))).head?, c ≠ '=' := by
    intro w₀ name t hw₀ hname hchars
    obtain ⟨x, name, rfl⟩ := List.exists_cons_of_ne_nil hname
    have hx := hchars x List.mem_cons_self
    rw [Text.trimStart_blank_append hw₀ (by simpa using isBlank_of_isAttributeChar hx)]
    intro c hc
    obtain rfl : x = c := by simpa using hc
    exact ne_of_isAttributeChar hx (by decide)
  cases h with
  | nil hw =>
    rw [Text.trimStart_blank_append hw (by simpa using hd'.1)]
    intro c hc
    obtain rfl : d = c := by simpa using hc
    exact hd'.2
  | bare hw hne hname hchars =>
    rw [List.append_assoc, List.append_assoc]
    exact hfront _ _ _ hw hname hchars
  | valued hw hne hname hchars =>
    rw [List.append_assoc, List.append_assoc]
    exact hfront _ _ _ hw hname hchars

theorem isAttributeChar_head_append (h : Attributes as w) (hs : Ends s) :
    ∀ c ∈ (w ++ s).head?, isAttributeChar c = false := by
  intro c hc
  rcases h.head_append hs c hc with h | rfl | rfl
  · exact isAttributeChar_of_isBlank h
  · decide
  · decide

/-- Attributes are read up to the end of their tag. -/
theorem readAttributes_append (h : Attributes as w) (hs : Ends s) {fuel : Nat}
    (hfuel : as.length ≤ fuel) :
    ∃ rest, readAttributes fuel (w ++ s) = (as, rest) ∧ Text.trimStart rest = s := by
  have hink : ∀ c ∈ s.head?, Text.isBlank c = false := by
    obtain ⟨c, r, rfl, rfl | rfl⟩ := hs <;> simp <;> decide
  induction h generalizing fuel with
  | @nil w hw =>
    have htrim : Text.trimStart (w ++ s) = s := Text.trimStart_blank_append hw hink
    have hnone : readAttribute? (w ++ s) = none := by
      have hname : s.takeWhile isAttributeChar = [] := by
        obtain ⟨c, r, rfl, rfl | rfl⟩ := hs <;> rfl
      simp [readAttribute?, htrim, hname]
    refine ⟨w ++ s, ?_, htrim⟩
    cases fuel with
    | zero => rfl
    | succ fuel => rw [readAttributes, hnone]
  | @bare w₀ name rest as hw₀ hne hname hchars h ih =>
    obtain ⟨fuel, rfl⟩ : ∃ k, fuel = k + 1 :=
      Nat.exists_eq_add_of_le' (Nat.le_trans (by simp) hfuel)
    obtain ⟨rest', hrest, htrim⟩ := ih (Nat.le_of_succ_le_succ hfuel)
    refine ⟨rest', ?_, htrim⟩
    have hvalue : readValue? (rest ++ s) = none := readValue?_eq_none (h.trimStart_head_append hs)
    rw [List.append_assoc, List.append_assoc, readAttributes,
      readAttribute?_append hw₀ hne hname hchars (h.isAttributeChar_head_append hs), hvalue]
    simp only [hrest]
  | @valued w₀ name value v rest as hw₀ hne hname hchars hv h ih =>
    obtain ⟨fuel, rfl⟩ : ∃ k, fuel = k + 1 :=
      Nat.exists_eq_add_of_le' (Nat.le_trans (by simp) hfuel)
    obtain ⟨rest', hrest, htrim⟩ := ih (Nat.le_of_succ_le_succ hfuel)
    refine ⟨rest', ?_, htrim⟩
    have hvalue : readValue? (v ++ (rest ++ s)) = some (value, rest ++ s) :=
      readValue?_eq_some_iff.2 ⟨v, hv, rfl⟩
    have hhead : ∀ c ∈ (v ++ (rest ++ s)).head?, isAttributeChar c = false := by
      obtain @⟨w₁, w₂, q, h₁, -, -, -⟩ := hv
      intro c hc
      cases w₁ with
      | nil =>
        obtain rfl : '=' = c := by simpa using hc
        decide
      | cons x w₁ =>
        obtain rfl : x = c := by simpa using hc
        exact isAttributeChar_of_isBlank (h₁ x List.mem_cons_self)
    rw [List.append_assoc, List.append_assoc, List.append_assoc, readAttributes,
      readAttribute?_append hw₀ hne hname hchars hhead, hvalue]
    simp only [hrest]

end Attributes

/-- An attribute with its value in double quotes, behind a blank. -/
def quoted (name value : Text) : Text := ' ' :: (name ++ '=' :: '"' :: (value ++ ['"']))

theorem Attributes.quoted {name value rest : Text} {as : List Attribute} (hname : name ≠ [])
    (hchars : ∀ c ∈ name, isAttributeChar c = true) (hvalue : '"' ∉ value)
    (h : Attributes as rest) :
    Attributes (⟨name, some value⟩ :: as) (quoted name value ++ rest) := by
  have hblank : Blanks [' '] := by decide
  have hv : Value value ([] ++ '=' :: ([] ++ '"' :: (value ++ ['"']))) :=
    Value.mk (List.forall_mem_nil _) (List.forall_mem_nil _) (Or.inl rfl) hvalue
  have := Attributes.valued hblank (by simp) hname hchars hv h
  simpa [Mapper.quoted] using this

/-! ## Tags -/

/-- The name of an element. -/
def TagName (name : Text) : Prop :=
  ∃ c r, name = c :: r ∧ isNameStart c = true ∧ ∀ d ∈ r, isNamePart d = true

/-- A tag as it is written. -/
inductive Tag : Markup → Text → Prop
  | opening {name w : Text} {as : List Attribute} (hname : TagName name) (h : Attributes as w) :
      Tag (.opening name as) ('<' :: (name ++ (w ++ ['>'])))
  | empty {name w : Text} {as : List Attribute} (hname : TagName name) (h : Attributes as w) :
      Tag (.empty name as) ('<' :: (name ++ (w ++ ['/', '>'])))
  | closing {name w ending : Text} {as : List Attribute} (hname : TagName name)
      (h : Attributes as w) (hending : ending = ['>'] ∨ ending = ['/', '>']) :
      Tag (.closing name) ('<' :: '/' :: (name ++ (w ++ ending)))

/-- The end of a tag and what follows it. -/
def tagEnd? (closes : Bool) (name : Text) (as : List Attribute) : Text → Option (Markup × Text)
  | '/' :: '>' :: rest => some (if closes then .closing name else .empty name as, rest)
  | '>' :: rest => some (if closes then .closing name else .opening name as, rest)
  | _ => none

/-- The part of a tag behind `<` or `</`, and what follows the tag. -/
def tagBody? (closes : Bool) : Text → Option (Markup × Text)
  | [] => none
  | c :: r =>
    if isNameStart c then
      let (as, rest) := readAttributes r.length (r.dropWhile isNamePart)
      tagEnd? closes (c :: r.takeWhile isNamePart) as (Text.trimStart rest)
    else none

theorem readTag?_slash (t : Text) : readTag? ('<' :: '/' :: t) = tagBody? true t := by
  cases t with
  | nil => rfl
  | cons c r =>
    simp only [readTag?, tagBody?]
    split
    · unfold tagEnd?
      split <;> simp_all
    · rfl

theorem readTag?_of_ne_slash {c : Char} (h : c ≠ '/') (r : Text) :
    readTag? ('<' :: c :: r) = tagBody? false (c :: r) := by
  unfold readTag?
  split
  · rename_i u hu
    obtain rfl : c :: r = u := by simpa using hu
    split
    rename_i closes v heq
    split at heq
    · rename_i hslash
      exact absurd (List.cons.inj hslash).1 h
    · obtain ⟨rfl, rfl⟩ := Prod.mk.inj heq
      simp only [tagBody?]
      split
      · unfold tagEnd?
        split <;> simp_all
      · rfl
  · rename_i hno
    exact absurd rfl (hno (c :: r))

/-- What is read behind `<` or `</` was written there. -/
theorem tagBody?_inv {closes : Bool} {t rest : Text} {m : Markup}
    (h : tagBody? closes t = some (m, rest)) :
    ∃ name as w s, TagName name ∧ Attributes as w ∧ t = name ++ (w ++ s) ∧
      tagEnd? closes name as s = some (m, rest) := by
  cases t with
  | nil => cases h
  | cons c r =>
    rw [tagBody?] at h
    split at h
    · rename_i hc
      simp only at h
      obtain ⟨w, hw, hr⟩ := attributes_of_readAttributes
        (rfl : readAttributes r.length (r.dropWhile isNamePart) = (_, _))
      have hname : TagName (c :: r.takeWhile isNamePart) :=
        ⟨c, _, rfl, hc, fun d hd => List.mem_takeWhile_imp hd⟩
      refine ⟨_, _, w, _, hname, hw, ?_, h⟩
      rw [← hr, List.cons_append, List.takeWhile_append_dropWhile]
    · cases h

theorem tagBody?_append {name w s : Text} {as : List Attribute} (hname : TagName name)
    (h : Attributes as w) (hs : Attributes.Ends s) (closes : Bool) :
    tagBody? closes (name ++ (w ++ s)) = tagEnd? closes name as s := by
  obtain ⟨c, r, rfl, hc, hr⟩ := hname
  have hstop : ∀ d ∈ (w ++ s).head?, isNamePart d = false := by
    intro d hd
    rcases h.head_append hs d hd with h | rfl | rfl
    · exact isNamePart_of_isBlank h
    · decide
    · decide
  obtain ⟨htake, hdrop⟩ := Text.span_append hr hstop
  have hfuel : as.length ≤ (r ++ (w ++ s)).length := by
    have := h.length_le
    rw [List.length_append, List.length_append]
    omega
  obtain ⟨rest, hread, htrim⟩ := h.readAttributes_append hs hfuel
  rw [List.cons_append, tagBody?, if_pos hc, hdrop, htake, hread]
  simp only [htrim]

theorem tagEnd?_inv {closes : Bool} {name s rest : Text} {as : List Attribute} {m : Markup}
    (h : tagEnd? closes name as s = some (m, rest)) :
    (s = ['>'] ++ rest ∧ m = if closes then .closing name else .opening name as) ∨
      s = ['/', '>'] ++ rest ∧ m = if closes then .closing name else .empty name as := by
  unfold tagEnd? at h
  split at h
  · obtain ⟨rfl, rfl⟩ := Prod.mk.inj (Option.some.inj h)
    exact Or.inr ⟨rfl, rfl⟩
  · obtain ⟨rfl, rfl⟩ := Prod.mk.inj (Option.some.inj h)
    exact Or.inl ⟨rfl, rfl⟩
  · cases h

theorem ne_slash_of_isNameStart {c : Char} (h : isNameStart c = true) : c ≠ '/' := by
  rintro rfl
  exact absurd h (by decide)

/-- **The reader takes a tag off a text exactly when the text starts with one.** -/
theorem readTag?_eq_some_iff {t rest : Text} {m : Markup} :
    readTag? t = some (m, rest) ↔ ∃ w, Tag m w ∧ t = w ++ rest := by
  constructor
  · intro h
    obtain ⟨t, rfl⟩ : ∃ u, t = '<' :: u := by
      unfold readTag? at h
      split at h
      · exact ⟨_, rfl⟩
      · cases h
    match t with
    | [] => cases h
    | c :: r =>
      by_cases hc : c = '/'
      · subst hc
        rw [readTag?_slash] at h
        obtain ⟨name, as, w, s, hname, hw, rfl, hs⟩ := tagBody?_inv h
        rcases tagEnd?_inv hs with ⟨rfl, rfl⟩ | ⟨rfl, rfl⟩
        · exact ⟨_, Tag.closing hname hw (Or.inl rfl), by simp⟩
        · exact ⟨_, Tag.closing hname hw (Or.inr rfl), by simp⟩
      · rw [readTag?_of_ne_slash hc] at h
        obtain ⟨name, as, w, s, hname, hw, heq, hs⟩ := tagBody?_inv h
        rcases tagEnd?_inv hs with ⟨rfl, rfl⟩ | ⟨rfl, rfl⟩
        · exact ⟨_, Tag.opening hname hw, by simp [heq]⟩
        · exact ⟨_, Tag.empty hname hw, by simp [heq]⟩
  · rintro ⟨w, h, rfl⟩
    cases h with
    | @opening name w as hname h =>
      have hread := tagBody?_append hname h (s := '>' :: rest) ⟨_, _, rfl, Or.inl rfl⟩ false
      obtain ⟨c, r, rfl, hc, -⟩ := hname
      simpa [readTag?_of_ne_slash (ne_slash_of_isNameStart hc), tagEnd?] using hread
    | @empty name w as hname h =>
      have hread := tagBody?_append hname h (s := '/' :: '>' :: rest) ⟨_, _, rfl, Or.inr rfl⟩ false
      obtain ⟨c, r, rfl, hc, -⟩ := hname
      simpa [readTag?_of_ne_slash (ne_slash_of_isNameStart hc), tagEnd?] using hread
    | @closing name w ending as hname h hending =>
      have hs : Attributes.Ends (ending ++ rest) := by
        rcases hending with rfl | rfl
        · exact ⟨_, _, rfl, Or.inl rfl⟩
        · exact ⟨_, _, rfl, Or.inr rfl⟩
      have hread := tagBody?_append hname h hs true
      have hend : tagEnd? true name as (ending ++ rest) = some (.closing name, rest) := by
        rcases hending with rfl | rfl <;> rfl
      rw [hend] at hread
      simpa [readTag?_slash] using hread

/-! ## Markup -/

/-- The text starts like a comment or a section. As a declaration, it is one that never ends. -/
def LeftOpen (w : Text) : Prop := "<!--".toList <+: w ∨ "<![CDATA[".toList <+: w

instance (w : Text) : Decidable (LeftOpen w) :=
  inferInstanceAs (Decidable ("<!--".toList <+: w ∨ "<![CDATA[".toList <+: w))

/-- Markup as it is written. -/
inductive Written : Markup → Text → Prop
  | comment {x : Text} (hx : ¬ "-->".toList <:+: x) :
      Written .comment ("<!--".toList ++ (x ++ "-->".toList))
  | section {x : Text} (hx : ¬ "]]>".toList <:+: x) :
      Written (.section x) ("<![CDATA[".toList ++ (x ++ "]]>".toList))
  | declaration {x : Text} (hx : ¬ ">".toList <:+: x)
      (hopen : ¬ LeftOpen ("<!".toList ++ (x ++ ">".toList))) :
      Written .declaration ("<!".toList ++ (x ++ ">".toList))
  | instruction {x : Text} (hx : ¬ "?>".toList <:+: x) :
      Written .declaration ("<?".toList ++ (x ++ "?>".toList))
  | tag {m : Markup} {w : Text} (h : Tag m w) : Written m w

theorem between?_append {opening closing : String} {u : Text} {e : Char}
    (hclosing : closing.toList = u ++ [e]) (hu : e ∉ u) {x : Text} (hx : ¬ closing.toList <:+: x)
    (rest : Text) :
    between? opening closing (opening.toList ++ (x ++ closing.toList) ++ rest) = some (x, rest) :=
  (between?_eq_some_iff hclosing hu).2 ⟨by simp, hx⟩

theorem between?_eq_none {opening closing : String} {t : Text} (h : ¬ opening.toList <+: t) :
    between? opening closing t = none := by
  cases hstrip : Text.stripPrefix? opening.toList t with
  | none => simp [between?, hstrip]
  | some r => exact absurd ⟨r, Text.stripPrefix?_eq_some_iff.1 hstrip⟩ h

theorem Tag.head {m : Markup} {w : Text} (h : Tag m w) :
    ∃ c r, w = '<' :: c :: r ∧ (isNameStart c = true ∨ c = '/') := by
  cases h with
  | opening hname =>
    obtain ⟨c, r, rfl, hc, -⟩ := hname
    exact ⟨c, _, rfl, Or.inl hc⟩
  | empty hname =>
    obtain ⟨c, r, rfl, hc, -⟩ := hname
    exact ⟨c, _, rfl, Or.inl hc⟩
  | closing => exact ⟨'/', _, rfl, Or.inr rfl⟩

/-- Whether a character may go on with `<` to markup. -/
def goesOnMarkup (c : Char) : Bool := isNameStart c || c == '/' || c == '!' || c == '?'

theorem Written.head {m : Markup} {w : Text} (h : Written m w) :
    ∃ c r, w = '<' :: c :: r ∧ goesOnMarkup c = true := by
  cases h with
  | tag h =>
    obtain ⟨c, r, rfl, hc | rfl⟩ := h.head
    · exact ⟨c, r, rfl, by simp [goesOnMarkup, hc]⟩
    · exact ⟨_, r, rfl, by decide⟩
  | instruction => exact ⟨'?', _, rfl, by decide⟩
  | _ => exact ⟨'!', _, rfl, by decide⟩

theorem LeftOpen.head {w : Text} (h : LeftOpen w) :
    ∃ c r, w = '<' :: c :: r ∧ goesOnMarkup c = true := by
  rcases h with ⟨r, rfl⟩ | ⟨r, rfl⟩
  · exact ⟨'!', _, rfl, by decide⟩
  · exact ⟨'!', _, rfl, by decide⟩

/-- A word that a text does not start with is not found there when more text follows, if the text
holds a character that is not in the word. -/
theorem not_starts_append {p w : Text} {c : Char} (h : ¬ p <+: w) (hw : c ∈ w) (hp : c ∉ p)
    (rest : Text) : ¬ p <+: w ++ rest := by
  intro hstart
  rcases List.prefix_or_prefix_of_prefix hstart (List.prefix_append w rest) with h' | h'
  · exact h h'
  · exact hp (h'.subset hw)

/-- **What is written as markup is read as that markup, whatever follows.** -/
theorem Written.readMarkup? {m : Markup} {w : Text} (h : Written m w) (rest : Text) :
    readMarkup? (w ++ rest) = some (m, rest) := by
  unfold Mapper.readMarkup?
  cases h with
  | comment hx =>
    rw [between?_append (u := "--".toList) rfl (by decide) hx]
    rfl
  | «section» hx =>
    rw [between?_eq_none (by simp), between?_append (u := "]]".toList) rfl (by decide) hx]
    rfl
  | @declaration x hx hopen =>
    obtain ⟨hcomment, hsection⟩ := not_or.1 hopen
    have hend : '>' ∈ "<!".toList ++ (x ++ ">".toList) := by simp
    rw [between?_eq_none (not_starts_append hcomment hend (by decide) rest),
      between?_eq_none (not_starts_append hsection hend (by decide) rest),
      between?_append (u := []) rfl (by decide) hx]
    rfl
  | instruction hx =>
    rw [between?_eq_none (by simp), between?_eq_none (by simp), between?_eq_none (by simp),
      between?_append (u := "?".toList) rfl (by decide) hx]
    rfl
  | tag h =>
    have hread : readTag? (w ++ rest) = some (m, rest) := readTag?_eq_some_iff.2 ⟨w, h, rfl⟩
    obtain ⟨c, r, rfl, hc⟩ := h.head
    have hmark : ∀ d ∈ ['!', '?'], c ≠ d := by
      rintro d hd rfl
      rcases hc with hc | rfl
      · have : ∀ d ∈ ['!', '?'], isNameStart d = false := by decide
        rw [this c hd] at hc
        cases hc
      · exact absurd hd (by decide)
    have h₁ := hmark '!' (by decide)
    have h₂ := hmark '?' (by decide)
    rw [between?_eq_none (by simp [Ne.symm h₁]), between?_eq_none (by simp [Ne.symm h₁]),
      between?_eq_none (by simp [Ne.symm h₁]), between?_eq_none (by simp [Ne.symm h₂]), hread]
    rfl

/-- What is read as markup was written so. A comment or a section that never ends is read as a
declaration if it can be. -/
theorem written_of_readMarkup? {t rest : Text} {m : Markup} (h : readMarkup? t = some (m, rest)) :
    ∃ w, t = w ++ rest ∧ (Written m w ∨ m = .declaration ∧ LeftOpen w) := by
  unfold readMarkup? at h
  cases hcomment : between? "<!--" "-->" t with
  | some p =>
    obtain ⟨x, r⟩ := p
    rw [hcomment] at h
    obtain ⟨rfl, rfl⟩ : Markup.comment = m ∧ r = rest := by simpa using h
    obtain ⟨rfl, hx⟩ := (between?_eq_some_iff (u := "--".toList) rfl (by decide)).1 hcomment
    exact ⟨_, by simp, Or.inl (Written.comment hx)⟩
  | none =>
  cases hsection : between? "<![CDATA[" "]]>" t with
  | some p =>
    obtain ⟨x, r⟩ := p
    rw [hcomment, hsection] at h
    obtain ⟨rfl, rfl⟩ : Markup.section x = m ∧ r = rest := by simpa using h
    obtain ⟨rfl, hx⟩ := (between?_eq_some_iff (u := "]]".toList) rfl (by decide)).1 hsection
    exact ⟨_, by simp, Or.inl (Written.section hx)⟩
  | none =>
  cases hdeclaration : between? "<!" ">" t with
  | some p =>
    obtain ⟨x, r⟩ := p
    rw [hcomment, hsection, hdeclaration] at h
    obtain ⟨rfl, rfl⟩ : Markup.declaration = m ∧ r = rest := by simpa using h
    obtain ⟨rfl, hx⟩ := (between?_eq_some_iff (u := []) rfl (by decide)).1 hdeclaration
    refine ⟨"<!".toList ++ (x ++ ">".toList), by simp, ?_⟩
    by_cases hopen : LeftOpen ("<!".toList ++ (x ++ ">".toList))
    · exact Or.inr ⟨rfl, hopen⟩
    · exact Or.inl (Written.declaration hx hopen)
  | none =>
  cases hinstruction : between? "<?" "?>" t with
  | some p =>
    obtain ⟨x, r⟩ := p
    rw [hcomment, hsection, hdeclaration, hinstruction] at h
    obtain ⟨rfl, rfl⟩ : Markup.declaration = m ∧ r = rest := by simpa using h
    obtain ⟨rfl, hx⟩ := (between?_eq_some_iff (u := "?".toList) rfl (by decide)).1 hinstruction
    exact ⟨_, by simp, Or.inl (Written.instruction hx)⟩
  | none =>
    rw [hcomment, hsection, hdeclaration, hinstruction] at h
    obtain ⟨w, hw, rfl⟩ := readTag?_eq_some_iff.1 h
    exact ⟨w, rfl, Or.inl (Written.tag hw)⟩

/-! ## Texts that start no markup -/

/-- The text starts with a character that cannot go on with `<` to markup. -/
abbrev StartsQuiet (t : Text) : Prop := t.head?.any (fun c => !goesOnMarkup c) = true

/-- No `<` of the text starts markup, whatever follows the text: each has a character behind it that
cannot go on with markup. -/
def Quiet : Text → Prop
  | [] => True
  | c :: t => (c = '<' → StartsQuiet t) ∧ Quiet t

instance decidableQuiet : (t : Text) → Decidable (Quiet t)
  | [] => isTrue trivial
  | c :: t =>
    have := decidableQuiet t
    inferInstanceAs (Decidable ((c = '<' → StartsQuiet t) ∧ Quiet t))

theorem quiet_of_not_mem {t : Text} (h : '<' ∉ t) : Quiet t := by
  induction t with
  | nil => exact trivial
  | cons c t ih =>
    exact ⟨fun hc => absurd (hc ▸ List.mem_cons_self) h, ih fun ht => h (List.mem_cons_of_mem c ht)⟩

/-- A text behind another one may be changed to one that starts with no markup. -/
theorem Quiet.change {s t u : Text} (h : Quiet (s ++ t)) (hu : Quiet u)
    (hhead : StartsQuiet u) : Quiet (s ++ u) := by
  induction s with
  | nil => exact hu
  | cons c s ih =>
    obtain ⟨hc, hs⟩ := h
    refine ⟨fun heq => ?_, ih hs⟩
    cases s with
    | nil => exact hhead
    | cons d s => exact hc heq

theorem Quiet.append {s t : Text} (hs : Quiet s) (ht : Quiet t) : Quiet (s ++ t) := by
  induction s with
  | nil => exact ht
  | cons c s ih =>
    obtain ⟨hc, hs⟩ := hs
    refine ⟨fun heq => ?_, ih hs⟩
    cases s with
    | nil => exact absurd (hc heq) (by simp)
    | cons d s => exact hc heq

theorem Quiet.of_append {s t : Text} (h : Quiet (s ++ t)) : Quiet t := by
  induction s with
  | nil => exact h
  | cons c s ih => exact ih h.2

/-- Nothing is read as markup at the front of a text that starts none. -/
theorem readMarkup?_eq_none {c : Char} {t : Text} (h : c = '<' → StartsQuiet t) :
    readMarkup? (c :: t) = none := by
  cases hread : readMarkup? (c :: t) with
  | none => rfl
  | some p =>
    obtain ⟨m, rest⟩ := p
    obtain ⟨w, heq, hw⟩ := written_of_readMarkup? hread
    obtain ⟨d, r, rfl, hd⟩ : ∃ d r, w = '<' :: d :: r ∧ goesOnMarkup d = true := by
      rcases hw with hw | ⟨-, hw⟩
      · exact hw.head
      · exact hw.head
    obtain ⟨rfl, rfl⟩ := List.cons.inj heq
    have hquiet : (!goesOnMarkup d) = true := h rfl
    rw [hd] at hquiet
    cases hquiet

end Mapper

end SqlInjection
