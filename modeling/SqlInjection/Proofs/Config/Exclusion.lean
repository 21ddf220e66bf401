import SqlInjection.Project.Walk
import SqlInjection.Proofs.Text.Cutting

/-!
# What exclusion patterns cover

A pattern `d/**` is meant for all that is in the directory `d`, and a pattern `a*b` for the paths that
are made of `a`, anything and `b`. `patterns_cover_iff` says what they cover: the first all paths that
start with `d`, since the slash is taken off before the test, and the second all paths that start with
`a` and end with `b`, where the two may share characters. What they cover beyond their meaning is in
`sibling_directory_covered`: files of a neighbouring directory, and names that are too short.
-/

namespace SqlInjection

namespace Text

/-- A text without stars before another belongs to its first piece. -/
theorem splitAround_stars_append {s t piece : Text} {more : List Text} (hs : '*' ∉ s)
    (ht : splitAround "**".toList t = piece :: more) :
    splitAround "**".toList (s ++ t) = (s ++ piece) :: more := by
  induction s with
  | nil => exact ht
  | cons c s ih =>
    have hc : startsWith (c :: (s ++ t)) "**".toList = false := by
      rw [← Bool.not_eq_true, startsWith_iff]
      intro hprefix
      exact hs (List.mem_cons.2 (Or.inl (List.cons_prefix_cons.1 hprefix).1))
    have hrest := ih fun h => hs (List.mem_cons_of_mem c h)
    rw [splitAround] at hrest
    rw [splitAround, List.cons_append, splitAroundFrom, hc, hrest]
    rfl

theorem splitAround_stars_of_not_mem {t : Text} (ht : '*' ∉ t) :
    splitAround "**".toList t = [t] := by
  have h := splitAround_stars_append (t := []) ht rfl
  rwa [List.append_nil] at h

/-- Between texts without stars, one star is not two. -/
theorem splitAround_stars_star {a b : Text} (ha : '*' ∉ a) (hb : '*' ∉ b) :
    splitAround "**".toList (a ++ '*' :: b) = [a ++ '*' :: b] := by
  refine splitAround_stars_append ha ?_
  have hstar : startsWith ('*' :: b) "**".toList = false := by
    rw [← Bool.not_eq_true, startsWith_iff]
    intro hprefix
    exact hb ((List.cons_prefix_cons.1 hprefix).2.subset List.mem_cons_self)
  have hrest := splitAround_stars_of_not_mem hb
  rw [splitAround] at hrest
  rw [splitAround, splitAroundFrom, hstar, hrest]
  rfl

/-- The slashes at the end of a text are dropped up to a character that is none. -/
theorem dropEndWhile_slash {d : Text} (hd : d.getLast? ≠ some '/') :
    dropEndWhile (· == '/') (d ++ ['/']) = d := by
  rw [dropEndWhile, List.reverse_append, List.reverse_singleton, List.singleton_append,
    List.dropWhile_cons_of_pos rfl]
  cases hlast : d.reverse with
  | nil => simpa using hlast.symm
  | cons c r =>
    have hc : d.getLast? = some c := by rw [← List.head?_reverse, hlast]; rfl
    have hne : c ≠ '/' := by
      rintro rfl
      exact hd hc
    rw [List.dropWhile_cons_of_neg (by simpa using hne), ← hlast, List.reverse_reverse]

end Text

/-! ## The two forms -/

section Forms

variable {d a b p : Text}

theorem startsWith_starsSlash_directory (hd : '*' ∉ d) :
    Text.startsWith (d ++ slashStars) starsSlash = false := by
  rw [← Bool.not_eq_true, Text.startsWith_iff]
  intro hprefix
  cases d with
  | nil => revert hprefix; decide
  | cons c d => exact hd (List.mem_cons.2 (Or.inl (List.cons_prefix_cons.1 hprefix).1))

theorem startsWith_starsSlash_form (ha : '*' ∉ a) (hb : '*' ∉ b) :
    Text.startsWith (a ++ '*' :: b) starsSlash = false := by
  rw [← Bool.not_eq_true, Text.startsWith_iff]
  intro hprefix
  cases a with
  | nil =>
    have hsecond : ['*', '/'] <+: b := (List.cons_prefix_cons.1 hprefix).2
    exact hb (hsecond.subset List.mem_cons_self)
  | cons c a => exact ha (List.mem_cons.2 (Or.inl (List.cons_prefix_cons.1 hprefix).1))

/-- A directory with two stars covers what starts with its name. -/
theorem patternCovers_directory (hd : '*' ∉ d) (hslash : d.getLast? ≠ some '/') :
    patternCovers (d ++ slashStars) p = true ↔ d <+: p := by
  have hparts : Text.splitAround "**".toList (d ++ slashStars) = [d ++ ['/'], []] := by
    have hsplit : Text.splitAround "**".toList ("**".toList) = [[], []] := by decide
    have hstars : d ++ slashStars = (d ++ ['/']) ++ "**".toList := by simp [slashStars]
    rw [hstars, Text.splitAround_stars_append (by simpa using hd) hsplit, List.append_nil]
  simp only [patternCovers, startsWith_starsSlash_directory hd, Bool.false_and, Bool.false_eq_true,
    if_false, hparts, Text.dropEndWhile_slash hslash, List.dropWhile_nil, startsAndEnds,
    Bool.and_eq_true, Text.startsWith_iff, Text.endsWith_iff]
  exact and_iff_left (List.nil_suffix)

/-- A form of names with one star covers what starts and ends as it does. -/
theorem patternCovers_form (ha : '*' ∉ a) (hb : '*' ∉ b) :
    patternCovers (a ++ '*' :: b) p = true ↔ a <+: p ∧ b <:+ p := by
  have hparts : Text.splitOn '*' (a ++ '*' :: b) = [a, b] := by
    rw [Text.splitOn_append_cons ha, Text.splitOn_of_not_mem hb]
  simp only [patternCovers, startsWith_starsSlash_form ha hb, Bool.false_and, Bool.false_eq_true,
    if_false, Text.splitAround_stars_star ha hb, hparts, startsAndEnds, Bool.and_eq_true,
    Text.startsWith_iff, Text.endsWith_iff]

/-- A text that starts with one text and ends with another has something between them exactly if it
is as long as both together. -/
theorem exists_between_iff (ha : a <+: p) (hb : b <:+ p) :
    (∃ m, p = a ++ m ++ b) ↔ a.length + b.length ≤ p.length := by
  constructor
  · rintro ⟨m, rfl⟩
    simp only [List.length_append]
    omega
  · intro hlength
    obtain ⟨r, rfl⟩ := ha
    rw [List.length_append] at hlength
    have hbr : b <:+ r := List.suffix_of_suffix_length_le hb (List.suffix_append a r) (by omega)
    obtain ⟨m, rfl⟩ := hbr
    exact ⟨m, (List.append_assoc a m b).symm⟩

end Forms

/-- A path with slashes for backslashes. -/
def slashed (path : Text) : Text := path.map fun c => if c = '\\' then '/' else c

/-- What a pattern covers is left out of every scan. -/
theorem reads_eq_false_of_covers {project : Project} {config : ProjectConfig} {below : Location}
    {pattern : Text} (hmem : pattern ∈ config.excluded)
    (hcovers : patternCovers pattern (slashed (Path.ofParts below)) = true) :
    project.reads config below = false := by
  have hexcluded : config.excludes (Path.ofParts below) = true := by
    rw [ProjectConfig.excludes, isExcluded, Bool.or_eq_true]
    exact Or.inr (List.any_eq_true.2 ⟨pattern, hmem, hcovers⟩)
  simp [Project.reads, hexcluded]

/-- **What the patterns of a directory and of a form of names cover.** The pattern `d/**` covers the
paths that start with `d`; they start with `d/` exactly if a slash follows. The pattern `a*b` covers
the paths that start with `a` and end with `b`; they are made of `a`, a text and `b` exactly if they
are as long as `a` and `b` together. No scan with the pattern `d/**` reads a file whose path starts
with `d`. -/
theorem patterns_cover_iff {d a b : Text} (hd : '*' ∉ d) (hslash : d.getLast? ≠ some '/')
    (ha : '*' ∉ a) (hb : '*' ∉ b) (p : Text) :
    (patternCovers (d ++ slashStars) p = true ↔ d <+: p) ∧
      (patternCovers (a ++ '*' :: b) p = true ↔ a <+: p ∧ b <:+ p) ∧
      ((patternCovers (d ++ slashStars) p = true → d ++ ['/'] <+: p) ↔
        ∀ rest, p = d ++ rest → rest.head? = some '/') ∧
      ((patternCovers (a ++ '*' :: b) p = true → ∃ m, p = a ++ m ++ b) ↔
        (a <+: p → b <:+ p → a.length + b.length ≤ p.length)) ∧
      ∀ (project : Project) (config : ProjectConfig) (below : Location),
        d ++ slashStars ∈ config.excluded → d <+: slashed (Path.ofParts below) →
          project.reads config below = false := by
  refine ⟨patternCovers_directory hd hslash, patternCovers_form ha hb, ?_, ?_, ?_⟩
  · rw [patternCovers_directory hd hslash]
    constructor
    · rintro h rest rfl
      obtain ⟨more, hmore⟩ := h (List.prefix_append d rest)
      rw [List.append_assoc, List.append_cancel_left_eq] at hmore
      rw [← hmore]
      rfl
    · rintro h ⟨rest, rfl⟩
      obtain ⟨more, rfl⟩ := List.head?_eq_some_iff.1 (h rest rfl)
      exact ⟨more, by simp⟩
  · rw [patternCovers_form ha hb]
    constructor
    · exact fun h hpre hsuf => (exists_between_iff hpre hsuf).1 (h ⟨hpre, hsuf⟩)
    · exact fun h ⟨hpre, hsuf⟩ => (exists_between_iff hpre hsuf).2 (h hpre hsuf)
  · intro project config below hmem hprefix
    exact reads_eq_false_of_covers hmem ((patternCovers_directory hd hslash).2 hprefix)

/-- A file in a directory, and a name that is just long enough. -/
theorem patterns_cover_iff_generated :
    let d := "src/generated".toList
    let p := "src/generated/Dao.java".toList
    d ++ ['/'] <+: p ∧ ∃ m, p = "src/".toList ++ m ++ "generated/Dao.java".toList := by
  intro d p
  obtain ⟨hdirectory, hform, hinside, hbetween, -⟩ :=
    patterns_cover_iff (d := d) (a := "src/".toList) (b := "generated/Dao.java".toList) (by decide)
      (by decide) (by decide) (by decide) p
  refine ⟨hinside.2 ?_ (hdirectory.2 (by decide)), hbetween.2 ?_ (hform.2 (by decide))⟩
  · intro rest hrest
    have : rest = "/Dao.java".toList := List.append_cancel_left hrest.symm
    rw [this]
    rfl
  · decide

/-- A pattern for one directory covers a file of another whose name goes on, and a form of names
covers a name in which its two ends overlap. -/
theorem sibling_directory_covered :
    (patternCovers "generated/**".toList "generated2/Dao.java".toList = true ∧
      ¬ "generated/".toList <+: "generated2/Dao.java".toList) ∧
      patternCovers "ab*ba".toList "aba".toList = true ∧
        ¬ ∃ m, "aba".toList = "ab".toList ++ m ++ "ba".toList := by
  refine ⟨⟨by decide, by decide⟩, by decide, ?_⟩
  rw [exists_between_iff (by decide) (by decide)]
  decide

end SqlInjection
