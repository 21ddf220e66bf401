import Mathlib.Data.List.Basic
import Mathlib.Data.List.Induction
import Mathlib.Data.List.TakeWhile
import SqlInjection.Project.Fixing
import SqlInjection.Proofs.Detector.Fitting

/-!
# How far fixing gets

The fixes of a scan are applied file by file, and the first file that has to be written but cannot
be ends the run. `fixFiles_false` says this in one equation: the run gets through the files before
that one and does to each of them, in order, all that fixing does to a file. The edits for a file
that was scanned can be applied (`applyEdits?_of_mem_scan`).

`fix_finishes_before_failure` draws the consequences. A dry run does nothing and tells what a run
without failures tells. A run that fails at a file has written the changed files before it and
nothing else, and has told what became of each detection in the files before it and of no other.
-/

namespace SqlInjection

/-! ## What is on disk -/

namespace FileTree

theorem lookup_replaced (files : List (Location × ByteArray)) (l k : Location) (b : ByteArray) :
    (files.map fun (n, old) => if n = l then (n, b) else (n, old)).lookup k =
      if k = l then (files.lookup k).map fun _ => b else files.lookup k := by
  induction files with
  | nil => simp
  | cons file files ih =>
    obtain ⟨n, old⟩ := file
    rw [List.map_cons, List.lookup_cons]
    by_cases hk : k = n
    · subst hk
      by_cases hl : k = l <;> simp [hl]
    · have hne : (k == n) = false := beq_eq_false_iff_ne.2 hk
      have hfirst : (k == (if n = l then (n, b) else (n, old)).1) = false := by
        split <;> exact hne
      rw [List.lookup_cons, hfirst, hne, ih]

/-- A file holds what was put there last. -/
theorem content?_put (t : FileTree) (l k : Location) (b : ByteArray) :
    (t.put l b).content? k = if k = l then some b else t.content? k := by
  unfold put
  split
  · next hfile =>
    obtain ⟨old, hold⟩ := Option.isSome_iff_exists.1 hfile
    have hreplaced := lookup_replaced t.files l k b
    by_cases hk : k = l
    · subst hk
      rw [content?] at hold
      simpa [content?, hold] using hreplaced
    · simpa [content?, hk] using hreplaced
  · next hfile =>
    have hnone : t.content? l = none := by simpa [isFile] using hfile
    rw [content?] at hnone
    by_cases hk : k = l
    · subst hk
      simp [content?, List.lookup_append, hnone]
    · have hne : (k == l) = false := beq_eq_false_iff_ne.2 hk
      simp [content?, List.lookup_append, List.lookup_cons, hk, hne]

end FileTree

/-- The text that the last of some files to be changed at a location is given. -/
def lastText? (root : Location) (done : List FileScan) (l : Location) : Option Text :=
  (done.reverse.find? fun f => f.isChanged && root ++ f.location == l).map FileScan.fixedText

namespace Project

@[simp] theorem root_afterEffects (p : Project) (effects : List FixEffect) :
    (p.afterEffects effects).root = p.root := by
  induction effects generalizing p with
  | nil => rfl
  | cons e effects ih =>
    rw [afterEffects, List.foldl_cons]
    cases e <;> exact ih _

theorem afterEffects_append (p : Project) (es fs : List FixEffect) :
    p.afterEffects (es ++ fs) = (p.afterEffects es).afterEffects fs :=
  List.foldl_append

/-- Telling what became of detections leaves the disk alone. -/
theorem afterEffects_resolve (p : Project) (f : FileScan) :
    p.afterEffects (f.detections.map fun d =>
      .resolve d.fingerprint (Feedback.Status.ofFix d.fix.status)) = p := by
  rw [afterEffects, List.foldl_map]
  exact List.foldl_fixed' (fun _ => rfl) _

theorem content?_afterEffects_effects (p : Project) (f : FileScan) (l : Location) :
    (p.afterEffects f.effects).tree.content? l =
      if f.isChanged && p.root ++ f.location == l then some (Text.encode f.fixedText)
      else p.tree.content? l := by
  rw [FileScan.effects, afterEffects_append, afterEffects_resolve]
  cases hchanged : f.isChanged with
  | false => rfl
  | true =>
    show (p.tree.put (p.root ++ f.location) (Text.encode f.fixedText)).content? l = _
    rw [FileTree.content?_put]
    by_cases hl : l = p.root ++ f.location
    · simp [hl]
    · simp [hl, Ne.symm hl]

/-- **What is on disk once files are fixed**: the new texts of those that are changed, and all else
as it was. -/
theorem content?_afterEffects (p : Project) (done : List FileScan) (l : Location) :
    (p.afterEffects (done.flatMap FileScan.effects)).tree.content? l =
      ((lastText? p.root done l).map Text.encode).or (p.tree.content? l) := by
  induction done using List.reverseRecOn with
  | nil => rfl
  | append_singleton done f ih =>
    rw [List.flatMap_append, List.flatMap_singleton, afterEffects_append,
      content?_afterEffects_effects, ih, root_afterEffects, lastText?, lastText?,
      List.reverse_append, List.reverse_singleton, List.singleton_append, List.find?_cons]
    cases f.isChanged && p.root ++ f.location == l <;> rfl

end Project

/-! ## New texts -/

theorem fits_of_mem_scan {p : Project} {config : ProjectConfig} {f : FileScan}
    (hf : f ∈ (p.scan config).files) : ∀ d ∈ f.detections, d.fix.Fits f.source := by
  obtain ⟨g, hg, rfl⟩ := List.mem_map.1 (List.mem_of_mem_filter hf)
  obtain ⟨⟨l, content⟩, -, hg⟩ := List.mem_filterMap.1 hg
  obtain ⟨text, -, hg⟩ := Option.bind_eq_some_iff.1 hg
  obtain ⟨kind, -, hg⟩ := Option.bind_eq_some_iff.1 hg
  obtain ⟨file, hfile, hg⟩ := Option.bind_eq_some_iff.1 hg
  obtain rfl := Option.some.inj hg
  exact fun d hd => fits_of_mem_run config.engine hfile d (List.mem_of_mem_filter hd)

/-- **The new text of a file is what its edits come to**: those of a scan can all be applied. -/
theorem applyEdits?_of_mem_scan {p : Project} {config : ProjectConfig} {f : FileScan}
    (hf : f ∈ (p.scan config).files) :
    applyEdits? f.source (f.detections.flatMap fun d => d.fix.edits) = some f.fixedText := by
  have hfits : ∀ e ∈ f.detections.flatMap fun d => d.fix.edits, e.Fits f.source := by
    intro e he
    obtain ⟨d, hd, he⟩ := List.mem_flatMap.1 he
    exact fits_of_mem_scan hf d hd e he
  obtain ⟨new, hnew⟩ := exists_applyEdits? hfits
  rw [FileScan.fixedText, hnew, Option.getD_some]

/-! ## How far a run gets -/

/-- Whether a run gets through a file: the file stays as it is, or it can be written. -/
def passes (x : FileScan × Bool) : Bool := !x.1.isChanged || x.2

theorem FileScan.unresolved_eq (f : FileScan) :
    f.unresolved = f.detections.countP fun d => d.fix.status != .fixed := by
  have hsplit := f.detections.length_eq_countP_add_countP (fun d => d.fix.status == .fixed)
  have hnot : (f.detections.countP fun d => d.fix.status != .fixed) =
      f.detections.countP fun d => ¬ (d.fix.status == .fixed) = true := by
    refine List.countP_congr fun d _ => ?_
    simp
  rw [FileScan.unresolved, FileScan.fixed, hnot]
  omega

/-- What fixing files comes to, if all of them can be fixed. -/
def FixSummary.ofFiles (fs : List FileScan) : FixSummary :=
  let found := fs.flatMap FileScan.detections
  ⟨fs.filterMap FileScan.change?, found.countP fun d => d.fix.status == .fixed,
    found.countP fun d => d.fix.status != .fixed⟩

theorem FixSummary.ofFiles_cons (f : FileScan) (fs : List FileScan) :
    FixSummary.ofFiles (f :: fs) = (FixSummary.ofFiles fs).withFile f := by
  cases h : f.change? <;> simp [ofFiles, withFile, h, f.unresolved_eq, FileScan.fixed]

theorem fixFiles_true (files : List (FileScan × Bool)) :
    fixFiles true files = ⟨[], .ok (.ofFiles (files.map Prod.fst))⟩ := by
  induction files with
  | nil => rfl
  | cons x files ih =>
    rw [fixFiles, ih, List.map_cons, FixSummary.ofFiles_cons]
    rfl

/-- **How far a real run gets**: through the files up to the first that cannot be written, each with
all that fixing does to it. -/
theorem fixFiles_false (files : List (FileScan × Bool)) :
    fixFiles false files =
      ⟨((files.takeWhile passes).map Prod.fst).flatMap FileScan.effects,
        match files.dropWhile passes with
        | [] => .ok (.ofFiles (files.map Prod.fst))
        | x :: _ => .error x.1.location⟩ := by
  induction files with
  | nil => rfl
  | cons x files ih =>
    obtain ⟨f, writable⟩ := x
    rw [fixFiles, ih]
    cases hpass : passes (f, writable) with
    | false =>
      have hfail : (!false && f.isChanged && !writable) = true := by simpa [passes] using hpass
      rw [if_pos hfail, List.takeWhile_cons_of_neg (by simp [hpass]),
        List.dropWhile_cons_of_neg (by simp [hpass])]
      rfl
    | true =>
      have hgo : ¬ (!false && f.isChanged && !writable) = true := by
        simp only [passes, Bool.or_eq_true, Bool.not_eq_true'] at hpass
        rcases hpass with h | h <;> simp [h]
      rw [if_neg hgo, List.takeWhile_cons_of_pos hpass, List.dropWhile_cons_of_pos hpass,
        List.map_cons, List.map_cons, List.flatMap_cons, FixSummary.ofFiles_cons]
      cases files.dropWhile passes <;> rfl

/-! ## What a run did -/

namespace FixRun

/-- What a run wrote, in order. -/
def written (r : FixRun) : List (Location × Text) :=
  r.effects.filterMap fun
    | .write l text => some (l, text)
    | .resolve _ _ => none

/-- The run did to the files `done` all that fixing does to them, and nothing else: it wrote those
that are changed, told once what became of each of their detections, and left everything else on
disk as it was. -/
structure Finishes (r : FixRun) (done : List FileScan) : Prop where
  effects : r.effects = done.flatMap FileScan.effects
  written : r.written = (done.filter FileScan.isChanged).map fun f => (f.location, f.fixedText)
  told : r.operations = done.flatMap fun f => f.detections.map fun d =>
    .resolve d.fingerprint (if d.fix.status = .fixed then .fixed else .unresolved)
  disk : ∀ (p : Project) (l : Location), (p.afterEffects r.effects).tree.content? l =
    ((lastText? p.root done l).map Text.encode).or (p.tree.content? l)

theorem written_effects (f : FileScan) (outcome : Except Location FixSummary) :
    FixRun.written ⟨f.effects, outcome⟩ =
      if f.isChanged then [(f.location, f.fixedText)] else [] := by
  cases h : f.isChanged <;>
    simp [FixRun.written, FileScan.effects, h, List.filterMap_map]

theorem ofFix_eq (s : FixStatus) :
    Feedback.Status.ofFix s = if s = .fixed then .fixed else .unresolved := by
  cases s <;> rfl

theorem operations_effects (f : FileScan) (outcome : Except Location FixSummary) :
    FixRun.operations ⟨f.effects, outcome⟩ = f.detections.map fun d =>
      .resolve d.fingerprint (if d.fix.status = .fixed then .fixed else .unresolved) := by
  cases h : f.isChanged <;>
    simp [FixRun.operations, FileScan.effects, h, List.filterMap_map, ofFix_eq]

/-- What a run did follows from what it did to each file. -/
theorem finishes_of_effects {r : FixRun} {done : List FileScan}
    (h : r.effects = done.flatMap FileScan.effects) : r.Finishes done where
  effects := h
  written := by
    rw [FixRun.written, h, List.filterMap_flatMap]
    induction done generalizing r with
    | nil => rfl
    | cons f done ih =>
      have hfile := written_effects f r.outcome
      rw [FixRun.written] at hfile
      rw [List.flatMap_cons, hfile, ih (r := ⟨_, r.outcome⟩) rfl, List.filter_cons]
      split <;> rfl
  told := by
    rw [FixRun.operations, h, List.filterMap_flatMap]
    exact List.flatMap_congr fun f _ => operations_effects f r.outcome
  disk p l := by rw [h, p.content?_afterEffects]

end FixRun

/-- **Fixing finishes the files before a failure, and no other.** A dry run finishes no file and
comes to what a real run without failures comes to. A real run without failures finishes all files.
A real run that fails to write a file finishes the files before it, and neither writes nor tells
anything of that file or a later one. The new texts are what the edits of a scan come to. -/
theorem fix_finishes_before_failure (files : List (FileScan × Bool)) :
    ((fixFiles true files).Finishes [] ∧
        (fixFiles true files).outcome = .ok (.ofFiles (files.map Prod.fst))) ∧
      ((∀ x ∈ files, x.1.isChanged = true → x.2 = true) →
        (fixFiles false files).Finishes (files.map Prod.fst) ∧
          (fixFiles false files).outcome = (fixFiles true files).outcome) ∧
      (∀ before f after, files = before ++ (f, false) :: after → f.isChanged = true →
        (∀ x ∈ before, x.1.isChanged = true → x.2 = true) →
          (fixFiles false files).Finishes (before.map Prod.fst) ∧
            (fixFiles false files).outcome = .error f.location) ∧
      ∀ (p : Project) (config : ProjectConfig), ∀ f ∈ (p.scan config).files,
        applyEdits? f.source (f.detections.flatMap fun d => d.fix.edits) = some f.fixedText := by
  have hpass : ∀ {x : FileScan × Bool}, (x.1.isChanged = true → x.2 = true) → passes x = true := by
    intro x hx
    cases hchanged : x.1.isChanged
    · simp [passes, hchanged]
    · simp [passes, hx hchanged]
  refine ⟨?_, fun hall => ?_, fun before f after hfiles hchanged hbefore => ?_,
    fun p config f hf => applyEdits?_of_mem_scan hf⟩
  · rw [fixFiles_true]
    exact ⟨FixRun.finishes_of_effects rfl, rfl⟩
  · have hthrough : ∀ x ∈ files, passes x = true := fun x hx => hpass (hall x hx)
    rw [fixFiles_false, fixFiles_true, List.takeWhile_eq_self_iff.2 hthrough,
      List.dropWhile_eq_nil_iff.2 hthrough]
    exact ⟨FixRun.finishes_of_effects rfl, rfl⟩
  · have hthrough : ∀ x ∈ before, passes x = true := fun x hx => hpass (hbefore x hx)
    have hstop : ¬ passes (f, false) = true := by simp [passes, hchanged]
    rw [hfiles, fixFiles_false, List.takeWhile_append_of_pos hthrough,
      List.dropWhile_append_of_pos hthrough, List.takeWhile_cons_of_neg hstop,
      List.dropWhile_cons_of_neg hstop, List.append_nil]
    exact ⟨FixRun.finishes_of_effects rfl, rfl⟩

/-- A file of one character with one detection, which is fixed by another character or left to
someone to look at. -/
def oneCharacterFile (name : String) (replacement : Option Char) : FileScan :=
  let edits := replacement.toList.map fun c => ⟨⟨0, 1⟩, [c]⟩
  let status := if replacement.isSome then FixStatus.fixed else .unresolved
  ⟨[name.toList], ['a'], [⟨.mapperDocument, [], ⟨0, 1⟩, ['a'], name.toList, ⟨edits, status⟩⟩]⟩

/-- The third of four files cannot be written; the second need not be, and what was found in it is
told to be unresolved. -/
theorem fix_finishes_before_thirdFile :
    let first := oneCharacterFile "A.xml" (some 'b')
    let second := oneCharacterFile "B.xml" none
    let third := oneCharacterFile "C.xml" (some 'b')
    let files := [(first, true), (second, false), (third, false), (first, true)]
    third.isChanged = true ∧ second.isChanged = false ∧
      (fixFiles false files).Finishes [first, second] ∧
      (fixFiles false files).operations =
        (first.detections.map fun d => .resolve d.fingerprint .fixed) ++
          second.detections.map (fun d => .resolve d.fingerprint .unresolved) ∧
      (fixFiles false files).outcome = .error third.location := by
  intro first second third files
  have hthird : third.isChanged = true := by decide +kernel
  have hsecond : second.isChanged = false := by decide +kernel
  have hbefore : ∀ x ∈ [(first, true), (second, false)], x.1.isChanged = true → x.2 = true := by
    simp [hsecond]
  obtain ⟨hdone, hfailed⟩ := (fix_finishes_before_failure files).2.2.1
    [(first, true), (second, false)] third [(first, true)] rfl hthird hbefore
  exact ⟨hthird, hsecond, hdone, hdone.told, hfailed⟩

end SqlInjection
