import ShaderPair.Proofs.CommentPasses
import ShaderPair.Proofs.StageAgreement

/-!
# Line numbers

What is found on a line of a text that was worked on is found on the same line of the source.  When
comments are taken out, all line breaks stay, in either pass (`Comment.breaks_removeBlocks`,
`Comment.breaks_removeLines`), and no opener of a line comment is left
(`Comment.not_infix_remove`).  A line of a stage stays, vanishes, or gets an annotation in front of
it (`KeepsLine`), so that each line comes out at its place (`line_numbers_kept`).
-/

namespace ShaderPair

namespace Comment

/-! ### Line breaks -/

theorem breaks_breaks (t : Text) :
  breaks (breaks t) = breaks t
  := List.filter_eq_self.mpr fun _ hc => (List.mem_filter.mp hc).2

/-- What is no line break makes no difference for the line breaks. -/
theorem breaks_append_of_not_mem {s : Text} (h : '\n' ∉ s) (t : Text) :
  breaks (s ++ t) = breaks t
  := by
  rw [breaks_append, breaks_of_not_mem h, List.nil_append]

theorem breaks_cons_congr {c : Char} {r s : Text} (h : breaks r = breaks s) :
  breaks (c :: r) = breaks (c :: s)
  := by
  rw [← List.singleton_append, breaks_append, h, ← breaks_append, List.singleton_append]

theorem count_breaks (t : Text) :
  (breaks t).count '\n' = t.count '\n'
  := List.count_filter (by decide)

/-- A block comment is replaced by its line breaks. -/
theorem breaks_removeBlocks (t : Text) :
  breaks (removeBlocks t) = breaks t
  := by
  induction t using blocks_induction with
  | nil => rfl
  | closed s b r hs ih =>
    rw [removeBlocks_closed hs, breaks_append, breaks_breaks, ih, eq_of_closed? hs]
    have hopener : '\n' ∉ ['/', '*'] := by decide
    have hcloser : '\n' ∉ ['*', '/'] := by decide
    calc breaks b ++ breaks r = breaks b ++ breaks (['*', '/'] ++ r) := by
          rw [breaks_append_of_not_mem hcloser]
      _ = breaks (['/', '*'] ++ (b ++ (['*', '/'] ++ r))) := by
          rw [breaks_append_of_not_mem hopener, breaks_append b]
  | opened s hs => rw [removeBlocks_opened hs]
  | char c r hc ih =>
    rw [removeBlocks_cons hc]
    apply breaks_cons_congr ih

@[elab_as_elim]
theorem lines_induction
    {motive : Text → Prop} (nil : motive [])
    (line : ∀ r, motive (r.dropWhile (· != '\n')) → motive ('/' :: '/' :: r))
    (char : ∀ c r, (∀ s, c :: r ≠ '/' :: '/' :: s) → motive r → motive (c :: r)) (t : Text) :
  motive t
  := by
  induction h : t.length using Nat.strongRecOn generalizing t with
  | ind n ih =>
    subst h
    cases t with
    | nil => exact nil
    | cons c r =>
      by_cases hopen : ∃ s, c :: r = '/' :: '/' :: s
      · obtain ⟨s, hs⟩ := hopen
        rw [hs] at ih ⊢
        apply line
        apply ih _ _ _ rfl
        have hle := (List.dropWhile_suffix (l := s) (· != '\n')).length_le
        simp only [List.length_cons]
        omega
      · exact char c r (not_exists.mp hopen) (ih r.length (Nat.lt_succ_self _) r rfl)

/-- A line comment ends in front of the line break. -/
theorem breaks_removeLines (t : Text) :
  breaks (removeLines t) = breaks t
  := by
  induction t using lines_induction with
  | nil => rfl
  | line r ih =>
    have hopener : '\n' ∉ '/' :: '/' :: r.takeWhile (· != '\n') := by
      simpa using not_mem_takeWhile_line (r := r)
    rw [removeLines_line, ih, ← breaks_append_of_not_mem hopener, List.cons_append,
      List.cons_append, List.takeWhile_append_dropWhile]
  | char c r hc ih =>
    rw [removeLines_cons hc]
    apply breaks_cons_congr ih

/-- Taking comments out leaves all line breaks. -/
theorem breaks_remove (t : Text) :
  breaks (remove t) = breaks t
  := by
  rw [remove, breaks_removeLines, breaks_removeBlocks]

/-! ### Openers of line comments -/

/-- A slash in front of a text without its line comments was there before. -/
theorem exists_of_removeLines_eq_slash {t s : Text} (h : removeLines t = '/' :: s) :
  ∃ r, t = '/' :: r
  := by
  cases t with
  | nil => cases h
  | cons c r =>
    by_cases hopen : ∃ s, c :: r = '/' :: '/' :: s
    · obtain ⟨s, hs⟩ := hopen
      exact ⟨'/' :: s, hs⟩
    · rw [removeLines_cons (not_exists.mp hopen)] at h
      obtain ⟨rfl, -⟩ := List.cons.inj h
      exact ⟨r, rfl⟩

theorem not_infix_removeLines (t : Text) :
  ¬ ['/', '/'] <:+: removeLines t
  := by
  induction t using lines_induction with
  | nil => decide
  | line r ih =>
    rw [removeLines_line]
    exact ih
  | char c r hc ih =>
    rw [removeLines_cons hc, List.infix_cons_iff, not_or]
    refine ⟨?_, ih⟩
    rintro ⟨s, hs⟩
    obtain ⟨rfl, hrest⟩ := List.cons.inj hs
    obtain ⟨r, rfl⟩ := exists_of_removeLines_eq_slash hrest.symm
    exact hc r rfl

/-- Without comments there is no opener of a line comment. -/
theorem not_infix_remove (t : Text) :
  ¬ ("//" : Text) <:+: remove t
  := by
  rw [text_lineOpener]
  apply not_infix_removeLines

end Comment

/-! ### Lines of a stage -/

/-- A line stays, vanishes, or gets an annotation in front of it. -/
def KeepsLine (line out : Text) : Prop :=
  out = line ∨ out = [] ∨ ∃ slot : Slot, out = slot.annotation ++ line

theorem LineBecomes.keepsLine {r : Resources} {line out : Text} (h : LineBecomes r line out) :
  KeepsLine line out
  := by
  cases h with
  | kept => left; rfl
  | dropped => right; left; rfl
  | annotated _ ha =>
    obtain ⟨t, -, rfl⟩ := Option.map_eq_some_iff.mp ha
    right; right
    use t.slot

/-- The comments of a text are taken out without a change to its line breaks, and no opener of a
line comment is left.  What comes out of a stage has as many lines as the stage, and each of its
lines is the one at its place, nothing, or that one behind an annotation. -/
theorem line_numbers_kept
    (constants : OrderedMap Text Text) (stage : Stage) (code : Text) (c : Context) :
  (Comment.remove code).count '\n' = code.count '\n' ∧
  ¬ ("//" : Text) <:+: Comment.remove code ∧
  ∀ out, (Compile.processStage constants stage code c).result = .ok out →
    (Text.lines out).length = (Text.lines code).length ∧
      List.Forall₂ KeepsLine (Text.lines code) (Text.lines out)
  := by
  refine ⟨?_, Comment.not_infix_remove code, ?_⟩
  · rw [← Comment.count_breaks, Comment.breaks_remove, Comment.count_breaks]
  · intro out h
    have hlines := (Compile.linesBecome_of_processStage h).imp fun _ _ => LineBecomes.keepsLine
    exact ⟨hlines.length_eq.symm, hlines⟩

/-- A stage with a plain uniform, a texture and a line of code. -/
theorem line_numbers_kept_texture :
  let code : Text := "uniform u : f32;\nvar t : texture_2d<f32>;\nlet x = u;"
  let out : Text := "\n@group(0) @binding(0) var t : texture_2d<f32>;\nlet x = u;"
  (Compile.processStage ∅ .vertex code (.fresh .pure {} ∅)).result = .ok out ∧
    List.Forall₂ KeepsLine (Text.lines code) (Text.lines out)
  := by
  intro code out
  have h : (Compile.processStage ∅ .vertex code (.fresh .pure {} ∅)).result = .ok out := by
    decide +kernel
  exact ⟨h, ((line_numbers_kept ∅ .vertex code _).2.2 out h).2⟩

end ShaderPair
