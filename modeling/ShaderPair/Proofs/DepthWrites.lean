import ShaderPair.Proofs.DirectiveComments
import ShaderPair.Proofs.LineNumbers

/-!
# Written depths

A fragment stage has an output for the depth if its code writes one, and a write in a line comment
does not count.  The search for writes (`StageStruct.writesDepth`) takes no comments out: it looks
at what stands on a line in front of the first write there.  It finds a write exactly if one is
left when the line comments are taken out (`StageStruct.writesDepth_eq_occurs`).  For line comments
are taken out line by line (`Comment.lines_removeLines`), what is left of a line reaches to its
first opener (`Comment.exists_removeLines_append`), and no occurrence of a word without slashes
reaches over an opener.
-/

namespace ShaderPair

namespace Text

variable {l r s t w : Text}

/-! ### Occurrences of words -/

theorem occurs_iff :
  occurs w t ↔ w <:+: t
  := by
  rw [occurs, Option.isSome_iff_exists]
  simp only [indexOf?_eq_some_iff]
  constructor
  · rintro ⟨i, hi, -⟩
    exact hi.isInfix.trans (List.drop_suffix i t).isInfix
  · rintro ⟨s, r, rfl⟩
    have hoccurs : w <+: (s ++ w ++ r).drop s.length := by
      rw [List.append_assoc, List.drop_left]
      apply List.prefix_append
    exact exists_isLeast (P := fun j => w <+: (s ++ w ++ r).drop j) hoccurs

/-- The part of a text behind its last line break. -/
def lastLine (t : Text) : Text := (lines t).getLast (lines_ne_nil t)

theorem unlines_concat (ls : List Text) (l : Text) :
  unlines (ls ++ [l]) = broken ls ++ l
  := by
  induction ls with
  | nil => rfl
  | cons u ls ih =>
    rw [List.cons_append, unlines_cons u (by simp), ih, broken_cons, List.append_assoc]
    rfl

/-- A text is some lines with their breaks, and its last line. -/
theorem exists_broken_lastLine (t : Text) :
  ∃ ls, (∀ l ∈ ls, '\n' ∉ l) ∧ t = broken ls ++ lastLine t
  := by
  refine ⟨(lines t).dropLast, ?_, ?_⟩
  · intro l hl
    apply not_mem_of_mem_lines (List.mem_of_mem_dropLast hl)
  · rw [← unlines_concat, lastLine, List.dropLast_append_getLast, unlines_lines]

theorem not_mem_lastLine (t : Text) :
  '\n' ∉ lastLine t
  := not_mem_of_mem_lines (List.getLast_mem (lines_ne_nil t))

theorem lastLine_broken_append {ls : List Text} (hls : ∀ l ∈ ls, '\n' ∉ l) (hl : '\n' ∉ l) :
  lastLine (broken ls ++ l) = l
  := by
  have hlines : lines (broken ls ++ l) = ls ++ [l] := by
    rw [lines_broken hls, lines, splitOn_of_not_mem hl]
  simp only [lastLine, hlines, List.getLast_append_singleton]

/-- What stands between line breaks is a line. -/
theorem mem_lines_of_broken
    {ls : List Text} (hls : ∀ l ∈ ls, '\n' ∉ l) (hl : '\n' ∉ l) (hr : ∀ c ∈ r.head?, c = '\n') :
  l ∈ lines (broken ls ++ (l ++ r))
  := by
  rw [lines_broken hls, List.mem_append]
  right
  cases r with
  | nil =>
    rw [List.append_nil, lines, splitOn_of_not_mem hl]
    apply List.mem_singleton_self
  | cons c r =>
    rw [hr c rfl, lines_append hl]
    apply List.mem_cons_self

/-- A word without line breaks occurs on a line, and what is in front of it there is what is behind
the last line break in front of it. -/
theorem exists_mem_lines_iff {P : Text → Prop} (hw : '\n' ∉ w) :
  (∃ l ∈ lines t, ∃ s r, l = s ++ (w ++ r) ∧ P s) ↔ ∃ s r, t = s ++ (w ++ r) ∧ P (lastLine s)
  := by
  constructor
  · rintro ⟨l, hl, s, r, rfl, hP⟩
    have hbreak := not_mem_of_mem_lines hl
    simp only [List.mem_append, not_or] at hbreak
    obtain ⟨above, below, hlines⟩ := List.append_of_mem hl
    have habove : ∀ u ∈ above, '\n' ∉ u := by
      intro u hu
      apply not_mem_of_mem_lines (t := t)
      rw [hlines]
      exact List.mem_append_left _ hu
    obtain ⟨rest, ht, -⟩ := exists_broken hlines
    refine ⟨broken above ++ s, r ++ rest, by simp [ht], ?_⟩
    rwa [lastLine_broken_append habove hbreak.1]
  · rintro ⟨s, r, rfl, hP⟩
    obtain ⟨above, habove, hs⟩ := exists_broken_lastLine s
    have hline : '\n' ∉ lastLine s ++ (w ++ r.takeWhile (· != '\n')) := by
      simp only [List.mem_append, not_or]
      exact ⟨not_mem_lastLine s, hw, Comment.not_mem_takeWhile_line⟩
    have hmem := mem_lines_of_broken habove hline (Comment.head?_dropWhile_line (r := r))
    refine ⟨_, ?_, lastLine s, r.takeWhile (· != '\n'), rfl, hP⟩
    convert hmem using 2
    conv_lhs => rw [hs, ← List.takeWhile_append_dropWhile (p := (· != '\n')) (l := r)]
    simp only [List.append_assoc]

/-- A word without line breaks occurs in a text if it occurs on one of its lines. -/
theorem infix_iff_exists_mem_lines (hw : '\n' ∉ w) :
  w <:+: t ↔ ∃ l ∈ lines t, w <:+: l
  := by
  have hiff := exists_mem_lines_iff (t := t) (P := fun _ => True) hw
  simp only [and_true] at hiff
  simp only [List.IsInfix, List.append_assoc, eq_comm (b := t), ← hiff]
  simp only [eq_comm]

end Text

/-! ### Lines without their comments -/

namespace Comment

variable {l s t w : Text}

theorem not_mem_removeLines (hl : '\n' ∉ l) :
  '\n' ∉ removeLines l
  := by
  rw [← List.count_eq_zero, ← count_breaks, breaks_removeLines, count_breaks]
  exact List.count_eq_zero.mpr hl

/-- A comment goes no further than its line. -/
theorem removeLines_append_break (hl : '\n' ∉ l) (t : Text) :
  removeLines (l ++ '\n' :: t) = removeLines l ++ '\n' :: removeLines t
  := by
  have hbreak : removeLines ('\n' :: t) = '\n' :: removeLines t := removeLines_cons (by simp)
  induction l using lines_induction with
  | nil => exact hbreak
  | line r ih =>
    simp only [List.mem_cons, not_or] at hl
    have hnil : removeLines ('/' :: '/' :: r) = [] := by
      have hline := removeLines_append_line (t := []) hl.2.2 (by simp)
      rwa [List.append_nil] at hline
    rw [hnil, List.cons_append, List.cons_append, removeLines_append_line hl.2.2 (by simp), hbreak]
    rfl
  | char c r hc ih =>
    rw [List.mem_cons, not_or] at hl
    rw [List.cons_append, removeLines_cons (cons_append_ne_pair hc (by simp)), ih hl.2,
      removeLines_cons hc]
    rfl

/-- Line comments are taken out line by line. -/
theorem lines_removeLines (t : Text) :
  Text.lines (removeLines t) = (Text.lines t).map removeLines
  := Text.lines_of_linewise (fun _ t hl => removeLines_append_break hl t)
    (fun _ hl => not_mem_removeLines hl) t

/-- What is left of a line reaches to its first opener. -/
theorem exists_removeLines_append (hl : '\n' ∉ l) :
  ∃ rest, l = removeLines l ++ rest ∧ (rest = [] ∨ ∃ r, rest = '/' :: '/' :: r)
  := by
  induction l using lines_induction with
  | nil => exact ⟨[], rfl, .inl rfl⟩
  | line r ih =>
    simp only [List.mem_cons, not_or] at hl
    have hline := removeLines_append_line (t := []) hl.2.2 (by simp)
    rw [List.append_nil] at hline
    exact ⟨'/' :: '/' :: r, by rw [hline]; rfl, .inr ⟨r, rfl⟩⟩
  | char c r hc ih =>
    rw [List.mem_cons, not_or] at hl
    obtain ⟨rest, hr, hrest⟩ := ih hl.2
    refine ⟨rest, ?_, hrest⟩
    rw [removeLines_cons hc, List.cons_append, ← hr]

/-- A word without slashes is left of a line exactly if it occurs there without an opener in front
of it. -/
theorem infix_removeLines_iff (hne : w ≠ []) (hslash : '/' ∉ w) (hl : '\n' ∉ l) :
  w <:+: removeLines l ↔ ∃ s r, l = s ++ (w ++ r) ∧ ¬ ['/', '/'] <:+: s
  := by
  obtain ⟨rest, hsplit, hrest⟩ := exists_removeLines_append hl
  have hfree := not_infix_removeLines l
  constructor
  · rintro ⟨s, r, hword⟩
    refine ⟨s, r ++ rest, ?_, ?_⟩
    · rw [hsplit, ← hword]
      simp only [List.append_assoc]
    · intro hopener
      apply hfree
      rw [← hword, List.append_assoc]
      exact hopener.trans (List.prefix_append s _).isInfix
  · rintro ⟨s, r, hword, hopener⟩
    rcases hrest with rfl | ⟨r', rfl⟩
    · rw [List.append_nil] at hsplit
      rw [← hsplit, hword]
      exact ⟨s, r, List.append_assoc s w r⟩
    · rw [hsplit, List.append_eq_append_iff] at hword
      rcases hword with ⟨a, hs, ha⟩ | ⟨a, hkept, ha⟩
      · -- The opener is in front of the word, or the word starts with a slash.
        obtain ⟨x, w, rfl⟩ := List.exists_cons_of_ne_nil hne
        rw [List.mem_cons, not_or] at hslash
        match a with
        | [] => exact absurd (List.cons.inj ha).1 hslash.1
        | [y] => exact absurd (List.cons.inj (List.cons.inj ha).2).1 hslash.1
        | y :: z :: a =>
          obtain ⟨rfl, htail⟩ := List.cons.inj ha
          obtain ⟨rfl, -⟩ := List.cons.inj htail
          exact absurd ⟨removeLines l, a, by simp [hs]⟩ hopener
      · rw [hkept]
        have hstarts : w <+: a ++ '/' :: '/' :: r' := ⟨r, ha⟩
        rw [Text.prefix_append_cons_iff hslash] at hstarts
        exact hstarts.isInfix.trans (List.suffix_append s a).isInfix

end Comment

/-! ### Writes -/

namespace StageStruct

variable {l : Text}

theorem text_depthOutput :
  depthOutput = ['f', 'r', 'a', 'g', 'm', 'e', 'n', 't', 'O', 'u', 't', 'p', 'u', 't', 's', '.',
    'f', 'r', 'a', 'g', 'D', 'e', 'p', 't', 'h']
  := Text.ofString_ofList _

/-- The first write on a line tells whether there is one in front of all openers. -/
theorem lineWritesDepth_iff :
  lineWritesDepth l ↔ ∃ s r, l = s ++ (depthOutput ++ r) ∧ ¬ ['/', '/'] <:+: s
  := by
  rw [lineWritesDepth]
  constructor
  · intro hwrites
    split at hwrites
    · cases hwrites
    next i hi =>
      obtain ⟨⟨r, hr⟩, -⟩ := Text.indexOf?_eq_some_iff.mp hi
      refine ⟨l.take i, r, ?_, ?_⟩
      · rw [hr, List.take_append_drop]
      · rw [← Comment.text_lineOpener, ← Text.occurs_iff]
        simpa using hwrites
  · rintro ⟨s, r, rfl, hopener⟩
    have hoccurs : depthOutput <+: (s ++ (depthOutput ++ r)).drop s.length := by
      rw [List.drop_left]
      apply List.prefix_append
    split
    next hnone =>
      obtain ⟨i, hi⟩ := Text.exists_isLeast
        (P := fun j => depthOutput <+: (s ++ (depthOutput ++ r)).drop j) hoccurs
      rw [Text.indexOf?_eq_some_iff.mpr hi] at hnone
      cases hnone
    next i hi =>
      have hle : i ≤ s.length := (Text.indexOf?_eq_some_iff.mp hi).2 hoccurs
      rw [Bool.not_eq_true', ← Bool.not_eq_true, Text.occurs_iff, Comment.text_lineOpener,
        List.take_append_of_le_length hle]
      intro hopener'
      exact hopener (hopener'.trans (List.take_prefix i s).isInfix)

/-- A stage writes a depth exactly if a write is left when its line comments are taken out.  That
is, if there is a write with no opener of a line comment in front of it on its line. -/
theorem writesDepth_eq_occurs (code : Text) :
  writesDepth code = Text.occurs depthOutput (Comment.removeLines code) ∧
    (writesDepth code ↔ ∃ s r, code = s ++ (depthOutput ++ r) ∧ ¬ "//" <:+: Text.lastLine s)
  := by
  have hne : depthOutput ≠ [] := by simp [text_depthOutput]
  have hslash : '/' ∉ depthOutput := by simp [text_depthOutput]
  have hbreak : '\n' ∉ depthOutput := by simp [text_depthOutput]
  constructor
  · rw [Bool.eq_iff_iff, writesDepth, List.any_eq_true, Text.occurs_iff,
      Text.infix_iff_exists_mem_lines hbreak, Comment.lines_removeLines]
    simp only [List.mem_map, exists_exists_and_eq_and]
    apply exists_congr
    intro l
    apply and_congr_right
    intro hl
    rw [lineWritesDepth_iff,
      Comment.infix_removeLines_iff hne hslash (Text.not_mem_of_mem_lines hl)]
  · have hlines := Text.exists_mem_lines_iff (t := code) (P := fun s => ¬ ['/', '/'] <:+: s) hbreak
    rw [Comment.text_lineOpener, ← hlines, writesDepth, List.any_eq_true]
    simp only [lineWritesDepth_iff]

/-- Writes in comments do not count, whatever else is on their line or behind them. -/
example :
  let comments : Text := "a / b; // fragmentOutputs.fragDepth\n/// // fragmentOutputs.fragDepth"
  writesDepth comments = false ∧ writesDepth (comments ++ "\nfragmentOutputs.fragDepth//") = true
  := by
  decide +kernel

end StageStruct

end ShaderPair
