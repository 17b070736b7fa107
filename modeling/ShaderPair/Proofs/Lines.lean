import ShaderPair.Proofs.Words
import Mathlib.Data.List.DropRight

/-!
# Lines and blanks

No blank belongs to an identifier, so blanks around a text are words of their own, and trimming
leaves the words in between (`Text.exists_words_trim`).  A text without blanks at its ends starts
and ends with a solid word (`Text.isSolid_of_bare`).  A line break is a word as well: the words of
a text are those of its lines with breaks between them (`Text.words_line`,
`Text.words_infix_of_mem_lines`).
-/

namespace ShaderPair

namespace Text

/-! ### Blanks -/

/-- The code points of the blanks. -/
def blankPoints : List Nat :=
  [0x09, 0x0A, 0x0B, 0x0C, 0x0D, 0x1C, 0x1D, 0x1E, 0x1F, 0x20, 0x85, 0xA0, 0x1680, 0x2000, 0x2001,
    0x2002, 0x2003, 0x2004, 0x2005, 0x2006, 0x2007, 0x2008, 0x2009, 0x200A, 0x2028, 0x2029,
    0x202F, 0x205F, 0x3000]

theorem mem_blankPoints {c : Char} (h : isBlank c) :
  c.toNat ∈ blankPoints
  := by
  simp only [isBlank, Bool.or_eq_true, Bool.and_eq_true, decide_eq_true_eq, beq_iff_eq, or_assoc]
    at h
  have htabs : ∀ n ≤ 0x0D, 0x09 ≤ n → n ∈ blankPoints := by decide
  have hseparators : ∀ n ≤ 0x20, 0x1C ≤ n → n ∈ blankPoints := by decide
  have hspaces : ∀ k ≤ 0x0A, 0x2000 + k ∈ blankPoints := by decide
  rcases h with ⟨hlo, hhi⟩ | ⟨hlo, hhi⟩ | h | h | h | ⟨hlo, hhi⟩ | h
  · exact htabs _ hhi hlo
  · exact hseparators _ hhi hlo
  · simp [h, blankPoints]
  · simp [h, blankPoints]
  · simp [h, blankPoints]
  · obtain ⟨k, hk⟩ := Nat.exists_eq_add_of_le hlo
    rw [hk]
    apply hspaces
    omega
  · rcases h with h | h | h | h | h <;> simp [h, blankPoints]

/-- No blank belongs to an identifier. -/
theorem not_isWord_of_isBlank {c : Char} (h : isBlank c) :
  ¬ isWord c
  := by
  have hpoints : ∀ n ∈ blankPoints, ¬ isWord (Char.ofNat n) := by decide +kernel
  have hc := hpoints c.toNat (mem_blankPoints h)
  rw [Char.ofNat_toNat] at hc
  exact hc

theorem isBlank_of_isGap {c : Char} (h : isGap c) :
  isBlank c
  := by
  rw [isGap, Bool.or_eq_true, beq_iff_eq, beq_iff_eq] at h
  rcases h with rfl | rfl <;> decide

theorem not_isWord_of_isGap {c : Char} (h : isGap c) :
  ¬ isWord c
  := not_isWord_of_isBlank (isBlank_of_isGap h)

/-! ### Trimming -/

/-- Neither the first nor the last character is blank. -/
def Bare (t : Text) : Prop := (∀ c ∈ t.head?, ¬ isBlank c) ∧ ∀ c ∈ t.getLast?, ¬ isBlank c

theorem dropEndWhile_eq (p : Char → Bool) (t : Text) :
  dropEndWhile p t = t.rdropWhile p
  := rfl

/-- Taking characters away at the end leaves those in front. -/
theorem exists_dropEndWhile (p : Char → Bool) (t : Text) :
  ∃ s, (∀ c ∈ s, p c) ∧ t = dropEndWhile p t ++ s
  := by
  use (t.reverse.takeWhile p).reverse
  constructor
  · intro c hc
    apply List.mem_takeWhile_imp (List.mem_reverse.mp hc)
  · rw [dropEndWhile, ← List.reverse_append, List.takeWhile_append_dropWhile, List.reverse_reverse]

/-- A text is what is left of it by trimming, with blanks around. -/
theorem exists_trim (t : Text) :
  ∃ s s', (∀ c ∈ s, isBlank c) ∧ (∀ c ∈ s', isBlank c) ∧ t = s ++ (trim t ++ s')
  := by
  obtain ⟨s', hs', ht⟩ := exists_dropEndWhile isBlank (t.dropWhile isBlank)
  refine ⟨t.takeWhile isBlank, s', fun c hc => List.mem_takeWhile_imp hc, hs', ?_⟩
  rw [trim, trimOf, ← ht, List.takeWhile_append_dropWhile]

theorem infix_trim (t : Text) :
  trim t <:+: t
  := by
  obtain ⟨s, s', -, -, ht⟩ := exists_trim t
  use s, s'
  rw [List.append_assoc]
  exact ht.symm

theorem bare_trim (t : Text) :
  Bare (trim t)
  := by
  rw [trim, trimOf, dropEndWhile_eq]
  constructor
  · intro c hc
    have hstart := List.rdropWhile_prefix isBlank (t.dropWhile isBlank)
    obtain ⟨s, hs⟩ := hstart
    have hhead : (t.dropWhile isBlank).head? = some c := by
      rw [← hs]
      apply List.mem_head?_append_of_mem_head? hc
    have hnot := List.head?_dropWhile_not isBlank t
    rw [hhead] at hnot
    simpa using hnot
  · intro c hc
    have hne : (t.dropWhile isBlank).rdropWhile isBlank ≠ [] := by
      intro hnil
      rw [hnil] at hc
      cases hc
    have hlast := List.rdropWhile_last_not isBlank (t.dropWhile isBlank) hne
    rw [List.getLast?_eq_some_getLast hne] at hc
    cases hc
    exact hlast

/-- The characters of a class around a text are removed. -/
theorem trimOf_append
    {p : Char → Bool} {s t s' : Text} (hs : ∀ c ∈ s, p c) (hs' : ∀ c ∈ s', p c)
    (ht : (∀ c ∈ t.head?, ¬ p c) ∧ ∀ c ∈ t.getLast?, ¬ p c) :
  trimOf p (s ++ (t ++ s')) = t
  := by
  rw [trimOf, List.dropWhile_append_of_pos hs, dropEndWhile]
  cases t with
  | nil =>
    rw [List.nil_append, List.dropWhile_eq_nil_iff.mpr hs']
    rfl
  | cons c r =>
    have hhead : ¬ p c := ht.1 c rfl
    have hlast : ¬ p ((c :: r).getLast (List.cons_ne_nil c r)) :=
      ht.2 _ (List.getLast?_eq_some_getLast _)
    rw [List.cons_append, List.dropWhile_cons_of_neg hhead, ← List.cons_append,
      List.reverse_append, List.dropWhile_append_of_pos (by simpa using hs')]
    apply List.rdropWhile_eq_self_iff.mpr
    intro _
    exact hlast

/-- The blanks around a text are removed. -/
theorem trim_append
    {s t s' : Text} (hs : ∀ c ∈ s, isBlank c) (hs' : ∀ c ∈ s', isBlank c) (ht : Bare t) :
  trim (s ++ (t ++ s')) = t
  := trimOf_append hs hs' ht

/-- The words of a text are those of what is left of it by trimming, with single blanks around. -/
theorem exists_words_trim (t : Text) :
  ∃ s s' : Text, (∀ c ∈ s, isBlank c) ∧ (∀ c ∈ s', isBlank c) ∧ t = s ++ (trim t ++ s') ∧
    words t = singles s ++ (words (trim t) ++ singles s')
  := by
  obtain ⟨s, s', hs, hs', ht⟩ := exists_trim t
  use s, s', hs, hs', ht
  have hafter : Apart (trim t) s' := by
    apply apart_of_head?
    intro c hc
    apply not_isWord_of_isBlank (hs' c (List.mem_of_mem_head? hc))
  conv_lhs => rw [ht]
  rw [words_append_of_not_isWord fun c hc => not_isWord_of_isBlank (hs c hc), words_append hafter,
    words_of_not_isWord fun c hc => not_isWord_of_isBlank (hs' c hc)]

/-- Gaps taken away at both ends make no difference for trimming. -/
theorem trim_strip (t : Text) :
  trim (dropEndWhile isGap (t.dropWhile isGap)) = trim t
  := by
  obtain ⟨g, hg, ht⟩ := exists_dropEndWhile isGap (t.dropWhile isGap)
  obtain ⟨s, s', hs, hs', hstripped⟩ := exists_trim (dropEndWhile isGap (t.dropWhile isGap))
  have hbefore : ∀ c ∈ t.takeWhile isGap ++ s, isBlank c := by
    rw [List.forall_mem_append]
    exact ⟨fun c hc => isBlank_of_isGap (List.mem_takeWhile_imp hc), hs⟩
  have hafter : ∀ c ∈ s' ++ g, isBlank c := by
    rw [List.forall_mem_append]
    exact ⟨hs', fun c hc => isBlank_of_isGap (hg c hc)⟩
  rw [← trim_append hbefore hafter (bare_trim _)]
  congr 1
  conv_rhs => rw [← List.takeWhile_append_dropWhile (p := isGap) (l := t), ht, hstripped]
  simp only [List.append_assoc]

/-! ### Solid words -/

/-- A word without blanks. -/
def IsSolid (w : Text) : Prop := ∀ c ∈ w, ¬ isBlank c

theorem isSolid_of_isIdentifier {w : Text} (h : IsIdentifier w) :
  IsSolid w
  := fun c hc hblank => not_isWord_of_isBlank hblank (h.2 c hc)

/-- One character decides whether a word is blank. -/
theorem isSolid_of_mem {w : Text} (h : IsToken w) {c : Char} (hc : c ∈ w)
    (hsolid : ¬ isBlank c) :
  IsSolid w
  := by
  rcases h with h | ⟨d, rfl, -⟩
  · apply isSolid_of_isIdentifier h
  · intro e he
    rw [List.mem_singleton] at hc he
    rw [he, ← hc]
    exact hsolid

/-- A text without blanks at its ends starts and ends with a solid word. -/
theorem isSolid_of_bare {t : Text} (h : Bare t) :
  (∀ w ∈ (words t).head?, IsSolid w) ∧ ∀ w ∈ (words t).getLast?, IsSolid w
  := by
  have hflatten := flatten_words t
  constructor
  · intro w hw
    obtain ⟨ws, hws⟩ := List.head?_eq_some_iff.mp hw
    have htoken := isToken_of_mem_words (List.mem_of_mem_head? hw)
    obtain ⟨c, r, rfl⟩ := List.exists_cons_of_ne_nil htoken.ne_nil
    apply isSolid_of_mem htoken List.mem_cons_self
    apply h.1
    rw [← hflatten, hws]
    rfl
  · intro w hw
    obtain ⟨ws, hws⟩ := List.getLast?_eq_some_iff.mp hw
    have htoken := isToken_of_mem_words (List.mem_of_getLast? hw)
    have hlast := List.getLast?_eq_some_getLast htoken.ne_nil
    apply isSolid_of_mem htoken (List.mem_of_getLast? hlast)
    apply h.2
    rw [← hflatten, hws, List.flatten_append, List.flatten_singleton, List.getLast?_append, hlast]
    rfl

/-- Words that start and end solid form a text without blanks at its ends. -/
theorem bare_flatten {us : List Text} (hus : ∀ u ∈ us, u ≠ [])
    (hhead : ∃ u ∈ us.head?, IsSolid u) (hlast : ∃ u ∈ us.getLast?, IsSolid u) :
  Bare us.flatten
  := by
  constructor
  · obtain ⟨u, hu, hsolid⟩ := hhead
    obtain ⟨us', rfl⟩ := List.head?_eq_some_iff.mp hu
    intro c hc
    rw [List.flatten_cons, List.head?_append_of_ne_nil _ (hus u List.mem_cons_self)] at hc
    apply hsolid c (List.mem_of_mem_head? hc)
  · obtain ⟨u, hu, hsolid⟩ := hlast
    obtain ⟨us', rfl⟩ := List.getLast?_eq_some_iff.mp hu
    intro c hc
    rw [List.flatten_append, List.flatten_singleton,
      List.getLast?_append_of_ne_nil _ (hus u (by simp))] at hc
    apply hsolid c (List.mem_of_getLast? hc)

/-! ### Lines -/

/-- A text without the separator is its only part. -/
theorem splitOn_of_not_mem {separator : Char} {t : Text} (h : separator ∉ t) :
  splitOn separator t = [t]
  := by
  induction t with
  | nil => rfl
  | cons c r ih =>
    rw [List.mem_cons, not_or] at h
    rw [splitOn, if_neg (Ne.symm h.1), ih h.2]

/-- Splitting behind a line gives the line and the lines of the rest. -/
theorem lines_append {l : Text} (hl : '\n' ∉ l) (t : Text) :
  lines (l ++ '\n' :: t) = l :: lines t
  := by
  rw [lines]
  induction l with
  | nil => rfl
  | cons c l ih =>
    rw [List.mem_cons, not_or] at hl
    rw [List.cons_append, splitOn, if_neg (Ne.symm hl.1), ih hl.2]

/-- Lines without line breaks can be put together and split again. -/
theorem lines_unlines {ls : List Text} (hne : ls ≠ []) (h : ∀ l ∈ ls, '\n' ∉ l) :
  lines (unlines ls) = ls
  := by
  induction ls with
  | nil => exact absurd rfl hne
  | cons l ls ih =>
    obtain ⟨hl, hls⟩ := List.forall_mem_cons.mp h
    cases ls with
    | nil =>
      have hlast := splitOn_of_not_mem hl
      rw [unlines, join, lines, hlast]
    | cons u us =>
      rw [unlines, join_cons _ _ (List.cons_ne_nil u us), List.append_assoc]
      apply (lines_append hl _).trans
      exact congrArg (List.cons l) (ih (List.cons_ne_nil u us) hls)

/-- No line holds a line break. -/
theorem not_mem_of_mem_lines {l t : Text} (h : l ∈ lines t) :
  '\n' ∉ l
  := by
  rw [lines] at h
  induction t generalizing l with
  | nil =>
    rw [splitOn, List.mem_singleton] at h
    rw [h]
    apply List.not_mem_nil
  | cons c r ih =>
    rw [splitOn] at h
    split at h
    · rcases List.mem_cons.mp h with rfl | h
      · apply List.not_mem_nil
      · apply ih h
    next hc =>
      split at h
      next hr => exact absurd hr (splitOn_ne_nil '\n' r)
      next part parts hr =>
        rcases List.mem_cons.mp h with rfl | h
        · rw [List.mem_cons, not_or]
          exact ⟨Ne.symm hc, ih (by rw [hr]; apply List.mem_cons_self)⟩
        · apply ih (by rw [hr]; apply List.mem_cons_of_mem _ h)

/-- Lines with a line break behind each of them. -/
def broken (ls : List Text) : Text := ls.flatMap (· ++ ['\n'])

theorem broken_cons (l : Text) (ls : List Text) :
  broken (l :: ls) = l ++ '\n' :: broken ls
  := by
  rw [broken, List.flatMap_cons, List.append_assoc]
  rfl

/-- Broken lines are apart from all that follows. -/
theorem apart_broken (ls : List Text) (t : Text) :
  Apart (broken ls) t
  := by
  apply apart_of_getLast?
  intro c hc
  rcases List.eq_nil_or_concat ls with rfl | ⟨ls, l, rfl⟩
  · cases hc
  · rw [broken, List.concat_eq_append, List.flatMap_append, List.flatMap_singleton,
      ← List.append_assoc, List.getLast?_concat] at hc
    cases hc
    decide

/-- The words of a line and of what follows behind its break. -/
theorem words_line (l t : Text) :
  words (l ++ '\n' :: t) = words l ++ ['\n'] :: words t
  := by
  have hbreak : ¬ isWord '\n' := by decide
  rw [words_append, words_cons_of_not_isWord hbreak]
  apply apart_of_head?
  intro c hc
  cases hc
  exact hbreak

/-- A text is the lines in front of a line, the line, and what follows, which starts with a line
break if there is anything. -/
theorem exists_broken {t l : Text} {above below : List Text} (h : lines t = above ++ l :: below) :
  ∃ rest, t = broken above ++ (l ++ rest) ∧ ∀ c ∈ rest.head?, c = '\n'
  := by
  have hunlines : ∃ rest, unlines (l :: below) = l ++ rest ∧ ∀ c ∈ rest.head?, c = '\n' := by
    cases below with
    | nil => exact ⟨[], by rw [unlines, join, List.append_nil], by simp⟩
    | cons u us =>
      refine ⟨'\n' :: join ['\n'] (u :: us), ?_, by simp⟩
      rw [unlines, join_cons _ _ (List.cons_ne_nil u us), List.append_assoc]
      rfl
  obtain ⟨rest, hrest, hhead⟩ := hunlines
  refine ⟨rest, ?_, hhead⟩
  rw [← hrest, ← unlines_lines t, h]
  clear h
  induction above with
  | nil => rfl
  | cons a above ih =>
    rw [List.cons_append, unlines, join_cons _ _ (by simp), ← unlines, ih, broken_cons,
      List.append_assoc, List.append_assoc]
    rfl

/-- The words of a line stand next to each other among the words of the text. -/
theorem words_infix_of_mem_lines {l t : Text} (h : l ∈ lines t) :
  words l <:+: words t
  := by
  obtain ⟨above, below, hlines⟩ := List.append_of_mem h
  obtain ⟨rest, rfl, hrest⟩ := exists_broken hlines
  have hafter : Apart l rest := by
    apply apart_of_head?
    intro c hc
    rw [hrest c hc]
    decide
  rw [words_append (apart_broken above _), words_append hafter]
  exact ⟨_, _, List.append_assoc _ _ _⟩

/-- The lines of broken lines and of the text behind them. -/
theorem lines_broken {ls : List Text} (h : ∀ l ∈ ls, '\n' ∉ l) (t : Text) :
  lines (broken ls ++ t) = ls ++ lines t
  := by
  induction ls with
  | nil => rfl
  | cons l ls ih =>
    obtain ⟨hl, hls⟩ := List.forall_mem_cons.mp h
    rw [broken_cons, List.append_assoc, List.cons_append, lines_append hl, ih hls]
    rfl

end Text

end ShaderPair
