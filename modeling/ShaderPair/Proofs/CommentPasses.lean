import ShaderPair.Text.Comment
import ShaderPair.Proofs.Pieces
import Mathlib.Data.List.TakeWhile
import Mathlib.Tactic.Use

/-!
# The two passes that take out comments

`Comment.remove` takes out block comments first, and it does not know that a line comment is a
comment.  A line comment *stays on its line* if what looks like a block comment in it is closed in
it or not at all (`Comment.StaysOnLine`); then it is dropped and nothing else is
(`Comment.remove_line`).  A line comment that opens a block comment without closing it may take
code away with it (`Comment.remove_lineComment_iff`).  A block comment becomes the line breaks in
it (`Comment.remove_block`), and every other character stays (`Comment.remove_cons`): no comment is
opened by two characters between which a block comment was.
-/

namespace ShaderPair

namespace Comment

/-! ### Closers -/

/-- Two characters in a row stand at the beginning of `c :: (r ++ t)` only if they do in `c :: r`,
or the second one is the first character of `t`. -/
theorem cons_append_ne_pair
    {c x y : Char} {r t : Text} (h : ∀ s, c :: r ≠ x :: y :: s) (ht : r = [] → t.head? ≠ some y)
    (s : Text) :
  c :: (r ++ t) ≠ x :: y :: s
  := by
  intro heq
  obtain ⟨hc, hr⟩ := List.cons.inj heq
  cases r with
  | nil =>
    apply ht rfl
    rw [show t = y :: s from hr]
    rfl
  | cons d r =>
    obtain ⟨hd, -⟩ := List.cons.inj hr
    apply h r
    rw [hc, hd]

/-- The text up to the first closer of a block comment, and the text behind the closer. -/
def closed? : Text → Option (Text × Text)
  | [] => none
  | '*' :: '/' :: r => some ([], r)
  | c :: r => (closed? r).map fun way => (c :: way.1, way.2)

theorem closed?_cons {c : Char} {r : Text} (h : ∀ s, c :: r ≠ '*' :: '/' :: s) :
  closed? (c :: r) = (closed? r).map fun way => (c :: way.1, way.2)
  := by
  rw [closed?]
  rintro s rfl rfl
  exact h s rfl

theorem closed?_of_cons {c : Char} {r : Text} (h : closed? (c :: r) = none) :
  closed? r = none
  := by
  by_cases hpair : ∃ s, c :: r = '*' :: '/' :: s
  · obtain ⟨s, hs⟩ := hpair
    rw [hs] at h
    cases h
  · rw [closed?_cons (not_exists.mp hpair)] at h
    exact Option.map_eq_none_iff.mp h

@[elab_as_elim]
theorem closed?_induction
    {motive : Text → Prop} (nil : motive []) (closer : ∀ r, motive ('*' :: '/' :: r))
    (char : ∀ c r, (∀ s, c :: r ≠ '*' :: '/' :: s) → motive r → motive (c :: r)) (t : Text) :
  motive t
  := by
  induction t using closed?.induct with
  | case1 => exact nil
  | case2 r => exact closer r
  | case3 c r h ih =>
    apply char c r _ ih
    rintro s heq
    cases heq
    exact h s rfl rfl

/-- Where no closer stands at the beginning, the first one is behind the first character. -/
theorem exists_of_closed?_cons
    {c : Char} {r b s : Text} (hr : ∀ s, c :: r ≠ '*' :: '/' :: s)
    (h : closed? (c :: r) = some (b, s)) :
  ∃ b', b = c :: b' ∧ closed? r = some (b', s)
  := by
  rw [closed?_cons hr] at h
  obtain ⟨way, hway, heq⟩ := Option.map_eq_some_iff.mp h
  obtain ⟨rfl, rfl⟩ := Prod.mk.inj heq
  exact ⟨way.1, rfl, hway⟩

theorem eq_of_closed? {r b s : Text} (h : closed? r = some (b, s)) :
  r = b ++ '*' :: '/' :: s
  := by
  induction r using closed?_induction generalizing b with
  | nil => cases h
  | closer r =>
    obtain ⟨rfl, rfl⟩ := Prod.mk.inj (Option.some.inj h)
    rfl
  | char c r hr ih =>
    obtain ⟨b, rfl, hb⟩ := exists_of_closed?_cons hr h
    rw [ih hb]
    rfl

/-- The first closer stays the first one in front of another text. -/
theorem closed?_append_of_eq_some {r b s : Text} (h : closed? r = some (b, s)) (t : Text) :
  closed? (r ++ t) = some (b, s ++ t)
  := by
  induction r using closed?_induction generalizing b with
  | nil => cases h
  | closer r =>
    obtain ⟨rfl, rfl⟩ := Prod.mk.inj (Option.some.inj h)
    rfl
  | char c r hr ih =>
    obtain ⟨b, rfl, hb⟩ := exists_of_closed?_cons hr h
    have hne : r ≠ [] := by
      rintro rfl
      cases hb
    rw [List.cons_append, closed?_cons (cons_append_ne_pair hr fun h => absurd h hne), ih hb]
    rfl

/-- A text without closers is in front of the first closer of what follows. -/
theorem closed?_append_of_eq_none
    {s t : Text} (h : closed? s = none) (ht : t.head? ≠ some '/') :
  closed? (s ++ t) = (closed? t).map fun way => (s ++ way.1, way.2)
  := by
  induction s using closed?_induction with
  | nil => simp
  | closer => cases h
  | char c r hr ih =>
    rw [closed?_cons hr] at h
    rw [List.cons_append, closed?_cons (cons_append_ne_pair hr fun _ => ht),
      ih (Option.map_eq_none_iff.mp h), Option.map_map]
    rfl

theorem text_closer :
  Text.ofString "*/" = ['*', '/']
  := by
  rw [Text.ofString_eq]
  rfl

theorem indexOf?_closer_cons {c : Char} {r : Text} (h : ∀ s, c :: r ≠ '*' :: '/' :: s) :
  Text.indexOf? ['*', '/'] (c :: r) = (Text.indexOf? ['*', '/'] r).map (· + 1)
  := by
  rw [Text.indexOf?, if_neg]
  rw [List.isPrefixOf_iff_prefix]
  rintro ⟨s, heq⟩
  exact h s heq.symm

theorem closed?_eq_indexOf? (r : Text) :
  closed? r = (Text.indexOf? ['*', '/'] r).map fun i => (r.take i, r.drop (i + 2))
  := by
  induction r using closed?_induction with
  | nil => rfl
  | closer r => rfl
  | char c r hr ih =>
    rw [indexOf?_closer_cons hr, closed?_cons hr, ih, Option.map_map, Option.map_map]
    rfl

/-! ### Openers -/

theorem text_blockOpener :
  Text.ofString "/*" = ['/', '*']
  := by
  rw [Text.ofString_eq]
  rfl

theorem text_lineOpener :
  Text.ofString "//" = ['/', '/']
  := by
  rw [Text.ofString_eq]
  rfl

theorem word_pair (x y : Char) (r : Text) :
  Pattern.word [x, y] (x :: y :: r) = [((), r)]
  := by
  simp [Pattern.word]

theorem word_pair_of_ne {x y : Char} {t : Text} (h : ∀ s, t ≠ x :: y :: s) :
  Pattern.word [x, y] t = []
  := by
  rw [Pattern.word, if_neg]
  rw [List.isPrefixOf_iff_prefix]
  rintro ⟨s, heq⟩
  exact h s heq.symm

theorem block_opener (r : Text) :
  block.first? ('/' :: '*' :: r) = closed? r
  := by
  rw [block, text_blockOpener, text_closer, Pattern.first?, Pattern.bind_apply, word_pair,
    List.flatMap_singleton, Pattern.upTo, closed?_eq_indexOf?]
  cases Text.indexOf? ['*', '/'] r <;> rfl

theorem block_of_ne {t : Text} (h : ∀ s, t ≠ '/' :: '*' :: s) :
  block.first? t = none
  := by
  rw [block, text_blockOpener, Pattern.first?, Pattern.bind_apply, word_pair_of_ne h]
  rfl

theorem line_opener (r : Text) :
  line.first? ('/' :: '/' :: r) = some (r.takeWhile (· != '\n'), r.dropWhile (· != '\n'))
  := by
  rw [line, text_lineOpener, Pattern.first?, Pattern.bind_apply, word_pair]
  rfl

theorem line_of_ne {t : Text} (h : ∀ s, t ≠ '/' :: '/' :: s) :
  line.first? t = none
  := by
  rw [line, text_lineOpener, Pattern.first?, Pattern.bind_apply, word_pair_of_ne h]
  rfl

/-! ### The two passes -/

theorem breaks_append (s t : Text) :
  breaks (s ++ t) = breaks s ++ breaks t
  := by
  apply List.filter_append

theorem breaks_of_not_mem {b : Text} (h : '\n' ∉ b) :
  breaks b = []
  := by
  apply List.filter_eq_nil_iff.mpr
  rintro c hc hbreak
  rw [beq_iff_eq.mp hbreak] at hc
  exact h hc

theorem removeBlocks_cons {c : Char} {r : Text} (h : ∀ s, c :: r ≠ '/' :: '*' :: s) :
  removeBlocks (c :: r) = c :: removeBlocks r
  := by
  apply Piece.assemble_ofText_cons (block_of_ne h)

/-- A block comment becomes the line breaks in it. -/
theorem removeBlocks_closed {r b s : Text} (h : closed? r = some (b, s)) :
  removeBlocks ('/' :: '*' :: r) = breaks b ++ removeBlocks s
  := by
  have hr := eq_of_closed? h
  have hsplit : '/' :: '*' :: r = ('/' :: '*' :: (b ++ ['*', '/'])) ++ s := by
    rw [hr]
    simp
  have hblock : block.first? (('/' :: '*' :: (b ++ ['*', '/'])) ++ s) = some (b, s) := by
    rw [← hsplit, block_opener, h]
  have hbreaks : breaks ('/' :: '*' :: (b ++ ['*', '/'])) = breaks b := by
    change breaks (b ++ ['*', '/']) = breaks b
    rw [breaks_append]
    apply List.append_nil
  rw [hsplit, removeBlocks, Piece.assemble_ofText_append (by simp) hblock, hbreaks]
  rfl

/-- A text without closers stays. -/
theorem removeBlocks_of_not_closed {t : Text} (h : closed? t = none) :
  removeBlocks t = t
  := by
  induction t with
  | nil => rfl
  | cons c r ih =>
    have hr := closed?_of_cons h
    have hnone : block.first? (c :: r) = none := by
      by_cases hopen : ∃ s, c :: r = '/' :: '*' :: s
      · obtain ⟨s, hs⟩ := hopen
        obtain ⟨-, rfl⟩ := List.cons.inj hs
        rw [hs, block_opener, closed?_of_cons hr]
      · apply block_of_ne (not_exists.mp hopen)
    rw [removeBlocks, Piece.assemble_ofText_cons hnone, ← removeBlocks, ih hr]

/-- An opener without a closer stays. -/
theorem removeBlocks_opened {s : Text} (h : closed? s = none) :
  removeBlocks ('/' :: '*' :: s) = '/' :: '*' :: s
  := by
  have hnone : block.first? ('/' :: '*' :: s) = none := by
    rw [block_opener, h]
  rw [removeBlocks, Piece.assemble_ofText_cons hnone, ← removeBlocks, removeBlocks_cons (by simp),
    removeBlocks_of_not_closed h]

theorem removeLines_cons {c : Char} {r : Text} (h : ∀ s, c :: r ≠ '/' :: '/' :: s) :
  removeLines (c :: r) = c :: removeLines r
  := by
  apply Piece.assemble_ofText_cons (line_of_ne h)

/-- A line comment is dropped up to the end of its line. -/
theorem removeLines_line (r : Text) :
  removeLines ('/' :: '/' :: r) = removeLines (r.dropWhile (· != '\n'))
  := by
  have hsplit : '/' :: '/' :: r
      = ('/' :: '/' :: r.takeWhile (· != '\n')) ++ r.dropWhile (· != '\n') := by
    rw [List.cons_append, List.cons_append, List.takeWhile_append_dropWhile]
  have hline := line_opener r
  rw [hsplit] at hline ⊢
  rw [removeLines, Piece.assemble_ofText_append (by simp) hline]
  rfl

theorem removeLines_breaks (b t : Text) :
  removeLines (breaks b ++ t) = breaks b ++ removeLines t
  := by
  induction b with
  | nil => rfl
  | cons c b ih =>
    by_cases hc : c = '\n'
    · subst hc
      change removeLines ('\n' :: (breaks b ++ t)) = '\n' :: (breaks b ++ removeLines t)
      rw [removeLines_cons (by simp), ih]
    · have hbreaks : breaks (c :: b) = breaks b := by
        apply List.filter_cons_of_neg
        simpa using hc
      rw [hbreaks, ih]

/-! ### Block comments in a line -/

@[elab_as_elim]
theorem blocks_induction
    {motive : Text → Prop} (nil : motive [])
    (closed : ∀ s b r, closed? s = some (b, r) → motive r → motive ('/' :: '*' :: s))
    (opened : ∀ s, closed? s = none → motive ('/' :: '*' :: s))
    (char : ∀ c r, (∀ s, c :: r ≠ '/' :: '*' :: s) → motive r → motive (c :: r)) (t : Text) :
  motive t
  := by
  induction h : t.length using Nat.strongRecOn generalizing t with
  | ind n ih =>
    subst h
    cases t with
    | nil => exact nil
    | cons c r =>
      by_cases hopen : ∃ s, c :: r = '/' :: '*' :: s
      · obtain ⟨s, hs⟩ := hopen
        rw [hs] at ih ⊢
        cases hclosed : closed? s with
        | none => exact opened s hclosed
        | some way =>
          apply closed s way.1 way.2 hclosed
          apply ih way.2.length _ _ rfl
          rw [eq_of_closed? hclosed]
          simp only [List.length_cons, List.length_append]
          omega
      · exact char c r (not_exists.mp hopen) (ih r.length (Nat.lt_succ_self _) r rfl)

/-- Whether a block comment is open at the end of a text, for a reader who knows of block comments
only and for whom one is open, or not, where the text begins. -/
def openAfter : (isOpen : Bool) → Text → Bool
  | isOpen, [] => isOpen
  | false, '/' :: '*' :: r => openAfter true r
  | false, _ :: r => openAfter false r
  | true, '*' :: '/' :: r => openAfter false r
  | true, _ :: r => openAfter true r

theorem openAfter_true_of_closed? {t b r : Text} (h : closed? t = some (b, r)) :
  openAfter true t = openAfter false r
  := by
  induction t using closed?_induction generalizing b with
  | nil => cases h
  | closer t =>
    obtain ⟨rfl, rfl⟩ := Prod.mk.inj (Option.some.inj h)
    rfl
  | char c t ht ih =>
    obtain ⟨b, rfl, hb⟩ := exists_of_closed?_cons ht h
    rw [openAfter, ih hb]
    rintro s rfl rfl
    exact ht s rfl

theorem openAfter_true_of_not_closed {t : Text} (h : closed? t = none) :
  openAfter true t = true
  := by
  induction t using closed?_induction with
  | nil => rfl
  | closer => cases h
  | char c t ht ih =>
    rw [openAfter, ih (closed?_of_cons h)]
    rintro s rfl rfl
    exact ht s rfl

theorem openAfter_false_cons {c : Char} {r : Text} (h : ∀ s, c :: r ≠ '/' :: '*' :: s) :
  openAfter false (c :: r) = openAfter false r
  := by
  rw [openAfter]
  rintro s rfl rfl
  exact h s rfl

/-- What becomes of a text in front of which a block comment is open. -/
def removeOpen (t : Text) : Text :=
  match closed? t with
  | none => t
  | some (b, r) => breaks b ++ removeBlocks r

/-- Block comments of a part of a line leave a part of a line, and what follows is treated
according to whether one is open. -/
theorem exists_removeBlocks_append
    {b r : Text} (hb : '\n' ∉ b) (hr : ∀ c ∈ r.head?, c = '\n') :
  ∃ b', '\n' ∉ b' ∧
    removeBlocks (b ++ r) = b' ++ if openAfter false b then removeOpen r else removeBlocks r
  := by
  have hhead : ∀ c, c ≠ '\n' → r.head? ≠ some c := fun c hc heq => hc (hr c heq)
  induction b using blocks_induction with
  | nil =>
    use []
    simp [openAfter]
  | closed s b t hs ih =>
    obtain rfl := eq_of_closed? hs
    simp only [List.mem_cons, List.mem_append, not_or] at hb
    obtain ⟨b', hb', heq⟩ := ih hb.2.2.2.2.2
    use b', hb'
    rw [List.cons_append, List.cons_append,
      removeBlocks_closed (closed?_append_of_eq_some hs r), breaks_of_not_mem hb.2.2.1, heq,
      openAfter, openAfter_true_of_closed? hs]
    rfl
  | opened s hs =>
    simp only [List.mem_cons, not_or] at hb
    have hclosed := closed?_append_of_eq_none hs (hhead '/' (by decide))
    rw [openAfter, openAfter_true_of_not_closed hs, if_pos rfl, removeOpen]
    cases hrest : closed? r with
    | none =>
      rw [hrest] at hclosed
      use '/' :: '*' :: s
      constructor
      · simpa using hb
      · apply removeBlocks_opened hclosed
    | some way =>
      rw [hrest] at hclosed
      use [], by simp
      rw [List.cons_append, List.cons_append, removeBlocks_closed hclosed, breaks_append,
        breaks_of_not_mem hb.2.2]
      rfl
  | char c b hc ih =>
    simp only [List.mem_cons, not_or] at hb
    obtain ⟨b', hb', heq⟩ := ih hb.2
    use c :: b'
    constructor
    · simpa using ⟨hb.1, hb'⟩
    · rw [List.cons_append,
        removeBlocks_cons (cons_append_ne_pair hc fun _ => hhead '*' (by decide)), heq,
        openAfter_false_cons hc]
      rfl

/-! ### Comments that stay on their lines -/

/-- Behind the opener of a line comment, what looks like a block comment does not reach over the
end of the line, and the opener is not a part of one. -/
structure StaysOnLine (r : Text) : Prop where
  /-- What is open at the end of the line is never closed. -/
  closed?_behind :
    openAfter false (r.takeWhile (· != '\n')) → closed? (r.dropWhile (· != '\n')) = none
  /-- The second slash and a star behind it are not the opener of a block comment. -/
  closed?_tail : r.head? = some '*' → closed? r.tail = none

theorem staysOnLine_iff (r : Text) :
  StaysOnLine r ↔
    (openAfter false (r.takeWhile (· != '\n')) → closed? (r.dropWhile (· != '\n')) = none) ∧
      (r.head? = some '*' → closed? r.tail = none)
  := by
  constructor
  · rintro ⟨hbehind, htail⟩
    exact ⟨hbehind, htail⟩
  · rintro ⟨hbehind, htail⟩
    exact ⟨hbehind, htail⟩

instance : DecidablePred StaysOnLine := fun r => decidable_of_iff' _ (staysOnLine_iff r)

theorem head?_dropWhile_line {r : Text} :
  ∀ c ∈ (r.dropWhile (· != '\n')).head?, c = '\n'
  := by
  intro c hc
  have hnot := List.head?_dropWhile_not (· != '\n') r
  rw [hc] at hnot
  simpa using hnot

theorem not_mem_takeWhile_line {r : Text} :
  '\n' ∉ r.takeWhile (· != '\n')
  := by
  intro h
  simpa using List.mem_takeWhile_imp h

theorem ne_break_of_not_mem {b : Text} (hb : '\n' ∉ b) :
  ∀ c ∈ b, (c != '\n') = true
  := by
  intro c hc
  rw [bne_iff_ne]
  rintro rfl
  exact hb hc

theorem removeLines_append_line {b t : Text} (hb : '\n' ∉ b) (ht : ∀ c ∈ t.head?, c = '\n') :
  removeLines ('/' :: '/' :: (b ++ t)) = removeLines t
  := by
  rw [removeLines_line, List.dropWhile_append_of_pos (ne_break_of_not_mem hb)]
  cases t with
  | nil => rfl
  | cons c t => rw [ht c rfl, List.dropWhile_cons_of_neg (by simp)]

/-- A line still ends where it does after block comments behind it are taken out. -/
theorem head?_removeBlocks {t : Text} (ht : ∀ c ∈ t.head?, c = '\n') :
  ∀ c ∈ (removeBlocks t).head?, c = '\n'
  := by
  cases t with
  | nil => exact ht
  | cons d t =>
    rw [ht d rfl, removeBlocks_cons (by simp)]
    simp

theorem removeBlocks_lineOpener {r : Text} (h : r.head? = some '*' → closed? r.tail = none) :
  removeBlocks ('/' :: '/' :: r) = '/' :: '/' :: removeBlocks r
  := by
  rw [removeBlocks_cons (by simp)]
  by_cases hstar : ∃ s, r = '*' :: s
  · obtain ⟨s, rfl⟩ := hstar
    have hs : closed? s = none := h rfl
    rw [removeBlocks_opened hs, removeBlocks_cons (by simp), removeBlocks_of_not_closed hs]
  · rw [removeBlocks_cons]
    rintro s hs
    exact hstar ⟨s, (List.cons.inj hs).2⟩

/-- A line comment that stays on its line is dropped. -/
theorem remove_line {r : Text} (h : StaysOnLine r) :
  remove ('/' :: '/' :: r) = remove (r.dropWhile (· != '\n'))
  := by
  obtain ⟨b', hb', heq⟩ :=
    exists_removeBlocks_append (not_mem_takeWhile_line (r := r)) (head?_dropWhile_line (r := r))
  have hrest : (if openAfter false (r.takeWhile (· != '\n')) then
      removeOpen (r.dropWhile (· != '\n')) else removeBlocks (r.dropWhile (· != '\n')))
      = removeBlocks (r.dropWhile (· != '\n')) := by
    split
    next hopen =>
      have hclosed := h.closed?_behind hopen
      rw [removeOpen, hclosed, removeBlocks_of_not_closed hclosed]
    next => rfl
  rw [List.takeWhile_append_dropWhile, hrest] at heq
  rw [remove, removeBlocks_lineOpener h.closed?_tail, heq,
    removeLines_append_line hb' (head?_removeBlocks head?_dropWhile_line)]
  rfl

/-- A block comment becomes the line breaks in it. -/
theorem remove_block {s b r : Text} (h : closed? s = some (b, r)) :
  remove ('/' :: '*' :: s) = breaks b ++ remove r
  := by
  rw [remove, removeBlocks_closed h, removeLines_breaks]
  rfl

/-- A character that opens no comment stays. -/
theorem remove_cons
    {c : Char} {r : Text} (hline : ∀ s, c :: r ≠ '/' :: '/' :: s)
    (hblock : ∀ s, c :: r ≠ '/' :: '*' :: s) :
  remove (c :: r) = c :: remove r
  := by
  rw [remove, removeBlocks_cons hblock, removeLines_cons]
  · rfl
  · -- No opener of a line comment comes up where a block comment was.
    intro s hs
    obtain ⟨hc, hs⟩ := List.cons.inj hs
    cases r with
    | nil => cases hs
    | cons d r =>
      have hd : d ≠ '/' := by
        rintro rfl
        apply hline r
        rw [hc]
      rw [removeBlocks_cons fun s heq => hd (List.cons.inj heq).1] at hs
      exact hd (List.cons.inj hs).1

/-- On its own, a line comment that does not start with a star is dropped whatever follows its
line if and only if it leaves no block comment open. -/
theorem remove_lineComment_iff {b : Text} (hb : '\n' ∉ b) (hstar : b.head? ≠ some '*') :
  (∀ r, remove ('/' :: '/' :: (b ++ '\n' :: r)) = '\n' :: remove r) ↔ openAfter false b = false
  := by
  have hhead : ∀ r, (b ++ '\n' :: r).head? ≠ some '*' := by
    intro r
    cases b with
    | nil => simp
    | cons c b => exact hstar
  constructor
  · intro h
    by_contra hopen
    rw [Bool.not_eq_false] at hopen
    -- The comment opened in the line is closed behind one more character.
    obtain ⟨b', hb', heq⟩ :=
      exists_removeBlocks_append (r := ['\n', 'x', '*', '/']) hb (by simp)
    have hrest : removeOpen ['\n', 'x', '*', '/'] = ['\n'] := by decide +kernel
    have hrun := h ['x', '*', '/']
    rw [if_pos hopen, hrest] at heq
    rw [remove, removeBlocks_lineOpener fun hstar => absurd hstar (hhead _), heq,
      removeLines_append_line hb' (by simp)] at hrun
    revert hrun
    decide +kernel
  · intro hopen r
    have hpass := ne_break_of_not_mem hb
    have htake : (b ++ '\n' :: r).takeWhile (· != '\n') = b := by
      rw [List.takeWhile_append_of_pos hpass, List.takeWhile_cons_of_neg (by simp),
        List.append_nil]
    have hdrop : (b ++ '\n' :: r).dropWhile (· != '\n') = '\n' :: r := by
      rw [List.dropWhile_append_of_pos hpass, List.dropWhile_cons_of_neg (by simp)]
    have hstays : StaysOnLine (b ++ '\n' :: r) := by
      constructor
      · rw [htake, hopen]
        intro h
        cases h
      · intro h
        exact absurd h (hhead r)
    rw [remove_line hstays, hdrop, remove_cons (by simp) (by simp)]

end Comment

end ShaderPair
