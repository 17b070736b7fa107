import ShaderPair.Proofs.CommentPasses

/-!
# Comments and a scanner

A scanner goes over a text once from the left (`Comment.scan?`).  In the code `//` opens a line
comment and `/*` a block comment; a line comment is dropped up to the end of its line, a block
comment up to its closer, except for the line breaks in it, and inside a comment no other one is
opened.  If all block comments of a text are closed and its line comments stay on their lines, then
taking out its comments is what the scanner does (`Comment.remove_eq_scan`).
-/

namespace ShaderPair

namespace Comment

/-! ### The scanner -/

/-- What a scanner is in: the code, a line comment or a block comment. -/
inductive Place where
  | code
  | line
  | block
  deriving DecidableEq

/-- A text without its comments, as a scanner finds them that is in `place` where the text
begins; none if a block comment is not closed. -/
def scanFrom? : (place : Place) → Text → Option Text
  | .block, [] => none
  | _, [] => some []
  | .code, '/' :: '/' :: r => scanFrom? .line r
  | .code, '/' :: '*' :: r => scanFrom? .block r
  | .code, c :: r => (scanFrom? .code r).map (c :: ·)
  | .line, '\n' :: r => (scanFrom? .code r).map ('\n' :: ·)
  | .line, _ :: r => scanFrom? .line r
  | .block, '*' :: '/' :: r => scanFrom? .code r
  | .block, '\n' :: r => (scanFrom? .block r).map ('\n' :: ·)
  | .block, _ :: r => scanFrom? .block r

/-- A text without its comments, as a scanner finds them; none if a block comment is not
closed. -/
def scan? (t : Text) : Option Text := scanFrom? .code t

/-- The texts behind the openers of the line comments that a scanner finds which is in `place`
where a text begins. -/
def lineCommentsFrom : (place : Place) → Text → List Text
  | _, [] => []
  | .code, '/' :: '/' :: r => r :: lineCommentsFrom .line r
  | .code, '/' :: '*' :: r => lineCommentsFrom .block r
  | .code, _ :: r => lineCommentsFrom .code r
  | .line, '\n' :: r => lineCommentsFrom .code r
  | .line, _ :: r => lineCommentsFrom .line r
  | .block, '*' :: '/' :: r => lineCommentsFrom .code r
  | .block, _ :: r => lineCommentsFrom .block r

/-- The texts behind the openers of the line comments of a text. -/
def lineComments (t : Text) : List Text := lineCommentsFrom .code t

/-! ### What the scanner does -/

@[elab_as_elim]
theorem scan_induction
    {motive : Text → Prop} (nil : motive [])
    (line : ∀ r, motive (r.dropWhile (· != '\n')) → motive ('/' :: '/' :: r))
    (closed : ∀ s b r, closed? s = some (b, r) → motive r → motive ('/' :: '*' :: s))
    (opened : ∀ s, closed? s = none → motive ('/' :: '*' :: s))
    (char : ∀ c r, (∀ s, c :: r ≠ '/' :: '/' :: s) → (∀ s, c :: r ≠ '/' :: '*' :: s) →
      motive r → motive (c :: r)) (t : Text) :
  motive t
  := by
  induction h : t.length using Nat.strongRecOn generalizing t with
  | ind n ih =>
    subst h
    by_cases hline : ∃ r, t = '/' :: '/' :: r
    · obtain ⟨r, rfl⟩ := hline
      apply line
      apply ih _ _ _ rfl
      have hle := (List.dropWhile_suffix (l := r) (· != '\n')).length_le
      simp only [List.length_cons]
      omega
    · cases t using blocks_induction with
      | nil => exact nil
      | closed s b r hs =>
        apply closed s b r hs
        apply ih _ _ _ rfl
        rw [eq_of_closed? hs]
        simp only [List.length_cons, List.length_append]
        omega
      | opened s hs => exact opened s hs
      | char c r hblock =>
        exact char c r (not_exists.mp hline) hblock (ih _ (Nat.lt_succ_self _) r rfl)

theorem scan?_line (r : Text) :
  scan? ('/' :: '/' :: r) = scan? (r.dropWhile (· != '\n'))
  := by
  change scanFrom? .line r = _
  induction r with
  | nil => rfl
  | cons c r ih =>
    by_cases hc : c = '\n'
    · subst hc
      rw [scanFrom?, List.dropWhile_cons_of_neg (by simp), scan?, scanFrom?]
      · simp
      · simp
    · rw [scanFrom?, ih, List.dropWhile_cons_of_pos (by simpa using hc)]
      exact hc

theorem lineComments_line (r : Text) :
  lineComments ('/' :: '/' :: r) = r :: lineComments (r.dropWhile (· != '\n'))
  := by
  change r :: lineCommentsFrom .line r = _
  congr 1
  induction r with
  | nil => rfl
  | cons c r ih =>
    by_cases hc : c = '\n'
    · subst hc
      rw [lineCommentsFrom, List.dropWhile_cons_of_neg (by simp), lineComments, lineCommentsFrom]
      · simp
      · simp
    · rw [lineCommentsFrom, ih, List.dropWhile_cons_of_pos (by simpa using hc)]
      exact hc

theorem scanFrom?_block_cons {c : Char} {s : Text} (h : ∀ r, c :: s ≠ '*' :: '/' :: r) :
  scanFrom? .block (c :: s) = (scanFrom? .block s).map (breaks [c] ++ ·)
  := by
  by_cases hc : c = '\n'
  · subst hc
    rw [scanFrom?]
    rfl
  · have hbreaks : breaks [c] = [] := by
      apply breaks_of_not_mem
      simpa using Ne.symm hc
    rw [scanFrom?, hbreaks]
    · cases scanFrom? .block s <;> rfl
    · rintro r rfl rfl
      exact h r rfl
    · exact hc

theorem scan?_closed {s b r : Text} (h : closed? s = some (b, r)) :
  scan? ('/' :: '*' :: s) = (scan? r).map (breaks b ++ ·)
  := by
  change scanFrom? .block s = _
  induction s using closed?_induction generalizing b with
  | nil => cases h
  | closer s =>
    obtain ⟨rfl, rfl⟩ := Prod.mk.inj (Option.some.inj h)
    change scan? s = (scan? s).map id
    rw [Option.map_id_apply]
  | char c s hs ih =>
    obtain ⟨b, rfl, hb⟩ := exists_of_closed?_cons hs h
    have hbreaks : breaks (c :: b) = breaks [c] ++ breaks b := breaks_append [c] b
    rw [scanFrom?_block_cons hs, ih hb, Option.map_map, hbreaks]
    congr 1
    funext u
    simp

theorem scan?_opened {s : Text} (h : closed? s = none) :
  scan? ('/' :: '*' :: s) = none
  := by
  change scanFrom? .block s = _
  induction s using closed?_induction with
  | nil => rfl
  | closer => cases h
  | char c s hs ih =>
    rw [scanFrom?_block_cons hs, ih (closed?_of_cons h)]
    rfl

theorem lineComments_closed {s b r : Text} (h : closed? s = some (b, r)) :
  lineComments ('/' :: '*' :: s) = lineComments r
  := by
  change lineCommentsFrom .block s = _
  induction s using closed?_induction generalizing b with
  | nil => cases h
  | closer s =>
    obtain ⟨rfl, rfl⟩ := Prod.mk.inj (Option.some.inj h)
    rfl
  | char c s hs ih =>
    obtain ⟨b, rfl, hb⟩ := exists_of_closed?_cons hs h
    rw [lineCommentsFrom, ih hb]
    rintro r rfl rfl
    exact hs r rfl

theorem scan?_cons
    {c : Char} {r : Text} (hline : ∀ s, c :: r ≠ '/' :: '/' :: s)
    (hblock : ∀ s, c :: r ≠ '/' :: '*' :: s) :
  scan? (c :: r) = (scan? r).map (c :: ·)
  := by
  rw [scan?, scanFrom?]
  · rfl
  · rintro s rfl rfl
    exact hline s rfl
  · rintro s rfl rfl
    exact hblock s rfl

theorem lineComments_cons
    {c : Char} {r : Text} (hline : ∀ s, c :: r ≠ '/' :: '/' :: s)
    (hblock : ∀ s, c :: r ≠ '/' :: '*' :: s) :
  lineComments (c :: r) = lineComments r
  := by
  rw [lineComments, lineCommentsFrom]
  · rfl
  · rintro s rfl rfl
    exact hline s rfl
  · rintro s rfl rfl
    exact hblock s rfl

/-- If every block comment is closed and every line comment stays on its line, then taking out
comments is what a scanner does that goes over the text once from the left. -/
theorem remove_eq_scan
    {t u : Text} (hscan : scan? t = some u) (hlines : ∀ r ∈ lineComments t, StaysOnLine r) :
  remove t = u
  := by
  induction t using scan_induction generalizing u with
  | nil =>
    cases hscan
    rfl
  | line r ih =>
    rw [lineComments_line] at hlines
    obtain ⟨hr, hlines⟩ := List.forall_mem_cons.mp hlines
    rw [scan?_line] at hscan
    rw [remove_line hr, ih hscan hlines]
  | closed s b r hs ih =>
    rw [lineComments_closed hs] at hlines
    rw [scan?_closed hs] at hscan
    obtain ⟨v, hv, rfl⟩ := Option.map_eq_some_iff.mp hscan
    rw [remove_block hs, ih hv hlines]
  | opened s hs =>
    rw [scan?_opened hs] at hscan
    cases hscan
  | char c r hline hblock ih =>
    rw [lineComments_cons hline hblock] at hlines
    rw [scan?_cons hline hblock] at hscan
    obtain ⟨v, hv, rfl⟩ := Option.map_eq_some_iff.mp hscan
    rw [remove_cons hline hblock, ih hv hlines]

/-- Line comments with a closed block comment and with an opener that is never closed in them, and
openers of line comments in a block comment. -/
theorem remove_eq_scan_nested :
  remove ("a / b // c /* d */\n/* // \n */ e // /*" : String)
    = Text.ofString "a / b \n\n e "
  := by
  apply remove_eq_scan
  · decide +kernel
  · decide +kernel

/-- A line comment that opens a block comment takes the code behind it away. -/
theorem not_remove_eq_scan :
  ¬ ∀ t u, scan? t = some u → remove t = u
  := by
  intro h
  have hrun := h (Text.ofString "// /*\nx */") (Text.ofString "\nx */") (by decide +kernel)
  revert hrun
  decide +kernel

end Comment

end ShaderPair
