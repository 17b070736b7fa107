/-!
# Texts

A `Text` is the list of its code points; positions and lengths count code points.  A string
literal stands for a text through `Text.ofString`.  `Text.ofNat` and `Text.ofInt` write
numbers in decimal, `Text.byteCount` tells the size of a text in bytes, `Text.lines` and
`Text.unlines` go between a text and its lines, `Text.indexOf?`, `Text.lastIndexOf?` and
`Text.occurs` look for a word or a character, and `Text.replace` exchanges every occurrence
of a word.
-/

namespace ShaderPair

/-- The list of the code points of a piece of source code. -/
abbrev Text := List Char

namespace Text

/-- Named, so that all tests whether a text is in a list share it. -/
instance lawfulBEq : LawfulBEq Text := inferInstance

/-! ### Literals -/

/-- The text of a string literal.  It stays folded until `Text.ofString_eq` opens it. -/
@[irreducible]
def ofString (s : String) : Text := s.toList

theorem ofString_eq (s : String) :
  ofString s = s.toList
  := by
  unfold ofString
  rfl

/-- Opens a literal whose characters are listed. -/
theorem ofString_ofList (t : Text) :
  ofString (String.ofList t) = t
  := by
  rw [ofString_eq]
  exact String.toList_ofList

end Text

/-- A string literal is read as its text. -/
scoped instance : Coe String Text := ⟨Text.ofString⟩

namespace Text

/-! ### Numbers -/

/-- The decimal digits of `n`. -/
def ofNat (n : Nat) : Text := Nat.toDigits 10 n

/-- The decimal digits of `n`, after a minus sign if `n` is negative. -/
def ofInt : Int → Text
  | .ofNat n => ofNat n
  | .negSucc n => '-' :: ofNat (n + 1)

/-! ### Sizes -/

/-- The number of bytes of a text in UTF-8. -/
def byteCount : Text → Nat
  | [] => 0
  | c :: r => c.utf8Size + byteCount r

/-! ### Lines -/

/-- Joins texts, with `separator` between neighbours. -/
def join (separator : Text) : List Text → Text
  | [] => []
  | [t] => t
  | t :: u :: rest => t ++ separator ++ join separator (u :: rest)

/-- The parts of a text between its occurrences of `separator`; there is one more part than
there are occurrences. -/
def splitOn (separator : Char) : Text → List Text
  | [] => [[]]
  | c :: r =>
    if c = separator then [] :: splitOn separator r
    else match splitOn separator r with
      | [] => [[c]]
      | part :: parts => (c :: part) :: parts

/-- The lines of a text, without their line breaks. -/
def lines (t : Text) : List Text := splitOn '\n' t

/-- Lines put together again, with a line break between neighbours. -/
def unlines (ls : List Text) : Text := join ['\n'] ls

theorem splitOn_ne_nil (separator : Char) (t : Text) :
  splitOn separator t ≠ []
  := by
  induction t with
  | nil => simp [splitOn]
  | cons c r ih =>
    unfold splitOn
    split
    · simp
    · split <;> simp

theorem join_cons (separator t : Text) {ts : List Text} (h : ts ≠ []) :
  join separator (t :: ts) = t ++ separator ++ join separator ts
  := by
  cases ts with
  | nil => exact absurd rfl h
  | cons u rest => rfl

theorem join_splitOn (separator : Char) (t : Text) :
  join [separator] (splitOn separator t) = t
  := by
  induction t with
  | nil => rfl
  | cons c r ih =>
    unfold splitOn
    split
    next h => simp [join_cons _ _ (splitOn_ne_nil _ r), ih, h]
    next h =>
      split
      next h' => exact absurd h' (splitOn_ne_nil _ r)
      next part parts h' =>
        rw [h'] at ih
        cases parts with
        | nil => simpa [join] using ih
        | cons q qs => simpa [join] using ih

/-- Splitting a text into lines loses nothing. -/
@[simp]
theorem unlines_lines (t : Text) :
  unlines (lines t) = t
  := join_splitOn '\n' t

/-! ### Searching -/

/-- The position of the first occurrence of `word`. -/
def indexOf? (word : Text) : Text → Option Nat
  | [] => if word.isEmpty then some 0 else none
  | c :: r =>
    if word.isPrefixOf (c :: r) then some 0 else (indexOf? word r).map (· + 1)

/-- The position of the last occurrence of the character `x`. -/
def lastIndexOf? (x : Char) : Text → Option Nat
  | [] => none
  | c :: r =>
    match lastIndexOf? x r with
    | some i => some (i + 1)
    | none => if c = x then some 0 else none

/-- Whether `word` occurs in a text. -/
def occurs (word : Text) (t : Text) : Bool := (indexOf? word t).isSome

/-- Whether a text ends in `ending`. -/
def endsIn (ending t : Text) : Bool := ending.isSuffixOf t

/-! ### Replacing -/

/-- `replace`, inside an occurrence of which `skip` more characters are to be passed over. -/
def replaceAfter (word value : Text) : (skip : Nat) → Text → Text
  | _, [] => []
  | skip + 1, _ :: r => replaceAfter word value skip r
  | 0, c :: r =>
    if word.isPrefixOf (c :: r) then
      value ++ replaceAfter word value (word.length - 1) r
    else
      c :: replaceAfter word value 0 r

/-- Puts `value` in front of every character of a text and at its end. -/
def interleave (value : Text) : Text → Text
  | [] => value
  | c :: r => value ++ c :: interleave value r

/-- Exchanges every occurrence of `word` for `value`, from the left and without overlap.  The
empty word occurs in front of every character and at the end. -/
def replace (word value t : Text) : Text :=
  if word.isEmpty then interleave value t else replaceAfter word value 0 t

end Text

end ShaderPair
