import ShaderPair.Text.Class

/-!
# Patterns

A `Pattern` recognises beginnings of a text.  For every way in which it can be read it gives
what it recognised and the rest of the text, and it gives the preferred way first.  The first
way of a composed pattern is the one in which the earliest choice is the most preferred, so
`Pattern.first?` takes the head of the list.  `Pattern.once` and `Pattern.onceThen` keep no way
but that one.  `Pattern.find?` looks for the leftmost place of a text at which a pattern
applies, and `Pattern.whole?` asks for a reading that uses the whole text.
-/

namespace ShaderPair

/-- The ways to recognise a beginning of a text, the preferred one first; each way consists of
what was recognised and the rest of the text. -/
def Pattern (α : Type) : Type := Text → List (α × Text)

namespace Pattern

variable {α β : Type}

/-! ### Composition -/

instance : Monad Pattern where
  pure a := fun t => [(a, t)]
  bind p f := fun t => (p t).flatMap fun way => f way.1 way.2

/-- The ways of `p`, then the ways of `q`. -/
instance : OrElse (Pattern α) where
  orElse p q := fun t => p t ++ q () t

/-- The ways of `p`, and as the last choice nothing at all. -/
def optional (p : Pattern α) : Pattern (Option α) :=
  fun t => (p t).map (fun way => (some way.1, way.2)) ++ [(none, t)]

@[simp]
theorem pure_apply (a : α) (t : Text) :
  (pure a : Pattern α) t = [(a, t)]
  := rfl

@[simp]
theorem bind_apply (p : Pattern α) (f : α → Pattern β) (t : Text) :
  (p >>= f) t = (p t).flatMap fun way => f way.1 way.2
  := rfl

/-- A way of a composition is a way of its first part, followed by one of the second. -/
theorem mem_bind_iff {p : Pattern α} {f : α → Pattern β} {t : Text} {way : β × Text} :
  way ∈ (p >>= f) t ↔ ∃ first ∈ p t, way ∈ f first.1 first.2
  := List.mem_flatMap

@[simp]
theorem orElse_apply (p q : Pattern α) (t : Text) :
  (p <|> q) t = p t ++ q t
  := rfl

@[simp]
theorem optional_apply (p : Pattern α) (t : Text) :
  optional p t = (p t).map (fun way => (some way.1, way.2)) ++ [(none, t)]
  := rfl

/-! ### Words and runs of characters -/

/-- The characters of `word`. -/
def word (w : Text) : Pattern Unit :=
  fun t => if w.isPrefixOf t then [((), t.drop w.length)] else []

/-- One of some values, each recognised by its word; earlier ones are preferred. -/
def oneOf : List (Text × α) → Pattern α
  | [] => fun _ => []
  | (w, a) :: rest => fun t =>
    (if w.isPrefixOf t then [(a, t.drop w.length)] else []) ++ oneOf rest t

/-- All characters of class `p` at the beginning, at least none. -/
def all (p : Char → Bool) : Pattern Text := fun t => [(t.takeWhile p, t.dropWhile p)]

/-- All characters of class `p` at the beginning, at least one. -/
def all1 (p : Char → Bool) : Pattern Text :=
  fun t => if (t.takeWhile p).isEmpty then [] else [(t.takeWhile p, t.dropWhile p)]

/-- `someOf` after its first character, where `ways` are the ways that stop earlier. -/
def someOfAfter (p : Char → Bool) (ways : List (Unit × Text)) : Text → List (Unit × Text)
  | [] => ((), []) :: ways
  | c :: r => if p c then someOfAfter p (((), c :: r) :: ways) r else ((), c :: r) :: ways

/-- One or more characters of class `p`, more of them preferred. -/
def someOf (p : Char → Bool) : Pattern Unit
  | [] => []
  | c :: r => if p c then someOfAfter p [] r else []

/-- All blanks. -/
def blanks : Pattern Unit := fun t => [((), t.dropWhile Text.isBlank)]

/-- All blanks, at least one. -/
def blanks1 : Pattern Unit
  | [] => []
  | c :: r => if Text.isBlank c then [((), r.dropWhile Text.isBlank)] else []

/-- The characters up to the first occurrence of `w`, and `w`. -/
def upTo (w : Text) : Pattern Text :=
  fun t =>
    match Text.indexOf? w t with
    | none => []
    | some i => [(t.take i, t.drop (i + w.length))]

/-- `upToLast` after the characters `before`, in reverse order, where `ways` are the ways with
an earlier closer. -/
def upToLastAfter (p : Char → Bool) (closer : Char) (before : Text) (ways : List (Text × Text)) :
    Text → List (Text × Text)
  | [] => ways
  | c :: r =>
    if p c then
      upToLastAfter p closer (c :: before)
        (if c = closer && !before.isEmpty then (before, r) :: ways else ways) r
    else match (c :: r).dropWhile Text.isBlank with
      | [] => ways
      | d :: s => if d = closer && !before.isEmpty then (before, s) :: ways else ways

/-- One or more characters of class `p`, then blanks if there are any, then the character
`closer`.  The characters may be closers themselves, and a later closer is preferred.  The
characters of class `p` are given from right to left. -/
def upToLast (p : Char → Bool) (closer : Char) : Pattern Text := upToLastAfter p closer [] []

/-- Nothing; it gives the text that is there. -/
def here : Pattern Text := fun t => [(t, t)]

/-- Nothing, where a word boundary follows the character `before`. -/
def boundary (before : Option Char) : Pattern Unit :=
  fun t => if Text.isBoundary before t.head? then [((), t)] else []

/-! ### Use -/

/-- The preferred way to recognise a beginning of a text. -/
def first? (p : Pattern α) (t : Text) : Option (α × Text) := (p t).head?

/-- The preferred way of `p`, and no other. -/
def once (p : Pattern α) : Pattern α := fun t => (first? p t).toList

/-- The preferred way of `p` followed by `f`, and no other.  The ways of `p` are tried one after
the other, and none is tried behind the first from which `f` goes on. -/
def onceThen (p : Pattern α) (f : α → Pattern β) : Pattern β :=
  fun t => ((p t).findSome? fun way => first? (f way.1) way.2).toList

/-- Committing to the preferred way may be done on the way. -/
theorem onceThen_eq_once_bind (p : Pattern α) (f : α → Pattern β) :
  onceThen p f = once (p >>= f)
  := by
  funext t
  simp [onceThen, once, first?, List.head?_flatMap]

/-- What a pattern recognises at the leftmost place of a text at which it applies. -/
def find? (p : Pattern α) : Text → Option α
  | [] => (first? p []).map Prod.fst
  | c :: r =>
    match first? p (c :: r) with
    | some way => some way.1
    | none => find? p r

/-- What a pattern recognises in the preferred way that uses the whole text. -/
def whole? (p : Pattern α) (t : Text) : Option α :=
  ((p t).find? fun way => way.2.isEmpty).map Prod.fst

end Pattern

end ShaderPair
