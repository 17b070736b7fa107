import ShaderPair.Proofs.Replacement
import ShaderPair.Text.Class
import Mathlib.Data.List.Chain
import Mathlib.Data.List.TakeWhile

/-!
# Words

The words of a text (`Text.words`) are its identifiers, each as long as it can be, and its other
characters, each one alone.  Put together they give the text again.  A list of identifiers and
single characters consists of the words of a text if no two identifiers stand next to each other
(`Text.IsWords.words_flatten`).  An occurrence of an identifier lies inside one word; where it is
the whole word each time, exchanging it for a text exchanges words
(`Text.IsWords.replace_flatten`).  In any case it is exchanged in each word on its own
(`Text.IsIdentifier.replace_eq_flatMap`).
-/

namespace ShaderPair

namespace Text

/-- Numbers are written in digits. -/
theorem not_mem_ofNat {c : Char} (hc : c.isDigit = false) (n : Nat) :
  c ∉ ofNat n
  := by
  intro hmem
  rw [Nat.isDigit_of_mem_toDigits (by decide) (by decide) hmem] at hc
  cases hc

/-! ### Tokens -/

/-- One or more characters of identifiers. -/
def IsIdentifier (w : Text) : Prop := w ≠ [] ∧ ∀ c ∈ w, isWord c

theorem isIdentifier_iff (w : Text) :
  IsIdentifier w ↔ (!w.isEmpty && w.all isWord) = true
  := by
  simp [IsIdentifier]

instance : DecidablePred IsIdentifier := fun w => decidable_of_iff' _ (isIdentifier_iff w)

/-- Where a character of identifiers stands, a whole identifier starts. -/
theorem exists_identifier {c : Char} (hc : isWord c) (t : Text) :
  ∃ w s, IsIdentifier w ∧ (∀ d ∈ s.head?, ¬ isWord d) ∧ c :: t = w ++ s
  := by
  refine ⟨c :: t.takeWhile isWord, t.dropWhile isWord, ⟨List.cons_ne_nil _ _, ?_⟩, ?_, ?_⟩
  · intro d hd
    rcases List.mem_cons.mp hd with rfl | hd
    · exact hc
    · exact List.mem_takeWhile_imp hd
  · intro d hd
    have hnot := List.head?_dropWhile_not isWord t
    rw [Option.mem_def.mp hd] at hnot
    simpa using hnot
  · rw [List.cons_append, List.takeWhile_append_dropWhile]

/-- An identifier or one other character. -/
def IsToken (w : Text) : Prop := IsIdentifier w ∨ ∃ c, w = [c] ∧ ¬ isWord c

/-- No identifier runs from one text into the other. -/
def Apart (t u : Text) : Prop := ∀ c ∈ t.getLast?, ∀ d ∈ u.head?, isWord c → ¬ isWord d

theorem isToken_singleton (c : Char) :
  IsToken [c]
  := by
  by_cases hc : isWord c
  · left
    use List.cons_ne_nil c []
    simpa using hc
  · right
    use c

theorem IsToken.ne_nil {w : Text} (h : IsToken w) :
  w ≠ []
  := by
  rcases h with h | ⟨c, rfl, -⟩
  · apply h.1
  · apply List.cons_ne_nil

/-- A token with a character of identifiers is an identifier. -/
theorem IsToken.isIdentifier {w : Text} (h : IsToken w) {c : Char} (hc : c ∈ w) (hw : isWord c) :
  IsIdentifier w
  := by
  rcases h with h | ⟨d, rfl, hd⟩
  · exact h
  · rw [List.mem_singleton.mp hc] at hw
    exact absurd hw hd

theorem apart_nil (t : Text) :
  Apart t []
  := by
  intro c _ d hd
  cases hd

theorem nil_apart (t : Text) :
  Apart [] t
  := by
  intro c hc
  cases hc

/-- A text that ends in no character of identifiers is apart from all that follows. -/
theorem apart_of_getLast? {t : Text} (h : ∀ c ∈ t.getLast?, ¬ isWord c) (u : Text) :
  Apart t u
  := fun c hc _ _ hw => absurd hw (h c hc)

/-- A text that starts with no character of identifiers is apart from all in front of it. -/
theorem apart_of_head? {u : Text} (h : ∀ d ∈ u.head?, ¬ isWord d) (t : Text) :
  Apart t u
  := fun _ _ d hd _ => h d hd

theorem Apart.of_cons {c d : Char} {t u : Text} (h : Apart (c :: d :: t) u) :
  Apart (d :: t) u
  := by
  intro e he
  apply h e
  rw [List.getLast?_cons_cons]
  exact he

/-! ### The words of a text -/

/-- The words of a text with one more character in front of it. -/
def consWord (c : Char) : List Text → List Text
  | [] => [[c]]
  | w :: ws => if isWord c && w.head?.any isWord then (c :: w) :: ws else [c] :: w :: ws

/-- The characters of a text, each one alone. -/
def singles (t : Text) : List Text := t.map ([·])

theorem mem_singles {w t : Text} :
  w ∈ singles t ↔ ∃ c ∈ t, [c] = w
  := List.mem_map

/-- Characters outside of identifiers are no identifiers on their own. -/
theorem not_isIdentifier_of_mem_singles {t : Text} (ht : ∀ c ∈ t, ¬ isWord c) :
  ∀ w ∈ singles t, ¬ IsIdentifier w
  := by
  intro w hw hident
  obtain ⟨c, hc, rfl⟩ := mem_singles.mp hw
  exact ht c hc (hident.2 c List.mem_cons_self)

@[simp]
theorem flatten_singles (t : Text) :
  (singles t).flatten = t
  := by
  induction t with
  | nil => rfl
  | cons c r ih => rw [singles, List.map_cons, List.flatten_cons, ← singles, ih]; rfl

/-- The identifiers of a text, each as long as it can be, and its other characters, each one
alone. -/
def words : Text → List Text
  | [] => []
  | c :: r => consWord c (words r)

@[simp]
theorem words_nil :
  words [] = []
  := rfl

theorem consWord_ne_nil (c : Char) (ws : List Text) :
  consWord c ws ≠ []
  := by
  cases ws with
  | nil => apply List.cons_ne_nil
  | cons w ws =>
    rw [consWord]
    split <;> apply List.cons_ne_nil

theorem consWord_append (c : Char) {ws : List Text} (h : ws ≠ []) (us : List Text) :
  consWord c (ws ++ us) = consWord c ws ++ us
  := by
  cases ws with
  | nil => exact absurd rfl h
  | cons w ws =>
    rw [List.cons_append, consWord, consWord]
    split <;> rfl

theorem flatten_consWord (c : Char) (ws : List Text) :
  (consWord c ws).flatten = c :: ws.flatten
  := by
  cases ws with
  | nil => rfl
  | cons w ws =>
    rw [consWord]
    split <;> rfl

/-- The words of a text put together are the text. -/
@[simp]
theorem flatten_words (t : Text) :
  (words t).flatten = t
  := by
  induction t with
  | nil => rfl
  | cons c r ih => rw [words, flatten_consWord, ih]

theorem words_ne_nil {t : Text} (h : t ≠ []) :
  words t ≠ []
  := by
  cases t with
  | nil => exact absurd rfl h
  | cons c r => apply consWord_ne_nil

/-- The words of a text are tokens. -/
theorem isToken_of_mem_words {w t : Text} (h : w ∈ words t) :
  IsToken w
  := by
  induction t generalizing w with
  | nil => cases h
  | cons c r ih =>
    rw [words] at h
    cases hr : words r with
    | nil =>
      rw [hr, consWord, List.mem_singleton] at h
      subst h
      apply isToken_singleton
    | cons u us =>
      rw [hr, consWord] at h
      rw [hr] at ih
      split at h
      next hword =>
        rw [Bool.and_eq_true, Option.any_eq_true] at hword
        obtain ⟨hc, d, hd, hdword⟩ := hword
        rcases List.mem_cons.mp h with rfl | h
        · have hu := (ih List.mem_cons_self).isIdentifier (List.mem_of_mem_head? hd) hdword
          left
          use List.cons_ne_nil c u
          intro e he
          rcases List.mem_cons.mp he with rfl | he
          · exact hc
          · apply hu.2 e he
        · apply ih (List.mem_cons_of_mem u h)
      next =>
        rcases List.mem_cons.mp h with rfl | h
        · apply isToken_singleton
        · apply ih h

/-- The characters of a word are characters of the text. -/
theorem mem_of_mem_words {c : Char} {w t : Text} (hw : w ∈ words t) (hc : c ∈ w) :
  c ∈ t
  := by
  rw [← flatten_words t]
  apply List.mem_flatten_of_mem hw hc

/-- The first word of a text starts with its first character. -/
theorem head?_words_cons (c : Char) (r : Text) :
  ∃ w ws, words (c :: r) = (c :: w) :: ws
  := by
  rw [words]
  cases words r with
  | nil => exact ⟨_, _, rfl⟩
  | cons u us =>
    rw [consWord]
    split <;> exact ⟨_, _, rfl⟩

/-- Of texts that are apart the words are put together. -/
theorem words_append {t u : Text} (h : Apart t u) :
  words (t ++ u) = words t ++ words u
  := by
  induction t with
  | nil => rfl
  | cons c r ih =>
    rw [List.cons_append, words, words]
    cases r with
    | nil =>
      cases u with
      | nil => rfl
      | cons d s =>
        obtain ⟨w, ws, hws⟩ := head?_words_cons d s
        have hcd : ¬ (isWord c ∧ isWord d) := fun ⟨hc, hd⟩ => h c rfl d rfl hc hd
        rw [List.nil_append, hws, consWord, if_neg (by simpa using hcd)]
        rfl
    | cons d s =>
      rw [ih h.of_cons, consWord_append c (words_ne_nil (List.cons_ne_nil d s))]

/-- A character outside of identifiers is a word. -/
theorem words_cons_of_not_isWord {c : Char} (hc : ¬ isWord c) (t : Text) :
  words (c :: t) = [c] :: words t
  := by
  apply words_append (t := [c])
  apply apart_of_getLast?
  intro d hd
  cases hd
  exact hc

/-- Characters outside of identifiers are words. -/
theorem words_append_of_not_isWord {s : Text} (hs : ∀ c ∈ s, ¬ isWord c) (t : Text) :
  words (s ++ t) = singles s ++ words t
  := by
  induction s with
  | nil => rfl
  | cons c s ih =>
    obtain ⟨hc, hs⟩ := List.forall_mem_cons.mp hs
    rw [List.cons_append, words_cons_of_not_isWord hc, ih hs]
    rfl

theorem words_of_not_isWord {s : Text} (hs : ∀ c ∈ s, ¬ isWord c) :
  words s = singles s
  := by
  have hwords := words_append_of_not_isWord hs []
  rwa [List.append_nil, words_nil, List.append_nil] at hwords

/-- An identifier is a single word. -/
theorem IsIdentifier.words_eq {w : Text} (h : IsIdentifier w) :
  words w = [w]
  := by
  obtain ⟨hne, hw⟩ := h
  induction w with
  | nil => exact absurd rfl hne
  | cons c r ih =>
    obtain ⟨hc, hr⟩ := List.forall_mem_cons.mp hw
    cases r with
    | nil => rfl
    | cons d s =>
      have hd := hr d List.mem_cons_self
      rw [words, ih (List.cons_ne_nil d s) hr, consWord, if_pos (by simp [hc, hd])]

theorem IsToken.words_eq {w : Text} (h : IsToken w) :
  words w = [w]
  := by
  rcases h with h | ⟨c, rfl, -⟩
  · apply h.words_eq
  · rfl

/-- An identifier in front of a text that is apart from it is the first word. -/
theorem IsIdentifier.words_append {w t : Text} (hw : IsIdentifier w) (h : Apart w t) :
  words (w ++ t) = w :: words t
  := by
  rw [Text.words_append h, hw.words_eq]
  rfl

/-! ### Lists of words -/

/-- Two words of which not both are identifiers. -/
def Separate (w u : Text) : Prop := IsIdentifier w → ¬ IsIdentifier u

/-- Tokens no two of which would run together. -/
structure IsWords (ws : List Text) : Prop where
  /-- They are tokens. -/
  token : ∀ w ∈ ws, IsToken w
  /-- No two identifiers stand next to each other. -/
  separate : ws.IsChain Separate

theorem IsWords.tail {w : Text} {ws : List Text} (h : IsWords (w :: ws)) :
  IsWords ws
  := ⟨fun u hu => h.token u (List.mem_cons_of_mem w hu), h.separate.tail⟩

/-- The first of some words is apart from the others. -/
theorem IsWords.apart {w : Text} {ws : List Text} (h : IsWords (w :: ws)) :
  Apart w ws.flatten
  := by
  intro c hc d hd hcword hdword
  have hw := (h.token w List.mem_cons_self).isIdentifier (List.mem_of_getLast? hc) hcword
  cases ws with
  | nil => cases hd
  | cons u us =>
    have htoken := h.tail.token u List.mem_cons_self
    rw [List.flatten_cons, List.head?_append_of_ne_nil _ htoken.ne_nil] at hd
    have hu := htoken.isIdentifier (List.mem_of_mem_head? hd) hdword
    apply (List.isChain_cons_cons.mp h.separate).1 hw hu

/-- Tokens no two of which would run together are the words of the text that they form. -/
theorem IsWords.words_flatten {ws : List Text} (h : IsWords ws) :
  words ws.flatten = ws
  := by
  induction ws with
  | nil => rfl
  | cons w ws ih =>
    rw [List.flatten_cons, words_append h.apart, ih h.tail,
      (h.token w List.mem_cons_self).words_eq]
    rfl

/-- No two identifiers among the words of a text stand next to each other. -/
theorem isWords_words (t : Text) :
  IsWords (words t)
  := by
  refine ⟨fun w hw => isToken_of_mem_words hw, ?_⟩
  induction t with
  | nil => apply List.isChain_nil
  | cons c r ih =>
    rw [words]
    cases hr : words r with
    | nil => apply List.isChain_singleton
    | cons w ws =>
      rw [hr] at ih
      rw [consWord]
      split
      next hword =>
        rw [Bool.and_eq_true, Option.any_eq_true] at hword
        obtain ⟨-, d, hd, hdword⟩ := hword
        have htoken : IsToken w := isToken_of_mem_words (t := r) (by simp [hr])
        have hw := htoken.isIdentifier (List.mem_of_mem_head? hd) hdword
        apply ih.imp_head
        intro u hsep _
        apply hsep hw
      next hword =>
        apply List.isChain_cons_cons.mpr ⟨_, ih⟩
        intro hc hw
        obtain ⟨d, s, rfl⟩ := List.exists_cons_of_ne_nil hw.1
        have hdword := hw.2 d List.mem_cons_self
        simp [hc.2 c List.mem_cons_self, hdword] at hword

/-! ### Occurrences of an identifier -/

/-- No occurrence of an identifier runs from one text into another that is apart. -/
theorem IsIdentifier.infix_append_iff {k t u : Text} (hk : IsIdentifier k) (h : Apart t u) :
  k <:+: t ++ u ↔ k <:+: t ∨ k <:+: u
  := by
  rw [List.infix_append_iff]
  constructor
  · rintro (ht | hu | ⟨k₁, k₂, rfl, ht, hu⟩)
    · left; exact ht
    · right; exact hu
    · -- One of the two parts is empty, for else `t` and `u` would not be apart.
      rcases List.eq_nil_or_concat k₁ with rfl | ⟨k₁, c, rfl⟩
      · right; exact hu.isInfix
      · cases k₂ with
        | nil => left; simpa using ht.isInfix
        | cons d k₂ =>
          obtain ⟨s, rfl⟩ := ht
          obtain ⟨s', rfl⟩ := hu
          have hc : isWord c := hk.2 c (by simp)
          have hd : isWord d := hk.2 d (by simp)
          exact absurd hd (h c (by simp) d rfl hc)
  · rintro (ht | hu)
    · left; exact ht
    · right; left; exact hu

/-- An identifier that occurs in a text occurs inside one of its words. -/
theorem IsWords.exists_word_of_occurs
    {k : Text} {ws : List Text} (hws : IsWords ws) (hk : IsIdentifier k)
    (h : k <:+: ws.flatten) :
  ∃ w ∈ ws, k <:+: w
  := by
  induction ws with
  | nil => exact absurd (List.infix_nil.mp h) hk.1
  | cons w ws ih =>
    rw [List.flatten_cons, hk.infix_append_iff hws.apart] at h
    rcases h with h | h
    · use w, List.mem_cons_self
    · obtain ⟨u, hu, hku⟩ := ih hws.tail h
      use u, List.mem_cons_of_mem w hu

/-- Nothing happens to a text in which an identifier does not occur, if the rest is apart. -/
theorem replaceAfter_of_not_occurs
    {k w t : Text} (hk : IsIdentifier k) (hw : ¬ k <:+: w) (h : Apart w t) (v : Text) :
  replaceAfter k v 0 (w ++ t) = w ++ replaceAfter k v 0 t
  := by
  induction w with
  | nil => rfl
  | cons c w ih =>
    have hstart : ¬ k.isPrefixOf (c :: w ++ t) := by
      rw [List.isPrefixOf_iff_prefix]
      intro hk'
      obtain ⟨s, hs⟩ := hk'
      rcases List.append_eq_append_iff.mp hs with ⟨k', hk', -⟩ | ⟨k', rfl, ht⟩
      · exact hw ⟨[], k', by simp [hk']⟩
      · cases k' with
        | nil => exact hw (by simp)
        | cons d k' =>
          subst ht
          have he := List.getLast?_eq_some_getLast (List.cons_ne_nil c w)
          have hlast := hk.2 _ (List.mem_append_left _ (List.mem_of_getLast? he))
          exact h _ he d rfl hlast (hk.2 d (by simp))
    have hw' : ¬ k <:+: w := fun hpart => hw (List.infix_cons hpart)
    have h' : Apart w t := by
      cases w with
      | nil => apply nil_apart
      | cons d w => apply h.of_cons
    rw [List.cons_append] at hstart ⊢
    rw [replaceAfter, if_neg hstart, ih hw' h']
    rfl

/-- An identifier that occurs only as a whole word is exchanged word by word. -/
theorem IsWords.replace_flatten
    {k : Text} {ws : List Text} (hws : IsWords ws) (hk : IsIdentifier k)
    (h : ∀ w ∈ ws, k <:+: w → w = k) (v : Text) :
  replace k v ws.flatten = ws.flatMap fun w => if w = k then v else w
  := by
  rw [replace, if_neg (by simpa using hk.1)]
  induction ws with
  | nil => rfl
  | cons w ws ih =>
    obtain ⟨hw, htail⟩ := List.forall_mem_cons.mp h
    rw [List.flatten_cons, List.flatMap_cons, ← ih hws.tail htail]
    split
    next heq =>
      subst heq
      apply replaceAfter_self hk.1
    next hne => apply replaceAfter_of_not_occurs hk (fun hpart => hne (hw hpart)) hws.apart

/-! ### Exchange in parts of a text -/

/-- An identifier does not start in a text and end in what follows, if that is apart. -/
theorem IsIdentifier.prefix_append_iff
    {k t u : Text} (hk : IsIdentifier k) (ht : t ≠ []) (h : Apart t u) :
  k <+: t ++ u ↔ k <+: t
  := by
  constructor
  · rintro ⟨s, hs⟩
    rcases List.append_eq_append_iff.mp hs with ⟨k', rfl, -⟩ | ⟨k', rfl, hu⟩
    · apply List.prefix_append
    · cases k' with
      | nil => simp
      | cons d k' =>
        -- The last character of `t` and the first one of `u` would belong to an identifier.
        subst hu
        have hlast := List.getLast?_eq_some_getLast ht
        have hword := hk.2 _ (List.mem_append_left _ (List.mem_of_getLast? hlast))
        exact absurd (hk.2 d (by simp)) (h _ hlast d rfl hword)
  · intro hstarts
    apply hstarts.trans (List.prefix_append t u)

/-- In texts that are apart an identifier is exchanged in each of them. -/
theorem IsIdentifier.replaceAfter_append
    {k t u : Text} (hk : IsIdentifier k) (h : Apart t u) (v : Text) {skip : Nat}
    (hskip : skip ≤ t.length) :
  replaceAfter k v skip (t ++ u) = replaceAfter k v skip t ++ replaceAfter k v 0 u
  := by
  induction t generalizing skip with
  | nil =>
    obtain rfl := Nat.le_zero.mp hskip
    rfl
  | cons c t ih =>
    have htail : Apart t u := by
      cases t with
      | nil => apply nil_apart
      | cons d t => apply h.of_cons
    cases skip with
    | succ skip =>
      rw [List.cons_append, replaceAfter, replaceAfter]
      apply ih htail
      rw [List.length_cons] at hskip
      omega
    | zero =>
      have hstart : k.isPrefixOf (c :: t ++ u) = k.isPrefixOf (c :: t) := by
        rw [Bool.eq_iff_iff, List.isPrefixOf_iff_prefix, List.isPrefixOf_iff_prefix,
          hk.prefix_append_iff (List.cons_ne_nil c t) h]
      rw [List.cons_append] at hstart ⊢
      rw [replaceAfter, replaceAfter, hstart]
      split
      next hstarts =>
        have hle := (List.isPrefixOf_iff_prefix.mp hstarts).length_le
        rw [List.length_cons] at hle
        rw [ih htail (by omega), List.append_assoc]
      next => rw [ih htail (Nat.zero_le _), List.cons_append]

theorem IsIdentifier.replace_append
    {k t u : Text} (hk : IsIdentifier k) (h : Apart t u) (v : Text) :
  replace k v (t ++ u) = replace k v t ++ replace k v u
  := by
  rw [replace, replace, replace, if_neg (by simpa using hk.1), if_neg (by simpa using hk.1),
    if_neg (by simpa using hk.1)]
  apply hk.replaceAfter_append h v (Nat.zero_le _)

/-- An identifier is exchanged in each word on its own. -/
theorem IsIdentifier.replace_eq_flatMap {k : Text} (hk : IsIdentifier k) (v t : Text) :
  replace k v t = (words t).flatMap (replace k v)
  := by
  have hwords : ∀ ws, IsWords ws → replace k v ws.flatten = ws.flatMap (replace k v) := by
    intro ws hws
    induction ws with
    | nil => rw [List.flatten_nil, replace, if_neg (by simpa using hk.1)]; rfl
    | cons w ws ih =>
      rw [List.flatten_cons, List.flatMap_cons, hk.replace_append hws.apart, ih hws.tail]
  conv_lhs => rw [← flatten_words t]
  apply hwords _ (isWords_words t)

end Text

end ShaderPair
