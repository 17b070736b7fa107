import ShaderPair.Define
import ShaderPair.Proofs.Lines

/-!
# The search for directives

There are two views of a directive.  `Define.ofLine?` reads a whole line; what it finds is a
keyword behind gaps, a name behind more gaps, and the rest of the line (`Define.DefinesLine`).
`Define.valueOf` applies wherever the keyword and a given name stand in a text
(`Define.Defines`), also in the middle of a line, and gives the rest of the line without the
blanks around it.  So the search for the value of a name skips the lines without such a place
(`Define.find?_line`) and stops at the first directive for the name
(`Define.find?_directive`).
-/

namespace ShaderPair

namespace Define

open Pattern
open Text (isGap isWord words singles Apart IsIdentifier)

/-! ### Patterns -/

/-- The first choice for one or more characters of a class is all of them. -/
theorem someOf_append
    {p : Char → Bool} {g t : Text} (hne : g ≠ []) (hg : ∀ c ∈ g, p c)
    (ht : ∀ c ∈ t.head?, ¬ p c) :
  ∃ ways, someOf p (g ++ t) = ((), t) :: ways
  := by
  have hafter : ∀ g ways, (∀ c ∈ g, p c) →
      ∃ ways', someOfAfter p ways (g ++ t) = ((), t) :: ways' := by
    intro g
    induction g with
    | nil =>
      intro ways _
      cases t with
      | nil => exact ⟨ways, rfl⟩
      | cons c r =>
        use ways
        rw [List.nil_append, someOfAfter, if_neg (ht c rfl)]
    | cons c g ih =>
      intro ways hg
      obtain ⟨hc, hg⟩ := List.forall_mem_cons.mp hg
      rw [List.cons_append, someOfAfter, if_pos hc]
      apply ih _ hg
  cases g with
  | nil => exact absurd rfl hne
  | cons c g =>
    obtain ⟨hc, hg⟩ := List.forall_mem_cons.mp hg
    rw [List.cons_append, someOf, if_pos hc]
    apply hafter g [] hg

theorem exists_of_mem_someOfAfter
    {p : Char → Bool} {t : Text} {ways : List (Unit × Text)} {way : Unit × Text}
    (h : way ∈ someOfAfter p ways t) :
  way ∈ ways ∨ ∃ g, (∀ c ∈ g, p c) ∧ t = g ++ way.2
  := by
  induction t generalizing ways with
  | nil =>
    rcases List.mem_cons.mp h with rfl | h
    · right
      exact ⟨[], by simp, rfl⟩
    · left
      exact h
  | cons c r ih =>
    have hstop : way ∈ ((), c :: r) :: ways →
        way ∈ ways ∨ ∃ g, (∀ c ∈ g, p c) ∧ c :: r = g ++ way.2 := by
      intro h
      rcases List.mem_cons.mp h with rfl | h
      · right
        exact ⟨[], by simp, rfl⟩
      · left
        exact h
    rw [someOfAfter] at h
    split at h
    next hc =>
      rcases ih h with h | ⟨g, hg, rfl⟩
      · apply hstop h
      · right
        exact ⟨c :: g, List.forall_mem_cons.mpr ⟨hc, hg⟩, rfl⟩
    next => apply hstop h

/-- Every choice for one or more characters of a class is some of them. -/
theorem exists_of_mem_someOf
    {p : Char → Bool} {t : Text} {way : Unit × Text} (h : way ∈ someOf p t) :
  ∃ g, g ≠ [] ∧ (∀ c ∈ g, p c) ∧ t = g ++ way.2
  := by
  cases t with
  | nil => cases h
  | cons c r =>
    rw [someOf] at h
    split at h
    next hc =>
      rcases exists_of_mem_someOfAfter h with h | ⟨g, hg, rfl⟩
      · cases h
      · refine ⟨c :: g, List.cons_ne_nil c g, ?_, rfl⟩
        rw [List.forall_mem_cons]
        exact ⟨hc, hg⟩
    next => cases h

theorem eq_of_mem_word {w t : Text} {way : Unit × Text} (h : way ∈ word w t) :
  t = w ++ way.2
  := by
  rw [word] at h
  split at h
  next hw =>
    obtain ⟨r, rfl⟩ := List.isPrefixOf_iff_prefix.mp hw
    rw [List.mem_singleton.mp h, List.drop_left]
  next => cases h

theorem word_append (w t : Text) :
  word w (w ++ t) = [((), t)]
  := by
  rw [word, if_pos (by simp), List.drop_left]

/-- A run of characters of a class ends where the class does. -/
theorem takeWhile_dropWhile_append
    {p : Char → Bool} {g t : Text} (hg : ∀ c ∈ g, p c) (ht : ∀ c ∈ t.head?, ¬ p c) :
  (g ++ t).takeWhile p = g ∧ (g ++ t).dropWhile p = t
  := by
  rw [List.takeWhile_append_of_pos hg, List.dropWhile_append_of_pos hg]
  cases t with
  | nil => exact ⟨List.append_nil g, rfl⟩
  | cons c t =>
    have hc : ¬ p c := ht c rfl
    rw [List.takeWhile_cons_of_neg hc, List.dropWhile_cons_of_neg hc]
    exact ⟨List.append_nil g, rfl⟩

theorem all_append
    {p : Char → Bool} {g t : Text} (hg : ∀ c ∈ g, p c) (ht : ∀ c ∈ t.head?, ¬ p c) :
  all p (g ++ t) = [(g, t)]
  := by
  obtain ⟨htake, hdrop⟩ := takeWhile_dropWhile_append hg ht
  rw [all, htake, hdrop]

theorem all_true (t : Text) :
  all (fun _ => true) t = [(t, [])]
  := by
  have hall := all_append (p := fun _ => true) (g := t) (t := []) (fun _ _ => rfl) (by simp)
  rwa [List.append_nil] at hall

theorem all1_append
    {p : Char → Bool} {g t : Text} (hne : g ≠ []) (hg : ∀ c ∈ g, p c)
    (ht : ∀ c ∈ t.head?, ¬ p c) :
  all1 p (g ++ t) = [(g, t)]
  := by
  obtain ⟨htake, hdrop⟩ := takeWhile_dropWhile_append hg ht
  rw [all1, htake, hdrop, if_neg (by simpa using hne)]

theorem eq_of_mem_all1 {p : Char → Bool} {t : Text} {way : Text × Text} (h : way ∈ all1 p t) :
  way.1 ≠ [] ∧ (∀ c ∈ way.1, p c) ∧ t = way.1 ++ way.2 ∧ ∀ c ∈ way.2.head?, ¬ p c
  := by
  rw [all1] at h
  split at h
  next => cases h
  next hne =>
    rw [List.mem_singleton.mp h]
    refine ⟨by simpa using hne, fun c hc => List.mem_takeWhile_imp hc,
      List.takeWhile_append_dropWhile.symm, ?_⟩
    intro c hc
    have hnot := List.head?_dropWhile_not p t
    rw [Option.mem_def.mp hc] at hnot
    simpa using hnot

/-- A word boundary follows an identifier where the rest is apart from it. -/
theorem mem_boundary_iff {w t : Text} (hw : IsIdentifier w) {way : Unit × Text} :
  way ∈ boundary w.getLast? t ↔ Apart w t ∧ way = ((), t)
  := by
  have hlast := List.getLast?_eq_some_getLast hw.1
  have hword := hw.2 _ (List.mem_of_getLast? hlast)
  have hiff : Text.isBoundary w.getLast? t.head? ↔ Apart w t := by
    rw [Text.isBoundary, Apart, hlast]
    cases t.head? with
    | none => simp [hword]
    | some d => simp [hword]
  rw [boundary, ← hiff]
  split
  next h => simp [h]
  next h => simp [h]

/-- What is found in a text is recognised at some place of it. -/
theorem exists_first?_of_find?
    {α : Type} {p : Pattern α} {t : Text} {a : α} (h : find? p t = some a) :
  ∃ s, s <:+ t ∧ ∃ rest, first? p s = some (a, rest)
  := by
  induction t with
  | nil =>
    obtain ⟨way, hway, rfl⟩ := Option.map_eq_some_iff.mp h
    exact ⟨[], List.suffix_rfl, way.2, hway⟩
  | cons c t ih =>
    rw [find?] at h
    split at h
    next way hway =>
      obtain rfl := Option.some.inj h
      exact ⟨c :: t, List.suffix_rfl, way.2, hway⟩
    next =>
      obtain ⟨s, hs, hfirst⟩ := ih h
      exact ⟨s, hs.trans (List.suffix_cons c t), hfirst⟩

/-! ### Directives inside a text -/

/-- The identifier in the keyword. -/
def keywordName : Text := "define"

theorem keyword_eq :
  keyword = '#' :: keywordName
  := by
  decide +kernel

theorem isIdentifier_keywordName :
  IsIdentifier keywordName
  := by
  decide +kernel

/-- A text starts with the keyword, a gap and a name. -/
def Defines (name t : Text) : Prop :=
  ∃ g rest, g ≠ [] ∧ (∀ c ∈ g, isGap c) ∧ Apart name rest ∧ t = keyword ++ (g ++ (name ++ rest))

/-- The value that a directive has at its place: the rest of the line without the blanks around
it. -/
theorem first?_valueOf
    {name g rest : Text} (hname : IsIdentifier name) (hne : g ≠ []) (hg : ∀ c ∈ g, isGap c)
    (hrest : Apart name rest) :
  first? (valueOf name) (keyword ++ (g ++ (name ++ rest)))
    = some (Text.trim (rest.takeWhile (· != '\n')), rest.dropWhile (· != '\n'))
  := by
  have hstop : ∀ c ∈ (name ++ rest).head?, ¬ isGap c := by
    intro c hc hgap
    rw [List.head?_append_of_ne_nil _ hname.1] at hc
    exact Text.not_isWord_of_isGap hgap (hname.2 c (List.mem_of_mem_head? hc))
  obtain ⟨ways, hways⟩ := someOf_append hne hg hstop
  have hboundary : boundary name.getLast? rest = [((), rest)] := by
    have hmem := (mem_boundary_iff hname).mpr ⟨hrest, rfl⟩
    rw [boundary] at hmem ⊢
    split
    next => rfl
    next h =>
      rw [if_neg h] at hmem
      cases hmem
  simp only [first?, valueOf, bind_apply, word_append, hways, hboundary, List.flatMap_cons,
    List.flatMap_nil, List.append_nil]
  rfl

/-- A place where the search for the value of a name stops. -/
theorem defines_of_first?_valueOf
    {name t : Text} (hname : IsIdentifier name) {way : Text × Text}
    (h : first? (valueOf name) t = some way) :
  Defines name t
  := by
  have hmem := List.mem_of_mem_head? h
  simp only [valueOf, mem_bind_iff] at hmem
  obtain ⟨w₁, h₁, w₂, h₂, w₃, h₃, w₄, h₄, -⟩ := hmem
  obtain ⟨g, hne, hg, hgap⟩ := exists_of_mem_someOf h₂
  obtain ⟨hapart, rfl⟩ := (mem_boundary_iff hname).mp h₄
  refine ⟨g, w₃.2, hne, hg, hapart, ?_⟩
  rw [eq_of_mem_word h₁, hgap, eq_of_mem_word h₃]

/-- Whether a directive starts a text shows in the first line. -/
theorem Defines.of_append
    {name l t : Text} (hname : IsIdentifier name) (h : Defines name (l ++ '\n' :: t)) :
  Defines name l
  := by
  obtain ⟨g, rest, hne, hg, hrest, ht⟩ := h
  have hbreak : '\n' ∉ keyword ++ (g ++ name) := by
    simp only [List.mem_append, not_or]
    refine ⟨by decide +kernel, fun hmem => ?_, fun hmem => ?_⟩
    · exact absurd (hg _ hmem) (by decide)
    · exact absurd (hname.2 _ hmem) (by decide)
  have hassoc : keyword ++ (g ++ (name ++ rest)) = keyword ++ (g ++ name) ++ rest := by
    simp only [List.append_assoc]
  rw [hassoc] at ht
  rcases List.append_eq_append_iff.mp ht with ⟨s, hs, hrest'⟩ | ⟨s, hs, hrest'⟩
  · cases s with
    | nil =>
      refine ⟨g, [], hne, hg, Text.apart_nil name, ?_⟩
      simpa using hs.symm
    | cons c s =>
      cases hrest'
      rw [hs] at hbreak
      exact absurd (by simp) hbreak
  · subst hs
    refine ⟨g, s, hne, hg, ?_, by simp only [List.append_assoc]⟩
    cases s with
    | nil => apply Text.apart_nil
    | cons c s =>
      subst hrest'
      exact hrest

/-- Where a pattern does not apply at the places of a text, the search goes on behind it. -/
theorem find?_append
    {α : Type} {p : Pattern α} {s t : Text}
    (h : ∀ u, u ≠ [] → u <:+ s → first? p (u ++ t) = none) :
  find? p (s ++ t) = find? p t
  := by
  induction s with
  | nil => rfl
  | cons c s ih =>
    have hc := h (c :: s) (List.cons_ne_nil c s) List.suffix_rfl
    rw [List.cons_append] at hc ⊢
    rw [find?, hc]
    apply ih
    intro u hne hu
    apply h u hne (hu.trans (List.suffix_cons c s))

/-- A line without a directive for the name is skipped. -/
theorem find?_line
    {name l : Text} (hname : IsIdentifier name) (h : ∀ s, s <:+ l → ¬ Defines name s) (t : Text) :
  find? (valueOf name) (l ++ '\n' :: t) = find? (valueOf name) t
  := by
  have hnone : ∀ u, (¬ Defines name u) → first? (valueOf name) u = none := by
    intro u hu
    cases hway : first? (valueOf name) u with
    | none => rfl
    | some way => exact absurd (defines_of_first?_valueOf hname hway) hu
  have hassoc : l ++ '\n' :: t = (l ++ ['\n']) ++ t := by simp
  rw [hassoc]
  apply find?_append
  intro u hne hu
  apply hnone
  intro hdefines
  rw [List.suffix_concat_iff] at hu
  rcases hu with rfl | ⟨s, rfl, hs⟩
  · exact absurd rfl hne
  · rw [List.append_assoc] at hdefines
    exact h s hs (hdefines.of_append hname)

/-- The search stops at a directive for the name behind a gap. -/
theorem find?_directive
    {name indent g rest : Text} (hname : IsIdentifier name) (hindent : ∀ c ∈ indent, isGap c)
    (hne : g ≠ []) (hg : ∀ c ∈ g, isGap c) (hrest : Apart name rest) :
  find? (valueOf name) (indent ++ (keyword ++ (g ++ (name ++ rest))))
    = some (Text.trim (rest.takeWhile (· != '\n')))
  := by
  rw [find?_append]
  · have hfirst := first?_valueOf hname hne hg hrest
    rw [keyword_eq, List.cons_append] at hfirst ⊢
    rw [find?, hfirst]
  · intro u hu hsuffix
    cases hway : first? (valueOf name) (u ++ (keyword ++ (g ++ (name ++ rest)))) with
    | none => rfl
    | some way =>
      obtain ⟨_, _, -, -, -, ht⟩ := defines_of_first?_valueOf hname hway
      obtain ⟨c, u, rfl⟩ := List.exists_cons_of_ne_nil hu
      rw [keyword_eq] at ht
      obtain ⟨rfl, -⟩ := List.cons.inj ht
      exact absurd (hindent '#' (hsuffix.subset List.mem_cons_self)) (by decide)

/-! ### Directive lines -/

/-- A line is a directive for a name, with the given rest behind it. -/
def DefinesLine (name rest l : Text) : Prop :=
  ∃ indent g, (∀ c ∈ indent, isGap c) ∧ g ≠ [] ∧ (∀ c ∈ g, isGap c) ∧ IsIdentifier name ∧
    Apart name rest ∧ l = indent ++ (keyword ++ (g ++ (name ++ rest)))

theorem words_keywordName
    {g name rest : Text} (hne : g ≠ []) (hg : ∀ c ∈ g, isGap c) (hname : IsIdentifier name)
    (hrest : Apart name rest) :
  words (keywordName ++ (g ++ (name ++ rest)))
    = keywordName :: (singles g ++ name :: words rest)
  := by
  have hgap : Apart keywordName (g ++ (name ++ rest)) := by
    apply Text.apart_of_head?
    intro c hc
    rw [List.head?_append_of_ne_nil _ hne] at hc
    apply Text.not_isWord_of_isGap (hg c (List.mem_of_mem_head? hc))
  rw [isIdentifier_keywordName.words_append hgap,
    Text.words_append_of_not_isWord fun c hc => Text.not_isWord_of_isGap (hg c hc),
    hname.words_append hrest]

/-- The words of a keyword behind gaps and of what follows. -/
theorem words_keyword {indent : Text} (hindent : ∀ c ∈ indent, isGap c) (t : Text) :
  words (indent ++ (keyword ++ t)) = singles indent ++ ['#'] :: words (keywordName ++ t)
  := by
  rw [Text.words_append_of_not_isWord fun c hc => Text.not_isWord_of_isGap (hindent c hc),
    keyword_eq, List.cons_append, Text.words_cons_of_not_isWord (by decide)]

/-- What stands behind the first character of a keyword behind gaps. -/
theorem tail_dropWhile_keyword {indent : Text} (hindent : ∀ c ∈ indent, isGap c) (t : Text) :
  ((indent ++ (keyword ++ t)).dropWhile isGap).tail = keywordName ++ t
  := by
  rw [List.dropWhile_append_of_pos hindent, keyword_eq, List.cons_append,
    List.dropWhile_cons_of_neg (by decide), List.tail_cons]

/-- What the rest of a line behind a name gives as its value. -/
def lineValue (rest : Text) : Text :=
  let value := Text.dropEndWhile isGap (rest.dropWhile isGap)
  if value.isEmpty then switchValue else value

theorem exists_definesLine_of_ofLine?
    {l name value : Text} (h : ofLine? l = some (name, value)) :
  ∃ rest, DefinesLine name rest l ∧ value = lineValue rest
  := by
  obtain ⟨⟨⟨n, v⟩, r⟩, hway, heq⟩ := Option.map_eq_some_iff.mp h
  have hmem := List.mem_of_mem_head? hway
  simp only [directive, mem_bind_iff, pure_apply, List.mem_singleton] at hmem
  obtain ⟨w₁, h₁, w₂, h₂, w₃, h₃, w₄, h₄, w₅, h₅, w₆, h₆, hpure⟩ := hmem
  obtain rfl := List.mem_singleton.mp h₁
  obtain rfl := List.mem_singleton.mp h₅
  obtain rfl := List.mem_singleton.mp (all_true _ ▸ h₆)
  obtain ⟨hne, hgap, ht₃, -⟩ := eq_of_mem_all1 h₃
  obtain ⟨hnil, hword, ht₄, hstop⟩ := eq_of_mem_all1 h₄
  cases hpure
  cases heq
  use w₄.2
  constructor
  · refine ⟨l.takeWhile isGap, w₃.1, fun c hc => List.mem_takeWhile_imp hc, hne, hgap,
      ⟨hnil, hword⟩, Text.apart_of_head? hstop _, ?_⟩
    rw [← ht₄, ← ht₃, ← eq_of_mem_word h₂, List.takeWhile_append_dropWhile]
  · rfl

/-- A directive line defines its name. -/
theorem ofLine?_of_definesLine {l name rest : Text} (h : DefinesLine name rest l) :
  ofLine? l = some (name, lineValue rest)
  := by
  obtain ⟨indent, g, hindent, hne, hg, hname, hrest, rfl⟩ := h
  have hkeyword : ∀ c ∈ (keyword ++ (g ++ (name ++ rest))).head?, ¬ isGap c := by
    rw [keyword_eq]
    rintro _ ⟨⟩
    decide
  have hstart : ∀ c ∈ (name ++ rest).head?, ¬ isGap c := by
    intro c hc hgap
    rw [List.head?_append_of_ne_nil _ hname.1] at hc
    exact Text.not_isWord_of_isGap hgap (hname.2 c (List.mem_of_mem_head? hc))
  have hstop : ∀ c ∈ rest.head?, ¬ isWord c := by
    have hlast := List.getLast?_eq_some_getLast hname.1
    intro c hc
    apply hrest _ hlast c hc (hname.2 _ (List.mem_of_getLast? hlast))
  rw [ofLine?, first?, directive]
  simp only [bind_apply, pure_apply, all_append hindent hkeyword, word_append,
    all1_append hne hg hstart, all1_append hname.1 hname.2 hstop, all_true, List.flatMap_cons,
    List.flatMap_nil, List.append_nil]
  rfl

/-- What a line defines. -/
theorem ofLine?_eq_some_iff {l name value : Text} :
  ofLine? l = some (name, value) ↔ ∃ rest, DefinesLine name rest l ∧ value = lineValue rest
  := by
  constructor
  · apply exists_definesLine_of_ofLine?
  · rintro ⟨rest, hdefines, rfl⟩
    apply ofLine?_of_definesLine hdefines

/-- What a line defines: the rest of the line without the blanks around it is the value, blanks
aside. -/
theorem definesLine_of_ofLine?
    {l name value : Text} (h : ofLine? l = some (name, value)) :
  ∃ rest, DefinesLine name rest l ∧
    (value ≠ switchValue → Text.trim value = Text.trim rest)
  := by
  obtain ⟨rest, hdefines, rfl⟩ := ofLine?_eq_some_iff.mp h
  refine ⟨rest, hdefines, ?_⟩
  rw [lineValue]
  intro hvalue
  split
  next hempty =>
    rw [if_pos hempty] at hvalue
    exact absurd rfl hvalue
  next => apply Text.trim_strip

end Define

end ShaderPair
