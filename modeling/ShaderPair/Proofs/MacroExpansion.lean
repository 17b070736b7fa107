import ShaderPair.Proofs.Substitution
import Mathlib.Data.List.Infix

/-!
# The expansion of defined names

The defines of a text are layered if each value mentions only names that are defined further up
and the keyword stands only where a directive starts (`Define.Layered`).  Replacing the names then
gives the full expansion, in the directives and below them (`Define.expands_substitute`), if two
things are excluded: that a value starts or ends with a name whose own value is blank, and that a
keyword comes up where the word behind a `#` is replaced.  Neither may be left out, and the values
have to be taken without the blanks around them (`Define.layered_not_expands`).
-/

namespace ShaderPair

namespace Define

open Text (words isGap)
open Relation (TransGen)

/-! ### Layered defines -/

/-- The defines of a text are built up from top to bottom. -/
structure Layered (code : Text) : Prop where
  /-- The keyword stands only at the start of directives. -/
  marked : ∀ l ∈ Text.lines code, keyword <:+: l →
    (ofLine? l).isSome ∧ ¬ keyword <:+: (l.dropWhile isGap).tail
  /-- Every replaced name has one directive. -/
  single : ∀ n ∈ substitutedNames (collect code), ((directives code).map Prod.fst).count n = 1
  /-- The name in the keyword is not replaced. -/
  keyword_kept : keywordName ∉ substitutedNames (collect code)
  /-- A value mentions only those replaced names whose directives stand further up. -/
  upward : ∀ i (hi : i < (directives code).length), ∀ w ∈ words (directives code)[i].2,
    w ∈ substitutedNames (collect code) → w ∈ ((directives code).take i).map Prod.fst
  /-- The keyword stands in no value. -/
  unmarked : ∀ d ∈ directives code, ¬ keyword <:+: d.2
  /-- A replaced name is a whole word wherever it occurs, or it is part of a longer one. -/
  whole : ∀ n ∈ substitutedNames (collect code), ∀ w ∈ words code, n <:+: w →
    w = n ∨ w ∈ substitutedNames (collect code) ∧ n.length < w.length

theorem layered_iff (code : Text) :
  Layered code ↔
    (∀ l ∈ Text.lines code, keyword <:+: l →
      (ofLine? l).isSome ∧ ¬ keyword <:+: (l.dropWhile isGap).tail) ∧
    (∀ n ∈ substitutedNames (collect code), ((directives code).map Prod.fst).count n = 1) ∧
    keywordName ∉ substitutedNames (collect code) ∧
    (∀ i (hi : i < (directives code).length), ∀ w ∈ words (directives code)[i].2,
      w ∈ substitutedNames (collect code) → w ∈ ((directives code).take i).map Prod.fst) ∧
    (∀ d ∈ directives code, ¬ keyword <:+: d.2) ∧
    ∀ n ∈ substitutedNames (collect code), ∀ w ∈ words code, n <:+: w →
      w = n ∨ w ∈ substitutedNames (collect code) ∧ n.length < w.length
  := ⟨fun h => ⟨h.1, h.2, h.3, h.4, h.5, h.6⟩, fun h => ⟨h.1, h.2.1, h.2.2.1, h.2.2.2.1,
    h.2.2.2.2.1, h.2.2.2.2.2⟩⟩

instance (code : Text) : Decidable (Layered code) := decidable_of_iff' _ (layered_iff code)

namespace Layered

variable {code : Text}

/-- The directive for a name that is mentioned stands further up. -/
theorem idxOf_lt
    (h : Layered code) {n m : Text} (hnm : Mentions (value? code) n m)
    (hm : (value? code m).isSome) :
  ((directives code).map Prod.fst).idxOf m < ((directives code).map Prod.fst).idxOf n
  := by
  obtain ⟨v, hv, hmem⟩ := hnm
  obtain ⟨x, -, rfl, l, hl, hline⟩ := exists_ofLine? hv
  have hsingle := h.single n (isSome_value?_iff.mp ⟨_, hv⟩)
  have hm' : m ∈ substitutedNames (collect code) :=
    isSome_value?_iff.mp (Option.isSome_iff_exists.mp hm)
  have hmem' : m ∈ words x := by
    obtain ⟨s, s', -, -, -, hwords⟩ := Text.exists_words_trim x
    rw [hwords]
    simp [hmem]
  have hdirective : (n, x) ∈ directives code := List.mem_filterMap.mpr ⟨l, hl, hline⟩
  obtain ⟨above, below, hsplit⟩ := List.append_of_mem hdirective
  have hupward := h.upward above.length (by simp [hsplit]) m (by simpa [hsplit] using hmem') hm'
  simp only [hsplit, List.take_left] at hupward
  rw [hsplit, List.map_append, List.map_cons] at hsingle ⊢
  apply idxOf_lt_of_mem_of_not_mem hupward
  rw [List.count_append, List.count_cons_self] at hsingle
  rw [← List.count_eq_zero]
  omega

/-- Layered defines are expanded in full. -/
theorem expandable (h : Layered code) (hedged : Edged code) (hunmade : Unmade code) :
  Expandable code
  := by
  have hrank : ∀ n m, Mentions (value? code) n m → (value? code m).isSome →
      ((directives code).map Prod.fst).idxOf m < ((directives code).map Prod.fst).idxOf n :=
    fun _ _ hnm hm => h.idxOf_lt hnm hm
  constructor
  · intro above l below hlines _
    apply h.marked l (by simp [hlines])
  · exact h.single
  · exact h.keyword_kept
  · intro n v hv
    obtain ⟨x, -, rfl, l, hl, hline⟩ := exists_ofLine? hv
    have hx := h.unmarked (n, x) (List.mem_filterMap.mpr ⟨l, hl, hline⟩)
    intro hpart
    apply hx (hpart.trans (Text.infix_trim x))
  · apply not_mentions_self hrank
  · intro n m hnm hm
    left
    apply rank_lt_of_mentions hrank _ (Option.isSome_iff_exists.mpr (isSome_value?_iff.mpr hm))
    apply TransGen.mono _ _ _ hnm
    intro a b hab
    exact hab.mentions
  · exact h.whole
  · exact hedged
  · exact hunmade

end Layered

/-- Where defines are layered, replacing names one after the other gives the words of the text
expanded in full; the values are taken without the blanks around them.  No replaced name is left,
not even inside of a word. -/
theorem expands_substitute
    {code : Text} (h : Layered code) (hedged : Edged code) (hunmade : Unmade code) :
  Expands (value? code) (words code) (words (substitute (collect code) code)) ∧
    ∀ n ∈ substitutedNames (collect code), ¬ n <:+: substitute (collect code) code
  := by
  have hcode := h.expandable hedged hunmade
  use hcode.expands
  intro n hn
  apply hcode.not_infix_substitute hn

/-- A name that is part of a longer one, and a value that mentions a name further up. -/
theorem expands_substitute_nested :
  let code : Text := "#define A 1\n#define AB A+2\ny = AB/A;"
  (Layered code ∧ Edged code ∧ Unmade code) ∧
    substitute (collect code) code = "#define 1 1\n#define 1+2 1+2\ny = 1+2/1;" ∧
    Expands (value? code) (words code) (words (substitute (collect code) code)) ∧
      ∀ n ∈ substitutedNames (collect code), ¬ n <:+: substitute (collect code) code
  := by
  intro code
  have hlayered : Layered code := by decide +kernel
  have hedged : Edged code := by decide +kernel
  have hunmade : Unmade code := by
    apply unmade_of_isChain
    decide +kernel
  exact ⟨⟨hlayered, hedged, hunmade⟩, by decide +kernel,
    expands_substitute hlayered hedged hunmade⟩

/-- Layered defines that are not expanded: a keyword comes up where `EE` is replaced behind a `#`,
so the search for the value of `Z` stops there; the value of `A` is taken without a blank that
ends it; and the value of `A` loses the space behind `EE`, whose value is blank. -/
theorem layered_not_expands :
  let code₁ : Text := "#EE\n#define Z 1\n#define EE define Z 5\nx Z"
  let code₂ : Text := "#define A 1\r\nx A;"
  let code₃ : Text := "#define EE \x0c\n#define A EE x\n(A)"
  (∀ code ∈ [code₁, code₂, code₃], Layered code ∧
    ¬ Expands (replacement? code) (words code) (words (substitute (collect code) code))) ∧
    ∀ code ∈ [code₁, code₃],
      ¬ Expands (value? code) (words code) (words (substitute (collect code) code))
  := by
  intro code₁ code₂ code₃
  have hlayered : ∀ code ∈ [code₁, code₂, code₃], Layered code := by decide +kernel
  refine ⟨fun code hcode => ⟨hlayered code hcode, ?_⟩, fun code hcode => ?_⟩
  · have hexpanded : ∀ code ∈ [code₁, code₂, code₃],
        let us := Expands.expandTo (replacement? code) 2 (words code)
        (∀ u ∈ us, replacement? code u = none) ∧
          us ≠ words (substitute (collect code) code) := by
      decide +kernel
    obtain ⟨hnone, hne⟩ := hexpanded code hcode
    apply Expands.not_expands_of_ne hnone hne
  · have hexpanded : ∀ code ∈ [code₁, code₃],
        let us := Expands.expandTo (value? code) 2 (words code)
        (∀ u ∈ us, value? code u = none) ∧ us ≠ words (substitute (collect code) code) := by
      decide +kernel
    obtain ⟨hnone, hne⟩ := hexpanded code hcode
    apply Expands.not_expands_of_ne hnone hne

end Define

end ShaderPair
