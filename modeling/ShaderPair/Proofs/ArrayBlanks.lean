import ShaderPair.Proofs.ArrayTypes

/-!
# Blanks in array types

Spaces in front of the element type of an array, and on both sides of the comma, make no difference
for its length, and none for its element type but for the blanks around it.  Spaces in front of the
closing bracket are taken for the separator, so that the length is taken for a part of the element
type (`spaces_agree_iff`).
-/

namespace ShaderPair

/-! ### Trimming -/

namespace Text

variable {s s' : Text}

/-- Blanks around a text make no difference for trimming. -/
theorem trim_blanks (hs : ∀ c ∈ s, isBlank c) (hs' : ∀ c ∈ s', isBlank c) (t : Text) :
  trim (s ++ (t ++ s')) = trim t
  := by
  obtain ⟨r, r', hr, hr', ht⟩ := exists_trim t
  have hparts : s ++ (t ++ s') = (s ++ r) ++ (trim t ++ (r' ++ s')) := by
    conv_lhs => rw [ht]
    simp only [List.append_assoc]
  rw [hparts]
  apply trim_append
  · exact List.forall_mem_append.mpr ⟨hs, hr⟩
  · exact List.forall_mem_append.mpr ⟨hr', hs'⟩
  · apply bare_trim

/-- Trimming takes away blanks only. -/
theorem count_trim {x : Char} (hx : ¬ isBlank x) (t : Text) :
  (trim t).count x = t.count x
  := by
  obtain ⟨r, r', hr, hr', ht⟩ := exists_trim t
  have hnone : ∀ {s : Text}, (∀ c ∈ s, isBlank c) → s.count x = 0 := by
    intro s hs
    rw [List.count_eq_zero]
    exact fun hmem => hx (hs x hmem)
  conv_rhs => rw [ht]
  rw [List.count_append, List.count_append, hnone hr, hnone hr', Nat.zero_add, Nat.add_zero]

/-- A run of spaces. -/
def spaces (n : Nat) : Text := List.replicate n ' '

theorem eq_of_mem_spaces {n : Nat} {c : Char} (h : c ∈ spaces n) :
  c = ' '
  := List.eq_of_mem_replicate h

end Text

namespace Extent

open Text (isBlank spaces trim)

variable {constants : OrderedMap Text Text} {element length : Text}

/-! ### Spaces -/

/-- How many spaces stand around the parts of an array type. -/
structure Spacing where
  /-- In front of the element type. -/
  beforeElement : Nat
  /-- Behind the element type. -/
  afterElement : Nat
  /-- In front of the length. -/
  beforeLength : Nat
  /-- Behind the length. -/
  afterLength : Nat

namespace Spacing

/-- No spaces at all. -/
def none : Spacing := ⟨0, 0, 0, 0⟩

/-- What stands between the brackets of an array type, up to the length. -/
def inside (w : Spacing) (element length : Text) : Text :=
  spaces w.beforeElement ++ element ++ spaces w.afterElement ++ "," ++ spaces w.beforeLength
    ++ length

/-- The type of an array with spaces around its parts. -/
def text (w : Spacing) (element length : Text) : Text :=
  "array<" ++ w.inside element length ++ spaces w.afterLength ++ ">"

end Spacing

/-- What an array type tells but for the blanks around the element type. -/
def trimmed (e : Extent) : Extent := { e with element := trim e.element }

theorem isSeparation_comma (m n : Nat) :
  IsSeparation (spaces m ++ "," ++ spaces n)
  := by
  have hspaces : ∀ n, ∀ c ∈ spaces n, isSeparator c := by
    intro n c hc
    rw [Text.eq_of_mem_spaces hc]
    decide
  rw [Text.ofString_eq]
  refine ⟨by simp, ?_⟩
  rw [List.forall_mem_append, List.forall_mem_append]
  refine ⟨⟨hspaces m, ?_⟩, hspaces n⟩
  intro c hc
  rw [List.mem_singleton.mp hc]
  decide

/-- Spaces in front of the element type are blanks around it. -/
theorem trim_dropEndWhile_spaces (n : Nat) (t : Text) :
  trim (Text.dropEndWhile isSeparator (spaces n ++ t)) = trim (Text.dropEndWhile isSeparator t)
  := by
  have hseparators : (spaces n).reverse.dropWhile isSeparator = [] := by
    rw [List.dropWhile_eq_nil_iff]
    intro c hc
    rw [Text.eq_of_mem_spaces (List.mem_reverse.mp hc)]
    decide
  have hblanks : ∀ c ∈ spaces n, isBlank c := by
    intro c hc
    rw [Text.eq_of_mem_spaces hc]
    decide
  rw [Text.dropEndWhile, List.reverse_append, List.dropWhile_append]
  split
  next hempty =>
    rw [hseparators, Text.dropEndWhile, List.isEmpty_iff.mp hempty]
  next =>
    rw [List.reverse_append, List.reverse_reverse, ← Text.dropEndWhile]
    have htrim := Text.trim_blanks hblanks (List.forall_mem_nil _) (Text.dropEndWhile isSeparator t)
    rwa [List.append_nil] at htrim

/-- With no spaces in front of the closing bracket. -/
theorem ofType_text_of_eq_zero (hlength : IsLength length) {w : Spacing} (hw : w.afterLength = 0) :
  (ofType constants (w.text element length)).map trimmed
    = (resolve? constants length).map fun number =>
      { element := trim (Text.dropEndWhile isSeparator element)
        length := number.getD 0
        unresolved := if number.isSome then .none else some (trim length) }
  := by
  have htext : w.text element length = arrayText (spaces w.beforeElement ++ element)
      (spaces w.afterElement ++ "," ++ spaces w.beforeLength) length := by
    rw [Spacing.text, Spacing.inside, arrayText, hw]
    simp only [List.append_assoc]
    rfl
  rw [htext, ofType_arrayText (isSeparation_comma _ _) hlength.not_isSeparator]
  cases resolve? constants length with
  | error e => rfl
  | ok number =>
    simp only [Except.map, trimmed, trim_dropEndWhile_spaces]

/-- With spaces in front of the closing bracket the length is empty. -/
theorem ofType_text_of_ne_zero (hlength : IsLength length) {w : Spacing} (hw : w.afterLength ≠ 0) :
  ofType constants (w.text element length) = .ok ⟨w.inside element length, 0, .none⟩
  := by
  have hseparation : IsSeparation (spaces w.afterLength) := by
    refine ⟨mt (List.replicate_eq_nil_iff _).mp hw, ?_⟩
    intro c hc
    rw [Text.eq_of_mem_spaces hc]
    decide
  have htext : w.text element length = arrayText (w.inside element length)
      (spaces w.afterLength) [] := by
    rw [Spacing.text, arrayText, List.append_nil]
  have hlast : ∀ c ∈ (w.inside element length).getLast?, ¬ isSeparator c := by
    intro c hc
    rw [Spacing.inside, List.getLast?_append_of_ne_nil _ hlength.ne_nil] at hc
    apply hlength.not_isSeparator c (List.mem_of_getLast? hc)
  rw [htext, ofType_arrayText hseparation (by simp), dropEndWhile_eq_self hlast]
  rfl

/-- The separator between element type and length is one comma more. -/
theorem Spacing.count_inside (w : Spacing) (element length : Text) :
  element.count ',' < (w.inside element length).count ','
  := by
  have hcomma : (Text.ofString ",").count ',' = 1 := by
    rw [Text.ofString_eq]
    rfl
  simp only [inside, List.count_append, hcomma]
  omega

theorem count_dropEndWhile_le (t : Text) :
  (Text.dropEndWhile isSeparator t).count ',' ≤ t.count ','
  := by
  obtain ⟨s, -, hs⟩ := Text.exists_dropEndWhile isSeparator t
  conv_rhs => rw [hs]
  rw [List.count_append]
  apply Nat.le_add_right

/-- A type with spaces tells the same as one without them exactly if there is no space in front of
the closing bracket. -/
theorem ofType_text_eq_iff (hlength : IsLength length) (w : Spacing) :
  (ofType constants (w.text element length)).map trimmed
    = (ofType constants (Spacing.none.text element length)).map trimmed ↔ w.afterLength = 0
  := by
  constructor
  · intro hagree
    by_contra hw
    rw [ofType_text_of_ne_zero hlength hw, ofType_text_of_eq_zero hlength rfl] at hagree
    cases hnumber : resolve? constants length with
    | error fault => simp [hnumber, Except.map] at hagree
    | ok number =>
      rw [hnumber] at hagree
      have helement : trim (w.inside element length)
          = trim (Text.dropEndWhile isSeparator element) :=
        congrArg Extent.element (Except.ok.inj hagree)
      -- The commas tell the two element types apart.
      have hcomma : ¬ isBlank ',' := by decide +kernel
      have hcount := congrArg (List.count ',') helement
      rw [Text.count_trim hcomma, Text.count_trim hcomma] at hcount
      have hmore := w.count_inside element length
      have hless := count_dropEndWhile_le element
      omega
  · intro hw
    rw [ofType_text_of_eq_zero hlength hw, ofType_text_of_eq_zero hlength rfl]

end Extent

/-! ### Reading array types with spaces -/

open Extent (IsLength Spacing trimmed)

theorem Compile.result_resolveExtent
    (constants : OrderedMap Text Text) (name type : Text) (c : Context) :
  (resolveExtent constants name type c).result = Extent.ofType constants type
  := by
  cases hextent : Extent.ofType constants type with
  | error fault => rw [resolveExtent_fail name c hextent]
  | ok e => rw [resolveExtent_apply name c hextent]

/-- Spaces make no difference for the length of an array, and none for its element type but for the
blanks around it, unless they stand in front of the closing bracket.  Then they are taken for the
separator, and the length is zero, without a warning. -/
theorem spaces_agree_iff
    (constants : OrderedMap Text Text) (name element : Text) {length : Text}
    (hlength : IsLength length) (w : Spacing) (c : Context) :
  ((Compile.resolveExtent constants name (w.text element length) c).result.map trimmed
      = (Compile.resolveExtent constants name (Spacing.none.text element length) c).result.map
        trimmed ↔
    w.afterLength = 0) ∧
  (w.afterLength ≠ 0 →
    Compile.resolveExtent constants name (w.text element length) c
      = ⟨.ok ⟨w.inside element length, 0, none⟩, [], [], c⟩)
  := by
  constructor
  · rw [Compile.result_resolveExtent, Compile.result_resolveExtent]
    apply Extent.ofType_text_eq_iff hlength
  · intro hw
    rw [Compile.resolveExtent_apply name c (Extent.ofType_text_of_ne_zero hlength hw)]
    rfl

/-- Spaces in three places. -/
theorem spaces_agree_around_comma :
  let c := Context.fresh .pure {} ∅
  IsLength "N" ∧
    (Compile.resolveExtent lengthConstants "a" "array<  vec2<f32> ,   N>" c).result.map trimmed
      = (Compile.resolveExtent lengthConstants "a" "array<vec2<f32>,N>" c).result.map trimmed
  := by
  intro c
  let w : Spacing := ⟨2, 1, 3, 0⟩
  have hlength : IsLength "N" := .inr (by decide +kernel)
  have htext : w.text "vec2<f32>" "N" = "array<  vec2<f32> ,   N>" := by decide +kernel
  have hplain : Spacing.none.text "vec2<f32>" "N" = "array<vec2<f32>,N>" := by decide +kernel
  have hagree := (spaces_agree_iff lengthConstants "a" "vec2<f32>" hlength w c).1.mpr rfl
  rw [htext, hplain] at hagree
  exact ⟨hlength, hagree⟩

/-- One space in front of the closing bracket, and the array has no length. -/
theorem length_lost_by_space :
  let c := Context.fresh .pure {} ∅
  (Compile.resolveExtent ∅ "a" "array<f32,4>" c).result = .ok ⟨"f32", 4, none⟩ ∧
    (Compile.resolveExtent ∅ "a" "array<f32,4 >" c).result = .ok ⟨"f32,4", 0, none⟩
  := by
  decide +kernel

end ShaderPair
