import ShaderPair.Proofs.ArrayBlanks
import ShaderPair.Proofs.HostTypes
import ShaderPair.Proofs.StridedStructs

/-!
# Strides in the leftover buffer

The elements of an array in a uniform buffer have to lie at multiples of 16 bytes.  The compiler
goes by the number of components that the text of their type tells, which is one or two exactly for
scalars and for vectors with two components, written without blanks in front of the angle bracket
(`HostType.narrow_baseName_iff`).  Around such elements it puts structs of 16 bytes, and all other
types it takes over as they are (`HostUniform.member_uniform`).  So the strides of all arrays in the
buffer are multiples of 16 exactly if each array that is not wrapped has innermost elements that
fill multiples of 16 bytes (`leftOver_strides_iff`).
-/

namespace ShaderPair

open Text (IsIdentifier isBlank isWord)

namespace ShaderType

/-! ### Base names -/

/-- Blanks around a type make no difference for its base name. -/
theorem baseName_blanks (before after : Blanks) (t : Text) :
  baseName (before.text ++ (t ++ after.text)) = baseName t
  := by
  rw [baseName, baseName, Text.trim_blanks before.isBlank after.isBlank]

/-- An identifier is its own base name. -/
theorem baseName_of_isIdentifier {t : Text} (h : IsIdentifier t) :
  baseName t = t
  := by
  rw [baseName, Text.trim_of_isSolid (Text.isSolid_of_isIdentifier h), if_neg]
  rintro ⟨hlast, -⟩
  have hword : ¬ isWord '>' := by decide
  exact hword (h.2 _ (List.mem_of_getLast? hlast))

/-- The base name of a type with arguments reaches up to the bracket in front of them. -/
theorem baseName_bracketed {name : Text} (hname : IsIdentifier name) (gap : Blanks) (t : Text) :
  baseName (name ++ (gap.text ++ ("<" ++ (t ++ ">")))) = name ++ gap.text
  := by
  have hparts : name ++ (gap.text ++ ("<" ++ (t ++ ">")))
      = (name ++ gap.text) ++ '<' :: (t ++ ['>']) := by
    rw [Text.ofString_eq, Text.ofString_eq]
    simp
  have hnot : ∀ c ∈ name ++ gap.text, (c != '<') = true := by
    intro c hc
    rw [bne_iff_ne]
    rintro rfl
    rcases List.mem_append.mp hc with hc | hc
    · have hword : ¬ isWord '<' := by decide
      exact hword (hname.2 _ hc)
    · have hblank : ¬ isBlank '<' := by decide
      exact hblank (gap.isBlank _ hc)
  have hlast : ((name ++ gap.text) ++ '<' :: (t ++ ['>'])).getLast? = some '>' := by
    rw [← List.cons_append, ← List.append_assoc, List.getLast?_concat]
  have hbare : Text.Bare ((name ++ gap.text) ++ '<' :: (t ++ ['>'])) := by
    constructor
    · obtain ⟨c, s, rfl⟩ := List.exists_cons_of_ne_nil hname.1
      rintro d ⟨⟩ hblank
      exact Text.not_isWord_of_isBlank hblank (hname.2 c List.mem_cons_self)
    · rw [hlast]
      rintro d ⟨⟩
      decide
  rw [hparts, baseName, Text.trim_of_bare hbare, if_pos ⟨hlast, by simp⟩,
    List.takeWhile_append_of_pos hnot]
  simp

/-- The names of types start with other letters than that of arrays and have no blanks in them. -/
theorem known_name {name : Text} {n : Nat} (h : numberOf? componentTable name = some n) :
  name.head? ≠ some 'a' ∧ ∀ c ∈ name, ¬ isBlank c
  := by
  have htable : ∀ row ∈ componentTable, ∀ w ∈ row.2,
      w.head? ≠ some 'a' ∧ w.all (fun c => !isBlank c) = true := by
    decide +kernel
  obtain ⟨row, hrow, -⟩ := Option.map_eq_some_iff.mp h
  have hfound : row.2.contains name = true :=
    List.find?_some (p := fun row : Nat × List Text => row.2.contains name) hrow
  obtain ⟨hhead, hall⟩ := htable row (List.mem_of_find?_eq_some hrow) name
    (List.contains_iff_mem.mp hfound)
  refine ⟨hhead, ?_⟩
  intro c hc
  simpa using List.all_eq_true.mp hall c hc

/-! ### Numbers of components -/

/-- A name behind which one or two components stand. -/
def Narrow (name : Text) : Prop :=
  numberOf? componentTable name = some 1 ∨ numberOf? componentTable name = some 2

instance : DecidablePred Narrow := fun _ => inferInstanceAs (Decidable (_ ∨ _))

theorem not_narrow_of_head? {name : Text} (h : name.head? = some 'a') :
  ¬ Narrow name
  := by
  rintro (hknown | hknown) <;> exact (known_name hknown).1 h

theorem not_narrow_of_mem {name : Text} {c : Char} (hc : c ∈ name) (hblank : isBlank c) :
  ¬ Narrow name
  := by
  rintro (hknown | hknown) <;> exact (known_name hknown).2 c hc hblank

end ShaderType

open ShaderType (Narrow)

namespace Scalar

theorem isIdentifier_name (s : Scalar) :
  IsIdentifier s.name
  := by
  cases s <;> rw [name, Text.ofString_ofList] <;> decide

theorem narrow_name (s : Scalar) :
  Narrow s.name
  := by
  cases s <;> decide +kernel

end Scalar

namespace Composite

/-- A vector with two components. -/
def IsPair : Composite → Prop
  | vector n _ => n = .two
  | matrix _ _ _ => False

instance : DecidablePred IsPair
  | vector _ _ => inferInstanceAs (Decidable (_ = _))
  | matrix _ _ _ => inferInstanceAs (Decidable False)

/-- The names of composite types, with and without the letter of their scalars. -/
theorem names (t : Composite) :
  ∀ name ∈ [t.base, t.base ++ [t.scalar.suffix]], IsIdentifier name ∧ (Narrow name ↔ t.IsPair)
  := by
  have hall : ∀ t ∈ all, ∀ name ∈ [t.base, t.base ++ [t.scalar.suffix]],
      IsIdentifier name ∧ (Narrow name ↔ t.IsPair) := by
    decide +kernel
  exact hall t t.mem_all

theorem isIdentifier_base (t : Composite) :
  IsIdentifier t.base
  := (t.names _ (by simp)).1

theorem isIdentifier_suffixed (t : Composite) :
  IsIdentifier (t.base ++ [t.scalar.suffix])
  := (t.names _ (by simp)).1

theorem narrow_base_iff (t : Composite) :
  Narrow t.base ↔ t.IsPair
  := (t.names _ (by simp)).2

theorem narrow_suffixed_iff (t : Composite) :
  Narrow (t.base ++ [t.scalar.suffix]) ↔ t.IsPair
  := (t.names _ (by simp)).2

end Composite

namespace Spelling

/-- There are no blanks in front of the opening bracket. -/
def IsTight : Spelling → Prop
  | suffixed => True
  | template gap _ _ => gap.text = []

instance : DecidablePred IsTight
  | suffixed => inferInstanceAs (Decidable True)
  | template _ _ _ => inferInstanceAs (Decidable (_ = _))

end Spelling

namespace HostType

/-- A scalar, or a vector with two components that is recognised as one. -/
def IsNarrow : HostType → Prop
  | scalar _ => True
  | composite t spelling => t.IsPair ∧ spelling.IsTight
  | array _ _ => False

instance : DecidablePred IsNarrow
  | scalar _ => inferInstanceAs (Decidable True)
  | composite _ _ => inferInstanceAs (Decidable (_ ∧ _))
  | array _ _ => inferInstanceAs (Decidable False)

theorem not_isArray_of_isNarrow {t : HostType} (h : t.IsNarrow) :
  ¬ t.IsArray
  := by
  cases t with
  | scalar _ => exact id
  | composite _ _ => exact id
  | array _ _ => exact h.elim

/-- The text of a type tells one or two components exactly if the type is a narrow one. -/
theorem narrow_baseName_iff (t : HostType) :
  Narrow (ShaderType.baseName t.text) ↔ t.IsNarrow
  := by
  cases t with
  | scalar s =>
    rw [text, ShaderType.baseName_of_isIdentifier s.isIdentifier_name]
    exact iff_of_true s.narrow_name trivial
  | composite t spelling =>
    cases spelling with
    | suffixed =>
      rw [text, ShaderType.baseName_of_isIdentifier t.isIdentifier_suffixed, t.narrow_suffixed_iff]
      exact (and_iff_left trivial).symm
    | template gap before after =>
      have hparts : text (.composite t (.template gap before after))
          = t.base
            ++ (gap.text ++ ("<" ++ ((before.text ++ (t.scalar.name ++ after.text)) ++ ">"))) := by
        simp only [text, List.append_assoc]
      rw [hparts, ShaderType.baseName_bracketed t.isIdentifier_base]
      rcases List.eq_nil_or_concat' gap.text with hgap | ⟨s, c, hgap⟩
      · rw [hgap, List.append_nil, t.narrow_base_iff]
        exact (and_iff_left hgap).symm
      · have hc : c ∈ gap.text := by simp [hgap]
        apply iff_of_false
        · exact ShaderType.not_narrow_of_mem (List.mem_append_right _ hc) (gap.isBlank c hc)
        · rintro ⟨-, htight⟩
          rw [htight] at hc
          exact List.not_mem_nil hc
  | array d element =>
    let inside : Text := d.before.text ++ (element.text ++ (d.after.text ++ (","
      ++ (d.between.text ++ (d.length ++ d.behind.text)))))
    have hparts : text (.array d element)
        = "array" ++ (d.gap.text ++ ("<" ++ (inside ++ ">"))) := by
      simp only [text, Dimension.text, inside, List.append_assoc]
    have harray : IsIdentifier "array" := by decide +kernel
    rw [hparts, ShaderType.baseName_bracketed harray]
    apply iff_of_false
    · apply ShaderType.not_narrow_of_head?
      rw [Text.ofString_eq]
      rfl
    · exact id

end HostType

/-! ### Uniforms of such types -/

/-- A uniform with some type of elements. -/
structure HostUniform where
  /-- The name. -/
  name : Text
  /-- The blanks in front of the type. -/
  before : Blanks
  /-- The blanks behind the type. -/
  after : Blanks
  /-- The type of the elements. -/
  type : HostType
  /-- The number of elements; zero if the uniform is no array. -/
  length : Nat

/-- What is written around the type of the elements of a field. -/
def Dimension.ofNat (before after : Blanks) (n : Nat) (hn : 0 < n) : Dimension where
  gap := .none
  before := before
  after := after
  between := .space
  behind := .none
  length := Text.ofNat n
  number := n
  isLength := .inl (Text.isNumeral_ofNat n)
  number_pos := hn
  decimal_eq _ := Text.decimal_ofNat n

theorem Dimension.text_ofNat (before after : Blanks) {n : Nat} (hn : 0 < n) (element : Text) :
  (Dimension.ofNat before after n hn).text element
    = "array<" ++ (before.text ++ (element ++ after.text)) ++ ", " ++ Text.ofNat n ++ ">"
  := by
  have hopen : Text.ofString "array<" = "array" ++ "<" := by
    simp only [Text.ofString_eq]
    rfl
  have hcomma : Text.ofString ", " = "," ++ [' '] := by
    simp only [Text.ofString_eq]
    rfl
  rw [Dimension.text, hopen, hcomma]
  simp only [Dimension.ofNat, Blanks.none, Blanks.space, List.append_assoc, List.nil_append]

/-- The type of a field of the buffer. -/
inductive FieldType where
  /-- A type as it was written. -/
  | plain (t : HostType)
  /-- An array of structs, each of them with 16 bytes for one element. -/
  | wrapped (d : Dimension) (element : HostType)

namespace FieldType

/-- The text of the type, if the struct has the number `k`. -/
def text (k : Nat) : FieldType → Text
  | plain t => t.text
  | wrapped d _ => d.text (wrapperName k)

/-- The strides of all arrays in the type.  The size of a struct with one member of 16 bytes is
rounded up to its alignment, which is that of the member. -/
def strides : FieldType → List Nat
  | plain t => t.strides
  | wrapped _ element =>
    roundUp element.align (roundUp element.align 16) :: element.strides

end FieldType

namespace HostUniform

/-- The uniform as the compiler keeps it. -/
def uniform (u : HostUniform) : Uniform where
  name := u.name
  type := u.before.text ++ (u.type.text ++ u.after.text)
  length := u.length

/-- The type of the field for a uniform. -/
def fieldType (u : HostUniform) : FieldType :=
  if hn : 0 < u.length then
    if u.type.IsNarrow then .wrapped (.ofNat .none .none u.length hn) u.type
    else .plain (.array (.ofNat u.before u.after u.length hn) u.type)
  else .plain u.type

/-- If there is an array, then its elements are wrapped or the innermost ones fill a multiple of 16
bytes. -/
def IsAligned (u : HostUniform) : Prop :=
  0 < u.length ∨ u.type.IsArray → (0 < u.length ∧ u.type.IsNarrow) ∨ u.type.Fills

instance : DecidablePred IsAligned := fun _ => inferInstanceAs (Decidable (_ → _))

theorem isWrapped_uniform_iff (u : HostUniform) :
  LeftOver.IsWrapped u.uniform ↔ 0 < u.length ∧ u.type.IsNarrow
  := by
  rw [← u.type.narrow_baseName_iff, ← ShaderType.baseName_blanks u.before u.after]
  rfl

/-- The field for a uniform has this type, with blanks around it. -/
theorem member_uniform (k : Nat) (u : HostUniform) :
  ∃ before after : Blanks, LeftOver.member k u.uniform
    = (if 0 < u.length ∧ u.type.IsNarrow then "  @align(16) " else "  ") ++ u.name ++ " : "
      ++ (before.text ++ (u.fieldType.text k ++ after.text)) ++ ",\n"
  := by
  simp only [LeftOver.member, isWrapped_uniform_iff, fieldType]
  by_cases hn : 0 < u.length
  · use .none, .none
    by_cases hnarrow : u.type.IsNarrow
    · rw [if_pos ⟨hn, hnarrow⟩, if_pos ⟨hn, hnarrow⟩, dif_pos hn, if_pos hnarrow, FieldType.text,
        Dimension.text_ofNat]
      simp only [Blanks.none, List.nil_append, List.append_nil]
      rfl
    · have hnot : ¬ (0 < u.length ∧ u.type.IsNarrow) := fun h => hnarrow h.2
      rw [if_neg hnot, if_neg hnot, if_pos (show 0 < u.uniform.length from hn), dif_pos hn,
        if_neg hnarrow, FieldType.text, HostType.text, Dimension.text_ofNat]
      simp only [Blanks.none, List.nil_append, List.append_nil]
      rfl
  · use u.before, u.after
    have hnot : ¬ (0 < u.length ∧ u.type.IsNarrow) := fun h => hn h.1
    rw [if_neg hnot, if_neg hnot, if_neg (show ¬ 0 < u.uniform.length from hn), dif_neg hn]
    rfl

theorem forall_strides_iff (u : HostUniform) :
  (∀ n ∈ u.fieldType.strides, 16 ∣ n) ↔ u.IsAligned
  := by
  rw [fieldType, IsAligned]
  by_cases hn : 0 < u.length
  · rw [dif_pos hn]
    by_cases hnarrow : u.type.IsNarrow
    · have hstride : roundUp u.type.align (roundUp u.type.align 16) = 16 := by
        rw [roundUp_of_dvd u.type.align_pos u.type.align_dvd,
          roundUp_of_dvd u.type.align_pos u.type.align_dvd]
      rw [if_pos hnarrow, FieldType.strides, hstride, List.forall_mem_cons,
        u.type.forall_strides_iff]
      apply iff_of_true
      · exact ⟨Nat.dvd_refl 16, fun h => absurd h (HostType.not_isArray_of_isNarrow hnarrow)⟩
      · exact fun _ => Or.inl ⟨hn, hnarrow⟩
    · rw [if_neg hnarrow, FieldType.strides, HostType.forall_strides_iff]
      simp only [HostType.IsArray, HostType.Fills, hn, hnarrow, and_false, false_or, true_or]
  · rw [dif_neg hn, FieldType.strides, HostType.forall_strides_iff]
    simp only [hn, false_and, false_or]

end HostUniform

/-! ### The leftover buffer -/

/-- The leftover buffer is built for uniforms with numeric types or arrays of such types.  Its
declaration has the fields of these types.  The strides of all arrays in the fields are multiples of
16 bytes exactly if in each uniform with an array either the array itself is wrapped, because its
elements are scalars or vectors with two components, or the innermost elements fill a multiple of 16
bytes. -/
theorem leftOver_strides_iff
    (c : Context) (us : List HostUniform) (hus : c.uniforms = us.map HostUniform.uniform)
    {text : Text} (hbuilt : (Compile.buildLeftOver c).result = .ok text) :
  let first := c.interface.declarations.strided.length
  (∃ slot, text = if us = [] then []
    else LeftOver.bufferText slot first (us.map HostUniform.uniform)) ∧
  (∀ u ∈ us, ∀ k, ∃ before after : Blanks, LeftOver.member k u.uniform
    = (if 0 < u.length ∧ u.type.IsNarrow then "  @align(16) " else "  ") ++ u.name ++ " : "
      ++ (before.text ++ (u.fieldType.text k ++ after.text)) ++ ",\n") ∧
  ((∀ u ∈ us, ∀ n ∈ u.fieldType.strides, 16 ∣ n) ↔ ∀ u ∈ us, u.IsAligned)
  := by
  intro first
  obtain ⟨⟨slot, htext⟩, -⟩ := Compile.buildLeftOver_of_ok hbuilt
  refine ⟨⟨slot, ?_⟩, fun u _ k => u.member_uniform k, ?_⟩
  · rw [htext, LeftOver.declaration_eq, hus]
    simp only [List.map_eq_nil_iff]
    rfl
  · apply forall₂_congr
    intro u _
    apply u.forall_strides_iff

/-- Declarations of arrays, nested and not, and of another uniform. -/
def alignedCalls : UniformCalls := [
  (∅, ⟨"a", "array< vec2<f32>, 4>"⟩), (∅, ⟨"b", "array<array<vec4<f32>,2>, 3>"⟩),
  (∅, ⟨"m", "array<mat3x3f, 2>"⟩), (∅, ⟨"s", "f16"⟩)]

/-- The dimension of an array of two elements that is written without spaces. -/
def pairDimension : Dimension where
  gap := .none
  before := .none
  after := .none
  between := .none
  behind := .none
  length := "2"
  number := 2
  isLength := .inl (by decide +kernel)
  number_pos := by decide
  decimal_eq _ := by decide +kernel

/-- The uniforms that are declared so. -/
def alignedUniforms : List HostUniform := [
  ⟨"a", .space, .none, .composite (.vector .two .f32) (.template .none .none .none), 4⟩,
  ⟨"b", .none, .none,
    .array pairDimension (.composite (.vector .four .f32) (.template .none .none .none)), 3⟩,
  ⟨"m", .none, .none, .composite (.matrix .three .three false) .suffixed, 2⟩,
  ⟨"s", .none, .none, .scalar .f16, 0⟩]

theorem leftOver_strides_aligned :
  let c := (Context.fresh .pure {} ∅).after alignedCalls.operations
  c.uniforms = alignedUniforms.map HostUniform.uniform ∧ (Compile.buildLeftOver c).result.isOk ∧
    alignedUniforms.map (fun u => u.fieldType.strides) = [[16], [32, 16], [48], []] ∧
    ∀ u ∈ alignedUniforms, ∀ n ∈ u.fieldType.strides, 16 ∣ n
  := by
  intro c
  have hus : c.uniforms = alignedUniforms.map HostUniform.uniform := by decide +kernel
  have hok : (Compile.buildLeftOver c).result.isOk := by decide +kernel
  obtain ⟨text, hresult⟩ := Compile.exists_of_isOk hok
  obtain ⟨-, -, hiff⟩ := leftOver_strides_iff c alignedUniforms hus hresult
  exact ⟨hus, hok, by decide, hiff.mpr (by decide)⟩

/-- Vectors of half precision are taken over as elements of an array, though they have 8 bytes. -/
theorem not_aligned_halfVector :
  let c := (Context.fresh .pure {} ∅).after [.declareUniform ∅ ⟨"a", "array<vec4<f16>, 4>"⟩]
  let u : HostUniform := ⟨"a", .none, .none,
    .composite (.vector .four .f16) (.template .none .none .none), 4⟩
  c.uniforms = [u.uniform] ∧
    (Compile.buildLeftOver c).result = .ok
      ("\nstruct LeftOver \x7b\n  a : array<vec4<f16>, 4>,\n\x7d;\n"
        ++ "@group(0) @binding(0) var<uniform> uniforms : LeftOver;\n") ∧
    u.fieldType.strides = [8] ∧ ¬ 16 ∣ 8
  := by
  intro c u
  refine ⟨by decide +kernel, by decide +kernel, by decide, by decide⟩

end ShaderPair
