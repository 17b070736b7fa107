import ShaderPair.Proofs.ArrayTypes

/-!
# Numeric types and arrays in buffers

A `HostType` is a type as it may be written for a variable in a buffer: a scalar, a vector, a
matrix, or an array of such types, with some number of elements, nested to any depth.  It has a text
and, in a buffer, an alignment and a size in bytes: a vector with three components is aligned like
one with four, a matrix is laid out like an array of its columns, and an array is aligned like its
elements, which follow each other at its stride.  All arrays in a nest of arrays have strides that
are multiples of 16 bytes exactly if the innermost elements fill so many bytes
(`HostType.forall_strides_iff`), which can be told from their type (`HostType.Fills`).
-/

namespace ShaderPair

/-- The least multiple of an alignment that has room for a size. -/
def roundUp (align size : Nat) : Nat := (size + align - 1) / align * align

theorem dvd_roundUp (align size : Nat) :
  align ∣ roundUp align size
  := Nat.dvd_mul_left _ _

theorem roundUp_of_dvd {align size : Nat} (hpos : 0 < align) (h : align ∣ size) :
  roundUp align size = size
  := by
  obtain ⟨n, rfl⟩ := h
  have hquotient : (align * n + (align - 1)) / align = n := by
    rw [Nat.mul_add_div hpos, Nat.div_eq_of_lt (by omega), Nat.add_zero]
  rw [roundUp, Nat.add_sub_assoc hpos, hquotient, Nat.mul_comm]

/-! ### Scalars, vectors and matrices -/

/-- A numeric scalar type. -/
inductive Scalar where
  | i32
  | u32
  | f32
  | f16
  deriving DecidableEq

namespace Scalar

/-- The name of the type. -/
def name : Scalar → Text
  | i32 => "i32"
  | u32 => "u32"
  | f32 => "f32"
  | f16 => "f16"

/-- The letter for the type at the end of the name of a vector or a matrix. -/
def suffix : Scalar → Char
  | i32 => 'i'
  | u32 => 'u'
  | f32 => 'f'
  | f16 => 'h'

/-- The number of bytes, which is also the alignment. -/
def size : Scalar → Nat
  | f16 => 2
  | _ => 4

end Scalar

/-- A number of components, of columns or of rows. -/
inductive Extension where
  | two
  | three
  | four
  deriving DecidableEq

namespace Extension

/-- The number. -/
def count : Extension → Nat
  | two => 2
  | three => 3
  | four => 4

/-- The digit for it. -/
def digit : Extension → Char
  | two => '2'
  | three => '3'
  | four => '4'

end Extension

/-- A type of vectors or matrices. -/
inductive Composite where
  | vector (n : Extension) (s : Scalar)
  /-- The scalars of a matrix are floating-point numbers, of half or of single precision. -/
  | matrix (columns rows : Extension) (half : Bool)
  deriving DecidableEq

namespace Composite

/-- The type of the components. -/
def scalar : Composite → Scalar
  | vector _ s => s
  | matrix _ _ half => if half then .f16 else .f32

/-- The name without the type of the components. -/
def base : Composite → Text
  | vector n _ => "vec" ++ [n.digit]
  | matrix columns rows _ => "mat" ++ [columns.digit, 'x', rows.digit]

/-- The alignment of a vector. -/
def vectorAlign : Extension → Scalar → Nat
  | .two, s => 2 * s.size
  | .three, s => 4 * s.size
  | .four, s => 4 * s.size

/-- The alignment, which is that of a column for a matrix. -/
def align (t : Composite) : Nat :=
  match t with
  | vector n s => vectorAlign n s
  | matrix _ rows _ => vectorAlign rows t.scalar

/-- The size; a matrix is laid out like an array of its columns. -/
def size (t : Composite) : Nat :=
  match t with
  | vector n s => n.count * s.size
  | matrix columns rows _ =>
    columns.count * roundUp (vectorAlign rows t.scalar) (rows.count * t.scalar.size)

/-- An element of an array fills a multiple of 16 bytes. -/
def Fills : Composite → Prop
  | vector n s => n ≠ .two ∧ s ≠ .f16
  | matrix columns rows false => ¬ (columns = .three ∧ rows = .two)
  | matrix columns rows true => columns ≠ .three ∧ ¬ (columns = .two ∧ rows = .two)

instance : DecidablePred Fills
  | vector _ _ => inferInstanceAs (Decidable (_ ∧ _))
  | matrix _ _ false => inferInstanceAs (Decidable (¬ _))
  | matrix _ _ true => inferInstanceAs (Decidable (_ ∧ _))

/-- All types of vectors and matrices. -/
def all : List Composite := do
  let n ← [.two, .three, .four]
  [vector n .i32, vector n .u32, vector n .f32, vector n .f16,
    matrix n .two false, matrix n .three false, matrix n .four false,
    matrix n .two true, matrix n .three true, matrix n .four true]

theorem mem_all (t : Composite) :
  t ∈ all
  := by
  rcases t with ⟨⟨⟩, ⟨⟩⟩ | ⟨⟨⟩, ⟨⟩, ⟨⟩⟩ <;> decide

theorem align_pos (t : Composite) :
  0 < t.align
  := by
  have hall : ∀ t ∈ all, 0 < t.align := by decide
  exact hall t t.mem_all

theorem align_dvd (t : Composite) :
  t.align ∣ 16
  := by
  have hall : ∀ t ∈ all, t.align ∣ 16 := by decide
  exact hall t t.mem_all

theorem dvd_roundUp_iff (t : Composite) :
  16 ∣ roundUp t.align t.size ↔ t.Fills
  := by
  have hall : ∀ t ∈ all, 16 ∣ roundUp t.align t.size ↔ t.Fills := by decide
  exact hall t t.mem_all

end Composite

/-! ### Texts of types -/

/-- Blanks between the parts of a type. -/
structure Blanks where
  /-- The text. -/
  text : Text
  /-- All of it is blank. -/
  isBlank : ∀ c ∈ text, Text.isBlank c

namespace Blanks

theorem isBlank_nil : ∀ c ∈ ([] : Text), Text.isBlank c := List.forall_mem_nil _

theorem isBlank_singleton : ∀ c ∈ ([' '] : Text), Text.isBlank c
  := by
  intro c hc
  rw [List.mem_singleton.mp hc]
  decide

/-- No blanks. -/
def none : Blanks := ⟨[], isBlank_nil⟩

/-- A single space. -/
def space : Blanks := ⟨[' '], isBlank_singleton⟩

theorem space_ne : space.text ≠ [] := List.cons_ne_nil _ _

end Blanks

/-- How the type of the components is written. -/
inductive Spelling where
  /-- As a letter at the end of the name. -/
  | suffixed
  /-- Between angle brackets, with blanks in front of the opening one, behind it and in front of the
  closing one. -/
  | template (gap before after : Blanks)

/-- What is written around the type of the elements of an array. -/
structure Dimension where
  /-- The blanks in front of the opening bracket. -/
  gap : Blanks
  /-- The blanks in front of the type of the elements. -/
  before : Blanks
  /-- The blanks behind the type of the elements. -/
  after : Blanks
  /-- The blanks in front of the length. -/
  between : Blanks
  /-- The blanks behind the length. -/
  behind : Blanks
  /-- The length, as digits or as a name. -/
  length : Text
  /-- The number of elements. -/
  number : Nat
  /-- The length is one. -/
  isLength : Extent.IsLength length
  /-- There are elements. -/
  number_pos : 0 < number
  /-- Digits denote their number, and a name may denote any. -/
  decimal_eq : Text.IsNumeral length → Text.decimal length = number

/-- The type of an array of some type of elements. -/
def Dimension.text (d : Dimension) (element : Text) : Text :=
  "array" ++ (d.gap.text ++ ("<" ++ (d.before.text ++ (element ++ (d.after.text ++ (","
    ++ (d.between.text ++ (d.length ++ (d.behind.text ++ ">")))))))))

/-- A numeric type, or one of arrays of such types. -/
inductive HostType where
  | scalar (s : Scalar)
  | composite (t : Composite) (spelling : Spelling)
  | array (d : Dimension) (element : HostType)

namespace HostType

/-- The text of a type. -/
def text : HostType → Text
  | scalar s => s.name
  | composite t .suffixed => t.base ++ [t.scalar.suffix]
  | composite t (.template gap before after) =>
    t.base ++ (gap.text ++ ("<" ++ (before.text ++ (t.scalar.name ++ (after.text ++ ">")))))
  | array d element => d.text element.text

/-! ### Layout -/

/-- The alignment of a type. -/
def align : HostType → Nat
  | scalar s => s.size
  | composite t _ => t.align
  | array _ element => element.align

/-- The size of a type. -/
def size : HostType → Nat
  | scalar s => s.size
  | composite t _ => t.size
  | array d element => d.number * roundUp element.align element.size

/-- The stride of the arrays with elements of a type. -/
def stride (t : HostType) : Nat := roundUp t.align t.size

/-- The strides of all arrays in a type. -/
def strides : HostType → List Nat
  | scalar _ => []
  | composite _ _ => []
  | array _ element => element.stride :: element.strides

/-- A type of arrays. -/
def IsArray : HostType → Prop
  | array _ _ => True
  | _ => False

instance : DecidablePred IsArray
  | scalar _ => inferInstanceAs (Decidable False)
  | composite _ _ => inferInstanceAs (Decidable False)
  | array _ _ => inferInstanceAs (Decidable True)

/-- The innermost elements fill a multiple of 16 bytes each. -/
def Fills : HostType → Prop
  | scalar _ => False
  | composite t _ => t.Fills
  | array _ element => element.Fills

/-- It can be told from the innermost type whether it fills a multiple of 16 bytes. -/
def decidableFills : (t : HostType) → Decidable t.Fills
  | scalar _ => inferInstanceAs (Decidable False)
  | composite t _ => inferInstanceAs (Decidable t.Fills)
  | array _ element => decidableFills element

instance : DecidablePred Fills := decidableFills

theorem align_pos (t : HostType) :
  0 < t.align
  := by
  induction t with
  | scalar s => cases s <;> decide
  | composite t _ => exact t.align_pos
  | array _ _ ih => exact ih

theorem align_dvd (t : HostType) :
  t.align ∣ 16
  := by
  induction t with
  | scalar s => cases s <;> decide
  | composite t _ => exact t.align_dvd
  | array _ _ ih => exact ih

/-- Arrays follow each other without a gap. -/
theorem stride_array (d : Dimension) (element : HostType) :
  (array d element).stride = d.number * element.stride
  := by
  apply roundUp_of_dvd element.align_pos
  exact (dvd_roundUp element.align element.size).mul_left d.number

theorem dvd_stride_of_fills {t : HostType} (h : t.Fills) :
  16 ∣ t.stride
  := by
  induction t with
  | scalar _ => exact h.elim
  | composite t _ => exact t.dvd_roundUp_iff.mpr h
  | array d element ih =>
    rw [stride_array]
    exact (ih h).mul_left d.number

/-- The stride of arrays of scalars, vectors or matrices tells whether these fill a multiple of 16
bytes. -/
theorem fills_of_dvd_stride {t : HostType} (ht : ¬ t.IsArray) (h : 16 ∣ t.stride) :
  t.Fills
  := by
  cases t with
  | scalar s =>
    have hnot : ¬ 16 ∣ (scalar s).stride := by cases s <;> decide
    exact absurd h hnot
  | composite t _ => exact t.dvd_roundUp_iff.mp h
  | array _ _ => exact absurd trivial ht

/-- The innermost array decides about all arrays in a type. -/
theorem forall_strides_iff (t : HostType) :
  (∀ n ∈ t.strides, 16 ∣ n) ↔ (t.IsArray → t.Fills)
  := by
  induction t with
  | scalar _ => exact ⟨fun _ h => h.elim, fun _ => List.forall_mem_nil _⟩
  | composite _ _ => exact ⟨fun _ h => h.elim, fun _ => List.forall_mem_nil _⟩
  | array d element ih =>
    rw [strides, List.forall_mem_cons, ih]
    constructor
    · rintro ⟨hstride, hinner⟩ -
      by_cases harray : element.IsArray
      · exact hinner harray
      · have hfills : element.Fills := fills_of_dvd_stride harray hstride
        exact hfills
    · intro h
      exact ⟨dvd_stride_of_fills (h trivial), fun _ => h trivial⟩

end HostType

end ShaderPair
