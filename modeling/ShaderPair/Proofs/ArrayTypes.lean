import ShaderPair.Proofs.BraceMatching
import ShaderPair.Proofs.Entries
import ShaderPair.Proofs.Lines
import Mathlib.Data.Nat.Digits.Defs

/-!
# Array types

The text of an array type puts a separator and a length around the text of an element type
(`Extent.arrayText`).  Reading it gives back the element type, without separators at its end, and
the number that the length comes to (`Extent.ofType_arrayText`), which the length tells by its own
digits or as the name of a constant (`Extent.resolve?_eq`).  So a nest of array types is unwrapped
layer by layer (`arrays_unwrapped`).  Only numbers of more than `Text.maxDigits` digits are not
read.
-/

namespace ShaderPair

/-! ### Numerals -/

namespace Text

variable {t : Text}

/-- One or more decimal digits. -/
def IsNumeral (t : Text) : Prop := t ≠ [] ∧ ∀ c ∈ t, isDigit c

theorem isNumeral_iff (t : Text) :
  IsNumeral t ↔ (!t.isEmpty && t.all isDigit) = true
  := by
  simp [IsNumeral]

instance (t : Text) : Decidable (IsNumeral t) :=
  decidable_of_iff _ (isNumeral_iff t).symm

/-- The number that decimal digits denote. -/
def decimal (t : Text) : Nat := Nat.ofDigits 10 (t.reverse.map fun c => (digit? c).getD 0)

theorem decimal_append (s t : Text) :
  decimal (s ++ t) = decimal t + 10 ^ t.length * decimal s
  := by
  rw [decimal, List.reverse_append, List.map_append, Nat.ofDigits_append, List.length_map,
    List.length_reverse]
  rfl

/-- Digits are read as the number that they denote. -/
theorem naturalFrom?_of_isDigit (h : ∀ c ∈ t, isDigit c) (acc : Nat) :
  naturalFrom? acc t = some (10 ^ t.length * acc + decimal t)
  := by
  induction t generalizing acc with
  | nil => simp [naturalFrom?, decimal]
  | cons c t ih =>
    obtain ⟨hc, ht⟩ := List.forall_mem_cons.mp h
    obtain ⟨d, hd⟩ := Option.isSome_iff_exists.mp hc
    have hcons : decimal (c :: t) = decimal t + 10 ^ t.length * d := by
      rw [← List.singleton_append, decimal_append]
      simp [decimal, hd]
    rw [naturalFrom?, hd, Option.bind_some, ih ht, hcons, List.length_cons, pow_succ]
    congr 1
    ring

theorem digit?_digitChar {n : Nat} (h : n < 10) :
  digit? (Nat.digitChar n) = some n
  := by
  have hdigits : ∀ n < 10, digit? (Nat.digitChar n) = some n := by decide
  exact hdigits n h

/-- The digits of a number denote it. -/
theorem decimal_ofNat (n : Nat) :
  decimal (ofNat n) = n
  := by
  induction n using Nat.strong_induction_on with
  | _ n ih =>
    by_cases hn : n < 10
    · rw [ofNat, Nat.toDigits_of_lt_base hn]
      simp [decimal, digit?_digitChar hn]
    · have hlast : decimal [Nat.digitChar (n % 10)] = n % 10 := by
        simp [decimal, digit?_digitChar (Nat.mod_lt n (by decide))]
      have hfront := ih (n / 10) (by omega)
      rw [ofNat] at hfront
      rw [ofNat, Nat.toDigits_of_base_le (by decide) (by omega), decimal_append, hlast, hfront]
      exact Nat.mod_add_div n 10

theorem isNumeral_ofNat (n : Nat) :
  IsNumeral (ofNat n)
  := by
  refine ⟨Nat.toDigits_ne_nil, ?_⟩
  intro c hc
  induction n using Nat.strong_induction_on with
  | _ n ih =>
    by_cases hn : n < 10
    · rw [ofNat, Nat.toDigits_of_lt_base hn, List.mem_singleton] at hc
      rw [hc, isDigit, digit?_digitChar hn]
      rfl
    · rw [ofNat, Nat.toDigits_of_base_le (by decide) (by omega), List.mem_append,
        List.mem_singleton] at hc
      rcases hc with hc | rfl
      · exact ih (n / 10) (by omega) hc
      · rw [isDigit, digit?_digitChar (Nat.mod_lt n (by decide))]
        rfl

theorem naturalFrom?_eq_none (h : ∃ c ∈ t, ¬ isDigit c) (acc : Nat) :
  naturalFrom? acc t = none
  := by
  induction t generalizing acc with
  | nil => simp at h
  | cons c t ih =>
    rw [naturalFrom?, Option.bind_eq_none_iff]
    intro d hd
    apply ih
    obtain ⟨e, he, hnot⟩ := h
    rcases List.mem_cons.mp he with rfl | he
    · exact absurd (Option.isSome_iff_exists.mpr ⟨d, hd⟩) hnot
    · exact ⟨e, he, hnot⟩

/-- No blank is a digit. -/
theorem not_isDigit_of_isBlank {c : Char} (h : isBlank c) :
  ¬ isDigit c
  := by
  have hpoints : ∀ n ∈ blankPoints, ¬ isDigit (Char.ofNat n) := by decide +kernel
  have hc := hpoints c.toNat (mem_blankPoints h)
  rw [Char.ofNat_toNat] at hc
  exact hc

theorem isSolid_of_isNumeral (h : IsNumeral t) :
  IsSolid t
  := fun c hc hblank => not_isDigit_of_isBlank hblank (h.2 c hc)

theorem trim_of_bare (h : Bare t) :
  trim t = t
  := by
  have htrim := trim_append (List.forall_mem_nil _) (List.forall_mem_nil _) h
  rwa [List.nil_append, List.append_nil] at htrim

theorem trim_of_isSolid (h : IsSolid t) :
  trim t = t
  := by
  apply trim_of_bare
  exact ⟨fun c hc => h c (List.mem_of_mem_head? hc), fun c hc => h c (List.mem_of_getLast? hc)⟩

end Text

namespace Extent

open Text (IsIdentifier IsNumeral isBlank isDigit isWord trim)

variable {constants : OrderedMap Text Text} {element separator length t : Text}

/-! ### Lengths -/

/-- What comes of the digits of a length, if there are any: too many of them are a fault. -/
def readDigits : Option Text → Except Fault (Option Nat)
  | none => .ok none
  | some digits =>
    if digits.length ≤ Text.maxDigits then .ok (some (Text.decimal digits))
    else .error (.unreadableNumber digits.length)

/-- The digits that a value tells a length by, without the blanks around them.  A blank value has no
digits, which denote zero. -/
def digits? (value : Text) : Option Text :=
  if trim value = [] ∨ IsNumeral (trim value) then some (trim value) else none

/-- The digits that tell the length of an array: its own ones, or those of the constant that it
names. -/
def digitsOf? (constants : OrderedMap Text Text) (length : Text) : Option Text :=
  if IsNumeral length then some length else (constants.find? length).bind digits?

theorem number?_eq (t : Text) :
  number? t = readDigits (digits? t)
  := by
  rw [number?, digits?]
  by_cases hempty : trim t = []
  · rw [if_pos (List.isEmpty_iff.mpr hempty), if_pos (Or.inl hempty), hempty]
    rfl
  · rw [if_neg (mt List.isEmpty_iff.mp hempty)]
    by_cases hdigits : ∀ c ∈ trim t, isDigit c
    · have hnumber : Text.natural? (trim t) = some (Text.decimal (trim t)) := by
        rw [Text.natural?, if_neg (mt List.isEmpty_iff.mp hempty),
          Text.naturalFrom?_of_isDigit hdigits, Nat.mul_zero, Nat.zero_add]
      rw [if_pos (Or.inr ⟨hempty, hdigits⟩), readDigits, List.all_eq_true.mpr hdigits,
        Bool.true_and, hnumber]
      by_cases hlength : (trim t).length ≤ Text.maxDigits
      · rw [if_pos hlength, if_neg (by simpa using hlength)]
      · rw [if_neg hlength, if_pos (by simpa using hlength)]
    · have hnumber : Text.natural? (trim t) = none := by
        rw [Text.natural?, if_neg (mt List.isEmpty_iff.mp hempty),
          Text.naturalFrom?_eq_none (by simpa using hdigits)]
      have hnot : ¬ (trim t = [] ∨ IsNumeral (trim t)) :=
        not_or.mpr ⟨hempty, fun h => hdigits h.2⟩
      have hall : (trim t).all isDigit = false := by
        rw [Bool.eq_false_iff, Ne, List.all_eq_true]
        exact hdigits
      rw [if_neg hnot, hall, Bool.false_and, if_neg Bool.false_ne_true, hnumber]
      rfl

/-- How the length of an array stands in its type: as digits or as a name. -/
def IsLength (length : Text) : Prop := IsNumeral length ∨ IsIdentifier length

theorem IsLength.isSolid (h : IsLength length) :
  Text.IsSolid length
  := by
  rcases h with h | h
  · apply Text.isSolid_of_isNumeral h
  · apply Text.isSolid_of_isIdentifier h

theorem IsLength.ne_nil (h : IsLength length) :
  length ≠ []
  := by
  rcases h with h | h <;> exact h.1

theorem IsLength.not_mem (h : IsLength length) {c : Char} (hdigit : ¬ isDigit c)
    (hword : ¬ isWord c) :
  c ∉ length
  := by
  intro hc
  rcases h with h | h
  · exact hdigit (h.2 c hc)
  · exact hword (h.2 c hc)

theorem IsLength.not_isSeparator (h : IsLength length) :
  ∀ c ∈ length, ¬ isSeparator c
  := by
  intro c hc hseparator
  rw [isSeparator, Bool.or_eq_true, beq_iff_eq, beq_iff_eq] at hseparator
  rcases hseparator with rfl | rfl <;>
    exact h.not_mem (by decide +kernel) (by decide +kernel) hc

/-- The digits that tell a length are read. -/
theorem resolve?_eq (h : IsLength length) :
  resolve? constants length = readDigits (digitsOf? constants length)
  := by
  have htrim := Text.trim_of_isSolid h.isSolid
  rw [resolve?, number?_eq, digits?, digitsOf?, htrim]
  by_cases hnumeral : IsNumeral length
  · rw [if_pos (Or.inr hnumeral), if_pos hnumeral, readDigits]
    split <;> rfl
  · rw [if_neg (not_or.mpr ⟨h.ne_nil, hnumeral⟩), if_neg hnumeral]
    cases constants.find? length with
    | none => rfl
    | some value => exact number?_eq value

/-! ### The text of an array type -/

/-- The type of an array: a separator and a length behind the element type. -/
def arrayText (element separator length : Text) : Text :=
  "array<" ++ element ++ separator ++ length ++ ">"

/-- One or more separators. -/
def IsSeparation (t : Text) : Prop := t ≠ [] ∧ ∀ c ∈ t, isSeparator c

theorem isSeparation_iff (t : Text) :
  IsSeparation t ↔ (!t.isEmpty && t.all isSeparator) = true
  := by
  simp [IsSeparation]

instance (t : Text) : Decidable (IsSeparation t) :=
  decidable_of_iff _ (isSeparation_iff t).symm

theorem text_array :
  Text.ofString "array<" = ['a', 'r', 'r', 'a', 'y', '<']
  := by
  rw [Text.ofString_eq]
  rfl

theorem occurs_array (t : Text) :
  Text.occurs "array" (Text.ofString "array<" ++ t) = true
  := by
  rw [Text.occurs, text_array, Text.ofString_eq]
  rfl

/-- A character outside of a class ends what is dropped of it. -/
theorem dropWhile_append_cons
    {p : Char → Bool} {c : Char} (hc : ¬ p c) (s t : Text) :
  (s ++ c :: t).dropWhile p = s.dropWhile p ++ c :: t
  := by
  induction s with
  | nil => exact List.dropWhile_cons_of_neg hc
  | cons d s ih =>
    rw [List.cons_append, List.dropWhile_cons, List.dropWhile_cons]
    split
    · exact ih
    · rfl

/-- Going back from the end of an array type, first the length is passed over and then the
separators in front of it. -/
theorem scan_eq
    (hseparator : IsSeparation separator) (hlength : ∀ c ∈ length, ¬ isSeparator c) (t : Text) :
  let before := (t ++ separator ++ length).reverse
  before.any isSeparator = true ∧ before.takeWhile (!isSeparator ·) = length.reverse ∧
    (before.dropWhile (!isSeparator ·)).dropWhile isSeparator = t.reverse.dropWhile isSeparator
  := by
  intro before
  have hall : ∀ c ∈ separator.reverse, isSeparator c := by
    intro c hc
    apply hseparator.2 c (List.mem_reverse.mp hc)
  obtain ⟨last, others, hlast⟩ := List.exists_cons_of_ne_nil
    (List.reverse_ne_nil_iff.mpr hseparator.1)
  have hbefore : before = length.reverse ++ last :: (others ++ t.reverse) := by
    simp only [before, List.reverse_append, hlast, List.cons_append]
  rw [hlast, List.forall_mem_cons] at hall
  have hkept : ¬ (!isSeparator last) = true := by
    simpa using hall.1
  have hpassed : ∀ c ∈ length.reverse, (!isSeparator c) = true := by
    intro c hc
    simpa using hlength c (List.mem_reverse.mp hc)
  rw [hbefore]
  refine ⟨?_, ?_, ?_⟩
  · rw [List.any_eq_true]
    exact ⟨last, by simp, hall.1⟩
  · rw [List.takeWhile_append_of_pos hpassed, List.takeWhile_cons, if_neg hkept, List.append_nil]
  · rw [List.dropWhile_append_of_pos hpassed, List.dropWhile_cons, if_neg hkept,
      List.dropWhile_cons_of_pos hall.1, List.dropWhile_append_of_pos hall.2]

/-- The text of the length is found. -/
theorem lengthText_eq
    (hseparator : IsSeparation separator) (hlength : ∀ c ∈ length, ¬ isSeparator c) (t : Text) :
  lengthText (t ++ separator ++ length).reverse = length
  := by
  obtain ⟨hany, htake, -⟩ := scan_eq hseparator hlength t
  rw [lengthText, if_pos hany, htake, List.reverse_reverse]

/-- The end of the element type is found. -/
theorem take_elementEnd
    (hseparator : IsSeparation separator) (hlength : ∀ c ∈ length, ¬ isSeparator c)
    (element t : Text) :
  ("array<" ++ element ++ separator ++ length ++ t).take
      (elementEnd ("array<" ++ element ++ separator ++ length).reverse)
    = "array<" ++ Text.dropEndWhile isSeparator element
  := by
  obtain ⟨-, -, hdrop⟩ := scan_eq hseparator hlength ("array<" ++ element)
  -- Going back, the element type starts where the separators end.
  have hfront : (Text.ofString "array<" ++ element).reverse.dropWhile isSeparator
      = (Text.ofString "array<" ++ Text.dropEndWhile isSeparator element).reverse := by
    rw [text_array]
    simp only [List.reverse_append, Text.dropEndWhile, List.reverse_reverse]
    exact dropWhile_append_cons (by decide) element.reverse ['y', 'a', 'r', 'r', 'a']
  have hend : elementEnd (Text.ofString "array<" ++ element ++ separator ++ length).reverse
      = (Text.ofString "array<" ++ Text.dropEndWhile isSeparator element).length := by
    rw [elementEnd, hdrop, hfront, List.length_reverse, text_array]
    apply Nat.max_eq_right
    simp
  obtain ⟨s, -, hs⟩ := Text.exists_dropEndWhile isSeparator element
  have hparts : Text.ofString "array<" ++ element ++ separator ++ length ++ t
      = (Text.ofString "array<" ++ Text.dropEndWhile isSeparator element)
        ++ (s ++ separator ++ length ++ t) := by
    conv_lhs => rw [hs]
    simp only [List.append_assoc]
  rw [hend, hparts, List.take_left]

theorem lastIndexOf?_concat (x : Char) (t : Text) :
  Text.lastIndexOf? x (t ++ [x]) = some t.length
  := by
  induction t with
  | nil => simp [Text.lastIndexOf?]
  | cons c t ih => rw [List.cons_append, Text.lastIndexOf?, ih, List.length_cons]

/-- An array type tells its element type, without separators at the end, and its length. -/
theorem ofType_arrayText
    (hseparator : IsSeparation separator) (hlength : ∀ c ∈ length, ¬ isSeparator c)
    (element : Text) :
  ofType constants (arrayText element separator length)
    = (resolve? constants length).map fun number =>
      { element := Text.dropEndWhile isSeparator element
        length := number.getD 0
        unresolved := if number.isSome then none else some (trim length) }
  := by
  let inside : Text := Text.ofString "array<" ++ element ++ separator ++ length
  have htext : arrayText element separator length = inside ++ ['>'] := by
    rw [arrayText, Text.ofString_eq ">"]
    rfl
  obtain ⟨i, hi⟩ : ∃ i, inside.length = i + 1 := by
    use (element ++ separator ++ length).length + 5
    simp [inside, text_array]
  have hlast : Text.lastIndexOf? '>' (inside ++ ['>']) = some (i + 1) := by
    rw [lastIndexOf?_concat, hi]
  have hfirst : Text.indexOf? ['<'] (inside ++ ['>']) = some 5 := by
    simp only [inside, text_array, List.append_assoc]
    exact Text.indexOf?_append_of_not_mem (s := ['a', 'r', 'r', 'a', 'y']) (by decide) _
  have hword : Text.occurs "array" (inside ++ ['>']) = true := by
    simp only [inside, List.append_assoc]
    apply occurs_array
  have helement : (inside ++ ['>']).take (elementEnd inside.reverse)
      = Text.ofString "array<" ++ Text.dropEndWhile isSeparator element :=
    take_elementEnd hseparator hlength element ['>']
  have hnumber : lengthText inside.reverse = length :=
    lengthText_eq hseparator hlength (Text.ofString "array<" ++ element)
  rw [htext, ofType, hlast]
  dsimp only
  rw [if_pos hword, hfirst, ← hi, List.take_left, helement, hnumber, text_array]
  rfl

theorem dropEndWhile_eq_self (h : ∀ c ∈ element.getLast?, ¬ isSeparator c) :
  Text.dropEndWhile isSeparator element = element
  := by
  rw [Text.dropEndWhile_eq, List.rdropWhile_eq_self_iff]
  intro hne
  apply h
  apply List.getLast?_eq_some_getLast hne

/-! ### Nests of arrays -/

/-- What an array type puts behind its element type. -/
structure Layer where
  /-- The separator. -/
  separator : Text
  /-- The length. -/
  length : Text
  /-- The separator is one. -/
  isSeparation : IsSeparation separator
  /-- The length is one. -/
  isLength : IsLength length

namespace Layer

/-- The type of an array with some type of elements. -/
def around (l : Layer) (element : Text) : Text := arrayText element l.separator l.length

/-- The type of an array of arrays and so on, with a layer for each of them, from the outside. -/
def nest (core : Text) (ls : List Layer) : Text := ls.foldr around core

/-- The number of elements: zero if no digits tell it. -/
def number (constants : OrderedMap Text Text) (l : Layer) : Nat :=
  (digitsOf? constants l.length).elim 0 Text.decimal

/-- The warning about a length that no digits tell. -/
def warnings (constants : OrderedMap Text Text) (name : Text) (l : Layer) : List Warning :=
  if (digitsOf? constants l.length).isSome then [] else [.unresolvedLength l.length name]

/-- No more digits tell the length than are read. -/
def Readable (constants : OrderedMap Text Text) (l : Layer) : Prop :=
  ∀ digits ∈ digitsOf? constants l.length, digits.length ≤ Text.maxDigits

instance (constants : OrderedMap Text Text) (l : Layer) : Decidable (l.Readable constants) :=
  inferInstanceAs (Decidable (∀ _ ∈ _, _))

variable {l : Layer} {ls : List Layer} {core name : Text} {c : Context}

theorem not_isSeparator_of_nest
    (hcore : ∀ x ∈ core.getLast?, ¬ isSeparator x) (ls : List Layer) :
  ∀ x ∈ (nest core ls).getLast?, ¬ isSeparator x
  := by
  cases ls with
  | nil => exact hcore
  | cons l ls =>
    intro x hx
    rw [nest, List.foldr_cons, around, arrayText, Text.ofString_eq ">", List.getLast?_append] at hx
    obtain rfl := Option.some.inj hx
    decide

open Compile in
/-- One layer is taken off an array type. -/
theorem resolveExtent_around
    (l : Layer) (helement : ∀ x ∈ element.getLast?, ¬ isSeparator x) (name : Text) (c : Context) :
  resolveExtent constants name (l.around element) c
    = match digitsOf? constants l.length with
      | some digits =>
        if digits.length ≤ Text.maxDigits then
          ⟨.ok ⟨element, Text.decimal digits, none⟩, [], [], c⟩
        else ⟨.error (.unreadableNumber digits.length), [], [], c⟩
      | none => ⟨.ok ⟨element, 0, some l.length⟩, [.unresolvedLength l.length name], [], c⟩
  := by
  rw [resolveExtent, around, ofType_arrayText l.isSeparation l.isLength.not_isSeparator,
    resolve?_eq l.isLength, dropEndWhile_eq_self helement]
  cases digitsOf? constants l.length with
  | none =>
    rw [Text.trim_of_isSolid l.isLength.isSolid]
    rfl
  | some digits =>
    rw [readDigits]
    dsimp only
    split <;> rfl

theorem resolveExtent_of_readable
    (hl : l.Readable constants) (helement : ∀ x ∈ element.getLast?, ¬ isSeparator x)
    (name : Text) (c : Context) :
  ∃ unresolved, Compile.resolveExtent constants name (l.around element) c
    = ⟨.ok ⟨element, l.number constants, unresolved⟩, l.warnings constants name, [], c⟩
  := by
  rw [resolveExtent_around l helement, number, warnings]
  rw [Readable] at hl
  cases hdigits : digitsOf? constants l.length with
  | none => exact ⟨_, rfl⟩
  | some digits =>
    use none
    dsimp only
    rw [if_pos (hl digits hdigits)]
    rfl

end Layer

end Extent

/-! ### Reading nests of arrays -/

/-- Takes layers off an array type, one after the other.  It gives the type inside, and the numbers
of elements from the outside. -/
def Compile.unwrap (constants : OrderedMap Text Text) (name : Text) :
    (depth : Nat) → Text → Compile (Text × List Nat)
  | 0, type => return (type, [])
  | depth + 1, type => do
    let e ← resolveExtent constants name type
    let (core, lengths) ← unwrap constants name depth e.element
    return (core, e.length :: lengths)

open Extent (Layer isSeparator digitsOf?) in
theorem Compile.unwrap_nest
    {constants : OrderedMap Text Text} {core : Text}
    (hcore : ∀ x ∈ core.getLast?, ¬ isSeparator x) {ls : List Layer}
    (hls : ∀ l ∈ ls, l.Readable constants) (name : Text) (c : Context) :
  unwrap constants name ls.length (Layer.nest core ls) c
    = ⟨.ok (core, ls.map (Layer.number constants)), ls.flatMap (Layer.warnings constants name), [],
      c⟩
  := by
  induction ls with
  | nil => rfl
  | cons l ls ih =>
    obtain ⟨hl, hls⟩ := List.forall_mem_cons.mp hls
    obtain ⟨unresolved, hread⟩ :=
      Layer.resolveExtent_of_readable hl (Layer.not_isSeparator_of_nest hcore ls) name c
    rw [Layer.nest, List.foldr_cons, ← Layer.nest, List.length_cons, unwrap,
      bind_of_ok (by rw [hread]), hread, bind_of_ok (by rw [ih hls]), ih hls]
    conv_rhs => rw [List.flatMap_cons, ← List.append_nil (ls.flatMap _)]
    rfl

open Extent (Layer isSeparator digitsOf?) in
/-- An array type gives back its element type and the number that its length tells, which is zero,
with one warning, if no digits tell it; too many digits are a fault.  So of a nest of arrays every
layer is taken off, down to the type inside. -/
theorem arrays_unwrapped
    (constants : OrderedMap Text Text) (name : Text) (c : Context) {element : Text}
    (h : ∀ x ∈ element.getLast?, ¬ isSeparator x) :
  (∀ l : Layer, Compile.resolveExtent constants name (l.around element) c
    = match digitsOf? constants l.length with
      | some digits =>
        if digits.length ≤ Text.maxDigits then
          ⟨.ok ⟨element, Text.decimal digits, none⟩, [], [], c⟩
        else ⟨.error (.unreadableNumber digits.length), [], [], c⟩
      | none => ⟨.ok ⟨element, 0, some l.length⟩, [.unresolvedLength l.length name], [], c⟩) ∧
  ∀ ls : List Layer, (∀ l ∈ ls, l.Readable constants) →
    Compile.unwrap constants name ls.length (Layer.nest element ls) c
      = ⟨.ok (element, ls.map (Layer.number constants)),
        ls.flatMap (Layer.warnings constants name), [], c⟩
  := by
  constructor
  · intro l
    apply Layer.resolveExtent_around l h
  · intro ls hls
    apply Compile.unwrap_nest h hls

/-- A constant for the length of an array. -/
def lengthConstants : OrderedMap Text Text := OrderedMap.ofList [("N", " 8 ")]

/-- Layers with different separators: the first length is a number, the second one a constant, and
the third one is not known. -/
def mixedLayers : List Extent.Layer := [
  ⟨", ", "3", by decide +kernel, .inl (by decide +kernel)⟩,
  ⟨" , ", "N", by decide +kernel, .inr (by decide +kernel)⟩,
  ⟨",", "M", by decide +kernel, .inr (by decide +kernel)⟩]

theorem arrays_unwrapped_mixed :
  let c := Context.fresh .pure {} ∅
  Compile.unwrap lengthConstants "a" 3 "array<array<array<vec2<f32>,M> , N>, 3>" c
    = ⟨.ok ("vec2<f32>", [3, 8, 0]), [.unresolvedLength "M" "a"], [], c⟩
  := by
  intro c
  have helement : ∀ x ∈ (Text.ofString "vec2<f32>").getLast?, ¬ Extent.isSeparator x := by
    rw [Text.ofString_eq]
    rintro x ⟨⟩
    decide
  have hlayers : ∀ l ∈ mixedLayers, l.Readable lengthConstants := by
    decide +kernel
  have hunwrapped := (arrays_unwrapped lengthConstants "a" c helement).2 mixedLayers hlayers
  have htype : Extent.Layer.nest "vec2<f32>" mixedLayers
      = "array<array<array<vec2<f32>,M> , N>, 3>" := by
    decide +kernel
  have hnumbers : mixedLayers.map (Extent.Layer.number lengthConstants) = [3, 8, 0] := by
    decide +kernel
  have hwarnings : mixedLayers.flatMap (Extent.Layer.warnings lengthConstants "a")
      = [.unresolvedLength "M" "a"] := by
    decide +kernel
  rw [htype, hnumbers, hwarnings] at hunwrapped
  exact hunwrapped

/-- Digits behind zeros denote what they denote alone. -/
theorem Text.decimal_leadingZeros (n : Nat) (t : Text) :
  decimal (List.replicate n '0' ++ t) = decimal t
  := by
  have hzeros : decimal (List.replicate n '0') = 0 := by
    have hzero : (digit? '0').getD 0 = 0 := by decide
    rw [decimal, List.reverse_replicate, List.map_replicate, hzero]
    apply Nat.ofDigits_replicate_zero
  rw [decimal_append, hzeros, Nat.mul_zero, Nat.add_zero]

theorem Text.isNumeral_leadingZeros (n : Nat) {t : Text} (ht : IsNumeral t) :
  IsNumeral (List.replicate n '0' ++ t)
  := by
  refine ⟨by simp [ht.1], ?_⟩
  rw [List.forall_mem_append]
  refine ⟨?_, ht.2⟩
  intro c hc
  rw [List.eq_of_mem_replicate hc]
  decide

/-- A row of digits that denotes four is not read if it has too many zeros in front. -/
theorem not_read_leadingZeros :
  let length := List.replicate 4300 '0' ++ ['4']
  Text.IsNumeral length ∧ Text.decimal length = 4 ∧
    Compile.resolveExtent ∅ "a" (Extent.arrayText "f32" "," length) (Context.fresh .pure {} ∅)
      = ⟨.error (.unreadableNumber 4301), [], [], Context.fresh .pure {} ∅⟩
  := by
  intro length
  have hnumeral : Text.IsNumeral length :=
    Text.isNumeral_leadingZeros _ (t := ['4']) (by decide +kernel)
  have hdecimal : Text.decimal length = 4 :=
    (Text.decimal_leadingZeros _ _).trans (by decide +kernel)
  refine ⟨hnumeral, hdecimal, ?_⟩
  let l : Extent.Layer := ⟨",", length, by decide +kernel, .inl hnumeral⟩
  have helement : ∀ x ∈ (Text.ofString "f32").getLast?, ¬ Extent.isSeparator x := by
    rw [Text.ofString_eq]
    rintro x ⟨⟩
    decide
  have hread : Compile.resolveExtent ∅ "a" (l.around "f32") (Context.fresh .pure {} ∅) = _ :=
    l.resolveExtent_around helement "a" (Context.fresh .pure {} ∅)
  have hdigits : Extent.digitsOf? ∅ l.length = some length := if_pos hnumeral
  have hlength : length.length = 4301 := by
    rw [List.length_append, List.length_replicate]
    rfl
  rw [hdigits] at hread
  dsimp only at hread
  rw [hlength, if_neg (by decide)] at hread
  exact hread

end ShaderPair
