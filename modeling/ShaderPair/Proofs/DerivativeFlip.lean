import ShaderPair.Proofs.Replacement
import ShaderPair.Proofs.Terminated
import ShaderPair.Proofs.UniformNames
import Mathlib.Algebra.Order.BigOperators.Group.List

/-!
# Vertical derivatives

Outside of pure mode the vertical axis is flipped, and so the fragment stage gets a factor in front
of the builtin functions for vertical derivatives.  The factor is put in front of every occurrence
of the name that they start with, word by word (`Finish.flipDerivatives_eq_flatMap`).  This is right
exactly if no other word has the name in it (`Finish.flipDerivatives_eq_flipBuiltins_iff`).  The
declaration of the leftover buffer, which both stages share, is the same in both of them exactly if
the name does not occur in the names and types of its fields (`derivatives_flipped`).
-/

namespace ShaderPair

open Text (Apart IsIdentifier Terminated isWord words)

namespace Finish

/-! ### Words -/

/-- The name that the builtin functions for vertical derivatives start with. -/
def derivativeName : Text := "dpdy"

/-- The factor for vertical derivatives. -/
def derivativeFactor : Text := "(-internals.yFactor_)*"

/-- The builtin functions for vertical derivatives. -/
def derivativeBuiltins : List Text := ["dpdy", "dpdyCoarse", "dpdyFine"]

/-- A text with the factor in front of the builtin functions for vertical derivatives, where all
other words stay as they are. -/
def flipBuiltins (t : Text) : Text :=
  (words t).flatMap fun w => if w ∈ derivativeBuiltins then derivativeFactor ++ w else w

variable {t w : Text}

theorem text_derivativeName :
  derivativeName = ['d', 'p', 'd', 'y']
  := by
  rw [derivativeName, Text.ofString_eq]
  rfl

theorem isIdentifier_derivativeName :
  IsIdentifier derivativeName
  := by
  rw [text_derivativeName]
  decide

theorem flipDerivatives_eq_replace (t : Text) :
  flipDerivatives .engine t = Text.replace derivativeName (derivativeFactor ++ derivativeName) t
  := by
  have hvalue : derivativeFactor ++ derivativeName = "(-internals.yFactor_)*dpdy" := by
    rw [derivativeFactor, derivativeName, Text.ofString_eq, Text.ofString_eq, Text.ofString_eq]
    rfl
  rw [hvalue]
  rfl

/-- The factor is put into each word on its own. -/
theorem flipDerivatives_eq_flatMap (t : Text) :
  flipDerivatives .engine t = (words t).flatMap (flipDerivatives .engine)
  := by
  have hflip := funext flipDerivatives_eq_replace
  rw [hflip]
  apply isIdentifier_derivativeName.replace_eq_flatMap

theorem flipDerivatives_append (h : Apart t w) :
  flipDerivatives .engine (t ++ w) = flipDerivatives .engine t ++ flipDerivatives .engine w
  := by
  simp only [flipDerivatives_eq_replace]
  apply isIdentifier_derivativeName.replace_append h

/-- A text in which the name occurs becomes longer. -/
theorem length_lt_flipDerivatives (h : derivativeName <:+: t) :
  t.length < (flipDerivatives .engine t).length
  := by
  rw [flipDerivatives_eq_replace]
  apply Text.length_lt_replace isIdentifier_derivativeName.1 _ h
  rw [derivativeFactor, text_derivativeName, Text.ofString_ofList]
  decide

/-- What does not have the name in it stays, and nothing else does. -/
theorem flipDerivatives_eq_self_iff :
  flipDerivatives .engine t = t ↔ ¬ derivativeName <:+: t
  := by
  constructor
  · intro heq h
    have hlt := length_lt_flipDerivatives h
    rw [heq] at hlt
    exact hlt.false
  · intro h
    rw [flipDerivatives_eq_replace]
    exact Text.replace_eq_self_iff.mpr fun hoccurs => absurd hoccurs h

/-- Each builtin function gets the factor. -/
theorem flipDerivatives_of_mem (h : w ∈ derivativeBuiltins) :
  flipDerivatives .engine w = derivativeFactor ++ w
  := by
  revert h w
  decide +kernel

/-- The factor is put in front of the builtin functions, and nothing else happens, exactly if no
other word has the name in it. -/
theorem flipDerivatives_eq_flipBuiltins_iff :
  flipDerivatives .engine t = flipBuiltins t ↔
    ∀ w ∈ words t, derivativeName <:+: w → w ∈ derivativeBuiltins
  := by
  rw [flipDerivatives_eq_flatMap, flipBuiltins]
  constructor
  · intro heq w hw hname
    by_contra hnot
    have hle : ∀ w ∈ words t, (if w ∈ derivativeBuiltins then derivativeFactor ++ w else w).length
        ≤ (flipDerivatives .engine w).length := by
      intro w _
      split
      next hmem => rw [flipDerivatives_of_mem hmem]
      next =>
        by_cases hoccurs : derivativeName <:+: w
        · exact (length_lt_flipDerivatives hoccurs).le
        · rw [flipDerivatives_eq_self_iff.mpr hoccurs]
    have hlt : (if w ∈ derivativeBuiltins then derivativeFactor ++ w else w).length
        < (flipDerivatives .engine w).length := by
      rw [if_neg hnot]
      apply length_lt_flipDerivatives hname
    have hlength := congrArg List.length heq
    rw [List.length_flatMap, List.length_flatMap] at hlength
    exact (List.sum_lt_sum _ _ hle ⟨w, hw, hlt⟩).ne' hlength
  · intro h
    apply List.flatMap_congr
    intro w hw
    split
    next hmem => apply flipDerivatives_of_mem hmem
    next hnot => exact flipDerivatives_eq_self_iff.mpr fun hname => hnot (h w hw hname)

end Finish

/-! ### Names in the leftover buffer -/

namespace LeftOver

open Finish (derivativeName isIdentifier_derivativeName)

variable {head t tail : Text} {u : Uniform}

/-- What stands alone between two texts without the name has the name in it if the whole has. -/
theorem infix_between_iff
    (hhead : ¬ derivativeName <:+: head) (hlast : ∀ c ∈ head.getLast?, ¬ isWord c)
    (htail : ¬ derivativeName <:+: tail) (hfirst : ∀ c ∈ tail.head?, ¬ isWord c) (t : Text) :
  derivativeName <:+: head ++ (t ++ tail) ↔ derivativeName <:+: t
  := by
  rw [isIdentifier_derivativeName.infix_append_iff (Text.apart_of_getLast? hlast _),
    isIdentifier_derivativeName.infix_append_iff (Text.apart_of_head? hfirst t),
    or_iff_right hhead, or_iff_left htail]

/-- The name occurs in the parts of a declaration if it occurs in one of them. -/
theorem infix_flatMap_iff
    {α : Type} {f : α → Text} (hf : ∀ a, ∀ c ∈ (f a).getLast?, ¬ isWord c) (as : List α) :
  derivativeName <:+: as.flatMap f ↔ ∃ a ∈ as, derivativeName <:+: f a
  := by
  induction as with
  | nil => simp [isIdentifier_derivativeName.1]
  | cons a as ih =>
    rw [List.flatMap_cons,
      isIdentifier_derivativeName.infix_append_iff (Text.apart_of_getLast? (hf a) _), ih]
    simp

/-- The literals around names and types, and the numbers, have characters of their own. -/
theorem not_infix_of_not_mem {c : Char} (hc : c ∈ ['d', 'p', 'd', 'y']) (ht : c ∉ t) :
  ¬ derivativeName <:+: t
  := by
  rw [Finish.text_derivativeName]
  apply Text.not_infix_of_not_mem hc ht

theorem not_infix_literal {literal : String} (h : 'p' ∉ literal.toList) :
  ¬ derivativeName <:+: Text.ofString literal
  := by
  apply not_infix_of_not_mem (c := 'p') (by decide)
  rw [Text.ofString_eq]
  exact h

theorem not_mem_wrapperName (k : Nat) :
  'p' ∉ wrapperName k
  := by
  simp only [wrapperName, Text.ofString_eq, List.mem_append, not_or,
    Text.not_mem_ofNat (show 'p'.isDigit = false from rfl)]
  decide

section Literals

variable {literal : String} {c : Char}

/-- A literal that ends outside of identifiers does so behind any text. -/
theorem outside_of_last
    (h : literal.toList.getLast? = some c) (hc : ¬ isWord c) (s : Text) :
  ∀ d ∈ (s ++ Text.ofString literal).getLast?, ¬ isWord d
  := by
  intro d hd
  rw [Text.ofString_eq, List.getLast?_append, h] at hd
  obtain rfl := Option.some.inj hd
  exact hc

/-- A literal that starts outside of identifiers does so in front of any text. -/
theorem outside_of_first
    (h : literal.toList.head? = some c) (hc : ¬ isWord c) (s : Text) :
  ∀ d ∈ (Text.ofString literal ++ s).head?, ¬ isWord d
  := by
  intro d hd
  rw [Text.ofString_eq, List.head?_append, h] at hd
  obtain rfl := Option.some.inj hd
  exact hc

theorem outside_of_first_literal
    (h : literal.toList.head? = some c) (hc : ¬ isWord c) :
  ∀ d ∈ (Text.ofString literal).head?, ¬ isWord d
  := by
  have hfirst := outside_of_first h hc []
  rwa [List.append_nil] at hfirst

theorem outside_of_last_literal
    (h : literal.toList.getLast? = some c) (hc : ¬ isWord c) :
  ∀ d ∈ (Text.ofString literal).getLast?, ¬ isWord d
  := outside_of_last h hc []

end Literals

/-- The struct around an element names its type. -/
theorem infix_wrapper_iff (u : Uniform) (number : Option Nat) :
  derivativeName <:+: wrapper (u, number) ↔ number.isSome ∧ derivativeName <:+: u.type
  := by
  cases number with
  | none => simp [wrapper, isIdentifier_derivativeName.1]
  | some k =>
    have hparts : wrapper (u, some k)
        = ("struct " ++ wrapperName k ++ " \x7b\n" ++ "  @size(16)\n" ++ "  el: ")
          ++ (u.type ++ (",\n" ++ "\x7d\n")) := by
      simp only [wrapper, List.append_assoc]
    have hhead : 'p' ∉ ("struct " ++ wrapperName k ++ " \x7b\n" ++ "  @size(16)\n"
        ++ "  el: " : Text) := by
      simp only [Text.ofString_eq, List.mem_append, not_or, not_mem_wrapperName]
      decide
    have htail : 'p' ∉ (",\n" ++ "\x7d\n" : Text) := by
      simp only [Text.ofString_eq]
      decide
    rw [hparts, infix_between_iff (not_infix_of_not_mem (by decide) hhead)
      (outside_of_last rfl (by decide) _) (not_infix_of_not_mem (by decide) htail)
      (outside_of_first rfl (by decide) _)]
    simp

theorem infix_arrayType_iff (element : Text) (length : Nat) :
  derivativeName <:+: arrayType element length ↔ derivativeName <:+: element
  := by
  have hparts : arrayType element length
      = "array<" ++ (element ++ (", " ++ (Text.ofNat length ++ ">"))) := by
    simp only [arrayType, List.append_assoc]
  have htail : 'p' ∉ (", " ++ (Text.ofNat length ++ ">") : Text) := by
    simp only [Text.ofString_eq, List.mem_append, not_or,
      Text.not_mem_ofNat (show 'p'.isDigit = false from rfl)]
    decide
  rw [hparts, infix_between_iff (not_infix_literal (by decide))
    (outside_of_last_literal rfl (by decide)) (not_infix_of_not_mem (by decide) htail)
    (outside_of_first rfl (by decide) _)]

/-- The field of a uniform has its name, and if it is not strided its type. -/
theorem infix_field_iff (u : Uniform) (number : Option Nat) :
  derivativeName <:+: field (u, number) ↔
    derivativeName <:+: u.name ∨ number = none ∧ derivativeName <:+: u.type
  := by
  cases number with
  | none =>
    let type := if 0 < u.length then arrayType u.type u.length else u.type
    have htype : derivativeName <:+: type ↔ derivativeName <:+: u.type := by
      dsimp only [type]
      split
      · apply infix_arrayType_iff
      · rfl
    have hparts : field (u, none) = "  " ++ (u.name ++ (" : " ++ (type ++ ",\n"))) := by
      simp only [field, type, List.append_assoc]
    rw [hparts, isIdentifier_derivativeName.infix_append_iff
        (Text.apart_of_getLast? (outside_of_last_literal rfl (by decide)) _),
      isIdentifier_derivativeName.infix_append_iff
        (Text.apart_of_head? (outside_of_first rfl (by decide) _) _),
      infix_between_iff (not_infix_literal (by decide)) (outside_of_last_literal rfl (by decide))
        (not_infix_literal (by decide)) (outside_of_first_literal rfl (by decide)), htype]
    have hnone : ¬ derivativeName <:+: "  " := not_infix_literal (by decide)
    simp only [hnone, false_or, true_and]
  | some k =>
    have hparts : field (u, some k) = "  @align(16) "
        ++ (u.name ++ (" : " ++ (arrayType (wrapperName k) u.length ++ ",\n"))) := by
      simp only [field, List.append_assoc]
    have htail : 'p' ∉ (" : " ++ (arrayType (wrapperName k) u.length ++ ",\n") : Text) := by
      simp only [arrayType, Text.ofString_eq, List.mem_append, not_or, not_mem_wrapperName,
        Text.not_mem_ofNat (show 'p'.isDigit = false from rfl)]
      decide
    rw [hparts, infix_between_iff (not_infix_literal (by decide))
      (outside_of_last_literal rfl (by decide)) (not_infix_of_not_mem (by decide) htail)
      (outside_of_first rfl (by decide) _)]
    simp

/-- The structs and the variable of the buffer name the fields and their types. -/
theorem infix_code_iff (slot : Slot) (us : List (Uniform × Option Nat)) :
  derivativeName <:+: code slot us ↔
    ∃ a ∈ us, derivativeName <:+: a.1.name ∨ derivativeName <:+: a.1.type
  := by
  let head : Text := "\n" ++ "struct " ++ name ++ " \x7b\n"
  let variablePart : Text := "var<uniform> " ++ variableName ++ " : " ++ name ++ ";\n"
  let tail : Text := "\x7d;\n" ++ (slot.annotation ++ variablePart)
  have hparts : code slot us = us.flatMap wrapper ++ (head ++ (us.flatMap field ++ tail)) := by
    simp only [code, head, tail, variablePart, List.append_assoc]
  have hhead : 'p' ∉ head := by
    simp only [head, name, Text.ofString_eq]
    decide
  have htail : 'y' ∉ tail := by
    have hdigits : ∀ n : Nat, 'y' ∉ Text.ofInt n := Text.not_mem_ofNat rfl
    simp only [tail, variablePart, variableName, name, Slot.annotation, Slot.annotationOf,
      Text.ofString_eq, List.mem_append, not_or, hdigits]
    decide
  have hwrapper : ∀ a, ∀ c ∈ (wrapper a).getLast?, ¬ isWord c := by
    rintro ⟨u, number⟩
    cases number with
    | none =>
      rintro c ⟨⟩
    | some k => apply outside_of_last rfl (by decide)
  have hfield : ∀ a, ∀ c ∈ (field a).getLast?, ¬ isWord c := by
    rintro ⟨u, number⟩
    cases number <;> apply outside_of_last rfl (by decide)
  have hfirst : ∀ c ∈ (head ++ (us.flatMap field ++ tail)).head?, ¬ isWord c := by
    simp only [head, List.append_assoc]
    exact outside_of_first rfl (by decide) _
  have hlast : ∀ c ∈ head.getLast?, ¬ isWord c := outside_of_last rfl (by decide) _
  rw [hparts, isIdentifier_derivativeName.infix_append_iff (Text.apart_of_head? hfirst _),
    infix_between_iff (not_infix_of_not_mem (by decide) hhead) hlast
      (not_infix_of_not_mem (by decide) htail) (outside_of_first rfl (by decide) _),
    infix_flatMap_iff hwrapper, infix_flatMap_iff hfield]
  constructor
  · rintro (⟨⟨u, number⟩, ha, h⟩ | ⟨⟨u, number⟩, ha, h⟩)
    · exact ⟨_, ha, Or.inr ((infix_wrapper_iff u number).mp h).2⟩
    · exact ⟨_, ha, ((infix_field_iff u number).mp h).imp_right And.right⟩
  · rintro ⟨⟨u, number⟩, ha, hname | htype⟩
    · right
      exact ⟨_, ha, (infix_field_iff u number).mpr (Or.inl hname)⟩
    · cases number with
      | none =>
        right
        exact ⟨_, ha, (infix_field_iff u none).mpr (Or.inr ⟨rfl, htype⟩)⟩
      | some k =>
        left
        exact ⟨_, ha, (infix_wrapper_iff u (some k)).mpr ⟨rfl, htype⟩⟩

/-- The name occurs in the declaration of the buffer if it occurs in a name or a type of a field. -/
theorem infix_declaration_iff (slot : Slot) (first : Nat) (us : List Uniform) :
  derivativeName <:+: declaration slot first us ↔
    ∃ u ∈ us, derivativeName <:+: u.name ∨ derivativeName <:+: u.type
  := by
  rw [declaration]
  split
  next hempty =>
    rw [List.isEmpty_iff.mp hempty]
    simp [isIdentifier_derivativeName.1]
  next =>
    rw [infix_code_iff]
    conv_rhs => rw [← map_fst_enumerate first us]
    constructor
    · rintro ⟨a, ha, h⟩
      exact ⟨a.1, List.mem_map_of_mem ha, h⟩
    · rintro ⟨u, hu, h⟩
      obtain ⟨a, ha, rfl⟩ := List.mem_map.mp hu
      exact ⟨a, ha, h⟩

theorem terminated_declaration (slot : Slot) (first : Nat) (us : List Uniform) :
  Terminated (declaration slot first us)
  := by
  rw [declaration]
  split
  · left
    rfl
  · right
    have hend : Text.ofString ";\n" = [';', '\n'] := by
      rw [Text.ofString_eq]
      rfl
    rw [← hend]
    exact ⟨_, rfl⟩

end LeftOver

/-! ### Finished stages -/

namespace Finish

/-- The code of a stage with its directives turned into comments and its accesses to strided arrays
redirected. -/
def body (d : Declarations) (code : Text) : Text :=
  LeftOver.redirectAccesses d.strided (Define.commentOut code)

variable {s t : Text}

/-- Neither of the two makes or breaks an occurrence of the name. -/
theorem infix_body_iff (d : Declarations) (code : Text) :
  derivativeName <:+: body d code ↔ derivativeName <:+: code
  := by
  have hidentifier := isIdentifier_derivativeName
  rw [body, ← Define.infix_commentOut_iff isIdentifier_derivativeName code]
  rw [text_derivativeName] at hidentifier ⊢
  apply LeftOver.infix_redirectAccesses_iff hidentifier <;> decide

theorem terminated_body
    {d : Declarations} (hd : ∀ array ∈ d.strided, ';' ∉ array) (hs : Terminated s) :
  Terminated (body d s)
  := LeftOver.terminated_redirectAccesses hd (Define.terminated_commentOut hs)

theorem body_append_of_terminated
    {d : Declarations} (hd : ∀ array ∈ d.strided, ';' ∉ array) (hs : Terminated s) (code : Text) :
  body d (s ++ code) = body d s ++ body d code
  := by
  rw [body, Define.commentOut_append hs,
    LeftOver.redirectAccesses_append_of_terminated hd (Define.terminated_commentOut hs)]
  rfl

theorem flipDerivatives_append_of_terminated (hs : Terminated s) (t : Text) :
  flipDerivatives .engine (s ++ t) = flipDerivatives .engine s ++ flipDerivatives .engine t
  := flipDerivatives_append (hs.apart t)

/-- Lines in front of the entry point stay where they are. -/
theorem infix_wrap
    (hs : Terminated s) {head : Text} (h : ¬ entryPoint <:+: head ++ s) (start finish t : Text) :
  s <:+: wrap start finish (head ++ (s ++ t))
  := by
  obtain rfl | ⟨u, rfl⟩ := hs
  · apply List.nil_infix
  · have hentry : '\n' ∉ entryPoint := by
      rw [entryPoint, Text.ofString_eq]
      decide
    have hfront : ¬ entryPoint <:+: head ++ u ++ [';'] := by
      intro hoccurs
      apply h
      apply hoccurs.trans
      exact ⟨[], ['\n'], by simp⟩
    have hstarts := Brace.prefix_wrap hentry hfront start finish t
    have hcode : head ++ u ++ [';'] ++ '\n' :: t = head ++ (u ++ [';', '\n'] ++ t) := by
      simp
    rw [hcode] at hstarts
    rw [wrap]
    apply List.infix_append_of_infix_right
    apply List.IsInfix.trans _ hstarts.isInfix
    exact ⟨head, [], by simp⟩

end Finish

namespace Compile

open Finish

variable {source : SourcePair} {c : Context} {out : StageTexts}

/-- The strided arrays of a pair have identifiers for names, if the plain uniforms before did. -/
theorem isIdentifier_of_mem_strided
    (hnamed : c.Named) {array : Text}
    (h : array ∈ (c.entered source).built.interface.declarations.strided) :
  IsIdentifier array
  := by
  obtain ⟨-, -, hstrided⟩ := (c.start source).enterAll_frame (source.entries c.mode)
  change array ∈ (c.entered source).interface.declarations.strided ++ _ at h
  have hnone : (c.entered source).interface.declarations.strided = [] := hstrided
  rw [hnone, List.nil_append] at h
  obtain ⟨a, ha, rfl⟩ := List.mem_map.mp h
  have hu : a.1 ∈ (c.entered source).uniforms := by
    rw [← LeftOver.map_fst_enumerate [].length (c.entered source).uniforms]
    apply List.mem_map_of_mem (List.mem_filter.mp ha).1
  rw [Context.uniforms_entered] at hu
  rcases List.mem_append.mp hu with hu | hu
  · exact hnamed _ hu
  · have hfirst := (List.mem_filter.mp hu).1
    exact SourcePair.isIdentifier_of_mem_uniforms (Uniform.mem_of_mem_firsts hfirst)

/-- Both stages of a compiled pair have the declaration of the leftover buffer in front of their
code, the fragment stage with its derivatives flipped. -/
theorem shared_of_pair_ok
    (hmode : c.mode = .engine) (hnamed : c.Named) (h : (pair source c).result = .ok out) :
  ∃ slot vertex fragment start,
    let d := (c.entered source).built.interface.declarations
    let shared := body d (LeftOver.declaration slot 0 (c.entered source).uniforms)
    let flipped := flipDerivatives .engine shared ++ fragment
    Terminated shared ∧
    out.vertex = wrap (vertexStart d) (vertexEnd .engine)
      (StageStruct.vertexInputs d ++ StageStruct.vertexOutputs d ++ (shared ++ vertex)) ∧
    out.fragment = wrap start fragmentEnd
      (enable (StageStruct.extensions flipped) ++ StageStruct.fragmentInputs d
        ++ StageStruct.fragmentOutputs flipped ++ flipped)
  := by
  obtain ⟨⟨slot, declared, annotated, -, -, rfl⟩, -⟩ := pair_of_ok h
  let d := (c.entered source).built.interface.declarations
  let leftOver := LeftOver.declaration slot 0 (c.entered source).uniforms
  have harrays : ∀ array ∈ d.strided, ';' ∉ array := by
    intro array harray hmem
    have hword := (isIdentifier_of_mem_strided hnamed harray).2 _ hmem
    revert hword
    decide
  have hleftOver := LeftOver.terminated_declaration slot 0 (c.entered source).uniforms
  have hshared := terminated_body harrays hleftOver
  have hsplit := body_append_of_terminated harrays hleftOver
  refine ⟨slot, body d annotated.vertex, flipDerivatives .engine (body d annotated.fragment),
    fragmentStart .engine (leftOver ++ annotated.fragment), hshared, ?_, ?_⟩
  · rw [← hsplit, ← hmode]
    rfl
  · rw [← flipDerivatives_append_of_terminated hshared, ← hsplit, ← hmode]
    rfl

end Compile

/-- Outside of pure mode the factor for vertical derivatives is put into each word of the fragment
stage on its own.  Builtin functions get it in front, and words without their name in them stay.  So
nothing but builtin functions is changed exactly if no other word has the name in it.  In every
context that can be reached, the stages of a pair that is compiled have the declaration of the
leftover buffer in front of their code, and it is the same text in both of them exactly if neither a
name nor a type of a field has the name in it.  Then, if the entry points stand behind it, both
finished stages hold the declaration as it is. -/
theorem derivatives_flipped
    (limits : Limits) (components : OrderedMap Text Int) {ops : List Operation}
    (hops : ∀ op ∈ ops, op.Named) :
  (∀ w ∈ Finish.derivativeBuiltins,
    Finish.flipDerivatives .engine w = Finish.derivativeFactor ++ w) ∧
  (∀ w, Finish.flipDerivatives .engine w = w ↔ ¬ Finish.derivativeName <:+: w) ∧
  (∀ d code,
    let body := Finish.body d code
    let flipped := Finish.flipDerivatives .engine body
    Finish.fragment .engine d code
      = Finish.wrap (Finish.fragmentStart .engine code) Finish.fragmentEnd
          (Finish.enable (StageStruct.extensions flipped) ++ StageStruct.fragmentInputs d
            ++ StageStruct.fragmentOutputs flipped ++ flipped) ∧
    flipped = (words body).flatMap (Finish.flipDerivatives .engine) ∧
    (flipped = Finish.flipBuiltins body ↔
      ∀ w ∈ words body, Finish.derivativeName <:+: w → w ∈ Finish.derivativeBuiltins)) ∧
  let c := (Context.fresh .engine limits components).after ops
  ∀ source out, (Compile.pair source c).result = .ok out →
    let fields := (c.entered source).uniforms
    let d := (c.entered source).built.interface.declarations
    ∃ slot vertex fragment start,
      let shared := Finish.body d (LeftOver.declaration slot 0 fields)
      let shared' := Finish.flipDerivatives .engine shared
      let vertexHead := StageStruct.vertexInputs d ++ StageStruct.vertexOutputs d
      let fragmentHead := Finish.enable (StageStruct.extensions (shared' ++ fragment))
        ++ StageStruct.fragmentInputs d ++ StageStruct.fragmentOutputs (shared' ++ fragment)
      out.vertex = Finish.wrap (Finish.vertexStart d) (Finish.vertexEnd .engine)
        (vertexHead ++ (shared ++ vertex)) ∧
      out.fragment = Finish.wrap start Finish.fragmentEnd
        (fragmentHead ++ (shared' ++ fragment)) ∧
      (shared' = shared ↔ ∀ u ∈ fields,
        ¬ Finish.derivativeName <:+: u.name ∧ ¬ Finish.derivativeName <:+: u.type) ∧
      (shared' = shared → ¬ Finish.entryPoint <:+: vertexHead ++ shared →
        ¬ Finish.entryPoint <:+: fragmentHead ++ shared →
        shared <:+: out.vertex ∧ shared <:+: out.fragment)
  := by
  refine ⟨fun w => Finish.flipDerivatives_of_mem,
    fun w => Finish.flipDerivatives_eq_self_iff, ?_, ?_⟩
  · intro d code body flipped
    exact ⟨rfl, Finish.flipDerivatives_eq_flatMap body, Finish.flipDerivatives_eq_flipBuiltins_iff⟩
  · intro c source out hout
    have hmode : c.mode = .engine := (Session.steps _ ops).1
    have hnamed : c.Named := Session.named_after (Context.named_fresh _ _ _) hops
    dsimp only
    obtain ⟨slot, vertex, fragment, start, hshared, hvertex, hfragment⟩ :=
      Compile.shared_of_pair_ok hmode hnamed hout
    refine ⟨slot, vertex, fragment, start, hvertex, hfragment, ?_, ?_⟩
    · rw [Finish.flipDerivatives_eq_self_iff, Finish.infix_body_iff,
        LeftOver.infix_declaration_iff]
      simp only [not_exists, not_and, not_or]
    · intro hsame hentry hentry'
      rw [hsame] at hfragment hentry'
      rw [hvertex, hfragment]
      constructor
      · apply Finish.infix_wrap hshared hentry
      · apply Finish.infix_wrap hshared hentry'

/-- A pair with two plain uniforms and a derivative. -/
def sloped : SourcePair where
  vertex := "uniform scale : f32;"
  fragment := "uniform size : vec2<f32>;\nlet d = dpdyFine(x);"

/-- In a pair whose uniforms have ordinary names, the declaration is the same in both stages. -/
theorem derivatives_flipped_sloped :
  let ops : List Operation := [.pair sloped]
  let c := (Context.fresh .engine {} ∅).after ops
  (∀ op ∈ ops, op.Named) ∧
  Finish.flipDerivatives .engine "dpdyFine" = Finish.derivativeFactor ++ "dpdyFine" ∧
  ∃ out slot, (Compile.pair sloped c).result = .ok out ∧
    let d := (c.entered sloped).built.interface.declarations
    let shared := Finish.body d (LeftOver.declaration slot 0 (c.entered sloped).uniforms)
    ∃ head vertex start head' fragment,
      out.vertex = Finish.wrap (Finish.vertexStart d) (Finish.vertexEnd .engine)
        (head ++ (shared ++ vertex)) ∧
      out.fragment = Finish.wrap start Finish.fragmentEnd (head' ++ (shared ++ fragment))
  := by
  intro ops c
  have hops : ∀ op ∈ ops, op.Named := by
    intro op hop
    rw [List.mem_singleton.mp hop]
    trivial
  obtain ⟨hbuiltins, -, -, hstages⟩ := derivatives_flipped {} ∅ hops
  refine ⟨hops, hbuiltins _ (by decide +kernel), ?_⟩
  have hok : (Compile.pair sloped c).result.isOk := by decide +kernel
  obtain ⟨out, hout⟩ := Compile.exists_of_isOk hok
  obtain ⟨slot, vertex, fragment, start, hvertex, hfragment, hsame, -⟩ := hstages sloped out hout
  have hfields : ∀ u ∈ (c.entered sloped).uniforms,
      ¬ Finish.derivativeName <:+: u.name ∧ ¬ Finish.derivativeName <:+: u.type := by
    decide +kernel
  rw [hsame.mpr hfields] at hfragment
  exact ⟨out, slot, hout, _, vertex, start, _, fragment, hvertex, hfragment⟩

/-- A pair with a plain uniform that is called after a derivative. -/
def slopeScaled : SourcePair where
  vertex := "uniform dpdyScale : f32;"
  fragment := []

/-- A uniform that is called after a derivative gets the factor, and so the fragment stage declares
another buffer than the vertex stage. -/
theorem not_same_declaration_slopeScaled :
  let declaration : Text := "struct LeftOver \x7b\n" ++ "  dpdyScale : f32,\n" ++ "\x7d;\n"
  let flipped : Text := "struct LeftOver \x7b\n" ++ "  (-internals.yFactor_)*dpdyScale"
    ++ " : f32,\n" ++ "\x7d;\n"
  (Compile.pair slopeScaled (.fresh .engine {} ∅)).result.map (fun out =>
      (Text.occurs declaration out.vertex, Text.occurs declaration out.fragment,
        Text.occurs flipped out.fragment))
    = .ok (true, false, true)
  := by
  decide +kernel

end ShaderPair
