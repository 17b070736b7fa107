import ShaderPair.Proofs.LeftOverFields
import ShaderPair.Proofs.LoneAccess

/-!
# The leftover buffer and its strided arrays

Plain uniforms that are declared one after the other are kept under their first declarations
(`Context.after_declareUniforms`).  The struct of the leftover buffer has one field for each of
them.  A uniform is *wrapped* if it is an array whose elements have one or two components
(`LeftOver.IsWrapped`); its number is that of the wrapped uniforms in front of it, and the struct
around its elements is found at this number (`LeftOver.getElem?_wrapped`).  The declaration of the
buffer, the structs and the registry of strided arrays all go by these numbers
(`leftOver_corresponds`).
-/

namespace ShaderPair

/-! ### Declarations of plain uniforms -/

/-- The uniform that is declared, if its type can be read. -/
def VariableForm.uniform? (constants : OrderedMap Text Text) (form : VariableForm) :
    Option Uniform :=
  (Extent.ofType constants form.type).toOption.map fun e => ⟨form.name, e.element, e.length⟩

/-- Plain uniforms to be declared, each with the constants for its length. -/
abbrev UniformCalls : Type := List (OrderedMap Text Text × VariableForm)

namespace UniformCalls

/-- The declarations as operations of a session. -/
def operations (calls : UniformCalls) : List Operation :=
  calls.map fun call => .declareUniform call.1 call.2

/-- The uniforms that are declared, in order. -/
def declared (calls : UniformCalls) : List Uniform :=
  calls.filterMap fun call => call.2.uniform? call.1

/-- A uniform has the name that it is declared with. -/
theorem exists_name_of_mem_declared {calls : UniformCalls} {u : Uniform} (h : u ∈ calls.declared) :
  ∃ call ∈ calls, call.2.name = u.name
  := by
  obtain ⟨call, hcall, huniform⟩ := List.mem_filterMap.mp h
  obtain ⟨e, -, rfl⟩ := Option.map_eq_some_iff.mp huniform
  exact ⟨call, hcall, rfl⟩

end UniformCalls

/-- A declaration adds its uniform and leaves everything else as it is. -/
theorem Compile.context_declareUniform
    (constants : OrderedMap Text Text) (form : VariableForm) (c : Context) :
  (declareUniform constants form c).context
    = { c with uniforms := (form.uniform? constants).toList.foldl Uniform.add c.uniforms }
  := by
  rw [declareUniform, VariableForm.uniform?]
  cases hextent : Extent.ofType constants form.type with
  | error fault =>
    have hfailed := resolveExtent_fail form.name c hextent
    rw [bind_of_error (by rw [hfailed]), hfailed]
    rfl
  | ok e =>
    have hresolved := resolveExtent_apply form.name c hextent
    rw [bind_of_ok (a := e) (by rw [hresolved]), hresolved]
    change (if _ then _ else _) = { c with uniforms := Uniform.add c.uniforms _ }
    rw [Uniform.add]
    split <;> rfl

/-- Declarations that follow each other add their uniforms in order. -/
theorem Context.after_declareUniforms (c : Context) (calls : UniformCalls) :
  c.after calls.operations = { c with uniforms := calls.declared.foldl Uniform.add c.uniforms }
  := by
  induction calls generalizing c with
  | nil => rfl
  | cons call calls ih =>
    have hhead : (Operation.run (.declareUniform call.1 call.2) c).context
        = { c with uniforms := (call.2.uniform? call.1).toList.foldl Uniform.add c.uniforms } :=
      Compile.context_declareUniform call.1 call.2 c
    have hdeclared : UniformCalls.declared (call :: calls)
        = (call.2.uniform? call.1).toList ++ UniformCalls.declared calls := by
      rw [UniformCalls.declared, List.filterMap_cons]
      cases call.2.uniform? call.1 <;> rfl
    rw [UniformCalls.operations, List.map_cons, ← UniformCalls.operations, Context.after, hhead,
      ih, hdeclared, List.foldl_append]

namespace Uniform

variable {us : List Uniform}

/-- Whether uniforms are left out by their names first or last makes no difference. -/
theorem firsts_filter (p : Text → Bool) (us : List Uniform) :
  firsts (us.filter fun u => p u.name) = (firsts us).filter fun u => p u.name
  := by
  induction us with
  | nil => rfl
  | cons u us ih =>
    by_cases hu : p u.name
    · rw [List.filter_cons, if_pos hu, firsts, firsts, ih, List.filter_cons, if_pos hu,
        List.filter_filter, List.filter_filter]
      simp only [Bool.and_comm]
    · rw [List.filter_cons, if_neg hu, firsts, ih, List.filter_cons, if_neg hu, List.filter_filter]
      apply List.filter_congr
      intro v _
      rw [Eq.comm, Bool.and_eq_left_iff_imp]
      intro hv
      apply decide_eq_true
      intro heq
      rw [heq] at hv
      exact hu hv

/-- The first uniforms of each name follow each other as the names first occur. -/
theorem map_name_firsts (us : List Uniform) :
  (firsts us).map name = (us.map name).eraseDups
  := by
  induction hn : us.length using Nat.strong_induction_on generalizing us with
  | _ n ih =>
    subst hn
    cases us with
    | nil => rfl
    | cons u us =>
      let p : Text → Bool := fun n => !n == u.name
      have hfilter : (fun v : Uniform => decide (v.name ≠ u.name)) = fun v => p v.name := by
        funext v
        simp [p, beq_eq_decide]
      have hlength : (us.filter fun v => p v.name).length < (u :: us).length :=
        Nat.lt_succ_of_le (List.length_filter_le _ us)
      rw [firsts, List.map_cons, List.map_cons, List.eraseDups_cons, hfilter, ← firsts_filter,
        ih _ hlength _ rfl, List.filter_map]
      rfl

/-- The first uniform of each name is the one that is found by it. -/
theorem find?_of_mem_firsts {u : Uniform} (h : u ∈ firsts us) :
  us.find? (·.name = u.name) = some u
  := by
  induction us with
  | nil => cases h
  | cons v us ih =>
    rcases List.mem_cons.mp h with rfl | h
    · apply List.find?_cons_of_pos
      apply decide_eq_true rfl
    · obtain ⟨hmem, hne⟩ := List.mem_filter.mp h
      rw [List.find?_cons_of_neg, ih hmem]
      simpa using Ne.symm (of_decide_eq_true hne)

end Uniform

/-! ### Wrapped uniforms -/

namespace LeftOver

open Text (IsIdentifier isBlank isWord)

variable {us : List Uniform} {u : Uniform}

/-- An array whose elements have one or two components. -/
def IsWrapped (u : Uniform) : Prop :=
  0 < u.length ∧
    (ShaderType.componentCount? u.type = some 1 ∨ ShaderType.componentCount? u.type = some 2)

instance : DecidablePred IsWrapped := fun u =>
  inferInstanceAs (Decidable (0 < u.length ∧
    (ShaderType.componentCount? u.type = some 1 ∨ ShaderType.componentCount? u.type = some 2)))

/-- Every type with components has one. -/
theorem componentCount?_pos {type : Text} {n : Nat} (h : ShaderType.componentCount? type = some n) :
  0 < n
  := by
  have htable : ∀ row ∈ ShaderType.componentTable, 0 < row.1 := by
    simp [ShaderType.componentTable]
  obtain ⟨row, hrow, rfl⟩ := Option.map_eq_some_iff.mp h
  apply htable row (List.mem_of_find?_eq_some hrow)

theorem isStrided_iff (u : Uniform) :
  isStrided u = true ↔ IsWrapped u
  := by
  rw [isStrided, IsWrapped, Bool.and_eq_true, decide_eq_true_iff, and_congr_right_iff]
  intro _
  cases hcount : ShaderType.componentCount? u.type with
  | none => simp
  | some n =>
    have hpos := componentCount?_pos hcount
    simp only [Option.any_some, decide_eq_true_iff, Option.some.injEq]
    omega

/-- The wrapped uniforms among others. -/
def wrapped (us : List Uniform) : List Uniform := us.filter fun u => IsWrapped u

/-- The number of wrapped uniforms in front of a place. -/
def numberAt (us : List Uniform) (i : Nat) : Nat := (us.take i).countP fun u => IsWrapped u

theorem enumerate_cons_of_isWrapped (hu : IsWrapped u) (first : Nat) (us : List Uniform) :
  enumerate first (u :: us) = (u, some first) :: enumerate (first + 1) us
  := by
  rw [enumerate, if_pos ((isStrided_iff u).mpr hu)]

theorem enumerate_cons_of_not_isWrapped (hu : ¬ IsWrapped u) (first : Nat) (us : List Uniform) :
  enumerate first (u :: us) = (u, none) :: enumerate first us
  := by
  rw [enumerate, if_neg (mt (isStrided_iff u).mp hu)]

theorem wrapped_cons (u : Uniform) (us : List Uniform) :
  wrapped (u :: us) = if IsWrapped u then u :: wrapped us else wrapped us
  := by
  rw [wrapped, List.filter_cons]
  simp only [decide_eq_true_iff]
  rfl

theorem numberAt_cons_succ (u : Uniform) (us : List Uniform) (i : Nat) :
  numberAt (u :: us) (i + 1) = numberAt us i + if IsWrapped u then 1 else 0
  := by
  rw [numberAt, List.take_succ_cons, List.countP_cons]
  simp only [decide_eq_true_iff]
  rfl

/-- A wrapped uniform is found among the wrapped ones at its number. -/
theorem getElem?_wrapped {i : Nat} (hi : us[i]? = some u) (hu : IsWrapped u) :
  (wrapped us)[numberAt us i]? = some u
  := by
  induction us generalizing i with
  | nil => cases hi
  | cons v us ih =>
    cases i with
    | zero =>
      obtain rfl := Option.some.inj hi
      rw [wrapped_cons, if_pos hu]
      rfl
    | succ i =>
      rw [wrapped_cons, numberAt_cons_succ]
      by_cases hv : IsWrapped v
      · rw [if_pos hv, if_pos hv, List.getElem?_cons_succ]
        exact ih hi
      · rw [if_neg hv, if_neg hv]
        exact ih hi

theorem stridedNames_eq (first : Nat) (us : List Uniform) :
  stridedNames first us = (wrapped us).map Uniform.name
  := by
  rw [stridedNames]
  induction us generalizing first with
  | nil => rfl
  | cons u us ih =>
    rw [wrapped_cons]
    by_cases hu : IsWrapped u
    · rw [enumerate_cons_of_isWrapped hu, if_pos hu, List.map_cons, ← ih (first + 1)]
      rfl
    · rw [enumerate_cons_of_not_isWrapped hu, if_neg hu, ← ih first]
      rfl

/-! ### The declaration of the buffer -/

/-- The struct around the elements of the wrapped uniform number `k`. -/
def wrapperStruct (k : Nat) (u : Uniform) : Text :=
  "struct " ++ wrapperName k ++ " \x7b\n" ++ "  @size(16)\n" ++ "  el: " ++ u.type ++ ",\n"
    ++ "\x7d\n"

/-- The field of a uniform, which has the number `k` if it is wrapped. -/
def member (k : Nat) (u : Uniform) : Text :=
  if IsWrapped u then
    "  @align(16) " ++ u.name ++ " : "
      ++ ("array<" ++ wrapperName k ++ ", " ++ Text.ofNat u.length ++ ">") ++ ",\n"
  else if 0 < u.length then
    "  " ++ u.name ++ " : " ++ ("array<" ++ u.type ++ ", " ++ Text.ofNat u.length ++ ">") ++ ",\n"
  else "  " ++ u.name ++ " : " ++ u.type ++ ",\n"

/-- The declaration of the buffer at a slot: the structs of the wrapped uniforms by their numbers,
and one field for each uniform.  The numbers start with `first`. -/
def bufferText (slot : Slot) (first : Nat) (us : List Uniform) : Text :=
  ((wrapped us).mapIdx fun k => wrapperStruct (first + k)).flatten ++ "\n"
    ++ "struct " ++ name ++ " \x7b\n"
    ++ (us.mapIdx fun i => member (first + numberAt us i)).flatten ++ "\x7d;\n"
    ++ slot.annotation ++ "var<uniform> " ++ variableName ++ " : " ++ name ++ ";\n"

theorem flatMap_wrapper_enumerate (first : Nat) (us : List Uniform) :
  (enumerate first us).flatMap wrapper
    = ((wrapped us).mapIdx fun k => wrapperStruct (first + k)).flatten
  := by
  induction us generalizing first with
  | nil => rfl
  | cons u us ih =>
    rw [wrapped_cons]
    by_cases hu : IsWrapped u
    · rw [enumerate_cons_of_isWrapped hu, if_pos hu, List.flatMap_cons, ih, List.mapIdx_cons]
      simp only [List.flatten_cons, Nat.add_assoc, Nat.add_comm 1]
      rfl
    · rw [enumerate_cons_of_not_isWrapped hu, if_neg hu, List.flatMap_cons, ih]
      rfl

theorem field_of_isWrapped (hu : IsWrapped u) (k : Nat) :
  field (u, some k) = member k u
  := by
  rw [member, if_pos hu]
  rfl

theorem field_of_not_isWrapped (hu : ¬ IsWrapped u) (k : Nat) :
  field (u, none) = member k u
  := by
  rw [member, if_neg hu, field]
  split <;> rfl

theorem flatMap_field_enumerate (first : Nat) (us : List Uniform) :
  (enumerate first us).flatMap field
    = (us.mapIdx fun i => member (first + numberAt us i)).flatten
  := by
  induction us generalizing first with
  | nil => rfl
  | cons u us ih =>
    rw [List.mapIdx_cons]
    simp only [numberAt_cons_succ, List.flatten_cons]
    by_cases hu : IsWrapped u
    · rw [enumerate_cons_of_isWrapped hu, List.flatMap_cons, ih, field_of_isWrapped hu]
      simp only [if_pos hu, Nat.add_assoc, Nat.add_comm 1]
      rfl
    · rw [enumerate_cons_of_not_isWrapped hu, List.flatMap_cons, ih,
        field_of_not_isWrapped hu first]
      simp only [if_neg hu]
      rfl

theorem code_enumerate (slot : Slot) (first : Nat) (us : List Uniform) :
  code slot (enumerate first us) = bufferText slot first us
  := by
  rw [code, flatMap_wrapper_enumerate, flatMap_field_enumerate, bufferText]

theorem declaration_eq (slot : Slot) (first : Nat) (us : List Uniform) :
  declaration slot first us = if us = [] then [] else bufferText slot first us
  := by
  rw [declaration, code_enumerate]
  simp only [List.isEmpty_iff]

/-- Different numbers give different structs. -/
theorem wrapperName_injective :
  Function.Injective wrapperName
  := by
  intro k l h
  rw [wrapperName, wrapperName, List.append_cancel_right_eq, List.append_cancel_left_eq] at h
  have hdigits := congrArg (fun t => Nat.ofDigitChars 10 t 0) h
  simpa only [Text.ofNat, Nat.ofDigitChars_toDigits, Nat.one_lt_ofNat, le_refl] using hdigits

/-! ### Accesses to wrapped uniforms -/

/-- With the names of the wrapped uniforms among others registered, an access goes to the field of
an element exactly if its array is one of them. -/
theorem redirectAccesses_wrapped
    (hnodup : (us.map Uniform.name).Nodup) (hnames : ∀ u ∈ us, IsIdentifier u.name)
    (a : LoneAccess) :
  redirectAccesses ((wrapped us).map Uniform.name) a.text
    = if ∃ u ∈ us, u.name = a.array ∧ IsWrapped u then a.redirected else a.text
  := by
  have hmem : ∀ {array}, array ∈ (wrapped us).map Uniform.name ↔
      ∃ u ∈ us, u.name = array ∧ IsWrapped u := by
    intro array
    rw [List.mem_map]
    apply exists_congr
    intro u
    rw [wrapped, List.mem_filter, decide_eq_true_iff, and_assoc, and_comm (a := u.name = _)]
  have hwrapped : ((wrapped us).map Uniform.name).Nodup :=
    hnodup.sublist (List.filter_sublist.map _)
  have hidentifiers : ∀ array ∈ (wrapped us).map Uniform.name, IsIdentifier array := by
    intro array harray
    obtain ⟨u, hu, rfl, -⟩ := hmem.mp harray
    exact hnames u hu
  rw [LoneAccess.redirectAccesses_text hidentifiers hwrapped]
  simp only [hmem]

end LeftOver

open LeftOver in
/-- Plain uniforms are declared one after the other in a fresh context, and then the leftover buffer
is built.  The uniforms kept are the first ones of their names, in order of the first occurrences.
The declaration of the buffer has one field for each of them, and one struct for each wrapped one;
the field of a wrapped uniform has the struct of its number, which holds an element of its type, and
different numbers give different structs.  The strided arrays are the wrapped uniforms in order of
their numbers, so that an access goes to the field of an element exactly if its array is a wrapped
uniform. -/
theorem leftOver_corresponds
    (mode : Mode) (limits : Limits) (components : OrderedMap Text Int) (calls : UniformCalls)
    {text : Text} :
  let c := (Context.fresh mode limits components).after calls.operations
  let us := c.uniforms
  let registry := (Compile.buildLeftOver c).context.interface.declarations.strided
  (Compile.buildLeftOver c).result = .ok text →
  (us.map Uniform.name = (calls.declared.map Uniform.name).eraseDups ∧
    ∀ u ∈ us, calls.declared.find? (·.name = u.name) = some u) ∧
  (∃ slot, text = if us = [] then [] else bufferText slot 0 us) ∧
  (∀ i u, us[i]? = some u → IsWrapped u → (wrapped us)[numberAt us i]? = some u) ∧
  Function.Injective wrapperName ∧
  registry = (wrapped us).map Uniform.name ∧
  ((∀ call ∈ calls, Text.IsIdentifier call.2.name) → ∀ a : LoneAccess,
    redirectAccesses registry a.text
      = if ∃ u ∈ us, u.name = a.array ∧ IsWrapped u then a.redirected else a.text)
  := by
  intro c us registry hbuilt
  have hc := Context.after_declareUniforms (Context.fresh mode limits components) calls
  have hus : us = Uniform.firsts calls.declared := by
    refine (congrArg Context.uniforms hc).trans ?_
    rw [Uniform.foldl_add]
    simp [Context.fresh, Uniform.without]
  have hstrided : c.interface.declarations.strided = [] :=
    congrArg (fun c : Context => c.interface.declarations.strided) hc
  obtain ⟨⟨slot, htext⟩, ⟨r, hcontext⟩, -⟩ := Compile.buildLeftOver_of_ok hbuilt
  have hregistry : registry = (wrapped us).map Uniform.name := by
    refine (congrArg (fun c : Context => c.interface.declarations.strided) hcontext).trans ?_
    change c.interface.declarations.strided
      ++ stridedNames c.interface.declarations.strided.length us = _
    rw [hstrided, stridedNames_eq]
    rfl
  refine ⟨⟨?_, ?_⟩, ?_, fun i u => getElem?_wrapped, wrapperName_injective, hregistry, ?_⟩
  · rw [hus, Uniform.map_name_firsts]
  · intro u hu
    rw [hus] at hu
    apply Uniform.find?_of_mem_firsts hu
  · use slot
    rw [htext, hstrided, declaration_eq]
    rfl
  · intro hnames a
    rw [hregistry]
    apply redirectAccesses_wrapped
    · rw [hus]
      apply Uniform.nodup_firsts
    · intro u hu
      rw [hus] at hu
      obtain ⟨call, hcall, hname⟩ :=
        UniformCalls.exists_name_of_mem_declared (Uniform.mem_of_mem_firsts hu)
      rw [← hname]
      apply hnames call hcall

/-- Declarations of wrapped uniforms and of others, one of them a second time. -/
def mixedCalls : UniformCalls := [
  (∅, ⟨"a", "array<f32, 4>"⟩), (∅, ⟨"b", "array<vec4<f32>, 2>"⟩), (∅, ⟨"a", "i32"⟩),
  (∅, ⟨"k", "array<vec2<f32>, 3>"⟩), (∅, ⟨"m", "mat4x4<f32>"⟩)]

/-- An access to the elements of one of these uniforms. -/
def mixedAccess : LeftOver.LoneAccess where
  before := "x + "
  array := "k"
  gap := [' ']
  index := ['i']
  rest := ";"
  isIdentifier := by decide +kernel
  apart := by
    rw [Text.ofString_eq]
    rintro c ⟨⟩
    decide
  isBlank_gap := by
    intro c hc
    rw [List.mem_singleton.mp hc]
    decide
  closed := by
    intro c hc
    rw [List.mem_singleton.mp hc]
    decide
  not_mem := by decide +kernel

theorem leftOver_corresponds_mixed :
  let c := (Context.fresh .pure {} ∅).after mixedCalls.operations
  let registry := (Compile.buildLeftOver c).context.interface.declarations.strided
  (Compile.buildLeftOver c).result.isOk ∧ c.uniforms.map Uniform.name = ["a", "b", "k", "m"] ∧
    registry = ["a", "k"] ∧ LeftOver.redirectAccesses registry "x + k [i];" = "x + k[i].el;"
  := by
  intro c registry
  have hok : (Compile.buildLeftOver c).result.isOk := by decide +kernel
  obtain ⟨text, hresult⟩ := Compile.exists_of_isOk hok
  use hok
  obtain ⟨⟨hnames, -⟩, -, -, -, hregistry, haccess⟩ :=
    leftOver_corresponds .pure {} ∅ mixedCalls hresult
  have hdeclared : (mixedCalls.declared.map Uniform.name).eraseDups = ["a", "b", "k", "m"] := by
    decide +kernel
  have hwrapped : (LeftOver.wrapped c.uniforms).map Uniform.name = ["a", "k"] := by
    decide +kernel
  have hidentifiers : ∀ call ∈ mixedCalls, Text.IsIdentifier call.2.name := by decide +kernel
  have hmem : ∃ u ∈ c.uniforms, u.name = mixedAccess.array ∧ LeftOver.IsWrapped u := by
    decide +kernel
  have hredirected := haccess hidentifiers mixedAccess
  rw [if_pos hmem] at hredirected
  have htext : mixedAccess.text = "x + k [i];" := by decide +kernel
  have hfield : mixedAccess.redirected = "x + k[i].el;" := by decide +kernel
  rw [htext, hfield] at hredirected
  exact ⟨hnames.trans hdeclared, hregistry.trans hwrapped, hredirected⟩

end ShaderPair
