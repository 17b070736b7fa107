import ShaderPair.Proofs.DerivativeFlip

/-!
# The structs in front of a stage

The structs of a stage are fixed lines around the names and types that are declared.  Where the
entry point is mentioned in none of these (`Finish.Unmentioned`), it is not mentioned in the structs
(`Finish.not_infix_vertexStructs`, `Finish.not_infix_fragmentStructs`), for it does not run into a
fixed line (`Text.Fence`).
-/

namespace ShaderPair

open Text (Terminated)

/-! ### Fixed lines -/

namespace Text

variable {k l s t : Text}

/-- A text with a character that is not in a word, into which the word runs from no side, and in
which it does not occur. -/
def Fence (k l : Text) : Prop :=
  ¬ l ⊆ k ∧ ¬ k <:+: l ∧ (∀ p ∈ k.inits, p <:+ l → p = []) ∧
    ∀ q ∈ k.tails, q <+: l → q = []

instance (k l : Text) : Decidable (Fence k l) :=
  inferInstanceAs (Decidable (_ ∧ _ ∧ _ ∧ _))

/-- No word occurs in a text behind a fence if it does not occur in what follows. -/
theorem Fence.not_infix_append (hl : Fence k l) (hs : ¬ k <:+: s) :
  ¬ k <:+: s ++ l
  := by
  obtain ⟨-, hnot, -, htails⟩ := hl
  rw [List.infix_append_iff]
  rintro (h | h | ⟨p, q, rfl, hp, hq⟩)
  · exact hs h
  · exact hnot h
  · obtain rfl := htails q (by simp) hq
    rw [List.append_nil] at hs
    exact hs hp.isInfix

theorem Fence.not_infix_between (hl : Fence k l) (hs : ¬ k <:+: s) (ht : ¬ k <:+: t) :
  ¬ k <:+: s ++ l ++ t
  := by
  rw [List.infix_append_iff]
  rintro (h | h | ⟨p, q, rfl, hp, hq⟩)
  · exact hl.not_infix_append hs h
  · exact ht h
  · obtain ⟨hforeign, -, hinits, -⟩ := hl
    rcases Nat.lt_or_ge l.length p.length with hlt | hle
    · have hlp := List.suffix_of_suffix_length_le (List.suffix_append s l) hp hlt.le
      exact hforeign fun c hc => List.mem_append_left q (hlp.subset hc)
    · have hpl := List.suffix_of_suffix_length_le hp (List.suffix_append s l) hle
      obtain rfl := hinits p (by simp) hpl
      exact ht hq.isInfix

theorem Fence.not_infix_cons (hl : Fence k l) (ht : ¬ k <:+: t) :
  ¬ k <:+: l ++ t
  := by
  have hne : ¬ k <:+: [] := by
    intro h
    rw [List.infix_nil.mp h] at ht
    exact ht List.nil_infix
  have hbetween := hl.not_infix_between hne ht
  rwa [List.nil_append] at hbetween

/-- A character that a word does not hold is a fence. -/
theorem fence_singleton {c : Char} (hk : k ≠ []) (hc : c ∉ k) :
  Fence k [c]
  := by
  have hempty : ∀ p, p <:+: k → p <:+: [c] → p = [] := by
    intro p hp hpc
    rw [List.eq_nil_iff_forall_not_mem]
    intro d hd
    obtain rfl := List.mem_singleton.mp (hpc.subset hd)
    exact hc (hp.subset hd)
  refine ⟨fun h => hc (h (List.mem_singleton_self c)), ?_, ?_, ?_⟩
  · intro h
    exact hk (hempty k List.infix_rfl h)
  · intro p hp hpc
    exact hempty p ((List.mem_inits p k).mp hp).isInfix hpc.isInfix
  · intro q hq hqc
    exact hempty q ((List.mem_tails q k).mp hq).isInfix hqc.isInfix

/-- A word without line breaks occurs in lines put together only if it occurs in one of them. -/
theorem not_infix_unlines (hk : k ≠ []) (hbreak : '\n' ∉ k) {ls : List Text}
    (h : ∀ u ∈ ls, ¬ k <:+: u) :
  ¬ k <:+: unlines ls
  := by
  have hfence := fence_singleton hk hbreak
  induction ls with
  | nil => exact fun hnil => hk (List.infix_nil.mp hnil)
  | cons u us ih =>
    obtain ⟨hu, hus⟩ := List.forall_mem_cons.mp h
    cases us with
    | nil => exact hu
    | cons v vs =>
      rw [unlines, join_cons _ _ (List.cons_ne_nil v vs), ← unlines]
      apply hfence.not_infix_between hu (ih hus)

/-- A word without line breaks does not run from a terminated text into what follows. -/
theorem Terminated.not_infix_append (h : Terminated s) (hk : k ≠ []) (hbreak : '\n' ∉ k)
    (hs : ¬ k <:+: s) (ht : ¬ k <:+: t) :
  ¬ k <:+: s ++ t
  := by
  obtain rfl | ⟨s, rfl⟩ := h
  · exact ht
  · have hline : ¬ k <:+: s ++ [';'] := by
      intro hoccurs
      apply hs
      apply hoccurs.trans
      exact ⟨[], ['\n'], by simp⟩
    have hbetween := (fence_singleton hk hbreak).not_infix_between hline ht
    simpa using hbetween

end Text

/-! ### Declared names and types -/

namespace Finish

open Text (Fence)

variable {d : Declarations} {s t : Text}

/-- The names and types that are declared. -/
def declaredTexts (d : Declarations) : List Text :=
  d.attributes.flatMap (fun a => [a.name, a.type]) ++ d.varyings.flatMap fun v => [v.name, v.type]

/-- No declared name or type mentions the entry point or holds a brace. -/
def Unmentioned (d : Declarations) : Prop :=
  ∀ t ∈ declaredTexts d, ¬ entryPoint <:+: t ∧ '\x7b' ∉ t ∧ '\x7d' ∉ t

instance : DecidablePred Unmentioned := fun d =>
  inferInstanceAs (Decidable (∀ t ∈ declaredTexts d, _))

theorem text_entryPoint :
  entryPoint = ['f', 'n', ' ', 'm', 'a', 'i', 'n']
  := by
  rw [entryPoint, Text.ofString_eq]
  rfl

theorem Unmentioned.attribute (hd : Unmentioned d) {a : Attribute} (ha : a ∈ d.attributes) :
  (¬ entryPoint <:+: a.name ∧ '\x7b' ∉ a.name ∧ '\x7d' ∉ a.name) ∧
    ¬ entryPoint <:+: a.type ∧ '\x7b' ∉ a.type ∧ '\x7d' ∉ a.type
  := by
  constructor
  all_goals
    apply hd
    apply List.mem_append_left
    apply List.mem_flatMap.mpr ⟨a, ha, _⟩
    simp

theorem Unmentioned.varying (hd : Unmentioned d) {v : Varying} (hv : v ∈ d.varyings) :
  ¬ entryPoint <:+: v.name ∧ ¬ entryPoint <:+: v.type
  := by
  constructor
  all_goals
    refine (hd _ ?_).1
    apply List.mem_append_right
    apply List.mem_flatMap.mpr ⟨v, hv, _⟩
    simp

theorem not_infix_of_not_mem {c : Char} (hc : c ∈ ['f', 'n', ' ', 'm', 'a', 'i', 'n'])
    (ht : c ∉ t) :
  ¬ entryPoint <:+: t
  := by
  rw [text_entryPoint]
  apply Text.not_infix_of_not_mem hc ht

theorem not_infix_nil :
  ¬ entryPoint <:+: []
  := not_infix_of_not_mem (c := 'f') (by decide) List.not_mem_nil

theorem not_infix_ofNat (n : Nat) :
  ¬ entryPoint <:+: Text.ofNat n
  := not_infix_of_not_mem (c := 'f') (by decide) (Text.not_mem_ofNat rfl n)

theorem not_mem_ofInt {c : Char} (hc : c.isDigit = false) (hminus : c ≠ '-') (n : Int) :
  c ∉ Text.ofInt n
  := by
  cases n with
  | ofNat n => apply Text.not_mem_ofNat hc
  | negSucc n =>
    rw [Text.ofInt, List.mem_cons, not_or]
    exact ⟨hminus, Text.not_mem_ofNat hc _⟩

theorem not_infix_ofInt (n : Int) :
  ¬ entryPoint <:+: Text.ofInt n
  := not_infix_of_not_mem (c := 'f') (by decide) (not_mem_ofInt rfl (by decide) n)

theorem not_mem_integerType (n : Int) :
  'm' ∉ Attribute.integerType n
  := by
  have hint := not_mem_ofInt (c := 'm') rfl (by decide)
  have hliteral : ∀ literal ∈ ["i32", "u32", "vec", "<i32>", "<u32>"], 'm' ∉ Text.ofString literal
      := by
    decide +kernel
  simp only [List.forall_mem_cons, List.not_mem_nil, false_implies, implies_true, and_true]
    at hliteral
  obtain ⟨hi, hu, hvec, hsigned, hunsigned⟩ := hliteral
  rw [Attribute.integerType]
  split <;> split
  all_goals simp [hi, hu, hvec, hsigned, hunsigned, hint]

/-! ### Fixed parts -/

/-- The fixed parts of the structs. -/
def fixedParts : List Text :=
  [StageStruct.colorOutput, StageStruct.depthField, StageStruct.dualSourceBlending, "_", "_int_",
    ",", ",\n", " : ", ") ", "@location(", "  @location(",
    "struct VertexInputs \x7b\n", "  @builtin(vertex_index) vertexIndex : u32,\n",
    "  @builtin(instance_index) instanceIndex : u32,\n", "\n\x7d;\n", "var<private> vertexInputs",
    " : VertexInputs;\n", "struct VertexInputs_ \x7b\n",
    "  vertexIndex : u32, instanceIndex : u32,\n", "var<private> vertexInputs : VertexInputs_;\n",
    "struct FragmentInputs \x7b\n", "  @builtin(position) position : vec4<f32>,\n",
    "  @builtin(front_facing) frontFacing : bool,\n",
    "var<private> vertexOutputs : FragmentInputs;\n",
    "var<private> fragmentInputs : FragmentInputs;\n", "struct FragmentOutputs \x7b\n",
    "fragData", " : vec4<f32>", "depth : vec2<f32>", "frontColor : vec4<f32>",
    "backColor : vec4<f32>", "  @location(0) @blend_src(0) ", "color : vec4<f32>,\n",
    "  @location(0) @blend_src(1) ", "color2 : vec4<f32>,\n",
    "  @location(0) color : vec4<f32>,\n", "\x7d;\n",
    "var<private> fragmentOutputs : FragmentOutputs;\n", "enable ", ";\n"]

/-- The entry point does not run into the fixed parts. -/
theorem fence_of_mem {l : Text} (h : l ∈ fixedParts) :
  Fence entryPoint l
  := by
  have hall : ∀ l ∈ fixedParts, Fence entryPoint l := by
    simp only [fixedParts, StageStruct.colorOutput, StageStruct.depthField,
      StageStruct.dualSourceBlending, List.bind_eq_flatMap, List.pure_def, List.flatMap_cons,
      List.flatMap_nil, List.cons_append, List.nil_append, List.forall_mem_cons, text_entryPoint]
    -- opened, a literal need not be decoded
    repeat rw [Text.ofString_ofList]
    decide +kernel
  exact hall l h

theorem not_infix_of_mem {l : Text} (h : l ∈ fixedParts) :
  ¬ entryPoint <:+: l
  := (fence_of_mem h).2.1

/-! ### Fields -/

theorem not_infix_rawName (hd : Unmentioned d) {a : Attribute} (ha : a ∈ d.attributes) :
  ¬ entryPoint <:+: a.rawName
  := by
  have hname := (hd.attribute ha).1.1
  rw [Attribute.rawName]
  split
  · apply (fence_of_mem (by simp [fixedParts])).not_infix_append
    apply (fence_of_mem (by simp [fixedParts])).not_infix_cons hname
  · exact hname

theorem not_infix_rawField (hd : Unmentioned d) {a : Attribute} (ha : a ∈ d.attributes) :
  ¬ entryPoint <:+: a.rawField
  := by
  have htype : ¬ entryPoint <:+: a.rawType := by
    rw [Attribute.rawType]
    split
    · exact (hd.attribute ha).2.1
    · exact not_infix_of_not_mem (c := 'm') (by decide) (not_mem_integerType _)
  rw [Attribute.rawField]
  apply (fence_of_mem (by simp [fixedParts])).not_infix_append
  apply (fence_of_mem (by simp [fixedParts])).not_infix_between _ htype
  apply (fence_of_mem (by simp [fixedParts])).not_infix_between _ (not_infix_rawName hd ha)
  apply (fence_of_mem (by simp [fixedParts])).not_infix_cons (not_infix_ofInt _)

theorem not_infix_field (hd : Unmentioned d) {a : Attribute} (ha : a ∈ d.attributes) :
  ¬ entryPoint <:+: a.field
  := by
  obtain ⟨hname, htype⟩ := hd.attribute ha
  rw [Attribute.field]
  apply (fence_of_mem (by simp [fixedParts])).not_infix_append
  apply (fence_of_mem (by simp [fixedParts])).not_infix_between hname.1 htype.1

/-- How a varying is interpolated stands between its location and its name. -/
theorem fence_interpolationText (v : Varying) :
  Fence entryPoint (") " ++ v.interpolationText ++ " ")
  := by
  rw [Varying.interpolationText]
  cases v.interpolation <;> cases v.sampling <;> decide +kernel

theorem not_infix_varyingField (hd : Unmentioned d) {v : Varying} (hv : v ∈ d.varyings) :
  ¬ entryPoint <:+: v.field
  := by
  obtain ⟨hname, htype⟩ := hd.varying hv
  have hfield : v.field = "  @location(" ++ Text.ofInt v.location
      ++ (") " ++ v.interpolationText ++ " ") ++ v.name ++ " : " ++ v.type ++ "," := by
    simp only [Varying.field, List.append_assoc]
  rw [hfield]
  apply (fence_of_mem (by simp [fixedParts])).not_infix_append
  apply (fence_of_mem (by simp [fixedParts])).not_infix_between _ htype
  apply (fence_interpolationText v).not_infix_between _ hname
  apply (fence_of_mem (by simp [fixedParts])).not_infix_cons (not_infix_ofInt _)

/-! ### Structs -/

theorem entryPoint_ne_nil :
  entryPoint ≠ []
  := by
  rw [text_entryPoint]
  decide

theorem not_mem_entryPoint :
  '\n' ∉ entryPoint
  := by
  rw [text_entryPoint]
  decide

theorem not_infix_fields {α : Type} {f : α → Text} {as : List α}
    (h : ∀ a ∈ as, ¬ entryPoint <:+: f a) :
  ¬ entryPoint <:+: Text.unlines (as.map f)
  := by
  apply Text.not_infix_unlines entryPoint_ne_nil not_mem_entryPoint
  intro u hu
  obtain ⟨a, ha, rfl⟩ := List.mem_map.mp hu
  exact h a ha

theorem not_infix_append (hs : Terminated s) (h : ¬ entryPoint <:+: s) (ht : ¬ entryPoint <:+: t) :
  ¬ entryPoint <:+: s ++ t
  := hs.not_infix_append entryPoint_ne_nil not_mem_entryPoint h ht

/-! ### Structs of the vertex stage -/

theorem not_infix_rawInputs (hd : Unmentioned d) :
  ¬ entryPoint <:+: StageStruct.rawInputs d
  := by
  have hsuffix : ¬ entryPoint <:+: StageStruct.rawSuffix d := by
    rw [StageStruct.rawSuffix]
    split
    · apply not_infix_of_mem (by simp [fixedParts])
    · exact not_infix_nil
  rw [StageStruct.rawInputs]
  apply (fence_of_mem (by simp [fixedParts])).not_infix_append
  apply (fence_of_mem (by simp [fixedParts])).not_infix_between _ hsuffix
  apply (fence_of_mem (by simp [fixedParts])).not_infix_append
  apply (fence_of_mem (by simp [fixedParts])).not_infix_between _
    (not_infix_fields fun a ha => not_infix_rawField hd ha)
  apply (fence_of_mem (by simp [fixedParts])).not_infix_append
  apply not_infix_of_mem (by simp [fixedParts])

theorem terminated_rawInputs (d : Declarations) :
  Terminated (StageStruct.rawInputs d)
  := by
  rw [StageStruct.rawInputs]
  apply Text.terminated_append
  rw [Text.ofString_ofList]
  decide

theorem not_infix_convertedInputs (hd : Unmentioned d) :
  ¬ entryPoint <:+: StageStruct.convertedInputs d
  := by
  rw [StageStruct.convertedInputs]
  apply (fence_of_mem (by simp [fixedParts])).not_infix_append
  apply (fence_of_mem (by simp [fixedParts])).not_infix_append
  apply (fence_of_mem (by simp [fixedParts])).not_infix_between _
    (not_infix_fields fun a ha => not_infix_field hd ha)
  apply not_infix_of_mem (by simp [fixedParts])

theorem terminated_convertedInputs (d : Declarations) :
  Terminated (StageStruct.convertedInputs d)
  := by
  rw [StageStruct.convertedInputs]
  apply Text.terminated_append
  rw [Text.ofString_ofList]
  decide

theorem not_infix_vertexInputs (hd : Unmentioned d) :
  ¬ entryPoint <:+: StageStruct.vertexInputs d
  := by
  rw [StageStruct.vertexInputs]
  split
  · apply not_infix_append (terminated_rawInputs d) (not_infix_rawInputs hd)
      (not_infix_convertedInputs hd)
  · rw [List.append_nil]
    apply not_infix_rawInputs hd

theorem terminated_vertexInputs (d : Declarations) :
  Terminated (StageStruct.vertexInputs d)
  := by
  rw [StageStruct.vertexInputs]
  split
  · apply (terminated_rawInputs d).append (terminated_convertedInputs d)
  · rw [List.append_nil]
    apply terminated_rawInputs

theorem not_infix_varyingFields (hd : Unmentioned d) :
  ¬ entryPoint <:+: StageStruct.varyingFields d
  := not_infix_fields fun _ hv => not_infix_varyingField hd hv

theorem not_infix_vertexOutputs (hd : Unmentioned d) :
  ¬ entryPoint <:+: StageStruct.vertexOutputs d
  := by
  rw [StageStruct.vertexOutputs]
  apply (fence_of_mem (by simp [fixedParts])).not_infix_append
  apply (fence_of_mem (by simp [fixedParts])).not_infix_append
  apply (fence_of_mem (by simp [fixedParts])).not_infix_between _ (not_infix_varyingFields hd)
  apply not_infix_of_mem (by simp [fixedParts])

/-- The structs of the vertex stage. -/
def vertexStructs (d : Declarations) : Text :=
  StageStruct.vertexInputs d ++ StageStruct.vertexOutputs d

/-- The structs of the vertex stage do not mention the entry point. -/
theorem not_infix_vertexStructs (hd : Unmentioned d) :
  ¬ entryPoint <:+: vertexStructs d
  := not_infix_append (terminated_vertexInputs d) (not_infix_vertexInputs hd)
    (not_infix_vertexOutputs hd)

theorem terminated_vertexStructs (d : Declarations) :
  Terminated (vertexStructs d)
  := by
  apply (terminated_vertexInputs d).append
  rw [StageStruct.vertexOutputs]
  apply Text.terminated_append
  rw [Text.ofString_ofList]
  decide

/-! ### Structs of the fragment stage -/

theorem not_infix_fragmentInputs (hd : Unmentioned d) :
  ¬ entryPoint <:+: StageStruct.fragmentInputs d
  := by
  rw [StageStruct.fragmentInputs]
  apply (fence_of_mem (by simp [fixedParts])).not_infix_append
  apply (fence_of_mem (by simp [fixedParts])).not_infix_append
  apply (fence_of_mem (by simp [fixedParts])).not_infix_between _ (not_infix_varyingFields hd)
  apply (fence_of_mem (by simp [fixedParts])).not_infix_append
  apply not_infix_of_mem (by simp [fixedParts])

theorem terminated_fragmentInputs (d : Declarations) :
  Terminated (StageStruct.fragmentInputs d)
  := by
  rw [StageStruct.fragmentInputs]
  apply Text.terminated_append
  rw [Text.ofString_ofList]
  decide

theorem not_infix_targetOutputs (code : Text) :
  ∀ u ∈ StageStruct.targetOutputs code, ¬ entryPoint <:+: u
  := by
  have htarget : ∀ k, ¬ entryPoint <:+: StageStruct.targetOutput (Text.ofNat k) := by
    intro k
    rw [StageStruct.targetOutput]
    apply (fence_of_mem (by simp [fixedParts])).not_infix_append
    apply (fence_of_mem (by simp [fixedParts])).not_infix_cons (not_infix_ofNat k)
  intro u hu
  rw [StageStruct.targetOutputs] at hu
  split at hu
  · rcases List.mem_append.mp hu with hu | hu
    · obtain ⟨number, hnumber, rfl⟩ := List.mem_map.mp hu
      obtain ⟨k, -, rfl⟩ := List.mem_map.mp (List.mem_filter.mp hnumber).1
      apply htarget
    · split at hu
      · rw [List.mem_singleton.mp hu]
        apply not_infix_of_mem (by simp [fixedParts])
      · cases hu
  · cases hu

theorem not_infix_transparencyOutputs (code : Text) :
  ∀ u ∈ StageStruct.transparencyOutputs code, ¬ entryPoint <:+: u
  := by
  intro u hu
  rw [StageStruct.transparencyOutputs] at hu
  split at hu
  · apply not_infix_of_mem
    simp only [List.mem_cons, List.not_mem_nil, or_false] at hu
    rcases hu with rfl | rfl | rfl <;> simp [fixedParts]
  · cases hu

theorem not_infix_locate (first : Nat) {us : List Text} (h : ∀ u ∈ us, ¬ entryPoint <:+: u) :
  ¬ entryPoint <:+: StageStruct.locate first us
  := by
  induction us generalizing first with
  | nil => exact not_infix_nil
  | cons u us ih =>
    obtain ⟨hu, hus⟩ := List.forall_mem_cons.mp h
    rw [StageStruct.locate]
    apply (fence_of_mem (by simp [fixedParts])).not_infix_between _ (ih _ hus)
    apply (fence_of_mem (by simp [fixedParts])).not_infix_between _ hu
    apply (fence_of_mem (by simp [fixedParts])).not_infix_cons (not_infix_ofNat first)

theorem not_infix_colorOutputs (code : Text) :
  ¬ entryPoint <:+: StageStruct.colorOutputs code
  := by
  rw [StageStruct.colorOutputs]
  split
  · apply (fence_of_mem (by simp [fixedParts])).not_infix_append
    apply (fence_of_mem (by simp [fixedParts])).not_infix_append
    apply (fence_of_mem (by simp [fixedParts])).not_infix_append
    apply not_infix_of_mem (by simp [fixedParts])
  · apply not_infix_of_mem (by simp [fixedParts])

theorem not_infix_fragmentOutputs (code : Text) :
  ¬ entryPoint <:+: StageStruct.fragmentOutputs code
  := by
  have houtputs : ¬ entryPoint <:+:
      if (StageStruct.targetOutputs code ++ StageStruct.transparencyOutputs code).isEmpty
      then StageStruct.colorOutputs code
      else StageStruct.locate 0
        (StageStruct.targetOutputs code ++ StageStruct.transparencyOutputs code) := by
    split
    · apply not_infix_colorOutputs
    · apply not_infix_locate
      intro u hu
      rcases List.mem_append.mp hu with hu | hu
      · apply not_infix_targetOutputs code u hu
      · apply not_infix_transparencyOutputs code u hu
  have hdepth : ∀ u, ¬ entryPoint <:+: u →
      ¬ entryPoint <:+: u ++ if StageStruct.writesDepth code then StageStruct.depthField else []
      := by
    intro u hu
    split
    · apply (fence_of_mem (by simp [fixedParts])).not_infix_append hu
    · rwa [List.append_nil]
  rw [StageStruct.fragmentOutputs]
  apply (fence_of_mem (by simp [fixedParts])).not_infix_append
  apply (fence_of_mem (by simp [fixedParts])).not_infix_append
  apply hdepth
  apply (fence_of_mem (by simp [fixedParts])).not_infix_cons houtputs

theorem terminated_fragmentOutputs (code : Text) :
  Terminated (StageStruct.fragmentOutputs code)
  := by
  rw [StageStruct.fragmentOutputs]
  apply Text.terminated_append
  rw [Text.ofString_ofList]
  decide

theorem enable_extensions (code : Text) :
  enable (StageStruct.extensions code) = [] ∨
    enable (StageStruct.extensions code) = "enable " ++ StageStruct.dualSourceBlending ++ ";\n"
  := by
  rw [StageStruct.extensions]
  split
  · right; rfl
  · left; rfl

theorem not_infix_enable (code : Text) :
  ¬ entryPoint <:+: enable (StageStruct.extensions code)
  := by
  rcases enable_extensions code with heq | heq
  · rw [heq]
    exact not_infix_nil
  · rw [heq]
    apply (fence_of_mem (by simp [fixedParts])).not_infix_append
    apply (fence_of_mem (by simp [fixedParts])).not_infix_append
    apply not_infix_of_mem (by simp [fixedParts])

theorem terminated_enable (code : Text) :
  Terminated (enable (StageStruct.extensions code))
  := by
  rcases enable_extensions code with heq | heq
  · left; exact heq
  · rw [heq]
    apply Text.terminated_append
    rw [Text.ofString_ofList]

/-- The structs of the fragment stage, behind the directive that enables extensions. -/
def fragmentStructs (d : Declarations) (body : Text) : Text :=
  enable (StageStruct.extensions body) ++ StageStruct.fragmentInputs d
    ++ StageStruct.fragmentOutputs body

/-- The structs of the fragment stage do not mention the entry point. -/
theorem not_infix_fragmentStructs (hd : Unmentioned d) (body : Text) :
  ¬ entryPoint <:+: fragmentStructs d body
  := by
  apply not_infix_append ((terminated_enable body).append (terminated_fragmentInputs d)) _
    (not_infix_fragmentOutputs body)
  apply not_infix_append (terminated_enable body) (not_infix_enable body)
    (not_infix_fragmentInputs hd)

theorem terminated_fragmentStructs (d : Declarations) (body : Text) :
  Terminated (fragmentStructs d body)
  := ((terminated_enable body).append (terminated_fragmentInputs d)).append
    (terminated_fragmentOutputs body)

end Finish

end ShaderPair
