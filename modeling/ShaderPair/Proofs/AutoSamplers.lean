import ShaderPair.Proofs.Persistence
import ShaderPair.Proofs.Placement
import ShaderPair.Proofs.UniformNames

/-!
# Textures with samplers of their own

A texture is bound to a sampler by its name.  Only the sight of a sampler says so, and only of a
texture that is registered by then (`Resources.Step.hasSampler_iff`).  In a run on registered
textures the samplers that are seen decide (`Resources.Steps.hasSampler_iff`).  A shader pair goes
through all of its textures first, in both stages, and so it does not matter where a texture and its
sampler are declared (`autoSampler_exact`).
-/

namespace ShaderPair

open Resources (Event)

/-! ### Names of samplers -/

/-- The sampler that is bound to a texture has the name of the texture with a suffix. -/
theorem SamplerForm.textureName?_eq_some_iff {sampler name : Text} :
  textureName? sampler = some name ↔ name ≠ [] ∧ sampler = name ++ suffix
  := by
  rw [textureName?]
  constructor
  · intro h
    split at h
    next hends =>
      rw [Bool.and_eq_true, decide_eq_true_eq] at hends
      obtain ⟨hsuffix, hlength⟩ := hends
      obtain ⟨s, rfl⟩ := List.isSuffixOf_iff_suffix.mp hsuffix
      have htake : (s ++ suffix).take ((s ++ suffix).length - suffix.length) = s := by
        rw [List.length_append, Nat.add_sub_cancel, List.take_left]
      rw [htake] at h
      obtain rfl := Option.some.inj h
      refine ⟨?_, rfl⟩
      rintro rfl
      simp at hlength
    next => cases h
  · rintro ⟨hne, rfl⟩
    have hends : (Text.endsIn suffix (name ++ suffix)
        && decide (suffix.length < (name ++ suffix).length)) = true := by
      rw [Bool.and_eq_true, decide_eq_true_eq, List.length_append]
      use List.isSuffixOf_iff_suffix.mpr (List.suffix_append name suffix)
      have hlength := List.length_pos_of_ne_nil hne
      omega
    rw [if_pos hends, List.length_append, Nat.add_sub_cancel, List.take_left]

/-! ### Names of textures -/

namespace Declaration

open Pattern

/-- The name that is read for a texture is not empty. -/
theorem gives_texturePattern :
  Gives texturePattern fun form => form.name ≠ []
  := by
  refine gives_bind fun _ => gives_bind fun _ => (gives_all1 _).bind fun name hname => ?_
  refine gives_bind fun _ => gives_bind fun _ => gives_bind fun _ => gives_bind fun _ => ?_
  rw [onceThen_eq_once_bind]
  refine Gives.once ?_
  exact gives_bind fun _ => gives_bind fun _ => gives_bind fun _ => gives_pure hname.1

/-- The name of a texture that is declared in a text is not empty. -/
theorem name_ne_of_texture? {t : Text} {form : TextureForm} (h : texture? t = some form) :
  form.name ≠ []
  := gives_texturePattern.of_find? h

end Declaration

theorem name_ne_of_mem_textureForms
    {code : Text} {form : TextureForm} (h : form ∈ textureForms code) :
  form.name ≠ []
  := by
  obtain ⟨line, -, hform⟩ := List.mem_flatMap.mp h
  rw [textureFormsOfLine] at hform
  cases hline : Declaration.ofLine? line with
  | none =>
    rw [hline] at hform
    cases hform
  | some d =>
    rw [hline] at hform
    cases d with
    | texture form' =>
      obtain rfl := List.mem_singleton.mp hform
      apply Declaration.name_ne_of_texture? (Declaration.found_of_ofLine? hline)
    | _ => cases hform

namespace Resources

/-! ### Steps -/

/-- The texture of a name has a sampler bound to it by its name. -/
def HasSampler (r : Resources) (name : Text) : Prop :=
  ∃ t, r.textures.find? name = some t ∧ t.autoSampler = true

variable {mode : Mode} {limits : Limits} {e : Event} {es : List Event} {r r' : Resources}
  {ss : List Slot} {name name' sampler : Text}

/-- A texture that is entered has a sampler if it says so. -/
theorem hasSampler_insert {t : Texture} (h : r'.textures = r.textures.insert name' t) :
  r'.HasSampler name ↔ if name = name' then t.autoSampler = true else r.HasSampler name
  := by
  rw [HasSampler, h]
  split
  next heq =>
    rw [heq, OrderedMap.find?_insert_self]
    simp
  next hne =>
    rw [OrderedMap.find?_insert_of_ne _ hne]
    rfl

theorem hasSampler_iff {t : Texture} (ht : r.textures.find? name = some t) :
  r.HasSampler name ↔ t.autoSampler = true
  := by
  simp [HasSampler, ht]

/-- The sight of a sampler binds it to the texture of its name, if that is registered. -/
theorem hasSampler_markAutoSampler_iff :
  (r.markAutoSampler sampler).HasSampler name ↔
    r.HasSampler name ∨ SamplerForm.textureName? sampler = some name ∧ name ∈ r.textures.keys
  := by
  rw [markAutoSampler]
  cases hname : SamplerForm.textureName? sampler with
  | none => simp
  | some name' =>
    dsimp only
    cases ht : r.textures.find? name' with
    | none =>
      have hnot : name' ∉ r.textures.keys := OrderedMap.find?_eq_none_iff.mp ht
      have hfalse : ¬ (some name' = some name ∧ name ∈ r.textures.keys) := by
        rintro ⟨⟨⟩, hmem⟩
        exact hnot hmem
      rw [or_iff_left hfalse]
    | some t =>
      have hmem : name' ∈ r.textures.keys := OrderedMap.mem_keys_iff.mpr ⟨t, ht⟩
      rw [hasSampler_insert rfl, Option.some.injEq]
      split
      next heq => simp [heq, hmem]
      next hne => simp [Ne.symm hne]

/-- Only the sight of a sampler binds a texture to it. -/
theorem Step.hasSampler_iff (h : Step mode limits e r ss r') (name : Text) :
  r'.HasSampler name ↔ r.HasSampler name ∨
    ∃ sampler, e = .mark sampler ∧ SamplerForm.textureName? sampler = some name ∧
      name ∈ r.textures.keys
  := by
  cases h with
  | mark sampler =>
    rw [hasSampler_markAutoSampler_iff]
    simp
  | @newTexture _ name' t _ _ _ _ _ hnew _ _ _ _ _ hauto =>
    rw [hasSampler_insert rfl]
    split
    next heq => simp [heq, HasSampler, hnew, hauto]
    next => simp [HasSampler]
  | @seenTexture _ name' t _ _ _ ht =>
    rw [hasSampler_insert rfl]
    split
    next heq =>
      rw [heq, Resources.hasSampler_iff ht]
      simp
    next => simp
  | _ =>
    change r.HasSampler name ↔ _
    simp

/-- Where no sampler is seen, no texture is bound to one. -/
theorem Steps.hasSampler_iff_of_textures
    (h : Steps mode limits es r ss r') (hes : ∀ e ∈ es, e.registry? = some .textures)
    (name : Text) :
  r'.HasSampler name ↔ r.HasSampler name
  := by
  induction h with
  | refl => rfl
  | cons hstep _ ih =>
    obtain ⟨he, hes⟩ := List.forall_mem_cons.mp hes
    rw [ih hes, hstep.hasSampler_iff, or_iff_left]
    rintro ⟨sampler, rfl, -⟩
    cases he

/-- A texture that is registered has a sampler in the end if it had one, or if that of its name was
seen. -/
theorem Steps.hasSampler_iff
    (h : Steps mode limits es r ss r') (hname : name ∈ r.textures.keys) :
  r'.HasSampler name ↔ r.HasSampler name ∨
    ∃ sampler, .mark sampler ∈ es ∧ SamplerForm.textureName? sampler = some name
  := by
  induction h with
  | refl => simp
  | cons hstep _ ih =>
    obtain ⟨t, ht⟩ := OrderedMap.mem_keys_iff.mp hname
    obtain ⟨t', ht', -⟩ := hstep.find?_textures ht
    rw [ih (OrderedMap.mem_keys_iff.mpr ⟨t', ht'⟩), hstep.hasSampler_iff, or_assoc]
    apply or_congr_right
    simp only [hname, and_true, List.mem_cons, or_and_right, exists_or]
    simp only [eq_comm]

end Resources

/-! ### Shader pairs -/

theorem OrderedMap.mem_foldl_addKey_nil {κ : Type} [DecidableEq κ] {ks : List κ} {k : κ} :
  k ∈ ks.foldl addKey [] ↔ k ∈ ks
  := by
  rw [foldl_addKey_nil, List.mem_eraseDups]

namespace Resources.Event

/-- The samplers that are seen in a pair are those that its stages declare. -/
theorem mark_mem_pair_iff
    {declared sampled : StageTexts} {leftOver : List Event} {sampler : Text}
    (h : leftOver = [] ∨ leftOver = LeftOver.events) :
  mark sampler ∈ declared.events ofSamplers ++ (sampled.events ofBuffers ++ leftOver) ↔
    sampler ∈ (declared.inOrder samplerForms).map SamplerForm.name
  := by
  have hleftOver : mark sampler ∉ leftOver := by
    intro hmem
    cases registry?_leftOver h _ hmem
  have hbuffers : mark sampler ∉ sampled.events ofBuffers := by
    intro hmem
    cases registry?_ofBuffers _ _ hmem
  rw [List.mem_append, List.mem_append, or_iff_left (not_or.mpr ⟨hbuffers, hleftOver⟩)]
  simp [StageTexts.events, StageTexts.inOrder, ofSamplers, eq_comm]

end Resources.Event

open Resources.Event in
/-- After the steps of a pair without textures in front of it, a texture has a sampler bound to it
if and only if the sampler of its name is registered. -/
theorem Resources.Steps.autoSampler_iff
    {mode : Mode} {limits : Limits} {r r' : Resources} {ss : List Slot}
    {prepared declared sampled : StageTexts} {leftOver : List Event}
    (h : Steps mode limits (prepared.events ofTextures
      ++ (declared.events ofSamplers ++ (sampled.events ofBuffers ++ leftOver))) r ss r')
    (hleftOver : leftOver = [] ∨ leftOver = LeftOver.events)
    (htextures : r.textures = ∅) (hsamplers : r.samplers = ∅)
    {name : Text} {t : Texture} (ht : r'.textures.find? name = some t) :
  t.autoSampler = true ↔ r'.samplers.contains (name ++ SamplerForm.suffix) = true
  := by
  have hmem : name ∈ r'.textures.keys := OrderedMap.mem_keys_iff.mpr ⟨t, ht⟩
  rw [h.keys_textures, textureNames_pair _ _ _ _ hleftOver, htextures,
    OrderedMap.keys_empty, OrderedMap.mem_foldl_addKey_nil] at hmem
  have hne : name ≠ [] := by
    obtain ⟨form, hform, rfl⟩ := List.mem_map.mp hmem
    rcases List.mem_append.mp hform with hform | hform
    · apply name_ne_of_mem_textureForms hform
    · apply name_ne_of_mem_textureForms hform
  rw [← Resources.hasSampler_iff ht, OrderedMap.contains_iff, h.keys_samplers,
    samplerNames_pair _ _ _ _ hleftOver, hsamplers, OrderedMap.keys_empty,
    OrderedMap.mem_foldl_addKey_nil]
  -- All textures are registered before the first sampler is seen.
  obtain ⟨ss₁, r₁, ss₂, -, hfirst, hrest⟩ := h.of_append
  have hregistered : name ∈ r₁.textures.keys := by
    rw [hfirst.keys_textures, htextures, OrderedMap.keys_empty, OrderedMap.mem_foldl_addKey_nil]
    simpa [StageTexts.events, StageTexts.inOrder, ofTextures, List.flatMap_map, textureNames,
      ← List.map_eq_flatMap] using hmem
  have hnone : ¬ r₁.HasSampler name := by
    rw [hfirst.hasSampler_iff_of_textures (registry?_ofTextures _), HasSampler, htextures]
    rintro ⟨_, ⟨⟩, -⟩
  rw [hrest.hasSampler_iff hregistered, or_iff_right hnone]
  simp only [mark_mem_pair_iff hleftOver, SamplerForm.textureName?_eq_some_iff]
  constructor
  · rintro ⟨sampler, hsampler, -, rfl⟩
    exact hsampler
  · intro hsampler
    exact ⟨_, hsampler, hne, rfl⟩

/-- In a shader pair that is compiled in a fresh context, a texture has a sampler bound to it if and
only if a sampler with the name of the texture and the suffix is registered. -/
theorem autoSampler_exact
    (mode : Mode) (limits : Limits) (components : OrderedMap Text Int) (source : SourcePair)
    (out : StageTexts) :
  let o := Compile.pair source (.fresh mode limits components)
  let r := o.context.resources
  o.result = .ok out → ∀ name t, r.textures.find? name = some t →
    (t.autoSampler = true ↔ r.samplers.contains (name ++ SamplerForm.suffix) = true)
  := by
  intro o r hout name t ht
  obtain ⟨es, heffect, hok⟩ := Compile.does_pair source (.fresh mode limits components)
  obtain ⟨declared, sampled, leftOver, -, -, hleftOver, rfl⟩ := hok out hout
  apply heffect.steps.autoSampler_iff hleftOver rfl rfl ht

/-- A pair with two textures and the sampler of one of them, which is declared in front of it and in
the other stage. -/
def tintedLater : SourcePair where
  vertex := "var tintSampler : sampler;"
  fragment := "var tint : texture_2d<f32>;\nvar glow : texture_2d<f32>;"

/-- Only one of the textures has a sampler bound to it. -/
theorem autoSampler_exact_tintedLater :
  let o := Compile.pair tintedLater (.fresh .pure {} ∅)
  let r := o.context.resources
  o.result.isOk ∧ r.textures.keys = [("tint" : Text), ("glow" : Text)] ∧
    (∃ t, r.textures.find? ("tint" : Text) = some t ∧ t.autoSampler = true) ∧
    ∃ t, r.textures.find? ("glow" : Text) = some t ∧ ¬ t.autoSampler = true
  := by
  intro o r
  have hrun : o.result.isOk = true ∧ r.textures.keys = [("tint" : Text), ("glow" : Text)] ∧
      r.samplers.keys = [("tintSampler" : Text)] := by
    decide +kernel
  obtain ⟨hok, hkeys, hsamplers⟩ := hrun
  obtain ⟨tint, htint⟩ := OrderedMap.mem_keys_iff.mp (hkeys ▸ List.mem_cons_self)
  obtain ⟨glow, hglow⟩ := OrderedMap.mem_keys_iff.mp
    (hkeys ▸ List.mem_cons_of_mem _ List.mem_cons_self)
  obtain ⟨out, hout⟩ := Compile.exists_of_isOk hok
  have hauto := autoSampler_exact .pure {} ∅ tintedLater out hout
  refine ⟨hok, hkeys, ⟨tint, htint, ?_⟩, glow, hglow, ?_⟩
  · rw [hauto _ tint htint, OrderedMap.contains_iff, hsamplers]
    decide +kernel
  · rw [hauto _ glow hglow, OrderedMap.contains_iff, hsamplers]
    decide +kernel

end ShaderPair
