import ShaderPair.Proofs.RegistryOrder
import ShaderPair.Proofs.SlotEnumeration

/-!
# Where a compilation puts the resources

A compilation goes through the textures first, then through the samplers, and then through the
buffers, and in each class through the vertex stage first.  In a fresh context that succeeds in
filling the slots from the first one on without a gap, in this order and in the order of the
first declarations; and when it finds no slot, all slots are handed out.
-/

namespace ShaderPair

namespace Resources

variable {mode : Mode} {limits : Limits} {e : Event} {es : List Event} {r r' : Resources}
  {ss : List Slot}

/-! ### Slots in the order of the registries -/

/-- The slots of textures, texture by texture and element by element. -/
def textureSlots (textures : OrderedMap Text Texture) : List Slot :=
  textures.values.flatMap Texture.slots

/-- The slots of samplers. -/
def samplerSlots (samplers : OrderedMap Text Sampler) : List Slot :=
  samplers.values.map Sampler.slot

/-- The slots of buffers, without the one that the engine has reserved for the scene. -/
def bufferSlots (mode : Mode) (buffers : OrderedMap Text Buffer) : List Slot :=
  (buffers.values.map Buffer.slot).filter fun s => mode.reservedSlot? ("Scene" : Text) ≠ some s

/-- The slots of all resources that were handed out, class by class. -/
def placement (mode : Mode) (r : Resources) : List Slot :=
  textureSlots r.textures ++ (samplerSlots r.samplers ++ bufferSlots mode r.buffers)

theorem map_slot_textureHoldings (textures : OrderedMap Text Texture) :
  (textureHoldings textures).map Holding.slot = textureSlots textures
  := by
  simp only [textureHoldings, textureSlots, OrderedMap.values, List.map_flatten, List.map_map,
    List.flatMap, Function.comp_def, Texture.map_slot_holdings]

theorem map_slot_samplerHoldings (samplers : OrderedMap Text Sampler) :
  (samplerHoldings samplers).map Holding.slot = samplerSlots samplers
  := by
  simp only [samplerHoldings, samplerSlots, OrderedMap.values, List.map_map]
  rfl

theorem map_slot_bufferHoldings (buffers : OrderedMap Text Buffer) :
  (bufferHoldings buffers).map Holding.slot = buffers.values.map Buffer.slot
  := by
  simp only [bufferHoldings, OrderedMap.values, List.map_map]
  rfl

/-! ### One class after the other -/

namespace Event

/-- The registry that a step works on, if it is not a mere search. -/
def registry? : Event → Option Registry
  | search => none
  | mark _ | sampler _ _ => some .samplers
  | texture _ _ => some .textures
  | buffer _ _ => some .buffers

end Event

/-- The slots handed out for textures go to textures. -/
theorem Steps.slots_of_textures
    (h : Steps mode limits es r ss r') (hes : ∀ e ∈ es, e.registry? = some .textures) :
  textureSlots r'.textures = textureSlots r.textures ++ ss ∧
    r'.samplers = r.samplers ∧ r'.buffers = r.buffers
  := by
  induction h with
  | refl r =>
    rw [List.append_nil]
    exact ⟨rfl, rfl, rfl⟩
  | @cons e es r r' r'' ss ss' hstep _ ih =>
    obtain ⟨he, hes⟩ := List.forall_mem_cons.mp hes
    obtain ⟨htextures, hsamplers, hbuffers⟩ := ih hes
    cases e with
    | texture stage name =>
      obtain ⟨⟨new, hholdings, hnew⟩, hsamplers', hbuffers'⟩ := hstep.of_texture
      refine ⟨?_, hsamplers.trans hsamplers', hbuffers.trans hbuffers'⟩
      rw [htextures, ← map_slot_textureHoldings, hholdings, List.map_append, hnew,
        map_slot_textureHoldings, List.append_assoc]
    | _ => cases he

/-- The slots handed out for samplers go to samplers. -/
theorem Steps.slots_of_samplers
    (h : Steps mode limits es r ss r') (hes : ∀ e ∈ es, e.registry? = some .samplers) :
  samplerSlots r'.samplers = samplerSlots r.samplers ++ ss ∧
    textureSlots r'.textures = textureSlots r.textures ∧ r'.buffers = r.buffers
  := by
  induction h with
  | refl r =>
    rw [List.append_nil]
    exact ⟨rfl, rfl, rfl⟩
  | @cons e es r r' r'' ss ss' hstep _ ih =>
    obtain ⟨he, hes⟩ := List.forall_mem_cons.mp hes
    obtain ⟨hsamplers, htextures, hbuffers⟩ := ih hes
    cases e with
    | mark sampler =>
      obtain ⟨hholdings, rfl, hsamplers', hbuffers'⟩ := hstep.of_mark
      refine ⟨?_, ?_, hbuffers.trans hbuffers'⟩
      · rw [hsamplers, hsamplers', List.nil_append]
      · rw [htextures, ← map_slot_textureHoldings, hholdings, map_slot_textureHoldings]
    | sampler stage name =>
      obtain ⟨⟨new, hholdings, hnew⟩, htextures', hbuffers'⟩ := hstep.of_sampler
      refine ⟨?_, ?_, hbuffers.trans hbuffers'⟩
      · rw [hsamplers, ← map_slot_samplerHoldings, hholdings, List.map_append, hnew,
          map_slot_samplerHoldings, List.append_assoc]
      · rw [htextures, htextures']
    | _ => cases he

/-- A buffer that is new gets the slot handed out. -/
theorem Step.bufferSlots
    {stage : Stage} {form : BufferForm} (h : Step mode limits (.buffer stage form) r ss r')
    (hfirst : mode.firstSlot ≤ r.free) :
  bufferSlots mode r'.buffers = bufferSlots mode r.buffers ++ ss
  := by
  have hhanded := h.handed
  obtain ⟨⟨hbuffers, rfl⟩ | ⟨hnew, slot, hbuffers, hss⟩, -⟩ := h.of_buffer
  · rw [hbuffers, List.append_nil]
  · rw [Resources.bufferSlots, hbuffers, ← map_slot_bufferHoldings,
      bufferHoldings_insert_of_find?_eq_none hnew, List.map_append, List.filter_append,
      map_slot_bufferHoldings, Resources.bufferSlots]
    congr 1
    rcases hss with rfl | ⟨rfl, hreserved⟩
    · -- the engine reserves no slot behind the first one
      have hle := le_trans hfirst (hhanded.mem (List.mem_singleton_self slot)).1
      apply List.filter_eq_self.mpr
      intro s hs
      obtain rfl := List.mem_singleton.mp hs
      rw [decide_eq_true_iff]
      intro hscene
      exact absurd (lt_firstSlot_of_reservedSlot? hscene) (not_lt_of_ge hle)
    · have hscene := reservedSlot?_scene hreserved
      apply List.filter_eq_nil_iff.mpr
      intro s hs
      obtain rfl := List.mem_singleton.mp hs
      simp [hscene]

/-- The slots handed out for buffers go to buffers. -/
theorem Steps.slots_of_buffers
    (h : Steps mode limits es r ss r') (hes : ∀ e ∈ es, e.registry? = some .buffers)
    (hfirst : mode.firstSlot ≤ r.free) :
  Resources.bufferSlots mode r'.buffers = Resources.bufferSlots mode r.buffers ++ ss ∧
    r'.textures = r.textures ∧ r'.samplers = r.samplers
  := by
  induction h with
  | refl r =>
    rw [List.append_nil]
    exact ⟨rfl, rfl, rfl⟩
  | @cons e es r r' r'' ss ss' hstep _ ih =>
    obtain ⟨he, hes⟩ := List.forall_mem_cons.mp hes
    obtain ⟨hbuffers, htextures, hsamplers⟩ := ih hes (le_trans hfirst hstep.handed.le)
    cases e with
    | buffer stage form =>
      obtain ⟨-, htextures', hsamplers'⟩ := hstep.of_buffer
      refine ⟨?_, htextures.trans htextures', hsamplers.trans hsamplers'⟩
      rw [hbuffers, hstep.bufferSlots hfirst, List.append_assoc]
    | _ => cases he

/-- If the textures come first, then the samplers, and then the buffers, then the resources lie
one behind the other in the slots handed out. -/
theorem Steps.placement
    {ts ss bs : List Event} {slots : List Slot}
    (h : Steps mode limits (ts ++ (ss ++ bs)) { free := mode.firstSlot } slots r')
    (hts : ∀ e ∈ ts, e.registry? = some .textures) (hss : ∀ e ∈ ss, e.registry? = some .samplers)
    (hbs : ∀ e ∈ bs, e.registry? = some .buffers) :
  r'.placement mode = slots
  := by
  obtain ⟨s₁, r₁, s₂₃, rfl, hsteps₁, h⟩ := h.of_append
  obtain ⟨s₂, r₂, s₃, rfl, hsteps₂, hsteps₃⟩ := h.of_append
  have hfirst : mode.firstSlot ≤ r₂.free := (hsteps₁.handed.trans hsteps₂.handed).le
  obtain ⟨htextures₁, hsamplers₁, hbuffers₁⟩ := hsteps₁.slots_of_textures hts
  obtain ⟨hsamplers₂, htextures₂, hbuffers₂⟩ := hsteps₂.slots_of_samplers hss
  obtain ⟨hbuffers₃, htextures₃, hsamplers₃⟩ := hsteps₃.slots_of_buffers hbs hfirst
  rw [Resources.placement, htextures₃, hsamplers₃, hbuffers₃, htextures₂, hsamplers₂, hbuffers₂,
    htextures₁, hsamplers₁, hbuffers₁]
  rfl

end Resources

/-! ### Compilations -/

open Resources (Event)

/-- What is found in both stages, one after the other. -/
def StageTexts.inOrder {α : Type} (f : Text → List α) (texts : StageTexts) : List α :=
  f texts.vertex ++ f texts.fragment

namespace Resources.Event

variable (texts : StageTexts)

theorem registry?_ofTextures :
  ∀ e ∈ texts.events ofTextures, e.registry? = some .textures
  := by
  intro e he
  simp only [StageTexts.events, ofTextures, List.mem_append, List.mem_map] at he
  rcases he with ⟨_, -, rfl⟩ | ⟨_, -, rfl⟩ <;> rfl

theorem registry?_ofSamplers :
  ∀ e ∈ texts.events ofSamplers, e.registry? = some .samplers
  := by
  intro e he
  simp only [StageTexts.events, ofSamplers, List.mem_append, List.mem_flatMap, List.mem_cons,
    List.not_mem_nil, or_false] at he
  rcases he with ⟨_, -, rfl | rfl⟩ | ⟨_, -, rfl | rfl⟩ <;> rfl

theorem registry?_ofBuffers :
  ∀ e ∈ texts.events ofBuffers, e.registry? = some .buffers
  := by
  intro e he
  simp only [StageTexts.events, ofBuffers, List.mem_append, List.mem_map] at he
  rcases he with ⟨_, -, rfl⟩ | ⟨_, -, rfl⟩ <;> rfl

theorem registry?_leftOver {es : List Event} (h : es = [] ∨ es = LeftOver.events) :
  ∀ e ∈ es, e.registry? = some .buffers
  := by
  rcases h with rfl | rfl
  · rintro _ ⟨⟩
  · simp [LeftOver.events, registry?]

theorem textureNames_leftOver {es : List Event} (h : es = [] ∨ es = LeftOver.events) :
  es.flatMap textureNames = [] ∧ es.flatMap samplerNames = []
  := by
  rcases h with rfl | rfl
  · exact ⟨rfl, rfl⟩
  · exact ⟨rfl, rfl⟩

theorem flatMap_nil {α β : Type} (as : List α) :
  as.flatMap (fun _ => ([] : List β)) = []
  := by
  rw [List.flatMap_eq_nil_iff]
  intro _ _
  rfl

variable (prepared declared sampled : StageTexts) (leftOver : List Event)

/-- The textures that a pair declares. -/
theorem textureNames_pair (h : leftOver = [] ∨ leftOver = LeftOver.events) :
  (prepared.events ofTextures
    ++ (declared.events ofSamplers ++ (sampled.events ofBuffers ++ leftOver))).flatMap textureNames
    = (prepared.inOrder textureForms).map TextureForm.name
  := by
  simp only [List.flatMap_append, (textureNames_leftOver h).1]
  simp [StageTexts.events, StageTexts.inOrder, ofTextures, ofSamplers, ofBuffers,
    List.flatMap_map, List.flatMap_assoc, textureNames, ← List.map_eq_flatMap, flatMap_nil]

/-- The samplers that a pair declares. -/
theorem samplerNames_pair (h : leftOver = [] ∨ leftOver = LeftOver.events) :
  (prepared.events ofTextures
    ++ (declared.events ofSamplers ++ (sampled.events ofBuffers ++ leftOver))).flatMap samplerNames
    = (declared.inOrder samplerForms).map SamplerForm.name
  := by
  simp only [List.flatMap_append, (textureNames_leftOver h).2]
  simp [StageTexts.events, StageTexts.inOrder, ofTextures, ofSamplers, ofBuffers,
    List.flatMap_map, List.flatMap_assoc, samplerNames, ← List.map_eq_flatMap, flatMap_nil]

/-- The buffers that a pair declares. -/
theorem bufferForms_pair :
  (prepared.events ofTextures
    ++ (declared.events ofSamplers ++ (sampled.events ofBuffers ++ leftOver))).flatMap bufferForms
    = sampled.inOrder ShaderPair.bufferForms ++ leftOver.flatMap bufferForms
  := by
  simp [StageTexts.events, StageTexts.inOrder, ofTextures, ofSamplers, ofBuffers,
    List.flatMap_map, List.flatMap_assoc, bufferForms, flatMap_nil]

end Resources.Event

/-- In a fresh context with room in its groups, a compilation that succeeds fills the slots from
the first one on without a gap: by the textures, then by the samplers and then by the buffers,
each of them in the order of their first declarations, the vertex stage first.  When it finds no
slot, all slots are handed out. -/
theorem pair_placement
    {limits : Limits} (hcap : 0 < limits.bindingsPerGroup) (mode : Mode)
    (components : OrderedMap Text Int) (source : SourcePair) :
  let c := Context.fresh mode limits components
  let o := Compile.pair source c
  let r := o.context.resources
  let first := mode.firstSlot.group
  (∀ texts, o.result = .ok texts →
    (∃ m ≤ limits.room first, r.placement mode = (List.range m).map (Slot.nth limits first)) ∧
    ∃ declared sampled leftOver,
      (Compile.declareStages source c).result = .ok declared ∧
      ((Compile.declareStages source >>= Compile.bothStages Compile.annotateSamplers) c).result
        = .ok sampled ∧
      (leftOver = [] ∨ leftOver = [LeftOver.form, LeftOver.form]) ∧
      r.textures.keys
        = (((source.prepared mode).inOrder textureForms).map TextureForm.name).eraseDups ∧
      r.samplers.keys = ((declared.inOrder samplerForms).map SamplerForm.name).eraseDups ∧
      r.buffers.keys
        = (BufferForm.keysFrom [] (sampled.inOrder bufferForms ++ leftOver)).eraseDups) ∧
  ∀ groups bindings, o.result = .error (.slotsExhausted groups bindings) →
    o.taken = (List.range (limits.room first)).map (Slot.nth limits first)
  := by
  intro c o r first
  obtain ⟨es, heffect, hok⟩ := Compile.does_pair source c
  have hsteps : Resources.Steps mode limits es { free := mode.firstSlot } o.taken r :=
    heffect.steps
  have hhanded : Slot.Handed limits ⟨first, 0⟩ o.taken r.free := by
    have hfirst : mode.firstSlot = ⟨first, 0⟩ := by
      cases mode <;> rfl
    rw [← hfirst]
    apply hsteps.handed
  constructor
  · intro texts htexts
    obtain ⟨declared, sampled, leftOver, hdeclared, hsampled, hleftOver, rfl⟩ := hok texts htexts
    constructor
    · use o.taken.length, hhanded.length_le hcap
      rw [← hhanded.eq_map_nth hcap]
      apply hsteps.placement (Event.registry?_ofTextures _) (Event.registry?_ofSamplers _)
      intro e he
      rcases List.mem_append.mp he with he | he
      · apply Event.registry?_ofBuffers _ e he
      · apply Event.registry?_leftOver hleftOver e he
    · refine ⟨declared, sampled, leftOver.flatMap Event.bufferForms, hdeclared, hsampled,
        ?_, ?_, ?_, ?_⟩
      · rcases hleftOver with rfl | rfl
        · left
          rfl
        · right
          rfl
      · rw [hsteps.keys_textures, Event.textureNames_pair _ _ _ _ hleftOver]
        apply OrderedMap.foldl_addKey_nil
      · rw [hsteps.keys_samplers, Event.samplerNames_pair _ _ _ _ hleftOver]
        apply OrderedMap.foldl_addKey_nil
      · rw [hsteps.keys_buffers, Event.bufferForms_pair]
        apply OrderedMap.foldl_addKey_nil
  · intro groups bindings hfault
    rw [hhanded.eq_map_nth hcap, hhanded.length_of_exhausted hcap (heffect.exhausted hfault).2]

/-- A shader pair with an array of three textures, a sampler and a buffer. -/
def pictures : SourcePair where
  vertex := "var pictures : array<texture_2d<f32>, 3>;"
  fragment := "var<storage> frame : Frame;\nvar linear : sampler;"

/-- In groups of two bindings the pictures, the sampler and the buffer fill the first two groups
and a half of the third one.  Where there are two groups only, all four slots are handed out. -/
theorem pair_placement_pictures :
  let limits : Limits := { bindingsPerGroup := 2 }
  let o := Compile.pair pictures (.fresh .pure limits ∅)
  let narrow : Limits := { bindingsPerGroup := 2, groups := 2 }
  let o' := Compile.pair pictures (.fresh .pure narrow ∅)
  (o.result.isOk ∧ ∃ m ≤ 8,
    o.context.resources.placement .pure = (List.range m).map (Slot.nth limits 0)) ∧
  o'.result = .error (.slotsExhausted 2 2) ∧
    o'.taken = [⟨0, 0⟩, ⟨0, 1⟩, ⟨1, 0⟩, ⟨1, 1⟩]
  := by
  intro limits o narrow o'
  have hok : o.result.isOk = true := by decide +kernel
  have hfault : o'.result = .error (.slotsExhausted 2 2) := by decide +kernel
  obtain ⟨hplacement, -⟩ := @pair_placement limits (by decide) .pure ∅ pictures
  obtain ⟨-, htaken⟩ := @pair_placement narrow (by decide) .pure ∅ pictures
  obtain ⟨texts, hresult⟩ := Compile.exists_of_isOk hok
  exact ⟨⟨hok, (hplacement texts hresult).1⟩, hfault, (htaken 2 2 hfault).trans (by decide)⟩

end ShaderPair
