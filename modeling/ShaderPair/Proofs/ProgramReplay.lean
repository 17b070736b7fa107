import ShaderPair.Proofs.Replay

/-!
# Each program goes the same way again

The programs of a compilation go the same way again, from the declaration of a single variable
to the stages of a shader pair (`Compile.retraces_processStage`,
`Compile.retraces_annotateSamplers`, `Compile.retraces_annotateBuffers`,
`Compile.retraces_leftOverSlot`).  Where a program took a slot on its first way, it finds the
resource registered on the second.
-/

namespace ShaderPair

open Resources (Event Step Steps)

namespace Compile

variable {P : Event → Prop} {c : Context} {forms : List BufferForm}

/-! ### Variables -/

theorem blind_resolveExtent (constants : OrderedMap Text Text) (name type : Text) :
  Blind (resolveExtent constants name type)
  := by
  rw [resolveExtent]
  split
  · apply blind_fail
  · split
    · apply blind_pure
    · apply (blind_warn _).bind
      intro
      apply blind_pure

theorem blind_takeLocations (kind : LocationKind) (type : Text) (size : Int) :
  Blind (takeLocations kind type size)
  := by
  intro c d
  rw [Replays, takeLocations_apply, takeLocations_apply]
  rfl

theorem blind_locate
    (kind : LocationKind) (constants : OrderedMap Text Text) (name type : Text) :
  Blind (locate kind constants name type)
  := by
  apply (blind_resolveExtent _ _ _).bind
  intro e
  apply (blind_takeLocations _ _ _).bind
  intro location c d
  rfl

theorem blind_listDeclaration (numbers : List Int) (f : Declarations → Declarations) :
  Blind (listDeclaration numbers f)
  := by
  intro c d
  rw [Replays, listDeclaration_apply, listDeclaration_apply]
  split <;> rfl

theorem blind_declareAttribute (constants : OrderedMap Text Text) (form : VariableForm) :
  Blind (declareAttribute constants form)
  := by
  apply (blind_locate _ _ _ _).bind
  intro location c d
  let a : Attribute := ⟨location, form.name, form.type, c.components.find? form.name⟩
  exact blind_listDeclaration a.numbers (fun d => { d with attributes := d.attributes ++ [a] }) c d

theorem blind_declareVarying (constants : OrderedMap Text Text) (form : VaryingForm) :
  Blind (declareVarying constants form)
  := by
  apply (blind_locate _ _ _ _).bind
  intro location
  apply blind_listDeclaration

theorem blind_checkVarying (form : VaryingForm) :
  Blind (checkVarying form)
  := by
  intro c d
  simp only [Replays, checkVarying, context_bind, Context.keeping]
  split <;> rfl

theorem blind_textureLength (constants : OrderedMap Text Text) (form : TextureForm) :
  Blind (textureLength constants form)
  := by
  rw [textureLength]
  split
  · apply (blind_resolveExtent _ _ _).bind
    intro e
    apply blind_pure
  · apply blind_pure

/-- A change that may add plain uniforms goes the same way again if it adds none on the second
way. -/
theorem retraces_update
    {g : Context → Context}
    (hg : (g c).mode = c.mode ∧ (g c).limits = c.limits ∧ (g c).resources = c.resources)
    (hsub : c.uniforms ⊆ (g c).uniforms)
    (hkeep : ∀ {d}, (g c).uniforms ⊆ d.uniforms → g (c.keeping d) = (g c).keeping d) :
  Retraces P (update g) c
  := by
  obtain ⟨hmode, hlimits, hresources⟩ := hg
  constructor
  · rintro _ -
    use hmode, hlimits, hsub
    refine ⟨[], [], ?_, hresources ▸ Steps.refl _⟩
    rintro e ⟨⟩
  · rintro _ - - f hf ts hts
    use ts, hresources ▸ hts
    have hd : g (c.keeping (f.withTextures ts)) = (g c).keeping (f.withTextures ts) :=
      hkeep hf.uniforms_sub
    rw [Replays, update, hd]
    rfl

/-- A plain uniform that is added on the first way is there on the second. -/
theorem retraces_addUniform (u : Uniform) (c : Context) :
  Retraces P
    (update fun c =>
      if c.uniforms.any (·.name == u.name) then c else { c with uniforms := c.uniforms ++ [u] }) c
  := by
  by_cases hany : c.uniforms.any (·.name == u.name)
  · apply retraces_update
    · rw [if_pos hany]
      exact ⟨rfl, rfl, rfl⟩
    · rw [if_pos hany]
      apply List.Subset.refl
    · rw [if_pos hany]
      intro d hd
      have hany' : (c.keeping d).uniforms.any (·.name == u.name) := by
        obtain ⟨u', hu', hname⟩ := List.any_eq_true.mp hany
        apply List.any_eq_true.mpr ⟨u', hd hu', hname⟩
      rw [if_pos hany']
  · apply retraces_update
    · rw [if_neg hany]
      exact ⟨rfl, rfl, rfl⟩
    · rw [if_neg hany]
      apply List.subset_append_left
    · rw [if_neg hany]
      intro d hd
      have hany' : (c.keeping d).uniforms.any (·.name == u.name) := by
        have hu : u ∈ d.uniforms := hd (List.mem_append_right _ (List.mem_singleton_self u))
        apply List.any_eq_true.mpr ⟨u, hu, beq_self_eq_true u.name⟩
      rw [if_pos hany']
      rfl

/-- A plain uniform is declared already on the second way. -/
theorem retraces_declareUniform
    (constants : OrderedMap Text Text) (form : VariableForm) (c : Context) :
  Retraces P (declareUniform constants form) c
  := by
  apply ((blind_resolveExtent _ _ _).retraces (quiet_resolveExtent _ _ _)).bind
  intro e _
  exact retraces_addUniform ⟨form.name, e.element, e.length⟩ _

/-! ### Textures -/

/-- A texture that is registered is in the context with a new first free slot at most. -/
theorem registeredTexture_of_ok
    {form : TextureForm} {function : TextureFunction} {length : Nat} {t : Texture}
    (h : (registeredTexture form function length c).result = .ok t) :
  ∃ ss free, registeredTexture form function length c = ⟨.ok t, [], ss, c.withFree free⟩
  := by
  cases hfind : c.resources.textures.find? form.name with
  | some t' =>
    have heq := registeredTexture_of_find?_eq_some hfind function length
    rw [heq] at h
    obtain rfl := Except.ok.inj h
    exact ⟨[], c.resources.free, heq⟩
  | none =>
    obtain ⟨ss, free, -, ⟨slot, others, -, -, heq⟩ | ⟨-, heq⟩⟩ :=
      registeredTexture_of_find?_eq_none hfind function length
    · rw [heq] at h
      obtain rfl := Except.ok.inj h
      exact ⟨ss, free, heq⟩
    · rw [heq] at h
      cases h

/-- A texture that is registered keeps its slots, and what is sampled from it is set anew. -/
theorem retraces_enterTexture
    (stage : Stage) (form : TextureForm) (function : TextureFunction) (length : Nat)
    (c : Context) :
  Retraces (fun _ => True) (enterTexture stage form function length) c
  := by
  apply retraces_of_does
  · apply (does_enterTexture stage form function length c).mono
    intros
    trivial
  intro slot h
  obtain ⟨t, ht, -⟩ := ok_of_bind h
  obtain ⟨ss, free, heq⟩ := registeredTexture_of_ok ht
  have henter := enterTexture_of_registered heq stage
  rw [henter] at h
  obtain rfl := Except.ok.inj h
  refine ⟨ss, _, henter, ?_⟩
  intro f ha _ hf ts hts
  set t₁ : Texture := { t with sample := function.sample form.component }
  obtain ⟨t', ht', hcontinues⟩ := hf.find?_textures (OrderedMap.find?_insert_self _ _ t₁)
  have hslot : t'.slot = t.slot := (List.cons.inj hcontinues.slots_eq).1
  have hlayout : f.resources.layout.describeElements form.name t'.isArray
      (function.resource form.component) stage 0 t'.slots = f.resources.layout := by
    rw [hcontinues.isArray_eq, hcontinues.slots_eq]
    apply hf.describeElements_eq ha rfl
  obtain ⟨sample, hagain⟩ := hts.exists_sample ht'
  use ts.insert form.name { t' with sample := t₁.sample }, hts.insert ht' t₁
  rw [enterTexture_of_registered (registeredTexture_of_find?_eq_some hagain function length)]
  change Outcome.mk (.ok t'.slot) [] [] ((c.keeping (f.withTextures ts)).withResources
    { (f.withTextures ts).resources with
      textures := ts.insert form.name { t' with sample := t₁.sample }
      layout := f.resources.layout.describeElements form.name t'.isArray _ stage 0 t'.slots }) = _
  rw [hlayout, hslot]
  rfl

theorem retraces_declareTexture
    (constants : OrderedMap Text Text) (stage : Stage) (line : Text) (form : TextureForm)
    (c : Context) :
  Retraces (fun _ => True) (declareTexture constants stage line form) c
  := by
  rw [declareTexture]
  split
  · apply (blind_fail _).retraces
    apply quiet_fail
    rintro _ _ ⟨⟩
  · apply ((blind_textureLength constants form).retraces (quiet_textureLength constants form)).bind
    intro length _
    apply retraces_enterTexture

/-! ### Lines -/

theorem retraces_declare
    (constants : OrderedMap Text Text) (stage : Stage) (line : Text) (d : Declaration)
    (c : Context) :
  Retraces (fun _ => True) (declare constants stage line d) c
  := by
  match d with
  | .attribute form =>
    apply Retraces.bind_pure
    apply (blind_declareAttribute _ _).retraces (quiet_declareAttribute _ _)
  | .varying form =>
    cases stage with
    | vertex =>
      apply Retraces.bind_pure
      apply (blind_declareVarying _ _).retraces (quiet_declareVarying _ _)
    | fragment =>
      apply Retraces.bind_pure
      apply (blind_checkVarying _).retraces (quiet_checkVarying _)
  | .uniform form =>
    apply Retraces.bind_pure
    apply retraces_declareUniform
  | .texture form =>
    apply Retraces.bind_pure
    apply retraces_declareTexture

theorem retraces_declareIf
    (constants : OrderedMap Text Text) (stage : Stage) (line : Text) (d : Option Declaration)
    (c : Context) :
  Retraces (fun _ => True) (declareIf constants stage line d) c
  := by
  cases d with
  | none => apply retraces_pure
  | some d =>
    apply Retraces.bind_pure
    apply retraces_declare

/-- The declarations of a stage go the same way again. -/
theorem retraces_processStage
    (constants : OrderedMap Text Text) (stage : Stage) (code : Text) (c : Context) :
  Retraces (fun _ => True) (processStage constants stage code) c
  := by
  apply Retraces.bind_pure
  apply retraces_each
  intro line _ c
  apply Retraces.bind_pure
  apply retraces_declareIf

/-! ### Samplers -/

/-- A texture is bound to a sampler already on the second way. -/
theorem retraces_markAutoSampler (sampler : Text) (c : Context) :
  Retraces (Event.Finishing forms) (markAutoSampler sampler) c
  := by
  apply retraces_of_does
  · apply (does_markAutoSampler sampler c).mono
    rintro _ es rfl
    rw [List.forall_mem_singleton]
    apply Event.finishing_mark
  intro u _
  refine ⟨[], _, markAutoSampler_apply sampler c, ?_⟩
  intro f _ _ hf ts hts
  use ts
  constructor
  · apply hts.congr
    intro name t ht
    obtain ⟨t', ht', -, hsample⟩ := Resources.find?_markAutoSampler sampler ht
    exact ⟨t', ht', hsample⟩
  · have hself : (f.withTextures ts).resources.markAutoSampler sampler
        = (f.withTextures ts).resources := by
      apply Resources.markAutoSampler_eq_self
      intro name t hname ht
      obtain ⟨t', ht', heq⟩ := hts.of_find? ht
      have hauto : t'.autoSampler = true := hf.autoSampler_of_mark rfl hname ht'
      rw [heq]
      apply hauto
    rw [markAutoSampler_apply]
    change Outcome.mk _ [] [] ((c.keeping (f.withTextures ts)).withResources
      ((f.withTextures ts).resources.markAutoSampler sampler)) = _
    rw [hself]
    rfl

theorem registeredSampler_of_ok
    {form : SamplerForm} {s : Sampler} (h : (registeredSampler form c).result = .ok s) :
  ∃ ss r, registeredSampler form c = ⟨.ok s, [], ss, c.withResources r⟩ ∧
    r.textures = c.resources.textures ∧ r.layout = c.resources.layout ∧
    r.samplers.find? form.name = some s
  := by
  cases hfind : c.resources.samplers.find? form.name with
  | some s' =>
    have heq := registeredSampler_of_find?_eq_some hfind
    rw [heq] at h
    obtain rfl := Except.ok.inj h
    exact ⟨[], c.resources, heq, rfl, rfl, hfind⟩
  | none =>
    obtain ⟨free, ⟨slot, -, heq⟩ | ⟨-, -, heq⟩⟩ := registeredSampler_of_find?_eq_none hfind
    · rw [heq] at h
      obtain rfl := Except.ok.inj h
      exact ⟨[slot], _, heq, rfl, rfl, OrderedMap.find?_insert_self _ _ _⟩
    · rw [heq] at h
      cases h

theorem retraces_enterSampler (stage : Stage) (form : SamplerForm) (c : Context) :
  Retraces (Event.Finishing forms) (do
    let s ← registeredSampler form
    describe s.slot form.name none (.sampler s.kind) stage
    return s.slot) c
  := by
  apply retraces_of_does
  · apply (does_enterSampler stage form c).mono
    rintro _ es rfl
    rw [List.forall_mem_singleton]
    apply Event.finishing_sampler
  intro slot h
  obtain ⟨s, hs, -⟩ := ok_of_bind h
  obtain ⟨ss, r, heq, htextures, hlayout, hfind⟩ := registeredSampler_of_ok hs
  have henter := enterSampler_of_registered heq stage
  rw [henter] at h
  obtain rfl := Except.ok.inj h
  refine ⟨ss, _, henter, ?_⟩
  intro f ha _ hf ts hts
  use ts, htextures ▸ hts
  have hseen : f.resources.layout.describe s.slot form.name none (.sampler s.kind) stage
      = f.resources.layout := hf.describe_eq (hlayout ▸ ha) rfl
  have hagain : (c.keeping (f.withTextures ts)).resources.samplers.find? form.name = some s :=
    hf.find?_samplers hfind
  rw [enterSampler_of_registered (registeredSampler_of_find?_eq_some hagain)]
  change Outcome.mk _ [] [] ((c.keeping (f.withTextures ts)).withResources
    { (f.withTextures ts).resources with
      layout := f.resources.layout.describe s.slot form.name none _ stage }) = _
  rw [hseen]
  rfl

/-- The samplers of a stage go the same way again when a pair is finished. -/
theorem retraces_annotateSamplers (stage : Stage) (code : Text) (c : Context) :
  Retraces (Event.Finishing forms) (annotateSamplers stage code) c
  := by
  rw [annotateSamplers, annotateEach_eq]
  apply Retraces.bind_pure
  apply retraces_each
  intro form _ c
  apply (retraces_markAutoSampler form.name c).bind
  intro _ _
  apply retraces_enterSampler

/-! ### Buffers -/

theorem takeSlot_of_ok {slot : Slot} (h : (takeSlot c).result = .ok slot) :
  ∃ free, takeSlot c = ⟨.ok slot, [], [slot], c.withFree free⟩
  := by
  obtain ⟨free, ⟨s, -, heq⟩ | ⟨-, -, heq⟩⟩ := takeSlot_cases c
  · rw [heq] at h
    obtain rfl := Except.ok.inj h
    exact ⟨free, heq⟩
  · rw [heq] at h
    cases h

theorem bufferSlot_of_ok
    {form : BufferForm} (hnew : c.resources.buffers.find? (form.key c.resources.buffers) = none)
    {slot : Slot} (h : (bufferSlot form c).result = .ok slot) :
  ∃ ss free, bufferSlot form c = ⟨.ok slot, [], ss, c.withFree free⟩
  := by
  obtain heq | ⟨reserved, -, heq⟩ := bufferSlot_cases hnew
  · rw [heq] at h ⊢
    obtain ⟨free, heq⟩ := takeSlot_of_ok h
    exact ⟨[slot], free, heq⟩
  · rw [heq] at h
    obtain rfl := Except.ok.inj h
    exact ⟨[], c.resources.free, heq⟩

theorem registeredBuffer_of_ok
    {form : BufferForm} {b : Buffer}
    (h : (registeredBuffer (form.key c.resources.buffers) form c).result = .ok b) :
  ∃ ss r, registeredBuffer (form.key c.resources.buffers) form c
      = ⟨.ok b, [], ss, c.withResources r⟩ ∧
    r.textures = c.resources.textures ∧ r.layout = c.resources.layout
  := by
  cases hfind : c.resources.buffers.find? (form.key c.resources.buffers) with
  | some b' =>
    have heq := registeredBuffer_of_find?_eq_some hfind form
    rw [heq] at h
    obtain rfl := Except.ok.inj h
    exact ⟨[], c.resources, heq, rfl, rfl⟩
  | none =>
    have hslot : ∃ slot, (bufferSlot form c).result = .ok slot := by
      rw [registeredBuffer, context_bind, hfind] at h
      obtain ⟨slot, hslot, -⟩ := ok_of_bind h
      exact ⟨slot, hslot⟩
    obtain ⟨slot, hslot⟩ := hslot
    obtain ⟨ss, free, hslot⟩ := bufferSlot_of_ok hfind hslot
    have heq := registeredBuffer_of_bufferSlot hfind hslot
    rw [heq] at h
    obtain rfl := Except.ok.inj h
    exact ⟨ss, _, heq, rfl, rfl⟩

/-- A buffer is registered under the same key on the second way. -/
theorem retraces_declareBuffer
    (hforms : BufferForm.Unambiguous forms) {form : BufferForm} (hform : form ∈ forms)
    (stage : Stage) (c : Context) :
  Retraces (Event.Finishing forms) (declareBuffer stage form) c
  := by
  apply retraces_of_does
  · apply (does_declareBuffer stage form c).mono
    rintro _ es rfl
    rw [List.forall_mem_singleton]
    apply Event.finishing_buffer stage (Or.inl hform)
  intro slot h
  have hb := h
  rw [declareBuffer, context_bind] at hb
  obtain ⟨b, hb, -⟩ := ok_of_bind hb
  have hfind := find?_of_registeredBuffer hb
  obtain ⟨ss, r, heq, htextures, hlayout⟩ := registeredBuffer_of_ok hb
  rw [heq] at hfind
  have hdeclare := declareBuffer_of_registered heq stage
  rw [hdeclare] at h
  obtain rfl := Except.ok.inj h
  refine ⟨ss, _, hdeclare, ?_⟩
  intro f ha hf₀ hf ts hts
  use ts, htextures ▸ hts
  have hkey := hf₀.key_eq hforms hform
  have hseen : f.resources.layout.describe b.slot (form.key c.resources.buffers) none
      (.buffer form.kind) stage = f.resources.layout := hf.describe_eq (hlayout ▸ ha) rfl
  have hagain : (c.keeping (f.withTextures ts)).resources.buffers.find?
      (form.key f.resources.buffers) = some b := by
    rw [hkey]
    apply hf.find?_buffers hfind
  rw [declareBuffer_of_registered (registeredBuffer_of_find?_eq_some hagain form)]
  change Outcome.mk _ [] [] ((c.keeping (f.withTextures ts)).withResources
    { (f.withTextures ts).resources with
      layout := f.resources.layout.describe b.slot (form.key f.resources.buffers) none _ stage })
    = _
  rw [hkey, hseen]
  rfl

/-- The buffers of a stage go the same way again when a pair is finished. -/
theorem retraces_annotateBuffers
    (hforms : BufferForm.Unambiguous forms) (stage : Stage) {code : Text}
    (hcode : bufferForms code ⊆ forms) (c : Context) :
  Retraces (Event.Finishing forms) (annotateBuffers stage code) c
  := by
  rw [annotateBuffers, annotateEach_eq]
  apply Retraces.bind_pure
  apply retraces_each
  intro form hform c
  apply retraces_declareBuffer hforms (hcode hform)

/-! ### The leftover buffer -/

theorem leftOverSlot_of_find?_eq_some
    {b : Buffer} (hb : c.resources.buffers.find? LeftOver.name = some b) :
  leftOverSlot c = ⟨.ok b.slot, [], [], c.withResources c.resources⟩
  := by
  rw [leftOverSlot, context_bind, hb]
  rfl

theorem leftOverSlot_of_ok {slot : Slot} (h : (leftOverSlot c).result = .ok slot) :
  ∃ ss r, leftOverSlot c = ⟨.ok slot, [], ss, c.withResources r⟩ ∧
    r.textures = c.resources.textures
  := by
  cases hfind : c.resources.buffers.find? LeftOver.name with
  | some b =>
    have heq := leftOverSlot_of_find?_eq_some hfind
    rw [heq] at h
    obtain rfl := Except.ok.inj h
    exact ⟨[], c.resources, heq, rfl⟩
  | none =>
    have hslot : ∃ slot, (takeSlot c).result = .ok slot := by
      rw [leftOverSlot, context_bind, hfind] at h
      obtain ⟨slot, hslot, -⟩ := ok_of_bind h
      exact ⟨slot, hslot⟩
    obtain ⟨slot', hslot⟩ := hslot
    obtain ⟨free, hslot⟩ := takeSlot_of_ok hslot
    have heq := leftOverSlot_of_takeSlot hfind hslot
    rw [heq] at h
    obtain rfl := Except.ok.inj h
    exact ⟨[slot'], _, heq, rfl⟩

/-- The leftover buffer goes the same way again. -/
theorem retraces_leftOverSlot (c : Context) :
  Retraces (Event.Finishing forms) leftOverSlot c
  := by
  apply retraces_of_does
  · apply (does_leftOverSlot c).mono
    rintro _ es (rfl | rfl) e he
    · cases he
    · rcases List.mem_pair.mp he with rfl | rfl
      · apply Event.finishing_buffer _ (Or.inr rfl)
      · apply Event.finishing_buffer _ (Or.inr rfl)
  intro slot h
  obtain ⟨b, hfind, hslot⟩ := (registered_of_leftOverSlot h).find?
  obtain ⟨ss, r, heq, htextures⟩ := leftOverSlot_of_ok h
  rw [heq] at hfind
  refine ⟨ss, r, heq, ?_⟩
  intro f _ _ hf ts hts
  use ts, htextures ▸ hts
  have hagain : (c.keeping (f.withTextures ts)).resources.buffers.find? LeftOver.name = some b :=
    hf.find?_buffers hfind
  rw [leftOverSlot_of_find?_eq_some hagain, hslot]
  rfl

end Compile

end ShaderPair
