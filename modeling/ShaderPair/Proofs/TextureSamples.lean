import ShaderPair.Proofs.ProgramSteps

/-!
# Programs that leave alone what is sampled

What is sampled from a texture is said by its declarations and by nothing else: the annotation of
samplers and of buffers, the leftover buffer and all that finishes a pair keep it, whether or not
they succeed (`Compile.KeepsSamples`).  To bind a sampler to a texture by its name does not change
what is sampled either (`Compile.keepsSamples_markAutoSampler`).
-/

namespace ShaderPair

/-- What is sampled from the texture of some name, if there is one. -/
def Resources.sample? (r : Resources) (name : Text) : Option SampleKind :=
  (r.textures.find? name).map Texture.sample

namespace Compile

variable {α β : Type} {x : Compile α}

/-- A program that changes nothing of what is sampled from textures. -/
def KeepsSamples (x : Compile α) : Prop :=
  ∀ c name, (x c).context.resources.sample? name = c.resources.sample? name

/-! ### Rules -/

theorem KeepsSamples.bind
    {f : α → Compile β} (hx : KeepsSamples x) (hf : ∀ a, KeepsSamples (f a)) :
  KeepsSamples (x >>= f)
  := by
  intro c name
  cases hresult : (x c).result with
  | error e =>
    rw [bind_of_error hresult]
    exact hx c name
  | ok a =>
    rw [bind_of_ok hresult]
    exact (hf a _ name).trans (hx c name)

theorem keepsSamples_pure (a : α) :
  KeepsSamples (pure a : Compile α)
  := fun _ _ => rfl

theorem keepsSamples_context :
  KeepsSamples context
  := fun _ _ => rfl

theorem Quiet.keepsSamples (hx : Quiet x) :
  KeepsSamples x
  := by
  intro c name
  rw [(hx c).resources_eq]

/-- A change that leaves the registry of textures alone keeps what is sampled. -/
theorem keepsSamples_update
    {g : Context → Context} (hg : ∀ c, (g c).resources.textures = c.resources.textures) :
  KeepsSamples (update g)
  := by
  intro c name
  change (g c).resources.sample? name = _
  rw [Resources.sample?, hg]
  rfl

theorem keepsSamples_each {f : α → Compile β} (hf : ∀ a, KeepsSamples (f a)) (as : List α) :
  KeepsSamples (each f as)
  := by
  induction as with
  | nil => apply keepsSamples_pure
  | cons a as ih =>
    apply (hf a).bind
    intro b
    apply ih.bind
    intro bs
    apply keepsSamples_pure

theorem keepsSamples_bothStages
    {f : Stage → Text → Compile Text} (hf : ∀ stage code, KeepsSamples (f stage code))
    (texts : StageTexts) :
  KeepsSamples (bothStages f texts)
  := by
  apply (hf _ _).bind
  intro vertex
  apply (hf _ _).bind
  intro fragment
  apply keepsSamples_pure

/-! ### Slots and descriptions -/

theorem keepsSamples_takeSlot :
  KeepsSamples takeSlot
  := by
  intro c name
  obtain ⟨free, ⟨s, -, heq⟩ | ⟨-, -, heq⟩⟩ := takeSlot_cases c <;>
  · rw [heq]
    rfl

theorem keepsSamples_describe
    (slot : Slot) (name : Text) (elementName : Option Text) (resource : Resource)
    (stage : Stage) :
  KeepsSamples (describe slot name elementName resource stage)
  := keepsSamples_update fun _ => rfl

/-! ### Samplers and buffers -/

/-- A sampler that is bound to a texture does not change what is sampled from it. -/
theorem keepsSamples_markAutoSampler (sampler : Text) :
  KeepsSamples (markAutoSampler sampler)
  := by
  intro c name
  rw [markAutoSampler_apply]
  change (c.resources.markAutoSampler sampler).sample? name = _
  obtain h | ⟨name', t, ht, h⟩ := c.resources.markAutoSampler_cases sampler
  · rw [h]
  · rw [h, Resources.sample?, Resources.sample?]
    by_cases hname : name = name'
    · rw [hname, ht, OrderedMap.find?_insert_self]
      rfl
    · rw [OrderedMap.find?_insert_of_ne _ hname]

theorem keepsSamples_declareSampler (stage : Stage) (form : SamplerForm) :
  KeepsSamples (declareSampler stage form)
  := by
  apply (keepsSamples_markAutoSampler _).bind
  intro _
  apply KeepsSamples.bind
  · apply keepsSamples_context.bind
    intro c
    split
    · apply keepsSamples_pure
    · apply keepsSamples_takeSlot.bind
      intro slot
      refine KeepsSamples.bind (keepsSamples_update fun _ => rfl) ?_
      intro _
      apply keepsSamples_pure
  intro s
  apply (keepsSamples_describe _ _ _ _ _).bind
  intro _
  apply keepsSamples_pure

theorem keepsSamples_registeredBuffer (key : Text) (form : BufferForm) :
  KeepsSamples (registeredBuffer key form)
  := by
  apply keepsSamples_context.bind
  intro c
  split
  · apply keepsSamples_pure
  · apply KeepsSamples.bind
    · apply keepsSamples_context.bind
      intro c'
      split
      · apply keepsSamples_pure
      · apply keepsSamples_takeSlot
    intro slot
    refine KeepsSamples.bind (keepsSamples_update fun _ => rfl) ?_
    intro _
    apply keepsSamples_pure

theorem keepsSamples_declareBuffer (stage : Stage) (form : BufferForm) :
  KeepsSamples (declareBuffer stage form)
  := by
  apply keepsSamples_context.bind
  intro c
  apply (keepsSamples_registeredBuffer _ _).bind
  intro b
  apply (keepsSamples_describe _ _ _ _ _).bind
  intro _
  apply keepsSamples_pure

/-! ### Stages -/

theorem keepsSamples_annotateEach
    {f : α → Compile Slot} (hf : ∀ a, KeepsSamples (f a)) (pieces : List (Piece α)) :
  KeepsSamples (annotateEach f pieces)
  := by
  apply KeepsSamples.bind
  · apply keepsSamples_each
    intro piece
    cases piece with
    | plain c => apply keepsSamples_pure
    | found t a =>
      apply (hf a).bind
      intro slot
      apply keepsSamples_pure
  intro parts
  apply keepsSamples_pure

theorem keepsSamples_annotateSamplers (stage : Stage) (code : Text) :
  KeepsSamples (annotateSamplers stage code)
  := keepsSamples_annotateEach (keepsSamples_declareSampler stage) _

theorem keepsSamples_annotateBuffers (stage : Stage) (code : Text) :
  KeepsSamples (annotateBuffers stage code)
  := keepsSamples_annotateEach (keepsSamples_declareBuffer stage) _

theorem keepsSamples_buildLeftOver :
  KeepsSamples buildLeftOver
  := by
  apply keepsSamples_context.bind
  intro c
  split
  · apply keepsSamples_pure
  · apply KeepsSamples.bind
    · apply keepsSamples_context.bind
      intro c'
      split
      · apply keepsSamples_pure
      · apply keepsSamples_takeSlot.bind
        intro slot
        refine KeepsSamples.bind (keepsSamples_update fun _ => rfl) ?_
        intro _
        apply (keepsSamples_describe _ _ _ _ _).bind
        intro _
        apply (keepsSamples_describe _ _ _ _ _).bind
        intro _
        apply keepsSamples_pure
    intro slot
    refine KeepsSamples.bind (keepsSamples_update fun _ => rfl) ?_
    intro _
    apply keepsSamples_pure

theorem keepsSamples_finish (texts : StageTexts) :
  KeepsSamples (finish texts)
  := by
  apply (keepsSamples_bothStages keepsSamples_annotateSamplers _).bind
  intro sampled
  apply (keepsSamples_bothStages keepsSamples_annotateBuffers _).bind
  intro annotated
  apply keepsSamples_buildLeftOver.bind
  intro leftOver
  apply keepsSamples_context.bind
  intro c
  refine KeepsSamples.bind (keepsSamples_update fun _ => rfl) ?_
  intro _
  apply keepsSamples_pure

end Compile

end ShaderPair
