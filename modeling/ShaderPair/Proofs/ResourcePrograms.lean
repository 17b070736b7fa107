import ShaderPair.Proofs.ProgramSteps

/-!
# Programs that touch nothing but resources

Slots, textures, samplers and buffers are looked after by programs that give no warnings and change
nothing in a context but its resources, whether or not they succeed (`Compile.Sparing`).  The
annotations of a stage are such programs (`Compile.sparing_annotateSamplers`,
`Compile.sparing_annotateBuffers`), and so is the search for the slot of the leftover buffer
(`Compile.sparing_leftOverSlot`).
-/

namespace ShaderPair

namespace Compile

variable {α β : Type}

/-- A program that gives no warnings and touches nothing but the resources. -/
def Sparing (x : Compile α) : Prop :=
  ∀ c, (x c).warnings = [] ∧ ∃ r, (x c).context = c.withResources r

/-! ### Rules -/

theorem sparing_pure (a : α) :
  Sparing (pure a : Compile α)
  := fun c => ⟨rfl, c.resources, rfl⟩

theorem sparing_context :
  Sparing context
  := fun c => ⟨rfl, c.resources, rfl⟩

theorem sparing_update {g : Context → Context} (hg : ∀ c, ∃ r, g c = c.withResources r) :
  Sparing (update g)
  := fun c => ⟨rfl, hg c⟩

theorem Sparing.bind
    {x : Compile α} {f : α → Compile β} (hx : Sparing x) (hf : ∀ a, Sparing (f a)) :
  Sparing (x >>= f)
  := by
  intro c
  obtain ⟨hwarnings, r, hcontext⟩ := hx c
  cases hresult : (x c).result with
  | error e =>
    rw [bind_of_error hresult]
    exact ⟨hwarnings, r, hcontext⟩
  | ok a =>
    obtain ⟨hwarnings', r', hcontext'⟩ := hf a (x c).context
    rw [bind_of_ok hresult]
    constructor
    · rw [hwarnings, hwarnings']
      rfl
    · use r'
      rw [hcontext', hcontext]
      rfl

theorem sparing_each {f : α → Compile β} (hf : ∀ a, Sparing (f a)) (as : List α) :
  Sparing (each f as)
  := by
  induction as with
  | nil => apply sparing_pure
  | cons a as ih =>
    apply (hf a).bind
    intro b
    apply ih.bind
    intro bs
    apply sparing_pure

theorem sparing_bothStages
    {f : Stage → Text → Compile Text} (hf : ∀ stage code, Sparing (f stage code))
    (texts : StageTexts) :
  Sparing (bothStages f texts)
  := by
  apply (hf _ _).bind
  intro vertex
  apply (hf _ _).bind
  intro fragment
  apply sparing_pure

/-! ### Slots and descriptions -/

theorem sparing_takeSlot :
  Sparing takeSlot
  := by
  intro c
  obtain ⟨free, ⟨s, -, heq⟩ | ⟨-, -, heq⟩⟩ := takeSlot_cases c
  · rw [heq]
    exact ⟨rfl, _, rfl⟩
  · rw [heq]
    exact ⟨rfl, _, rfl⟩

theorem sparing_takeSlots (count : Nat) :
  Sparing (takeSlots count)
  := by
  intro c
  obtain ⟨ss, free, -, ⟨-, heq⟩ | ⟨-, heq⟩⟩ := takeSlots_cases count c
  · rw [heq]
    exact ⟨rfl, _, rfl⟩
  · rw [heq]
    exact ⟨rfl, _, rfl⟩

theorem sparing_describe
    (slot : Slot) (name : Text) (elementName : Option Text) (resource : Resource)
    (stage : Stage) :
  Sparing (describe slot name elementName resource stage)
  := sparing_update fun _ => ⟨_, rfl⟩

/-! ### Textures -/

theorem sparing_describeElements
    (name : Text) (isArray : Bool) (resource : Resource) (stage : Stage) (number : Nat)
    (slots : List Slot) :
  Sparing (describeElements name isArray resource stage number slots)
  := by
  intro c
  rw [describeElements_apply]
  exact ⟨rfl, _, rfl⟩

theorem sparing_registeredTexture
    (form : TextureForm) (function : TextureFunction) (length : Nat) :
  Sparing (registeredTexture form function length)
  := by
  apply sparing_context.bind
  intro c
  split
  · apply sparing_pure
  · apply sparing_takeSlot.bind
    intro slot
    apply (sparing_takeSlots _).bind
    intro others
    apply sparing_pure

theorem sparing_enterTexture
    (stage : Stage) (form : TextureForm) (function : TextureFunction) (length : Nat) :
  Sparing (enterTexture stage form function length)
  := by
  apply (sparing_registeredTexture form function length).bind
  intro t
  apply Sparing.bind
  · apply sparing_update
    intro c
    exact ⟨_, rfl⟩
  intro _
  apply (sparing_describeElements _ _ _ _ _ _).bind
  intro _
  apply sparing_pure

/-! ### Samplers and buffers -/

theorem sparing_registeredSampler (form : SamplerForm) :
  Sparing (registeredSampler form)
  := by
  apply sparing_context.bind
  intro c
  split
  · apply sparing_pure
  · apply sparing_takeSlot.bind
    intro slot
    apply (sparing_update fun _ => ⟨_, rfl⟩).bind
    intro _
    apply sparing_pure

theorem sparing_declareSampler (stage : Stage) (form : SamplerForm) :
  Sparing (declareSampler stage form)
  := by
  apply Sparing.bind
  · intro c
    rw [markAutoSampler_apply]
    exact ⟨rfl, _, rfl⟩
  intro _
  apply (sparing_registeredSampler form).bind
  intro s
  apply (sparing_describe _ _ _ _ _).bind
  intro _
  apply sparing_pure

theorem sparing_bufferSlot (form : BufferForm) :
  Sparing (bufferSlot form)
  := by
  apply sparing_context.bind
  intro c
  split
  · apply sparing_pure
  · apply sparing_takeSlot

theorem sparing_registeredBuffer (key : Text) (form : BufferForm) :
  Sparing (registeredBuffer key form)
  := by
  apply sparing_context.bind
  intro c
  split
  · apply sparing_pure
  · apply (sparing_bufferSlot form).bind
    intro slot
    apply (sparing_update fun _ => ⟨_, rfl⟩).bind
    intro _
    apply sparing_pure

theorem sparing_declareBuffer (stage : Stage) (form : BufferForm) :
  Sparing (declareBuffer stage form)
  := by
  apply sparing_context.bind
  intro c
  apply (sparing_registeredBuffer _ form).bind
  intro b
  apply (sparing_describe _ _ _ _ _).bind
  intro _
  apply sparing_pure

theorem sparing_annotateEach
    {f : α → Compile Slot} (hf : ∀ a, Sparing (f a)) (pieces : List (Piece α)) :
  Sparing (annotateEach f pieces)
  := by
  apply Sparing.bind
  · apply sparing_each
    intro piece
    cases piece with
    | plain c => apply sparing_pure
    | found t a =>
      apply (hf a).bind
      intro slot
      apply sparing_pure
  intro parts
  apply sparing_pure

theorem sparing_annotateSamplers (stage : Stage) (code : Text) :
  Sparing (annotateSamplers stage code)
  := sparing_annotateEach (sparing_declareSampler stage) _

theorem sparing_annotateBuffers (stage : Stage) (code : Text) :
  Sparing (annotateBuffers stage code)
  := sparing_annotateEach (sparing_declareBuffer stage) _

theorem sparing_leftOverSlot :
  Sparing leftOverSlot
  := by
  apply sparing_context.bind
  intro c
  split
  · apply sparing_pure
  · apply sparing_takeSlot.bind
    intro slot
    apply (sparing_update fun _ => ⟨_, rfl⟩).bind
    intro _
    apply (sparing_describe _ _ _ _ _).bind
    intro _
    apply (sparing_describe _ _ _ _ _).bind
    intro _
    apply sparing_pure

end Compile

end ShaderPair
