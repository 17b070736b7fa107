import ShaderPair.Proofs.Effect

/-!
# The steps of each program

Every program that works on resources does what its declarations say, one step for each of
them (`Compile.does_processStage`, `Compile.does_annotateSamplers`,
`Compile.does_annotateBuffers`, `Compile.does_buildLeftOver`).  The declarations themselves can be
read off the text of the stage: `textureForms`, `samplerForms` and `bufferForms`.
-/

namespace ShaderPair

/-! ### Declarations in a text -/

/-- The declarations of textures in a declaration: at most one. -/
def Declaration.textureForms : Declaration → List TextureForm
  | texture form => [form]
  | _ => []

/-- The declarations of textures in a line. -/
def textureFormsOfLine (line : Text) : List TextureForm :=
  (Declaration.ofLine? line).elim [] Declaration.textureForms

/-- The declarations of textures in a stage. -/
def textureForms (code : Text) : List TextureForm :=
  (Text.lines code).flatMap textureFormsOfLine

/-- The values that were recognised in pieces of a text. -/
def Piece.values {α : Type} (pieces : List (Piece α)) : List α :=
  pieces.flatMap fun
    | plain _ => []
    | found _ a => [a]

/-- The declarations of samplers in a stage. -/
def samplerForms (code : Text) : List SamplerForm :=
  Piece.values (Piece.ofText (fun _ => SamplerForm.pattern) code)

/-- The declarations of buffers in a stage. -/
def bufferForms (code : Text) : List BufferForm :=
  Piece.values (Piece.ofText (fun _ => BufferForm.pattern) code)

namespace Resources.Event

/-- The steps for the textures of a stage. -/
def ofTextures (stage : Stage) (code : Text) : List Event :=
  (textureForms code).map fun form => texture stage form.name

/-- The steps for the samplers of a stage. -/
def ofSamplers (stage : Stage) (code : Text) : List Event :=
  (samplerForms code).flatMap fun form => [mark form.name, sampler stage form.name]

/-- The steps for the buffers of a stage. -/
def ofBuffers (stage : Stage) (code : Text) : List Event :=
  (bufferForms code).map (buffer stage)

end Resources.Event

/-- The steps for both stages, one after the other. -/
def StageTexts.events (g : Stage → Text → List Resources.Event) (texts : StageTexts) :
    List Resources.Event :=
  g .vertex texts.vertex ++ g .fragment texts.fragment

/-- The two stages of a shader pair as they are gone through for declarations. -/
def SourcePair.prepared (source : SourcePair) (mode : Mode) : StageTexts :=
  ⟨prepare mode source.vertex, prepare mode source.fragment⟩

/-- The steps of the leftover buffer: it is seen from both stages. -/
def LeftOver.events : List Resources.Event := [.buffer .vertex form, .buffer .fragment form]

/-! ### Contexts -/

/-- A buffer that is not registered yet is registered by its struct if the engine knows it. -/
theorem BufferForm.key_of_find?_eq_none
    {form : BufferForm} {buffers : OrderedMap Text Buffer}
    (h : buffers.find? (form.key buffers) = none) :
  form.key buffers = if form.isEngineBuffer then form.struct else form.name
  := by
  rw [key] at *
  split at h
  next hname =>
    rw [OrderedMap.contains, h] at hname
    cases hname
  next hname => rw [if_neg hname]

/-- A context with another first free slot. -/
def Context.withFree (c : Context) (free : Slot) : Context :=
  c.withResources { c.resources with free := free }

open Resources (Event Step Steps)

namespace Compile

variable {c : Context}

/-! ### Searches for slots -/

/-- A search for a slot finds one, or there is none left. -/
theorem takeSlot_cases (c : Context) :
  ∃ free,
    (∃ s, Slot.Handed c.limits c.resources.free [s] free ∧
      takeSlot c = ⟨.ok s, [], [s], c.withFree free⟩) ∨
    (Slot.Handed c.limits c.resources.free [] free ∧ Slot.Exhausted c.limits free ∧
      takeSlot c = ⟨.error (noSlot c.limits), [], [], c.withFree free⟩)
  := by
  cases htake : Slot.take c.limits c.resources.free with
  | mk found free =>
    use free
    cases found with
    | some s =>
      left
      use s, Slot.Handed.took htake (Slot.Handed.refl _)
      simp only [takeSlot, htake]
      rfl
    | none =>
      right
      obtain ⟨rfl, hfull⟩ := Slot.take_none htake
      use Slot.Handed.missed htake (Slot.Handed.refl _), hfull.normalize
      simp only [takeSlot, htake]
      rfl

/-- A search for many slots finds all of them, or there is none left. -/
theorem takeSlots_cases (count : Nat) (c : Context) :
  ∃ ss free, Slot.Handed c.limits c.resources.free ss free ∧
    (ss.length = count ∧
      takeSlots count c = ⟨.ok ss, [], ss, c.withFree free⟩ ∨
    Slot.Exhausted c.limits free ∧
      takeSlots count c
        = ⟨.error (noSlot c.limits), [], ss, c.withFree free⟩)
  := by
  obtain ⟨hhanded, hfull⟩ := Slot.handed_takeMany c.limits count c.resources.free
  refine ⟨_, _, hhanded, ?_⟩
  by_cases hlength : (Slot.takeMany c.limits count c.resources.free).1.length = count
  · left
    use hlength
    simp only [takeSlots, if_pos hlength]
    rfl
  · right
    use hfull hlength
    simp only [takeSlots, if_neg hlength]
    rfl

theorem does_takeSlot (c : Context) :
  Does takeSlot c fun _ es => es = [.search]
  := by
  obtain ⟨free, ⟨s, hfree, heq⟩ | ⟨hfree, hfull, heq⟩⟩ := takeSlot_cases c
  · apply does_of_eq heq (Step.search hfree).steps
    · rintro _ ⟨⟩
      rfl
    · rintro _ ⟨⟩
  · apply does_of_eq heq (Step.search hfree).steps
    · rintro _ ⟨⟩
    · rintro _ ⟨⟩
      exact ⟨rfl, hfull⟩

/-- A program ends with a search for a slot that finds none. -/
theorem does_bind_of_noSlot
    {α β : Type} {x : Compile α} {f : α → Compile β} {ss : List Slot} {free : Slot}
    {P : β → List Event → Prop}
    (hx : x c = ⟨.error (noSlot c.limits), [], ss, c.withFree free⟩)
    (hfree : Slot.Handed c.limits c.resources.free ss free)
    (hfull : Slot.Exhausted c.limits free) :
  Does (x >>= f) c P
  := by
  have hbind := bind_of_error (f := f) (x := x) (c := c) (by rw [hx])
  rw [hx] at hbind
  apply does_of_eq hbind (Step.search hfree).steps
  · rintro _ ⟨⟩
  · rintro _ ⟨⟩
    exact ⟨rfl, hfull⟩

/-! ### Textures -/

theorem describeElements_apply
    (name : Text) (isArray : Bool) (resource : Resource) (stage : Stage) (number : Nat)
    (slots : List Slot) (c : Context) :
  describeElements name isArray resource stage number slots c
    = ⟨.ok (), [], [], c.withResources { c.resources with
        layout := c.resources.layout.describeElements name isArray resource stage number slots }⟩
  := by
  induction slots generalizing number c with
  | nil => rfl
  | cons slot slots ih =>
    rw [describeElements]
    apply (bind_of_ok rfl).trans
    rw [ih]
    rfl

/-- The texture registered for a declaration is described with all its elements. -/
theorem enterTexture_of_registered
    {form : TextureForm} {function : TextureFunction} {length : Nat} {t : Texture}
    {ss : List Slot} {r : Resources}
    (h : registeredTexture form function length c = ⟨.ok t, [], ss, c.withResources r⟩)
    (stage : Stage) :
  enterTexture stage form function length c
    = ⟨.ok t.slot, [], ss, c.withResources
        (r.enterTexture form.name { t with sample := function.sample form.component }
          (function.resource form.component) stage)⟩
  := by
  rw [enterTexture, bind_of_ok (a := t) (by rw [h]), h]
  rw [update_bind]
  rw [bind_of_ok (a := ()) (by rw [describeElements_apply])]
  rw [describeElements_apply]
  simp only [pure, List.append_nil]
  rfl

theorem registeredTexture_of_find?_eq_some
    {form : TextureForm} {t : Texture} (ht : c.resources.textures.find? form.name = some t)
    (function : TextureFunction) (length : Nat) :
  registeredTexture form function length c = ⟨.ok t, [], [], c.withResources c.resources⟩
  := by
  rw [registeredTexture, context_bind, ht]
  rfl

/-- A texture that is seen for the first time takes slots, unless they run out. -/
theorem registeredTexture_of_find?_eq_none
    {form : TextureForm} (hnew : c.resources.textures.find? form.name = none)
    (function : TextureFunction) (length : Nat) :
  ∃ ss free, Slot.Handed c.limits c.resources.free ss free ∧
    ((∃ slot others, ss = slot :: others ∧ others.length = length - 1 ∧
      registeredTexture form function length c
        = ⟨.ok ⟨slot, others, length > 0, function.isStorage, .float, false⟩, [], ss,
            c.withFree free⟩) ∨
    Slot.Exhausted c.limits free ∧
      registeredTexture form function length c
        = ⟨.error (noSlot c.limits), [], ss, c.withFree free⟩)
  := by
  rw [registeredTexture, context_bind, hnew]
  dsimp only
  obtain ⟨free, ⟨slot, hfree, heq⟩ | ⟨hfree, hfull, heq⟩⟩ := takeSlot_cases c
  · obtain ⟨others, free', hfree', hcases⟩ :=
      takeSlots_cases (length - 1) (c.withFree free)
    use slot :: others, free', hfree.trans hfree'
    obtain ⟨hlength, heq'⟩ | ⟨hfull, heq'⟩ := hcases
    · left
      use slot, others, rfl, hlength
      rw [bind_of_ok (a := slot) (by rw [heq]), heq]
      rw [bind_of_ok (a := others) (by rw [heq']), heq']
      simp only [pure, List.append_nil]
      rfl
    · right
      use hfull
      rw [bind_of_ok (a := slot) (by rw [heq]), heq]
      rw [bind_of_error (by rw [heq']), heq']
      rfl
  · use [], free, hfree
    right
    use hfull
    rw [bind_of_error (by rw [heq]), heq]

theorem does_enterTexture
    (stage : Stage) (form : TextureForm) (function : TextureFunction) (length : Nat)
    (c : Context) :
  Does (enterTexture stage form function length) c fun _ es =>
    es = [.texture stage form.name]
  := by
  cases hfind : c.resources.textures.find? form.name with
  | some t =>
    have heq := registeredTexture_of_find?_eq_some hfind function length
    apply does_of_eq (enterTexture_of_registered heq stage)
    · apply (Step.seenTexture function form.component stage hfind).steps
    · rintro _ -
      rfl
    · rintro _ ⟨⟩
  | none =>
    obtain ⟨ss, free, hfree, hcases⟩ :=
      registeredTexture_of_find?_eq_none hfind function length
    obtain ⟨slot, others, rfl, hlength, heq⟩ | ⟨hfull, heq⟩ := hcases
    · apply does_of_eq (enterTexture_of_registered heq stage)
      · have hcount : (slot :: others).length = max 1 length := by
          rw [List.length_cons]
          omega
        let t : Texture := ⟨slot, others, length > 0, function.isStorage,
          function.sample form.component, false⟩
        exact (Step.newTexture (t := t) stage hfind hfree hcount rfl rfl rfl rfl).steps
      · rintro _ -
        rfl
      · rintro _ ⟨⟩
    · apply does_bind_of_noSlot heq hfree hfull

theorem does_declareTexture
    (constants : OrderedMap Text Text) (stage : Stage) (line : Text) (form : TextureForm)
    (c : Context) :
  Does (declareTexture constants stage line form) c fun _ es =>
    es = [.texture stage form.name]
  := by
  rw [declareTexture]
  split
  · apply does_fail
    rintro _ _ ⟨⟩
  · apply (quiet_textureLength constants form).bind_does
    intro length
    apply does_enterTexture

/-! ### Lines -/

theorem does_declare
    (constants : OrderedMap Text Text) (stage : Stage) (line : Text) (d : Declaration)
    (c : Context) :
  Does (declare constants stage line d) c fun _ es =>
    es = d.textureForms.map fun form => .texture stage form.name
  := by
  match d with
  | .attribute form =>
    apply (quiet_declareAttribute constants form).bind_does
    intro _
    exact does_pure rfl
  | .varying form =>
    cases stage with
    | vertex =>
      apply (quiet_declareVarying constants form).bind_does
      intro _
      exact does_pure rfl
    | fragment =>
      apply (quiet_checkVarying form).bind_does
      intro _
      exact does_pure rfl
  | .uniform form =>
    apply (quiet_declareUniform constants form).bind_does
    intro _
    exact does_pure rfl
  | .texture form =>
    apply Does.bind_pure
    apply does_declareTexture

theorem does_declareIf
    (constants : OrderedMap Text Text) (stage : Stage) (line : Text) (d : Option Declaration)
    (c : Context) :
  Does (declareIf constants stage line d) c fun _ es =>
    es = (d.elim [] Declaration.textureForms).map fun form => .texture stage form.name
  := by
  cases d with
  | none => exact does_pure rfl
  | some d =>
    apply Does.bind_pure
    apply does_declare

theorem processLine_of_none
    {constants : OrderedMap Text Text} {stage : Stage} {line : Text}
    (h : Declaration.ofLine? line = none) :
  processLine constants stage line = pure line
  := by
  rw [processLine, h]
  rfl

theorem processLine_of_some
    {constants : OrderedMap Text Text} {stage : Stage} {line : Text} {d : Declaration}
    (h : Declaration.ofLine? line = some d) :
  processLine constants stage line = declare constants stage line d
  := by
  rw [processLine, h, declareIf, bind_assoc]
  apply bind_pure

theorem does_processLine
    (constants : OrderedMap Text Text) (stage : Stage) (line : Text) (c : Context) :
  Does (processLine constants stage line) c fun _ es =>
    es = (textureFormsOfLine line).map fun form => .texture stage form.name
  := by
  apply Does.bind_pure
  apply does_declareIf

/-- A stage takes one step for each of its declarations of textures. -/
theorem does_processStage
    (constants : OrderedMap Text Text) (stage : Stage) (code : Text) (c : Context) :
  Does (processStage constants stage code) c fun _ es => es = Event.ofTextures stage code
  := by
  apply Does.bind_pure
  rw [Event.ofTextures, textureForms, List.map_flatMap]
  apply does_each
  intro line _ c
  apply does_processLine

/-! ### Samplers -/

theorem markAutoSampler_apply (sampler : Text) (c : Context) :
  markAutoSampler sampler c
    = ⟨.ok (), [], [], c.withResources (c.resources.markAutoSampler sampler)⟩
  := by
  cases hname : SamplerForm.textureName? sampler with
  | none =>
    simp only [markAutoSampler, Resources.markAutoSampler, update, hname]
    rfl
  | some name =>
    cases hfind : c.resources.textures.find? name <;>
    · simp only [markAutoSampler, Resources.markAutoSampler, update, hname, hfind]
      rfl

theorem does_markAutoSampler (sampler : Text) (c : Context) :
  Does (markAutoSampler sampler) c fun _ es => es = [.mark sampler]
  := by
  apply does_of_eq (markAutoSampler_apply sampler c) (Step.mark sampler).steps
  · rintro _ -
    rfl
  · rintro _ ⟨⟩

/-- The sampler registered for a declaration is described. -/
theorem enterSampler_of_registered
    {form : SamplerForm} {s : Sampler} {ss : List Slot} {r : Resources}
    (h : registeredSampler form c = ⟨.ok s, [], ss, c.withResources r⟩) (stage : Stage) :
  (do
    let s ← registeredSampler form
    describe s.slot form.name none (.sampler s.kind) stage
    return s.slot) c
    = ⟨.ok s.slot, [], ss, c.withResources { r with
        layout := r.layout.describe s.slot form.name none (.sampler s.kind) stage }⟩
  := by
  rw [bind_of_ok (a := s) (by rw [h]), h]
  rw [describe, update_bind]
  simp only [pure, List.append_nil]
  rfl

theorem registeredSampler_of_find?_eq_some
    {form : SamplerForm} {s : Sampler} (hs : c.resources.samplers.find? form.name = some s) :
  registeredSampler form c = ⟨.ok s, [], [], c.withResources c.resources⟩
  := by
  rw [registeredSampler, context_bind, hs]
  rfl

theorem registeredSampler_of_find?_eq_none
    {form : SamplerForm} (hnew : c.resources.samplers.find? form.name = none) :
  ∃ free,
    (∃ slot, Slot.Handed c.limits c.resources.free [slot] free ∧
      registeredSampler form c
        = ⟨.ok ⟨slot, form.kind⟩, [], [slot], c.withResources { c.resources with
            free := free
            samplers := c.resources.samplers.insert form.name ⟨slot, form.kind⟩ }⟩) ∨
    (Slot.Handed c.limits c.resources.free [] free ∧ Slot.Exhausted c.limits free ∧
      registeredSampler form c = ⟨.error (noSlot c.limits), [], [], c.withFree free⟩)
  := by
  rw [registeredSampler, context_bind, hnew]
  dsimp only
  obtain ⟨free, ⟨slot, hfree, heq⟩ | ⟨hfree, hfull, heq⟩⟩ := takeSlot_cases c
  · use free
    left
    use slot, hfree
    rw [bind_of_ok (a := slot) (by rw [heq]), heq]
    rw [update_bind]
    rfl
  · use free
    right
    use hfree, hfull
    rw [bind_of_error (by rw [heq]), heq]

theorem does_enterSampler (stage : Stage) (form : SamplerForm) (c : Context) :
  Does (do
    let s ← registeredSampler form
    describe s.slot form.name none (.sampler s.kind) stage
    return s.slot) c fun _ es => es = [.sampler stage form.name]
  := by
  cases hfind : c.resources.samplers.find? form.name with
  | some s =>
    have hregistered := registeredSampler_of_find?_eq_some hfind
    apply does_of_eq (enterSampler_of_registered hregistered stage)
    · rw [← Resources.enterSampler_of_find? hfind]
      apply (Step.seenSampler stage hfind).steps
    · rintro _ -
      rfl
    · rintro _ ⟨⟩
  | none =>
    obtain ⟨free, ⟨slot, hfree, heq⟩ | ⟨hfree, hfull, heq⟩⟩ :=
      registeredSampler_of_find?_eq_none hfind
    · apply does_of_eq (enterSampler_of_registered heq stage)
      · exact (Step.newSampler (s := ⟨slot, form.kind⟩) stage hfind hfree).steps
      · rintro _ -
        rfl
      · rintro _ ⟨⟩
    · apply does_bind_of_noSlot heq hfree hfull

theorem does_declareSampler (stage : Stage) (form : SamplerForm) (c : Context) :
  Does (declareSampler stage form) c fun _ es =>
    es = [.mark form.name, .sampler stage form.name]
  := by
  apply (does_markAutoSampler form.name c).bind
  rintro _ es - rfl
  apply (does_enterSampler stage form _).mono
  rintro _ es rfl
  rfl

/-! ### Buffers -/

/-- A buffer that is not registered yet gets the slot reserved for it, or else a new one. -/
theorem bufferSlot_cases
    {form : BufferForm} (hnew : c.resources.buffers.find? (form.key c.resources.buffers) = none) :
  bufferSlot form c = takeSlot c ∨
  ∃ slot, c.mode.reservedSlot? (form.key c.resources.buffers) = some slot ∧
    bufferSlot form c = ⟨.ok slot, [], [], c.withResources c.resources⟩
  := by
  rw [bufferSlot, context_bind, BufferForm.key_of_find?_eq_none hnew]
  cases form.isEngineBuffer with
  | false =>
    left
    rfl
  | true =>
    cases hslot : c.mode.reservedSlot? form.struct with
    | none =>
      left
      simp only [if_true]
    | some slot =>
      right
      use slot, hslot
      simp only [if_true]
      rfl

theorem registeredBuffer_of_find?_eq_some
    {key : Text} {b : Buffer} (hb : c.resources.buffers.find? key = some b) (form : BufferForm) :
  registeredBuffer key form c = ⟨.ok b, [], [], c.withResources c.resources⟩
  := by
  rw [registeredBuffer, context_bind, hb]
  rfl

/-- A buffer that has got a slot is registered. -/
theorem registeredBuffer_of_bufferSlot
    {form : BufferForm} {key : Text} {slot : Slot} {ss : List Slot} {r : Resources}
    (hnew : c.resources.buffers.find? key = none)
    (heq : bufferSlot form c = ⟨.ok slot, [], ss, c.withResources r⟩) :
  registeredBuffer key form c
    = ⟨.ok ⟨slot, form.kind⟩, [], ss, c.withResources
        { r with buffers := r.buffers.insert key ⟨slot, form.kind⟩ }⟩
  := by
  rw [registeredBuffer, context_bind, hnew]
  dsimp only
  rw [bind_of_ok (a := slot) (by rw [heq]), heq]
  rw [update_bind]
  simp only [pure, List.append_nil]
  rfl

/-- The buffer registered for a declaration is described. -/
theorem declareBuffer_of_registered
    {form : BufferForm} {b : Buffer} {ss : List Slot} {r : Resources}
    (h : registeredBuffer (form.key c.resources.buffers) form c
      = ⟨.ok b, [], ss, c.withResources r⟩) (stage : Stage) :
  declareBuffer stage form c
    = ⟨.ok b.slot, [], ss, c.withResources { r with
        layout := r.layout.describe b.slot (form.key c.resources.buffers) none
          (.buffer form.kind) stage }⟩
  := by
  rw [declareBuffer, context_bind]
  rw [bind_of_ok (a := b) (by rw [h]), h]
  rw [describe, update_bind]
  simp only [pure, List.append_nil]
  rfl

theorem does_declareBuffer (stage : Stage) (form : BufferForm) (c : Context) :
  Does (declareBuffer stage form) c fun _ es => es = [.buffer stage form]
  := by
  cases hfind : c.resources.buffers.find? (form.key c.resources.buffers) with
  | some b =>
    have hregistered := registeredBuffer_of_find?_eq_some hfind form
    apply does_of_eq (declareBuffer_of_registered hregistered stage)
    · rw [← Resources.enterBuffer_of_find? hfind]
      apply (Step.seenBuffer stage hfind).steps
    · rintro _ -
      rfl
    · rintro _ ⟨⟩
  | none =>
    obtain hslot | ⟨slot, hreserved, hslot⟩ := bufferSlot_cases hfind
    · obtain ⟨free, ⟨slot, hfree, heq⟩ | ⟨hfree, hfull, heq⟩⟩ := takeSlot_cases c
      · have hregistered := registeredBuffer_of_bufferSlot hfind (hslot.trans heq)
        apply does_of_eq (declareBuffer_of_registered hregistered stage)
        · exact (Step.newBuffer stage hfind hfree).steps
        · rintro _ -
          rfl
        · rintro _ ⟨⟩
      · rw [declareBuffer]
        apply Does.congr _ (context_bind _ c)
        dsimp only
        apply does_bind_of_noSlot _ hfree hfull
        rw [registeredBuffer, context_bind, hfind]
        dsimp only
        rw [bind_of_error (by rw [hslot.trans heq]), hslot.trans heq]
    · have hregistered := registeredBuffer_of_bufferSlot hfind hslot
      apply does_of_eq (declareBuffer_of_registered hregistered stage)
      · exact (Step.reservedBuffer stage hfind hreserved).steps
      · rintro _ -
        rfl
      · rintro _ ⟨⟩

/-! ### Stages -/

theorem does_annotateEach
    {α : Type} {f : α → Compile Slot} {g : α → List Event} (pieces : List (Piece α))
    (hf : ∀ a c, Does (f a) c fun _ es => es = g a) (c : Context) :
  Does (annotateEach f pieces) c fun _ es => es = (Piece.values pieces).flatMap g
  := by
  apply Does.bind_pure
  rw [Piece.values, List.flatMap_assoc]
  apply does_each
  rintro piece - c
  cases piece with
  | plain _ => exact does_pure rfl
  | found _ a =>
    apply Does.bind_pure
    apply (hf a c).mono
    rintro _ es rfl
    simp

/-- The samplers of a stage take two steps each. -/
theorem does_annotateSamplers (stage : Stage) (code : Text) (c : Context) :
  Does (annotateSamplers stage code) c fun _ es => es = Event.ofSamplers stage code
  := does_annotateEach _ (does_declareSampler stage) c

/-- The buffers of a stage take one step each. -/
theorem does_annotateBuffers (stage : Stage) (code : Text) (c : Context) :
  Does (annotateBuffers stage code) c fun _ es => es = Event.ofBuffers stage code
  := by
  rw [Event.ofBuffers, List.map_eq_flatMap]
  apply does_annotateEach _ (does_declareBuffer stage) c

end Compile

/-! ### The leftover buffer -/

/-- The leftover buffer has its own name for a key. -/
theorem LeftOver.key_form (buffers : OrderedMap Text Buffer) :
  form.key buffers = name
  := by
  have hengine : form.isEngineBuffer = false := by decide +kernel
  rw [BufferForm.key, hengine]
  split <;> rfl

namespace Resources

/-- The leftover buffer at a slot, as seen from the vertex stage. -/
def enterLeftOver (slot free : Slot) (r : Resources) : Resources :=
  { r with free := free }.enterBuffer LeftOver.name ⟨slot, .uniform⟩ .uniform .vertex

/-- The steps in which the leftover buffer is registered and described. -/
theorem steps_leftOver
    {mode : Mode} {limits : Limits} {r : Resources} {slot free : Slot}
    (hnew : r.buffers.find? LeftOver.name = none)
    (hfree : Slot.Handed limits r.free [slot] free) :
  Steps mode limits LeftOver.events r [slot]
    ((enterLeftOver slot free r).enterBuffer LeftOver.name ⟨slot, .uniform⟩ .uniform .fragment)
  := by
  have hnew' : r.buffers.find? (LeftOver.form.key r.buffers) = none := by
    rw [LeftOver.key_form, hnew]
  have hseen : (enterLeftOver slot free r).buffers.find?
      (LeftOver.form.key (enterLeftOver slot free r).buffers) = some ⟨slot, .uniform⟩ := by
    rw [LeftOver.key_form]
    apply OrderedMap.find?_insert_self
  have hvertex : Step mode limits _ _ _ _ := Step.newBuffer .vertex hnew' hfree
  have hfragment : Step mode limits _ _ _ _ := Step.seenBuffer .fragment hseen
  rw [LeftOver.key_form] at hvertex hfragment
  apply Steps.cons hvertex hfragment.steps

end Resources

namespace Compile

variable {c : Context}

/-- The leftover buffer that has got a slot is described in both stages. -/
theorem leftOverSlot_of_takeSlot
    {slot free : Slot} (hnew : c.resources.buffers.find? LeftOver.name = none)
    (heq : takeSlot c = ⟨.ok slot, [], [slot], c.withFree free⟩) :
  leftOverSlot c
    = ⟨.ok slot, [], [slot], c.withResources { c.resources.enterLeftOver slot free with
        layout := (c.resources.enterLeftOver slot free).layout.describe slot LeftOver.name none
          (.buffer .uniform) .fragment }⟩
  := by
  rw [leftOverSlot, context_bind, hnew]
  dsimp only
  rw [bind_of_ok (a := slot) (by rw [heq]), heq]
  rw [update_bind, describe, update_bind, describe, update_bind]
  rfl

/-- The leftover buffer takes two steps when it is first built. -/
theorem does_leftOverSlot (c : Context) :
  Does leftOverSlot c fun _ es => es = [] ∨ es = LeftOver.events
  := by
  cases hfind : c.resources.buffers.find? LeftOver.name with
  | some b =>
    apply Does.congr _ (context_bind _ c)
    rw [hfind]
    apply does_pure
    left
    rfl
  | none =>
    obtain ⟨free, ⟨slot, hfree, heq⟩ | ⟨hfree, hfull, heq⟩⟩ := takeSlot_cases c
    · have hseen : (c.resources.enterLeftOver slot free).buffers.find? LeftOver.name
          = some ⟨slot, .uniform⟩ := by
        apply OrderedMap.find?_insert_self
      apply does_of_eq (leftOverSlot_of_takeSlot hfind heq)
      · rw [← Resources.enterBuffer_of_find? hseen]
        apply Resources.steps_leftOver hfind hfree
      · rintro _ -
        right
        rfl
      · rintro _ ⟨⟩
    · apply Does.congr _ (context_bind _ c)
      rw [hfind]
      apply does_bind_of_noSlot heq hfree hfull

theorem does_buildLeftOver (c : Context) :
  Does buildLeftOver c fun _ es => es = [] ∨ es = LeftOver.events
  := by
  apply Does.congr _ (context_bind _ c)
  split
  · apply does_pure
    left
    rfl
  · apply (does_leftOverSlot c).bind
    intro slot es _ hes
    apply Quiet.bind_does
    · apply quiet_update
      intro c
      exact ⟨rfl, rfl, rfl⟩
    · intro _
      apply does_pure
      rw [List.append_nil]
      apply hes

/-! ### Shader pairs -/

theorem does_bothStages
    {f : Stage → Text → Compile Text} {g : Stage → Text → List Event}
    (hf : ∀ stage code c, Does (f stage code) c fun _ es => es = g stage code)
    (texts : StageTexts) (c : Context) :
  Does (bothStages f texts) c fun _ es => es = texts.events g
  := by
  apply (hf .vertex texts.vertex c).bind
  rintro vertex es - rfl
  apply Does.bind_pure
  apply (hf .fragment texts.fragment _).mono
  rintro fragment es rfl
  rfl

/-- The lines of a shader pair take one step for each declaration of a texture. -/
theorem does_declareStages (source : SourcePair) (c : Context) :
  Does (declareStages source) c fun _ es =>
    es = (source.prepared c.mode).events Event.ofTextures
  := by
  apply Quiet.bind_does
  · apply quiet_update
    intro c
    exact ⟨rfl, rfl, rfl⟩
  intro _
  apply Quiet.bind_does
  · apply quiet_update
    intro c
    exact ⟨rfl, rfl, rfl⟩
  intro _
  apply Does.congr _ (context_bind _ _)
  apply Does.bind_pure
  apply does_bothStages (does_processStage source.outerDefines)

/-- A finished pair takes the steps of its samplers, of its buffers and of the leftover
buffer. -/
theorem does_finish (texts : StageTexts) (c : Context) :
  Does (finish texts) c fun _ es =>
    ∃ sampled leftOver, (bothStages annotateSamplers texts c).result = .ok sampled ∧
      (leftOver = [] ∨ leftOver = LeftOver.events) ∧
      es = texts.events Event.ofSamplers ++ (sampled.events Event.ofBuffers ++ leftOver)
  := by
  apply (does_bothStages does_annotateSamplers texts c).bind
  rintro sampled es hsampled rfl
  apply (does_bothStages does_annotateBuffers sampled _).bind
  rintro annotated es - rfl
  apply (does_buildLeftOver _).bind
  rintro text leftOver - hleftOver
  apply quiet_context.bind_does
  intro c'
  apply Quiet.bind_does
  · apply quiet_update
    intro c
    exact ⟨rfl, rfl, rfl⟩
  · intro _
    apply does_pure
    rw [List.append_nil]
    exact ⟨sampled, leftOver, hsampled, hleftOver, rfl⟩

/-- A compiled pair takes the steps of its textures, of its samplers, of its buffers and of the
leftover buffer. -/
theorem does_pair (source : SourcePair) (c : Context) :
  Does (pair source) c fun _ es =>
    ∃ declared sampled leftOver,
      (declareStages source c).result = .ok declared ∧
      ((declareStages source >>= bothStages annotateSamplers) c).result = .ok sampled ∧
      (leftOver = [] ∨ leftOver = LeftOver.events) ∧
      es = (source.prepared c.mode).events Event.ofTextures
        ++ (declared.events Event.ofSamplers ++ (sampled.events Event.ofBuffers ++ leftOver))
  := by
  apply (does_declareStages source c).bind
  rintro declared es hdeclared rfl
  apply (does_finish declared _).mono
  rintro texts es ⟨sampled, leftOver, hsampled, hleftOver, rfl⟩
  refine ⟨declared, sampled, leftOver, hdeclared, ?_, hleftOver, rfl⟩
  rw [bind_of_ok hdeclared]
  apply hsampled

/-! ### Settings that are asked for -/

theorem noteSettings_apply (mode : Mode) (bindingsPerGroup : Int) (c : Context) :
  noteSettings mode bindingsPerGroup c
    = ⟨if mode = c.mode ∧ bindingsPerGroup = c.limits.bindingsPerGroup ∨
            Text.isWritable c.limits.bindingsPerGroup then .ok ()
        else .error .unwritableNumber, [], [], c⟩
  := by
  rw [noteSettings, context_bind]
  by_cases heq : mode = c.mode ∧ bindingsPerGroup = c.limits.bindingsPerGroup
  · rw [if_pos heq, if_pos (Or.inl heq)]
    rfl
  · rw [if_neg heq, write_apply]
    simp only [heq, false_or, List.all_cons, List.all_nil, Bool.and_true]

theorem quiet_noteSettings (mode : Mode) (bindingsPerGroup : Int) :
  Quiet (noteSettings mode bindingsPerGroup)
  := by
  apply quiet_context.bind
  intro c
  split
  · apply quiet_pure
  · apply quiet_write

/-- Whatever settings are asked for, a pair is compiled as the context says, unless the number of
bindings in a group is too long for the note. -/
theorem pairAs_apply
    (mode : Mode) (bindingsPerGroup : Int) (source : SourcePair) (c : Context) :
  pairAs mode bindingsPerGroup source c
    = if mode = c.mode ∧ bindingsPerGroup = c.limits.bindingsPerGroup ∨
          Text.isWritable c.limits.bindingsPerGroup then pair source c
      else ⟨.error .unwritableNumber, [], [], c⟩
  := by
  have hnote := noteSettings_apply mode bindingsPerGroup c
  rw [pairAs]
  split
  next h =>
    rw [if_pos h] at hnote
    rw [bind_of_ok (a := ()) (by rw [hnote]), hnote]
    simp only [List.nil_append]
  next h =>
    rw [if_neg h] at hnote
    rw [bind_of_error (by rw [hnote]), hnote]

end Compile

end ShaderPair
