import ShaderPair.Binding
import ShaderPair.Declare
import ShaderPair.LeftOver
import ShaderPair.Proofs.SlotOrder
import Mathlib.Data.List.Forall2

/-!
# What happens to resources

All that ever happens to the resources of a context is a sequence of few kinds of steps: a
search for slots, a sampler that is found to be bound to a texture, and the sight of a texture,
a sampler or a buffer, which is either new, and then takes slots, or known from before.
`Resources.Step` says what one such step does and which slots it hands out, `Resources.Steps`
does so for many.  The `Resources.Event` of a step tells which declaration it comes from.
-/

namespace ShaderPair

namespace Layout

/-- The description of the elements of a texture, from the one with the given number on. -/
def describeElements (name : Text) (isArray : Bool) (resource : Resource) (stage : Stage) :
    (number : Nat) → List Slot → Layout → Layout
  | _, [], layout => layout
  | number, slot :: slots, layout =>
    let elementName := if isArray then name ++ Text.ofNat number else name
    describeElements name isArray resource stage (number + 1) slots
      (layout.describe slot name (some elementName) resource stage)

end Layout

/-- The declaration that stands for the leftover buffer: a uniform buffer of its name. -/
def LeftOver.form : BufferForm := ⟨.uniform, none, LeftOver.name, LeftOver.name⟩

namespace Resources

/-! ### Entering resources -/

/-- Registers a texture and describes its elements as seen from a stage. -/
def enterTexture (name : Text) (t : Texture) (resource : Resource) (stage : Stage)
    (r : Resources) : Resources :=
  { r with
    textures := r.textures.insert name t
    layout := r.layout.describeElements name t.isArray resource stage 0 t.slots }

/-- Registers a sampler and describes it as seen from a stage. -/
def enterSampler (name : Text) (s : Sampler) (stage : Stage) (r : Resources) : Resources :=
  { r with
    samplers := r.samplers.insert name s
    layout := r.layout.describe s.slot name none (.sampler s.kind) stage }

/-- A sampler that is registered already is only described. -/
theorem enterSampler_of_find?
    {r : Resources} {name : Text} {s : Sampler} (h : r.samplers.find? name = some s)
    (stage : Stage) :
  r.enterSampler name s stage
    = { r with layout := r.layout.describe s.slot name none (.sampler s.kind) stage }
  := by
  rw [enterSampler, OrderedMap.insert_of_find? h]

/-- Registers a buffer and describes it as seen from a stage, in which it is used in some
way. -/
def enterBuffer (key : Text) (b : Buffer) (kind : BufferKind) (stage : Stage) (r : Resources) :
    Resources :=
  { r with
    buffers := r.buffers.insert key b
    layout := r.layout.describe b.slot key none (.buffer kind) stage }

/-- A buffer that is registered already is only described. -/
theorem enterBuffer_of_find?
    {r : Resources} {key : Text} {b : Buffer} (h : r.buffers.find? key = some b)
    (kind : BufferKind) (stage : Stage) :
  r.enterBuffer key b kind stage
    = { r with layout := r.layout.describe b.slot key none (.buffer kind) stage }
  := by
  rw [enterBuffer, OrderedMap.insert_of_find? h]

/-- Notes that the texture to which a sampler is bound by its name has such a sampler. -/
def markAutoSampler (sampler : Text) (r : Resources) : Resources :=
  match SamplerForm.textureName? sampler with
  | none => r
  | some name =>
    match r.textures.find? name with
    | none => r
    | some t => { r with textures := r.textures.insert name { t with autoSampler := true } }

/-- At most one texture is changed, and only in that it has a sampler bound to it. -/
theorem markAutoSampler_cases (sampler : Text) (r : Resources) :
  r.markAutoSampler sampler = r ∨
    ∃ name t, r.textures.find? name = some t ∧
      r.markAutoSampler sampler
        = { r with textures := r.textures.insert name { t with autoSampler := true } }
  := by
  rw [markAutoSampler]
  split
  · left
    rfl
  next name _ =>
    split
    · left
      rfl
    next t ht =>
      right
      exact ⟨name, t, ht, rfl⟩

/-! ### Steps -/

/-- Where a step comes from. -/
inductive Event where
  /-- A search for slots for nobody, or for someone who does not get enough of them. -/
  | search
  /-- The name of a sampler, which may bind it to a texture. -/
  | mark (sampler : Text)
  /-- The declaration of a texture in a stage. -/
  | texture (stage : Stage) (name : Text)
  /-- The declaration of a sampler in a stage. -/
  | sampler (stage : Stage) (name : Text)
  /-- The declaration of a buffer in a stage. -/
  | buffer (stage : Stage) (form : BufferForm)

/-- One step, with the slots that it hands out. -/
inductive Step (mode : Mode) (limits : Limits) :
    Event → Resources → List Slot → Resources → Prop
  | search {r : Resources} {ss : List Slot} {free : Slot} :
    Slot.Handed limits r.free ss free → Step mode limits .search r ss { r with free := free }
  | mark {r : Resources} (sampler : Text) :
    Step mode limits (.mark sampler) r [] (r.markAutoSampler sampler)
  | newTexture {r : Resources} {name : Text} {t : Texture} {free : Slot}
      {function : TextureFunction} {component : Option Text} {length : Nat} (stage : Stage) :
    r.textures.find? name = none → Slot.Handed limits r.free t.slots free →
      t.slots.length = max 1 length → t.isArray = decide (0 < length) →
      t.isStorage = function.isStorage → t.sample = function.sample component →
      t.autoSampler = false →
      Step mode limits (.texture stage name) r t.slots
        ({ r with free := free }.enterTexture name t (function.resource component) stage)
  | seenTexture {r : Resources} {name : Text} {t : Texture} (function : TextureFunction)
      (component : Option Text) (stage : Stage) :
    r.textures.find? name = some t →
      Step mode limits (.texture stage name) r []
        (r.enterTexture name { t with sample := function.sample component }
          (function.resource component) stage)
  | newSampler {r : Resources} {name : Text} {s : Sampler} {free : Slot} (stage : Stage) :
    r.samplers.find? name = none → Slot.Handed limits r.free [s.slot] free →
      Step mode limits (.sampler stage name) r [s.slot]
        ({ r with free := free }.enterSampler name s stage)
  | seenSampler {r : Resources} {name : Text} {s : Sampler} (stage : Stage) :
    r.samplers.find? name = some s →
      Step mode limits (.sampler stage name) r [] (r.enterSampler name s stage)
  | newBuffer {r : Resources} {form : BufferForm} {slot free : Slot} (stage : Stage) :
    r.buffers.find? (form.key r.buffers) = none → Slot.Handed limits r.free [slot] free →
      Step mode limits (.buffer stage form) r [slot]
        ({ r with free := free }.enterBuffer (form.key r.buffers) ⟨slot, form.kind⟩ form.kind
          stage)
  | reservedBuffer {r : Resources} {form : BufferForm} {slot : Slot} (stage : Stage) :
    r.buffers.find? (form.key r.buffers) = none →
      mode.reservedSlot? (form.key r.buffers) = some slot →
      Step mode limits (.buffer stage form) r []
        (r.enterBuffer (form.key r.buffers) ⟨slot, form.kind⟩ form.kind stage)
  | seenBuffer {r : Resources} {form : BufferForm} {b : Buffer} (stage : Stage) :
    r.buffers.find? (form.key r.buffers) = some b →
      Step mode limits (.buffer stage form) r []
        (r.enterBuffer (form.key r.buffers) b form.kind stage)

/-- Steps one after the other, with the slots that they hand out. -/
inductive Steps (mode : Mode) (limits : Limits) :
    List Event → Resources → List Slot → Resources → Prop
  | refl (r : Resources) : Steps mode limits [] r [] r
  | cons {e : Event} {es : List Event} {r r' r'' : Resources} {ss ss' : List Slot} :
    Step mode limits e r ss r' → Steps mode limits es r' ss' r'' →
      Steps mode limits (e :: es) r (ss ++ ss') r''

variable {mode : Mode} {limits : Limits} {e : Event} {es es' : List Event}
  {r r' r'' : Resources} {ss ss' : List Slot}

theorem Step.steps (h : Step mode limits e r ss r') :
  Steps mode limits [e] r ss r'
  := by
  have hsteps := Steps.cons h (Steps.refl r')
  rw [List.append_nil] at hsteps
  apply hsteps

theorem Steps.append (h : Steps mode limits es r ss r') (h' : Steps mode limits es' r' ss' r'') :
  Steps mode limits (es ++ es') r (ss ++ ss') r''
  := by
  induction h with
  | refl => apply h'
  | cons hstep _ ih =>
    rw [List.append_assoc]
    apply Steps.cons hstep (ih h')

/-- A sequence of steps falls apart wherever its events do. -/
theorem Steps.of_append (h : Steps mode limits (es ++ es') r ss r'') :
  ∃ ss₁ r' ss₂, ss = ss₁ ++ ss₂ ∧ Steps mode limits es r ss₁ r' ∧
    Steps mode limits es' r' ss₂ r''
  := by
  induction es generalizing r ss with
  | nil => exact ⟨[], r, ss, rfl, Steps.refl r, h⟩
  | cons e es ih =>
    cases h with
    | cons hstep hrest =>
      obtain ⟨ss₁, r', ss₂, rfl, hes, hes'⟩ := ih hrest
      refine ⟨_, r', ss₂, ?_, Steps.cons hstep hes, hes'⟩
      rw [List.append_assoc]

/-! ### The slots handed out -/

@[simp]
theorem free_markAutoSampler (sampler : Text) :
  (r.markAutoSampler sampler).free = r.free
  := by
  obtain h | ⟨_, _, -, h⟩ := r.markAutoSampler_cases sampler <;> rw [h]

@[simp]
theorem layout_markAutoSampler (sampler : Text) :
  (r.markAutoSampler sampler).layout = r.layout
  := by
  obtain h | ⟨_, _, -, h⟩ := r.markAutoSampler_cases sampler <;> rw [h]

/-- The slots of a step are those that the search for slots hands out. -/
theorem Step.handed (h : Step mode limits e r ss r') :
  Slot.Handed limits r.free ss r'.free
  := by
  cases h with
  | search hfree => apply hfree
  | mark sampler =>
    rw [free_markAutoSampler]
    apply Slot.Handed.refl
  | newTexture _ _ hfree => apply hfree
  | seenTexture => apply Slot.Handed.refl
  | newSampler _ _ hfree => apply hfree
  | seenSampler => apply Slot.Handed.refl
  | newBuffer _ _ hfree => apply hfree
  | reservedBuffer => apply Slot.Handed.refl
  | seenBuffer => apply Slot.Handed.refl

theorem Steps.handed (h : Steps mode limits es r ss r') :
  Slot.Handed limits r.free ss r'.free
  := by
  induction h with
  | refl => apply Slot.Handed.refl
  | cons hstep _ ih => apply hstep.handed.trans ih

/-- What one step of some kinds keeps, many steps of these kinds keep. -/
theorem Steps.preserves_of_forall
    {P : Event → Prop} {Q : Resources → Prop}
    (hQ : ∀ {e r ss r'}, P e → Step mode limits e r ss r' → Q r → Q r')
    (hes : ∀ e ∈ es, P e) (h : Steps mode limits es r ss r') (hr : Q r) :
  Q r'
  := by
  induction h with
  | refl => apply hr
  | cons hstep _ ih =>
    rw [List.forall_mem_cons] at hes
    apply ih hes.2 (hQ hes.1 hstep hr)

/-- What one step keeps, many steps keep. -/
theorem Steps.preserves
    {P : Resources → Prop}
    (hP : ∀ {e r ss r'}, Step mode limits e r ss r' → P r → P r')
    (h : Steps mode limits es r ss r') (hr : P r) :
  P r'
  := by
  apply h.preserves_of_forall (P := fun _ => True) (fun _ => hP) _ hr
  intro _ _
  trivial

/-- A property of resources that every step keeps. -/
def Lasting (P : Resources → Prop) : Prop :=
  ∀ {mode limits e r ss r'}, Step mode limits e r ss r' → P r → P r'

/-- What lasts for each pair of elements lasts for two lists. -/
theorem lasting_forall₂
    {α β : Type} {R : Resources → α → β → Prop} (hR : ∀ a b, Lasting fun r => R r a b)
    (as : List α) (bs : List β) :
  Lasting fun r => List.Forall₂ (R r) as bs
  := by
  intro mode limits e r ss r' hstep
  apply List.Forall₂.imp
  intro a b
  apply hR a b hstep

end Resources

end ShaderPair
