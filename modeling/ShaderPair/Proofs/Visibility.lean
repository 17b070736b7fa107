import ShaderPair.Proofs.Description
import ShaderPair.Proofs.Persistence
import ShaderPair.Proofs.Placement
import ShaderPair.Proofs.SlotDistinctness

/-!
# Which stages see a resource

A description adds one stage to the entries it is about, and nothing else ever changes the stages
of an entry (`Layout.Aligned.sees_describe_iff`).  So in the end an entry is seen exactly from the
stages in which its resource was sighted (`Resources.Steps.sees_iff`).  In a shader pair compiled
in a fresh context these are the stages that declare the resource; the leftover buffer is seen
from both (`visibility_exact`).
-/

namespace ShaderPair

open OrderedMap (addKey)
open Resources (Event Lasting Placed Step Steps)

/-! ### Stages of an entry -/

namespace Visibility

/-- Whether a stage is among those from which a resource is seen. -/
def has (v : Visibility) : Stage → Bool
  | .vertex => v.vertex
  | .fragment => v.fragment

@[simp]
theorem has_add {v : Visibility} {stage stage' : Stage} :
  (v.add stage').has stage ↔ v.has stage ∨ stage = stage'
  := by
  cases stage <;> cases stage' <;> simp [add, has]

@[simp]
theorem not_has_empty (stage : Stage) :
  ({} : Visibility).has stage = false
  := by
  cases stage <;> rfl

/-- A stage that is there is not added. -/
theorem add_eq_self_iff {v : Visibility} {stage : Stage} :
  v.add stage = v ↔ v.has stage
  := by
  constructor
  · intro h
    rw [← h, has_add]
    exact Or.inr rfl
  · intro h
    obtain ⟨vertex, fragment⟩ := v
    cases stage <;> simp_all [add, has]

theorem ext_has {v v' : Visibility} (h : ∀ stage, v.has stage ↔ v'.has stage) :
  v = v'
  := by
  obtain ⟨vertex, fragment⟩ := v
  obtain ⟨vertex', fragment'⟩ := v'
  have hvertex := h .vertex
  have hfragment := h .fragment
  simp only [has, ← Bool.eq_iff_iff] at hvertex hfragment
  rw [hvertex, hfragment]

end Visibility

namespace Layout

variable {layout : Layout} {slot slot' : Slot} {stage stage' : Stage}

theorem sees_iff :
  layout.Sees slot stage ↔
    ∃ i e, layout.find? slot = some (i, e) ∧ e.visibility.has stage
  := by
  apply exists₂_congr
  intro i e
  apply and_congr_right
  intro _
  rw [← Visibility.add_eq_self_iff]
  constructor
  · intro h
    apply congrArg LayoutEntry.visibility h
  · intro h
    rw [see, h]

/-- A description adds its stage to its slot. -/
theorem Aligned.sees_describe_iff
    (h : layout.Aligned) (name : Text) (elementName : Option Text) (resource : Resource) :
  (layout.describe slot' name elementName resource stage').Sees slot stage ↔
    layout.Sees slot stage ∨ slot = slot' ∧ stage = stage'
  := by
  rw [sees_iff, sees_iff, h.find?_describe]
  by_cases hslot : slot = slot'
  · subst hslot
    rw [if_pos rfl, sight]
    cases layout.find? slot with
    | none => simp [see]
    | some known =>
      obtain ⟨i, e⟩ := known
      simp [see]
  · simp [hslot]

/-- A description of the elements of a texture adds its stage to their slots. -/
theorem Aligned.sees_describeElements_iff
    (h : layout.Aligned) (name : Text) (isArray : Bool) (resource : Resource) (number : Nat)
    (slots : List Slot) :
  (layout.describeElements name isArray resource stage' number slots).Sees slot stage ↔
    layout.Sees slot stage ∨ slot ∈ slots ∧ stage = stage'
  := by
  induction slots generalizing layout number with
  | nil => simp [Layout.describeElements]
  | cons slot' slots ih =>
    rw [Layout.describeElements, ih (h.describe _ _ _ _ _), h.sees_describe_iff, List.mem_cons]
    tauto

end Layout

/-! ### Sights of resources -/

/-- The sight of a resource from a stage. -/
structure Sight where
  /-- The stage. -/
  stage : Stage
  /-- The registry of the resource. -/
  registry : Registry
  /-- The name under which it is registered there. -/
  name : Text

namespace Resources

/-- The slots of the resource registered under a name. -/
def slots? (r : Resources) : Registry → Text → Option (List Slot)
  | .textures, name => (r.textures.find? name).map Texture.slots
  | .samplers, name => (r.samplers.find? name).map fun s => [s.slot]
  | .buffers, name => (r.buffers.find? name).map fun b => [b.slot]

/-- The slot is one of those of the resource registered under a name. -/
def Holds (r : Resources) (registry : Registry) (name : Text) (slot : Slot) : Prop :=
  ∃ ss, r.slots? registry name = some ss ∧ slot ∈ ss

namespace Event

/-- The sights of a step, when some names of buffers are in use already. -/
def sights (ks : List Text) : Event → List Sight
  | texture stage name => [⟨stage, .textures, name⟩]
  | sampler stage name => [⟨stage, .samplers, name⟩]
  | buffer stage form => [⟨stage, .buffers, form.keyAmong ks⟩]
  | _ => []

/-- The names of buffers that are in use after some steps. -/
def keysAfter (ks : List Text) (es : List Event) : List Text :=
  (BufferForm.keysFrom ks (es.flatMap bufferForms)).foldl addKey ks

/-- The sights of some steps, when some names of buffers are in use already. -/
def sightsFrom : (ks : List Text) → List Event → List Sight
  | _, [] => []
  | ks, e :: es => e.sights ks ++ sightsFrom (keysAfter ks [e]) es

end Event

variable {mode : Mode} {limits : Limits} {e : Event} {es : List Event} {r r' : Resources}
  {ss : List Slot} {slot : Slot} {stage : Stage} {registry : Registry} {name : Text}

theorem lasting_slots? (registry : Registry) (name : Text) (slots : List Slot) :
  Lasting fun r => r.slots? registry name = some slots
  := by
  intro mode limits e r ss r' hstep h
  cases registry with
  | textures =>
    obtain ⟨t, ht, hslots⟩ := Option.map_eq_some_iff.mp h
    obtain ⟨t', ht', hcontinues⟩ := hstep.find?_textures ht
    apply Option.map_eq_some_iff.mpr
    use t', ht', hcontinues.slots_eq.trans hslots
  | samplers =>
    obtain ⟨s, hs, hslots⟩ := Option.map_eq_some_iff.mp h
    apply Option.map_eq_some_iff.mpr
    use s, hstep.find?_samplers hs
  | buffers =>
    obtain ⟨b, hb, hslots⟩ := Option.map_eq_some_iff.mp h
    apply Option.map_eq_some_iff.mpr
    use b, hstep.find?_buffers hb

theorem holds_iff {slots : List Slot} (h : r.slots? registry name = some slots) :
  r.Holds registry name slot ↔ slot ∈ slots
  := by
  simp [Holds, h]

/-- What a sight adds to what is seen, and that its resource is registered. -/
theorem sees_of_sight
    (x : Sight) {slots : List Slot} (hslots : r'.slots? x.registry x.name = some slots)
    (hsees : r'.layout.Sees slot stage ↔ r.layout.Sees slot stage ∨ slot ∈ slots ∧ stage = x.stage) :
  (r'.layout.Sees slot stage ↔
    r.layout.Sees slot stage ∨ ∃ y ∈ [x], y.stage = stage ∧ r'.Holds y.registry y.name slot) ∧
  ∀ y ∈ [x], ∃ slots, r'.slots? y.registry y.name = some slots
  := by
  simp only [List.mem_singleton, exists_eq_left, forall_eq, holds_iff hslots, hsees, hslots]
  constructor
  · rw [and_comm, @eq_comm _ stage]
  · exact ⟨slots, rfl⟩

/-- A step adds to what is seen from a stage the slots of the resource that is sighted from it,
which is registered then. -/
theorem Step.sees_iff
    (h : Step mode limits e r ss r') (ha : r.layout.Aligned) (slot : Slot) (stage : Stage) :
  (r'.layout.Sees slot stage ↔
    r.layout.Sees slot stage ∨ ∃ x ∈ e.sights r.buffers.keys, x.stage = stage ∧
      r'.Holds x.registry x.name slot) ∧
  ∀ x ∈ e.sights r.buffers.keys, ∃ slots, r'.slots? x.registry x.name = some slots
  := by
  cases h with
  | search => simp [Event.sights]
  | mark sampler => simp [Event.sights]
  | @newTexture _ name t _ _ _ _ stage' =>
    apply sees_of_sight ⟨stage', .textures, name⟩
    · show _ = some t.slots
      simp [slots?, enterTexture]
    · apply ha.sees_describeElements_iff
  | @seenTexture _ name t function component stage' =>
    apply sees_of_sight ⟨stage', .textures, name⟩
    · show _ = some t.slots
      simp [slots?, enterTexture, Texture.slots]
    · apply ha.sees_describeElements_iff
  | @newSampler _ name s _ stage' =>
    apply sees_of_sight ⟨stage', .samplers, name⟩
    · show _ = some [s.slot]
      simp [slots?, enterSampler]
    · rw [List.mem_singleton]
      apply ha.sees_describe_iff
  | @seenSampler _ name s stage' =>
    apply sees_of_sight ⟨stage', .samplers, name⟩
    · show _ = some [s.slot]
      simp [slots?, enterSampler]
    · rw [List.mem_singleton]
      apply ha.sees_describe_iff
  | @newBuffer _ form slot' _ stage' =>
    rw [BufferForm.key_eq_keyAmong]
    apply sees_of_sight ⟨stage', .buffers, _⟩
    · show _ = some [slot']
      simp [slots?, enterBuffer]
    · rw [List.mem_singleton]
      apply ha.sees_describe_iff
  | @reservedBuffer _ form slot' stage' =>
    rw [BufferForm.key_eq_keyAmong]
    apply sees_of_sight ⟨stage', .buffers, _⟩
    · show _ = some [slot']
      simp [slots?, enterBuffer]
    · rw [List.mem_singleton]
      apply ha.sees_describe_iff
  | @seenBuffer _ form b stage' =>
    rw [BufferForm.key_eq_keyAmong]
    apply sees_of_sight ⟨stage', .buffers, _⟩
    · show _ = some [b.slot]
      simp [slots?, enterBuffer]
    · rw [List.mem_singleton]
      apply ha.sees_describe_iff

/-- In the end the slots that are seen from a stage are those seen before and those of the resources
that were sighted from it. -/
theorem Steps.sees_iff
    (h : Steps mode limits es r ss r') (ha : r.layout.Aligned) (slot : Slot) (stage : Stage) :
  r'.layout.Sees slot stage ↔
    r.layout.Sees slot stage ∨ ∃ x ∈ Event.sightsFrom r.buffers.keys es, x.stage = stage ∧
      r'.Holds x.registry x.name slot
  := by
  induction h with
  | refl => simp [Event.sightsFrom]
  | @cons e es r r₁ r' ss ss' hstep hrest ih =>
    obtain ⟨hsees, hregistered⟩ := hstep.sees_iff ha slot stage
    have hkeys : r₁.buffers.keys = Event.keysAfter r.buffers.keys [e] := by
      rw [hstep.keys_buffers, Event.keysAfter, List.flatMap_singleton]
    -- what was sighted in the first step is registered with the same slots in the end
    have hkept : ∀ x ∈ e.sights r.buffers.keys,
        (r₁.Holds x.registry x.name slot ↔ r'.Holds x.registry x.name slot) := by
      intro x hx
      obtain ⟨slots, hslots⟩ := hregistered x hx
      have hslots' := hrest.preserves (lasting_slots? x.registry x.name slots) hslots
      rw [holds_iff hslots, holds_iff hslots']
    rw [ih (hstep.aligned ha), hsees, hkeys, Event.sightsFrom, or_assoc]
    apply or_congr_right
    simp only [List.mem_append, or_and_right, exists_or]
    apply or_congr_left
    apply exists_congr
    intro x
    apply and_congr_right
    intro hx
    rw [hkept x hx]

/-! ### Holdings by name -/

theorem of_mem_holdings {t : Texture} {h : Holding} (hh : h ∈ t.holdings name) :
  h.registry = .textures ∧ h.name = name
  := by
  rw [Texture.holdings] at hh
  generalize t.slots = slots, (0 : Nat) = number at hh
  induction slots generalizing number with
  | nil => cases hh
  | cons slot slots ih =>
    rcases List.mem_cons.mp hh with rfl | hh
    · exact ⟨rfl, rfl⟩
    · apply ih _ hh

/-- A slot is one of those of a resource if the resource holds it. -/
theorem holds_iff_exists_holding :
  r.Holds registry name slot ↔
    ∃ h ∈ r.holdings, h.registry = registry ∧ h.name = name ∧ h.slot = slot
  := by
  constructor
  · rintro ⟨slots, hslots, hslot⟩
    cases registry with
    | textures =>
      obtain ⟨t, ht, rfl⟩ := Option.map_eq_some_iff.mp hslots
      rw [← Texture.map_slot_holdings name, List.mem_map] at hslot
      obtain ⟨h, hh, rfl⟩ := hslot
      have hmem : h ∈ textureHoldings r.textures :=
        List.mem_flatten_of_mem (List.mem_map_of_mem (OrderedMap.mem_entries_iff.mpr ht)) hh
      obtain ⟨hregistry, hname⟩ := of_mem_holdings hh
      exact ⟨h, List.mem_append_left _ hmem, hregistry, hname, rfl⟩
    | samplers =>
      obtain ⟨s, hs, rfl⟩ := Option.map_eq_some_iff.mp hslots
      obtain rfl := List.mem_singleton.mp hslot
      have hmem : s.holding name ∈ samplerHoldings r.samplers :=
        List.mem_map_of_mem (f := fun e : Text × Sampler => e.2.holding e.1)
          (OrderedMap.mem_entries_iff.mpr hs)
      exact ⟨_, List.mem_append_right _ (List.mem_append_left _ hmem), rfl, rfl, rfl⟩
    | buffers =>
      obtain ⟨b, hb, rfl⟩ := Option.map_eq_some_iff.mp hslots
      obtain rfl := List.mem_singleton.mp hslot
      exact ⟨_, r.holding_mem_of_find? hb, rfl, rfl, rfl⟩
  · rintro ⟨h, hh, rfl, rfl, rfl⟩
    rcases List.mem_append.mp hh with hh | hh
    · obtain ⟨_, hhs, hh⟩ := List.mem_flatten.mp hh
      obtain ⟨⟨name, t⟩, ht, rfl⟩ := List.mem_map.mp hhs
      obtain ⟨hregistry, hname⟩ := of_mem_holdings hh
      have hslots : r.slots? .textures name = some t.slots := by
        rw [slots?, OrderedMap.mem_entries_iff.mp ht, Option.map_some]
      rw [hregistry, hname, holds_iff hslots, ← Texture.map_slot_holdings name]
      apply List.mem_map_of_mem hh
    rcases List.mem_append.mp hh with hh | hh
    · obtain ⟨⟨name, s⟩, hs, rfl⟩ := List.mem_map.mp hh
      use [s.slot]
      rw [Sampler.holding, slots?, OrderedMap.mem_entries_iff.mp hs]
      exact ⟨rfl, List.mem_singleton_self _⟩
    · obtain ⟨⟨key, b⟩, hb, rfl⟩ := List.mem_map.mp hh
      use [b.slot]
      rw [Buffer.holding, slots?, OrderedMap.mem_entries_iff.mp hb]
      exact ⟨rfl, List.mem_singleton_self _⟩

end Resources

namespace Resources

variable {r : Resources} {registry registry' : Registry} {name name' : Text} {slot : Slot}

/-- A slot belongs to one resource. -/
theorem Holds.unique
    (h : r.Holds registry name slot) (h' : r.Holds registry' name' slot)
    (hnodup : r.slots.Nodup) :
  registry' = registry ∧ name' = name
  := by
  obtain ⟨x, hx, rfl, rfl, hslot⟩ := holds_iff_exists_holding.mp h
  obtain ⟨y, hy, rfl, rfl, hslot'⟩ := holds_iff_exists_holding.mp h'
  rw [eq_of_slot_eq hnodup hy hx (hslot'.trans hslot.symm)]
  exact ⟨rfl, rfl⟩

/-- A slot that is held is described. -/
theorem Holds.exists_entry
    (h : r.Holds registry name slot) (hd : r.layout.Describes r.holdings) :
  ∃ info entry, r.layout.find? slot = some (info, entry)
  := by
  obtain ⟨x, hx, -, -, rfl⟩ := holds_iff_exists_holding.mp h
  obtain ⟨⟨info, entry⟩, hfind, -⟩ :=
    Option.map_eq_some_iff.mp ((hd.holding?_eq_some_iff _ _).mpr ⟨hx, rfl⟩)
  exact ⟨info, entry, hfind⟩

/-- A slot that is described is held. -/
theorem exists_holds_of_find?
    (hd : r.layout.Describes r.holdings) {info : LayoutInfo} {entry : LayoutEntry}
    (hfind : r.layout.find? slot = some (info, entry)) :
  ∃ registry name, r.Holds registry name slot
  := by
  have hholding : r.layout.holding? slot
      = some ⟨slot, entry.resource.registry, info.name, info.elementName⟩ := by
    rw [Layout.holding?, hfind]
    rfl
  obtain ⟨hmem, -⟩ := (hd.holding?_eq_some_iff _ _).mp hholding
  exact ⟨_, _, holds_iff_exists_holding.mpr ⟨_, hmem, rfl, rfl, rfl⟩⟩

end Resources

/-- Every entry of a group is what is known of its binding. -/
theorem Layout.Aligned.exists_find?
    {layout : Layout} (ha : layout.Aligned) {group : Nat} {entry : LayoutEntry}
    (hentry : entry ∈ layout.entriesOf group) :
  ∃ info, layout.find? ⟨group, entry.binding⟩ = some (info, entry)
  := by
  have hgroup := ha.group group
  have hbinding : entry.binding ∈ (layout.infosOf group).keys := by
    rw [hgroup.keys]
    apply List.mem_map_of_mem hentry
  obtain ⟨info, hinfo⟩ := OrderedMap.mem_keys_iff.mp hbinding
  obtain ⟨entry', hentry', heq⟩ := hgroup.getElem?_index hinfo
  have hbindings := (layout.infosOf group).nodup
  rw [← OrderedMap.keys, hgroup.keys] at hbindings
  obtain rfl : entry' = entry :=
    List.inj_on_of_nodup_map hbindings (List.mem_of_getElem? hentry') hentry heq
  use info, ha.find?_eq_some_iff.mpr ⟨hinfo, hentry', rfl⟩

/-! ### Shader pairs -/

/-- The text of a stage. -/
def StageTexts.text (texts : StageTexts) : Stage → Text
  | .vertex => texts.vertex
  | .fragment => texts.fragment

/-- The names under which the buffers of a stage are registered, the vertex stage first. -/
def StageTexts.bufferKeys (texts : StageTexts) : Stage → List Text
  | .vertex => BufferForm.keysFrom [] (bufferForms texts.vertex)
  | .fragment =>
    BufferForm.keysFrom ((BufferForm.keysFrom [] (bufferForms texts.vertex)).foldl addKey [])
      (bufferForms texts.fragment)

/-- A shader pair at the three times at which its declarations are looked for. -/
structure PairTexts where
  /-- Before its lines are gone through. -/
  prepared : StageTexts
  /-- Before its samplers are gone through. -/
  declared : StageTexts
  /-- Before its buffers are gone through. -/
  sampled : StageTexts

/-- The names of the resources in a registry that a stage declares. -/
def PairTexts.names (texts : PairTexts) (stage : Stage) : Registry → List Text
  | .textures => (textureForms (texts.prepared.text stage)).map TextureForm.name
  | .samplers => (samplerForms (texts.declared.text stage)).map SamplerForm.name
  | .buffers => texts.sampled.bufferKeys stage

/-- The leftover buffer has its own name for a key, whatever names are in use. -/
theorem LeftOver.keyAmong_form (ks : List Text) :
  form.keyAmong ks = name
  := by
  rw [BufferForm.keyAmong]
  split
  · rfl
  · split <;> rfl

namespace Resources.Event

theorem sightsFrom_append (ks : List Text) (es es' : List Event) :
  sightsFrom ks (es ++ es') = sightsFrom ks es ++ sightsFrom (keysAfter ks es) es'
  := by
  induction es generalizing ks with
  | nil => rfl
  | cons e es ih =>
    have hkeys : keysAfter (keysAfter ks [e]) es = keysAfter ks (e :: es) := by
      simp only [keysAfter, List.flatMap_cons, List.flatMap_nil, List.append_nil,
        BufferForm.keysFrom_append, List.foldl_append]
    rw [List.cons_append, sightsFrom, sightsFrom, ih, hkeys, List.append_assoc]

theorem sightsFrom_ofTextures (ks : List Text) (stage : Stage) (code : Text) :
  sightsFrom ks (ofTextures stage code)
    = (textureForms code).map fun form => ⟨stage, .textures, form.name⟩
  := by
  rw [ofTextures]
  induction textureForms code with
  | nil => rfl
  | cons form forms ih =>
    rw [List.map_cons, sightsFrom, List.map_cons, ← ih]
    rfl

theorem sightsFrom_ofSamplers (ks : List Text) (stage : Stage) (code : Text) :
  sightsFrom ks (ofSamplers stage code)
    = (samplerForms code).map fun form => ⟨stage, .samplers, form.name⟩
  := by
  rw [ofSamplers]
  induction samplerForms code with
  | nil => rfl
  | cons form forms ih =>
    rw [List.flatMap_cons, sightsFrom_append, List.map_cons, ← ih]
    rfl

theorem sightsFrom_ofBuffers (ks : List Text) (stage : Stage) (code : Text) :
  sightsFrom ks (ofBuffers stage code)
    = (BufferForm.keysFrom ks (ShaderPair.bufferForms code)).map fun key => ⟨stage, .buffers, key⟩
  := by
  rw [ofBuffers]
  induction ShaderPair.bufferForms code generalizing ks with
  | nil => rfl
  | cons form forms ih =>
    rw [List.map_cons, sightsFrom, ih]
    rfl

theorem sightsFrom_leftOver (ks : List Text) :
  sightsFrom ks LeftOver.events
    = [⟨.vertex, .buffers, LeftOver.name⟩, ⟨.fragment, .buffers, LeftOver.name⟩]
  := by
  simp only [LeftOver.events, sightsFrom, sights, LeftOver.keyAmong_form, List.append_nil,
    List.singleton_append]

/-- Steps for other resources leave the names of buffers alone. -/
theorem keysAfter_of_registry?
    {es : List Event} {registry : Registry} (hes : ∀ e ∈ es, e.registry? = some registry)
    (hbuffers : registry ≠ .buffers) (ks : List Text) :
  keysAfter ks es = ks
  := by
  have hnone : es.flatMap bufferForms = [] := by
    rw [List.flatMap_eq_nil_iff]
    intro e he
    cases e with
    | buffer stage form => exact absurd (Option.some.inj (hes _ he)).symm hbuffers
    | _ => rfl
  rw [keysAfter, hnone]
  rfl

theorem keysAfter_ofBuffers (ks : List Text) (stage : Stage) (code : Text) :
  keysAfter ks (ofBuffers stage code)
    = (BufferForm.keysFrom ks (ShaderPair.bufferForms code)).foldl addKey ks
  := by
  have hforms : (ofBuffers stage code).flatMap bufferForms = ShaderPair.bufferForms code := by
    simp [ofBuffers, List.flatMap_map, bufferForms]
  rw [keysAfter, hforms]

/-- What is sighted when a pair is compiled in a fresh context: the resources that its stages
declare, and the leftover buffer if it is built. -/
theorem mem_sightsFrom_pair
    (texts : PairTexts) {leftOver : List Event} (h : leftOver = [] ∨ leftOver = LeftOver.events)
    (x : Sight) :
  x ∈ sightsFrom [] (texts.prepared.events ofTextures
      ++ (texts.declared.events ofSamplers ++ (texts.sampled.events ofBuffers ++ leftOver))) ↔
    x.name ∈ texts.names x.stage x.registry ∨
      leftOver ≠ [] ∧ x.registry = .buffers ∧ x.name = LeftOver.name
  := by
  have hleftOver : ∀ ks, x ∈ sightsFrom ks leftOver ↔
      leftOver ≠ [] ∧ x.registry = .buffers ∧ x.name = LeftOver.name := by
    intro ks
    obtain ⟨stage, registry, name⟩ := x
    rcases h with rfl | rfl
    · simp [sightsFrom]
    · rw [sightsFrom_leftOver]
      cases stage <;> simp [LeftOver.events]
  rw [sightsFrom_append, sightsFrom_append, sightsFrom_append,
    keysAfter_of_registry? (registry?_ofTextures _) (by decide),
    keysAfter_of_registry? (registry?_ofSamplers _) (by decide)]
  simp only [List.mem_append, hleftOver]
  rw [← or_assoc, ← or_assoc]
  apply or_congr_left
  simp only [StageTexts.events, sightsFrom_append, keysAfter_ofBuffers, sightsFrom_ofTextures,
    sightsFrom_ofSamplers, sightsFrom_ofBuffers, List.mem_append, List.mem_map]
  obtain ⟨stage, registry, name⟩ := x
  cases stage <;> cases registry <;>
    simp [PairTexts.names, StageTexts.text, StageTexts.bufferKeys]

end Resources.Event

/-- Where no explicit buffer is called like the leftover buffer, a buffer of this name is the
leftover buffer. -/
theorem leftOver_ne_nil_of_mem_keys
    {texts : PairTexts} {leftOver : List Event}
    (hnames : ∀ f ∈ texts.sampled.inOrder bufferForms, f.name ≠ LeftOver.name)
    (hkey : LeftOver.name ∈ BufferForm.keysFrom []
      (texts.sampled.inOrder bufferForms ++ leftOver.flatMap Event.bufferForms)) :
  leftOver ≠ []
  := by
  rintro rfl
  rw [List.flatMap_nil, List.append_nil] at hkey
  obtain ⟨f, hf, hname | ⟨hengine, hstruct⟩⟩ := BufferForm.exists_of_mem_keysFrom hkey
  · exact hnames f hf hname.symm
  · have hmem := BufferForm.struct_mem_of_isEngineBuffer hengine
    rw [← hstruct] at hmem
    revert hmem
    decide +kernel

/-- After the steps of a pair in a fresh context, an entry has the stages that declare its resource,
and the leftover buffer has both stages. -/
theorem Resources.Steps.has_iff
    {mode : Mode} {limits : Limits} {free : Slot} {ss : List Slot} {r : Resources}
    (texts : PairTexts) {leftOver : List Event}
    (h : Steps mode limits (texts.prepared.events Event.ofTextures
      ++ (texts.declared.events Event.ofSamplers
        ++ (texts.sampled.events Event.ofBuffers ++ leftOver))) { free := free } ss r)
    (hnodup : r.slots.Nodup) (hleftOver : leftOver = [] ∨ leftOver = LeftOver.events)
    (hnames : ∀ f ∈ texts.sampled.inOrder bufferForms, f.name ≠ LeftOver.name)
    {registry : Registry} {name : Text} {slot : Slot} (hholds : r.Holds registry name slot)
    {info : LayoutInfo} {entry : LayoutEntry} (hfind : r.layout.find? slot = some (info, entry))
    (stage : Stage) :
  entry.visibility.has stage ↔
    name ∈ texts.names stage registry ∨ registry = .buffers ∧ name = LeftOver.name
  := by
  have hsees : r.layout.Sees slot stage ↔ entry.visibility.has stage := by
    simp [Layout.sees_iff, hfind]
  have hempty : ¬ ({} : Layout).Sees slot stage := by
    rintro ⟨_, _, ⟨⟩, -⟩
  rw [← hsees, h.sees_iff Layout.aligned_empty slot stage, or_iff_right hempty]
  constructor
  · rintro ⟨x, hx, rfl, hxholds⟩
    obtain ⟨rfl, rfl⟩ := hholds.unique hxholds hnodup
    rcases (Event.mem_sightsFrom_pair texts hleftOver x).mp hx with hx | ⟨-, hx⟩
    · left
      apply hx
    · right
      apply hx
  · intro hdeclares
    use ⟨stage, registry, name⟩
    refine ⟨?_, rfl, hholds⟩
    apply (Event.mem_sightsFrom_pair texts hleftOver _).mpr
    apply hdeclares.imp_right
    rintro ⟨rfl, rfl⟩
    refine ⟨?_, rfl, rfl⟩
    apply leftOver_ne_nil_of_mem_keys hnames
    obtain ⟨slots, hslots, -⟩ := hholds
    obtain ⟨b, hb, -⟩ := Option.map_eq_some_iff.mp hslots
    have hkey : LeftOver.name ∈ r.buffers.keys := OrderedMap.mem_keys_iff.mpr ⟨b, hb⟩
    rw [h.keys_buffers, Event.bufferForms_pair] at hkey
    apply List.mem_eraseDups.mp
    rw [← OrderedMap.foldl_addKey_nil]
    apply hkey

/-- The stages of each entry of the layout are those that declare the resource at its slot, which is
only one; the leftover buffer has both stages.  All elements of a texture have the same stages. -/
structure VisibilityExact (r : Resources) (texts : PairTexts) : Prop where
  entries : ∀ group, ∀ entry ∈ r.layout.entriesOf group, ∃ registry name,
    (∀ registry' name', r.Holds registry' name' ⟨group, entry.binding⟩ ↔
      registry' = registry ∧ name' = name) ∧
    ∀ stage, entry.visibility.has stage ↔
      name ∈ texts.names stage registry ∨ registry = .buffers ∧ name = LeftOver.name
  elements : ∀ name t, r.textures.find? name = some t → ∃ v : Visibility, ∀ slot ∈ t.slots,
    ∃ info entry, r.layout.find? slot = some (info, entry) ∧ entry.visibility = v

/-- In the layout of a shader pair that is compiled in a fresh context every entry has exactly the
stages that declare its resource, unless an explicit buffer is called like the leftover
buffer. -/
theorem visibility_exact
    (mode : Mode) (limits : Limits) (components : OrderedMap Text Int) (source : SourcePair)
    (out : StageTexts) :
  let c := Context.fresh mode limits components
  let o := Compile.pair source c
  o.result = .ok out →
    ∃ texts : PairTexts, texts.prepared = source.prepared mode ∧
      (Compile.declareStages source c).result = .ok texts.declared ∧
      ((Compile.declareStages source >>= Compile.bothStages Compile.annotateSamplers) c).result
        = .ok texts.sampled ∧
      ((∀ f ∈ texts.sampled.inOrder bufferForms, f.name ≠ LeftOver.name) →
        VisibilityExact o.context.resources texts)
  := by
  intro c o hout
  obtain ⟨es, heffect, hok⟩ := Compile.does_pair source c
  obtain ⟨declared, sampled, leftOver, hdeclared, hsampled, hleftOver, rfl⟩ := hok out hout
  let texts : PairTexts := ⟨source.prepared mode, declared, sampled⟩
  refine ⟨texts, rfl, hdeclared, hsampled, ?_⟩
  intro hnames
  have hafter : c.after [.pair source] = o.context := Compile.context_ignore _ _
  have hplaced : Placed mode (c.after [.pair source]).resources := Session.placed _
  have hd : (c.after [.pair source]).resources.layout.Describes
      (c.after [.pair source]).resources.holdings := Session.describes _
  rw [hafter] at hplaced hd
  have hnodup := hplaced.nodup
  have hsteps := heffect.steps
  constructor
  · intro group entry hentry
    obtain ⟨info, hfind⟩ := hd.aligned.exists_find? hentry
    obtain ⟨registry, name, hholds⟩ := Resources.exists_holds_of_find? hd hfind
    refine ⟨registry, name, ?_, hsteps.has_iff texts hnodup hleftOver hnames hholds hfind⟩
    intro registry' name'
    constructor
    · intro hholds'
      apply hholds.unique hholds' hnodup
    · rintro ⟨rfl, rfl⟩
      apply hholds
  · intro name t ht
    use ⟨name ∈ texts.names .vertex .textures, name ∈ texts.names .fragment .textures⟩
    intro slot hslot
    have hholds : o.context.resources.Holds .textures name slot := by
      refine ⟨t.slots, ?_, hslot⟩
      rw [Resources.slots?, ht, Option.map_some]
    obtain ⟨info, entry, hfind⟩ := hholds.exists_entry hd
    use info, entry, hfind
    apply Visibility.ext_has
    intro stage
    rw [hsteps.has_iff texts hnodup hleftOver hnames hholds hfind]
    cases stage <;> simp [Visibility.has]

/-- A pair with an array of textures in both stages, a sampler and a buffer in the fragment stage
and a plain uniform. -/
def layers : SourcePair where
  vertex := "var t : array<texture_2d<f32>, 2>;\nuniform k : f32;"
  fragment := "var t : texture_2d<i32>;\nvar s : sampler;\nvar<uniform> b : B;"

/-- The pair at the times at which its declarations are looked for. -/
def layers.texts : PairTexts where
  prepared := layers.prepared .pure
  declared := ⟨"@group(0) @binding(0) var t : array<texture_2d<f32>, 2>;\n",
    "@group(0) @binding(0) var t : texture_2d<i32>;\nvar s : sampler;\nvar<uniform> b : B;"⟩
  sampled := ⟨"@group(0) @binding(0) var t : array<texture_2d<f32>, 2>;\n",
    "@group(0) @binding(0) var t : texture_2d<i32>;\n" ++
      "@group(0) @binding(2) var s : sampler;\nvar<uniform> b : B;"⟩

/-- The two textures are seen from both stages, the sampler and the buffer from the fragment stage
only, and the leftover buffer from both. -/
theorem visibility_exact_layers :
  let o := Compile.pair layers (.fresh .pure {} ∅)
  (o.context.resources.layout.entriesOf 0).map LayoutEntry.visibility
      = [⟨true, true⟩, ⟨true, true⟩, ⟨false, true⟩, ⟨false, true⟩, ⟨true, true⟩] ∧
    VisibilityExact o.context.resources layers.texts
  := by
  intro o
  have hok : o.result.isOk = true := by decide +kernel
  obtain ⟨out, hresult⟩ := Compile.exists_of_isOk hok
  constructor
  · decide +kernel
  obtain ⟨⟨prepared, declared, sampled⟩, hprepared, hdeclared, hsampled, hexact⟩ :=
    visibility_exact .pure {} ∅ layers out hresult
  have hdeclared' : (Compile.declareStages layers (.fresh .pure {} ∅)).result
      = .ok layers.texts.declared := by
    decide +kernel
  have hsampled' : ((Compile.declareStages layers >>=
      Compile.bothStages Compile.annotateSamplers) (.fresh .pure {} ∅)).result
      = .ok layers.texts.sampled := by
    decide +kernel
  obtain rfl : prepared = layers.texts.prepared := hprepared
  obtain rfl := Except.ok.inj (hdeclared.symm.trans hdeclared')
  obtain rfl := Except.ok.inj (hsampled.symm.trans hsampled')
  apply hexact
  decide +kernel

end ShaderPair
