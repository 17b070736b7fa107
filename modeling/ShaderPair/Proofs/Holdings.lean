import ShaderPair.Proofs.ResourceStep
import Mathlib.Data.List.Nodup

/-!
# Who holds which slot

A `Holding` is a slot in the hands of a resource: an element of a texture, a sampler or a
buffer.  `Resources.holdings` lists all of them, and `Resources.slots` their slots.  A step adds
the holdings of a resource that is new, and leaves the others alone.  From this follows that all
slots lie between the first one handed out and the first one that is free, except those which
the engine has reserved, and that no slot is held twice (`Resources.Placed`).
-/

namespace ShaderPair

/-! ### Holdings -/

/-- The three registries of resources. -/
inductive Registry where
  | textures
  | samplers
  | buffers
  deriving DecidableEq

/-- The registry to which a resource belongs by its description. -/
def Resource.registry : Resource → Registry
  | buffer _ => .buffers
  | sampler _ => .samplers
  | texture _ _ _ | storageTexture _ _ | externalTexture => .textures

theorem TextureFunction.registry_resource (f : TextureFunction) (component : Option Text) :
  (f.resource component).registry = .textures
  := by
  cases f <;> rfl

/-- A slot in the hands of a resource. -/
structure Holding where
  /-- The slot. -/
  slot : Slot
  /-- The registry of the resource. -/
  registry : Registry
  /-- The name under which it is registered there. -/
  name : Text
  /-- The name of the element of a texture. -/
  elementName : Option Text
  deriving DecidableEq

/-- The holdings of a texture, from the element with the given number on. -/
def Texture.holdingsFrom (name : Text) (isArray : Bool) : (number : Nat) → List Slot → List Holding
  | _, [] => []
  | number, slot :: slots =>
    ⟨slot, .textures, name, some (if isArray then name ++ Text.ofNat number else name)⟩
      :: holdingsFrom name isArray (number + 1) slots

/-- The holdings of a texture. -/
def Texture.holdings (name : Text) (t : Texture) : List Holding :=
  holdingsFrom name t.isArray 0 t.slots

/-- The holding of a sampler. -/
def Sampler.holding (name : Text) (s : Sampler) : Holding := ⟨s.slot, .samplers, name, none⟩

/-- The holding of a buffer. -/
def Buffer.holding (key : Text) (b : Buffer) : Holding := ⟨b.slot, .buffers, key, none⟩

@[simp]
theorem Texture.map_slot_holdingsFrom
    (name : Text) (isArray : Bool) (number : Nat) (slots : List Slot) :
  (holdingsFrom name isArray number slots).map Holding.slot = slots
  := by
  induction slots generalizing number with
  | nil => rfl
  | cons slot slots ih => rw [holdingsFrom, List.map_cons, ih]

@[simp]
theorem Texture.map_slot_holdings (name : Text) (t : Texture) :
  (t.holdings name).map Holding.slot = t.slots
  := map_slot_holdingsFrom _ _ _ _

/-- The holdings of textures, in order. -/
def textureHoldings (textures : OrderedMap Text Texture) : List Holding :=
  (textures.entries.map fun e => e.2.holdings e.1).flatten

/-- The holdings of samplers, in order. -/
def samplerHoldings (samplers : OrderedMap Text Sampler) : List Holding :=
  samplers.entries.map fun e => e.2.holding e.1

/-- The holdings of buffers, in order. -/
def bufferHoldings (buffers : OrderedMap Text Buffer) : List Holding :=
  buffers.entries.map fun e => e.2.holding e.1

theorem textureHoldings_insert_of_find?_eq_none
    {textures : OrderedMap Text Texture} {name : Text} (h : textures.find? name = none)
    (t : Texture) :
  textureHoldings (textures.insert name t) = textureHoldings textures ++ t.holdings name
  := by
  rw [textureHoldings, OrderedMap.entries_insert_of_find?_eq_none h]
  simp [textureHoldings]

/-- A texture keeps its holdings as long as it keeps its slots. -/
theorem textureHoldings_insert_of_find?
    {textures : OrderedMap Text Texture} {name : Text} {t t' : Texture}
    (h : textures.find? name = some t') (ht : t.holdings name = t'.holdings name) :
  textureHoldings (textures.insert name t) = textureHoldings textures
  := by
  rw [textureHoldings, OrderedMap.map_entries_insert_of_find? h ht, textureHoldings]

/-- A texture has its holdings when it is entered. -/
theorem mem_textureHoldings_insert
    {textures : OrderedMap Text Texture} {name : Text} {t : Texture}
    (ht : ∀ t', textures.find? name = some t' → t.holdings name = t'.holdings name)
    {h : Holding} :
  h ∈ textureHoldings (textures.insert name t) ↔
    h ∈ textureHoldings textures ∨ h ∈ t.holdings name
  := by
  simp only [textureHoldings, List.mem_flatten, OrderedMap.mem_map_entries_insert ht]
  constructor
  · rintro ⟨hs, hmem | rfl, hh⟩
    · exact Or.inl ⟨hs, hmem, hh⟩
    · exact Or.inr hh
  · rintro (⟨hs, hmem, hh⟩ | hh)
    · exact ⟨hs, Or.inl hmem, hh⟩
    · exact ⟨_, Or.inr rfl, hh⟩

theorem samplerHoldings_insert_of_find?_eq_none
    {samplers : OrderedMap Text Sampler} {name : Text} (h : samplers.find? name = none)
    (s : Sampler) :
  samplerHoldings (samplers.insert name s) = samplerHoldings samplers ++ [s.holding name]
  := by
  rw [samplerHoldings, OrderedMap.entries_insert_of_find?_eq_none h, List.map_append]
  rfl

theorem bufferHoldings_insert_of_find?_eq_none
    {buffers : OrderedMap Text Buffer} {key : Text} (h : buffers.find? key = none)
    (b : Buffer) :
  bufferHoldings (buffers.insert key b) = bufferHoldings buffers ++ [b.holding key]
  := by
  rw [bufferHoldings, OrderedMap.entries_insert_of_find?_eq_none h, List.map_append]
  rfl

namespace Resources

/-- All holdings. -/
def holdings (r : Resources) : List Holding :=
  textureHoldings r.textures ++ (samplerHoldings r.samplers ++ bufferHoldings r.buffers)

/-- The slots of all resources. -/
def slots (r : Resources) : List Slot := r.holdings.map Holding.slot

/-- A buffer that is registered holds its slot. -/
theorem holding_mem_of_find?
    (r : Resources) {key : Text} {b : Buffer} (h : r.buffers.find? key = some b) :
  b.holding key ∈ r.holdings
  := by
  apply List.mem_append_right
  apply List.mem_append_right
  exact List.mem_map_of_mem (f := fun e : Text × Buffer => e.2.holding e.1)
    (OrderedMap.mem_entries_iff.mpr h)

/-- Where no slot is held twice, a slot belongs to one holding. -/
theorem eq_of_slot_eq
    {r : Resources} (hr : r.slots.Nodup) {a b : Holding} (ha : a ∈ r.holdings)
    (hb : b ∈ r.holdings) (h : a.slot = b.slot) :
  a = b
  := List.inj_on_of_nodup_map hr ha hb h

/-! ### What a step adds -/

section Step

variable {mode : Mode} {limits : Limits} {r r' : Resources} {ss : List Slot} {stage : Stage}
  {name : Text} {form : BufferForm}

/-- A search for slots that are lost changes no registry. -/
theorem Step.of_search (h : Step mode limits .search r ss r') :
  r'.textures = r.textures ∧ r'.samplers = r.samplers ∧ r'.buffers = r.buffers
  := by
  cases h
  exact ⟨rfl, rfl, rfl⟩

/-- That a sampler is bound to a texture changes no holdings. -/
theorem Step.of_mark (h : Step mode limits (.mark name) r ss r') :
  textureHoldings r'.textures = textureHoldings r.textures ∧ ss = [] ∧
    r'.samplers = r.samplers ∧ r'.buffers = r.buffers
  := by
  cases h
  obtain h | ⟨_, t, ht, h⟩ := r.markAutoSampler_cases name
  · rw [h]
    exact ⟨rfl, rfl, rfl, rfl⟩
  · rw [h]
    exact ⟨textureHoldings_insert_of_find? ht rfl, rfl, rfl, rfl⟩

/-- A texture gets the slots handed out. -/
theorem Step.of_texture (h : Step mode limits (.texture stage name) r ss r') :
  (∃ new, textureHoldings r'.textures = textureHoldings r.textures ++ new ∧
    new.map Holding.slot = ss) ∧ r'.samplers = r.samplers ∧ r'.buffers = r.buffers
  := by
  cases h with
  | newTexture _ hnew =>
    refine ⟨⟨_, textureHoldings_insert_of_find?_eq_none hnew _, ?_⟩, rfl, rfl⟩
    apply Texture.map_slot_holdings
  | seenTexture function component _ hseen =>
    refine ⟨⟨[], ?_, rfl⟩, rfl, rfl⟩
    rw [List.append_nil]
    apply textureHoldings_insert_of_find? hseen
    rfl

/-- A sampler gets the slot handed out. -/
theorem Step.of_sampler (h : Step mode limits (.sampler stage name) r ss r') :
  (∃ new, samplerHoldings r'.samplers = samplerHoldings r.samplers ++ new ∧
    new.map Holding.slot = ss) ∧ r'.textures = r.textures ∧ r'.buffers = r.buffers
  := by
  cases h with
  | newSampler _ hnew =>
    refine ⟨⟨_, samplerHoldings_insert_of_find?_eq_none hnew _, rfl⟩, rfl, rfl⟩
  | seenSampler _ hseen =>
    refine ⟨⟨[], ?_, rfl⟩, rfl, rfl⟩
    rw [List.append_nil]
    exact congrArg samplerHoldings (OrderedMap.insert_of_find? hseen)

/-- A buffer that is new gets the slot handed out, or the one that is reserved for it. -/
theorem Step.of_buffer (h : Step mode limits (.buffer stage form) r ss r') :
  (r'.buffers = r.buffers ∧ ss = [] ∨
    r.buffers.find? (form.key r.buffers) = none ∧
      ∃ slot, r'.buffers = r.buffers.insert (form.key r.buffers) ⟨slot, form.kind⟩ ∧
        (ss = [slot] ∨ ss = [] ∧ mode.reservedSlot? (form.key r.buffers) = some slot)) ∧
    r'.textures = r.textures ∧ r'.samplers = r.samplers
  := by
  cases h with
  | newBuffer _ hnew =>
    refine ⟨Or.inr ⟨hnew, _, rfl, ?_⟩, rfl, rfl⟩
    left
    rfl
  | reservedBuffer _ hnew hreserved =>
    refine ⟨Or.inr ⟨hnew, _, rfl, ?_⟩, rfl, rfl⟩
    right
    exact ⟨rfl, hreserved⟩
  | seenBuffer _ hseen =>
    refine ⟨Or.inl ⟨?_, rfl⟩, rfl, rfl⟩
    apply OrderedMap.insert_of_find? hseen

/-- A step adds holdings to those that are there: their slots are among those handed out, or else
there is only one, which the engine has reserved for a buffer that is new. -/
theorem Step.holdings {e : Event} (h : Step mode limits e r ss r') :
  ∃ new, r'.holdings.Perm (r.holdings ++ new) ∧
    ((new.map Holding.slot).Sublist ss ∨
      ∃ key b, r.buffers.find? key = none ∧ r'.buffers.find? key = some b ∧
        mode.reservedSlot? key = some b.slot ∧ new = [b.holding key])
  := by
  cases e with
  | search =>
    obtain ⟨htextures, hsamplers, hbuffers⟩ := h.of_search
    refine ⟨[], ?_, Or.inl (List.nil_sublist ss)⟩
    rw [Resources.holdings, htextures, hsamplers, hbuffers, List.append_nil]
    apply List.Perm.refl
  | mark sampler =>
    obtain ⟨htextures, -, hsamplers, hbuffers⟩ := h.of_mark
    refine ⟨[], ?_, Or.inl (List.nil_sublist ss)⟩
    rw [Resources.holdings, htextures, hsamplers, hbuffers, List.append_nil]
    apply List.Perm.refl
  | texture stage name =>
    obtain ⟨⟨new, htextures, hnew⟩, hsamplers, hbuffers⟩ := h.of_texture
    refine ⟨new, ?_, Or.inl (hnew ▸ List.Sublist.refl _)⟩
    rw [Resources.holdings, htextures, hsamplers, hbuffers, Resources.holdings,
      List.append_assoc, List.append_assoc]
    apply List.Perm.append_left
    apply List.perm_append_comm
  | sampler stage name =>
    obtain ⟨⟨new, hsamplers, hnew⟩, htextures, hbuffers⟩ := h.of_sampler
    refine ⟨new, ?_, Or.inl (hnew ▸ List.Sublist.refl _)⟩
    rw [Resources.holdings, htextures, hsamplers, hbuffers, Resources.holdings,
      List.append_assoc, List.append_assoc, List.append_assoc]
    apply List.Perm.append_left
    apply List.Perm.append_left
    apply List.perm_append_comm
  | buffer stage form =>
    obtain ⟨⟨hbuffers, rfl⟩ | ⟨hnew, slot, hbuffers, hss⟩, htextures, hsamplers⟩ := h.of_buffer
    · refine ⟨[], ?_, Or.inl (List.Sublist.refl _)⟩
      rw [Resources.holdings, htextures, hsamplers, hbuffers, List.append_nil]
      apply List.Perm.refl
    · let b : Buffer := ⟨slot, form.kind⟩
      refine ⟨[b.holding (form.key r.buffers)], ?_, ?_⟩
      · rw [Resources.holdings, htextures, hsamplers, hbuffers,
          bufferHoldings_insert_of_find?_eq_none hnew, Resources.holdings,
          List.append_assoc, List.append_assoc]
      · rcases hss with rfl | ⟨rfl, hreserved⟩
        · left
          apply List.Sublist.refl
        · right
          refine ⟨_, b, hnew, ?_, hreserved, rfl⟩
          rw [hbuffers, OrderedMap.find?_insert_self]

/-- A buffer that is registered stays registered, at its slot. -/
theorem Step.find?_buffers
    {e : Event} (h : Step mode limits e r ss r') {key : Text} {b : Buffer}
    (hb : r.buffers.find? key = some b) :
  r'.buffers.find? key = some b
  := by
  cases e with
  | search => rw [h.of_search.2.2, hb]
  | mark sampler => rw [h.of_mark.2.2.2, hb]
  | texture stage name => rw [h.of_texture.2.2, hb]
  | sampler stage name => rw [h.of_sampler.2.2, hb]
  | buffer stage form =>
    obtain ⟨⟨hbuffers, -⟩ | ⟨hnew, slot, hbuffers, -⟩, -⟩ := h.of_buffer
    · rw [hbuffers, hb]
    · have hkey : key ≠ form.key r.buffers := by
        rintro rfl
        rw [hnew] at hb
        cases hb
      rw [hbuffers, OrderedMap.find?_insert_of_ne _ hkey, hb]

end Step

/-! ### Where the slots are -/

/-- No slot is held twice; the slots that are held were handed out, or else the engine has
reserved them for buffers that are registered. -/
structure Placed (mode : Mode) (r : Resources) : Prop where
  /-- The first slot that is free is not before the first one handed out. -/
  first_le : mode.firstSlot ≤ r.free
  /-- The slots that are held are not free. -/
  lt_free : ∀ s ∈ r.slots, s < r.free
  /-- The slots in front of the first one handed out are reserved for buffers. -/
  reserved : ∀ s ∈ r.slots, s < mode.firstSlot →
    ∃ key b, r.buffers.find? key = some b ∧ mode.reservedSlot? key = some s
  /-- No slot is held twice. -/
  nodup : r.slots.Nodup

/-- The engine reserves one slot, for the scene. -/
theorem reservedSlot?_eq_some_iff {mode : Mode} {key : Text} {s : Slot} :
  mode.reservedSlot? key = some s ↔ mode = .engine ∧ key = "Scene" ∧ s = ⟨0, 0⟩
  := by
  cases mode with
  | pure =>
    constructor
    · rintro ⟨⟩
    · rintro ⟨⟨⟩, -⟩
  | engine =>
    rw [Mode.reservedSlot?]
    by_cases hkey : key = "Scene"
    · rw [if_pos hkey, Option.some.injEq]
      constructor
      · rintro rfl
        exact ⟨rfl, hkey, rfl⟩
      · rintro ⟨-, -, rfl⟩
        rfl
    · rw [if_neg hkey]
      constructor
      · rintro ⟨⟩
      · rintro ⟨-, hkey', -⟩
        exact absurd hkey' hkey

/-- The engine reserves no slot behind the first one handed out. -/
theorem lt_firstSlot_of_reservedSlot?
    {mode : Mode} {key : Text} {s : Slot} (h : mode.reservedSlot? key = some s) :
  s < mode.firstSlot
  := by
  obtain ⟨rfl, -, rfl⟩ := reservedSlot?_eq_some_iff.mp h
  rw [Slot.lt_iff]
  left
  apply Nat.zero_lt_one

/-- The engine reserves a slot for the scene only. -/
theorem reservedSlot?_scene
    {mode : Mode} {key : Text} {s : Slot} (h : mode.reservedSlot? key = some s) :
  mode.reservedSlot? ("Scene" : Text) = some s
  := by
  obtain ⟨rfl, rfl, rfl⟩ := reservedSlot?_eq_some_iff.mp h
  apply h

/-- The engine reserves different slots for different buffers. -/
theorem reservedSlot?_injective
    {mode : Mode} {key key' : Text} {s : Slot} (h : mode.reservedSlot? key = some s)
    (h' : mode.reservedSlot? key' = some s) :
  key = key'
  := by
  obtain ⟨-, hkey, -⟩ := reservedSlot?_eq_some_iff.mp h
  obtain ⟨-, hkey', -⟩ := reservedSlot?_eq_some_iff.mp h'
  rw [hkey, hkey']

theorem placed_fresh (mode : Mode) :
  Placed mode { free := mode.firstSlot }
  := by
  constructor
  · apply le_refl
  · rintro s ⟨⟩
  · rintro s ⟨⟩
  · apply List.nodup_nil

section Placed

variable {mode : Mode} {limits : Limits} {e : Event} {es : List Event} {r r' : Resources}
  {ss new : List Slot}

/-- Slots that are held by nobody yet may be added. -/
theorem Placed.of_perm
    (hr : Placed mode r) (hfree : r.free ≤ r'.free) (hperm : r'.slots.Perm (r.slots ++ new))
    (hbuffers : ∀ {key b}, r.buffers.find? key = some b → r'.buffers.find? key = some b)
    (hnodup : new.Nodup) (hnew : ∀ s ∈ new, s ∉ r.slots ∧ s < r'.free)
    (hreserved : ∀ s ∈ new, s < mode.firstSlot →
      ∃ key b, r'.buffers.find? key = some b ∧ mode.reservedSlot? key = some s) :
  Placed mode r'
  := by
  constructor
  · apply le_trans hr.first_le hfree
  · intro s hs
    rcases List.mem_append.mp (hperm.mem_iff.mp hs) with hs | hs
    · apply lt_of_lt_of_le (hr.lt_free s hs) hfree
    · exact (hnew s hs).2
  · intro s hs hfirst
    rcases List.mem_append.mp (hperm.mem_iff.mp hs) with hs | hs
    · obtain ⟨key, b, hb, hkey⟩ := hr.reserved s hs hfirst
      exact ⟨key, b, hbuffers hb, hkey⟩
    · apply hreserved s hs hfirst
  · rw [hperm.nodup_iff, List.nodup_append]
    use hr.nodup, hnodup
    rintro s hs _ hs' rfl
    exact (hnew s hs').1 hs

/-- A step keeps the slots apart. -/
theorem Step.placed (h : Step mode limits e r ss r') (hr : Placed mode r) :
  Placed mode r'
  := by
  have hhanded := h.handed
  obtain ⟨new, hperm, hnew⟩ := h.holdings
  have hslots : r'.slots.Perm (r.slots ++ new.map Holding.slot) := by
    rw [slots, slots, ← List.map_append]
    apply hperm.map
  rcases hnew with hnew | ⟨key, b, hnone, hsome, hreserved, rfl⟩
  · -- slots handed out were free before
    apply hr.of_perm hhanded.le hslots h.find?_buffers
    · apply hhanded.nodup.sublist hnew
    · intro s hs
      obtain ⟨hle, hlt⟩ := hhanded.mem (hnew.subset hs)
      constructor
      · intro hmem
        exact absurd (hr.lt_free s hmem) (not_lt_of_ge hle)
      · apply hlt
    · intro s hs hfirst
      obtain ⟨hle, -⟩ := hhanded.mem (hnew.subset hs)
      exact absurd hfirst (not_lt_of_ge (le_trans hr.first_le hle))
  · -- the reserved slot could only be held by a buffer with the same key
    have hfirst := lt_firstSlot_of_reservedSlot? hreserved
    apply hr.of_perm hhanded.le hslots h.find?_buffers
    · apply List.nodup_singleton
    · intro s hs
      obtain rfl := List.mem_singleton.mp hs
      constructor
      · intro hmem
        obtain ⟨key', b', hb', hkey'⟩ := hr.reserved _ hmem hfirst
        obtain rfl := reservedSlot?_injective hreserved hkey'
        rw [hnone] at hb'
        cases hb'
      · apply lt_of_lt_of_le hfirst (le_trans hr.first_le hhanded.le)
    · intro s hs _
      obtain rfl := List.mem_singleton.mp hs
      exact ⟨key, b, hsome, hreserved⟩

theorem Steps.placed (h : Steps mode limits es r ss r') (hr : Placed mode r) :
  Placed mode r'
  := h.preserves Step.placed hr

end Placed

end Resources

end ShaderPair
