import ShaderPair.Proofs.LayoutTables
import ShaderPair.Proofs.Session

/-!
# The layout describes the resources

A layout describes holdings if what it knows of a slot is the holding of that slot
(`Layout.Describes`).  Each step describes the resource that it enters, so that the layout
describes exactly the holdings of the resources at any time (`Resources.Described`).
-/

namespace ShaderPair

/-! ### Descriptions of holdings -/

namespace Layout

/-- The holding of a slot, by what the layout knows of it. -/
def holding? (layout : Layout) (slot : Slot) : Option Holding :=
  (layout.find? slot).map fun (i, e) => ⟨slot, e.resource.registry, i.name, i.elementName⟩

/-- A layout that knows some holdings and nothing else. -/
structure Describes (layout : Layout) (hs : List Holding) : Prop where
  /-- The tables are aligned. -/
  aligned : layout.Aligned
  /-- What is known of a slot is its holding. -/
  holding?_eq_some_iff (slot : Slot) (h : Holding) :
    layout.holding? slot = some h ↔ h ∈ hs ∧ h.slot = slot

variable {layout : Layout} {hs hs' : List Holding}

theorem describes_empty :
  Describes {} []
  := by
  constructor
  · apply aligned_empty
  · intro slot h
    constructor
    · rintro ⟨⟩
    · rintro ⟨⟨⟩, -⟩

/-- Only which holdings there are matters. -/
theorem Describes.congr (hl : Describes layout hs) (h : ∀ x, x ∈ hs' ↔ x ∈ hs) :
  Describes layout hs'
  := by
  use hl.aligned
  intro slot x
  rw [hl.holding?_eq_some_iff, h]

/-- The description of a holding that is known already, or of one at a new slot, makes this
holding known. -/
theorem Aligned.holding?_describe
    (ha : layout.Aligned) {h : Holding} {resource : Resource} (hr : resource.registry = h.registry)
    (hslot : ∀ h', layout.holding? h.slot = some h' → h' = h) (stage : Stage) (slot : Slot) :
  (layout.describe h.slot h.name h.elementName resource stage).holding? slot
    = if slot = h.slot then some h else layout.holding? slot
  := by
  rw [holding?, ha.find?_describe, sight]
  by_cases heq : slot = h.slot
  · subst heq
    simp only [if_true]
    cases hknown : layout.find? h.slot with
    | none =>
      simp only [Option.getD_none, Option.map_some, see, hr]
    | some known =>
      obtain ⟨i, e⟩ := known
      simp only [Option.getD_some, Option.map_some, Option.some.injEq, see]
      apply hslot
      rw [holding?, hknown]
      rfl
  · rw [if_neg heq, if_neg heq]
    rfl

/-- A description adds a holding, unless another one has its slot. -/
theorem Describes.describe
    (hl : Describes layout hs) {h : Holding} {resource : Resource}
    (hr : resource.registry = h.registry) (hslot : ∀ h' ∈ hs, h'.slot = h.slot → h' = h)
    (stage : Stage) :
  Describes (layout.describe h.slot h.name h.elementName resource stage) (hs ++ [h])
  := by
  have hknown : ∀ h', layout.holding? h.slot = some h' → h' = h := by
    intro h' hh'
    obtain ⟨hmem, heq⟩ := (hl.holding?_eq_some_iff _ _).mp hh'
    apply hslot h' hmem heq
  use hl.aligned.describe _ _ _ _ _
  intro slot x
  rw [hl.aligned.holding?_describe hr hknown, List.mem_append, List.mem_singleton]
  by_cases heq : slot = h.slot
  · rw [if_pos heq, Option.some.injEq]
    constructor
    · rintro rfl
      exact ⟨Or.inr rfl, heq.symm⟩
    · rintro ⟨hx | rfl, hxslot⟩
      · exact (hslot x hx (hxslot.trans heq)).symm
      · rfl
  · rw [if_neg heq, hl.holding?_eq_some_iff]
    constructor
    · rintro ⟨hx, hxslot⟩
      exact ⟨Or.inl hx, hxslot⟩
    · rintro ⟨hx | rfl, hxslot⟩
      · exact ⟨hx, hxslot⟩
      · exact absurd hxslot.symm heq

/-- The description of the elements of a texture adds their holdings. -/
theorem Describes.describeElements
    {name : Text} {isArray : Bool} {resource : Resource} (hr : resource.registry = .textures)
    (stage : Stage) {number : Nat} {slots : List Slot} (hl : Describes layout hs)
    (hslots : ∀ a ∈ hs ++ Texture.holdingsFrom name isArray number slots,
      ∀ b ∈ hs ++ Texture.holdingsFrom name isArray number slots, a.slot = b.slot → a = b) :
  Describes (layout.describeElements name isArray resource stage number slots)
    (hs ++ Texture.holdingsFrom name isArray number slots)
  := by
  induction slots generalizing layout hs number with
  | nil =>
    rw [Texture.holdingsFrom, List.append_nil]
    apply hl
  | cons slot slots ih =>
    rw [Texture.holdingsFrom, List.append_cons] at hslots ⊢
    apply ih _ hslots
    apply hl.describe (h := ⟨slot, .textures, name, _⟩) hr
    intro h' hh'
    apply hslots h' (by simp [hh']) _ (by simp)

end Layout

/-! ### Steps -/

namespace Resources

section Enter

variable {r : Resources} {name : Text} {stage : Stage}

/-- What is held by a texture that is entered is described. -/
theorem describes_enterTexture
    {t : Texture} {resource : Resource} (hr : resource.registry = .textures)
    (hd : r.layout.Describes r.holdings)
    (hkeep : ∀ t', r.textures.find? name = some t' → t.holdings name = t'.holdings name)
    (hnodup : (r.enterTexture name t resource stage).slots.Nodup) :
  (r.enterTexture name t resource stage).layout.Describes
    (r.enterTexture name t resource stage).holdings
  := by
  have hmem : ∀ h, h ∈ (r.enterTexture name t resource stage).holdings ↔
      h ∈ r.holdings ++ t.holdings name := by
    intro h
    simp only [holdings, enterTexture, List.mem_append, mem_textureHoldings_insert hkeep]
    tauto
  apply (Layout.Describes.describeElements hr stage hd _).congr hmem
  intro a ha b hb
  apply eq_of_slot_eq hnodup ((hmem a).mpr ha) ((hmem b).mpr hb)

/-- A holding that comes in together with its description is described. -/
theorem describes_of_describe
    {r' : Resources} {h : Holding} {resource : Resource} (hr : resource.registry = h.registry)
    (hd : r.layout.Describes r.holdings)
    (hlayout : r'.layout = r.layout.describe h.slot h.name h.elementName resource stage)
    (hmem : ∀ x, x ∈ r'.holdings ↔ x ∈ r.holdings ++ [h]) (hnodup : r'.slots.Nodup) :
  r'.layout.Describes r'.holdings
  := by
  have hslot : ∀ x ∈ r.holdings, x.slot = h.slot → x = h := by
    intro x hx
    apply eq_of_slot_eq hnodup
    · apply (hmem x).mpr (List.mem_append_left _ hx)
    · apply (hmem h).mpr (List.mem_append_right _ (List.mem_singleton_self _))
  rw [hlayout]
  apply (hd.describe hr hslot stage).congr hmem

/-- What is held by a sampler that is entered is described. -/
theorem describes_enterSampler
    {s : Sampler} (hd : r.layout.Describes r.holdings)
    (hkeep : ∀ s', r.samplers.find? name = some s' → s.holding name = s'.holding name)
    (hnodup : (r.enterSampler name s stage).slots.Nodup) :
  (r.enterSampler name s stage).layout.Describes (r.enterSampler name s stage).holdings
  := by
  have hmem : ∀ h, h ∈ (r.enterSampler name s stage).holdings ↔
      h ∈ r.holdings ++ [s.holding name] := by
    intro h
    simp only [holdings, enterSampler, samplerHoldings, List.mem_append, List.mem_singleton,
      OrderedMap.mem_map_entries_insert hkeep]
    tauto
  apply describes_of_describe (h := s.holding name) rfl hd rfl hmem hnodup

/-- What is held by a buffer that is entered is described. -/
theorem describes_enterBuffer
    {b : Buffer} {kind : BufferKind} (hd : r.layout.Describes r.holdings)
    (hkeep : ∀ b', r.buffers.find? name = some b' → b.holding name = b'.holding name)
    (hnodup : (r.enterBuffer name b kind stage).slots.Nodup) :
  (r.enterBuffer name b kind stage).layout.Describes (r.enterBuffer name b kind stage).holdings
  := by
  have hmem : ∀ h, h ∈ (r.enterBuffer name b kind stage).holdings ↔
      h ∈ r.holdings ++ [b.holding name] := by
    intro h
    simp only [holdings, enterBuffer, bufferHoldings, List.mem_append, List.mem_singleton,
      OrderedMap.mem_map_entries_insert hkeep]
    tauto
  apply describes_of_describe (h := b.holding name) rfl hd rfl hmem hnodup

end Enter

theorem eq_of_find?_eq_none
    {α β : Type} {m : OrderedMap Text α} {name : Text} {y : β} {f : α → β}
    (h : m.find? name = none) (a : α) (ha : m.find? name = some a) :
  y = f a
  := by
  rw [h] at ha
  cases ha

theorem eq_of_find?_eq_some
    {α β : Type} {m : OrderedMap Text α} {name : Text} {a' : α} {y : β} {f : α → β}
    (h : m.find? name = some a') (hy : y = f a') (a : α) (ha : m.find? name = some a) :
  y = f a
  := by
  rw [h] at ha
  obtain rfl := Option.some.inj ha
  apply hy

/-- A step keeps the layout and the resources in step. -/
theorem Step.described
    {mode : Mode} {limits : Limits} {e : Event} {r r' : Resources} {ss : List Slot}
    (h : Step mode limits e r ss r') (hr : Placed mode r) (hd : r.layout.Describes r.holdings) :
  r'.layout.Describes r'.holdings
  := by
  have hnodup := (h.placed hr).nodup
  cases h with
  | search => apply hd
  | mark sampler =>
    have hmark : Step mode limits _ r _ _ := Step.mark sampler
    obtain ⟨htextures, -, hsamplers, hbuffers⟩ := hmark.of_mark
    rw [layout_markAutoSampler, Resources.holdings, htextures, hsamplers, hbuffers]
    apply hd
  | newTexture _ hnew =>
    apply describes_enterTexture (TextureFunction.registry_resource _ _) hd _ hnodup
    apply eq_of_find?_eq_none hnew
  | seenTexture function component _ hseen =>
    apply describes_enterTexture (TextureFunction.registry_resource _ _) hd _ hnodup
    apply eq_of_find?_eq_some hseen
    rfl
  | newSampler _ hnew =>
    apply describes_enterSampler hd _ hnodup
    apply eq_of_find?_eq_none hnew
  | seenSampler _ hseen =>
    apply describes_enterSampler hd _ hnodup
    apply eq_of_find?_eq_some hseen
    rfl
  | newBuffer _ hnew =>
    apply describes_enterBuffer hd _ hnodup
    apply eq_of_find?_eq_none hnew
  | reservedBuffer _ hnew =>
    apply describes_enterBuffer hd _ hnodup
    apply eq_of_find?_eq_none hnew
  | seenBuffer _ hseen =>
    apply describes_enterBuffer hd _ hnodup
    apply eq_of_find?_eq_some hseen
    rfl

end Resources

/-! ### Sessions -/

namespace Session

variable {mode : Mode} {limits : Limits} {components : OrderedMap Text Int}

theorem describes (ops : List Operation) :
  let r := ((Context.fresh mode limits components).after ops).resources
  r.layout.Describes r.holdings
  := by
  obtain ⟨-, hdescribes⟩ := preserves (c := .fresh mode limits components)
    (P := fun r => Resources.Placed mode r ∧ r.layout.Describes r.holdings)
    (fun h ⟨hplaced, hd⟩ => ⟨h.placed hplaced, h.described hplaced hd⟩)
    ⟨Resources.placed_fresh mode, Layout.describes_empty⟩ ops
  apply hdescribes

end Session

/-- In every session the layout and the registries describe the same resources.  The two tables
of the layout have the same groups; in each group the infos belong to the bindings of the
entries, each of which occurs once, and point to the places of these entries.  What is described
under a slot is what is held in this slot by a resource. -/
theorem layout_describes_resources
    (mode : Mode) (limits : Limits) (components : OrderedMap Text Int) (ops : List Operation) :
  let r := ((Context.fresh mode limits components).after ops).resources
  let layout := r.layout
  layout.entries.length = layout.infos.length ∧
    (∀ group,
      (layout.infosOf group).keys = (layout.entriesOf group).map LayoutEntry.binding ∧
      ((layout.entriesOf group).map LayoutEntry.binding).Nodup ∧
      ∀ binding info, (layout.infosOf group).find? binding = some info →
        ∃ entry, (layout.entriesOf group)[info.index]? = some entry ∧
          entry.binding = binding) ∧
    ∀ h : Holding, h ∈ r.holdings ↔
      ∃ info entry, (layout.infosOf h.slot.group).find? h.slot.binding = some info ∧
        (layout.entriesOf h.slot.group)[info.index]? = some entry ∧
        entry.resource.registry = h.registry ∧ info.name = h.name ∧
        info.elementName = h.elementName
  := by
  intro r layout
  have hd : layout.Describes r.holdings := Session.describes ops
  use hd.aligned.length_eq
  constructor
  · intro group
    have hgroup := hd.aligned.group group
    use hgroup.keys, hgroup.nodup_bindings
    intro _ _
    apply hgroup.getElem?_index
  · intro h
    have hiff := hd.holding?_eq_some_iff h.slot h
    rw [Layout.holding?, Option.map_eq_some_iff] at hiff
    constructor
    · intro hh
      obtain ⟨⟨info, entry⟩, hfind, heq⟩ := hiff.mpr ⟨hh, rfl⟩
      obtain ⟨hinfo, hentry, -⟩ := hd.aligned.find?_eq_some_iff.mp hfind
      use info, entry, hinfo, hentry
      rw [← heq]
      exact ⟨rfl, rfl, rfl⟩
    · rintro ⟨info, entry, hinfo, hentry, hregistry, hname, helement⟩
      obtain ⟨_, hentry', hbinding⟩ := (hd.aligned.group _).getElem?_index hinfo
      obtain rfl := Option.some.inj (hentry.symm.trans hentry')
      apply (hiff.mp _).1
      use (info, entry), hd.aligned.find?_eq_some_iff.mpr ⟨hinfo, hentry, hbinding⟩
      simp only [hregistry, hname, helement]

end ShaderPair
