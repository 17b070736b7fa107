import ShaderPair.Proofs.ContextFrame
import ShaderPair.Proofs.Description
import ShaderPair.Proofs.SlotDistinctness

/-!
# The catalogue of a finished shader pair

The catalogue repeats the layout for whoever fills the bindings.  The layout lists the holdings
group by group, in the order of their first sight (`Layout.groupHoldings`), and where it
describes the resources these are all holdings, each once (`Layout.Describes.flatten_perm`).  The
catalogue has a place for each of them and names each of them (`Catalogue.Lists`).  After every
pair that is finished the catalogue lists the resources (`catalogue_lists_resources`).
-/

namespace ShaderPair

/-! ### The holdings of a layout -/

/-- The name of the binding itself. -/
def Holding.bindingName (h : Holding) : Text := h.elementName.getD h.name

/-- The place of a holding in its group. -/
def Holding.placeholder (h : Holding) : Placeholder := ⟨h.slot.binding, h.registry = .buffers⟩

theorem Resource.isBuffer_eq (resource : Resource) :
  resource.isBuffer = decide (resource.registry = .buffers)
  := by
  cases resource <;> rfl

theorem Resource.isSampler_eq (resource : Resource) :
  resource.isSampler = decide (resource.registry = .samplers)
  := by
  cases resource <;> rfl

/-- What is neither a buffer nor a sampler is a texture. -/
theorem Resource.isTexture_eq (resource : Resource) :
  (!resource.isBuffer && !resource.isSampler) = decide (resource.registry = .textures)
  := by
  cases resource <;> rfl

namespace Layout

/-- The holding that is described by an entry and what is known of its binding. -/
def toHolding : Slot × LayoutInfo × LayoutEntry → Holding :=
  fun (slot, i, e) => ⟨slot, e.resource.registry, i.name, i.elementName⟩

/-- The holdings that are described, for each group in the order of their entries. -/
def groupHoldings (layout : Layout) : List (List Holding) :=
  (layout.entries.zip layout.infos).zipIdx.map fun ((entries, infos), g) =>
    (groupList g entries infos).map toHolding

variable {layout : Layout} {entries : List LayoutEntry} {infos : OrderedMap Nat LayoutInfo}
  {group : Nat}

theorem flatten_groupHoldings (layout : Layout) :
  layout.groupHoldings.flatten = layout.toList.map toHolding
  := by
  rw [groupHoldings, toList, List.map_flatMap, List.flatMap_def]

/-- Every entry of a group is listed with what is known of it. -/
theorem GroupAligned.map_groupList {β : Type}
    (h : GroupAligned entries infos) (group : Nat) (f : Slot → LayoutEntry → β) :
  (groupList group entries infos).map (fun x => f x.1 x.2.2)
    = entries.map fun e => f ⟨group, e.binding⟩ e
  := by
  have hknown : ∀ e ∈ entries, ∃ i, infos.find? e.binding = some i := by
    intro e he
    have hkey : e.binding ∈ infos.keys := h.keys ▸ List.mem_map_of_mem he
    apply Option.ne_none_iff_exists'.mp
    intro hnone
    exact OrderedMap.find?_eq_none_iff.mp hnone hkey
  rw [groupList, List.map_filterMap, ← List.filterMap_eq_map]
  apply List.filterMap_congr
  intro e he
  obtain ⟨i, hi⟩ := hknown e he
  rw [hi]
  rfl

/-- What is listed of a group are its entries with what is known of their bindings. -/
theorem mem_groupList_iff {slot : Slot} {i : LayoutInfo} {e : LayoutEntry} :
  (slot, i, e) ∈ groupList group entries infos ↔
    e ∈ entries ∧ infos.find? e.binding = some i ∧ slot = ⟨group, e.binding⟩
  := by
  simp only [groupList, List.mem_filterMap, Option.map_eq_some_iff, Prod.mk.injEq]
  constructor
  · rintro ⟨e, he, i, hi, rfl, rfl, rfl⟩
    exact ⟨he, hi, rfl⟩
  · rintro ⟨he, hi, rfl⟩
    exact ⟨e, he, i, hi, rfl, rfl, rfl⟩

/-- The groups of the two tables in pairs. -/
theorem Aligned.mem_zipIdx_zip_iff (h : layout.Aligned) :
  ((entries, infos), group) ∈ (layout.entries.zip layout.infos).zipIdx ↔
    group < layout.entries.length ∧ entries = layout.entriesOf group ∧
      infos = layout.infosOf group
  := by
  rw [List.mk_mem_zipIdx_iff_getElem?, List.getElem?_zip_eq_some]
  constructor
  · rintro ⟨hentries, hinfos⟩
    use (List.getElem?_eq_some_iff.mp hentries).1
    rw [entriesOf, infosOf, List.getD_eq_getElem?_getD, List.getD_eq_getElem?_getD, hentries,
      hinfos]
    exact ⟨rfl, rfl⟩
  · rintro ⟨hlt, rfl, rfl⟩
    have hlt' : group < layout.infos.length := h.length_eq ▸ hlt
    rw [entriesOf, infosOf, List.getD_eq_getElem?_getD, List.getD_eq_getElem?_getD,
      List.getElem?_eq_getElem hlt, List.getElem?_eq_getElem hlt']
    exact ⟨rfl, rfl⟩

/-- What is listed is what is known of the slots. -/
theorem Aligned.mem_toList_iff
    (h : layout.Aligned) {slot : Slot} {i : LayoutInfo} {e : LayoutEntry} :
  (slot, i, e) ∈ layout.toList ↔ layout.find? slot = some (i, e)
  := by
  rw [h.find?_eq_some_iff, toList, List.mem_flatMap]
  constructor
  · rintro ⟨⟨⟨entries, infos⟩, group⟩, hgroup, hmem⟩
    obtain ⟨-, rfl, rfl⟩ := h.mem_zipIdx_zip_iff.mp hgroup
    obtain ⟨he, hi, rfl⟩ := mem_groupList_iff.mp hmem
    obtain ⟨e', he', hbinding⟩ := (h.group group).getElem?_index hi
    obtain rfl := List.inj_on_of_nodup_map (h.group group).nodup_bindings
      (List.mem_of_getElem? he') he hbinding
    exact ⟨hi, he', rfl⟩
  · rintro ⟨hi, he, hbinding⟩
    have he' := List.mem_of_getElem? he
    have hlt : slot.group < layout.entries.length := by
      by_contra hle
      rw [entriesOf, List.getD_eq_getElem?_getD,
        List.getElem?_eq_none (Nat.le_of_not_lt hle)] at he'
      cases he'
    refine ⟨((_, _), slot.group), h.mem_zipIdx_zip_iff.mpr ⟨hlt, rfl, rfl⟩, ?_⟩
    apply mem_groupList_iff.mpr
    rw [hbinding]
    exact ⟨he', hi, rfl⟩

/-- No slot is listed twice. -/
theorem Aligned.nodup_map_fst_toList (h : layout.Aligned) :
  (layout.toList.map Prod.fst).Nodup
  := by
  rw [toList, List.map_flatMap, List.nodup_flatMap]
  constructor
  · rintro ⟨⟨entries, infos⟩, group⟩ hgroup
    obtain ⟨-, rfl, rfl⟩ := h.mem_zipIdx_zip_iff.mp hgroup
    have hslots := (h.group group).map_groupList group fun slot _ => slot
    refine hslots ▸ List.Nodup.of_map Slot.binding ?_
    rw [List.map_map]
    apply (h.group group).nodup_bindings
  · have hpairwise : (layout.entries.zip layout.infos).zipIdx.Pairwise (·.2 ≠ ·.2) := by
      apply List.pairwise_map.mp
      rw [List.zipIdx_map_snd]
      exact List.nodup_range'
    -- the slots of different groups are different
    apply hpairwise.imp
    rintro ⟨⟨entries, infos⟩, group⟩ ⟨⟨entries', infos'⟩, group'⟩ hne slot hslot hslot'
    obtain ⟨⟨_, i, e⟩, hmem, rfl⟩ := List.mem_map.mp hslot
    obtain ⟨⟨_, i', e'⟩, hmem', heq⟩ := List.mem_map.mp hslot'
    obtain ⟨-, -, rfl⟩ := mem_groupList_iff.mp hmem
    obtain ⟨-, -, rfl⟩ := mem_groupList_iff.mp hmem'
    exact hne (congrArg Slot.group heq).symm

/-- A layout that describes some holdings lists them, each once. -/
theorem Describes.flatten_perm
    {hs : List Holding} (hd : layout.Describes hs) (hnodup : hs.Nodup) :
  layout.groupHoldings.flatten.Perm hs
  := by
  rw [flatten_groupHoldings]
  have hlisted : (layout.toList.map toHolding).Nodup := by
    apply List.Nodup.of_map Holding.slot
    rw [List.map_map]
    apply hd.aligned.nodup_map_fst_toList
  apply (List.perm_ext_iff_of_nodup hlisted hnodup).mpr
  intro h
  have hiff := hd.holding?_eq_some_iff h.slot h
  rw [Layout.holding?, Option.map_eq_some_iff] at hiff
  rw [List.mem_map]
  constructor
  · rintro ⟨⟨slot, i, e⟩, hmem, rfl⟩
    exact (hiff.mp ⟨(i, e), hd.aligned.mem_toList_iff.mp hmem, rfl⟩).1
  · intro hh
    obtain ⟨⟨i, e⟩, hfind, heq⟩ := hiff.mpr ⟨hh, rfl⟩
    exact ⟨(h.slot, i, e), hd.aligned.mem_toList_iff.mpr hfind, heq⟩

/-- The holdings that are listed for a group have their slots in it. -/
theorem group_eq_of_mem_groupHoldings
    {h : Holding} (hmem : h ∈ layout.groupHoldings.getD group []) :
  h.slot.group = group
  := by
  rw [groupHoldings, List.getD_eq_getElem?_getD, List.getElem?_map, List.getElem?_zipIdx,
    Option.map_map] at hmem
  cases hzip : (layout.entries.zip layout.infos)[group]? with
  | none =>
    rw [hzip] at hmem
    cases hmem
  | some tables =>
    rw [hzip] at hmem
    obtain ⟨⟨slot, i, e⟩, hlisted, rfl⟩ := List.mem_map.mp hmem
    obtain ⟨-, -, rfl⟩ := mem_groupList_iff.mp hlisted
    apply Nat.zero_add

end Layout

/-! ### The catalogue -/

/-- A catalogue that lists holdings group by group. -/
structure Catalogue.Lists (k : Catalogue) (hs : List (List Holding)) : Prop where
  /-- There is a place for every holding. -/
  groups_eq : k.groups = hs.map fun group => group.map Holding.placeholder
  /-- The buffers have the names under which they are registered. -/
  buffers_eq : k.buffers = (hs.flatten.filter (·.registry = .buffers)).map Holding.name
  /-- The elements of textures have their own names. -/
  textures_eq : k.textures = (hs.flatten.filter (·.registry = .textures)).map Holding.bindingName
  /-- The samplers have the names under which they are registered. -/
  samplers_eq : k.samplers = (hs.flatten.filter (·.registry = .samplers)).map Holding.name

namespace Layout

variable {layout : Layout}

/-- What is known of the bindings of a registry is known of its holdings. -/
theorem map_infosWhere
    {β : Type} {p : Resource → Bool} {registry : Registry}
    (hp : ∀ resource, p resource = decide (resource.registry = registry)) {f : LayoutInfo → β}
    {g : Holding → β} (hg : ∀ x, g (toHolding x) = f x.2.1) (layout : Layout) :
  (layout.infosWhere p).map f
    = (layout.groupHoldings.flatten.filter (·.registry = registry)).map g
  := by
  have hfilter : ∀ x ∈ layout.toList,
      p x.2.2.resource = decide ((toHolding x).registry = registry) := by
    intro x _
    apply hp
  change ((layout.toList.filter fun x => p x.2.2.resource).map fun x => x.2.1).map f = _
  rw [flatten_groupHoldings, List.filter_map, List.map_map, List.map_map,
    List.filter_congr hfilter]
  apply List.map_congr_left
  intro x _
  exact (hg x).symm

/-- The places are those of the holdings. -/
theorem Aligned.placeholders_eq (h : layout.Aligned) :
  layout.placeholders = layout.groupHoldings.map fun group => group.map Holding.placeholder
  := by
  have hlength : layout.entries.length ≤ layout.infos.length := h.length_eq.le
  have hentries : layout.entries
      = (layout.entries.zip layout.infos).zipIdx.map (Prod.fst ∘ Prod.fst) := by
    rw [← List.map_map, List.zipIdx_map_fst, List.map_fst_zip hlength]
  rw [placeholders, groupHoldings, List.map_map]
  nth_rewrite 1 [hentries]
  rw [List.map_map]
  apply List.map_congr_left
  rintro ⟨⟨entries, infos⟩, group⟩ hgroup
  obtain ⟨-, rfl, rfl⟩ := h.mem_zipIdx_zip_iff.mp hgroup
  have hlisted := (h.group group).map_groupList group
    fun slot e => (⟨slot.binding, e.resource.isBuffer⟩ : Placeholder)
  dsimp only [Function.comp_apply]
  rw [List.map_map, ← hlisted]
  apply List.map_congr_left
  rintro ⟨slot, i, e⟩ -
  change (⟨slot.binding, e.resource.isBuffer⟩ : Placeholder) = _
  rw [Resource.isBuffer_eq]
  rfl

end Layout

/-- Taking stock of an aligned layout lists its holdings. -/
theorem Context.lists_collect {c : Context} (h : c.resources.layout.Aligned) :
  c.collectNames.collectPlaceholders.catalogue.Lists c.resources.layout.groupHoldings
  := by
  constructor
  · apply h.placeholders_eq
  · apply Layout.map_infosWhere Resource.isBuffer_eq
    intro x
    rfl
  · apply Layout.map_infosWhere Resource.isTexture_eq
    intro x
    rfl
  · apply Layout.map_infosWhere Resource.isSampler_eq
    intro x
    rfl

open Compile in
/-- After every pair that is finished, whatever was done before, the catalogue lists each holding
of the resources once, under the group of its slot. -/
theorem catalogue_lists_resources
    (mode : Mode) (limits : Limits) (components : OrderedMap Text Int) (ops : List Operation)
    (source : SourcePair) :
  let c := (Context.fresh mode limits components).after ops
  let o := pair source c
  o.result.isOk →
    ∃ hs : List (List Holding), o.context.catalogue.Lists hs ∧
      hs.flatten.Perm o.context.resources.holdings ∧
      ∀ group, ∀ h ∈ hs.getD group [], h.slot.group = group
  := by
  intro c o hok
  obtain ⟨texts, htexts⟩ := exists_of_isOk hok
  have hsession : (Context.fresh mode limits components).after (ops ++ [.pair source])
      = o.context := by
    rw [Session.after_append]
    exact context_ignore _ _
  have hdescribes : o.context.resources.layout.Describes o.context.resources.holdings :=
    hsession ▸ Session.describes _
  have hnodup : o.context.resources.slots.Nodup := hsession ▸ (Session.placed _).nodup
  refine ⟨o.context.resources.layout.groupHoldings, ?_, hdescribes.flatten_perm hnodup.of_map,
    fun _ _ => Layout.group_eq_of_mem_groupHoldings⟩
  obtain ⟨c', -, ⟨⟨fault, hfault⟩, -⟩ | ⟨-, hcontext⟩⟩ := finishes_pair source c
  · cases htexts.symm.trans hfault
  · change o.context = _ at hcontext
    rw [hcontext] at hdescribes ⊢
    exact Context.lists_collect hdescribes.aligned

end ShaderPair
