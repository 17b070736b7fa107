import ShaderPair.Layout
import Mathlib.Data.List.Basic

/-!
# The two tables of a layout

In every group the infos belong to the entries one by one: they have the same bindings in the
same order, and each info points to the place of its entry (`Layout.Aligned`).  A description
keeps the tables so (`Layout.Aligned.describe`).  What the two tables say of a slot together is
`Layout.find?`, and `Layout.find?_describe` tells what a description changes: the slot
described gets an entry unless it has one, a stage is added to it, and all else stays.
-/

namespace ShaderPair

namespace Layout

/-! ### One group -/

/-- The infos of a group have the bindings of its entries and point to their places. -/
def GroupAligned (entries : List LayoutEntry) (infos : OrderedMap Nat LayoutInfo) : Prop :=
  infos.entries.map (fun e => (e.1, e.2.index)) = (entries.map LayoutEntry.binding).zipIdx

variable {entries : List LayoutEntry} {infos : OrderedMap Nat LayoutInfo}

theorem GroupAligned.keys (h : GroupAligned entries infos) :
  infos.keys = entries.map LayoutEntry.binding
  := by
  have hfst := congrArg (List.map Prod.fst) h
  rw [List.map_map, List.zipIdx_map_fst] at hfst
  exact hfst

/-- No binding occurs twice in a group. -/
theorem GroupAligned.nodup_bindings (h : GroupAligned entries infos) :
  (entries.map LayoutEntry.binding).Nodup
  := by
  rw [← h.keys]
  apply infos.nodup

/-- An info points to an entry of its binding. -/
theorem GroupAligned.getElem?_index
    (h : GroupAligned entries infos) {b : Nat} {i : LayoutInfo} (hi : infos.find? b = some i) :
  ∃ e, entries[i.index]? = some e ∧ e.binding = b
  := by
  have hmem : (b, i.index) ∈ infos.entries.map (fun e => (e.1, e.2.index)) :=
    List.mem_map_of_mem (f := fun e => (e.1, e.2.index)) (OrderedMap.mem_entries_iff.mpr hi)
  rw [h, List.mk_mem_zipIdx_iff_getElem?, List.getElem?_map, Option.map_eq_some_iff] at hmem
  exact hmem

/-- Infos of different bindings point to different places. -/
theorem GroupAligned.index_ne
    (h : GroupAligned entries infos) {b b' : Nat} {i i' : LayoutInfo}
    (hi : infos.find? b = some i) (hi' : infos.find? b' = some i') (hne : b' ≠ b) :
  i.index ≠ i'.index
  := by
  intro heq
  obtain ⟨e, he, hb⟩ := h.getElem?_index hi
  obtain ⟨e', he', hb'⟩ := h.getElem?_index hi'
  rw [← heq, he] at he'
  obtain rfl := Option.some.inj he'
  exact hne (hb'.symm.trans hb)

/-- A group stays aligned when an entry with a new binding comes last. -/
theorem GroupAligned.append
    (h : GroupAligned entries infos) (e : LayoutEntry) (hnew : infos.find? e.binding = none)
    (name : Text) (elementName : Option Text) :
  GroupAligned (entries ++ [e])
    (infos.insert e.binding ⟨name, elementName, entries.length⟩)
  := by
  rw [GroupAligned] at *
  rw [OrderedMap.entries_insert_of_find?_eq_none hnew, List.map_append, h, List.map_append,
    List.zipIdx_append]
  simp

/-- A group stays aligned when its entries are seen from another stage. -/
theorem GroupAligned.see (h : GroupAligned entries infos) (index : Nat) (stage : Stage) :
  GroupAligned (entries.modify index (Layout.see stage)) infos
  := by
  have hmap : (entries.modify index (Layout.see stage)).map LayoutEntry.binding
      = entries.map LayoutEntry.binding := by
    apply List.ext_getElem?
    intro k
    simp only [List.getElem?_map, List.getElem?_modify, Option.map_eq_map, Option.map_map]
    congr 1
    funext e
    by_cases hk : index = k
    · simp [hk, Layout.see]
    · simp [hk]
  rw [GroupAligned] at *
  rw [h, hmap]

/-! ### All groups -/

/-- The two tables have the same groups, and every group is aligned. -/
structure Aligned (layout : Layout) : Prop where
  /-- The tables have the same number of groups. -/
  length_eq : layout.entries.length = layout.infos.length
  /-- Every group is aligned. -/
  group (g : Nat) : GroupAligned (layout.entriesOf g) (layout.infosOf g)

theorem aligned_empty :
  Aligned {}
  := by
  constructor
  · rfl
  · intro g
    rfl

theorem getD_append_replicate {α : Type} (as : List α) (n g : Nat) (a : α) :
  (as ++ List.replicate n a).getD g a = as.getD g a
  := by
  simp only [List.getD_eq_getElem?_getD, List.getElem?_append, List.getElem?_replicate]
  split
  · rfl
  next h =>
    rw [List.getElem?_eq_none (Nat.le_of_not_lt h)]
    split <;> rfl

@[simp]
theorem entriesOf_extend (group g : Nat) (layout : Layout) :
  (extend group layout).entriesOf g = layout.entriesOf g
  := getD_append_replicate _ _ _ _

@[simp]
theorem infosOf_extend (group g : Nat) (layout : Layout) :
  (extend group layout).infosOf g = layout.infosOf g
  := getD_append_replicate _ _ _ _

theorem lt_length_extend (group : Nat) (layout : Layout) :
  group < (extend group layout).entries.length
  := by
  simp only [extend, List.length_append, List.length_replicate]
  omega

theorem Aligned.extend {layout : Layout} (h : layout.Aligned) (group : Nat) :
  (layout.extend group).Aligned
  := by
  constructor
  · simp [Layout.extend, h.length_eq]
  · intro g
    rw [entriesOf_extend, infosOf_extend]
    apply h.group

theorem getD_set {α : Type} {as : List α} {g : Nat} (hg : g < as.length) (g' : Nat) (a d : α) :
  (as.set g a).getD g' d = if g' = g then a else as.getD g' d
  := by
  simp only [List.getD_eq_getElem?_getD, List.getElem?_set]
  by_cases h : g = g'
  · subst h
    simp [hg]
  · simp [h, Ne.symm h]

section Update

variable {layout : Layout} {slot : Slot}

theorem entriesOf_append
    (hg : slot.group < layout.entries.length) (name : Text) (elementName : Option Text)
    (resource : Resource) (stage : Stage) (g : Nat) :
  (layout.append slot name elementName resource stage).entriesOf g
    = if g = slot.group then layout.entriesOf g ++ [see stage ⟨slot.binding, resource, {}⟩]
      else layout.entriesOf g
  := by
  apply Eq.trans (getD_set hg g _ _)
  by_cases h : g = slot.group
  · simp [h]
  · simp only [if_neg h]
    rfl

theorem infosOf_append
    (hg : slot.group < layout.infos.length) (name : Text) (elementName : Option Text)
    (resource : Resource) (stage : Stage) (g : Nat) :
  (layout.append slot name elementName resource stage).infosOf g
    = if g = slot.group then
        (layout.infosOf g).insert slot.binding
          ⟨name, elementName, (layout.entriesOf g).length⟩
      else layout.infosOf g
  := by
  apply Eq.trans (getD_set hg g _ _)
  by_cases h : g = slot.group
  · simp [h]
  · simp only [if_neg h]
    rfl

theorem entriesOf_seeAt
    {group : Nat} (hg : group < layout.entries.length) (index : Nat) (stage : Stage) (g : Nat) :
  (layout.seeAt group index stage).entriesOf g
    = if g = group then (layout.entriesOf g).modify index (see stage) else layout.entriesOf g
  := by
  apply Eq.trans (getD_set hg g _ _)
  by_cases h : g = group
  · simp [h]
  · simp only [if_neg h]
    rfl

@[simp]
theorem infosOf_seeAt (group index : Nat) (stage : Stage) (g : Nat) :
  (layout.seeAt group index stage).infosOf g = layout.infosOf g
  := rfl

/-- The tables stay aligned when a new binding is entered. -/
theorem Aligned.append
    (h : layout.Aligned) (hg : slot.group < layout.entries.length)
    (hnew : (layout.infosOf slot.group).find? slot.binding = none) (name : Text)
    (elementName : Option Text) (resource : Resource) (stage : Stage) :
  (layout.append slot name elementName resource stage).Aligned
  := by
  have hg' : slot.group < layout.infos.length := h.length_eq ▸ hg
  constructor
  · simp [Layout.append, h.length_eq]
  · intro g
    rw [entriesOf_append hg, infosOf_append hg']
    by_cases hgroup : g = slot.group
    · subst hgroup
      simp only [if_true]
      apply (h.group _).append (see stage ⟨slot.binding, resource, {}⟩) hnew
    · simp only [if_neg hgroup]
      apply h.group

theorem Aligned.seeAt
    (h : layout.Aligned) {group : Nat} (hg : group < layout.entries.length) (index : Nat)
    (stage : Stage) :
  (layout.seeAt group index stage).Aligned
  := by
  constructor
  · simp [Layout.seeAt, h.length_eq]
  · intro g
    rw [entriesOf_seeAt hg, infosOf_seeAt]
    split
    · apply (h.group g).see
    · apply h.group

/-- A description keeps the tables aligned. -/
theorem Aligned.describe
    (h : layout.Aligned) (slot : Slot) (name : Text) (elementName : Option Text)
    (resource : Resource) (stage : Stage) :
  (layout.describe slot name elementName resource stage).Aligned
  := by
  rw [Layout.describe]
  split
  next hnew =>
    apply (h.extend _).append (lt_length_extend _ _) hnew
  next i _ =>
    apply (h.extend _).seeAt (lt_length_extend _ _)

end Update

/-! ### What is known of a slot -/

/-- The info and the entry of a slot. -/
def find? (layout : Layout) (slot : Slot) : Option (LayoutInfo × LayoutEntry) :=
  ((layout.infosOf slot.group).find? slot.binding).bind fun i =>
    ((layout.entriesOf slot.group)[i.index]?).map fun e => (i, e)

section Find

variable {layout : Layout}

@[simp]
theorem find?_extend (group : Nat) (layout : Layout) (slot : Slot) :
  (layout.extend group).find? slot = layout.find? slot
  := by
  simp only [find?, entriesOf_extend, infosOf_extend]

/-- The info of a slot has an entry of its binding beside it. -/
theorem Aligned.find?_eq_some_iff
    (h : layout.Aligned) {slot : Slot} {i : LayoutInfo} {e : LayoutEntry} :
  layout.find? slot = some (i, e) ↔
    (layout.infosOf slot.group).find? slot.binding = some i ∧
      (layout.entriesOf slot.group)[i.index]? = some e ∧ e.binding = slot.binding
  := by
  simp only [find?, Option.bind_eq_some_iff, Option.map_eq_some_iff, Prod.mk.injEq]
  constructor
  · rintro ⟨i', hi, e', he, rfl, rfl⟩
    obtain ⟨e, he', hb⟩ := (h.group _).getElem?_index hi
    rw [he] at he'
    obtain rfl := Option.some.inj he'
    exact ⟨hi, he, hb⟩
  · rintro ⟨hi, he, -⟩
    exact ⟨i, hi, e, he, rfl, rfl⟩

theorem Aligned.find?_eq_none_iff (h : layout.Aligned) {slot : Slot} :
  layout.find? slot = none ↔ (layout.infosOf slot.group).find? slot.binding = none
  := by
  constructor
  · intro hnone
    cases hi : (layout.infosOf slot.group).find? slot.binding with
    | none => rfl
    | some i =>
      obtain ⟨e, he, hb⟩ := (h.group _).getElem?_index hi
      rw [h.find?_eq_some_iff.mpr ⟨hi, he, hb⟩] at hnone
      cases hnone
  · intro hi
    rw [find?, hi]
    rfl

theorem find?_append_self
    {slot : Slot} (hg : slot.group < layout.entries.length)
    (hg' : slot.group < layout.infos.length) (name : Text) (elementName : Option Text)
    (resource : Resource) (stage : Stage) :
  (layout.append slot name elementName resource stage).find? slot
    = some (⟨name, elementName, (layout.entriesOf slot.group).length⟩,
        see stage ⟨slot.binding, resource, {}⟩)
  := by
  simp [find?, entriesOf_append hg, infosOf_append hg']

theorem Aligned.find?_append_of_ne
    (h : layout.Aligned) {slot slot' : Slot} (hg : slot.group < layout.entries.length)
    (hne : slot' ≠ slot) (name : Text) (elementName : Option Text) (resource : Resource)
    (stage : Stage) :
  (layout.append slot name elementName resource stage).find? slot' = layout.find? slot'
  := by
  have hg' : slot.group < layout.infos.length := h.length_eq ▸ hg
  rw [find?, entriesOf_append hg, infosOf_append hg']
  by_cases hgroup : slot'.group = slot.group
  · have hb : slot'.binding ≠ slot.binding := by
      intro hb
      exact hne (Slot.ext hgroup hb)
    simp only [if_pos hgroup, OrderedMap.find?_insert_of_ne _ hb]
    rw [find?]
    cases hi : (layout.infosOf slot'.group).find? slot'.binding with
    | none => rfl
    | some i =>
      obtain ⟨e, he, -⟩ := (h.group _).getElem?_index hi
      have hlt : i.index < (layout.entriesOf slot'.group).length :=
        (List.getElem?_eq_some_iff.mp he).1
      simp only [Option.bind_some]
      rw [List.getElem?_append_left hlt]
  · simp only [if_neg hgroup]
    rfl

theorem Aligned.find?_seeAt
    (h : layout.Aligned) {slot : Slot} (hg : slot.group < layout.entries.length)
    {i : LayoutInfo} {e : LayoutEntry} (hs : layout.find? slot = some (i, e)) (stage : Stage)
    (slot' : Slot) :
  (layout.seeAt slot.group i.index stage).find? slot'
    = if slot' = slot then some (i, see stage e) else layout.find? slot'
  := by
  obtain ⟨hi, he, -⟩ := h.find?_eq_some_iff.mp hs
  rw [find?, entriesOf_seeAt hg, infosOf_seeAt]
  by_cases hslot : slot' = slot
  · subst hslot
    simp [hi, he]
  · rw [if_neg hslot]
    by_cases hgroup : slot'.group = slot.group
    · have hb : slot'.binding ≠ slot.binding := by
        intro hb
        exact hslot (Slot.ext hgroup hb)
      rw [if_pos hgroup, find?]
      cases hi' : (layout.infosOf slot'.group).find? slot'.binding with
      | none => rfl
      | some i' =>
        rw [← hgroup] at hi
        have hindex := (h.group _).index_ne hi hi' hb
        simp only [Option.bind_some]
        simp only [List.getElem?_modify, if_neg hindex, Option.map_eq_map, Option.map_id']
    · rw [if_neg hgroup]
      rfl

/-- What is known of a slot before a stage is added: what was known, or what a first sight
says. -/
def sight (layout : Layout) (slot : Slot) (name : Text) (elementName : Option Text)
    (resource : Resource) : LayoutInfo × LayoutEntry :=
  (layout.find? slot).getD
    (⟨name, elementName, (layout.entriesOf slot.group).length⟩, ⟨slot.binding, resource, {}⟩)

/-- A description changes what is known of its slot only. -/
theorem Aligned.find?_describe
    (h : layout.Aligned) (slot : Slot) (name : Text) (elementName : Option Text)
    (resource : Resource) (stage : Stage) (slot' : Slot) :
  (layout.describe slot name elementName resource stage).find? slot'
    = if slot' = slot then
        let known := layout.sight slot name elementName resource
        some (known.1, see stage known.2)
      else layout.find? slot'
  := by
  have hextend := h.extend slot.group
  have hg := lt_length_extend slot.group layout
  have hg' : slot.group < (layout.extend slot.group).infos.length := hextend.length_eq ▸ hg
  rw [Layout.describe, sight]
  cases hs : layout.find? slot with
  | none =>
    have hi := hextend.find?_eq_none_iff.mp ((find?_extend _ _ _).trans hs)
    simp only [hi]
    by_cases hslot : slot' = slot
    · subst hslot
      rw [find?_append_self hg hg', entriesOf_extend]
      simp
    · rw [hextend.find?_append_of_ne hg hslot, find?_extend, if_neg hslot]
  | some known =>
    obtain ⟨i, e⟩ := known
    have hknown := (find?_extend slot.group _ _).trans hs
    have hi := (hextend.find?_eq_some_iff.mp hknown).1
    simp only [hi]
    rw [hextend.find?_seeAt hg hknown, find?_extend]
    rfl

end Find

end Layout

end ShaderPair
