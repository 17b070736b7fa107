import ShaderPair.Proofs.Visibility

/-!
# The resource at a slot

A description says what resource is at a slot on its first sight only (`Layout.resource?`): every
later one leaves it, whatever it says (`Layout.Aligned.resource?_describeElements`).  So what the
layout says of a slot stays in every step (`Resources.lasting_resource?`).  A texture that is new
takes slots of which nothing is known (`Resources.resource?_eq_none_of_new`).
-/

namespace ShaderPair

namespace Layout

/-- The resource that is described at a slot. -/
def resource? (layout : Layout) (slot : Slot) : Option Resource :=
  (layout.find? slot).map fun known => known.2.resource

variable {layout : Layout} {slot slot' : Slot} {resource resource' : Resource}

/-- A description says what is at its slot, unless something is there. -/
theorem Aligned.resource?_describe
    (h : layout.Aligned) (name : Text) (elementName : Option Text) (stage : Stage) :
  (layout.describe slot name elementName resource stage).resource? slot'
    = if slot' = slot then some ((layout.resource? slot').getD resource)
      else layout.resource? slot'
  := by
  rw [resource?, resource?, h.find?_describe]
  by_cases hslot : slot' = slot
  · subst hslot
    rw [if_pos rfl, if_pos rfl, sight]
    cases layout.find? slot' <;> rfl
  · rw [if_neg hslot, if_neg hslot]

/-- What is known to be at a slot stays when a slot is described. -/
theorem Aligned.resource?_describe_of_some
    (h : layout.Aligned) (hslot : layout.resource? slot' = some resource') (name : Text)
    (elementName : Option Text) (stage : Stage) :
  (layout.describe slot name elementName resource stage).resource? slot' = some resource'
  := by
  rw [h.resource?_describe, hslot]
  split <;> rfl

/-- The description of the elements of a texture says what is at their slots, unless something is
there. -/
theorem Aligned.resource?_describeElements
    (h : layout.Aligned) (name : Text) (isArray : Bool) (stage : Stage) (number : Nat)
    (slots : List Slot) :
  (layout.describeElements name isArray resource stage number slots).resource? slot
    = if slot ∈ slots then some ((layout.resource? slot).getD resource)
      else layout.resource? slot
  := by
  induction slots generalizing layout number with
  | nil => rfl
  | cons slot' slots ih =>
    rw [Layout.describeElements, ih (h.describe _ _ _ _ _), h.resource?_describe]
    by_cases hslot : slot = slot'
    · simp [hslot]
    · simp [hslot]

theorem Aligned.resource?_describeElements_of_some
    (h : layout.Aligned) (hslot : layout.resource? slot = some resource') (name : Text)
    (isArray : Bool) (stage : Stage) (number : Nat) (slots : List Slot) :
  (layout.describeElements name isArray resource stage number slots).resource? slot
    = some resource'
  := by
  rw [h.resource?_describeElements, hslot]
  split <;> rfl

end Layout

namespace Resources

variable {mode : Mode} {limits : Limits} {es : List Event} {r r' : Resources} {ss : List Slot}
  {name : Text} {t : Texture} {slot : Slot}

/-- What is known to be at a slot stays. -/
theorem lasting_resource? (slot : Slot) (resource : Resource) :
  Lasting fun r => r.layout.Aligned ∧ r.layout.resource? slot = some resource
  := by
  rintro mode limits e r ss r' hstep ⟨ha, hslot⟩
  use hstep.aligned ha
  cases hstep with
  | search => exact hslot
  | mark sampler =>
    rw [layout_markAutoSampler]
    exact hslot
  | newTexture => exact ha.resource?_describeElements_of_some hslot _ _ _ _ _
  | seenTexture => exact ha.resource?_describeElements_of_some hslot _ _ _ _ _
  | _ => exact ha.resource?_describe_of_some hslot _ _ _

/-- Whether a texture is written to is settled when it is registered. -/
theorem lasting_isStorage (name : Text) (isStorage : Bool) :
  Lasting fun r => ∃ t, r.textures.find? name = some t ∧ t.isStorage = isStorage
  := by
  rintro mode limits e r ss r' hstep ⟨t, ht, rfl⟩
  apply hstep.exists_find?_textures (R := fun t t' => t'.isStorage = t.isStorage)
    (fun _ => rfl) (fun _ _ => rfl) (fun _ => rfl) ht

/-- Nothing is known of the slots that a texture takes when it is registered. -/
theorem resource?_eq_none_of_new
    (hplaced : Placed mode r) (hd : r.layout.Describes r.holdings)
    (hsteps : Steps mode limits es r ss r') (hnew : r.textures.find? name = none)
    (ht : r'.textures.find? name = some t) (hslot : slot ∈ t.slots) :
  r.layout.resource? slot = none
  := by
  cases hfind : r.layout.find? slot with
  | none =>
    rw [Layout.resource?, hfind]
    rfl
  | some known =>
    -- what is there would be held by two resources then
    obtain ⟨registry, name', hheld⟩ := exists_holds_of_find? hd hfind
    obtain ⟨slots, hslots, hmem⟩ := hheld
    have hheld' : r'.Holds registry name' slot :=
      ⟨slots, hsteps.preserves (lasting_slots? registry name' slots) hslots, hmem⟩
    have hself : r'.Holds .textures name slot := by
      refine ⟨t.slots, ?_, hslot⟩
      rw [slots?, ht, Option.map_some]
    have hplaced' := hsteps.preserves Step.placed hplaced
    obtain ⟨rfl, rfl⟩ := hself.unique hheld' hplaced'.nodup
    rw [slots?, hnew] at hslots
    cases hslots

end Resources

end ShaderPair
