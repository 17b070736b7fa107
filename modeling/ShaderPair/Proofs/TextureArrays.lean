import ShaderPair.Proofs.AllOrNothing
import ShaderPair.Proofs.SlotDistinctness
import ShaderPair.Proofs.SlotEnumeration

/-!
# The slots of texture arrays

The elements of a texture array take the next slots one by one, and nothing is said of a group
that has not enough of them: an array goes on at the start of the next group where its group is
full.  So its slots are a stretch of the enumeration of all slots, and they are consecutive
bindings of one group exactly if the group of the first one has room for all of them
(`textureArray_consecutive_iff`).
-/

namespace ShaderPair

/-! ### Stretches of slots -/

namespace Slot

/-- Slots that are consecutive bindings of one group. -/
def Consecutive (ss : List Slot) : Prop :=
  ∃ group first, ss = (List.range ss.length).map fun i => ⟨group, first + i⟩

variable {limits : Limits} {first n i : Nat}

/-- As long as there is room in the group of a slot, the slots behind it are the bindings behind
it. -/
theorem nth_add (h : n % limits.capacity + i < limits.capacity) :
  nth limits first (n + i) = ⟨(nth limits first n).group, (nth limits first n).binding + i⟩
  := by
  have hsplit : n + i = n % limits.capacity + i + limits.capacity * (n / limits.capacity) := by
    have hdiv := Nat.mod_add_div n limits.capacity
    omega
  rw [nth, hsplit, Nat.add_mul_div_left _ _ (by omega), Nat.div_eq_of_lt h,
    Nat.add_mul_mod_self_left, Nat.mod_eq_of_lt h, Nat.zero_add]
  rfl

/-- The slot behind a group is in another group. -/
theorem group_lt_nth_add
    (hcap : 0 < limits.capacity) (h : limits.capacity ≤ n % limits.capacity + i) :
  (nth limits first n).group < (nth limits first (n + i)).group
  := by
  have hdiv := Nat.mod_add_div n limits.capacity
  have hnext : n / limits.capacity + 1 ≤ (n + i) / limits.capacity := by
    rw [Nat.le_div_iff_mul_le hcap, Nat.add_mul, Nat.one_mul, Nat.mul_comm]
    omega
  simp only [nth]
  omega

/-- A stretch of the enumeration is consecutive if its group has room for it, and only then. -/
theorem consecutive_nth_iff {count : Nat} (hcap : 0 < limits.capacity) (hcount : 1 ≤ count) :
  Consecutive ((List.range' n count).map (nth limits first)) ↔
    n % limits.capacity + count ≤ limits.capacity
  := by
  have hstretch : (List.range' n count).map (nth limits first)
      = (List.range count).map fun i => nth limits first (n + i) := by
    rw [List.range'_eq_map_range, List.map_map]
    rfl
  rw [Consecutive, hstretch, List.length_map, List.length_range]
  constructor
  · rintro ⟨group, binding, h⟩
    have hmem : ∀ i < count, nth limits first (n + i) = ⟨group, binding + i⟩ := by
      intro i hi
      exact List.map_inj_left.mp h i (List.mem_range.mpr hi)
    have hfirst := congrArg Slot.group (hmem 0 (by omega))
    have hlast := congrArg Slot.group (hmem (count - 1) (by omega))
    by_contra hfull
    have hbehind : limits.capacity ≤ n % limits.capacity + (count - 1) := by
      omega
    have hlt : (nth limits first n).group < (nth limits first (n + (count - 1))).group :=
      group_lt_nth_add hcap hbehind
    rw [hlast, ← hfirst] at hlt
    exact absurd hlt (lt_irrefl _)
  · intro hroom
    use (nth limits first n).group, (nth limits first n).binding
    apply List.map_inj_left.mpr
    intro i hi
    apply nth_add
    have hlt := List.mem_range.mp hi
    omega

end Slot

/-! ### New textures -/

namespace Compile

variable
  {c : Context} {constants : OrderedMap Text Text} {stage : Stage} {line : Text}
  {form : TextureForm}

theorem textureLength_of_isArray
    {e : Extent} (harray : form.isArray = true)
    (he : Extent.ofType constants form.type = .ok e) :
  (textureLength constants form c).result = .ok e.length
  := by
  rw [textureLength, if_pos harray, result_bind_of_ok (a := e) (by
    rw [resolveExtent_apply form.name c he])]
  rfl

/-- A texture that is new is registered with slots that are handed out for it, one for each of
its elements. -/
theorem slots_of_declareTexture
    {length : Nat} {slot : Slot} (hnew : c.resources.textures.find? form.name = none)
    (hlength : (textureLength constants form c).result = .ok length)
    (h : (declareTexture constants stage line form c).result = .ok slot) :
  ∃ t last,
    (declareTexture constants stage line form c).context.resources.textures.find? form.name
      = some t ∧
    t.slots.length = max 1 length ∧ Slot.Handed c.limits c.resources.free t.slots last
  := by
  obtain ⟨function, length', -, hlength', henter, hcontext⟩ := declareTexture_of_ok h
  obtain rfl := Except.ok.inj (hlength.symm.trans hlength')
  rw [hcontext]
  obtain ⟨ss, last, hhanded, ⟨slot, others, rfl, hothers, hregistered⟩ | ⟨-, hregistered⟩⟩ :=
    registeredTexture_of_find?_eq_none hnew function length
  · rw [enterTexture_of_registered hregistered]
    refine ⟨_, last, OrderedMap.find?_insert_self _ _ _, ?_, hhanded⟩
    rw [Texture.slots, List.length_cons]
    dsimp only
    omega
  · rw [enterTexture, bind_of_error (by rw [hregistered])] at henter
    cases henter

end Compile

/-! ### Arrays in a session -/

/-- A new texture array takes the slots that come next behind those handed out before, one for
each of its elements.  They are consecutive bindings of one group exactly if its group has room
for all elements. -/
theorem textureArray_consecutive_iff
    {mode : Mode} {limits : Limits} {components : OrderedMap Text Int} {ops : List Operation}
    {constants : OrderedMap Text Text} {stage : Stage} {line : Text} {form : TextureForm}
    {e : Extent} {slot : Slot} :
  let first := Context.fresh mode limits components
  let c := first.after ops
  let n := (Session.taken first ops).length
  let o := Compile.declareTexture constants stage line form c
  0 < limits.bindingsPerGroup → c.resources.textures.find? form.name = none →
    form.isArray = true → Extent.ofType constants form.type = .ok e → 1 ≤ e.length →
    o.result = .ok slot →
    ∃ t, o.context.resources.textures.find? form.name = some t ∧
      t.slots = (List.range' n e.length).map (Slot.nth limits mode.firstSlot.group) ∧
      (Slot.Consecutive t.slots ↔ n % limits.capacity + e.length ≤ limits.capacity)
  := by
  intro first c n o hcap hnew harray he hlength h
  obtain ⟨t, last, hfind, hcount, hhanded⟩ :=
    Compile.slots_of_declareTexture hnew (Compile.textureLength_of_isArray harray he) h
  have hlimits : c.limits = limits := (Session.steps first ops).2.1
  rw [hlimits] at hhanded
  have hbefore : Slot.Handed limits mode.firstSlot (Session.taken first ops) c.resources.free :=
    Session.handed ops
  have hstart : Slot.normalize limits mode.firstSlot
      = Slot.nth limits mode.firstSlot.group 0 := by
    rw [← Slot.normalize_nth hcap, Slot.nth_zero]
    cases mode <;> rfl
  have hfree := (hbefore.eq_map_nth_range' hcap hstart).2
  rw [Nat.zero_add] at hfree
  have hslots := (hhanded.eq_map_nth_range' hcap hfree).1
  rw [hcount, Nat.max_eq_right hlength] at hslots
  have hcapacity : 0 < limits.capacity := by
    rw [Limits.capacity]
    omega
  refine ⟨t, hfind, hslots, ?_⟩
  rw [hslots]
  exact Slot.consecutive_nth_iff hcapacity hlength

/-- Behind one texture there is room for an array of two in a group of four bindings. -/
theorem textureArray_consecutive_iff_roomy :
  let first := Context.fresh .engine { bindingsPerGroup := 4 } ∅
  let ops := [Operation.processLine ∅ .vertex "var a : texture_2d<f32>;"]
  let form : TextureForm := ⟨"b", "array<texture_2d<f32>, 2>", true, "texture_2d", some "f32"⟩
  let o := Compile.declareTexture ∅ .vertex "var b : array<texture_2d<f32>, 2>;" form
    (first.after ops)
  ∃ t, o.context.resources.textures.find? "b" = some t ∧ t.slots = [⟨1, 1⟩, ⟨1, 2⟩] ∧
    Slot.Consecutive t.slots
  := by
  intro first ops form o
  have hcount : (Session.taken first ops).length = 1 := by decide +kernel
  have hnew : (first.after ops).resources.textures.find? "b" = none := by decide +kernel
  have hextent : Extent.ofType ∅ form.type = .ok ⟨"texture_2d<f32>", 2, none⟩ := by
    decide +kernel
  have hslot : o.result = .ok ⟨1, 1⟩ := by decide +kernel
  obtain ⟨t, hfind, hslots, hconsecutive⟩ :=
    textureArray_consecutive_iff (by decide) hnew rfl hextent (by decide) hslot
  rw [hcount] at hslots hconsecutive
  exact ⟨t, hfind, hslots, hconsecutive.mpr (by decide)⟩

/-- Behind one texture there is no room for an array of two in a group of two bindings: its
second element is put into the next group. -/
theorem not_consecutive_straddling :
  let limits : Limits := { bindingsPerGroup := 2 }
  let c := (Context.fresh .engine limits ∅).after
    [.processLine ∅ .vertex "var a : texture_2d<f32>;"]
  let line : Text := "var b : array<texture_2d<f32>, 2>;"
  ∃ form e t, Declaration.ofLine? line = some (.texture form) ∧
    Extent.ofType ∅ form.type = .ok e ∧ 1 ≤ e.length ∧ (e.length : Int) ≤ limits.bindingsPerGroup ∧
    let o := Compile.declareTexture ∅ .vertex line form c
    o.result = .ok ⟨1, 1⟩ ∧ o.context.resources.textures.find? form.name = some t ∧
      t.slots = [⟨1, 1⟩, ⟨2, 0⟩] ∧ ¬ Slot.Consecutive t.slots
  := by
  intro limits c line
  refine ⟨⟨"b", "array<texture_2d<f32>, 2>", true, "texture_2d", some "f32"⟩,
    ⟨"texture_2d<f32>", 2, none⟩, ⟨⟨1, 1⟩, [⟨2, 0⟩], true, false, .float, false⟩, ?_⟩
  refine ⟨by decide +kernel, by decide +kernel, by decide, by decide, by decide +kernel,
    by decide +kernel, rfl, ?_⟩
  rintro ⟨group, first, h⟩
  obtain ⟨hfirst, hrest⟩ := List.cons.inj h
  obtain ⟨hsecond, -⟩ := List.cons.inj hrest
  have hgroup := congrArg Slot.group hfirst
  have hgroup' := congrArg Slot.group hsecond
  dsimp only at hgroup hgroup'
  omega

end ShaderPair
