import ShaderPair.Proofs.BufferSharing

/-!
# The slots of the buffers of the engine

A buffer known to the engine is registered by the name of its struct, so that it has the same
slot under every name of its variable, in both stages and in all shader pairs of a context.  There
is one exception: a variable that is called like a buffer registered before gets the slot of that
one (`BufferForm.Undisturbed` excludes this).  Whatever the declarations are, each buffer of the
engine keeps the slot registered for its struct exactly if there is no such variable
(`engineBuffers_keep`).  The slot of the scene is the reserved one exactly if the buffer that was
first registered under its name is the engine's (`BufferSite.SceneReserved`).
-/

namespace ShaderPair

open OrderedMap (addKey)
open Resources (Lasting Placed)

/-! ### Undisturbed declarations -/

/-- Of declarations that are registered one after the other, when some names are in use already,
no buffer of the engine has a variable that is called like another buffer registered before. -/
def BufferForm.Undisturbed : (ks : List Text) → List BufferForm → Prop
  | _, [] => True
  | ks, f :: fs =>
    (f.isEngineBuffer → f.name ∈ ks → f.name = f.struct) ∧
      Undisturbed (addKey ks (f.keyAmong ks)) fs

instance BufferForm.decidableUndisturbed :
    (ks : List Text) → (fs : List BufferForm) → Decidable (Undisturbed ks fs)
  | _, [] => inferInstanceAs (Decidable True)
  | ks, f :: fs =>
    have := decidableUndisturbed (addKey ks (f.keyAmong ks)) fs
    inferInstanceAs (Decidable (_ ∧ _))

/-- A buffer of the engine is registered by its struct, unless its variable is called like another
buffer. -/
theorem BufferForm.keyAmong_eq_struct_iff
    {f : BufferForm} (hf : f.isEngineBuffer) (ks : List Text) :
  f.keyAmong ks = f.struct ↔ (f.name ∈ ks → f.name = f.struct)
  := by
  rw [keyAmong, if_pos hf]
  by_cases hname : f.name ∈ ks
  · rw [if_pos hname]
    exact ⟨fun h _ => h, fun h => h hname⟩
  · rw [if_neg hname]
    exact ⟨fun _ h => absurd h hname, fun _ => rfl⟩

namespace BufferSite

/-- Declarations are undisturbed if the buffers of the engine among them are registered by their
structs. -/
theorem undisturbed_iff
    {ks : List Text} {xs : List BufferSite}
    (hkeys : xs.map key = BufferForm.keysFrom ks (xs.map form)) :
  BufferForm.Undisturbed ks (xs.map form) ↔
    ∀ x ∈ xs, x.form.isEngineBuffer → x.key = x.form.struct
  := by
  induction xs generalizing ks with
  | nil => simp [BufferForm.Undisturbed]
  | cons x xs ih =>
    obtain ⟨hkey, hrest⟩ := List.cons.inj hkeys
    have hfirst : (x.form.isEngineBuffer → x.form.name ∈ ks → x.form.name = x.form.struct) ↔
        (x.form.isEngineBuffer → x.key = x.form.struct) := by
      rw [hkey]
      apply imp_congr_right
      intro hengine
      apply (BufferForm.keyAmong_eq_struct_iff hengine ks).symm
    rw [List.map_cons, BufferForm.Undisturbed, hfirst, ih hrest, List.forall_mem_cons]

end BufferSite

/-! ### Slots by struct -/

namespace Resources

variable {r : Resources}

/-- The slot that belongs to the name of a buffer. -/
def bufferSlot? (r : Resources) (key : Text) : Option Slot := (r.buffers.find? key).map Buffer.slot

/-- A slot belongs to one name only. -/
theorem bufferSlot?_injective
    (hr : r.slots.Nodup) {key key' : Text} {slot : Slot} (h : r.bufferSlot? key = some slot)
    (h' : r.bufferSlot? key' = some slot) :
  key = key'
  := by
  obtain ⟨b, hb, hslot⟩ := Option.map_eq_some_iff.mp h
  obtain ⟨b', hb', hslot'⟩ := Option.map_eq_some_iff.mp h'
  have hmem : b.holding key ∈ r.holdings := r.holding_mem_of_find? hb
  have hmem' : b'.holding key' ∈ r.holdings := r.holding_mem_of_find? hb'
  have heq := eq_of_slot_eq hr hmem hmem' (hslot.trans hslot'.symm)
  exact congrArg Holding.name heq

theorem lasting_bufferSlot? (key : Text) (slot : Slot) :
  Lasting fun r => r.bufferSlot? key = some slot
  := by
  intro mode limits e r ss r' hstep h
  obtain ⟨b, hb, hslot⟩ := Option.map_eq_some_iff.mp h
  apply Option.map_eq_some_iff.mpr
  use b, hstep.find?_buffers hb

end Resources

namespace BufferSite

variable {r : Resources} {x : BufferSite} {xs : List BufferSite}

/-- The buffers of the engine among some declarations have the slots that belong to their
structs. -/
def KeepEngineSlots (r : Resources) (xs : List BufferSite) : Prop :=
  ∀ x ∈ xs, x.form.isEngineBuffer → r.bufferSlot? x.form.struct = some x.slot

theorem lasting_registered (x : BufferSite) :
  Lasting fun r => x.Registered r.buffers
  := by
  rintro mode limits e r ss r' hstep ⟨⟨b, hb, hslot⟩, hkey⟩
  exact ⟨⟨b, hstep.find?_buffers hb, hslot⟩, hkey⟩

theorem Registered.bufferSlot? (hx : x.Registered r.buffers) :
  r.bufferSlot? x.key = some x.slot
  := by
  obtain ⟨b, hb, hslot⟩ := hx.find?
  apply Option.map_eq_some_iff.mpr
  use b, hb

/-- A buffer of the engine has the slot of its struct if it is registered by its struct. -/
theorem bufferSlot?_struct_iff
    (hr : r.slots.Nodup) (hx : x.Registered r.buffers) :
  r.bufferSlot? x.form.struct = some x.slot ↔ x.key = x.form.struct
  := by
  constructor
  · intro hslot
    apply Resources.bufferSlot?_injective hr hx.bufferSlot? hslot
  · intro hkey
    rw [← hkey]
    apply hx.bufferSlot?

theorem keepEngineSlots_iff (hr : r.slots.Nodup) (hxs : ∀ x ∈ xs, x.Registered r.buffers) :
  KeepEngineSlots r xs ↔ ∀ x ∈ xs, x.form.isEngineBuffer → x.key = x.form.struct
  := by
  apply forall₂_congr
  intro x hx
  apply imp_congr_right
  intro _
  apply bufferSlot?_struct_iff hr (hxs x hx)

theorem keepEngineSlots_append {ys : List BufferSite} :
  KeepEngineSlots r (xs ++ ys) ↔ KeepEngineSlots r xs ∧ KeepEngineSlots r ys
  := List.forall_mem_append

/-- The declarations of buffers in a stage as they are annotated when some buffers are registered
already. -/
structure Annotated (buffers : OrderedMap Text Buffer) (code out : Text) (xs : List BufferSite) :
    Prop where
  /-- The declarations are those of the stage. -/
  forms : xs.map form = bufferForms code
  /-- Their slots are those of the annotations. -/
  text : out = annotateForms code (xs.map slot)
  /-- Their keys follow from the names in use before. -/
  keys : xs.map key = BufferForm.keysFrom buffers.keys (bufferForms code)

/-- Annotated declarations keep the slots of the engine exactly if they are undisturbed. -/
theorem Annotated.keepEngineSlots_iff
    {buffers : OrderedMap Text Buffer} {code out : Text} (h : Annotated buffers code out xs)
    (hr : r.slots.Nodup) (hxs : ∀ x ∈ xs, x.Registered r.buffers) :
  KeepEngineSlots r xs ↔ BufferForm.Undisturbed buffers.keys (bufferForms code)
  := by
  have hkeys := h.keys
  rw [← h.forms] at hkeys ⊢
  rw [undisturbed_iff hkeys]
  apply BufferSite.keepEngineSlots_iff hr hxs

/-! ### The scene -/

/-- The name of the scene belongs to the reserved slot, or, as long as it belongs to no slot, the
first of some declarations that is registered under it is a buffer of the engine. -/
def SceneReserved (r : Resources) (xs : List BufferSite) : Prop :=
  match r.bufferSlot? ("Scene" : Text) with
  | some slot => slot = ⟨0, 0⟩
  | none => ∀ x ∈ xs.find? fun x => x.key = ("Scene" : Text), x.form.isEngineBuffer

end BufferSite

namespace Compile

variable {stage : Stage} {c : Context}

/-- The buffer that is first registered as the scene gets the reserved slot if it is a buffer of
the engine. -/
theorem slot_of_declareBuffer_scene
    {form : BufferForm} {slot : Slot} (h : (declareBuffer stage form c).result = .ok slot)
    (hmode : c.mode = .engine) (hc : Placed c.mode c.resources)
    (hkey : form.keyAmong c.resources.buffers.keys = "Scene")
    (hnew : ("Scene" : Text) ∉ c.resources.buffers.keys) :
  slot = ⟨0, 0⟩ ↔ form.isEngineBuffer
  := by
  rw [← hkey] at hnew
  rw [← BufferForm.key_eq_keyAmong] at hkey hnew
  have hnone := OrderedMap.find?_eq_none_iff.mpr hnew
  rw [declareBuffer, context_bind] at h
  obtain ⟨b, hb, h⟩ := ok_of_bind h
  obtain rfl := Except.ok.inj h
  rw [registeredBuffer, context_bind, hnone] at hb
  obtain ⟨slot, hslot, hb⟩ := ok_of_bind hb
  obtain rfl := Except.ok.inj hb
  rw [bufferSlot, context_bind, hmode] at hslot
  rw [BufferForm.key_of_find?_eq_none hnone] at hkey
  have hreserved : Mode.engine.reservedSlot? ("Scene" : Text) = some ⟨0, 0⟩ :=
    Resources.reservedSlot?_eq_some_iff.mpr ⟨rfl, rfl, rfl⟩
  cases hengine : form.isEngineBuffer with
  | true =>
    rw [hengine, if_pos rfl] at hkey
    rw [hengine, if_pos rfl, hkey, hreserved] at hslot
    obtain rfl := Except.ok.inj hslot
    simp
  | false =>
    rw [hengine] at hslot
    obtain ⟨free, ⟨s, hfree, heq⟩ | ⟨-, -, heq⟩⟩ := takeSlot_cases c
    · have hfirst := le_trans hc.first_le (hfree.mem (List.mem_singleton_self s)).1
      obtain rfl : s = slot := by
        rw [hmode] at hfirst
        exact Except.ok.inj ((congrArg Outcome.result heq).symm.trans hslot)
      rw [hmode, Slot.le_iff] at hfirst
      constructor
      · rintro rfl
        simp [Mode.firstSlot] at hfirst
      · rintro ⟨⟩
    · cases (congrArg Outcome.result heq).symm.trans hslot

/-- The first declaration that is registered as the scene gets the reserved slot if it is one of a
buffer of the engine. -/
theorem slot_of_each_scene
    {xs : List BufferSite}
    (h : (each (declareBuffer stage) (xs.map BufferSite.form) c).result
      = .ok (xs.map BufferSite.slot))
    (hkeys : xs.map BufferSite.key
      = BufferForm.keysFrom c.resources.buffers.keys (xs.map BufferSite.form))
    (hmode : c.mode = .engine) (hc : Placed c.mode c.resources)
    (hnew : ("Scene" : Text) ∉ c.resources.buffers.keys) :
  ∀ x ∈ xs.find? fun x => x.key = ("Scene" : Text), x.slot = ⟨0, 0⟩ ↔ x.form.isEngineBuffer
  := by
  induction xs generalizing c with
  | nil =>
    rintro x ⟨⟩
  | cons x xs ih =>
    obtain ⟨slot, hslot, h⟩ := ok_of_bind h
    obtain ⟨slots, hslots, h⟩ := ok_of_bind h
    obtain ⟨rfl, rfl⟩ := List.cons.inj (Except.ok.inj h)
    obtain ⟨hkey, hrest⟩ := List.cons.inj hkeys
    by_cases hscene : x.key = ("Scene" : Text)
    · rw [List.find?_cons_of_pos (by simpa using hscene)]
      rintro _ ⟨⟩
      apply slot_of_declareBuffer_scene hslot hmode hc (hkey.symm.trans hscene) hnew
    · rw [List.find?_cons_of_neg (by simpa using hscene)]
      obtain ⟨es, heffect, -⟩ := does_declareBuffer stage x.form c
      have hbuffers := keys_of_declareBuffer hslot
      rw [← hbuffers] at hrest
      apply ih hslots hrest (heffect.mode_eq.trans hmode)
      · rw [heffect.mode_eq]
        apply heffect.steps.placed hc
      · rw [hbuffers, ← hkey, addKey]
        split
        · apply hnew
        · rw [List.mem_append, List.mem_singleton, not_or]
          exact ⟨hnew, Ne.symm hscene⟩

/-- What the declarations of buffers in a stage are annotated with. -/
theorem annotated_of_annotateBuffers
    {code out : Text} (h : (annotateBuffers stage code c).result = .ok out)
    (hc : Placed c.mode c.resources) :
  ∃ xs : List BufferSite, BufferSite.Annotated c.resources.buffers code out xs ∧
    (∀ x ∈ xs, x.Registered (annotateBuffers stage code c).context.resources.buffers) ∧
    (c.mode = .engine → ∀ x ∈ xs, x.key = "Scene" →
      (x.slot = ⟨0, 0⟩ ↔ BufferSite.SceneReserved c.resources xs))
  := by
  rw [annotateBuffers, annotateEach_eq] at h ⊢
  obtain ⟨slots, hslots, h⟩ := ok_of_bind h
  obtain rfl := Except.ok.inj h
  rw [bind_of_ok hslots]
  obtain ⟨xs, hforms, rfl, hkeys, -, hxs⟩ := registered_of_each hslots
  refine ⟨xs, ⟨hforms, rfl, hkeys⟩, hxs, ?_⟩
  intro hmode x hx hscene
  have hslot := (hxs x hx).bufferSlot?
  rw [hscene] at hslot
  rw [BufferSite.SceneReserved]
  cases hbefore : c.resources.bufferSlot? ("Scene" : Text) with
  | some slot =>
    have hkept := (does_each_declareBuffer stage (bufferForms code) c).lasting
      (Resources.lasting_bufferSlot? _ _) hbefore
    obtain rfl := Option.some.inj (hkept.symm.trans hslot)
    apply Iff.rfl
  | none =>
    have hnew : ("Scene" : Text) ∉ c.resources.buffers.keys :=
      OrderedMap.find?_eq_none_iff.mp (Option.map_eq_none_iff.mp hbefore)
    rw [← hforms] at hslots hkeys
    have hfirst := slot_of_each_scene hslots hkeys hmode hc hnew
    cases hfind : xs.find? fun x => x.key = ("Scene" : Text) with
    | none =>
      rw [List.find?_eq_none] at hfind
      exact absurd hscene (by simpa using hfind x hx)
    | some y =>
      have hy := (hxs y (List.mem_of_find?_eq_some hfind)).bufferSlot?
      have hykey : y.key = ("Scene" : Text) := by simpa using List.find?_some hfind
      rw [hykey] at hy
      rw [Option.some.inj (hslot.symm.trans hy), hfirst y hfind]
      simp

end Compile

/-! ### Sessions -/

theorem Session.placed_mode
    (mode : Mode) (limits : Limits) (components : OrderedMap Text Int) (ops : List Operation) :
  let c := (Context.fresh mode limits components).after ops
  Placed c.mode c.resources
  := by
  dsimp only
  rw [(Session.steps (.fresh mode limits components) ops).1]
  apply Session.placed ops

/-- In every session the declarations of buffers of the engine in any two stages keep the slots
that belong to their structs, exactly if they are undisturbed.  In engine mode the slot of the
scene is the reserved one, exactly if it was reserved for the first buffer of this name. -/
theorem engineBuffers_keep
    (mode : Mode) (limits : Limits) (components : OrderedMap Text Int)
    (ops ops' : List Operation) (stage stage' : Stage) (code code' out out' : Text) :
  let c := (Context.fresh mode limits components).after ops
  let o := Compile.annotateBuffers stage code c
  let c' := o.context.after ops'
  let o' := Compile.annotateBuffers stage' code' c'
  o.result = .ok out → o'.result = .ok out' →
    ∃ xs ys : List BufferSite,
      BufferSite.Annotated c.resources.buffers code out xs ∧
      BufferSite.Annotated c'.resources.buffers code' out' ys ∧
      (BufferSite.KeepEngineSlots o'.context.resources (xs ++ ys) ↔
        BufferForm.Undisturbed c.resources.buffers.keys (bufferForms code) ∧
        BufferForm.Undisturbed c'.resources.buffers.keys (bufferForms code')) ∧
      (mode = .engine →
        (∀ x ∈ xs, x.key = "Scene" →
          (x.slot = ⟨0, 0⟩ ↔ BufferSite.SceneReserved c.resources xs)) ∧
        ∀ y ∈ ys, y.key = "Scene" →
          (y.slot = ⟨0, 0⟩ ↔ BufferSite.SceneReserved c'.resources ys))
  := by
  intro c o c' o' hout hout'
  have hafter : c' = (Context.fresh mode limits components).after
      (ops ++ .annotateBuffers stage code :: ops') := by
    rw [Session.after_append]
    exact congrArg (Context.after · ops') (Compile.context_ignore _ _).symm
  have hc := Session.placed_mode mode limits components ops
  have hc' := Session.placed_mode mode limits components (ops ++ .annotateBuffers stage code :: ops')
  rw [← hafter] at hc'
  have hmode : c.mode = mode := (Session.steps (.fresh mode limits components) ops).1
  have hmode' : c'.mode = mode := by
    rw [hafter]
    exact (Session.steps (.fresh mode limits components) _).1
  obtain ⟨xs, hxs, hregistered, hscene⟩ := Compile.annotated_of_annotateBuffers hout hc
  obtain ⟨ys, hys, hregistered', hscene'⟩ := Compile.annotated_of_annotateBuffers hout' hc'
  rw [hmode] at hscene
  rw [hmode'] at hscene'
  refine ⟨xs, ys, hxs, hys, ?_, fun hengine => ⟨hscene hengine, hscene' hengine⟩⟩
  -- all of them are still registered in the end
  obtain ⟨es, heffect, -⟩ := Compile.does_annotateBuffers stage' code' c'
  have hnodup := (heffect.steps.placed hc').nodup
  have hkept : ∀ x ∈ xs, x.Registered o'.context.resources.buffers := by
    intro x hx
    apply (Compile.does_annotateBuffers stage' code' c').registered
    apply Session.lasting (BufferSite.lasting_registered x) (hregistered x hx)
  rw [BufferSite.keepEngineSlots_append, hxs.keepEngineSlots_iff hnodup hkept,
    hys.keepEngineSlots_iff hnodup hregistered']

/-- The scene and the material have one slot each under different names of their variables. -/
theorem engineBuffers_keep_material :
  let c := (Context.fresh .engine {} ∅).after []
  let o := Compile.annotateBuffers .vertex "var<uniform> s : Scene;var<uniform> m : Material;" c
  let c' := o.context.after [.begin]
  let o' := Compile.annotateBuffers .fragment "var<uniform> n : Material;var<uniform> t : Scene;" c'
  ∃ xs ys : List BufferSite,
    BufferSite.Annotated c.resources.buffers "var<uniform> s : Scene;var<uniform> m : Material;"
      ("@group(0) @binding(0) var<uniform> s : Scene;" ++
        "@group(1) @binding(0) var<uniform> m : Material;") xs ∧
    BufferSite.Annotated c'.resources.buffers "var<uniform> n : Material;var<uniform> t : Scene;"
      ("@group(1) @binding(0) var<uniform> n : Material;" ++
        "@group(0) @binding(0) var<uniform> t : Scene;") ys ∧
    BufferSite.KeepEngineSlots o'.context.resources (xs ++ ys)
  := by
  intro c o c' o'
  have hout : o.result = .ok ("@group(0) @binding(0) var<uniform> s : Scene;" ++
      "@group(1) @binding(0) var<uniform> m : Material;") := by
    decide +kernel
  have hout' : o'.result = .ok ("@group(1) @binding(0) var<uniform> n : Material;" ++
      "@group(0) @binding(0) var<uniform> t : Scene;") := by
    decide +kernel
  obtain ⟨xs, ys, hxs, hys, hkeep, -⟩ :=
    engineBuffers_keep .engine {} ∅ [] [.begin] .vertex .fragment _ _ _ _ hout hout'
  use xs, ys, hxs, hys
  apply hkeep.mpr
  constructor
  · decide +kernel
  · decide +kernel

open BufferSite in
/-- A buffer of the engine whose variable is called like another buffer of the first stage does not
keep the slot of its struct. -/
theorem not_keepEngineSlots_storage :
  let c := Context.fresh .engine {} ∅
  let o := Compile.annotateBuffers .vertex "var<storage> a : X;var<uniform> s : Scene;" c
  let o' := Compile.annotateBuffers .fragment "var<uniform> a : Scene;" o.context
  let out : Text := "@group(1) @binding(0) var<storage> a : X;" ++
    "@group(0) @binding(0) var<uniform> s : Scene;"
  let out' : Text := "@group(1) @binding(0) var<uniform> a : Scene;"
  let xs : List BufferSite := [⟨⟨.storage, none, "a", "X"⟩, "a", ⟨1, 0⟩⟩,
    ⟨⟨.uniform, none, "s", "Scene"⟩, "Scene", ⟨0, 0⟩⟩]
  let ys : List BufferSite := [⟨⟨.uniform, none, "a", "Scene"⟩, "a", ⟨1, 0⟩⟩]
  o.result = .ok out ∧ o'.result = .ok out' ∧
    Annotated c.resources.buffers "var<storage> a : X;var<uniform> s : Scene;" out xs ∧
    Annotated o.context.resources.buffers "var<uniform> a : Scene;" out' ys ∧
    ¬ KeepEngineSlots o'.context.resources (xs ++ ys)
  := by
  intro c o o' out out' xs ys
  constructor
  · decide +kernel
  constructor
  · decide +kernel
  constructor
  · constructor <;> decide +kernel
  constructor
  · constructor <;> decide +kernel
  · intro hkeep
    have hslot := hkeep ⟨⟨.uniform, none, "a", "Scene"⟩, "a", ⟨1, 0⟩⟩
      (List.mem_append_right _ (List.mem_singleton_self _)) (by decide +kernel)
    revert hslot
    decide +kernel

end ShaderPair
