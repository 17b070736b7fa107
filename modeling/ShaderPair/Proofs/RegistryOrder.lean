import ShaderPair.Proofs.Holdings
import ShaderPair.Proofs.ProgramSteps
import Mathlib.Data.List.Induction

/-!
# The order in the registries

In each registry the names stand in the order in which they were first declared
(`Resources.Steps.keys_textures` and its companions).  Textures and samplers have their own
names there.  The name under which a buffer is registered depends on what is registered already,
and `BufferForm.keysFrom` works it out for one declaration after the other.
-/

namespace ShaderPair

/-! ### Keys -/

namespace OrderedMap

variable {κ α : Type} [DecidableEq κ]

/-- A key put behind others, unless it is among them. -/
def addKey (ks : List κ) (k : κ) : List κ := if k ∈ ks then ks else ks ++ [k]

theorem keys_insert_eq_addKey (m : OrderedMap κ α) (k : κ) (a : α) :
  (m.insert k a).keys = addKey m.keys k
  := keys_insert m k a

theorem addKey_of_mem {ks : List κ} {k : κ} (h : k ∈ ks) :
  addKey ks k = ks
  := if_pos h

/-- Keys that come in one after the other stand in the order of their first occurrence. -/
theorem foldl_addKey_nil [BEq κ] [LawfulBEq κ] (ks : List κ) :
  ks.foldl addKey [] = ks.eraseDups
  := by
  induction ks using List.reverseRecOn with
  | nil => rfl
  | append_singleton ks k ih =>
    rw [List.foldl_append, ih, List.eraseDups_append, List.foldl_cons, List.foldl_nil, addKey]
    by_cases hk : k ∈ ks
    · rw [if_pos (List.mem_eraseDups.mpr hk), List.cons_removeAll]
      simp [hk]
    · rw [if_neg (fun h => hk (List.mem_eraseDups.mp h)), List.cons_removeAll]
      simp [hk, List.eraseDups_cons]

end OrderedMap

open OrderedMap (addKey addKey_of_mem)

/-! ### The keys of buffers -/

namespace BufferForm

/-- The name under which a buffer is registered when some names are in use already. -/
def keyAmong (ks : List Text) (f : BufferForm) : Text :=
  if f.name ∈ ks then f.name else if f.isEngineBuffer then f.struct else f.name

theorem key_eq_keyAmong (f : BufferForm) (buffers : OrderedMap Text Buffer) :
  f.key buffers = f.keyAmong buffers.keys
  := by
  rw [key, keyAmong]
  simp only [OrderedMap.contains_iff]

/-- A buffer is registered under the name of its variable or, if the engine knows it, under that
of its struct. -/
theorem keyAmong_cases (f : BufferForm) (ks : List Text) :
  f.keyAmong ks = f.name ∨ f.isEngineBuffer ∧ f.keyAmong ks = f.struct
  := by
  rw [keyAmong]
  split
  · left
    rfl
  · split
    next hengine =>
      right
      exact ⟨hengine, rfl⟩
    · left
      rfl

/-- The names under which buffers are registered one after the other, when some names are in use
already. -/
def keysFrom : (ks : List Text) → List BufferForm → List Text
  | _, [] => []
  | ks, f :: fs => f.keyAmong ks :: keysFrom (addKey ks (f.keyAmong ks)) fs

/-- The names under which buffers are registered are those of their variables or structs. -/
theorem exists_of_mem_keysFrom {ks : List Text} {fs : List BufferForm} {k : Text}
    (h : k ∈ keysFrom ks fs) :
  ∃ f ∈ fs, k = f.name ∨ f.isEngineBuffer ∧ k = f.struct
  := by
  induction fs generalizing ks with
  | nil => cases h
  | cons f fs ih =>
    rcases List.mem_cons.mp h with rfl | h
    · exact ⟨f, List.mem_cons_self, f.keyAmong_cases ks⟩
    · obtain ⟨f', hf', hk⟩ := ih h
      exact ⟨f', List.mem_cons_of_mem _ hf', hk⟩

end BufferForm

namespace Resources

namespace Event

/-- The texture that is declared, if any. -/
def textureNames : Event → List Text
  | texture _ name => [name]
  | _ => []

/-- The sampler that is declared, if any. -/
def samplerNames : Event → List Text
  | sampler _ name => [name]
  | _ => []

/-- The buffer that is declared, if any. -/
def bufferForms : Event → List BufferForm
  | buffer _ form => [form]
  | _ => []

end Event

variable {mode : Mode} {limits : Limits} {e : Event} {es : List Event} {r r' : Resources}
  {ss : List Slot}

/-! ### Steps -/

theorem Step.keys_textures (h : Step mode limits e r ss r') :
  r'.textures.keys = e.textureNames.foldl addKey r.textures.keys
  := by
  cases h with
  | mark sampler =>
    obtain h | ⟨name, t, ht, h⟩ := r.markAutoSampler_cases sampler
    · rw [h]
      rfl
    · have hmem := OrderedMap.contains_iff.mp (Option.isSome_of_eq_some ht)
      rw [h, OrderedMap.keys_insert_eq_addKey, addKey_of_mem hmem]
      rfl
  | newTexture => apply OrderedMap.keys_insert_eq_addKey
  | seenTexture => apply OrderedMap.keys_insert_eq_addKey
  | _ => rfl

theorem Step.keys_samplers (h : Step mode limits e r ss r') :
  r'.samplers.keys = e.samplerNames.foldl addKey r.samplers.keys
  := by
  cases h with
  | mark sampler => obtain h | ⟨_, _, -, h⟩ := r.markAutoSampler_cases sampler <;> rw [h] <;> rfl
  | newSampler => apply OrderedMap.keys_insert_eq_addKey
  | seenSampler => apply OrderedMap.keys_insert_eq_addKey
  | _ => rfl

theorem Step.keys_buffers (h : Step mode limits e r ss r') :
  r'.buffers.keys
    = (BufferForm.keysFrom r.buffers.keys e.bufferForms).foldl addKey r.buffers.keys
  := by
  cases h with
  | mark sampler => obtain h | ⟨_, _, -, h⟩ := r.markAutoSampler_cases sampler <;> rw [h] <;> rfl
  | newBuffer =>
    rw [BufferForm.key_eq_keyAmong]
    apply OrderedMap.keys_insert_eq_addKey
  | reservedBuffer =>
    rw [BufferForm.key_eq_keyAmong]
    apply OrderedMap.keys_insert_eq_addKey
  | seenBuffer =>
    rw [BufferForm.key_eq_keyAmong]
    apply OrderedMap.keys_insert_eq_addKey
  | _ => rfl

/-- The textures stand in the order of their first declaration. -/
theorem Steps.keys_textures (h : Steps mode limits es r ss r') :
  r'.textures.keys = (es.flatMap Event.textureNames).foldl addKey r.textures.keys
  := by
  induction h with
  | refl => rfl
  | cons hstep _ ih => rw [ih, hstep.keys_textures, List.flatMap_cons, List.foldl_append]

/-- The samplers stand in the order of their first declaration. -/
theorem Steps.keys_samplers (h : Steps mode limits es r ss r') :
  r'.samplers.keys = (es.flatMap Event.samplerNames).foldl addKey r.samplers.keys
  := by
  induction h with
  | refl => rfl
  | cons hstep _ ih => rw [ih, hstep.keys_samplers, List.flatMap_cons, List.foldl_append]

end Resources

namespace BufferForm

theorem keysFrom_append (ks : List Text) (fs gs : List BufferForm) :
  keysFrom ks (fs ++ gs) = keysFrom ks fs ++ keysFrom ((keysFrom ks fs).foldl addKey ks) gs
  := by
  induction fs generalizing ks with
  | nil => rfl
  | cons f fs ih =>
    rw [List.cons_append, keysFrom, ih, keysFrom, List.cons_append]
    rfl

end BufferForm

/-- The buffers stand in the order in which the names are first used under which they are
registered. -/
theorem Resources.Steps.keys_buffers
    {mode : Mode} {limits : Limits} {es : List Resources.Event} {r r' : Resources}
    {ss : List Slot} (h : Resources.Steps mode limits es r ss r') :
  r'.buffers.keys
    = (BufferForm.keysFrom r.buffers.keys (es.flatMap Event.bufferForms)).foldl addKey
        r.buffers.keys
  := by
  induction h with
  | refl => rfl
  | cons hstep _ ih =>
    rw [ih, hstep.keys_buffers, List.flatMap_cons, BufferForm.keysFrom_append,
      List.foldl_append]

end ShaderPair
