import ShaderPair.Proofs.LayoutTables
import ShaderPair.Proofs.RegistryOrder

/-!
# What stays

Whatever steps follow, a texture, a sampler or a buffer that is registered stays registered, at
its slots.  A slot that is described as seen from a stage stays so, and to describe it once more
from this stage changes nothing (`Layout.describe_of_sees`).

The steps in which a pair is finished (`Resources.Event.Finishing`) register no textures.  If the
names of their buffers are unambiguous (`BufferForm.Unambiguous`), each buffer has the same key
before and after them.
-/

namespace ShaderPair

/-! ### Stages that are known -/

theorem Visibility.add_add (v : Visibility) (stage : Stage) :
  (v.add stage).add stage = v.add stage
  := by
  cases stage <;> rfl

theorem Visibility.add_comm (v : Visibility) (stage stage' : Stage) :
  (v.add stage).add stage' = (v.add stage').add stage
  := by
  cases stage <;> cases stage' <;> rfl

namespace Layout

/-- The slot is described, and the stage is among those from which it is seen. -/
def Sees (layout : Layout) (slot : Slot) (stage : Stage) : Prop :=
  ∃ i e, layout.find? slot = some (i, e) ∧ see stage e = e

variable {layout : Layout} {slot slot' : Slot} {stage stage' : Stage}

theorem see_see (stage : Stage) (e : LayoutEntry) :
  see stage (see stage e) = see stage e
  := by
  simp only [see, Visibility.add_add]

theorem see_comm (stage stage' : Stage) (e : LayoutEntry) :
  see stage (see stage' e) = see stage' (see stage e)
  := by
  simp only [see, Visibility.add_comm _ stage stage']

/-- A group that is there is not added. -/
theorem extend_of_lt {group : Nat} (h : group < layout.entries.length) :
  extend group layout = layout
  := by
  have hmissing : group + 1 - layout.entries.length = 0 := by omega
  simp only [extend, hmissing, List.replicate_zero, List.append_nil]

/-- To describe a slot once more from a stage that is known changes nothing. -/
theorem describe_of_sees
    (h : layout.Sees slot stage) (name : Text) (elementName : Option Text)
    (resource : Resource) :
  layout.describe slot name elementName resource stage = layout
  := by
  obtain ⟨_, _, hfind, hsee⟩ := h
  simp only [find?, Option.bind_eq_some_iff, Option.map_eq_some_iff, Prod.mk.injEq] at hfind
  obtain ⟨i, hi, e, he, rfl, rfl⟩ := hfind
  have hgroup : slot.group < layout.entries.length := by
    by_contra hge
    rw [entriesOf, List.getD_eq_getElem?_getD, List.getElem?_eq_none (Nat.le_of_not_lt hge)] at he
    simp at he
  have hmodify : (layout.entriesOf slot.group).modify i.index (see stage)
      = layout.entriesOf slot.group := by
    obtain ⟨hlt, heq⟩ := List.getElem?_eq_some_iff.mp he
    rw [List.modify_eq_set_getElem?, he, Option.map_eq_map, Option.map_some, Option.getD_some,
      hsee, ← heq, List.set_getElem_self]
  have hset : layout.entries.set slot.group (layout.entriesOf slot.group) = layout.entries := by
    have hget : layout.entriesOf slot.group = layout.entries[slot.group] := by
      rw [entriesOf, List.getD_eq_getElem?_getD, List.getElem?_eq_getElem hgroup,
        Option.getD_some]
    rw [hget, List.set_getElem_self]
  rw [describe, extend_of_lt hgroup]
  simp only [hi]
  rw [seeAt, hmodify, hset]

/-- A slot that is described is known to be seen from the stage. -/
theorem Aligned.sees_describe_self
    (h : layout.Aligned) (name : Text) (elementName : Option Text) (resource : Resource) :
  (layout.describe slot name elementName resource stage).Sees slot stage
  := by
  rw [Sees, h.find?_describe]
  rw [if_pos rfl]
  exact ⟨_, _, rfl, see_see _ _⟩

/-- What is known to be seen from a stage stays so. -/
theorem Aligned.sees_describe
    (h : layout.Aligned) (hsees : layout.Sees slot stage) (name : Text)
    (elementName : Option Text) (resource : Resource) :
  (layout.describe slot' name elementName resource stage').Sees slot stage
  := by
  obtain ⟨i, e, hfind, hsee⟩ := hsees
  rw [Sees, h.find?_describe]
  by_cases hslot : slot = slot'
  · subst hslot
    rw [if_pos rfl, sight, hfind]
    refine ⟨_, _, rfl, ?_⟩
    simp only [Option.getD_some]
    rw [see_comm, hsee]
  · rw [if_neg hslot]
    exact ⟨i, e, hfind, hsee⟩

/-- The elements of a texture are described, and then seen from the stage. -/
theorem Aligned.describeElements
    (h : layout.Aligned) (name : Text) (isArray : Bool) (resource : Resource) (stage : Stage)
    (number : Nat) (slots : List Slot) :
  (layout.describeElements name isArray resource stage number slots).Aligned
  := by
  induction slots generalizing layout number with
  | nil => apply h
  | cons slot slots ih => apply ih (h.describe _ _ _ _ _)

theorem Aligned.sees_describeElements
    (h : layout.Aligned) (hsees : layout.Sees slot stage) (name : Text) (isArray : Bool)
    (resource : Resource) (number : Nat) (slots : List Slot) :
  (layout.describeElements name isArray resource stage' number slots).Sees slot stage
  := by
  induction slots generalizing layout number with
  | nil => apply hsees
  | cons _ slots ih => apply ih (h.describe _ _ _ _ _) (h.sees_describe hsees _ _ _)

theorem Aligned.sees_describeElements_self
    (h : layout.Aligned) (name : Text) (isArray : Bool) (resource : Resource) (number : Nat)
    {slots : List Slot} (hmem : slot ∈ slots) :
  (layout.describeElements name isArray resource stage number slots).Sees slot stage
  := by
  induction slots generalizing layout number with
  | nil => cases hmem
  | cons slot' slots ih =>
    rcases List.mem_cons.mp hmem with rfl | hmem
    · apply (h.describe _ _ _ _ _).sees_describeElements (h.sees_describe_self _ _ _)
    · apply ih (h.describe _ _ _ _ _) _ hmem

/-- To describe the elements of a texture once more changes nothing. -/
theorem describeElements_of_sees
    {slots : List Slot} (h : ∀ slot ∈ slots, layout.Sees slot stage) (name : Text)
    (isArray : Bool) (resource : Resource) (number : Nat) :
  layout.describeElements name isArray resource stage number slots = layout
  := by
  induction slots generalizing number with
  | nil => rfl
  | cons slot slots ih =>
    rw [List.forall_mem_cons] at h
    rw [describeElements, describe_of_sees h.1]
    apply ih h.2

end Layout

/-! ### Maps -/

namespace OrderedMap

variable {κ α : Type} [DecidableEq κ]

/-- The entries are the keys with their values. -/
theorem entries_eq_filterMap (m : OrderedMap κ α) :
  m.entries = m.keys.filterMap fun k => (m.find? k).map fun a => (k, a)
  := by
  have hfind : ∀ e ∈ m.entries, ((m.find? e.1).map fun a => (e.1, a)) = some e := by
    intro e he
    rw [mem_entries_iff.mp he, Option.map_some]
  rw [keys, List.filterMap_map]
  conv_lhs => rw [← List.filterMap_some (l := m.entries)]
  apply List.filterMap_congr
  intro e he
  apply (hfind e he).symm

/-- Maps are equal if they have the same keys in the same order, with the same values. -/
theorem ext_find?
    {m m' : OrderedMap κ α} (hkeys : m.keys = m'.keys) (hfind : ∀ k, m.find? k = m'.find? k) :
  m = m'
  := by
  apply OrderedMap.ext
  rw [entries_eq_filterMap, entries_eq_filterMap, hkeys]
  simp only [hfind]

theorem mem_keys_iff {m : OrderedMap κ α} {k : κ} :
  k ∈ m.keys ↔ ∃ a, m.find? k = some a
  := by
  rw [← contains_iff, contains, Option.isSome_iff_exists]

/-- Where a key gets a value related to its old one, every key has a value related to its old
one. -/
theorem exists_find?_insert
    {R : α → α → Prop} (hrefl : ∀ a, R a a) {m : OrderedMap κ α} {k k' : κ} {a a' a₀ : α}
    (hk : m.find? k = some a) (h : R a a') (hk' : m.find? k' = some a₀) :
  ∃ a₁, (m.insert k a').find? k' = some a₁ ∧ R a₀ a₁
  := by
  by_cases heq : k' = k
  · subst heq
    obtain rfl := Option.some.inj (hk.symm.trans hk')
    exact ⟨a', find?_insert_self _ _ _, h⟩
  · use a₀
    rw [find?_insert_of_ne _ heq]
    exact ⟨hk', hrefl a₀⟩

end OrderedMap

/-! ### Registered resources -/

/-- A texture at a later time: it has its slots, and it is still bound to a sampler if it was. -/
structure Texture.Continues (t t' : Texture) : Prop where
  slots_eq : t'.slots = t.slots
  isArray_eq : t'.isArray = t.isArray
  autoSampler : t.autoSampler → t'.autoSampler

theorem Texture.Continues.refl (t : Texture) :
  t.Continues t
  := ⟨rfl, rfl, id⟩

theorem Texture.continues_sample (t : Texture) (sample : SampleKind) :
  t.Continues { t with sample := sample }
  := ⟨rfl, rfl, id⟩

theorem Texture.continues_autoSampler (t : Texture) :
  t.Continues { t with autoSampler := true }
  := ⟨rfl, rfl, fun _ => rfl⟩

theorem Texture.Continues.trans
    {t t' t'' : Texture} (h : t.Continues t') (h' : t'.Continues t'') :
  t.Continues t''
  := ⟨h'.slots_eq.trans h.slots_eq, h'.isArray_eq.trans h.isArray_eq,
    fun hauto => h'.autoSampler (h.autoSampler hauto)⟩

namespace Resources

variable {mode : Mode} {limits : Limits} {e : Event} {es : List Event} {r r' : Resources}
  {ss : List Slot}

/-- That a sampler is bound to it is all that happens to a texture then. -/
theorem find?_markAutoSampler
    (sampler : Text) {name : Text} {t : Texture} (ht : r.textures.find? name = some t) :
  ∃ t', (r.markAutoSampler sampler).textures.find? name = some t' ∧ t.Continues t' ∧
    t'.sample = t.sample
  := by
  obtain h | ⟨name', t', ht', h⟩ := r.markAutoSampler_cases sampler
  · rw [h]
    exact ⟨t, ht, .refl t, rfl⟩
  · rw [h]
    exact OrderedMap.exists_find?_insert (R := fun t t' => t.Continues t' ∧ t'.sample = t.sample)
      (fun t => ⟨.refl t, rfl⟩) ht' ⟨t'.continues_autoSampler, rfl⟩ ht

/-- The texture to which a sampler is bound by its name has such a sampler then. -/
theorem autoSampler_of_markAutoSampler
    {sampler name : Text} (hname : SamplerForm.textureName? sampler = some name) {t : Texture}
    (ht : (r.markAutoSampler sampler).textures.find? name = some t) :
  t.autoSampler = true
  := by
  rw [markAutoSampler, hname] at ht
  cases hfind : r.textures.find? name with
  | none =>
    simp only [hfind] at ht
    cases ht
  | some t' =>
    simp only [hfind, OrderedMap.find?_insert_self] at ht
    obtain rfl := Option.some.inj ht
    rfl

/-- Nothing happens to a texture that is bound to the sampler already. -/
theorem markAutoSampler_eq_self
    {sampler : Text}
    (h : ∀ {name t}, SamplerForm.textureName? sampler = some name →
      r.textures.find? name = some t → t.autoSampler = true) :
  r.markAutoSampler sampler = r
  := by
  rw [markAutoSampler]
  split
  · rfl
  next name hname =>
    split
    · rfl
    next t ht =>
      have hsame : { t with autoSampler := true } = t := by
        rw [← h hname ht]
      rw [hsame, OrderedMap.insert_of_find? ht]

/-- A texture that is registered stays registered, and all that a step does to it is to say anew
what is sampled from it or to bind a sampler to it. -/
theorem Step.exists_find?_textures
    {R : Texture → Texture → Prop} (hrefl : ∀ t, R t t)
    (hsample : ∀ t sample, R t { t with sample := sample })
    (hauto : ∀ t, R t { t with autoSampler := true })
    (h : Step mode limits e r ss r') {name : Text} {t : Texture}
    (ht : r.textures.find? name = some t) :
  ∃ t', r'.textures.find? name = some t' ∧ R t t'
  := by
  cases h with
  | mark sampler =>
    obtain h | ⟨name', t', ht', h⟩ := r.markAutoSampler_cases sampler
    · rw [h]
      exact ⟨t, ht, hrefl t⟩
    · rw [h]
      exact OrderedMap.exists_find?_insert hrefl ht' (hauto t') ht
  | newTexture _ hnew =>
    use t
    rw [enterTexture, OrderedMap.find?_insert_of_ne]
    · exact ⟨ht, hrefl t⟩
    · rintro rfl
      rw [hnew] at ht
      cases ht
  | seenTexture _ _ _ hseen =>
    exact OrderedMap.exists_find?_insert hrefl hseen (hsample _ _) ht
  | _ => exact ⟨t, ht, hrefl t⟩

theorem Step.find?_textures
    (h : Step mode limits e r ss r') {name : Text} {t : Texture}
    (ht : r.textures.find? name = some t) :
  ∃ t', r'.textures.find? name = some t' ∧ t.Continues t'
  := h.exists_find?_textures .refl Texture.continues_sample Texture.continues_autoSampler ht

/-- A sampler that is registered stays registered. -/
theorem Step.find?_samplers
    (h : Step mode limits e r ss r') {name : Text} {s : Sampler}
    (hs : r.samplers.find? name = some s) :
  r'.samplers.find? name = some s
  := by
  cases h with
  | mark sampler =>
    obtain h | ⟨_, _, -, h⟩ := r.markAutoSampler_cases sampler <;>
    · rw [h]
      apply hs
  | newSampler _ hnew =>
    rw [enterSampler, OrderedMap.find?_insert_of_ne]
    · apply hs
    · rintro rfl
      rw [hnew] at hs
      cases hs
  | seenSampler _ hseen =>
    rw [enterSampler, OrderedMap.insert_of_find? hseen]
    apply hs
  | _ => apply hs

/-- A step keeps the tables of the layout aligned. -/
theorem Step.aligned (h : Step mode limits e r ss r') (ha : r.layout.Aligned) :
  r'.layout.Aligned
  := by
  cases h with
  | search => apply ha
  | mark sampler =>
    rw [layout_markAutoSampler]
    apply ha
  | newTexture => apply ha.describeElements
  | seenTexture => apply ha.describeElements
  | _ => apply ha.describe

/-- What the layout knows to be seen from a stage stays so. -/
theorem Step.sees
    (h : Step mode limits e r ss r') (ha : r.layout.Aligned) {slot : Slot} {stage : Stage}
    (hsees : r.layout.Sees slot stage) :
  r'.layout.Sees slot stage
  := by
  cases h with
  | search => apply hsees
  | mark sampler =>
    rw [layout_markAutoSampler]
    apply hsees
  | newTexture => apply ha.sees_describeElements hsees
  | seenTexture => apply ha.sees_describeElements hsees
  | _ => apply ha.sees_describe hsees

end Resources

/-! ### Steps in which a pair is finished -/

/-- Every name belongs to variables of one address space and one struct, and is not the name of a
buffer of another kind. -/
structure BufferForm.Unambiguous (forms : List BufferForm) : Prop where
  /-- A name belongs to one address space and one struct. -/
  same : ∀ f ∈ forms, ∀ g ∈ forms, f.name = g.name → f.space = g.space ∧ f.struct = g.struct
  /-- A name is not that of a struct known to the engine. -/
  not_engine : ∀ f ∈ forms, f.name ∉ engineBuffers
  /-- A name is not that of the leftover buffer. -/
  not_leftOver : ∀ f ∈ forms, f.name ≠ LeftOver.name

namespace BufferForm

variable {forms : List BufferForm} {f g : BufferForm} {ks : List Text}

theorem struct_mem_of_isEngineBuffer (h : f.isEngineBuffer) :
  f.struct ∈ engineBuffers
  := by
  simp only [isEngineBuffer, Bool.and_eq_true, List.contains_iff_mem] at h
  apply h.2

/-- Where the names are unambiguous, no buffer is registered under the name of a variable that
stands for a buffer of the engine. -/
theorem Unambiguous.name_ne_keyAmong
    (h : Unambiguous forms) (hf : f ∈ forms) (hengine : f.isEngineBuffer)
    (hg : g ∈ forms ∨ g = LeftOver.form) (hks : f.name ∉ ks) :
  f.name ≠ g.keyAmong ks
  := by
  intro heq
  rcases g.keyAmong_cases ks with hkey | ⟨hgengine, hkey⟩
  · have hname : f.name = g.name := heq.trans hkey
    rcases hg with hg | rfl
    · obtain ⟨hspace, hstruct⟩ := h.same f hf g hg hname
      have hgengine : g.isEngineBuffer := by
        rw [isEngineBuffer, ← hspace, ← hstruct]
        apply hengine
      rw [keyAmong, ← hname, if_neg hks, if_pos hgengine] at heq
      apply h.not_engine f hf
      rw [heq]
      apply struct_mem_of_isEngineBuffer hgengine
    · apply h.not_leftOver f hf hname
  · apply h.not_engine f hf
    rw [heq, hkey]
    apply struct_mem_of_isEngineBuffer hgengine

end BufferForm

namespace Resources

/-- A step in which a pair with some declarations of buffers is finished: the sight of a sampler,
of one of these buffers or of the leftover buffer. -/
structure Event.Finishing (forms : List BufferForm) (e : Event) : Prop where
  textureNames_eq : e.textureNames = []
  bufferForms_sub : ∀ f ∈ e.bufferForms, f ∈ forms ∨ f = LeftOver.form

variable {mode : Mode} {limits : Limits} {e : Event} {es : List Event} {r r' : Resources}
  {ss : List Slot} {forms : List BufferForm}

theorem Event.finishing_mark (sampler : Text) :
  (mark sampler).Finishing forms
  := by
  use rfl
  rintro f ⟨⟩

theorem Event.finishing_sampler (stage : Stage) (name : Text) :
  (sampler stage name).Finishing forms
  := by
  use rfl
  rintro f ⟨⟩

theorem Event.finishing_buffer
    (stage : Stage) {form : BufferForm} (h : form ∈ forms ∨ form = LeftOver.form) :
  (buffer stage form).Finishing forms
  := by
  use rfl
  intro f hf
  obtain rfl := List.mem_singleton.mp hf
  apply h

/-- When a pair is finished, what is sampled from a texture stays the same. -/
theorem Step.sample_eq
    (h : Step mode limits e r ss r') (he : e.textureNames = []) {name : Text} {t : Texture}
    (ht : r.textures.find? name = some t) :
  ∃ t', r'.textures.find? name = some t' ∧ t'.sample = t.sample
  := by
  cases h with
  | mark sampler =>
    obtain ⟨t', ht', -, hsample⟩ := find?_markAutoSampler sampler ht
    exact ⟨t', ht', hsample⟩
  | newTexture => cases he
  | seenTexture => cases he
  | _ => exact ⟨t, ht, rfl⟩

/-- When a pair is finished, the names of variables that stand for buffers of the engine do not
become keys. -/
theorem Step.name_not_mem_keys
    (hforms : BufferForm.Unambiguous forms) (he : e.Finishing forms)
    (h : Step mode limits e r ss r') {f : BufferForm} (hf : f ∈ forms)
    (hengine : f.isEngineBuffer) (hname : f.name ∉ r.buffers.keys) :
  f.name ∉ r'.buffers.keys
  := by
  rw [h.keys_buffers]
  cases e with
  | buffer stage g =>
    have hg := he.bufferForms_sub g (List.mem_singleton_self g)
    have hne := hforms.name_ne_keyAmong hf hengine hg hname
    change f.name ∉ OrderedMap.addKey r.buffers.keys (g.keyAmong r.buffers.keys)
    rw [OrderedMap.addKey]
    split
    · apply hname
    · rw [List.mem_append, List.mem_singleton, not_or]
      exact ⟨hname, hne⟩
  | _ => apply hname

end Resources

end ShaderPair
