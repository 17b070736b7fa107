import ShaderPair.Proofs.BufferSites
import ShaderPair.Proofs.Placement
import ShaderPair.Proofs.SlotDistinctness

/-!
# Which buffers share a slot

The declarations of buffers in a finished pair are annotated with the slots of the buffers
registered under their keys, and different keys have different slots.  So two declarations share
a slot exactly if they are registered under one key (`BufferSite.slot_eq_iff`).  The key of a
variable is its own name or, for a buffer of the engine, that of its struct; a variable that is
called like such a struct, or like the leftover buffer, shares the slot of that buffer
(`BufferSite.Clash`).  There is no other way for different variables to share a slot
(`buffers_sharedByKey`).
-/

namespace ShaderPair

open OrderedMap (addKey)
open Resources (Event Placed)

/-! ### Declarations with the same slot -/

namespace BufferSite

variable {r : Resources} {x y : BufferSite}

/-- Two declarations have the same slot if they are registered under the same name only. -/
theorem slot_eq_iff
    (hr : r.slots.Nodup) (hx : x.Registered r.buffers) (hy : y.Registered r.buffers) :
  x.slot = y.slot ↔ x.key = y.key
  := by
  obtain ⟨b, hb, hbslot⟩ := hx.find?
  obtain ⟨b', hb', hbslot'⟩ := hy.find?
  constructor
  · intro hslot
    have hmem : b.holding x.key ∈ r.holdings := r.holding_mem_of_find? hb
    have hmem' : b'.holding y.key ∈ r.holdings := r.holding_mem_of_find? hb'
    have heq := Resources.eq_of_slot_eq hr hmem hmem' (hbslot.trans (hslot.trans hbslot'.symm))
    exact congrArg Holding.name heq
  · intro hkey
    rw [hkey, hb'] at hb
    obtain rfl := Option.some.inj hb
    rw [← hbslot, hbslot']

/-- Two buffers of the engine with the same struct. -/
def SameEngineBuffer (x y : BufferSite) : Prop :=
  x.form.isEngineBuffer ∧ y.form.isEngineBuffer ∧ x.form.struct = y.form.struct

/-- A buffer of the engine, registered under the name of its struct, and another variable,
registered under its own name, that is called like this struct. -/
structure Clash (x y : BufferSite) : Prop where
  isEngineBuffer : x.form.isEngineBuffer
  key_left : x.key = x.form.struct
  key_right : y.key = y.form.name
  name_eq : y.form.name = x.form.struct
  name_ne : x.form.name ≠ y.form.name
  not_same : ¬ SameEngineBuffer x y

/-- Different variables are registered under the same name only if they are buffers of the engine
with the same struct or if they clash. -/
theorem same_or_clash_of_key_eq
    {buffers : OrderedMap Text Buffer} (hx : x.Registered buffers) (hy : y.Registered buffers)
    (hkey : x.key = y.key) (hname : x.form.name ≠ y.form.name) :
  SameEngineBuffer x y ∨ Clash x y ∨ Clash y x
  := by
  by_cases hsame : SameEngineBuffer x y
  · left
    apply hsame
  · right
    rcases hx.key_cases with hxkey | ⟨hxengine, hxkey⟩
    · rcases hy.key_cases with hykey | ⟨hyengine, hykey⟩
      · exact absurd (hxkey.symm.trans (hkey.trans hykey)) hname
      · right
        use hyengine, hykey, hxkey, hxkey.symm.trans (hkey.trans hykey), hname.symm
        rintro ⟨hyengine, hxengine, hstruct⟩
        exact hsame ⟨hxengine, hyengine, hstruct.symm⟩
    · rcases hy.key_cases with hykey | ⟨hyengine, hykey⟩
      · left
        exact ⟨hxengine, hxkey, hykey, hykey.symm.trans (hkey.symm.trans hxkey), hname, hsame⟩
      · exact absurd ⟨hxengine, hyengine, hxkey.symm.trans (hkey.trans hykey)⟩ hsame

/-- A variable registered under the name of the leftover buffer is called like that. -/
theorem name_eq_leftOver
    {buffers : OrderedMap Text Buffer} (hx : x.Registered buffers)
    (hkey : x.key = LeftOver.name) :
  x.form.name = LeftOver.name
  := by
  have hengine : engineBuffers.contains LeftOver.name = false := by decide +kernel
  rcases hx.key_cases with hname | ⟨hxengine, hstruct⟩
  · rw [← hname, hkey]
  · rw [BufferForm.isEngineBuffer, ← hstruct, hkey, hengine] at hxengine
    simp at hxengine

/-- Of the declarations `xs` different variables have different slots, unless both are buffers of
the engine with the same struct, and no variable has the slot of one of the declarations
`leftOver`. -/
def Separate (xs leftOver : List BufferSite) : Prop :=
  (∀ x ∈ xs, ∀ y ∈ xs, x.form.name ≠ y.form.name → ¬ SameEngineBuffer x y → x.slot ≠ y.slot) ∧
    ∀ x ∈ xs, ∀ l ∈ leftOver, x.slot ≠ l.slot

/-- Of the declarations `xs` no two clash, and none is registered as the leftover buffer if
there is one. -/
def Unclashing (xs leftOver : List BufferSite) : Prop :=
  (∀ x ∈ xs, ∀ y ∈ xs, ¬ Clash x y) ∧
    (leftOver ≠ [] → ∀ x ∈ xs, ¬ (x.form.name = LeftOver.name ∧ x.key = LeftOver.name))

/-- The slots are separate exactly if there is no clash of names. -/
theorem separate_iff
    {xs leftOver : List BufferSite} (hr : r.slots.Nodup)
    (hxs : ∀ x ∈ xs, x.Registered r.buffers) (hl : ∀ l ∈ leftOver, l.Registered r.buffers)
    (hkeys : ∀ l ∈ leftOver, l.key = LeftOver.name) :
  Separate xs leftOver ↔ Unclashing xs leftOver
  := by
  constructor
  · rintro ⟨hseparate, hseparate'⟩
    constructor
    · intro x hx y hy hclash
      apply hseparate x hx y hy hclash.name_ne hclash.not_same
      rw [slot_eq_iff hr (hxs x hx) (hxs y hy), hclash.key_left, hclash.key_right,
        hclash.name_eq]
    · rintro hleftOver x hx ⟨-, hkey⟩
      obtain ⟨l, hmem⟩ := List.exists_mem_of_ne_nil leftOver hleftOver
      apply hseparate' x hx l hmem
      rw [slot_eq_iff hr (hxs x hx) (hl l hmem), hkey, hkeys l hmem]
  · rintro ⟨hclash, hleftOver⟩
    constructor
    · intro x hx y hy hname hsame hslot
      rw [slot_eq_iff hr (hxs x hx) (hxs y hy)] at hslot
      rcases same_or_clash_of_key_eq (hxs x hx) (hxs y hy) hslot hname with h | h | h
      · exact hsame h
      · exact hclash x hx y hy h
      · exact hclash y hy x hx h
    · intro x hx l hmem hslot
      rw [slot_eq_iff hr (hxs x hx) (hl l hmem), hkeys l hmem] at hslot
      exact hleftOver (List.ne_nil_of_mem hmem) x hx ⟨name_eq_leftOver (hxs x hx) hslot, hslot⟩

end BufferSite

/-! ### Finished pairs -/

/-- The declarations of buffers in a finished pair. -/
structure PairBuffers where
  /-- Those of the vertex stage. -/
  vertex : List BufferSite
  /-- Those of the fragment stage. -/
  fragment : List BufferSite
  /-- The slot and the fields of the leftover buffer, if it is built. -/
  leftOver : Option (Slot × List (Uniform × Option Nat))

namespace PairBuffers

/-- The declaration of the leftover buffer. -/
def leftOverSites (bs : PairBuffers) : List BufferSite :=
  (bs.leftOver.map fun l => ⟨LeftOver.form, LeftOver.name, l.1⟩).toList

/-- The text of the leftover buffer. -/
def leftOverCode (bs : PairBuffers) : Text :=
  (bs.leftOver.map fun l => LeftOver.code l.1 l.2).getD []

/-- All declarations of buffers. -/
def sites (bs : PairBuffers) : List BufferSite :=
  bs.vertex ++ (bs.fragment ++ bs.leftOverSites)

/-- The declarations are those of the two stages whose samplers are annotated already, in order.
Each of them is registered under the name that follows from the names in use before. -/
structure Declared (buffers : OrderedMap Text Buffer) (sampled : StageTexts) (bs : PairBuffers) :
    Prop where
  vertex_forms : bs.vertex.map BufferSite.form = bufferForms sampled.vertex
  fragment_forms : bs.fragment.map BufferSite.form = bufferForms sampled.fragment
  vertex_keys : bs.vertex.map BufferSite.key
    = BufferForm.keysFrom buffers.keys (bufferForms sampled.vertex)
  fragment_keys : bs.fragment.map BufferSite.key
    = BufferForm.keysFrom ((bs.vertex.map BufferSite.key).foldl addKey buffers.keys)
        (bufferForms sampled.fragment)

/-- The two stages with the declarations annotated with their slots, behind the leftover
buffer. -/
def annotated (bs : PairBuffers) (sampled : StageTexts) : StageTexts :=
  ⟨bs.leftOverCode ++ annotateForms sampled.vertex (bs.vertex.map BufferSite.slot),
    bs.leftOverCode ++ annotateForms sampled.fragment (bs.fragment.map BufferSite.slot)⟩

/-- The declarations are those of the pair `out`, into which `texts` are finished in a context. -/
def Finished (c : Context) (texts out : StageTexts) (bs : PairBuffers) : Prop :=
  ∃ (sampled : StageTexts) (d : Declarations),
    (Compile.bothStages Compile.annotateSamplers texts c).result = .ok sampled ∧
    bs.Declared c.resources.buffers sampled ∧
    out.vertex = Finish.vertex c.mode d (bs.annotated sampled).vertex ∧
    out.fragment = Finish.fragment c.mode d (bs.annotated sampled).fragment

/-- Declarations share a slot exactly if they are registered under the same name, and in each
stage the slots are separate exactly if there is no clash of names. -/
structure SharedByKey (bs : PairBuffers) : Prop where
  slot_eq_iff : ∀ x ∈ bs.sites, ∀ y ∈ bs.sites, x.slot = y.slot ↔ x.key = y.key
  vertex : BufferSite.Separate bs.vertex bs.leftOverSites
    ↔ BufferSite.Unclashing bs.vertex bs.leftOverSites
  fragment : BufferSite.Separate bs.fragment bs.leftOverSites
    ↔ BufferSite.Unclashing bs.fragment bs.leftOverSites

/-- Declarations share slots by the names they are registered under. -/
theorem sharedByKey
    {bs : PairBuffers} {r : Resources} (hr : r.slots.Nodup)
    (hsites : ∀ x ∈ bs.sites, x.Registered r.buffers) :
  bs.SharedByKey
  := by
  have hvertex : ∀ x ∈ bs.vertex, x.Registered r.buffers :=
    fun x hx => hsites x (List.mem_append_left _ hx)
  have hfragment : ∀ x ∈ bs.fragment, x.Registered r.buffers :=
    fun x hx => hsites x (List.mem_append_right _ (List.mem_append_left _ hx))
  have hleftOver : ∀ l ∈ bs.leftOverSites, l.Registered r.buffers :=
    fun l hl => hsites l (List.mem_append_right _ (List.mem_append_right _ hl))
  have hkeys : ∀ l ∈ bs.leftOverSites, l.key = LeftOver.name := by
    intro l hl
    simp only [leftOverSites, Option.mem_toList, Option.map_eq_some_iff] at hl
    obtain ⟨_, -, rfl⟩ := hl
    rfl
  constructor
  · intro x hx y hy
    apply BufferSite.slot_eq_iff hr (hsites x hx) (hsites y hy)
  · apply BufferSite.separate_iff hr hvertex hleftOver hkeys
  · apply BufferSite.separate_iff hr hfragment hleftOver hkeys

end PairBuffers

namespace Compile

theorem does_annotateBothBuffers (texts : StageTexts) (c : Context) :
  Does (bothStages annotateBuffers texts) c fun _ es => es = texts.events Event.ofBuffers
  := does_bothStages does_annotateBuffers texts c

/-- The samplers leave the buffers alone. -/
theorem buffers_annotateSamplers
    {texts sampled : StageTexts} {c : Context}
    (h : (bothStages annotateSamplers texts c).result = .ok sampled) :
  (bothStages annotateSamplers texts c).context.resources.buffers = c.resources.buffers
  := by
  obtain ⟨es, heffect, hok⟩ := does_bothStages does_annotateSamplers texts c
  obtain rfl := hok sampled h
  apply (heffect.steps.slots_of_samplers (Event.registry?_ofSamplers texts)).2.2

/-- The declarations in both stages have the slots of the buffers registered under their
keys. -/
theorem registered_of_annotateBothBuffers
    {sampled annotated : StageTexts} {c : Context}
    (h : (bothStages annotateBuffers sampled c).result = .ok annotated) :
  ∃ bs : PairBuffers, bs.leftOver = none ∧ bs.Declared c.resources.buffers sampled ∧
    annotated = bs.annotated sampled ∧
    ∀ x ∈ bs.vertex ++ bs.fragment,
      x.Registered (bothStages annotateBuffers sampled c).context.resources.buffers
  := by
  obtain ⟨vertexText, hvertex, h⟩ := ok_of_bind h
  obtain ⟨fragmentText, hfragment, h⟩ := ok_of_bind h
  obtain rfl := Except.ok.inj h
  obtain ⟨vertex, hvforms, rfl, hvkeys, hvbuffers, hvreg⟩ := registered_of_annotateBuffers hvertex
  obtain ⟨fragment, hfforms, rfl, hfkeys, -, hfreg⟩ := registered_of_annotateBuffers hfragment
  rw [hvbuffers] at hfkeys
  have hcontext : (bothStages annotateBuffers sampled c).context
      = (annotateBuffers .fragment sampled.fragment
          (annotateBuffers .vertex sampled.vertex c).context).context := by
    rw [bothStages, bind_of_ok hvertex, bind_of_ok hfragment]
    rfl
  use ⟨vertex, fragment, none⟩, rfl, ⟨hvforms, hfforms, hvkeys, hfkeys⟩, rfl
  intro x hx
  rw [hcontext]
  rcases List.mem_append.mp hx with hx | hx
  · apply (does_annotateBuffers _ _ _).registered (hvreg x hx)
  · apply hfreg x hx

/-- How a pair comes out that has got all its slots. -/
theorem finish_of_ok
    {texts sampled annotated : StageTexts} {leftOver : Text} {c c₁ c₂ c₃ : Context}
    (hsampled : (bothStages annotateSamplers texts c).result = .ok sampled)
    (hc₁ : (bothStages annotateSamplers texts c).context = c₁)
    (hannotated : (bothStages annotateBuffers sampled c₁).result = .ok annotated)
    (hc₂ : (bothStages annotateBuffers sampled c₁).context = c₂)
    (hleftOver : (buildLeftOver c₂).result = .ok leftOver)
    (hc₃ : (buildLeftOver c₂).context = c₃) :
  let d := c₃.interface.declarations
  (finish texts c).result = .ok
    ⟨Finish.vertex c₃.mode d (leftOver ++ annotated.vertex),
      Finish.fragment c₃.mode d (leftOver ++ annotated.fragment)⟩ ∧
    (finish texts c).context = c₃.collectNames.collectPlaceholders.clear
  := by
  subst hc₁ hc₂ hc₃
  rw [finish, bind_of_ok hsampled, bind_of_ok hannotated, bind_of_ok hleftOver, context_bind,
    update_bind]
  exact ⟨rfl, rfl⟩

/-- A finished pair has its declarations annotated with the slots of the buffers registered under
their keys. -/
theorem registered_of_finish
    {texts out : StageTexts} {c : Context} (h : (finish texts c).result = .ok out) :
  ∃ bs : PairBuffers, bs.Finished c texts out ∧
    ∀ x ∈ bs.sites, x.Registered (finish texts c).context.resources.buffers
  := by
  obtain ⟨sampled, hsampled, h'⟩ := ok_of_bind h
  obtain ⟨_, hannotated, h'⟩ := ok_of_bind h'
  obtain ⟨text, htext, -⟩ := ok_of_bind h'
  obtain ⟨hresult, hcontext⟩ := finish_of_ok hsampled rfl hannotated rfl htext rfl
  obtain rfl := Except.ok.inj (h.symm.trans hresult)
  have hmode₁ := (does_bothStages does_annotateSamplers texts c).mode_eq
  have hmode₂ := (does_annotateBothBuffers sampled _).mode_eq.trans hmode₁
  have hmode := (does_buildLeftOver _).mode_eq.trans hmode₂
  obtain ⟨⟨vertex, fragment, _⟩, rfl, hdeclared, rfl, hsites⟩ :=
    registered_of_annotateBothBuffers hannotated
  rw [buffers_annotateSamplers hsampled] at hdeclared
  rw [hcontext, hmode]
  have hkept := fun x hx => (does_buildLeftOver _).registered (hsites x hx)
  rcases registered_of_buildLeftOver htext with rfl | ⟨slot, us, rfl, hleftOver⟩
  · refine ⟨⟨vertex, fragment, none⟩, ⟨sampled, _, hsampled, hdeclared, rfl, rfl⟩, ?_⟩
    intro x hx
    apply hkept x
    simpa [PairBuffers.sites, PairBuffers.leftOverSites] using hx
  · refine ⟨⟨vertex, fragment, some (slot, us)⟩, ⟨sampled, _, hsampled, ?_, rfl, rfl⟩, ?_⟩
    · exact ⟨hdeclared.vertex_forms, hdeclared.fragment_forms, hdeclared.vertex_keys,
        hdeclared.fragment_keys⟩
    · intro x hx
      rw [PairBuffers.sites, ← List.append_assoc] at hx
      rcases List.mem_append.mp hx with hx | hx
      · apply hkept x hx
      · obtain rfl := List.mem_singleton.mp hx
        apply hleftOver

/-- In a finished pair declarations share slots by the names they are registered under. -/
theorem sharedByKey_of_finish
    {texts out : StageTexts} {c : Context} (h : (finish texts c).result = .ok out)
    (hc : Placed c.mode c.resources) :
  ∃ bs : PairBuffers, bs.Finished c texts out ∧ bs.SharedByKey
  := by
  obtain ⟨bs, hfinished, hsites⟩ := registered_of_finish h
  obtain ⟨es, heffect, -⟩ := does_finish texts c
  use bs, hfinished
  apply PairBuffers.sharedByKey (heffect.steps.placed hc).nodup hsites

end Compile

/-- In every context that can be reached, the declarations of a pair that is finished or compiled
share slots exactly by the names they are registered under.  So different variables of a stage
have different slots, up to buffers of the engine with the same struct, exactly if no variable
clashes with the struct of such a buffer, or with the leftover buffer. -/
theorem buffers_sharedByKey
    (mode : Mode) (limits : Limits) (components : OrderedMap Text Int) (ops : List Operation) :
  let c := (Context.fresh mode limits components).after ops
  (∀ texts out, (Compile.finish texts c).result = .ok out →
    ∃ bs : PairBuffers, bs.Finished c texts out ∧ bs.SharedByKey) ∧
  ∀ source out, (Compile.pair source c).result = .ok out →
    ∃ declared, (Compile.declareStages source c).result = .ok declared ∧
      ∃ bs : PairBuffers,
        bs.Finished (Compile.declareStages source c).context declared out ∧ bs.SharedByKey
  := by
  intro c
  have hmode : c.mode = mode := (Session.steps (.fresh mode limits components) ops).1
  have hplaced : Placed c.mode c.resources := by
    rw [hmode]
    apply Session.placed ops
  constructor
  · intro texts out h
    apply Compile.sharedByKey_of_finish h hplaced
  · intro source out h
    obtain ⟨declared, hdeclared, h⟩ := Compile.ok_of_bind h
    obtain ⟨es, heffect, -⟩ := Compile.does_declareStages source c
    use declared, hdeclared
    apply Compile.sharedByKey_of_finish h
    rw [heffect.mode_eq]
    apply heffect.steps.placed hplaced

/-- A shader pair with a buffer of the engine and a variable that is called like its struct. -/
def sceneVariable : SourcePair where
  vertex := "var<uniform> a : Scene;\nvar<storage> Scene : X;"
  fragment := []

namespace sceneVariable

/-- The stages of the pair behind the declaration of the buffer of the engine. -/
def declared : StageTexts :=
  ⟨internalsDeclaration ++ sceneVariable.vertex, internalsDeclaration⟩

/-- The buffers of the pair. -/
def buffers : PairBuffers where
  vertex := [⟨⟨.uniform, none, "internals", "Internals"⟩, "Internals", ⟨1, 0⟩⟩,
    ⟨⟨.uniform, none, "a", "Scene"⟩, "Scene", ⟨0, 0⟩⟩,
    ⟨⟨.storage, none, "Scene", "X"⟩, "Scene", ⟨0, 0⟩⟩]
  fragment := [⟨⟨.uniform, none, "internals", "Internals"⟩, "Internals", ⟨1, 0⟩⟩]
  leftOver := none

/-- The finished pair. -/
def finished : StageTexts :=
  ⟨Finish.vertex .engine {} (buffers.annotated declared).vertex,
    Finish.fragment .engine {} (buffers.annotated declared).fragment⟩

end sceneVariable

open Compile sceneVariable in
/-- The buffer of the engine and the variable that is called like its struct share a slot. -/
theorem not_separate_sceneVariable :
  let c := Context.fresh .engine {} ∅
  (pair sceneVariable c).result = .ok finished ∧
    buffers.Finished (declareStages sceneVariable c).context declared finished ∧
    Text.occurs
      "@group(0) @binding(0) var<uniform> a : Scene;\n@group(0) @binding(0) var<storage> Scene : X;"
      (buffers.annotated declared).vertex ∧
    ¬ BufferSite.Separate buffers.vertex buffers.leftOverSites
  := by
  intro c
  have hdeclared : (declareStages sceneVariable c).result = .ok declared := by
    decide +kernel
  have hmode : (declareStages sceneVariable c).context.mode = .engine :=
    (does_declareStages sceneVariable c).mode_eq
  set c' := (declareStages sceneVariable c).context
  have hsampled : (bothStages annotateSamplers declared c').result = .ok declared := by
    decide +kernel
  set c₁ := (bothStages annotateSamplers declared c').context
  have hannotated : (bothStages annotateBuffers declared c₁).result
      = .ok (buffers.annotated declared) := by
    decide +kernel
  set c₂ := (bothStages annotateBuffers declared c₁).context
  have hleftOver : (buildLeftOver c₂).result = .ok [] := by
    decide +kernel
  have hend : (buildLeftOver c₂).context.mode = .engine ∧
      (buildLeftOver c₂).context.interface.declarations = {} := by
    decide +kernel
  constructor
  · obtain ⟨hresult, -⟩ := finish_of_ok hsampled rfl hannotated rfl hleftOver rfl
    rw [hend.1, hend.2, List.nil_append, List.nil_append] at hresult
    rw [pair, result_bind_of_ok hdeclared, hresult, finished]
  constructor
  · use declared, {}, hsampled
    rw [hmode, finished]
    constructor
    · constructor <;> decide +kernel
    · exact ⟨rfl, rfl⟩
  constructor
  · decide +kernel
  · rintro ⟨hseparate, -⟩
    apply hseparate ⟨⟨.uniform, none, "a", "Scene"⟩, "Scene", ⟨0, 0⟩⟩ _
      ⟨⟨.storage, none, "Scene", "X"⟩, "Scene", ⟨0, 0⟩⟩ _ _ _ rfl
    · simp [buffers]
    · simp [buffers]
    · decide +kernel
    · rintro ⟨-, hengine, -⟩
      revert hengine
      decide +kernel

end ShaderPair
