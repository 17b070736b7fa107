import ShaderPair.Proofs.BufferSites
import ShaderPair.Proofs.Persistence

/-!
# Going the same way again

What a context keeps from one shader pair to the next are its resources, its plain uniforms and
its catalogue; `Context.keeping` puts what one context keeps into another one.  A program replays
over what is kept if it comes out there as it did before, but takes no slots
(`Compile.Replays`).

Programs replay over what a context keeps to which they have led (`Compile.Leads`).  Only one
thing is not the same on the second way at once: what is sampled from a texture is what its last
declaration says, so that it goes through the values that it had on the first way
(`Resampled`).  `Compile.Retraces` says all this of a program, and it holds of sequences of
programs as soon as it holds of each of them.
-/

namespace ShaderPair

open Resources (Event Steps)

/-! ### What is kept -/

namespace Context

/-- A context with what another one keeps. -/
def keeping (c d : Context) : Context :=
  { c with resources := d.resources, uniforms := d.uniforms, catalogue := d.catalogue }

/-- A context with other textures. -/
def withTextures (c : Context) (textures : OrderedMap Text Texture) : Context :=
  c.withResources { c.resources with textures := textures }

end Context

/-! ### Texture registries on the second way -/

/-- The textures in `again` are those in `final`, but from some of them is sampled what was so on
the first way, where the textures were `now`. -/
structure Resampled (final now again : OrderedMap Text Texture) : Prop where
  keys_eq : again.keys = final.keys
  find? {name : Text} {t : Texture} (h : final.find? name = some t) :
    again.find? name = some t ∨
      ∃ t', now.find? name = some t' ∧ again.find? name = some { t with sample := t'.sample }

namespace Resampled

variable {final now now' again : OrderedMap Text Texture}

/-- At the start of the second way all textures are as they were at the end of the first. -/
theorem start (final now : OrderedMap Text Texture) :
  Resampled final now final
  := ⟨rfl, Or.inl⟩

/-- At the end of the second way they are so again. -/
theorem eq_of_end
    (h : Resampled final now again)
    (hend : ∀ {name t}, now.find? name = some t →
      ∃ t', final.find? name = some t' ∧ t'.sample = t.sample) :
  again = final
  := by
  apply OrderedMap.ext_find? h.keys_eq
  intro name
  cases hfinal : final.find? name with
  | none =>
    rw [OrderedMap.find?_eq_none_iff, h.keys_eq, ← OrderedMap.find?_eq_none_iff]
    apply hfinal
  | some t =>
    rcases h.find? hfinal with heq | ⟨t', hnow, heq⟩
    · apply heq
    · obtain ⟨t'', hfinal', hsample⟩ := hend hnow
      obtain rfl := Option.some.inj (hfinal.symm.trans hfinal')
      rw [heq, ← hsample]

/-- Only what is sampled on the first way matters. -/
theorem congr
    (h : Resampled final now again)
    (hnow : ∀ {name t}, now.find? name = some t →
      ∃ t', now'.find? name = some t' ∧ t'.sample = t.sample) :
  Resampled final now' again
  := by
  use h.keys_eq
  intro name t ht
  rcases h.find? ht with heq | ⟨t', ht', heq⟩
  · left
    apply heq
  · right
    obtain ⟨t'', ht'', hsample⟩ := hnow ht'
    use t'', ht''
    rw [heq, hsample]

/-- A texture that has a value on the second way continues as the one that was registered. -/
theorem exists_sample
    (h : Resampled final now again) {name : Text} {t : Texture} (ht : final.find? name = some t) :
  ∃ sample, again.find? name = some { t with sample := sample }
  := by
  rcases h.find? ht with heq | ⟨t', -, heq⟩
  · exact ⟨t.sample, heq⟩
  · exact ⟨t'.sample, heq⟩

theorem of_find?
    (h : Resampled final now again) {name : Text} {t : Texture} (ht : again.find? name = some t) :
  ∃ t', final.find? name = some t' ∧ t = { t' with sample := t.sample }
  := by
  have hmem : name ∈ final.keys := by
    rw [← h.keys_eq]
    apply OrderedMap.mem_keys_iff.mpr ⟨t, ht⟩
  obtain ⟨t', ht'⟩ := OrderedMap.mem_keys_iff.mp hmem
  obtain ⟨sample, hagain⟩ := h.exists_sample ht'
  obtain rfl := Option.some.inj (hagain.symm.trans ht)
  exact ⟨t', ht', rfl⟩

/-- On both ways the declaration of a texture says what is sampled from it. -/
theorem insert
    (h : Resampled final now again) {name : Text} {t : Texture}
    (ht : final.find? name = some t) (t' : Texture) :
  Resampled final (now.insert name t') (again.insert name { t with sample := t'.sample })
  := by
  obtain ⟨sample, hagain⟩ := h.exists_sample ht
  constructor
  · rw [OrderedMap.keys_insert, if_pos, h.keys_eq]
    apply OrderedMap.mem_keys_iff.mpr ⟨_, hagain⟩
  · intro name' t₀ ht₀
    by_cases hname : name' = name
    · subst hname
      obtain rfl := Option.some.inj (ht.symm.trans ht₀)
      right
      use t'
      simp only [OrderedMap.find?_insert_self, and_self]
    · simp only [OrderedMap.find?_insert_of_ne _ hname]
      apply h.find? ht₀

end Resampled

namespace Compile

variable {α β : Type} {P : Event → Prop} {c d d' d'' f : Context} {forms : List BufferForm}

/-! ### Ways -/

/-- There is a way from a context to another one: steps of some kinds with the resources, and
perhaps more plain uniforms. -/
structure Leads (P : Event → Prop) (c f : Context) : Prop where
  mode_eq : f.mode = c.mode
  limits_eq : f.limits = c.limits
  uniforms_sub : c.uniforms ⊆ f.uniforms
  steps : ∃ es ss, (∀ e ∈ es, P e) ∧ Steps c.mode c.limits es c.resources ss f.resources

namespace Leads

theorem refl (c : Context) :
  Leads P c c
  := by
  constructor
  · rfl
  · rfl
  · apply List.Subset.refl
  · refine ⟨[], [], ?_, Steps.refl _⟩
    rintro e ⟨⟩

/-- Only the part of a context matters that is not the interface. -/
theorem congr
    {f' : Context} (h : Leads P c f) (hmode : f'.mode = f.mode) (hlimits : f'.limits = f.limits)
    (huniforms : f'.uniforms = f.uniforms) (hresources : f'.resources = f.resources) :
  Leads P c f'
  := by
  constructor
  · rw [hmode, h.mode_eq]
  · rw [hlimits, h.limits_eq]
  · rw [huniforms]
    apply h.uniforms_sub
  · rw [hresources]
    apply h.steps

theorem congr_left
    {c' : Context} (h : Leads P c f) (hmode : c'.mode = c.mode) (hlimits : c'.limits = c.limits)
    (huniforms : c'.uniforms = c.uniforms) (hresources : c'.resources = c.resources) :
  Leads P c' f
  := by
  constructor
  · rw [hmode, h.mode_eq]
  · rw [hlimits, h.limits_eq]
  · rw [huniforms]
    apply h.uniforms_sub
  · rw [hmode, hlimits, hresources]
    apply h.steps

theorem trans (h : Leads P c d) (h' : Leads P d f) :
  Leads P c f
  := by
  obtain ⟨es, ss, hes, hsteps⟩ := h.steps
  obtain ⟨es', ss', hes', hsteps'⟩ := h'.steps
  use h'.mode_eq.trans h.mode_eq, h'.limits_eq.trans h.limits_eq
  use List.Subset.trans h.uniforms_sub h'.uniforms_sub
  refine ⟨es ++ es', ss ++ ss', ?_, ?_⟩
  · rw [List.forall_mem_append]
    exact ⟨hes, hes'⟩
  · rw [h.mode_eq, h.limits_eq] at hsteps'
    apply hsteps.append hsteps'

theorem mono {Q : Event → Prop} (h : Leads P c f) (hPQ : ∀ e, P e → Q e) :
  Leads Q c f
  := by
  obtain ⟨es, ss, hes, hsteps⟩ := h.steps
  exact ⟨h.mode_eq, h.limits_eq, h.uniforms_sub, es, ss, fun e he => hPQ e (hes e he), hsteps⟩

theorem preserves
    {Q : Resources → Prop} (h : Leads P c f)
    (hQ : ∀ {e r ss r'}, P e → Resources.Step c.mode c.limits e r ss r' → Q r → Q r')
    (hc : Q c.resources) :
  Q f.resources
  := by
  obtain ⟨es, ss, hes, hsteps⟩ := h.steps
  apply hsteps.preserves_of_forall hQ hes hc

theorem find?_textures
    (h : Leads P c f) {name : Text} {t : Texture}
    (ht : c.resources.textures.find? name = some t) :
  ∃ t', f.resources.textures.find? name = some t' ∧ t.Continues t'
  := by
  apply h.preserves (Q := fun r => ∃ t', r.textures.find? name = some t' ∧ t.Continues t')
  · rintro e r ss r' - hstep ⟨t', ht', hcontinues⟩
    obtain ⟨t'', ht'', hcontinues'⟩ := hstep.find?_textures ht'
    exact ⟨t'', ht'', hcontinues.trans hcontinues'⟩
  · exact ⟨t, ht, .refl t⟩

theorem find?_samplers
    (h : Leads P c f) {name : Text} {s : Sampler}
    (hs : c.resources.samplers.find? name = some s) :
  f.resources.samplers.find? name = some s
  := by
  apply h.preserves (Q := fun r => r.samplers.find? name = some s) _ hs
  intro e r ss r' _ hstep
  apply hstep.find?_samplers

theorem find?_buffers
    (h : Leads P c f) {key : Text} {b : Buffer}
    (hb : c.resources.buffers.find? key = some b) :
  f.resources.buffers.find? key = some b
  := by
  apply h.preserves (Q := fun r => r.buffers.find? key = some b) _ hb
  intro e r ss r' _ hstep
  apply hstep.find?_buffers

theorem aligned (h : Leads P c f) (ha : c.resources.layout.Aligned) :
  f.resources.layout.Aligned
  := by
  apply h.preserves (Q := fun r => r.layout.Aligned) _ ha
  intro e r ss r' _ hstep
  apply hstep.aligned

theorem sees
    (h : Leads P c f) (ha : c.resources.layout.Aligned) {slot : Slot} {stage : Stage}
    (hsees : c.resources.layout.Sees slot stage) :
  f.resources.layout.Sees slot stage
  := by
  have hboth := h.preserves (Q := fun r => r.layout.Aligned ∧ r.layout.Sees slot stage)
    (fun _ hstep ⟨ha, hsees⟩ => ⟨hstep.aligned ha, hstep.sees ha hsees⟩) ⟨ha, hsees⟩
  apply hboth.2

/-- What has been described on the way is not described anew. -/
theorem describe_eq
    (h : Leads P c f) {layout : Layout} (ha : layout.Aligned) {slot : Slot} {name : Text}
    {elementName : Option Text} {resource : Resource} {stage : Stage}
    (hlayout : c.resources.layout = layout.describe slot name elementName resource stage) :
  f.resources.layout.describe slot name elementName resource stage = f.resources.layout
  := by
  apply Layout.describe_of_sees
  apply h.sees <;> rw [hlayout]
  · apply ha.describe
  · apply ha.sees_describe_self

theorem describeElements_eq
    (h : Leads P c f) {layout : Layout} (ha : layout.Aligned) {name : Text} {isArray : Bool}
    {resource : Resource} {stage : Stage} {number : Nat} {slots : List Slot}
    (hlayout : c.resources.layout
      = layout.describeElements name isArray resource stage number slots) :
  f.resources.layout.describeElements name isArray resource stage number slots
    = f.resources.layout
  := by
  apply Layout.describeElements_of_sees
  intro slot hslot
  apply h.sees <;> rw [hlayout]
  · apply ha.describeElements
  · apply ha.sees_describeElements_self _ _ _ _ hslot

/-- When a pair is finished, no textures are registered. -/
theorem keys_textures (h : Leads (Event.Finishing forms) c f) :
  f.resources.textures.keys = c.resources.textures.keys
  := by
  apply h.preserves (Q := fun r => r.textures.keys = c.resources.textures.keys) _ rfl
  intro e r ss r' he hstep hr
  rw [hstep.keys_textures, he.textureNames_eq]
  apply hr

/-- When a pair is finished, the texture to which a sampler is bound by its name stays bound
to it. -/
theorem autoSampler_of_mark
    (h : Leads (Event.Finishing forms) c f) {r : Resources} {sampler name : Text}
    (hc : c.resources = r.markAutoSampler sampler)
    (hname : SamplerForm.textureName? sampler = some name) {t : Texture}
    (ht : f.resources.textures.find? name = some t) :
  t.autoSampler = true
  := by
  have hmem := OrderedMap.mem_keys_iff.mpr ⟨t, ht⟩
  rw [h.keys_textures] at hmem
  obtain ⟨t₀, ht₀⟩ := OrderedMap.mem_keys_iff.mp hmem
  obtain ⟨t', ht', hcontinues⟩ := h.find?_textures ht₀
  obtain rfl := Option.some.inj (ht.symm.trans ht')
  rw [hc] at ht₀
  apply hcontinues.autoSampler (Resources.autoSampler_of_markAutoSampler hname ht₀)

/-- When a pair is finished, what is sampled from a texture stays the same. -/
theorem sample_eq
    (h : Leads (Event.Finishing forms) c f) {name : Text} {t : Texture}
    (ht : c.resources.textures.find? name = some t) :
  ∃ t', f.resources.textures.find? name = some t' ∧ t'.sample = t.sample
  := by
  apply h.preserves (Q := fun r => ∃ t', r.textures.find? name = some t' ∧ t'.sample = t.sample)
  · rintro e r ss r' he hstep ⟨t', ht', hsample⟩
    obtain ⟨t'', ht'', hsample'⟩ := hstep.sample_eq he.textureNames_eq ht'
    exact ⟨t'', ht'', hsample'.trans hsample⟩
  · exact ⟨t, ht, rfl⟩

/-- Where the names are unambiguous, a buffer has the same key before and after a pair is
finished. -/
theorem key_eq
    (h : Leads (Event.Finishing forms) c f) (hforms : BufferForm.Unambiguous forms)
    {form : BufferForm} (hform : form ∈ forms) :
  form.key f.resources.buffers = form.key c.resources.buffers
  := by
  cases hengine : form.isEngineBuffer with
  | false => simp only [BufferForm.key, hengine, Bool.false_eq_true, if_false, ite_self]
  | true =>
    simp only [BufferForm.key, OrderedMap.contains_iff]
    by_cases hname : form.name ∈ c.resources.buffers.keys
    · obtain ⟨b, hb⟩ := OrderedMap.mem_keys_iff.mp hname
      have hname' : form.name ∈ f.resources.buffers.keys :=
        OrderedMap.mem_keys_iff.mpr ⟨b, h.find?_buffers hb⟩
      rw [if_pos hname, if_pos hname']
    · have hname' : form.name ∉ f.resources.buffers.keys := by
        apply h.preserves (Q := fun r => form.name ∉ r.buffers.keys) _ hname
        intro e r ss r' he hstep
        apply hstep.name_not_mem_keys hforms he hform hengine
      rw [if_neg hname, if_neg hname']

end Leads

/-! ### Replays -/

/-- Over what `d` keeps a program comes out as in `c`, without slots handed out, and leaves what
`d'` keeps. -/
def Replays (x : Compile α) (c d d' : Context) : Prop :=
  x (c.keeping d) = ⟨(x c).result, (x c).warnings, [], (x c).context.keeping d'⟩

theorem Replays.bind_of_ok
    {x : Compile α} {g : α → Compile β} {a : α} (ha : (x c).result = .ok a)
    (hx : Replays x c d d') (hg : Replays (g a) (x c).context d' d'') :
  Replays (x >>= g) c d d''
  := by
  rw [Replays] at hx hg ⊢
  rw [Compile.bind_of_ok ha, Compile.bind_of_ok (a := a) (by rw [hx]; exact ha), hx, hg]
  rfl

theorem Replays.bind_of_error
    {x : Compile α} {g : α → Compile β} {e : Fault} (he : (x c).result = .error e)
    (hx : Replays x c d d') :
  Replays (x >>= g) c d d'
  := by
  rw [Replays] at hx ⊢
  rw [Compile.bind_of_error he, Compile.bind_of_error (by rw [hx]; exact he), hx]

theorem Replays.of_context
    {g : Context → Compile α} (hg : g (c.keeping d) = g c) (h : Replays (g c) c d d') :
  Replays (context >>= g) c d d'
  := by
  rw [Replays, context_bind, context_bind, hg]
  apply h

/-! ### Blind programs -/

/-- A program that neither looks at what is kept nor changes it. -/
def Blind (x : Compile α) : Prop := ∀ c d, Replays x c d d

theorem blind_pure (a : α) :
  Blind (pure a : Compile α)
  := by
  intro c d
  rfl

theorem blind_warn (w : Warning) :
  Blind (warn w)
  := by
  intro c d
  rfl

theorem blind_fail (e : Fault) :
  Blind (fail e : Compile α)
  := by
  intro c d
  rfl

theorem Blind.bind
    {x : Compile α} {g : α → Compile β} (hx : Blind x) (hg : ∀ a, Blind (g a)) :
  Blind (x >>= g)
  := by
  intro c d
  cases hr : (x c).result with
  | error e => apply (hx c d).bind_of_error hr
  | ok a => apply (hx c d).bind_of_ok hr (hg a _ d)

/-- A blind program changes nothing of what is kept. -/
theorem Blind.context_eq {x : Compile α} (hx : Blind x) (c : Context) :
  (x c).context = (x c).context.keeping c
  := congrArg Outcome.context (hx c c)

/-! ### Programs that go the same way again -/

/-- A program that succeeds takes steps of some kinds with the resources, and it replays over
what a context keeps to which it has led by such steps. -/
structure Retraces (P : Event → Prop) (x : Compile α) (c : Context) : Prop where
  leads {a : α} (h : (x c).result = .ok a) : Leads P c (x c).context
  replays {a : α} (h : (x c).result = .ok a) (ha : c.resources.layout.Aligned) {f : Context}
    (hf : Leads P (x c).context f) {ts : OrderedMap Text Texture}
    (hts : Resampled f.resources.textures c.resources.textures ts) :
    ∃ ts', Resampled f.resources.textures (x c).context.resources.textures ts' ∧
      Replays x c (f.withTextures ts) (f.withTextures ts')

theorem Retraces.bind
    {x : Compile α} {g : α → Compile β} (hx : Retraces P x c)
    (hg : ∀ a, (x c).result = .ok a → Retraces P (g a) (x c).context) :
  Retraces P (x >>= g) c
  := by
  constructor
  · intro b h
    obtain ⟨a, hok, hb⟩ := ok_of_bind h
    rw [bind_of_ok hok]
    apply (hx.leads hok).trans ((hg a hok).leads hb)
  · intro b h ha f hf ts hts
    obtain ⟨a, hok, hb⟩ := ok_of_bind h
    rw [bind_of_ok hok] at hf ⊢
    have hleads := hx.leads hok
    obtain ⟨ts', hts', hreplays⟩ := hx.replays hok ha (((hg a hok).leads hb).trans hf) hts
    obtain ⟨ts'', hts'', hreplays'⟩ := (hg a hok).replays hb (hleads.aligned ha) hf hts'
    use ts'', hts''
    apply hreplays.bind_of_ok hok hreplays'

/-- A blind program that takes no steps goes the same way again. -/
theorem Blind.retraces {x : Compile α} (hx : Blind x) (hquiet : Quiet x) :
  Retraces P x c
  := by
  have hc := hx.context_eq c
  constructor
  · rintro a -
    apply (Leads.refl c).congr (hquiet c).mode_eq (hquiet c).limits_eq
    · rw [hc]
      rfl
    · rw [hc]
      rfl
  · rintro a - - f - ts hts
    use ts
    rw [hc]
    use hts, hx c _

theorem Retraces.of_context
    {g : Context → Compile α} (hg : ∀ d, g (c.keeping d) = g c) (h : Retraces P (g c) c) :
  Retraces P (context >>= g) c
  := by
  use h.leads
  intro a hok ha f hf ts hts
  obtain ⟨ts', hts', hreplays⟩ := h.replays hok ha hf hts
  use ts', hts', hreplays.of_context (hg _)

theorem retraces_pure (a : α) :
  Retraces P (pure a) c
  := (blind_pure a).retraces (quiet_pure a)

theorem Retraces.bind_pure
    {x : Compile α} {g : α → β} (hx : Retraces P x c) :
  Retraces P (x >>= fun a => pure (g a)) c
  := by
  apply hx.bind
  intro a _
  apply retraces_pure

theorem retraces_each
    {g : α → Compile β} (as : List α) (hg : ∀ a ∈ as, ∀ c, Retraces P (g a) c) (c : Context) :
  Retraces P (each g as) c
  := by
  induction as generalizing c with
  | nil => apply retraces_pure
  | cons a as ih =>
    apply (hg a List.mem_cons_self c).bind
    intro b _
    apply Retraces.bind_pure
    apply ih (fun a ha => hg a (List.mem_cons_of_mem _ ha))

theorem retraces_bothStages
    {g : Stage → Text → Compile Text} {texts : StageTexts}
    (hvertex : ∀ c, Retraces P (g .vertex texts.vertex) c)
    (hfragment : ∀ c, Retraces P (g .fragment texts.fragment) c) (c : Context) :
  Retraces P (bothStages g texts) c
  := by
  apply (hvertex c).bind
  intro vertex _
  apply Retraces.bind_pure
  apply hfragment

/-- A program replays over what is kept at the end of the first way, if only steps follow in
which a pair is finished. -/
theorem Retraces.replays_self
    {x : Compile α} {a : α} (h : Retraces P x c) (hok : (x c).result = .ok a)
    (ha : c.resources.layout.Aligned) (hf : Leads (Event.Finishing forms) (x c).context f)
    (hP : ∀ e, Event.Finishing forms e → P e) :
  Replays x c f f
  := by
  obtain ⟨ts, hts, hreplays⟩ := h.replays hok ha (hf.mono hP) (Resampled.start _ _)
  obtain rfl := hts.eq_of_end hf.sample_eq
  apply hreplays

/-- Steps in which a pair is finished may come in front of others. -/
theorem Retraces.bind_replays
    {x : Compile α} {g : α → Compile β} {a : α} (h : Retraces (Event.Finishing forms) x c)
    (hok : (x c).result = .ok a) (ha : c.resources.layout.Aligned)
    (hg : (x c).context.resources.layout.Aligned →
      Leads (Event.Finishing forms) (x c).context f ∧ Replays (g a) (x c).context f f) :
  Leads (Event.Finishing forms) c f ∧ Replays (x >>= g) c f f
  := by
  have hleads := h.leads hok
  obtain ⟨hf, hreplays⟩ := hg (hleads.aligned ha)
  use hleads.trans hf
  apply Replays.bind_of_ok hok _ hreplays
  apply h.replays_self hok ha hf fun _ he => he

/-- A program that takes some steps and changes nothing but the resources goes the same way again
if it comes out the same way over what is kept. -/
theorem retraces_of_does
    {x : Compile α} (hdoes : Does x c fun _ es => ∀ e ∈ es, P e)
    (hok : ∀ {a}, (x c).result = .ok a → ∃ ss r, x c = ⟨.ok a, [], ss, c.withResources r⟩ ∧
      ∀ {f}, c.resources.layout.Aligned → Leads P c f → Leads P (c.withResources r) f →
        ∀ {ts}, Resampled f.resources.textures c.resources.textures ts →
          ∃ ts', Resampled f.resources.textures r.textures ts' ∧
            x (c.keeping (f.withTextures ts)) = ⟨.ok a, [], [], c.keeping (f.withTextures ts')⟩) :
  Retraces P x c
  := by
  obtain ⟨es, heffect, hes⟩ := hdoes
  have hleads : ∀ {a}, (x c).result = .ok a → Leads P c (x c).context := by
    intro a h
    obtain ⟨ss, r, hx, -⟩ := hok h
    constructor
    · apply heffect.mode_eq
    · apply heffect.limits_eq
    · rw [hx]
      apply List.Subset.refl
    · exact ⟨es, _, hes a h, heffect.steps⟩
  use hleads
  intro a h ha f hf ts hts
  have hf₀ := (hleads h).trans hf
  obtain ⟨ss, r, hx, hagain⟩ := hok h
  rw [hx] at hf ⊢
  obtain ⟨ts', hts', hd⟩ := hagain ha hf₀ hf hts
  use ts', hts'
  rw [Replays, hx, hd]
  rfl

end Compile

end ShaderPair
