import ShaderPair.Proofs.BufferSharing
import ShaderPair.Proofs.Description
import ShaderPair.Proofs.ProgramReplay

/-!
# Compiling a pair again

When a shader pair is compiled once more in the context that it has left, nothing happens: the
same texts come out, no slot is handed out, and the context stays as it is (`pair_again`).  The
component counts must be given with the pair, since they are dropped with its declarations, and
the names of its buffers must be unambiguous, so that each buffer is found under the key that it
got the first time.
-/

namespace ShaderPair

open Resources (Event Step Steps)

namespace Compile

variable {P : Event → Prop} {c f : Context} {forms : List BufferForm}

/-! ### Declarations -/

/-- The declarations of a pair go the same way again. -/
theorem retraces_declareStages (source : SourcePair) (c : Context) :
  Retraces (fun _ => True) (declareStages source) c
  := by
  have hcounts : Blind (update fun c =>
      { c with components := source.components.getD c.components }) := fun _ _ => rfl
  have hbegin : Blind (update Context.begin) := fun _ _ => rfl
  apply (hcounts.retraces (quiet_update fun _ => ⟨rfl, rfl, rfl⟩)).bind
  rintro _ -
  apply (hbegin.retraces (quiet_update fun _ => ⟨rfl, rfl, rfl⟩)).bind
  rintro _ -
  apply Retraces.of_context (fun _ => rfl)
  apply Retraces.bind_pure
  apply retraces_bothStages
  · apply retraces_processStage
  · apply retraces_processStage

/-! ### The leftover buffer -/

/-- The plain uniforms stay when the leftover buffer is built. -/
theorem leads_buildLeftOver {text : Text} (h : (buildLeftOver c).result = .ok text) :
  Leads (Event.Finishing forms) c (buildLeftOver c).context ∧
    (buildLeftOver c).context.uniforms = c.uniforms
  := by
  rw [buildLeftOver, context_bind] at h ⊢
  by_cases hempty : c.uniforms.isEmpty
  · rw [if_pos hempty]
    use Leads.refl c
    rfl
  · rw [if_neg hempty] at h ⊢
    obtain ⟨slot, hslot, -⟩ := ok_of_bind h
    obtain ⟨ss, r, heq, -⟩ := leftOverSlot_of_ok hslot
    rw [bind_of_ok hslot, update_bind]
    constructor
    · apply ((retraces_leftOverSlot c).leads hslot).congr <;> rfl
    · rw [heq]
      rfl

/-- The leftover buffer is built in the same way again if there are the same plain uniforms. -/
theorem replays_buildLeftOver
    {text : Text} (h : (buildLeftOver c).result = .ok text) (ha : c.resources.layout.Aligned)
    (hf : Leads (Event.Finishing forms) (buildLeftOver c).context f)
    (huniforms : f.uniforms = c.uniforms) :
  Replays buildLeftOver c f f
  := by
  rw [buildLeftOver, context_bind] at h hf
  apply Replays.of_context
  · simp only [Context.keeping, huniforms]
  by_cases hempty : c.uniforms.isEmpty
  · rw [if_pos hempty]
    apply blind_pure
  · rw [if_neg hempty] at h hf ⊢
    obtain ⟨slot, hslot, -⟩ := ok_of_bind h
    rw [bind_of_ok hslot, update_bind] at hf
    have hretraces : Retraces (Event.Finishing forms) leftOverSlot c := retraces_leftOverSlot c
    apply Replays.bind_of_ok hslot
    · apply hretraces.replays_self hslot ha _ fun _ he => he
      apply hf.congr_left <;> rfl
    · rfl

/-! ### Pairs -/

/-- To take stock of the bindings and to drop the declarations changes neither the resources nor
the plain uniforms. -/
theorem leads_catalogue (c : Context) :
  Leads P c c.collectNames.collectPlaceholders.clear
  := by
  apply (Leads.refl c).congr <;> rfl

/-- The same stock is taken of the same bindings. -/
theorem replays_catalogue (c : Context) :
  let f := c.collectNames.collectPlaceholders.clear
  Replays (update fun c => c.collectNames.collectPlaceholders.clear) c f f
  := rfl

/-- Behind the buffers of a pair the leftover buffer and the catalogue come out as before. -/
theorem replays_buildLeftOver_finish
    {text : Text} (h : (buildLeftOver c).result = .ok text) (ha : c.resources.layout.Aligned)
    (hf : (buildLeftOver c).context.collectNames.collectPlaceholders.clear = f)
    (annotated : StageTexts) :
  Leads (Event.Finishing forms) c f ∧
    Replays (do
      let leftOver ← buildLeftOver
      let c ← context
      let d := c.interface.declarations
      update fun c => c.collectNames.collectPlaceholders.clear
      return ({
        vertex := Finish.vertex c.mode d (leftOver ++ annotated.vertex)
        fragment := Finish.fragment c.mode d (leftOver ++ annotated.fragment) } : StageTexts)) c f f
  := by
  have hbuild : Leads (Event.Finishing forms) c (buildLeftOver c).context ∧
      (buildLeftOver c).context.uniforms = c.uniforms := leads_buildLeftOver h
  obtain ⟨hleads, huniforms⟩ := hbuild
  have hend : Leads (Event.Finishing forms) (buildLeftOver c).context f := by
    rw [← hf]
    apply leads_catalogue
  have hcatalogue := replays_catalogue (buildLeftOver c).context
  have huniforms' : f.uniforms = c.uniforms := by
    rw [← huniforms, ← hf, Context.clear, Context.collectPlaceholders, Context.collectNames]
  rw [hf] at hcatalogue
  use hleads.trans hend
  apply Replays.bind_of_ok h (replays_buildLeftOver h ha hend huniforms')
  apply Replays.of_context rfl
  apply hcatalogue.bind_of_ok rfl
  apply blind_pure

/-- A pair is finished in the same way again if the names of its buffers are unambiguous. -/
theorem replays_finish
    {texts sampled out : StageTexts} (h : (finish texts c).result = .ok out)
    (hsampled : (bothStages annotateSamplers texts c).result = .ok sampled)
    (hforms : BufferForm.Unambiguous (bufferForms sampled.vertex ++ bufferForms sampled.fragment))
    (ha : c.resources.layout.Aligned) :
  Leads (Event.Finishing (bufferForms sampled.vertex ++ bufferForms sampled.fragment)) c
      (finish texts c).context ∧
    Replays (finish texts) c (finish texts c).context (finish texts c).context
  := by
  have hfinish := h
  rw [finish, result_bind_of_ok hsampled] at hfinish
  obtain ⟨annotated, hannotated, hfinish⟩ := ok_of_bind hfinish
  obtain ⟨leftOver, hleftOver, -⟩ := ok_of_bind hfinish
  obtain ⟨-, hend⟩ := finish_of_ok hsampled rfl hannotated rfl hleftOver rfl
  generalize (finish texts c).context = f at hend ⊢
  rw [finish]
  apply Retraces.bind_replays _ hsampled ha
  · intro ha₁
    apply Retraces.bind_replays _ hannotated ha₁
    · intro ha₂
      apply replays_buildLeftOver_finish hleftOver ha₂ hend.symm
    · apply retraces_bothStages
      · apply retraces_annotateBuffers hforms _ (List.subset_append_left _ _)
      · apply retraces_annotateBuffers hforms _ (List.subset_append_right _ _)
  · apply retraces_bothStages <;> apply retraces_annotateSamplers

/-- A pair finds everything registered when it is compiled again. -/
theorem replays_pair
    {source : SourcePair} {sampled out : StageTexts} (h : (pair source c).result = .ok out)
    (hsampled : ((declareStages source >>= bothStages annotateSamplers) c).result = .ok sampled)
    (hforms : BufferForm.Unambiguous (bufferForms sampled.vertex ++ bufferForms sampled.fragment))
    (ha : c.resources.layout.Aligned) :
  Replays (pair source) c (pair source c).context (pair source c).context
  := by
  obtain ⟨declared, hdeclared, hout⟩ := ok_of_bind h
  rw [result_bind_of_ok hdeclared] at hsampled
  have hretraces := retraces_declareStages source c
  have ha₁ := (hretraces.leads hdeclared).aligned ha
  obtain ⟨hleads, hfinish⟩ := replays_finish hout hsampled hforms ha₁
  have hcontext : (pair source c).context
      = (finish declared (declareStages source c).context).context := by
    rw [pair, bind_of_ok hdeclared]
  rw [hcontext]
  apply Replays.bind_of_ok hdeclared _ hfinish
  apply hretraces.replays_self hdeclared ha hleads
  intros
  trivial

/-- Of a context that has been left, a pair with its own component counts sees only what is
kept. -/
theorem pair_keeping
    {source : SourcePair} {counts : OrderedMap Text Int} (hcounts : source.components = some counts)
    (hmode : f.mode = c.mode) (hlimits : f.limits = c.limits) :
  pair source f = pair source (c.keeping f)
  := by
  have hdeclare : declareStages source f = declareStages source (c.keeping f) := by
    rw [declareStages, update_bind, update_bind, update_bind, update_bind, hcounts]
    cases f
    cases c
    cases hmode
    cases hlimits
    rfl
  simp only [pair, bind, hdeclare]

end Compile

/-- In every context that can be reached, a shader pair that is compiled again comes out as it did
the first time: with the same texts and the same warnings, without slots handed out, and without
any change of the context.  The pair has its own component counts, and its declarations of
buffers use each name for one address space and one struct, and none for the struct of a buffer
of the engine or for the leftover buffer. -/
theorem pair_again
    (mode : Mode) (limits : Limits) (components : OrderedMap Text Int) (ops : List Operation)
    {source : SourcePair} {counts : OrderedMap Text Int} (hcounts : source.components = some counts)
    {texts sampled : StageTexts} :
  let c := (Context.fresh mode limits components).after ops
  (Compile.pair source c).result = .ok texts →
  ((Compile.declareStages source >>= Compile.bothStages Compile.annotateSamplers) c).result
    = .ok sampled →
  BufferForm.Unambiguous (bufferForms sampled.vertex ++ bufferForms sampled.fragment) →
  Compile.pair source (Compile.pair source c).context
    = ⟨.ok texts, (Compile.pair source c).warnings, [], (Compile.pair source c).context⟩
  := by
  intro c h hsampled hforms
  have hd : c.resources.layout.Describes c.resources.holdings := Session.describes ops
  have hpair := Compile.replays_pair h hsampled hforms hd.aligned
  obtain ⟨es, heffect, -⟩ := Compile.does_pair source c
  rw [Compile.pair_keeping hcounts heffect.mode_eq heffect.limits_eq, hpair, h]
  rfl

/-- A shader pair with a plain uniform, a texture, a sampler and two buffers, one of them known to
the engine. -/
def viewer : SourcePair where
  vertex := "uniform offset : f32;\nvar<uniform> view : Scene;"
  fragment := "var a : texture_2d<f32>;\nvar aSampler : sampler;\n" ++ "var<storage> b : B;"
  components := some ∅

/-- The stages of the pair with the texture and the sampler annotated, where one slot is taken
already. -/
def viewer.sampled : StageTexts where
  vertex := "\nvar<uniform> view : Scene;"
  fragment := "@group(0) @binding(1) " ++ "var a : texture_2d<f32>;\n"
    ++ "@group(0) @binding(2) " ++ "var aSampler : sampler;\n" ++ "var<storage> b : B;"

/-- The pair comes out the same way again. -/
theorem pair_again_viewer :
  let c := (Context.fresh .pure {} ∅).after [.takeSlot]
  let o := Compile.pair viewer c
  o.result.isOk ∧ Compile.pair viewer o.context = ⟨o.result, o.warnings, [], o.context⟩
  := by
  intro c o
  have hok : o.result.isOk := by decide +kernel
  have hsampled : ((Compile.declareStages viewer
      >>= Compile.bothStages Compile.annotateSamplers) c).result = .ok viewer.sampled := by
    decide +kernel
  have hforms : BufferForm.Unambiguous
      (bufferForms viewer.sampled.vertex ++ bufferForms viewer.sampled.fragment) := by
    constructor <;> decide +kernel
  obtain ⟨texts, hresult⟩ := Compile.exists_of_isOk hok
  use hok
  rw [hresult]
  apply pair_again .pure {} ∅ [.takeSlot] rfl hresult hsampled hforms

end ShaderPair
