import ShaderPair.Proofs.AllOrNothing
import ShaderPair.Proofs.ContextParts
import ShaderPair.Proofs.LayoutResources
import ShaderPair.Proofs.TextureSamples

/-!
# The declarations of a texture

A texture may be declared again and again, in both stages and in every shader pair.  Its slots,
whether it is an array and whether it is written to are settled by its first declaration, and so
is the resource that the layout describes at its slots; but what is sampled from it is what its
last declaration says (`Texture.Recalls`).  So the registered texture and the layout agree exactly
if the first and the last declaration say the same (`texture_declarations`).

What a session has declared can be told from its operations, up to the fault of each of them
(`Session.declared`).
-/

namespace ShaderPair

open Resources (Placed Steps)

/-! ### What a declaration says -/

namespace TextureForm

/-- What is sampled from a texture by its declaration, if its function is known. -/
def sample? (f : TextureForm) : Option SampleKind :=
  (TextureFunction.ofName? f.function).map (·.sample f.component)

/-- The resource that a declaration describes, if its function is known. -/
def resource? (f : TextureForm) : Option Resource :=
  (TextureFunction.ofName? f.function).map (·.resource f.component)

/-- Whether a declared texture is written to, if its function is known. -/
def isStorage? (f : TextureForm) : Option Bool :=
  (TextureFunction.ofName? f.function).map TextureFunction.isStorage

/-- A sampled texture is described with what its declaration says is sampled. -/
theorem sample?_of_resource?
    {f : TextureForm} {sample : SampleKind} {dimension : ViewDimension} {multisampled : Bool}
    (h : f.resource? = some (.texture sample dimension multisampled)) :
  f.sample? = some sample
  := by
  obtain ⟨function, hfunction, hresource⟩ := Option.map_eq_some_iff.mp h
  rw [sample?, hfunction, Option.map_some]
  cases function with
  | sampled d m => exact congrArg some (Resource.texture.inj hresource).1
  | depth d m => exact congrArg some (Resource.texture.inj hresource).1
  | storage d => cases hresource
  | external => cases hresource

end TextureForm

/-- A texture as its declarations leave it: the first one says whether it is written to and what
is described at its slots, the last one says what is sampled. -/
structure Texture.Recalls (t : Texture) (layout : Layout) (first last : TextureForm) : Prop where
  isStorage_eq : first.isStorage? = some t.isStorage
  resource_eq : ∀ slot ∈ t.slots, layout.resource? slot = first.resource?
  sample_eq : last.sample? = some t.sample

/-- The layout and the registered texture agree on what is sampled if the first and the last
declaration do. -/
theorem Texture.Recalls.sample_eq_iff
    {t : Texture} {layout : Layout} {first last : TextureForm} (h : t.Recalls layout first last)
    {slot : Slot} (hslot : slot ∈ t.slots) {sample : SampleKind} {dimension : ViewDimension}
    {multisampled : Bool}
    (hresource : layout.resource? slot = some (.texture sample dimension multisampled)) :
  sample = t.sample ↔ first.sample? = last.sample?
  := by
  rw [h.resource_eq slot hslot] at hresource
  rw [h.sample_eq, TextureForm.sample?_of_resource? hresource, Option.some_inj]

namespace Resources

variable {mode : Mode} {limits : Limits} {es : List Event} {r r' : Resources} {ss : List Slot}
  {name : Text} {forms : List TextureForm}

/-- The texture of some name is as its declarations leave it; there is none as long as nothing
declares it. -/
inductive Recalls (r : Resources) (name : Text) : List TextureForm → Prop
  | unknown : r.textures.find? name = none → Recalls r name []
  | declared {t : Texture} {first last : TextureForm} {forms : List TextureForm} :
    r.textures.find? name = some t → forms.head? = some first → forms.getLast? = some last →
      t.Recalls r.layout first last → Recalls r name forms

/-- A texture that is registered has a first and a last declaration. -/
theorem Recalls.of_find?
    {t : Texture} (h : r.Recalls name forms) (ht : r.textures.find? name = some t) :
  ∃ first last, forms.head? = some first ∧ forms.getLast? = some last ∧
    t.Recalls r.layout first last
  := by
  cases h with
  | unknown hnone => cases ht.symm.trans hnone
  | @declared t' first last _ ht' hfirst hlast hrecalls =>
    obtain rfl := Option.some_inj.mp (ht.symm.trans ht')
    exact ⟨first, last, hfirst, hlast, hrecalls⟩

theorem Recalls.find?_eq_none_iff (h : r.Recalls name forms) :
  r.textures.find? name = none ↔ forms = []
  := by
  cases h with
  | unknown hnone => exact iff_of_true hnone rfl
  | declared ht hfirst _ _ =>
    apply iff_of_false
    · rw [ht]
      rintro ⟨⟩
    · rintro rfl
      cases hfirst

/-- What the first declaration of a texture has settled stays. -/
theorem Steps.settled
    (h : Steps mode limits es r ss r') (ha : r.layout.Aligned) {t t' : Texture}
    (ht : r.textures.find? name = some t) (ht' : r'.textures.find? name = some t')
    {first last : TextureForm} (hrecalls : t.Recalls r.layout first last) :
  first.isStorage? = some t'.isStorage ∧
    ∀ slot ∈ t'.slots, r'.layout.resource? slot = first.resource?
  := by
  have hslots : r.slots? .textures name = some t.slots := by
    rw [slots?, ht, Option.map_some]
  have hslots' := h.preserves (lasting_slots? .textures name t.slots) hslots
  rw [slots?, ht', Option.map_some, Option.some_inj] at hslots'
  constructor
  · obtain ⟨t'', ht'', hstorage⟩ :=
      h.preserves (lasting_isStorage name t.isStorage) ⟨t, ht, rfl⟩
    obtain rfl := Option.some_inj.mp (ht'.symm.trans ht'')
    rw [hrecalls.isStorage_eq, hstorage]
  · intro slot hslot
    rw [hslots'] at hslot
    have hresource := hrecalls.resource_eq slot hslot
    obtain ⟨function, hfunction, -⟩ := Option.map_eq_some_iff.mp hrecalls.isStorage_eq
    rw [TextureForm.resource?, hfunction, Option.map_some] at hresource ⊢
    exact (h.preserves (lasting_resource? slot _) ⟨ha, hresource⟩).2

/-- What does not change what is sampled leaves a texture as it was declared. -/
theorem Recalls.kept
    (h : r.Recalls name forms) (ha : r.layout.Aligned) (hsteps : Steps mode limits es r ss r')
    (hsample : r'.sample? name = r.sample? name) :
  r'.Recalls name forms
  := by
  rw [sample?, sample?] at hsample
  cases h with
  | unknown hnew =>
    rw [hnew] at hsample
    exact Recalls.unknown (Option.map_eq_none_iff.mp hsample)
  | @declared t first last _ ht hfirst hlast hrecalls =>
    rw [ht] at hsample
    obtain ⟨t', ht', hkept⟩ := Option.map_eq_some_iff.mp hsample
    obtain ⟨hstorage, hresource⟩ := hsteps.settled ha ht ht' hrecalls
    refine Recalls.declared ht' hfirst hlast ⟨hstorage, hresource, ?_⟩
    rw [hkept]
    exact hrecalls.sample_eq

/-- A further declaration says what is sampled, and the first one settles all else. -/
theorem Recalls.declare
    (h : r.Recalls name forms) (ha : r.layout.Aligned) (hsteps : Steps mode limits es r ss r')
    {form : TextureForm} {t' : Texture} (ht' : r'.textures.find? name = some t')
    (hsample : form.sample? = some t'.sample)
    (hnew : r.textures.find? name = none → form.isStorage? = some t'.isStorage ∧
      ∀ slot ∈ t'.slots, r'.layout.resource? slot = form.resource?) :
  r'.Recalls name (forms ++ [form])
  := by
  have hlast : (forms ++ [form]).getLast? = some form := List.getLast?_concat
  cases h with
  | unknown hnone =>
    obtain ⟨hstorage, hresource⟩ := hnew hnone
    exact Recalls.declared ht' rfl hlast ⟨hstorage, hresource, hsample⟩
  | @declared t first _ _ ht hfirst _ hrecalls =>
    obtain ⟨hstorage, hresource⟩ := hsteps.settled ha ht ht' hrecalls
    have hhead : (forms ++ [form]).head? = some first := by
      rw [List.head?_append, hfirst]
      rfl
    exact Recalls.declared ht' hhead hlast ⟨hstorage, hresource, hsample⟩

end Resources

/-! ### Contexts that remember declarations -/

/-- In a context every texture is as some declarations leave it. -/
structure Context.Remembers (c : Context) (forms : List TextureForm) : Prop where
  placed : Placed c.mode c.resources
  described : c.resources.layout.Describes c.resources.holdings
  recalls (name : Text) : c.resources.Recalls name (forms.filter (·.name = name))

theorem Context.remembers_fresh (mode : Mode) (limits : Limits) (components : OrderedMap Text Int) :
  (fresh mode limits components).Remembers []
  := ⟨Resources.placed_fresh mode, Layout.describes_empty, fun _ => Resources.Recalls.unknown rfl⟩

namespace Compile

open Resources (Event)

variable {α β : Type} {x : Compile α} {c : Context} {forms forms' : List TextureForm}

/-- A program that enters some declarations of textures, whether or not it succeeds. -/
def Declares (x : Compile α) (c : Context) (forms' : List TextureForm) : Prop :=
  ∀ forms, c.Remembers forms → (x c).context.Remembers (forms ++ forms')

/-- What a program does keeps the layout and the resources in step. -/
theorem Does.described
    {P : α → List Event → Prop} (h : Does x c P) (hplaced : Placed c.mode c.resources)
    (hd : c.resources.layout.Describes c.resources.holdings) :
  Placed (x c).context.mode (x c).context.resources ∧
    (x c).context.resources.layout.Describes (x c).context.resources.holdings
  := by
  obtain ⟨es, heffect, -⟩ := h
  rw [heffect.mode_eq]
  apply heffect.steps.preserves (P := fun r => Placed c.mode r ∧ r.layout.Describes r.holdings)
    _ ⟨hplaced, hd⟩
  rintro e r ss r' hstep ⟨hplaced, hd⟩
  exact ⟨hstep.placed hplaced, hstep.described hplaced hd⟩

/-- A program that changes nothing of what is sampled enters no declarations. -/
theorem declares_nil
    {P : α → List Event → Prop} (h : Does x c P)
    (hsample : ∀ name, (x c).context.resources.sample? name = c.resources.sample? name) :
  Declares x c []
  := by
  intro forms hc
  rw [List.append_nil]
  obtain ⟨hplaced, hd⟩ := h.described hc.placed hc.described
  refine ⟨hplaced, hd, ?_⟩
  intro name
  obtain ⟨es, heffect, -⟩ := h
  exact (hc.recalls name).kept hc.described.aligned heffect.steps (hsample name)

theorem Declares.bind_of_error
    {f : α → Compile β} {e : Fault} (hx : Declares x c forms) (he : (x c).result = .error e) :
  Declares (x >>= f) c forms
  := by
  intro before hc
  rw [Compile.bind_of_error he]
  exact hx before hc

theorem Declares.bind_of_ok
    {f : α → Compile β} {a : α} (hx : Declares x c forms) (ha : (x c).result = .ok a)
    (hf : Declares (f a) (x c).context forms') :
  Declares (x >>= f) c (forms ++ forms')
  := by
  intro before hc
  rw [Compile.bind_of_ok ha, ← List.append_assoc]
  exact hf _ (hx before hc)

/-- A program behind which no declarations are entered enters the same ones. -/
theorem Declares.bind
    {f : α → Compile β} (hx : Declares x c forms) (hf : ∀ a c, Declares (f a) c []) :
  Declares (x >>= f) c forms
  := by
  cases hresult : (x c).result with
  | error e => exact hx.bind_of_error hresult
  | ok a =>
    rw [← List.append_nil forms]
    exact hx.bind_of_ok hresult (hf a _)

theorem declares_pure (a : α) (c : Context) :
  Declares (pure a : Compile α) c []
  := declares_nil ((quiet_pure a).does c) fun _ => rfl

/-! ### Declarations of textures -/

variable {constants : OrderedMap Text Text} {stage : Stage} {line : Text}

/-- A texture that is entered is registered with what its declaration says is sampled, and its
elements are described. -/
theorem enterTexture_of_ok
    {form : TextureForm} {function : TextureFunction} {length : Nat} {slot : Slot}
    (h : (enterTexture stage form function length c).result = .ok slot) :
  let r := c.resources
  let r' := (enterTexture stage form function length c).context.resources
  ∃ t, r'.textures = r.textures.insert form.name t ∧ t.sample = function.sample form.component ∧
    r'.layout = r.layout.describeElements form.name t.isArray (function.resource form.component)
      stage 0 t.slots ∧
    (r.textures.find? form.name = none → t.isStorage = function.isStorage)
  := by
  cases hfind : c.resources.textures.find? form.name with
  | some t =>
    rw [enterTexture_of_registered (registeredTexture_of_find?_eq_some hfind function length)]
    refine ⟨_, rfl, rfl, rfl, ?_⟩
    intro hnone
    cases hfind.symm.trans hnone
  | none =>
    obtain ⟨ss, free, -, ⟨slot, others, -, -, hregistered⟩ | ⟨-, hregistered⟩⟩ :=
      registeredTexture_of_find?_eq_none hfind function length
    · rw [enterTexture_of_registered hregistered]
      exact ⟨_, rfl, rfl, rfl, fun _ => rfl⟩
    · rw [enterTexture, bind_of_error (by rw [hregistered])] at h
      cases h

/-- A texture that is entered is declared once more. -/
theorem declares_enterTexture
    {form : TextureForm} {function : TextureFunction} {length : Nat} {slot : Slot}
    (hfunction : TextureFunction.ofName? form.function = some function)
    (h : (enterTexture stage form function length c).result = .ok slot) :
  Declares (enterTexture stage form function length) c [form]
  := by
  intro forms hc
  have hdoes := does_enterTexture stage form function length c
  obtain ⟨hplaced, hd⟩ := hdoes.described hc.placed hc.described
  refine ⟨hplaced, hd, ?_⟩
  obtain ⟨es, heffect, -⟩ := hdoes
  obtain ⟨t, htextures, hsample, hlayout, hstorage⟩ := enterTexture_of_ok h
  intro name
  rw [List.filter_append]
  by_cases hname : form.name = name
  · subst hname
    have ht := OrderedMap.find?_insert_self c.resources.textures form.name t
    rw [← htextures] at ht
    rw [List.filter_cons_of_pos (by simp), List.filter_nil]
    apply (hc.recalls form.name).declare hc.described.aligned heffect.steps ht
    · rw [TextureForm.sample?, hfunction, hsample]
      rfl
    · intro hnew
      constructor
      · rw [TextureForm.isStorage?, hfunction, hstorage hnew]
        rfl
      · intro slot hslot
        have hunknown := Resources.resource?_eq_none_of_new hc.placed hc.described heffect.steps
          hnew ht hslot
        rw [hlayout, hc.described.aligned.resource?_describeElements, if_pos hslot, hunknown,
          TextureForm.resource?, hfunction]
        rfl
  · rw [List.filter_cons_of_neg (by simpa), List.filter_nil, List.append_nil]
    apply (hc.recalls name).kept hc.described.aligned heffect.steps
    rw [Resources.sample?, htextures, OrderedMap.find?_insert_of_ne _ (Ne.symm hname)]
    rfl

theorem declares_declareTexture
    {form : TextureForm} {slot : Slot}
    (h : (declareTexture constants stage line form c).result = .ok slot) :
  Declares (declareTexture constants stage line form) c [form]
  := by
  obtain ⟨function, length, hfunction, -, henter, hcontext⟩ := declareTexture_of_ok h
  intro forms hc
  rw [hcontext]
  exact declares_enterTexture hfunction henter forms hc

/-! ### Lines -/

/-- A declaration of a texture is entered if it does not fail, and other declarations have nothing
to do with textures. -/
theorem declares_declare (line : Text) (d : Declaration) (c : Context) :
  Declares (declare constants stage line d) c
    (if (declare constants stage line d c).result.isOk then d.textureForms else [])
  := by
  have hdoes := does_declare constants stage line d c
  cases hresult : (declare constants stage line d c).result with
  | error e =>
    apply declares_nil hdoes
    intro name
    rw [Resources.sample?, (leaves_of_declare hresult).sameRegistries.textures_eq]
    rfl
  | ok text =>
    simp only [Except.isOk, Except.toBool, if_true]
    have hother : d.kind ≠ .texture → Declares (declare constants stage line d) c [] := by
      intro hkind
      apply declares_nil hdoes
      intro name
      rw [Resources.sample?, (local_declare line d).resources_eq hkind]
      rfl
    cases d with
    | texture form =>
      obtain ⟨slot, hslot, -⟩ := ok_of_bind hresult
      exact (declares_declareTexture hslot).bind fun _ _ => declares_pure _ _
    | _ =>
      apply hother
      rintro ⟨⟩

theorem declares_processLine
    (constants : OrderedMap Text Text) (stage : Stage) (line : Text) (c : Context) :
  Declares (processLine constants stage line) c
    (if (processLine constants stage line c).result.isOk then textureFormsOfLine line else [])
  := by
  cases hline : Declaration.ofLine? line with
  | none =>
    rw [processLine_of_none hline, textureFormsOfLine, hline]
    exact declares_pure line c
  | some d =>
    rw [processLine_of_some hline, textureFormsOfLine, hline]
    exact declares_declare line d c

/-- The declarations of textures in some lines that are entered when the lines are gone through: all
of them, or those in front of the first fault. -/
def declaredIn (constants : OrderedMap Text Text) (stage : Stage) :
    List Text → Context → List TextureForm
  | [], _ => []
  | line :: lines, c =>
    let o := processLine constants stage line c
    match o.result with
    | .ok _ => textureFormsOfLine line ++ declaredIn constants stage lines o.context
    | .error _ => []

theorem declares_each_processLine
    (constants : OrderedMap Text Text) (stage : Stage) (lines : List Text) (c : Context) :
  Declares (each (processLine constants stage) lines) c (declaredIn constants stage lines c)
  := by
  induction lines generalizing c with
  | nil => exact declares_pure [] c
  | cons line lines ih =>
    have hline := declares_processLine constants stage line c
    rw [each, declaredIn]
    cases hresult : (processLine constants stage line c).result with
    | error e =>
      rw [hresult] at hline
      exact hline.bind_of_error hresult
    | ok text =>
      rw [hresult] at hline
      exact hline.bind_of_ok hresult ((ih _).bind fun _ _ => declares_pure _ _)

theorem declares_processStage
    (constants : OrderedMap Text Text) (stage : Stage) (code : Text) (c : Context) :
  Declares (processStage constants stage code) c
    (declaredIn constants stage (Text.lines code) c)
  := (declares_each_processLine _ _ _ c).bind fun _ _ => declares_pure _ _

end Compile

/-! ### Shader pairs -/

/-- The declarations of textures in a shader pair that are entered when its lines are gone through,
up to the first fault. -/
def SourcePair.declared (source : SourcePair) (c : Context) : List TextureForm :=
  let texts := source.prepared c.mode
  let o := Compile.processStage source.outerDefines .vertex texts.vertex (c.start source)
  Compile.declaredIn source.outerDefines .vertex (Text.lines texts.vertex) (c.start source) ++
    if o.result.isOk then
      Compile.declaredIn source.outerDefines .fragment (Text.lines texts.fragment) o.context
    else []

namespace Compile

theorem declares_declareStages (source : SourcePair) (c : Context) :
  Declares (declareStages source) c (source.declared c)
  := by
  have hvertex := declares_processStage source.outerDefines .vertex
    (source.prepared c.mode).vertex (c.start source)
  suffices hboth : Declares (bothStages (processStage source.outerDefines)
      (source.prepared c.mode)) (c.start source) (source.declared c) by
    intro forms hc
    exact (hboth.bind fun _ _ => declares_pure _ _) forms ⟨hc.placed, hc.described, hc.recalls⟩
  rw [SourcePair.declared]
  cases hresult : (processStage source.outerDefines .vertex (source.prepared c.mode).vertex
      (c.start source)).result with
  | error e =>
    simp only [Except.isOk, Except.toBool, Bool.false_eq_true, if_false, List.append_nil]
    exact hvertex.bind_of_error hresult
  | ok text =>
    exact hvertex.bind_of_ok hresult
      ((declares_processStage _ _ _ _).bind fun _ _ => declares_pure _ _)

theorem declares_pair (source : SourcePair) (c : Context) :
  Declares (pair source) c (source.declared c)
  := by
  apply (declares_declareStages source c).bind
  intro texts c'
  exact declares_nil (does_finish texts c') (keepsSamples_finish texts c')

end Compile

/-! ### Sessions -/

/-- The declarations of textures that an operation enters. -/
def Operation.declared (c : Context) : Operation → List TextureForm
  | .declare constants stage line d =>
    if (Compile.declare constants stage line d c).result.isOk then d.textureForms else []
  | .processLine constants stage line =>
    if (Compile.processLine constants stage line c).result.isOk then textureFormsOfLine line
    else []
  | .processStage constants stage code =>
    Compile.declaredIn constants stage (Text.lines code) c
  | .pair source => source.declared c
  | _ => []

/-- The declarations of textures that a session enters. -/
def Session.declared (c : Context) : List Operation → List TextureForm
  | [] => []
  | op :: ops => op.declared c ++ Session.declared (op.run c).context ops

namespace Compile

variable {α : Type} {x : Compile α} {c : Context} {forms : List TextureForm}

/-- Whether the value of a program matters makes no difference. -/
theorem Declares.ignore (hx : Declares x c forms) :
  Declares (ignore x) c forms
  := by
  intro before hc
  rw [context_ignore]
  exact hx before hc

theorem declares_run (op : Operation) (c : Context) :
  Declares op.run c (op.declared c)
  := by
  have hignored {α : Type} {x : Compile α} (hx : KeepsSamples x) : KeepsSamples (ignore x) := by
    apply KeepsSamples.bind hx
    intro a
    apply keepsSamples_pure
  have hnone (hop : KeepsSamples op.run) : Declares op.run c [] :=
    declares_nil (does_run op c) (hop c)
  cases op with
  | declare constants stage line d => exact (declares_declare line d c).ignore
  | processLine constants stage line => exact (declares_processLine _ _ line c).ignore
  | processStage constants stage code => exact (declares_processStage _ _ code c).ignore
  | pair source => exact (declares_pair source c).ignore
  | takeSlot => exact hnone (hignored keepsSamples_takeSlot)
  | takeLocation kind type length => exact hnone (hignored (quiet_takeLocations _ _ _).keepsSamples)
  | declareUniform constants form => exact hnone (quiet_declareUniform _ _).keepsSamples
  | annotateSamplers stage code => exact hnone (hignored (keepsSamples_annotateSamplers _ _))
  | annotateBuffers stage code => exact hnone (hignored (keepsSamples_annotateBuffers _ _))
  | buildLeftOver => exact hnone (hignored keepsSamples_buildLeftOver)
  | noteSettings mode bindingsPerGroup => exact hnone (quiet_noteSettings _ _).keepsSamples
  | finish texts => exact hnone (hignored (keepsSamples_finish texts))
  | _ => exact hnone (keepsSamples_update fun _ => rfl)

end Compile

/-- After a session the textures are as its declarations leave them. -/
theorem Session.remembers
    {c : Context} {forms : List TextureForm} (hc : c.Remembers forms) (ops : List Operation) :
  (c.after ops).Remembers (forms ++ declared c ops)
  := by
  induction ops generalizing c forms with
  | nil =>
    rw [declared, List.append_nil]
    exact hc
  | cons op ops ih =>
    rw [declared, ← List.append_assoc]
    exact ih (Compile.declares_run op c forms hc)

/-! ### Textures that are declared again -/

namespace Compile

variable
  {c : Context} {forms : List TextureForm} {constants : OrderedMap Text Text} {stage : Stage}
  {line : Text} {form : TextureForm} {t : Texture}

/-- A texture that is registered already takes no slots, and so it does not run out of them. -/
theorem context_of_declareTexture_error
    {e : Fault} (ht : c.resources.textures.find? form.name = some t)
    (h : (declareTexture constants stage line form c).result = .error e) :
  (declareTexture constants stage line form c).context = c
  := by
  rw [declareTexture] at h ⊢
  cases hfunction : TextureFunction.ofName? form.function with
  | none => rfl
  | some function =>
    rw [hfunction] at h
    dsimp only at h ⊢
    obtain ⟨hlength, hcontext⟩ | ⟨length, hlength, henter, -⟩ := error_of_bind h
    · rw [hcontext]
      exact (textureLength_of_error hlength).2
    · rw [textureLength_of_ok hlength, enterTexture_of_registered
        (registeredTexture_of_find?_eq_some ht function length)] at henter
      cases henter

/-- A texture that is registered already keeps everything but what is sampled from it, and the
layout has the same resource at every slot. -/
theorem resources_of_declareTexture
    {slot : Slot} (hc : c.Remembers forms) (ht : c.resources.textures.find? form.name = some t)
    (h : (declareTexture constants stage line form c).result = .ok slot) :
  let r' := (declareTexture constants stage line form c).context.resources
  (∃ sample, form.sample? = some sample ∧
    r'.textures = c.resources.textures.insert form.name { t with sample := sample }) ∧
  ∀ slot', r'.layout.resource? slot' = c.resources.layout.resource? slot'
  := by
  intro r'
  obtain ⟨function, length, hfunction, -, -, hcontext⟩ := declareTexture_of_ok h
  have henter := enterTexture_of_registered
    (registeredTexture_of_find?_eq_some ht function length) stage
  rw [show r' = _ from congrArg Context.resources hcontext, henter]
  constructor
  · refine ⟨function.sample form.component, ?_, rfl⟩
    rw [TextureForm.sample?, hfunction]
    rfl
  · intro slot'
    change (Layout.describeElements form.name t.isArray (function.resource form.component) stage 0
      t.slots c.resources.layout).resource? slot' = _
    rw [hc.described.aligned.resource?_describeElements]
    split
    next hslot =>
      -- the slots of a registered texture are described
      obtain ⟨first, last, -, -, hrecalls⟩ := (hc.recalls form.name).of_find? ht
      obtain ⟨function, hfunction, -⟩ := Option.map_eq_some_iff.mp hrecalls.isStorage_eq
      rw [hrecalls.resource_eq slot' hslot, TextureForm.resource?, hfunction]
      rfl
    · rfl

end Compile

/-- In every session, a texture that is declared again keeps its slots, whether it is an array,
whether it is written to and whether a sampler is bound to it, and the layout keeps the resource at
each slot; but what is sampled from the texture becomes what the declaration says.  A declaration
that fails changes nothing.  So a texture that is registered is as its first and its last
declaration in the session leave it, and what the layout says is sampled at one of its slots is what
is registered for it exactly if these two declarations say the same. -/
theorem texture_declarations
    (mode : Mode) (limits : Limits) (components : OrderedMap Text Int) (ops : List Operation) :
  let first := Context.fresh mode limits components
  let c := first.after ops
  let r := c.resources
  (∀ constants stage line form t, r.textures.find? form.name = some t →
    let o := Compile.declareTexture constants stage line form c
    (∀ e, o.result = .error e → o.context = c) ∧
    ∀ slot, o.result = .ok slot →
      (∃ sample, form.sample? = some sample ∧
        o.context.resources.textures = r.textures.insert form.name { t with sample := sample }) ∧
      ∀ slot', o.context.resources.layout.resource? slot' = r.layout.resource? slot') ∧
  ∀ name,
    let forms := (Session.declared first ops).filter (·.name = name)
    (r.textures.find? name = none ↔ forms = []) ∧
    ∀ t, r.textures.find? name = some t →
      ∃ firstForm lastForm, forms.head? = some firstForm ∧ forms.getLast? = some lastForm ∧
        t.Recalls r.layout firstForm lastForm ∧
        ∀ slot ∈ t.slots, ∀ sample dimension multisampled,
          r.layout.resource? slot = some (.texture sample dimension multisampled) →
            (sample = t.sample ↔ firstForm.sample? = lastForm.sample?)
  := by
  intro first c r
  have hc : c.Remembers (Session.declared first ops) :=
    Session.remembers (Context.remembers_fresh mode limits components) ops
  constructor
  · intro constants stage line form t ht o
    constructor
    · intro e h
      exact Compile.context_of_declareTexture_error ht h
    · intro slot h
      exact Compile.resources_of_declareTexture hc ht h
  · intro name forms
    have hrecalls : r.Recalls name forms := hc.recalls name
    use hrecalls.find?_eq_none_iff
    intro t ht
    obtain ⟨firstForm, lastForm, hfirst, hlast, hforms⟩ := hrecalls.of_find? ht
    refine ⟨firstForm, lastForm, hfirst, hlast, hforms, ?_⟩
    intro slot hslot sample dimension multisampled
    exact hforms.sample_eq_iff hslot

/-- Where a texture is declared once more as it was declared first, the layout and the registered
texture agree again. -/
theorem texture_declarations_thrice :
  let first := Context.fresh .engine {} ∅
  let ops : List Operation := [.processLine ∅ .vertex "var t : texture_2d<f32>;",
    .processLine ∅ .fragment "var t : texture_2d<i32>;",
    .processStage ∅ .fragment "x\nvar t : texture_2d<f32>;"]
  let r := (first.after ops).resources
  ∃ t, r.textures.find? "t" = some t ∧ t.slots = [⟨1, 0⟩] ∧
    ∃ sample, r.layout.resource? ⟨1, 0⟩ = some (.texture sample .d2 false) ∧ sample = t.sample
  := by
  intro first ops r
  let form : TextureForm := ⟨"t", "texture_2d<f32>", false, "texture_2d", some "f32"⟩
  let form' : TextureForm := ⟨"t", "texture_2d<i32>", false, "texture_2d", some "i32"⟩
  have hforms : (Session.declared first ops).filter (·.name = form.name)
      = [form, form', form] := by
    decide +kernel
  have ht : r.textures.find? "t" = some ⟨⟨1, 0⟩, [], false, false, .float, false⟩ := by
    decide +kernel
  have hresource : r.layout.resource? ⟨1, 0⟩ = some (.texture .float .d2 false) := by
    decide +kernel
  obtain ⟨-, hdeclared⟩ := texture_declarations .engine {} ∅ ops
  obtain ⟨-, hregistered⟩ := hdeclared form.name
  obtain ⟨firstForm, lastForm, hfirst, hlast, -, hagree⟩ := hregistered _ ht
  rw [hforms] at hfirst hlast
  obtain rfl := Option.some_inj.mp hfirst
  obtain rfl := Option.some_inj.mp hlast
  refine ⟨_, ht, rfl, .float, hresource, ?_⟩
  exact (hagree ⟨1, 0⟩ (List.mem_singleton_self _) _ _ _ hresource).mpr rfl

/-- A texture of floats that is declared again as one of signed integers is registered as one of
signed integers, and it is described as one of floats. -/
theorem not_sample_kept_redeclared :
  let c := (Context.fresh .engine {} ∅).after [.processLine ∅ .vertex "var t : texture_2d<f32>;"]
  let line : Text := "var t : texture_2d<i32>;"
  ∃ form t t', Declaration.ofLine? line = some (.texture form) ∧
    c.resources.textures.find? form.name = some t ∧ t.sample = .float ∧
    let o := Compile.declareTexture ∅ .vertex line form c
    o.result = .ok t.slot ∧ o.context.resources.textures.find? form.name = some t' ∧
      t'.sample = .signed ∧
      o.context.resources.layout.resource? t'.slot = some (.texture .float .d2 false)
  := by
  intro c line
  refine ⟨⟨"t", "texture_2d<i32>", false, "texture_2d", some "i32"⟩,
    ⟨⟨1, 0⟩, [], false, false, .float, false⟩, ⟨⟨1, 0⟩, [], false, false, .signed, false⟩, ?_⟩
  exact ⟨by decide +kernel, by decide +kernel, rfl, by decide +kernel, by decide +kernel, rfl,
    by decide +kernel⟩

end ShaderPair
