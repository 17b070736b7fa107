import ShaderPair.Proofs.LocationRanges
import ShaderPair.Proofs.ResourcePrograms

/-!
# What declarations enter into a context

Apart from the resources, what a declaration comes to depends on its type and on what is known of
the shader pair already: an `Entry` is a declaration together with what its type says about its
elements, `Context.enter` is its effect and `Entry.warnings` are the warnings about it.  A program
*enters* some entries if, where it succeeds, it has their effects and gives their warnings
(`Compile.Enters`).  The entries of a shader pair can be read off its lines
(`SourcePair.entries`), and `Compile.pair_of_ok` tells what a compiled pair comes to.
-/

namespace ShaderPair

/-! ### Entries -/

/-- A declaration in a stage, together with what its type says about its elements. -/
inductive Entry where
  /-- An attribute. -/
  | attribute (form : VariableForm) (extent : Extent)
  /-- A varying of the vertex stage. -/
  | varying (form : VaryingForm) (extent : Extent)
  /-- A varying of the fragment stage, which is looked up. -/
  | lookUp (form : VaryingForm)
  /-- A plain uniform. -/
  | uniform (form : VariableForm) (extent : Extent)
  /-- A texture, with its elements if it is an array. -/
  | texture (form : TextureForm) (extent : Option Extent)
  deriving DecidableEq

/-- The entry for a declaration in a stage. -/
def Declaration.entry (constants : OrderedMap Text Text) (stage : Stage) :
    Declaration → Except Fault Entry
  | .attribute form => (Extent.ofType constants form.type).map (.attribute form)
  | .varying form =>
    match stage with
    | .vertex => (Extent.ofType constants form.type).map (.varying form)
    | .fragment => .ok (.lookUp form)
  | .uniform form => (Extent.ofType constants form.type).map (.uniform form)
  | .texture form =>
    if form.isArray then
      (Extent.ofType constants form.type).map fun e => .texture form (some e)
    else .ok (.texture form none)

/-- The entry for a variable that takes locations. -/
def LocatedForm.entry : LocatedForm → Extent → Entry
  | .attribute _ form => .attribute form
  | .varying _ form => .varying form

/-- The entry for what a line declares, if it declares anything. -/
def Entry.ofLine? (constants : OrderedMap Text Text) (stage : Stage) (line : Text) :
    Option Entry :=
  (Declaration.ofLine? line).bind fun d => (d.entry constants stage).toOption

/-- The entries for the lines of a stage. -/
def Entry.ofStage (constants : OrderedMap Text Text) (stage : Stage) (code : Text) : List Entry :=
  (Text.lines code).flatMap fun line => (Entry.ofLine? constants stage line).toList

/-- The declaration that an entry is for. -/
def Entry.declaration : Entry → Declaration
  | .attribute form _ => .attribute form
  | .varying form _ => .varying form
  | .lookUp form => .varying form
  | .uniform form _ => .uniform form
  | .texture form _ => .texture form

theorem Declaration.declaration_of_entry
    {constants : OrderedMap Text Text} {stage : Stage} {d : Declaration} {entry : Entry}
    (h : d.entry constants stage = .ok entry) :
  entry.declaration = d
  := by
  have hmap : ∀ {type : Text} {g : Extent → Entry},
      (Extent.ofType constants type).map g = .ok entry → ∃ e, entry = g e := by
    intro type g hg
    cases he : Extent.ofType constants type with
    | error fault =>
      rw [he] at hg
      cases hg
    | ok e =>
      rw [he] at hg
      exact ⟨e, (Except.ok.inj hg).symm⟩
  cases d with
  | «attribute» form =>
    obtain ⟨e, rfl⟩ := hmap h
    rfl
  | varying form =>
    cases stage with
    | vertex =>
      obtain ⟨e, rfl⟩ := hmap h
      rfl
    | fragment =>
      obtain rfl := Except.ok.inj h
      rfl
  | uniform form =>
    obtain ⟨e, rfl⟩ := hmap h
    rfl
  | texture form =>
    rw [Declaration.entry] at h
    split at h
    · obtain ⟨e, rfl⟩ := hmap h
      rfl
    · obtain rfl := Except.ok.inj h
      rfl

/-- The entry for a line is for what the line declares. -/
theorem Entry.of_ofLine?_eq_some
    {constants : OrderedMap Text Text} {stage : Stage} {line : Text} {entry : Entry}
    (h : ofLine? constants stage line = some entry) :
  Declaration.ofLine? line = some entry.declaration ∧
    entry.declaration.entry constants stage = .ok entry
  := by
  obtain ⟨d, hline, hd⟩ := Option.bind_eq_some_iff.mp h
  cases hentry : d.entry constants stage with
  | error fault =>
    rw [hentry] at hd
    cases hd
  | ok entry' =>
    rw [hentry] at hd
    obtain rfl := Option.some_inj.mp hd
    rw [Declaration.declaration_of_entry hentry]
    exact ⟨hline, hentry⟩

/-- The entries for the lines of a shader pair, those of the vertex stage first. -/
def SourcePair.entries (source : SourcePair) (mode : Mode) : List Entry :=
  Entry.ofStage source.outerDefines .vertex (source.prepared mode).vertex
    ++ Entry.ofStage source.outerDefines .fragment (source.prepared mode).fragment

/-! ### Effects -/

/-- Uniforms with another one, unless there is one of its name already. -/
def Uniform.add (us : List Uniform) (u : Uniform) : List Uniform :=
  if us.any (·.name == u.name) then us else us ++ [u]

namespace Context

/-- The effect of an entry: attributes and varyings take the next locations of their kind. -/
def enter (c : Context) : Entry → Context
  | .attribute form e =>
    let i := c.interface
    let first := i.nextAttribute
    let a : Attribute := ⟨first, form.name, form.type, c.components.find? form.name⟩
    { c with interface :=
      { i with
        declarations := { i.declarations with attributes := i.declarations.attributes ++ [a] }
        attributes := i.attributes.insert form.name first
        attributeAt := i.attributeAt.insert first form.name
        nextAttribute := first + ShaderType.locationSize form.type * e.room } }
  | .varying form e =>
    let i := c.interface
    let first := i.nextVarying
    let v : Varying := ⟨first, form.interpolation, form.sampling, form.name, form.type⟩
    { c with interface :=
      { i with
        declarations := { i.declarations with varyings := i.declarations.varyings ++ [v] }
        varyings := i.varyings.insert form.name first
        nextVarying := first + ShaderType.locationSize form.type * e.room } }
  | .uniform form e =>
    { c with uniforms := Uniform.add c.uniforms ⟨form.name, e.element, e.length⟩ }
  | .lookUp _ => c
  | .texture _ _ => c

/-- The effect of entries one after the other. -/
def enterAll (c : Context) (es : List Entry) : Context := es.foldl enter c

end Context

/-- The warnings about an entry. -/
def Entry.warnings (c : Context) : Entry → List Warning
  | .attribute form e => e.warnings form.name
  | .varying form e => e.warnings form.name
  | .lookUp form =>
    if c.interface.varyings.contains form.name then [] else [.undeclaredVarying form.name]
  | .uniform form e => e.warnings form.name
  | .texture form e => e.elim [] (Extent.warnings form.name)

/-- The warnings about entries one after the other. -/
def Context.warningsOf (c : Context) : List Entry → List Warning
  | [] => []
  | e :: es => e.warnings c ++ (c.enter e).warningsOf es

namespace Context

variable (c : Context) (r : Resources) (e : Entry) (es es' : List Entry)

@[simp]
theorem enter_withResources :
  (c.withResources r).enter e = (c.enter e).withResources r
  := by
  cases e <;> rfl

theorem enterAll_withResources :
  (c.withResources r).enterAll es = (c.enterAll es).withResources r
  := by
  induction es generalizing c with
  | nil => rfl
  | cons e es ih =>
    rw [enterAll, List.foldl_cons, enter_withResources]
    apply ih

theorem enterAll_append :
  c.enterAll (es ++ es') = (c.enterAll es).enterAll es'
  := List.foldl_append

theorem warningsOf_withResources :
  (c.withResources r).warningsOf es = c.warningsOf es
  := by
  induction es generalizing c with
  | nil => rfl
  | cons e es ih =>
    have hwarnings : e.warnings (c.withResources r) = e.warnings c := by
      cases e <;> rfl
    rw [warningsOf, warningsOf, hwarnings, enter_withResources, ih]

theorem warningsOf_append :
  c.warningsOf (es ++ es') = c.warningsOf es ++ (c.enterAll es).warningsOf es'
  := by
  induction es generalizing c with
  | nil => rfl
  | cons e es ih =>
    rw [List.cons_append, warningsOf, warningsOf, ih, List.append_assoc]
    rfl

end Context

/-! ### Programs -/

namespace Compile

variable {α β : Type} {es es' : List Entry}

/-- A program that, where it succeeds, has the effects and gives the warnings of some entries, apart
from resources. -/
def Enters (x : Compile α) (es : List Entry) : Prop :=
  ∀ c a, (x c).result = .ok a →
    (∃ r, (x c).context = (c.enterAll es).withResources r) ∧ (x c).warnings = c.warningsOf es

theorem Sparing.enters {x : Compile α} (hx : Sparing x) :
  Enters x []
  := by
  intro c a _
  obtain ⟨hwarnings, r, hcontext⟩ := hx c
  exact ⟨⟨r, hcontext⟩, hwarnings⟩

theorem enters_pure (a : α) :
  Enters (pure a : Compile α) []
  := (sparing_pure a).enters

theorem Enters.bind
    {x : Compile α} {f : α → Compile β} (hx : Enters x es) (hf : ∀ a, Enters (f a) es') :
  Enters (x >>= f) (es ++ es')
  := by
  intro c b h
  obtain ⟨a, ha, hb⟩ := ok_of_bind h
  obtain ⟨⟨r, hcontext⟩, hwarnings⟩ := hx c a ha
  obtain ⟨⟨r', hcontext'⟩, hwarnings'⟩ := hf a _ b hb
  rw [bind_of_ok ha]
  constructor
  · use r'
    rw [hcontext', hcontext, Context.enterAll_withResources, Context.enterAll_append]
    rfl
  · rw [hwarnings, hwarnings', hcontext, Context.warningsOf_withResources,
      Context.warningsOf_append]

/-- Giving back another value enters nothing more. -/
theorem Enters.bind_pure {x : Compile α} (hx : Enters x es) (g : α → β) :
  Enters (x >>= fun a => pure (g a)) es
  := by
  have h := hx.bind fun a => enters_pure (g a)
  rwa [List.append_nil] at h

/-- A program behind which only resources are touched enters the same. -/
theorem Enters.bind_sparing
    {x : Compile α} {f : α → Compile β} (hx : Enters x es) (hf : ∀ a, Sparing (f a)) :
  Enters (x >>= f) es
  := by
  have h := hx.bind fun a => (hf a).enters
  rwa [List.append_nil] at h

theorem enters_each {f : α → Compile β} {g : α → List Entry} (hf : ∀ a, Enters (f a) (g a))
    (as : List α) :
  Enters (each f as) (as.flatMap g)
  := by
  induction as with
  | nil => apply enters_pure
  | cons a as ih =>
    rw [List.flatMap_cons]
    apply (hf a).bind
    intro b
    apply ih.bind_pure

theorem enters_bothStages
    {f : Stage → Text → Compile Text} {g : Stage → Text → List Entry}
    (hf : ∀ stage code, Enters (f stage code) (g stage code)) (texts : StageTexts) :
  Enters (bothStages f texts) (g .vertex texts.vertex ++ g .fragment texts.fragment)
  := by
  apply (hf _ _).bind
  intro vertex
  apply (hf _ _).bind_pure

/-! ### Declarations -/

variable
  {constants : OrderedMap Text Text} {name type : Text} {c : Context} {e : Extent}
  {stage : Stage}

/-- A program that starts with the type of a variable enters what it enters for an extent, if there
is one. -/
theorem enters_resolved
    {f : Extent → Compile α} {g : Extent → Entry}
    (hf : ∀ e, Extent.ofType constants type = .ok e →
      Enters (resolveExtent constants name type >>= f) [g e]) :
  Enters (resolveExtent constants name type >>= f)
    ((Extent.ofType constants type).map g).toOption.toList
  := by
  cases he : Extent.ofType constants type with
  | ok e => apply hf e he
  | error fault =>
    intro c a h
    obtain ⟨e, hresolved, -⟩ := ok_of_bind h
    rw [(resolveExtent_of_ok hresolved).1] at he
    cases he

/-- A variable that takes locations is entered where its declaration succeeds. -/
theorem enters_declareLocated (f : LocatedForm) :
  Enters f.declare (f.extent.map f.entry).toOption.toList
  := by
  intro c a h
  obtain ⟨e, he, -, hdeclare⟩ := LocatedForm.entered_of_ok h
  rw [he, hdeclare]
  constructor
  · use (c.enter (f.entry e)).resources
    cases f <;> rfl
  · cases f <;> exact (List.append_nil _).symm

theorem enters_declareAttribute (form : VariableForm) :
  Enters (declareAttribute constants form)
    ((Declaration.attribute form).entry constants stage).toOption.toList
  := enters_declareLocated (.attribute constants form)

theorem enters_declareVarying (form : VaryingForm) :
  Enters (declareVarying constants form)
    ((Declaration.varying form).entry constants .vertex).toOption.toList
  := enters_declareLocated (.varying constants form)

theorem enters_checkVarying (form : VaryingForm) :
  Enters (checkVarying form) [.lookUp form]
  := by
  intro c a _
  rw [Context.warningsOf, Context.warningsOf, List.append_nil, Entry.warnings, checkVarying,
    context_bind]
  split
  · exact ⟨⟨c.resources, rfl⟩, rfl⟩
  · exact ⟨⟨c.resources, rfl⟩, rfl⟩

theorem enters_declareUniform (form : VariableForm) :
  Enters (declareUniform constants form)
    ((Declaration.uniform form).entry constants stage).toOption.toList
  := by
  apply enters_resolved
  intro e he c a _
  have hresolved := resolveExtent_apply form.name c he
  rw [bind_of_ok (a := e) (by rw [hresolved]), hresolved]
  constructor
  · use c.resources
    change (if _ then _ else _) = _
    rw [Context.enterAll, List.foldl_cons, List.foldl_nil, Context.enter, Uniform.add]
    split <;> rfl
  · rfl

/-- All that is entered for a texture, besides resources, is a warning about its length. -/
theorem enters_textureLength (form : TextureForm) :
  Enters (textureLength constants form)
    ((Declaration.texture form).entry constants stage).toOption.toList
  := by
  rw [textureLength, Declaration.entry]
  split
  · apply enters_resolved
    intro e he c a _
    have hresolved := resolveExtent_apply form.name c he
    rw [bind_of_ok (a := e) (by rw [hresolved]), hresolved]
    exact ⟨⟨c.resources, rfl⟩, rfl⟩
  · intro c a _
    exact ⟨⟨c.resources, rfl⟩, rfl⟩

theorem enters_declareTexture (line : Text) (form : TextureForm) :
  Enters (declareTexture constants stage line form)
    ((Declaration.texture form).entry constants stage).toOption.toList
  := by
  rw [declareTexture]
  split
  · intro c a h
    cases h
  · apply (enters_textureLength form).bind_sparing
    intro length
    apply sparing_enterTexture

theorem enters_declare (line : Text) (d : Declaration) :
  Enters (declare constants stage line d) (d.entry constants stage).toOption.toList
  := by
  cases d with
  | «attribute» form => apply (enters_declareAttribute form).bind_pure
  | varying form =>
    cases stage with
    | vertex => apply (enters_declareVarying form).bind_pure
    | fragment => apply (enters_checkVarying form).bind_pure
  | uniform form => apply (enters_declareUniform form).bind_pure
  | texture form => apply (enters_declareTexture line form).bind_pure

theorem enters_processLine (line : Text) :
  Enters (processLine constants stage line) (Entry.ofLine? constants stage line).toList
  := by
  rw [processLine, Entry.ofLine?]
  cases Declaration.ofLine? line with
  | none => apply (enters_pure none).bind_pure
  | some d =>
    apply Enters.bind_pure
    apply (enters_declare line d).bind_pure

theorem enters_processStage (constants : OrderedMap Text Text) (stage : Stage) (code : Text) :
  Enters (processStage constants stage code) (Entry.ofStage constants stage code)
  := (enters_each enters_processLine _).bind_pure _

end Compile

/-! ### Shader pairs -/

/-- The names of the strided arrays among uniforms, where `first` arrays are strided before. -/
def LeftOver.stridedNames (first : Nat) (us : List Uniform) : List Text :=
  ((enumerate first us).filter (·.2.isSome)).map (·.1.name)

/-- Two annotated stages, finished with the same declaration of the leftover buffer in front. -/
def StageTexts.finished (annotated : StageTexts) (mode : Mode) (d : Declarations)
    (leftOver : Text) : StageTexts where
  vertex := Finish.vertex mode d (leftOver ++ annotated.vertex)
  fragment := Finish.fragment mode d (leftOver ++ annotated.fragment)

/-- The declaration of the leftover buffer at a slot, if there are uniforms. -/
def LeftOver.declaration (slot : Slot) (first : Nat) (us : List Uniform) : Text :=
  if us.isEmpty then [] else code slot (enumerate first us)

namespace Context

/-- A context in which the lines of a shader pair are about to be gone through. -/
def start (c : Context) (source : SourcePair) : Context :=
  Context.begin { c with components := source.components.getD c.components }

/-- A context in which the lines of a shader pair have been gone through, apart from resources. -/
def entered (c : Context) (source : SourcePair) : Context :=
  (c.start source).enterAll (source.entries c.mode)

/-- A context in which the leftover buffer has been built, apart from resources. -/
def built (c : Context) : Context :=
  let d := c.interface.declarations
  { c with interface.declarations :=
    { d with strided := d.strided ++ LeftOver.stridedNames d.strided.length c.uniforms } }

/-- What entries leave as it is. -/
theorem enterAll_frame (c : Context) (es : List Entry) :
  (c.enterAll es).mode = c.mode ∧ (c.enterAll es).components = c.components ∧
    (c.enterAll es).interface.declarations.strided = c.interface.declarations.strided
  := by
  induction es generalizing c with
  | nil => exact ⟨rfl, rfl, rfl⟩
  | cons e es ih =>
    obtain ⟨hmode, hcomponents, hstrided⟩ := ih (c.enter e)
    rw [enterAll, List.foldl_cons]
    refine ⟨hmode.trans ?_, hcomponents.trans ?_, hstrided.trans ?_⟩ <;> cases e <;> rfl

end Context

namespace Compile

variable {source : SourcePair} {c : Context}

theorem declareStages_of_ok {texts : StageTexts} (h : (declareStages source c).result = .ok texts) :
  (∃ r, (declareStages source c).context = (c.entered source).withResources r) ∧
    (declareStages source c).warnings = (c.start source).warningsOf (source.entries c.mode)
  := by
  have henters : Enters (bothStages (processStage source.outerDefines) (source.prepared c.mode))
      (source.entries c.mode) := enters_bothStages (enters_processStage _) _
  apply (henters.bind_pure _) (c.start source) texts h

theorem buildLeftOver_of_ok {text : Text} (h : (buildLeftOver c).result = .ok text) :
  (∃ slot, text
      = LeftOver.declaration slot c.interface.declarations.strided.length c.uniforms) ∧
    (∃ r, (buildLeftOver c).context = c.built.withResources r) ∧ (buildLeftOver c).warnings = []
  := by
  rw [buildLeftOver, context_bind] at h ⊢
  by_cases hempty : c.uniforms.isEmpty
  · rw [if_pos hempty] at h ⊢
    refine ⟨⟨⟨0, 0⟩, ?_⟩, ⟨c.resources, ?_⟩, rfl⟩
    · rw [LeftOver.declaration, if_pos hempty]
      exact (Except.ok.inj h).symm
    · have hstrided : c.interface.declarations.strided
          ++ LeftOver.stridedNames c.interface.declarations.strided.length c.uniforms
          = c.interface.declarations.strided := by
        rw [List.isEmpty_iff.mp hempty]
        apply List.append_nil
      rw [Context.built, hstrided]
      rfl
  · rw [if_neg hempty] at h ⊢
    obtain ⟨slot, hslot, hrest⟩ := ok_of_bind h
    obtain ⟨hwarnings, r, hcontext⟩ := sparing_leftOverSlot c
    rw [bind_of_ok hslot, hwarnings, hcontext]
    refine ⟨⟨slot, ?_⟩, ⟨r, rfl⟩, rfl⟩
    rw [LeftOver.declaration, if_neg hempty]
    rw [update_bind] at hrest
    exact (Except.ok.inj hrest).symm

/-- The stages of a pair with samplers and buffers annotated, behind the declaration of the leftover
buffer. -/
def annotate (texts : StageTexts) : Compile (Text × StageTexts) := do
  let sampled ← bothStages annotateSamplers texts
  let annotated ← bothStages annotateBuffers sampled
  let leftOver ← buildLeftOver
  return (leftOver, annotated)

/-- Finishes the annotated stages of a pair behind the declaration of the leftover buffer. -/
def close (leftOver : Text) (annotated : StageTexts) : Compile StageTexts := do
  let c ← context
  update fun c => c.collectNames.collectPlaceholders.clear
  return annotated.finished c.mode c.interface.declarations leftOver

theorem finish_eq (texts : StageTexts) :
  finish texts = annotate texts >>= fun annotated => close annotated.1 annotated.2
  := by
  rw [annotate, finish]
  simp only [bind_assoc, pure_bind]
  rfl

theorem annotate_of_ok
    {texts : StageTexts} {annotated : Text × StageTexts}
    (h : (annotate texts c).result = .ok annotated) :
  (∃ slot, annotated.1
      = LeftOver.declaration slot c.interface.declarations.strided.length c.uniforms) ∧
    (∃ r, (annotate texts c).context = c.built.withResources r) ∧ (annotate texts c).warnings = []
  := by
  obtain ⟨sampled, hsampled, hrest⟩ := ok_of_bind h
  obtain ⟨buffered, hbuffered, hrest⟩ := ok_of_bind hrest
  obtain ⟨leftOver, hleftOver, hrest⟩ := ok_of_bind hrest
  obtain rfl := Except.ok.inj hrest
  rw [annotate, bind_of_ok hsampled, bind_of_ok hbuffered, bind_of_ok hleftOver]
  obtain ⟨hwarnings, r, hcontext⟩ := sparing_bothStages sparing_annotateSamplers texts c
  obtain ⟨hwarnings', r', hcontext'⟩ := sparing_bothStages sparing_annotateBuffers sampled
    (bothStages annotateSamplers texts c).context
  obtain ⟨⟨slot, hslot⟩, ⟨r'', hbuilt⟩, hwarnings''⟩ := buildLeftOver_of_ok hleftOver
  rw [hwarnings, hwarnings', hwarnings'', hbuilt, hcontext', hcontext]
  rw [hcontext', hcontext] at hslot
  exact ⟨⟨slot, hslot⟩, ⟨r'', rfl⟩, rfl⟩

/-- What a compiled pair comes to: its stages are finished with what its lines have entered, and the
warnings are about that. -/
theorem pair_of_ok {out : StageTexts} (h : (pair source c).result = .ok out) :
  let e := c.entered source
  (∃ slot declared annotated,
    let leftOver := LeftOver.declaration slot 0 e.uniforms
    (declareStages source c).result = .ok declared ∧
    (annotate declared (declareStages source c).context).result = .ok (leftOver, annotated) ∧
    out = annotated.finished c.mode e.built.interface.declarations leftOver) ∧
    (pair source c).warnings = (c.start source).warningsOf (source.entries c.mode) ∧
    ∃ r, (pair source c).context
      = (e.built.withResources r).collectNames.collectPlaceholders.clear
  := by
  intro e
  obtain ⟨declared, hdeclared, h⟩ := ok_of_bind h
  rw [pair, bind_of_ok hdeclared]
  rw [finish_eq] at h ⊢
  obtain ⟨⟨leftOver, annotated⟩, hannotated, hclosed⟩ := ok_of_bind h
  obtain rfl := Except.ok.inj hclosed
  rw [bind_of_ok hannotated]
  obtain ⟨⟨r, hcontext⟩, hwarnings⟩ := declareStages_of_ok hdeclared
  obtain ⟨⟨slot, hslot⟩, ⟨r', hcontext'⟩, hwarnings'⟩ := annotate_of_ok hannotated
  obtain ⟨hmode, -, hstrided⟩ := (c.start source).enterAll_frame (source.entries c.mode)
  have hmode : e.mode = c.mode := hmode
  have hstrided : e.interface.declarations.strided = [] := hstrided
  have hleftOver : leftOver = LeftOver.declaration slot 0 e.uniforms := by
    rw [hcontext] at hslot
    change leftOver
      = LeftOver.declaration slot e.interface.declarations.strided.length e.uniforms at hslot
    rw [hslot, hstrided]
    rfl
  subst hleftOver
  rw [hwarnings, hwarnings', hcontext']
  refine ⟨⟨slot, declared, annotated, hdeclared, hannotated, ?_⟩, ?_, r', ?_⟩
  · rw [hcontext, ← hmode]
    rfl
  · apply List.append_nil
  · rw [hcontext]
    rfl

end Compile

end ShaderPair
