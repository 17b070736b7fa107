import ShaderPair.Proofs.Entries

/-!
# Relations between contexts

Whether or not it succeeds, a program leads from each context to one that is related to it
(`Compile.Along`), provided that the relation allows for what single steps do (`Context.Frame`) and
for the plain uniforms that the program enters (`Context.Allows`).
-/

namespace ShaderPair

namespace Context

/-- A relation between contexts that does not heed resources, and does not heed the interface
except for the attributes and their components. -/
structure Frame (R : Context → Context → Prop) : Prop where
  refl : ∀ c, R c c
  trans : ∀ {c c' c''}, R c c' → R c' c'' → R c c''
  ofResources : ∀ c r, R c (c.withResources r)
  ofInterface : ∀ (c : Context) (i : Interface),
    i.declarations.attributes = c.interface.declarations.attributes →
    R c { c with interface := i }
  ofAttribute : ∀ (c : Context) (i : Interface) (a : Attribute),
    a.components = c.components.find? a.name →
    i.declarations.attributes = c.interface.declarations.attributes ++ [a] →
    R c { c with interface := i }

/-- The relation allows for a plain uniform of a name that is new. -/
def Allows (R : Context → Context → Prop) (form : VariableForm) : Prop :=
  ∀ (c : Context) (type : Text) (length : Nat), form.name ∉ c.uniforms.map Uniform.name →
    R c { c with uniforms := c.uniforms ++ [⟨form.name, type, length⟩] }

end Context

/-- A program that leads from each context to one that is related to it. -/
def Compile.Along {α : Type} (R : Context → Context → Prop) (x : Compile α) : Prop :=
  ∀ c, R c (x c).context

namespace Context.Frame

open Compile

variable {α β : Type} {R : Context → Context → Prop} (frame : Frame R)

include frame

/-! ### Rules -/

theorem along_of_sparing {x : Compile α} (hx : Sparing x) :
  Along R x
  := by
  intro c
  obtain ⟨-, r, hcontext⟩ := hx c
  rw [hcontext]
  apply frame.ofResources

theorem along_pure (a : α) :
  Along R (pure a : Compile α)
  := fun c => frame.refl c

theorem along_bind
    {x : Compile α} {f : α → Compile β} (hx : Along R x) (hf : ∀ a, Along R (f a)) :
  Along R (x >>= f)
  := by
  intro c
  cases hresult : (x c).result with
  | error e =>
    rw [bind_of_error hresult]
    apply hx
  | ok a =>
    rw [bind_of_ok hresult]
    apply frame.trans (hx c) (hf a _)

theorem along_bind_pure {x : Compile α} (hx : Along R x) (g : α → β) :
  Along R (x >>= fun a => pure (g a))
  := frame.along_bind hx fun _ => frame.along_pure _

theorem along_each {f : α → Compile β} (hf : ∀ a, Along R (f a)) (as : List α) :
  Along R (each f as)
  := by
  induction as with
  | nil => apply frame.along_pure
  | cons a as ih =>
    apply frame.along_bind (hf a)
    intro b
    apply frame.along_bind_pure ih

theorem along_bothStages
    {f : Stage → Text → Compile Text} (hf : ∀ stage code, Along R (f stage code))
    (texts : StageTexts) :
  Along R (bothStages f texts)
  := by
  apply frame.along_bind (hf _ _)
  intro vertex
  apply frame.along_bind_pure (hf _ _)

/-! ### Declarations -/

variable (constants : OrderedMap Text Text)

theorem along_resolveExtent (name type : Text) :
  Along R (resolveExtent constants name type)
  := by
  rw [resolveExtent]
  split
  · exact fun c => frame.refl c
  · split <;> exact fun c => frame.refl c

theorem along_takeLocations (kind : LocationKind) (type : Text) (size : Int) :
  Along R (takeLocations kind type size)
  := by
  intro c
  rw [takeLocations_apply]
  apply frame.ofInterface
  cases kind <;> rfl

theorem along_locate (kind : LocationKind) (name type : Text) :
  Along R (locate kind constants name type)
  := by
  apply frame.along_bind (frame.along_resolveExtent constants _ _)
  intro e
  apply frame.along_bind (frame.along_takeLocations _ _ _)
  intro location
  apply frame.along_bind_pure
  intro c
  apply frame.ofInterface
  cases kind <;> rfl

theorem along_declareAttribute (form : VariableForm) :
  Along R (declareAttribute constants form)
  := by
  apply frame.along_bind (frame.along_locate constants _ _ _)
  intro location c
  rw [context_bind, listDeclaration_apply]
  split
  · exact frame.ofAttribute c _ ⟨location, form.name, form.type, c.components.find? form.name⟩ rfl
      rfl
  · apply frame.refl

theorem along_declareVarying (form : VaryingForm) :
  Along R (declareVarying constants form)
  := by
  apply frame.along_bind (frame.along_locate constants _ _ _)
  intro location c
  rw [listDeclaration_apply]
  split
  · exact frame.ofInterface c _ rfl
  · apply frame.refl

theorem along_checkVarying (form : VaryingForm) :
  Along R (checkVarying form)
  := by
  intro c
  rw [checkVarying, context_bind]
  split <;> exact frame.refl c

theorem along_declareUniform {form : VariableForm} (hform : Allows R form) :
  Along R (declareUniform constants form)
  := by
  apply frame.along_bind (frame.along_resolveExtent constants _ _)
  intro e c
  rw [update]
  dsimp only
  split
  · apply frame.refl
  next hnew =>
    apply hform
    rintro hmem
    obtain ⟨u, hu, hname⟩ := List.mem_map.mp hmem
    exact hnew (List.any_eq_true.mpr ⟨u, hu, beq_iff_eq.mpr hname⟩)

theorem along_declareTexture (stage : Stage) (line : Text) (form : TextureForm) :
  Along R (declareTexture constants stage line form)
  := by
  rw [declareTexture]
  split
  · exact fun c => frame.refl c
  · apply frame.along_bind
    · rw [textureLength]
      split
      · apply frame.along_bind_pure (frame.along_resolveExtent constants _ _)
      · apply frame.along_pure
    intro length
    apply frame.along_of_sparing (sparing_enterTexture _ _ _ _)

theorem along_declare
    {d : Declaration} (hd : ∀ form, d = .uniform form → Allows R form) (stage : Stage)
    (line : Text) :
  Along R (declare constants stage line d)
  := by
  match d, hd with
  | .attribute form, _ => apply frame.along_bind_pure (frame.along_declareAttribute constants form)
  | .varying form, _ =>
    cases stage with
    | vertex => apply frame.along_bind_pure (frame.along_declareVarying constants form)
    | fragment => apply frame.along_bind_pure (frame.along_checkVarying form)
  | .uniform form, hd =>
    apply frame.along_bind_pure (frame.along_declareUniform constants (hd form rfl))
  | .texture form, _ =>
    apply frame.along_bind_pure (frame.along_declareTexture constants stage line form)

variable (hlines : ∀ line form, Declaration.ofLine? line = some (.uniform form) → Allows R form)

include hlines

theorem along_processLine (stage : Stage) (line : Text) :
  Along R (processLine constants stage line)
  := by
  apply frame.along_bind_pure
  cases hline : Declaration.ofLine? line with
  | none => apply frame.along_pure
  | some d =>
    apply frame.along_bind_pure
    apply frame.along_declare
    rintro form rfl
    exact hlines line form hline

theorem along_processStage (stage : Stage) (code : Text) :
  Along R (processStage constants stage code)
  := by
  apply frame.along_bind_pure
  apply frame.along_each (frame.along_processLine constants hlines stage)

/-- The lines of a pair are gone through in the context made ready for it. -/
theorem declareStages (source : SourcePair) (c : Context) :
  R (c.start source) (Compile.declareStages source c).context
  := by
  have hstages := frame.along_bothStages
    (frame.along_processStage source.outerDefines hlines) (source.prepared c.mode)
  exact frame.along_bind_pure hstages _ (c.start source)

omit hlines

/-! ### Finished stages -/

theorem along_buildLeftOver :
  Along R buildLeftOver
  := by
  intro c
  rw [buildLeftOver, context_bind]
  split
  · exact frame.refl c
  · apply frame.along_bind (frame.along_of_sparing sparing_leftOverSlot)
    intro slot
    apply frame.along_bind_pure
    intro c
    exact frame.ofInterface c _ rfl

theorem along_annotate (texts : StageTexts) :
  Along R (annotate texts)
  := by
  apply frame.along_bind (frame.along_of_sparing (sparing_bothStages sparing_annotateSamplers _))
  intro sampled
  apply frame.along_bind (frame.along_of_sparing (sparing_bothStages sparing_annotateBuffers _))
  intro annotated
  apply frame.along_bind_pure frame.along_buildLeftOver

end Context.Frame

end ShaderPair
