import ShaderPair.Proofs.ProgramSteps

/-!
# The parts of a context

Declarations of different kinds work on different parts of a context.  Attributes and varyings
have each their locations and their list of declarations, plain uniforms are a list by
themselves, and textures work on the resources; the limits and the component counts are read by
all of them and changed by none.  `Context.withPart` puts the part for one kind of declarations
of one context into another one, and a program is *local* to a kind if all that it reads and
writes is that part (`Compile.Local`).  Local programs of different kinds can change places
(`Compile.Local.commute`).
-/

namespace ShaderPair

/-! ### Kinds -/

/-- The kinds of declarations. -/
inductive DeclarationKind where
  | attribute
  | varying
  | uniform
  | texture
  deriving DecidableEq

namespace Declaration

/-- The kind of a declaration. -/
def kind : Declaration → DeclarationKind
  | .attribute _ => .attribute
  | .varying _ => .varying
  | .uniform _ => .uniform
  | .texture _ => .texture

/-- The kind of what a line declares, if it declares anything. -/
def kindOfLine? (line : Text) : Option DeclarationKind := (ofLine? line).map kind

end Declaration

/-- The kind of the declarations that take locations of some kind. -/
def LocationKind.declarationKind : LocationKind → DeclarationKind
  | .attribute => .attribute
  | .varying => .varying

/-! ### Parts -/

namespace Context

/-- A context with the part for declarations of some kind from another context. -/
def withPart (c : Context) (kind : DeclarationKind) (c' : Context) : Context :=
  match kind with
  | .attribute =>
    let d := { c.interface.declarations with attributes := c'.interface.declarations.attributes }
    { c with interface :=
      { c.interface with
        declarations := d
        attributes := c'.interface.attributes
        attributeAt := c'.interface.attributeAt
        nextAttribute := c'.interface.nextAttribute } }
  | .varying =>
    let d := { c.interface.declarations with varyings := c'.interface.declarations.varyings }
    { c with interface :=
      { c.interface with
        declarations := d
        varyings := c'.interface.varyings
        nextVarying := c'.interface.nextVarying } }
  | .uniform => { c with uniforms := c'.uniforms }
  | .texture => { c with resources := c'.resources }

/-- Contexts with what all declarations read and none changes. -/
structure SameSettings (c c' : Context) : Prop where
  limits_eq : c'.limits = c.limits
  components_eq : c'.components = c.components

theorem SameSettings.refl (c : Context) :
  SameSettings c c
  := ⟨rfl, rfl⟩

variable (c d e : Context) {kind kind' : DeclarationKind}

theorem limits_withPart :
  (c.withPart kind d).limits = c.limits
  := by
  cases kind <;> rfl

theorem components_withPart :
  (c.withPart kind d).components = c.components
  := by
  cases kind <;> rfl

@[simp]
theorem withPart_self :
  c.withPart kind c = c
  := by
  cases kind <;> rfl

@[simp]
theorem withPart_of_withPart :
  c.withPart kind (d.withPart kind e) = c.withPart kind e
  := by
  cases kind <;> rfl

/-- The parts for different kinds are put into a context in any order. -/
theorem withPart_comm (hne : kind ≠ kind') :
  (c.withPart kind d).withPart kind' e = (c.withPart kind' e).withPart kind d
  := by
  cases kind <;> cases kind' <;> first | rfl | exact absurd rfl hne

/-- A context has the settings of the one that a part is put into. -/
theorem SameSettings.withPart {c c' : Context} (h : SameSettings c c') (kind) (d : Context) :
  SameSettings (c.withPart kind d) c'
  := by
  constructor
  · rw [h.limits_eq, limits_withPart]
  · rw [h.components_eq, components_withPart]

variable {c d}

/-- The limits are the same wherever a part is put. -/
theorem SameSettings.limits_withPart (h : SameSettings c d) :
  (d.withPart kind c).limits = c.limits
  := by
  rw [Context.limits_withPart, h.limits_eq]

theorem SameSettings.components_withPart (h : SameSettings c d) :
  (d.withPart kind c).components = c.components
  := by
  rw [Context.components_withPart, h.components_eq]

end Context

namespace Compile

open Context (SameSettings)

variable {α β : Type} {kind kind' : DeclarationKind} {x : Compile α}

/-! ### Local programs -/

/-- A program that reads and writes the part of a context for one kind of declarations: where
this part is put into another context, the program comes out the same and does the same to
it. -/
def Local (kind : DeclarationKind) (x : Compile α) : Prop :=
  ∀ c c' : Context, SameSettings c c' →
    x (c'.withPart kind c) = { x c with context := c'.withPart kind (x c).context }

/-- A local program changes its part only. -/
theorem Local.context_eq (hx : Local kind x) (c : Context) :
  (x c).context = c.withPart kind (x c).context
  := by
  have h := congrArg Outcome.context (hx c c (SameSettings.refl c))
  rwa [Context.withPart_self] at h

theorem Local.sameSettings
    (hx : Local kind x) {c c' : Context} (h : SameSettings c c') :
  SameSettings (x c).context c'
  := by
  rw [hx.context_eq]
  apply h.withPart

/-- A program that is local to declarations other than textures leaves the resources alone. -/
theorem Local.resources_eq (hx : Local kind x) (hkind : kind ≠ .texture) {c : Context} :
  (x c).context.resources = c.resources
  := by
  rw [hx.context_eq]
  cases kind <;> first | rfl | exact absurd rfl hkind

theorem local_pure (a : α) :
  Local kind (pure a : Compile α)
  := fun _ _ _ => rfl

theorem local_fail (e : Fault) :
  Local kind (fail e : Compile α)
  := fun _ _ _ => rfl

theorem local_warn (w : Warning) :
  Local kind (warn w)
  := fun _ _ _ => rfl

/-- A change is local if it can be made before its part is put into another context. -/
theorem local_update
    {g : Context → Context}
    (hg : ∀ {c c'}, SameSettings c c' → g (c'.withPart kind c) = c'.withPart kind (g c)) :
  Local kind (update g)
  := fun _ _ h => congrArg (Outcome.mk _ _ _) (hg h)

theorem Local.bind {f : α → Compile β} (hx : Local kind x) (hf : ∀ a, Local kind (f a)) :
  Local kind (x >>= f)
  := by
  intro c c' h
  have hmoved := hx c c' h
  cases hresult : (x c).result with
  | error e => rw [bind_of_error (by rw [hmoved, hresult]), bind_of_error hresult, hmoved]
  | ok a =>
    rw [bind_of_ok (by rw [hmoved, hresult]), bind_of_ok hresult, hmoved]
    dsimp only
    rw [hf a _ _ (hx.sameSettings h)]

/-- A program that looks at the context first is local if it looks at its part only. -/
theorem local_context_bind
    {f : Context → Compile β}
    (hlook : ∀ {c c'}, SameSettings c c' → f (c'.withPart kind c) = f c)
    (hf : ∀ c, Local kind (f c)) :
  Local kind (context >>= f)
  := by
  intro c c' h
  rw [context_bind, context_bind, hlook h]
  apply hf c c c' h

/-! ### Programs one after the other -/

/-- Behind a program that is local to another kind a local program comes out the same, and it
finds that program's part as it was left. -/
theorem Local.apply_behind
    {y : Compile β} (hx : Local kind x) (hy : Local kind' y) (hne : kind ≠ kind') (c : Context) :
  y (x c).context = { y c with context := (y c).context.withPart kind (x c).context }
  := by
  have hsettings : SameSettings c (x c).context := by
    rw [hx.context_eq]
    exact ⟨c.limits_withPart _, c.components_withPart _⟩
  have hself : (x c).context = (x c).context.withPart kind' c := by
    rw [hx.context_eq, Context.withPart_comm _ _ _ hne, Context.withPart_self]
  have hbehind := hy _ _ hsettings
  rw [← hself] at hbehind
  rw [hbehind]
  rw [hx.context_eq, Context.withPart_comm _ _ _ hne, ← hy.context_eq,
    Context.withPart_of_withPart]

/-- Local programs of different kinds leave the same context in either order. -/
theorem Local.commute
    {y : Compile β} (hx : Local kind x) (hy : Local kind' y) (hne : kind ≠ kind') (c : Context) :
  (y (x c).context).context = (x (y c).context).context
  := by
  rw [hx.apply_behind hy hne, hy.apply_behind hx (Ne.symm hne)]
  dsimp only
  rw [hy.context_eq, Context.withPart_comm _ _ _ (Ne.symm hne), ← hx.context_eq,
    Context.withPart_of_withPart]

/-! ### Variables -/

variable {constants : OrderedMap Text Text} {stage : Stage}

theorem local_resolveExtent (name type : Text) :
  Local kind (resolveExtent constants name type)
  := by
  rw [resolveExtent]
  split
  · apply local_fail
  · split
    · apply local_pure
    · apply (local_warn _).bind
      intro _
      apply local_pure

theorem local_takeLocations (kind : LocationKind) (type : Text) (size : Int) :
  Local kind.declarationKind (takeLocations kind type size)
  := by
  intro c c' h
  rw [takeLocations_apply, takeLocations_apply]
  rw [show locationLimit (c'.withPart _ c).limits kind = locationLimit c.limits kind by
    rw [h.limits_withPart]]
  cases kind <;> rfl

theorem local_locate (kind : LocationKind) (name type : Text) :
  Local kind.declarationKind (locate kind constants name type)
  := by
  apply (local_resolveExtent _ _).bind
  intro e
  apply (local_takeLocations kind _ _).bind
  intro location
  apply Local.bind
  · apply local_update
    intro c c' _
    cases kind <;> rfl
  intro _
  apply local_pure

/-- A list of declarations belongs to the part for declarations of some kind if it can be changed
before the part is put into another context. -/
theorem local_listDeclaration
    (numbers : List Int) {f : Declarations → Declarations}
    (hf : ∀ c c' : Context,
      let c'' := c'.withPart kind c
      { c'' with interface.declarations := f c''.interface.declarations }
        = c'.withPart kind { c with interface.declarations := f c.interface.declarations }) :
  Local kind (listDeclaration numbers f)
  := by
  intro c c' _
  rw [listDeclaration_apply, listDeclaration_apply]
  split
  · exact congrArg (Outcome.mk _ _ _) (hf c c')
  · rfl

theorem local_declareAttribute (form : VariableForm) :
  Local .attribute (declareAttribute constants form)
  := by
  apply (local_locate .attribute _ _).bind
  intro location
  apply local_context_bind
  · intro c c' h
    dsimp only [LocationKind.declarationKind]
    rw [h.components_withPart]
  · intro c
    apply local_listDeclaration
    intro c c'
    rfl

theorem local_declareVarying (form : VaryingForm) :
  Local .varying (declareVarying constants form)
  := by
  apply (local_locate .varying _ _).bind
  intro location
  apply local_listDeclaration
  intro c c'
  rfl

theorem local_checkVarying (form : VaryingForm) :
  Local .varying (checkVarying form)
  := by
  apply local_context_bind
  · intro c c' _
    rfl
  · intro c
    split
    · apply local_pure
    · apply local_warn

theorem local_declareUniform (form : VariableForm) :
  Local .uniform (declareUniform constants form)
  := by
  apply (local_resolveExtent _ _).bind
  intro e
  apply local_update
  intro c c' _
  rw [show (c'.withPart .uniform c).uniforms = c.uniforms from rfl]
  split <;> rfl

/-! ### Textures -/

theorem local_textureLength (form : TextureForm) :
  Local kind (textureLength constants form)
  := by
  rw [textureLength]
  split
  · apply (local_resolveExtent _ _).bind
    intro e
    apply local_pure
  · apply local_pure

theorem local_takeSlot :
  Local .texture takeSlot
  := by
  intro c c' h
  have htake : Slot.take (c'.withPart .texture c).limits (c'.withPart .texture c).resources.free
      = Slot.take c.limits c.resources.free := by
    rw [h.limits_withPart]
    rfl
  have hfault : noSlot (c'.withPart .texture c).limits = noSlot c.limits := by
    rw [h.limits_withPart]
  rw [takeSlot, takeSlot, htake, hfault]
  cases Slot.take c.limits c.resources.free with
  | mk s free => cases s <;> rfl

theorem local_takeSlots (count : Nat) :
  Local .texture (takeSlots count)
  := by
  intro c c' h
  have htake : Slot.takeMany (c'.withPart .texture c).limits count
      (c'.withPart .texture c).resources.free = Slot.takeMany c.limits count c.resources.free := by
    rw [h.limits_withPart]
    rfl
  have hfault : noSlot (c'.withPart .texture c).limits = noSlot c.limits := by
    rw [h.limits_withPart]
  rw [takeSlots, takeSlots, htake, hfault]
  dsimp only
  split <;> rfl

theorem local_registeredTexture (form : TextureForm) (function : TextureFunction) (length : Nat) :
  Local .texture (registeredTexture form function length)
  := by
  apply local_context_bind
  · intro c c' _
    rfl
  · intro c
    split
    · apply local_pure
    · apply local_takeSlot.bind
      intro slot
      apply (local_takeSlots _).bind
      intro others
      apply local_pure

theorem local_describeElements
    (name : Text) (isArray : Bool) (resource : Resource) (number : Nat) (slots : List Slot) :
  Local .texture (describeElements name isArray resource stage number slots)
  := by
  intro c c' _
  rw [describeElements_apply, describeElements_apply]
  rfl

theorem local_enterTexture (form : TextureForm) (function : TextureFunction) (length : Nat) :
  Local .texture (enterTexture stage form function length)
  := by
  apply (local_registeredTexture _ _ _).bind
  intro t
  apply Local.bind
  · apply local_update
    intro c c' _
    rfl
  intro _
  apply (local_describeElements _ _ _ _ _).bind
  intro _
  apply local_pure

theorem local_declareTexture (line : Text) (form : TextureForm) :
  Local .texture (declareTexture constants stage line form)
  := by
  rw [declareTexture]
  split
  · apply local_fail
  · apply (local_textureLength form).bind
    intro length
    apply local_enterTexture

/-! ### Lines -/

/-- A declaration is local to its kind. -/
theorem local_declare (line : Text) (d : Declaration) :
  Local d.kind (declare constants stage line d)
  := by
  cases d with
  | «attribute» form => exact (local_declareAttribute form).bind fun _ => local_pure _
  | varying form =>
    cases stage with
    | vertex => exact (local_declareVarying form).bind fun _ => local_pure _
    | fragment => exact (local_checkVarying form).bind fun _ => local_pure _
  | uniform form => exact (local_declareUniform form).bind fun _ => local_pure _
  | texture form => exact (local_declareTexture line form).bind fun _ => local_pure _

end Compile

end ShaderPair
