import ShaderPair.Proofs.Entries
import ShaderPair.Proofs.ProgramSteps

/-!
# Lines are entered in whole or not at all

A line of a stage that declares nothing leaves a context as it is.  A line that declares
something is entered in whole, unless its declaration fails.  A declaration that fails leaves
nothing behind but the slots or the locations that it has taken before (`Declaration.Leaves`), and
in one case a location that it has noted: what else can fail comes before anything is registered,
but the text that lists a variable, with its location and the number of its components, is written
last.  In any case nothing is registered, described or listed by a declaration that fails
(`Context.SameRegistries`).
-/

namespace ShaderPair

/-! ### Declarations that fail -/

/-- Contexts with the same textures, samplers, buffers and plain uniforms in the registries, the same
layout and the same declarations in the lists.  Apart from them a context holds the settings, the
locations of variables, and the first free slot. -/
structure Context.SameRegistries (c c' : Context) : Prop where
  textures_eq : c'.resources.textures = c.resources.textures
  samplers_eq : c'.resources.samplers = c.resources.samplers
  buffers_eq : c'.resources.buffers = c.resources.buffers
  uniforms_eq : c'.uniforms = c.uniforms
  layout_eq : c'.resources.layout = c.resources.layout
  catalogue_eq : c'.catalogue = c.catalogue
  declarations_eq : c'.interface.declarations = c.interface.declarations

namespace Declaration

/-- The variable for which a declaration in a stage takes locations. -/
def located? (constants : OrderedMap Text Text) (stage : Stage) : Declaration → Option LocatedForm
  | .attribute form => some (.attribute constants form)
  | .varying form =>
    match stage with
    | .vertex => some (.varying constants form)
    | .fragment => none
  | .uniform _ => none
  | .texture _ => none

/-- What a declaration that fails leaves of a context.  A texture for which there are not enough
slots has moved the first free slot, a variable for which there are not enough locations has
taken those that it needs, and a texture with an unknown function or a number that cannot be read
leaves the context as it was.  A number that cannot be written is in the message about slots or
locations that are not there, or in the text that lists a variable: its location is noted then. -/
def Leaves (constants : OrderedMap Text Text) (stage : Stage) (d : Declaration) (c : Context) :
    Fault → Context → Prop
  | .unknownTextureFunction _ _, c' => c' = c
  | .unreadableNumber _, c' => c' = c
  | .slotsExhausted _ _, c' => (∃ form, d = .texture form) ∧ ∃ free, c' = c.withFree free
  | .locationsExhausted kind _ needed _, c' =>
    ∃ f, d.located? constants stage = some f ∧ f.kind = kind ∧ c' = c.withNextLocation kind needed
  | .unwritableNumber, c' =>
    ((∃ form, d = .texture form) ∧ ∃ free, c' = c.withFree free) ∨
    ∃ f e, d.located? constants stage = some f ∧ f.extent = .ok e ∧
      (c' = c.withNextLocation f.kind (f.next c e) ∨
        (∃ n ∈ f.numbers c (f.first c), Text.isWritable n = false) ∧ c' = f.noted c e)

/-- What a declaration that fails leaves behind is neither registered nor described nor listed. -/
theorem Leaves.sameRegistries
    {constants : OrderedMap Text Text} {stage : Stage} {d : Declaration} {c c' : Context}
    {e : Fault} (h : d.Leaves constants stage c e c') :
  c.SameRegistries c'
  := by
  have hsame : c.SameRegistries c := ⟨rfl, rfl, rfl, rfl, rfl, rfl, rfl⟩
  have hfree : ∀ free, c.SameRegistries (c.withFree free) :=
    fun _ => ⟨rfl, rfl, rfl, rfl, rfl, rfl, rfl⟩
  have hnext : ∀ kind next, c.SameRegistries (c.withNextLocation kind next) := by
    rintro (_ | _) next <;> exact ⟨rfl, rfl, rfl, rfl, rfl, rfl, rfl⟩
  cases e with
  | unknownTextureFunction function line =>
    obtain rfl : c' = c := h
    exact hsame
  | unreadableNumber n =>
    obtain rfl : c' = c := h
    exact hsame
  | slotsExhausted groups bindings =>
    obtain ⟨-, free, rfl⟩ := h
    exact hfree free
  | locationsExhausted kind type needed available =>
    obtain ⟨f, -, -, rfl⟩ := h
    exact hnext kind needed
  | unwritableNumber =>
    obtain ⟨-, free, rfl⟩ | ⟨f, e, -, -, rfl | ⟨-, rfl⟩⟩ := h
    · exact hfree free
    · exact hnext _ _
    · cases f <;> exact ⟨rfl, rfl, rfl, rfl, rfl, rfl, rfl⟩

end Declaration

namespace Compile

open Declaration (Leaves)

variable
  {α β : Type} {c : Context} {constants : OrderedMap Text Text} {stage : Stage} {e : Fault}

/-! ### Variables -/

theorem resolveExtent_of_error
    {name type : Text} (h : (resolveExtent constants name type c).result = .error e) :
  (∃ n, e = .unreadableNumber n) ∧ (resolveExtent constants name type c).context = c
  := by
  cases hextent : Extent.ofType constants type with
  | error e' =>
    rw [resolveExtent_fail name c hextent] at h ⊢
    obtain rfl := Except.error.inj h
    exact ⟨eq_unreadableNumber_of_ofType hextent, rfl⟩
  | ok extent =>
    rw [resolveExtent_apply name c hextent] at h
    cases h

/-- A variable that fails is not listed: its type is no good, there are no locations for it, or its
text cannot be written. -/
theorem leaves_of_declareLocated
    {f : LocatedForm} {d : Declaration} (hd : d.located? constants stage = some f)
    (h : (f.declare c).result = .error e) :
  Leaves constants stage d c e (f.declare c).context
  := by
  cases hextent : f.extent with
  | error fault =>
    have hfail := f.declare_fail c hextent
    rw [hfail] at h ⊢
    obtain rfl := Except.error.inj h
    obtain ⟨n, rfl⟩ : ∃ n, fault = .unreadableNumber n := by
      cases f <;> exact eq_unreadableNumber_of_ofType hextent
    rfl
  | ok extent =>
    have hdeclare := f.declare_apply c hextent
    dsimp only at hdeclare
    split at hdeclare
    · split at hdeclare
      · rw [hdeclare] at h
        cases h
      next hnumbers =>
        rw [hdeclare] at h ⊢
        obtain rfl := Except.error.inj h
        obtain ⟨n, hn, hlong⟩ := List.all_eq_false.mp (Bool.eq_false_iff.mpr hnumbers)
        right
        exact ⟨f, extent, hd, hextent, .inr ⟨⟨n, hn, Bool.eq_false_iff.mpr hlong⟩, rfl⟩⟩
    · rw [hdeclare] at h ⊢
      obtain rfl := Except.error.inj h
      rw [Fault.ofLocations, Fault.writing]
      split
      · exact ⟨f, hd, rfl, rfl⟩
      · right
        exact ⟨f, extent, hd, hextent, .inl rfl⟩

/-- A varying that is looked up does not fail. -/
theorem checkVarying_not_error (form : VaryingForm) (c : Context) (e : Fault) :
  (checkVarying form c).result ≠ .error e
  := by
  rw [checkVarying, context_bind]
  split <;> rintro ⟨⟩

theorem leaves_of_declareUniform
    {form : VariableForm} (h : (declareUniform constants form c).result = .error e) :
  Leaves constants stage (.uniform form) c e (declareUniform constants form c).context
  := by
  obtain ⟨hextent, hcontext⟩ | ⟨extent, -, hupdate, -⟩ := error_of_bind h
  · obtain ⟨⟨n, rfl⟩, hc⟩ := resolveExtent_of_error hextent
    exact hcontext.trans hc
  · cases hupdate

/-! ### Textures -/

theorem textureLength_of_error
    {form : TextureForm} (h : (textureLength constants form c).result = .error e) :
  (∃ n, e = .unreadableNumber n) ∧ (textureLength constants form c).context = c
  := by
  rw [textureLength] at h ⊢
  split at h
  next harray =>
    rw [if_pos harray]
    obtain ⟨hextent, hcontext⟩ := error_of_bind_pure h
    obtain ⟨hfault, hc⟩ := resolveExtent_of_error hextent
    exact ⟨hfault, hcontext.trans hc⟩
  · cases h

theorem textureLength_of_ok
    {form : TextureForm} {length : Nat}
    (h : (textureLength constants form c).result = .ok length) :
  (textureLength constants form c).context = c
  := by
  rw [textureLength] at h ⊢
  split
  next harray =>
    rw [if_pos harray] at h
    obtain ⟨extent, hextent, -⟩ := ok_of_bind h
    rw [bind_of_ok hextent]
    exact (resolveExtent_of_ok hextent).2
  · rfl

/-- A texture that is declared has a function that is known, and it is entered with the length of
its type. -/
theorem declareTexture_of_ok
    {line : Text} {form : TextureForm} {slot : Slot}
    (h : (declareTexture constants stage line form c).result = .ok slot) :
  ∃ function length, TextureFunction.ofName? form.function = some function ∧
    (textureLength constants form c).result = .ok length ∧
    (enterTexture stage form function length c).result = .ok slot ∧
    (declareTexture constants stage line form c).context
      = (enterTexture stage form function length c).context
  := by
  rw [declareTexture] at h ⊢
  cases hfunction : TextureFunction.ofName? form.function with
  | none =>
    rw [hfunction] at h
    cases h
  | some function =>
    rw [hfunction] at h
    dsimp only at h ⊢
    obtain ⟨length, hlength, henter⟩ := ok_of_bind h
    rw [textureLength_of_ok hlength] at henter
    refine ⟨function, length, rfl, hlength, henter, ?_⟩
    rw [bind_of_ok hlength, textureLength_of_ok hlength]

/-- A texture fails where not all of its slots are found, and then it is neither registered nor
described. -/
theorem enterTexture_of_error
    {form : TextureForm} {function : TextureFunction} {length : Nat}
    (h : (enterTexture stage form function length c).result = .error e) :
  e = noSlot c.limits ∧
    ∃ free, (enterTexture stage form function length c).context = c.withFree free
  := by
  cases hfind : c.resources.textures.find? form.name with
  | some t =>
    rw [enterTexture_of_registered
      (registeredTexture_of_find?_eq_some hfind function length)] at h
    cases h
  | none =>
    obtain ⟨ss, free, -, ⟨slot, others, -, -, hregistered⟩ | ⟨-, hregistered⟩⟩ :=
      registeredTexture_of_find?_eq_none hfind function length
    · rw [enterTexture_of_registered hregistered] at h
      cases h
    · rw [enterTexture, bind_of_error (by rw [hregistered])] at h ⊢
      obtain rfl := Except.error.inj h
      exact ⟨rfl, free, by rw [hregistered]⟩

theorem leaves_of_declareTexture
    {line : Text} {form : TextureForm}
    (h : (declareTexture constants stage line form c).result = .error e) :
  Leaves constants stage (.texture form) c e (declareTexture constants stage line form c).context
  := by
  rw [declareTexture] at h ⊢
  cases hfunction : TextureFunction.ofName? form.function with
  | none =>
    rw [hfunction] at h
    obtain rfl := Except.error.inj h
    rfl
  | some function =>
    rw [hfunction] at h
    dsimp only at h ⊢
    obtain ⟨hlength, hcontext⟩ | ⟨length, hlength, henter, hcontext⟩ := error_of_bind h
    · rw [hcontext]
      obtain ⟨⟨n, rfl⟩, hc⟩ := textureLength_of_error hlength
      exact hc
    · rw [textureLength_of_ok hlength] at henter hcontext
      rw [hcontext]
      obtain ⟨rfl, free, hfree⟩ := enterTexture_of_error henter
      rw [noSlot_eq]
      split
      · exact ⟨⟨form, rfl⟩, free, hfree⟩
      · exact .inl ⟨⟨form, rfl⟩, free, hfree⟩

/-! ### Lines -/

/-- A declaration that is replaced with a text leaves what it leaves without. -/
theorem leaves_of_map
    {x : Compile α} {g : α → β} {d : Declaration}
    (hx : (x c).result = .error e → Leaves constants stage d c e (x c).context)
    (h : ((x >>= fun a => pure (g a)) c).result = .error e) :
  Leaves constants stage d c e ((x >>= fun a => pure (g a)) c).context
  := by
  obtain ⟨hresult, hcontext⟩ := error_of_bind_pure h
  rw [hcontext]
  apply hx hresult

theorem leaves_of_declare
    {line : Text} {d : Declaration} (h : (declare constants stage line d c).result = .error e) :
  Leaves constants stage d c e (declare constants stage line d c).context
  := by
  cases d with
  | «attribute» form =>
    exact leaves_of_map (leaves_of_declareLocated (f := .attribute constants form) rfl) h
  | varying form =>
    cases stage with
    | vertex => exact leaves_of_map (leaves_of_declareLocated (f := .varying constants form) rfl) h
    | fragment => cases checkVarying_not_error form c e (error_of_bind_pure h).1
  | uniform form => exact leaves_of_map leaves_of_declareUniform h
  | texture form => exact leaves_of_map leaves_of_declareTexture h

end Compile

open Compile (processLine)
open Resources (Steps)

/-- An attribute whose components are too many to be written is noted, but it is not listed. -/
example :
  let c := Context.fresh .pure {} (.ofList [("p", 10 ^ 4300)])
  let o := processLine ∅ .vertex "attribute p : vec2<f32>;" c
  o.result = .error .unwritableNumber ∧ o.context.interface.attributes = .ofList [("p", 0)] ∧
    o.context.interface.declarations = {}
  := by decide +kernel

end ShaderPair
