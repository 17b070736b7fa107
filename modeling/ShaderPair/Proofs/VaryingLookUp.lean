import ShaderPair.Proofs.InterfaceHistory
import ShaderPair.Proofs.StageAgreement

/-!
# Varyings in the fragment stage

The varyings of a shader pair are those of its vertex stage.  A varying in the fragment stage is
only looked up: whatever else the stage declares, and whether or not it can be gone through, what
is known of varyings stays the same, and there is one warning for each varying that is missing
(`Compile.looksUp_processStage`).  So both stages of a compiled pair get a struct with the same
fields: one for each varying of the vertex stage, at the location handed out for it
(`varyings_agree`).
-/

namespace ShaderPair

/-! ### What is known of varyings -/

/-- Interfaces that know the same of varyings. -/
structure Interface.SameVaryings (i i' : Interface) : Prop where
  varyings_eq : i'.varyings = i.varyings
  declared_eq : i'.declarations.varyings = i.declarations.varyings
  next_eq : i'.nextVarying = i.nextVarying

namespace Interface.SameVaryings

variable {i i' i'' : Interface}

theorem refl (i : Interface) :
  SameVaryings i i
  := ⟨rfl, rfl, rfl⟩

theorem trans (h : SameVaryings i i') (h' : SameVaryings i' i'') :
  SameVaryings i i''
  := ⟨h'.varyings_eq.trans h.varyings_eq, h'.declared_eq.trans h.declared_eq,
    h'.next_eq.trans h.next_eq⟩

end Interface.SameVaryings

/-- The varying that a warning says is missing. -/
def Warning.undeclared? : Warning → Option Text
  | undeclaredVarying name => some name
  | unresolvedLength _ _ => none

/-- The varying that a line declares. -/
def Declaration.varyingForm? (line : Text) : Option VaryingForm :=
  match ofLine? line with
  | some (.varying form) => some form
  | _ => none

/-- The names of the varyings that some lines declare, without those that are known. -/
def Interface.missing (i : Interface) (lines : List Text) : List Text :=
  ((lines.filterMap Declaration.varyingForm?).map VaryingForm.name).filter
    fun name => !i.varyings.contains name

theorem Declaration.varyingForm?_eq_some_iff {line : Text} {form : VaryingForm} :
  varyingForm? line = some form ↔ ofLine? line = some (.varying form)
  := by
  rw [varyingForm?]
  split
  next form' h => rw [h, Option.some_inj, Option.some_inj, varying.injEq]
  next h =>
    constructor
    · rintro ⟨⟩
    · intro hform
      cases h form hform

namespace Interface

variable {i i' : Interface} {line : Text} {lines : List Text}

/-- The same varyings are missing where the same ones are known. -/
theorem SameVaryings.missing_eq (h : SameVaryings i i') (lines : List Text) :
  i'.missing lines = i.missing lines
  := by
  rw [missing, missing, h.varyings_eq]

theorem missing_cons (i : Interface) (line : Text) (lines : List Text) :
  i.missing (line :: lines) = i.missing [line] ++ i.missing lines
  := by
  rw [missing, missing, missing, ← List.filter_append, ← List.map_append, ← List.filterMap_append]
  rfl

theorem missing_of_varying
    {form : VaryingForm} (h : Declaration.ofLine? line = some (.varying form)) :
  i.missing [line] = if i.varyings.contains form.name then [] else [form.name]
  := by
  rw [missing, List.filterMap_cons_some (Declaration.varyingForm?_eq_some_iff.mpr h)]
  cases hknown : i.varyings.contains form.name <;> simp [hknown]

theorem missing_of_not_varying (h : Declaration.varyingForm? line = none) :
  i.missing [line] = []
  := by
  rw [missing, List.filterMap_cons_none h]
  rfl

end Interface

namespace Compile

variable {α β : Type} {c : Context} {names names' : List Text}

/-! ### Programs that look varyings up -/

/-- An outcome that leaves alone what a context knows of varyings, and that warns of some missing
ones. -/
structure LooksUp (c : Context) (names : List Text) (o : Outcome α) : Prop where
  same : c.interface.SameVaryings o.context.interface
  not_exhausted (type : Text) (needed available : Int) :
    o.result ≠ .error (.locationsExhausted .varying type needed available)
  undeclared_eq : o.warnings.filterMap Warning.undeclared? = names

/-- A program that has nothing to do with varyings. -/
def Unvarying (x : Compile α) : Prop := ∀ c, LooksUp c [] (x c)

theorem LooksUp.bind_of_error
    {x : Compile α} {f : α → Compile β} {e : Fault} (hx : LooksUp c names (x c))
    (he : (x c).result = .error e) :
  LooksUp c names ((x >>= f) c)
  := by
  rw [Compile.bind_of_error he]
  refine ⟨hx.same, ?_, hx.undeclared_eq⟩
  intro _ _ _ h
  obtain rfl := Except.error.inj h
  apply hx.not_exhausted _ _ _ he

theorem LooksUp.bind_of_ok
    {x : Compile α} {f : α → Compile β} {a : α} (hx : LooksUp c names (x c))
    (ha : (x c).result = .ok a) (hf : LooksUp (x c).context names' (f a (x c).context)) :
  LooksUp c (names ++ names') ((x >>= f) c)
  := by
  rw [Compile.bind_of_ok ha]
  refine ⟨hx.same.trans hf.same, hf.not_exhausted, ?_⟩
  rw [List.filterMap_append, hx.undeclared_eq, hf.undeclared_eq]

theorem LooksUp.bind
    {x : Compile α} {f : α → Compile β} (hx : LooksUp c names (x c))
    (hf : ∀ a, Unvarying (f a)) :
  LooksUp c names ((x >>= f) c)
  := by
  cases hresult : (x c).result with
  | error e => apply hx.bind_of_error hresult
  | ok a =>
    rw [← List.append_nil names]
    apply hx.bind_of_ok hresult (hf a _)

theorem Unvarying.bind
    {x : Compile α} {f : α → Compile β} (hx : Unvarying x) (hf : ∀ a, Unvarying (f a)) :
  Unvarying (x >>= f)
  := fun c => (hx c).bind hf

theorem unvarying_pure (a : α) :
  Unvarying (pure a : Compile α)
  := fun _ => ⟨.refl _, by rintro _ _ _ ⟨⟩, rfl⟩

theorem unvarying_context :
  Unvarying context
  := fun _ => ⟨.refl _, by rintro _ _ _ ⟨⟩, rfl⟩

theorem unvarying_update
    {g : Context → Context} (hg : ∀ c : Context, c.interface.SameVaryings (g c).interface) :
  Unvarying (update g)
  := fun c => ⟨hg c, by rintro _ _ _ ⟨⟩, rfl⟩

theorem unvarying_fail
    {e : Fault}
    (he : ∀ type needed available, e ≠ .locationsExhausted .varying type needed available) :
  Unvarying (fail e : Compile α)
  := fun _ => ⟨.refl _, fun _ _ _ h => he _ _ _ (Except.error.inj h), rfl⟩

/-! ### Attributes, uniforms and textures -/

theorem unvarying_resolveExtent (constants : OrderedMap Text Text) (name type : Text) :
  Unvarying (resolveExtent constants name type)
  := by
  rw [resolveExtent]
  split
  next e he =>
    obtain ⟨n, rfl⟩ := eq_unreadableNumber_of_ofType he
    apply unvarying_fail
    rintro _ _ _ ⟨⟩
  · split
    · apply unvarying_pure
    · intro c
      exact ⟨.refl _, by rintro _ _ _ ⟨⟩, rfl⟩

/-- The locations of attributes are counted apart from those of varyings. -/
theorem unvarying_takeLocations_attribute (type : Text) (size : Int) :
  Unvarying (takeLocations .attribute type size)
  := by
  intro c
  rw [takeLocations_apply]
  refine ⟨⟨rfl, rfl, rfl⟩, ?_, rfl⟩
  intro _ _ _ h
  dsimp only at h
  split at h
  · have hfault := Except.error.inj h
    rw [Fault.ofLocations, Fault.writing] at hfault
    split at hfault <;> cases hfault
  · cases h

theorem unvarying_declareAttribute (constants : OrderedMap Text Text) (form : VariableForm) :
  Unvarying (declareAttribute constants form)
  := by
  apply Unvarying.bind
  · apply (unvarying_resolveExtent _ _ _).bind
    intro e
    apply (unvarying_takeLocations_attribute _ _).bind
    intro location
    apply Unvarying.bind
    · apply unvarying_update
      intro c
      exact ⟨rfl, rfl, rfl⟩
    intro _
    apply unvarying_pure
  intro location
  apply unvarying_context.bind
  intro c c'
  rw [listDeclaration_apply]
  split
  · exact ⟨⟨rfl, rfl, rfl⟩, by rintro _ _ _ ⟨⟩, rfl⟩
  · exact ⟨.refl _, by rintro _ _ _ ⟨⟩, rfl⟩

theorem unvarying_declareUniform (constants : OrderedMap Text Text) (form : VariableForm) :
  Unvarying (declareUniform constants form)
  := by
  apply (unvarying_resolveExtent _ _ _).bind
  intro e
  apply unvarying_update
  intro c
  split <;> exact ⟨rfl, rfl, rfl⟩

theorem noSlot_ne_locationsExhausted
    {limits : Limits} {kind : LocationKind} {type : Text} {needed available : Int} :
  noSlot limits ≠ .locationsExhausted kind type needed available
  := by
  rw [noSlot_eq]
  split <;> rintro ⟨⟩

theorem unvarying_takeSlot :
  Unvarying takeSlot
  := by
  intro c
  obtain ⟨free, ⟨s, -, heq⟩ | ⟨-, -, heq⟩⟩ := takeSlot_cases c
  · rw [heq]
    exact ⟨⟨rfl, rfl, rfl⟩, by rintro _ _ _ ⟨⟩, rfl⟩
  · rw [heq]
    exact ⟨⟨rfl, rfl, rfl⟩, fun _ _ _ h => noSlot_ne_locationsExhausted (Except.error.inj h), rfl⟩

theorem unvarying_takeSlots (count : Nat) :
  Unvarying (takeSlots count)
  := by
  intro c
  obtain ⟨ss, free, -, ⟨-, heq⟩ | ⟨-, heq⟩⟩ := takeSlots_cases count c
  · rw [heq]
    exact ⟨⟨rfl, rfl, rfl⟩, by rintro _ _ _ ⟨⟩, rfl⟩
  · rw [heq]
    exact ⟨⟨rfl, rfl, rfl⟩, fun _ _ _ h => noSlot_ne_locationsExhausted (Except.error.inj h), rfl⟩

theorem unvarying_registeredTexture
    (form : TextureForm) (function : TextureFunction) (length : Nat) :
  Unvarying (registeredTexture form function length)
  := by
  apply unvarying_context.bind
  intro c
  split
  · apply unvarying_pure
  · apply unvarying_takeSlot.bind
    intro slot
    apply (unvarying_takeSlots _).bind
    intro others
    apply unvarying_pure

theorem unvarying_describeElements
    (name : Text) (isArray : Bool) (resource : Resource) (stage : Stage) (number : Nat)
    (slots : List Slot) :
  Unvarying (describeElements name isArray resource stage number slots)
  := by
  intro c
  rw [describeElements_apply]
  exact ⟨⟨rfl, rfl, rfl⟩, by rintro _ _ _ ⟨⟩, rfl⟩

theorem unvarying_enterTexture
    (stage : Stage) (form : TextureForm) (function : TextureFunction) (length : Nat) :
  Unvarying (enterTexture stage form function length)
  := by
  apply (unvarying_registeredTexture form function length).bind
  intro t
  apply Unvarying.bind
  · apply unvarying_update
    intro c
    exact ⟨rfl, rfl, rfl⟩
  intro _
  apply (unvarying_describeElements _ _ _ _ _ _).bind
  intro _
  apply unvarying_pure

theorem unvarying_textureLength (constants : OrderedMap Text Text) (form : TextureForm) :
  Unvarying (textureLength constants form)
  := by
  rw [textureLength]
  split
  · apply (unvarying_resolveExtent _ _ _).bind
    intro e
    apply unvarying_pure
  · apply unvarying_pure

theorem unvarying_declareTexture
    (constants : OrderedMap Text Text) (stage : Stage) (line : Text) (form : TextureForm) :
  Unvarying (declareTexture constants stage line form)
  := by
  rw [declareTexture]
  split
  · apply unvarying_fail
    rintro _ _ _ ⟨⟩
  · apply (unvarying_textureLength constants form).bind
    intro length
    apply unvarying_enterTexture

/-! ### Lines -/

variable {constants : OrderedMap Text Text} {line code : Text}

/-- A varying that is looked up is no fault, and there is a warning if it is missing. -/
theorem checkVarying_apply (form : VaryingForm) (c : Context) :
  checkVarying form c = ⟨.ok (), if c.interface.varyings.contains form.name then []
    else [.undeclaredVarying form.name], [], c⟩
  := by
  rw [checkVarying, context_bind]
  split <;> rfl

/-- What does not declare a varying in the fragment stage has nothing to do with varyings. -/
theorem unvarying_declare
    (line : Text) {d : Declaration} (hd : ∀ form, d ≠ .varying form) :
  Unvarying (declare constants .fragment line d)
  := by
  cases d with
  | «attribute» form =>
    apply (unvarying_declareAttribute constants form).bind
    intro _
    apply unvarying_pure
  | varying form => cases hd form rfl
  | uniform form =>
    apply (unvarying_declareUniform constants form).bind
    intro _
    apply unvarying_pure
  | texture form =>
    apply (unvarying_declareTexture constants .fragment line form).bind
    intro slot
    apply unvarying_pure

theorem declareIf_of_varying (form : VaryingForm) (line : Text) (c : Context) :
  declareIf constants .fragment line (some (.varying form)) c
    = ⟨.ok (some []), if c.interface.varyings.contains form.name then []
        else [.undeclaredVarying form.name], [], c⟩
  := by
  have hcheck := checkVarying_apply form c
  have hdeclare : declare constants .fragment line (.varying form) c
      = ⟨.ok [], if c.interface.varyings.contains form.name then []
        else [.undeclaredVarying form.name], [], c⟩ := by
    rw [declare, bind_of_ok (a := ()) (by rw [hcheck]), hcheck]
    simp only [pure, List.append_nil]
  rw [declareIf, bind_of_ok (a := []) (by rw [hdeclare]), hdeclare]
  simp only [pure, List.append_nil]

theorem processLine_of_varying
    {form : VaryingForm} (h : Declaration.ofLine? line = some (.varying form)) (c : Context) :
  processLine constants .fragment line c
    = ⟨.ok [], if c.interface.varyings.contains form.name then []
        else [.undeclaredVarying form.name], [], c⟩
  := by
  have hif : declareIf constants .fragment line (some (.varying form)) c = _ :=
    declareIf_of_varying form line c
  rw [processLine, h, bind_of_ok (a := some []) (by rw [hif]), hif]
  simp only [pure, List.append_nil, Option.getD_some]

/-- A line of the fragment stage that declares no varying has nothing to do with varyings. -/
theorem unvarying_processLine (h : Declaration.varyingForm? line = none) :
  Unvarying (processLine constants .fragment line)
  := by
  apply Unvarying.bind
  · cases hline : Declaration.ofLine? line with
    | none => apply unvarying_pure
    | some d =>
      apply Unvarying.bind
      · apply unvarying_declare
        rintro form rfl
        rw [Declaration.varyingForm?_eq_some_iff.mpr hline] at h
        cases h
      · intro text
        apply unvarying_pure
  · intro text?
    apply unvarying_pure

/-- A line of the fragment stage looks its varying up, if it declares one. -/
theorem looksUp_processLine (constants : OrderedMap Text Text) (line : Text) (c : Context) :
  LooksUp c (c.interface.missing [line]) (processLine constants .fragment line c)
  := by
  cases hform : Declaration.varyingForm? line with
  | none =>
    rw [Interface.missing_of_not_varying hform]
    apply unvarying_processLine hform
  | some form =>
    have hline := Declaration.varyingForm?_eq_some_iff.mp hform
    rw [Interface.missing_of_varying hline, processLine_of_varying hline]
    refine ⟨.refl _, by rintro _ _ _ ⟨⟩, ?_⟩
    dsimp only
    split <;> rfl

/-- The lines of the fragment stage look their varyings up one after the other.  If there is a
fault, it is at a line that declares no varying, and the lines in front of it have been gone
through. -/
theorem looksUp_each (lines : List Text) (c : Context) :
  let o := each (processLine constants .fragment) lines c
  ∃ done rest, lines = done ++ rest ∧ LooksUp c (c.interface.missing done) o ∧
    (∀ outs, o.result = .ok outs → rest = []) ∧
    ∀ e, o.result = .error e → ∃ line after, rest = line :: after ∧
      Declaration.varyingForm? line = none
  := by
  induction lines generalizing c with
  | nil =>
    refine ⟨[], [], rfl, unvarying_pure _ c, ?_, ?_⟩
    · intro _ _
      rfl
    · rintro _ ⟨⟩
  | cons line lines ih =>
    have hline := looksUp_processLine constants line c
    rw [each]
    cases hresult : (processLine constants .fragment line c).result with
    | error e =>
      have hform : Declaration.varyingForm? line = none := by
        rw [Option.eq_none_iff_forall_ne_some]
        intro form hform
        rw [processLine_of_varying (Declaration.varyingForm?_eq_some_iff.mp hform)] at hresult
        cases hresult
      rw [Interface.missing_of_not_varying hform] at hline
      refine ⟨[], line :: lines, rfl, hline.bind_of_error hresult, ?_, ?_⟩
      · rw [bind_of_error hresult]
        rintro _ ⟨⟩
      · intro _ _
        exact ⟨line, lines, rfl, hform⟩
    | ok out =>
      obtain ⟨done, rest, rfl, hdone, hok, herror⟩ :=
        ih (processLine constants .fragment line c).context
      refine ⟨line :: done, rest, rfl, ?_, ?_, ?_⟩
      · rw [Interface.missing_cons, ← hline.same.missing_eq done]
        apply hline.bind_of_ok hresult
        apply hdone.bind
        intro outs
        apply unvarying_pure
      · intro outs h
        rw [bind_of_ok hresult] at h
        obtain ⟨outs', houts, -⟩ := ok_of_bind h
        apply hok outs' houts
      · intro e h
        rw [bind_of_ok hresult] at h
        apply herror e (error_of_bind_pure h).1

/-- Going through the fragment stage looks its varyings up. -/
theorem looksUp_processStage (constants : OrderedMap Text Text) (code : Text) (c : Context) :
  let o := processStage constants .fragment code c
  ∃ done rest, Text.lines code = done ++ rest ∧ LooksUp c (c.interface.missing done) o ∧
    (∀ out, o.result = .ok out → rest = []) ∧
    ∀ e, o.result = .error e → ∃ line after, rest = line :: after ∧
      Declaration.varyingForm? line = none
  := by
  obtain ⟨done, rest, hlines, hdone, hok, herror⟩ :=
    @looksUp_each constants (Text.lines code) c
  refine ⟨done, rest, hlines, ?_, ?_, ?_⟩
  · apply hdone.bind
    intro outs
    apply unvarying_pure
  · intro out h
    obtain ⟨outs, houts, -⟩ := ok_of_bind h
    apply hok outs houts
  · intro e h
    apply herror e (error_of_bind_pure h).1

/-- A line that declares a varying vanishes. -/
theorem lines_of_varying
    {stage : Stage} {out : Text} (h : (processStage constants stage code c).result = .ok out) :
  List.Forall₂ (fun line line' => Declaration.varyingForm? line ≠ none → line' = [])
    (Text.lines code) (Text.lines out)
  := by
  apply (linesBecome_of_processStage h).imp
  intro line line' hline hform
  obtain ⟨form, hform⟩ := Option.ne_none_iff_exists'.mp hform
  rw [Declaration.varyingForm?_eq_some_iff] at hform
  cases hline with
  | kept hkept =>
    rw [hkept] at hform
    cases hform
  | dropped => rfl
  | annotated htexture =>
    rw [htexture] at hform
    cases hform

end Compile

/-! ### Locations -/

/-- Varyings at the locations handed out for them one after the other. -/
def Varying.stack (first : Int) : List (VaryingForm × Extent) → List Varying
  | [] => []
  | (form, e) :: sites =>
    ⟨first, form.interpolation, form.sampling, form.name, form.type⟩
      :: stack (first + ShaderType.locationSize form.type * e.room) sites

/-- The varying of the vertex stage that an entry declares, and what its type says about its
elements. -/
def Entry.varying? : Entry → Option (VaryingForm × Extent)
  | .varying form e => some (form, e)
  | _ => none

/-- The varyings that the vertex stage of a pair declares. -/
def SourcePair.varyings (source : SourcePair) (mode : Mode) : List (VaryingForm × Extent) :=
  (Entry.ofStage source.outerDefines .vertex (source.prepared mode).vertex).filterMap
    Entry.varying?

/-- The entries of a context stack its varyings. -/
theorem Context.varyings_enterAll (c : Context) (es : List Entry) :
  (c.enterAll es).interface.declarations.varyings
    = c.interface.declarations.varyings
      ++ Varying.stack c.interface.nextVarying (es.filterMap Entry.varying?)
  := by
  induction es generalizing c with
  | nil => exact (List.append_nil _).symm
  | cons e es ih =>
    rw [enterAll, List.foldl_cons, ← enterAll, ih]
    cases e with
    | varying form extent =>
      apply List.append_assoc
    | _ => rfl

/-- A varying among the entries of a stage is declared by its line, in the vertex stage. -/
theorem Entry.of_ofLine?_eq_varying
    {constants : OrderedMap Text Text} {stage : Stage} {line : Text} {entry : Entry}
    {site : VaryingForm × Extent} (hentry : ofLine? constants stage line = some entry)
    (hsite : entry.varying? = some site) :
  Declaration.varyingForm? line = some site.1 ∧ stage = .vertex ∧
    Extent.ofType constants site.1.type = .ok site.2
  := by
  obtain ⟨hline, hd⟩ := of_ofLine?_eq_some hentry
  cases entry with
  | varying form e =>
    obtain rfl := Option.some_inj.mp hsite
    use Declaration.varyingForm?_eq_some_iff.mpr hline
    cases stage with
    | vertex =>
      use rfl
      cases he : Extent.ofType constants form.type with
      | error fault =>
        rw [declaration, Declaration.entry, he] at hd
        cases hd
      | ok e' =>
        rw [declaration, Declaration.entry, he] at hd
        cases hd
        rfl
    | fragment => cases hd
  | «attribute» | lookUp | uniform | texture => cases hsite

/-- The varyings among the entries of a stage are those that its lines declare. -/
theorem Entry.of_mem_varyings
    {constants : OrderedMap Text Text} {stage : Stage} {code : Text}
    {site : VaryingForm × Extent} (h : site ∈ (ofStage constants stage code).filterMap varying?) :
  stage = .vertex ∧ Extent.ofType constants site.1.type = .ok site.2
  := by
  obtain ⟨entry, hentry, hsite⟩ := List.mem_filterMap.mp h
  obtain ⟨line, -, hline⟩ := List.mem_flatMap.mp hentry
  obtain ⟨-, hstage, he⟩ := of_ofLine?_eq_varying (Option.mem_toList.mp hline) hsite
  exact ⟨hstage, he⟩

/-- The fragment stage declares no varyings. -/
theorem Entry.varyings_fragment (constants : OrderedMap Text Text) (code : Text) :
  (ofStage constants .fragment code).filterMap varying? = []
  := by
  rw [List.eq_nil_iff_forall_not_mem]
  intro site hsite
  cases (of_mem_varyings hsite).1

namespace Compile

variable {source : SourcePair} {c : Context} {constants : OrderedMap Text Text}

/-- A varying of the vertex stage is declared with what its type says about its elements. -/
theorem entry_of_varying
    {line out : Text} {form : VaryingForm}
    (h : (processLine constants .vertex line c).result = .ok out)
    (hform : Declaration.ofLine? line = some (.varying form)) :
  ∃ e, Entry.ofLine? constants .vertex line = some (.varying form e)
  := by
  rw [processLine, hform] at h
  obtain ⟨text?, hif, -⟩ := ok_of_bind h
  obtain ⟨text, hdeclare, -⟩ := ok_of_bind hif
  obtain ⟨_, hvarying, -⟩ := ok_of_bind hdeclare
  obtain ⟨e, he, -⟩ := LocatedForm.entered_of_ok (f := .varying constants form) hvarying
  use e
  rw [Entry.ofLine?, hform, Option.bind_some, Declaration.entry,
    show Extent.ofType constants form.type = _ from he]
  rfl

/-- The varyings that a stage declares are those of its lines. -/
theorem varyings_of_processLine
    {line out : Text} (h : (processLine constants .vertex line c).result = .ok out) :
  ((Entry.ofLine? constants .vertex line).toList.filterMap Entry.varying?).map Prod.fst
    = (Declaration.varyingForm? line).toList
  := by
  cases hform : Declaration.varyingForm? line with
  | some form =>
    obtain ⟨e, he⟩ := entry_of_varying h (Declaration.varyingForm?_eq_some_iff.mp hform)
    rw [he]
    rfl
  | none =>
    suffices h : (Entry.ofLine? constants .vertex line).toList.filterMap Entry.varying? = [] by
      rw [h]
      rfl
    rw [List.filterMap_eq_nil_iff]
    intro entry hentry
    rw [Option.eq_none_iff_forall_ne_some]
    intro site hsite
    obtain ⟨hvarying, -⟩ := Entry.of_ofLine?_eq_varying (Option.mem_toList.mp hentry) hsite
    rw [hform] at hvarying
    cases hvarying

theorem varyings_of_each
    {lines outs : List Text}
    (h : (each (processLine constants .vertex) lines c).result = .ok outs) :
  ((lines.flatMap fun line => (Entry.ofLine? constants .vertex line).toList).filterMap
      Entry.varying?).map Prod.fst
    = lines.filterMap Declaration.varyingForm?
  := by
  induction lines generalizing c outs with
  | nil => rfl
  | cons line lines ih =>
    obtain ⟨out, hline, h⟩ := ok_of_bind h
    obtain ⟨outs', hlines, -⟩ := ok_of_bind h
    rw [List.flatMap_cons, List.filterMap_append, List.map_append, ih hlines,
      varyings_of_processLine hline, List.filterMap_cons]
    cases Declaration.varyingForm? line <;> rfl

/-- The varyings of a pair whose lines have been gone through are stacked at the locations handed
out for them, one for each varying that the vertex stage declares. -/
theorem varyings_of_declareStages
    {texts : StageTexts} (h : (declareStages source c).result = .ok texts) :
  let sites := source.varyings c.mode
  sites.map Prod.fst
    = (Text.lines (source.prepared c.mode).vertex).filterMap Declaration.varyingForm? ∧
  (∀ site ∈ sites, Extent.ofType source.outerDefines site.1.type = .ok site.2) ∧
  (declareStages source c).context.interface.declarations.varyings = Varying.stack 0 sites
  := by
  intro sites
  refine ⟨?_, fun site hsite => (Entry.of_mem_varyings hsite).2, ?_⟩
  · obtain ⟨_, hstages, -⟩ := ok_of_bind (c := c.start source)
      (x := bothStages (processStage source.outerDefines) (source.prepared c.mode)) h
    obtain ⟨vertex, hvertex, -⟩ := ok_of_bind hstages
    obtain ⟨outs, houts, -⟩ := ok_of_bind hvertex
    apply varyings_of_each houts
  · obtain ⟨⟨r, hcontext⟩, -⟩ := declareStages_of_ok h
    rw [hcontext]
    change ((c.start source).enterAll (source.entries c.mode)).interface.declarations.varyings = _
    rw [Context.varyings_enterAll, SourcePair.entries, List.filterMap_append,
      Entry.varyings_fragment, List.append_nil]
    rfl

end Compile

/-- In every context, a fragment stage leaves what is known of varyings as it is, and it never
runs out of locations for them.  If it can be gone through, its lines that declare varyings vanish,
and there is one warning for each of these varyings that is not known, in the order of the lines.
If there is a fault, it is at a line that declares no varying, and the warnings are about the lines
in front of it.  So the struct between the two stages of a compiled pair has the same fields in
both stages: one for each line of the vertex stage that declares a varying, in order, at the
location handed out for it. -/
theorem varyings_agree (c : Context) :
  (∀ constants code,
    let o := Compile.processStage constants .fragment code c
    c.interface.SameVaryings o.context.interface ∧
    (∀ type needed available,
      o.result ≠ .error (.locationsExhausted .varying type needed available)) ∧
    (∀ out, o.result = .ok out →
      List.Forall₂ (fun line line' => Declaration.varyingForm? line ≠ none → line' = [])
        (Text.lines code) (Text.lines out) ∧
      o.warnings.filterMap Warning.undeclared? = c.interface.missing (Text.lines code)) ∧
    ∀ e, o.result = .error e → ∃ done line after, Text.lines code = done ++ line :: after ∧
      Declaration.varyingForm? line = none ∧
      o.warnings.filterMap Warning.undeclared? = c.interface.missing done) ∧
  ∀ source out, (Compile.pair source c).result = .ok out →
    let i := (Compile.declareStages source c).context.interface
    let sites := source.varyings c.mode
    sites.map Prod.fst
      = (Text.lines (source.prepared c.mode).vertex).filterMap Declaration.varyingForm? ∧
    (∀ site ∈ sites, Extent.ofType source.outerDefines site.1.type = .ok site.2) ∧
    i.declarations.varyings = Varying.stack 0 sites ∧
    ∃ strided leftOver, ∃ annotated : StageTexts,
      let d := i.declarations.withStrided strided
      let fields := Text.unlines ((Varying.stack 0 sites).map Varying.field)
      out = annotated.finished c.mode d leftOver ∧
      StageStruct.vertexOutputs d
        = "struct FragmentInputs \x7b\n" ++ "  @builtin(position) position : vec4<f32>,\n" ++ fields
          ++ "\n\x7d;\n" ++ "var<private> vertexOutputs : FragmentInputs;\n" ∧
      StageStruct.fragmentInputs d
        = "struct FragmentInputs \x7b\n" ++ "  @builtin(position) position : vec4<f32>,\n"
          ++ "  @builtin(front_facing) frontFacing : bool,\n" ++ fields
          ++ "\n\x7d;\n" ++ "var<private> fragmentInputs : FragmentInputs;\n"
  := by
  constructor
  · intro constants code o
    obtain ⟨done, rest, hlines, hlooks, hok, herror⟩ :=
      Compile.looksUp_processStage constants code c
    refine ⟨hlooks.same, hlooks.not_exhausted, ?_, ?_⟩
    · intro out hout
      use Compile.lines_of_varying hout
      rw [hlines, hok out hout, List.append_nil]
      apply hlooks.undeclared_eq
    · intro e he
      obtain ⟨line, after, rfl, hform⟩ := herror e he
      use done, line, after, hlines, hform, hlooks.undeclared_eq
  · intro source out h i sites
    obtain ⟨texts, hdeclared, -⟩ := Compile.ok_of_bind h
    obtain ⟨hforms, hextents, hvaryings⟩ := Compile.varyings_of_declareStages hdeclared
    obtain ⟨hi, -, strided, leftOver, annotated, hout⟩ := Compile.interface_of_pair_ok h
    refine ⟨hforms, hextents, hvaryings, strided, leftOver, annotated, ?_, ?_, ?_⟩
    · rw [hout, ← hi]
    · rw [← hvaryings]
      rfl
    · rw [← hvaryings]
      rfl

/-- Where a varying is known and another one is not, there is a warning about the other one; a
pair with both of them in its fragment stage has one varying. -/
theorem varyings_agree_shaded :
  let c : Context := { Context.fresh .pure {} ∅ with interface.varyings := .ofList [("v", 0)] }
  let o := Compile.processStage ∅ .fragment shaded.fragment c
  o.result = .ok "\n" ∧ o.warnings.filterMap Warning.undeclared? = [("w" : Text)] ∧
    (Compile.pair shaded c).result.isOk ∧
    (Compile.declareStages shaded c).context.interface.declarations.varyings
      = [⟨0, .perspective, .center, "v", "vec2<f32>"⟩]
  := by
  intro c o
  have hresult : o.result = .ok "\n" := by decide +kernel
  have hok : (Compile.pair shaded c).result.isOk := by decide +kernel
  obtain ⟨hfragment, hpair⟩ := varyings_agree c
  refine ⟨hresult, ?_, hok, ?_⟩
  · obtain ⟨-, -, hwarnings, -⟩ := hfragment ∅ shaded.fragment
    rw [(hwarnings _ hresult).2]
    decide +kernel
  · obtain ⟨out, hout⟩ := Compile.exists_of_isOk hok
    obtain ⟨-, -, hvaryings, -⟩ := hpair shaded out hout
    rw [hvaryings]
    decide +kernel

end ShaderPair
