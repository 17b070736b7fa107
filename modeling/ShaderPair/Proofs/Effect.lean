import ShaderPair.Pair
import ShaderPair.Proofs.ResourceStep

/-!
# The effect of compilations on resources

Whatever a compilation does, and whether or not it succeeds, it changes the resources of its
context by steps only, and it gives up for want of a slot only when none is left
(`Compile.Effect`).  `Compile.Does` adds what is known of the steps when it succeeds.  The rules
for sequences of programs come first; then each program that works on resources is shown to do
what its declarations say.  A compilation that leaves the resources alone is `Compile.Quiet`.
-/

namespace ShaderPair

/-- A context with other resources. -/
def Context.withResources (c : Context) (r : Resources) : Context := { c with resources := r }

namespace Compile

open Resources (Event Lasting Step Steps)

variable {α β : Type}

/-! ### Programs -/

/-- A good result is a value. -/
theorem exists_of_isOk {result : Except Fault α} (h : result.isOk) :
  ∃ a, result = .ok a
  := by
  cases result with
  | error e => cases h
  | ok a => exact ⟨a, rfl⟩

theorem bind_of_ok
    {x : Compile α} {f : α → Compile β} {c : Context} {a : α} (h : (x c).result = .ok a) :
  (x >>= f) c
    = ⟨(f a (x c).context).result, (x c).warnings ++ (f a (x c).context).warnings,
        (x c).taken ++ (f a (x c).context).taken, (f a (x c).context).context⟩
  := by
  simp only [bind, h]

theorem result_bind_of_ok
    {x : Compile α} {f : α → Compile β} {c : Context} {a : α} (h : (x c).result = .ok a) :
  ((x >>= f) c).result = (f a (x c).context).result
  := by
  rw [bind_of_ok h]

theorem bind_of_error
    {x : Compile α} {f : α → Compile β} {c : Context} {e : Fault}
    (h : (x c).result = .error e) :
  (x >>= f) c = ⟨.error e, (x c).warnings, (x c).taken, (x c).context⟩
  := by
  simp only [bind, h]

/-- A sequence of programs succeeds if both of them do. -/
theorem ok_of_bind
    {x : Compile α} {f : α → Compile β} {c : Context} {b : β}
    (h : ((x >>= f) c).result = .ok b) :
  ∃ a, (x c).result = .ok a ∧ (f a (x c).context).result = .ok b
  := by
  cases hx : (x c).result with
  | error e =>
    rw [bind_of_error hx] at h
    cases h
  | ok a =>
    rw [bind_of_ok hx] at h
    exact ⟨a, rfl, h⟩

/-- A sequence of programs fails if one of them does, and it leaves what that one leaves. -/
theorem error_of_bind
    {x : Compile α} {f : α → Compile β} {c : Context} {e : Fault}
    (h : ((x >>= f) c).result = .error e) :
  ((x c).result = .error e ∧ ((x >>= f) c).context = (x c).context) ∨
  ∃ a, (x c).result = .ok a ∧ (f a (x c).context).result = .error e ∧
    ((x >>= f) c).context = (f a (x c).context).context
  := by
  cases hx : (x c).result with
  | error e' =>
    left
    rw [bind_of_error hx] at h ⊢
    obtain rfl := Except.error.inj h
    exact ⟨rfl, rfl⟩
  | ok a =>
    right
    rw [bind_of_ok hx] at h ⊢
    exact ⟨a, rfl, h, rfl⟩

/-- Giving back another value fails no further. -/
theorem error_of_bind_pure
    {x : Compile α} {g : α → β} {c : Context} {e : Fault}
    (h : ((x >>= fun a => pure (g a)) c).result = .error e) :
  (x c).result = .error e ∧ ((x >>= fun a => pure (g a)) c).context = (x c).context
  := by
  obtain hx | ⟨a, -, hpure, -⟩ := error_of_bind h
  · exact hx
  · cases hpure

theorem bind_pure_apply (x : Compile α) (c : Context) :
  (x >>= pure) c = x c
  := by
  cases hx : (x c).result with
  | error e => rw [bind_of_error hx, ← hx]
  | ok a =>
    rw [bind_of_ok hx]
    change Outcome.mk (.ok a) ((x c).warnings ++ []) ((x c).taken ++ []) (x c).context = x c
    rw [List.append_nil, List.append_nil, ← hx]

theorem bind_assoc_apply
    {γ : Type} (x : Compile α) (f : α → Compile β) (g : β → Compile γ) (c : Context) :
  ((x >>= f) >>= g) c = (x >>= fun a => f a >>= g) c
  := by
  cases hx : (x c).result with
  | error e =>
    have hxf := bind_of_error (f := f) hx
    rw [bind_of_error (by rw [hxf]), hxf, bind_of_error hx]
  | ok a =>
    have hxf := bind_of_ok (f := f) hx
    rw [bind_of_ok hx]
    cases hf : (f a (x c).context).result with
    | error e => rw [bind_of_error (by rw [hxf]; exact hf), hxf, bind_of_error hf]
    | ok b =>
      rw [bind_of_ok (by rw [hxf]; exact hf), hxf, bind_of_ok hf]
      simp only [List.append_assoc]

/-- Programs obey the laws of a monad. -/
instance : LawfulMonad Compile := LawfulMonad.mk' Compile
  (fun x => funext (bind_pure_apply x))
  (fun _ _ => rfl)
  (fun x f g => funext (bind_assoc_apply x f g))

theorem context_bind (f : Context → Compile β) (c : Context) :
  (context >>= f) c = f c c
  := rfl

theorem update_bind (g : Context → Context) (f : Unit → Compile β) (c : Context) :
  (update g >>= f) c = f () (g c)
  := rfl

theorem write_apply (numbers : List Int) (c : Context) :
  write numbers c
    = ⟨if numbers.all Text.isWritable then .ok () else .error .unwritableNumber, [], [], c⟩
  := by
  rw [write]
  split <;> rfl

theorem listDeclaration_apply
    (numbers : List Int) (f : Declarations → Declarations) (c : Context) :
  listDeclaration numbers f c
    = if numbers.all Text.isWritable then
        ⟨.ok (), [], [], { c with interface.declarations := f c.interface.declarations }⟩
      else ⟨.error .unwritableNumber, [], [], c⟩
  := by
  have hwrite := write_apply numbers c
  rw [listDeclaration]
  split
  next h =>
    rw [if_pos h] at hwrite
    rw [bind_of_ok (a := ()) (by rw [hwrite]), hwrite]
    rfl
  next h =>
    rw [if_neg h] at hwrite
    rw [bind_of_error (by rw [hwrite]), hwrite]

/-- The fault of a search for a slot is that none is left, if the limits can be written. -/
theorem noSlot_eq (limits : Limits) :
  noSlot limits
    = if Text.isWritable limits.groups ∧ Text.isWritable limits.bindingsPerGroup then
        .slotsExhausted limits.groups limits.bindingsPerGroup
      else .unwritableNumber
  := by
  simp [noSlot, Fault.ofSlots, Fault.writing]

/-! ### Quiet programs -/

/-- An outcome that leaves the resources of a context alone, without asking for a slot. -/
structure Keeps (c : Context) (o : Outcome α) : Prop where
  mode_eq : o.context.mode = c.mode
  limits_eq : o.context.limits = c.limits
  resources_eq : o.context.resources = c.resources
  taken_eq : o.taken = []
  not_exhausted {groups bindings : Int} : o.result ≠ .error (.slotsExhausted groups bindings)

/-- A program that leaves the resources alone and asks for no slot. -/
def Quiet (x : Compile α) : Prop := ∀ c, Keeps c (x c)

theorem quiet_pure (a : α) :
  Quiet (pure a : Compile α)
  := by
  intro c
  exact ⟨rfl, rfl, rfl, rfl, by rintro _ _ ⟨⟩⟩

theorem quiet_write (numbers : List Int) :
  Quiet (write numbers)
  := by
  intro c
  rw [write_apply]
  refine ⟨rfl, rfl, rfl, rfl, ?_⟩
  intro _ _ h
  dsimp only at h
  split at h <;> cases h

theorem quiet_context :
  Quiet context
  := by
  intro c
  exact ⟨rfl, rfl, rfl, rfl, by rintro _ _ ⟨⟩⟩

theorem quiet_warn (w : Warning) :
  Quiet (warn w)
  := by
  intro c
  exact ⟨rfl, rfl, rfl, rfl, by rintro _ _ ⟨⟩⟩

theorem quiet_fail {e : Fault} (he : ∀ {groups bindings}, e ≠ .slotsExhausted groups bindings) :
  Quiet (fail e : Compile α)
  := by
  intro c
  use rfl, rfl, rfl, rfl
  intro groups bindings h
  exact he (Except.error.inj h)

/-- A change of a context is quiet if it leaves the mode, the limits and the resources alone. -/
theorem quiet_update
    {g : Context → Context}
    (hg : ∀ c, (g c).mode = c.mode ∧ (g c).limits = c.limits ∧ (g c).resources = c.resources) :
  Quiet (update g)
  := by
  intro c
  obtain ⟨hmode, hlimits, hresources⟩ := hg c
  exact ⟨hmode, hlimits, hresources, rfl, by rintro _ _ ⟨⟩⟩

theorem Quiet.bind
    {x : Compile α} {f : α → Compile β} (hx : Quiet x) (hf : ∀ a, Quiet (f a)) :
  Quiet (x >>= f)
  := by
  intro c
  have hc := hx c
  cases hr : (x c).result with
  | error e =>
    rw [bind_of_error hr]
    use hc.mode_eq, hc.limits_eq, hc.resources_eq, hc.taken_eq
    intro groups bindings hfault
    obtain rfl := Except.error.inj hfault
    exact hc.not_exhausted hr
  | ok a =>
    have hc' := hf a (x c).context
    rw [bind_of_ok hr]
    refine ⟨hc'.mode_eq.trans hc.mode_eq, hc'.limits_eq.trans hc.limits_eq,
      hc'.resources_eq.trans hc.resources_eq, ?_, hc'.not_exhausted⟩
    rw [hc.taken_eq, hc'.taken_eq]
    rfl

/-! ### Variables -/

theorem eq_unreadableNumber_of_number?
    {t : Text} {e : Fault} (h : Extent.number? t = .error e) :
  ∃ n, e = .unreadableNumber n
  := by
  rw [Extent.number?] at h
  split at h
  · cases h
  · split at h
    · cases h
      exact ⟨_, rfl⟩
    · cases h

theorem eq_unreadableNumber_of_resolve?
    {constants : OrderedMap Text Text} {t : Text} {e : Fault}
    (h : Extent.resolve? constants t = .error e) :
  ∃ n, e = .unreadableNumber n
  := by
  rw [Extent.resolve?] at h
  cases hn : Extent.number? t with
  | error e' =>
    rw [hn] at h
    cases h
    apply eq_unreadableNumber_of_number? hn
  | ok n? =>
    rw [hn] at h
    cases n? with
    | some n => cases h
    | none =>
      simp only [bind, Except.bind] at h
      split at h
      · cases h
      · apply eq_unreadableNumber_of_number? h

/-- The only thing that can be wrong with the length of an array is its number of digits. -/
theorem eq_unreadableNumber_of_ofType
    {constants : OrderedMap Text Text} {type : Text} {e : Fault}
    (h : Extent.ofType constants type = .error e) :
  ∃ n, e = .unreadableNumber n
  := by
  rw [Extent.ofType] at h
  split at h
  · split at h
    · dsimp only at h
      generalize Extent.lengthText _ = length at h
      cases hl : Extent.resolve? constants length with
      | error e' =>
        rw [hl] at h
        cases h
        apply eq_unreadableNumber_of_resolve? hl
      | ok n? =>
        rw [hl] at h
        cases h
    · cases h
  · cases h

theorem quiet_resolveExtent (constants : OrderedMap Text Text) (name type : Text) :
  Quiet (resolveExtent constants name type)
  := by
  rw [resolveExtent]
  split
  next e he =>
    obtain ⟨n, rfl⟩ := eq_unreadableNumber_of_ofType he
    apply quiet_fail
    rintro _ _ ⟨⟩
  · split
    · apply quiet_pure
    · apply (quiet_warn _).bind
      intro
      apply quiet_pure

/-- Locations count as taken even if there are not so many. -/
theorem takeLocations_apply (kind : LocationKind) (type : Text) (size : Int) (c : Context) :
  let next := nextLocation c.interface kind + size
  takeLocations kind type size c
    = ⟨if next > locationLimit c.limits kind then
          .error (.ofLocations kind type next (locationLimit c.limits kind))
        else .ok (nextLocation c.interface kind),
      [], [], { c with interface := setNextLocation c.interface next kind }⟩
  := by
  intro next
  rw [takeLocations]
  by_cases hlimit : next > locationLimit c.limits kind
  · rw [if_pos hlimit, if_pos hlimit]
  · rw [if_neg hlimit, if_neg hlimit]

theorem quiet_takeLocations (kind : LocationKind) (type : Text) (size : Int) :
  Quiet (takeLocations kind type size)
  := by
  intro c
  rw [takeLocations_apply]
  use rfl, rfl, rfl, rfl
  intro groups bindings h
  dsimp only at h
  split at h
  · have hfault := Except.error.inj h
    rw [Fault.ofLocations, Fault.writing] at hfault
    split at hfault <;> cases hfault
  · cases h

theorem quiet_locate
    (kind : LocationKind) (constants : OrderedMap Text Text) (name type : Text) :
  Quiet (locate kind constants name type)
  := by
  apply (quiet_resolveExtent _ _ _).bind
  intro e
  apply (quiet_takeLocations _ _ _).bind
  intro location
  apply Quiet.bind
  · apply quiet_update
    intro c
    exact ⟨rfl, rfl, rfl⟩
  intro _
  apply quiet_pure

theorem quiet_listDeclaration (numbers : List Int) (f : Declarations → Declarations) :
  Quiet (listDeclaration numbers f)
  := by
  apply (quiet_write _).bind
  intro _
  apply quiet_update
  intro c
  exact ⟨rfl, rfl, rfl⟩

theorem quiet_declareAttribute (constants : OrderedMap Text Text) (form : VariableForm) :
  Quiet (declareAttribute constants form)
  := by
  apply (quiet_locate _ _ _ _).bind
  intro location
  apply quiet_context.bind
  intro c
  apply quiet_listDeclaration

theorem quiet_declareVarying (constants : OrderedMap Text Text) (form : VaryingForm) :
  Quiet (declareVarying constants form)
  := by
  apply (quiet_locate _ _ _ _).bind
  intro location
  apply quiet_listDeclaration

theorem quiet_checkVarying (form : VaryingForm) :
  Quiet (checkVarying form)
  := by
  apply quiet_context.bind
  intro c
  split
  · apply quiet_pure
  · apply quiet_warn

theorem quiet_declareUniform (constants : OrderedMap Text Text) (form : VariableForm) :
  Quiet (declareUniform constants form)
  := by
  apply (quiet_resolveExtent _ _ _).bind
  intro e
  apply quiet_update
  intro c
  split <;> exact ⟨rfl, rfl, rfl⟩

theorem quiet_textureLength (constants : OrderedMap Text Text) (form : TextureForm) :
  Quiet (textureLength constants form)
  := by
  rw [textureLength]
  split
  · apply (quiet_resolveExtent _ _ _).bind
    intro e
    apply quiet_pure
  · apply quiet_pure

/-! ### Effects -/

/-- What a program does in a context: it takes some steps with the resources, and if it finds no
slot then none is left, and every search for one fails like this. -/
structure Effect (x : Compile α) (c : Context) (es : List Event) : Prop where
  mode_eq : (x c).context.mode = c.mode
  limits_eq : (x c).context.limits = c.limits
  steps : Steps c.mode c.limits es c.resources (x c).taken (x c).context.resources
  exhausted {groups bindings : Int} : (x c).result = .error (.slotsExhausted groups bindings) →
    .slotsExhausted groups bindings = noSlot c.limits ∧
      Slot.Exhausted c.limits (x c).context.resources.free

/-- What a program does in a context, with a property of its value and its steps where it
succeeds. -/
def Does (x : Compile α) (c : Context) (P : α → List Event → Prop) : Prop :=
  ∃ es, Effect x c es ∧ ∀ a, (x c).result = .ok a → P a es

theorem Does.mono
    {x : Compile α} {c : Context} {P Q : α → List Event → Prop} (h : Does x c P)
    (hPQ : ∀ a es, P a es → Q a es) :
  Does x c Q
  := by
  obtain ⟨es, heffect, hok⟩ := h
  use es, heffect
  intro a ha
  apply hPQ _ _ (hok a ha)

theorem Does.mode_eq
    {x : Compile α} {c : Context} {P : α → List Event → Prop} (h : Does x c P) :
  (x c).context.mode = c.mode
  := by
  obtain ⟨es, heffect, -⟩ := h
  apply heffect.mode_eq

/-- What lasts is still there behind a program that takes some steps. -/
theorem Does.lasting
    {x : Compile α} {P : α → List Event → Prop} (hx : Does x c P) {Q : Resources → Prop}
    (hQ : Lasting Q) (hc : Q c.resources) :
  Q (x c).context.resources
  := by
  obtain ⟨es, heffect, -⟩ := hx
  apply heffect.steps.preserves hQ hc

/-- A program does what the program does that comes out the same way. -/
theorem Does.congr
    {x y : Compile α} {c : Context} {P : α → List Event → Prop} (h : Does x c P)
    (hxy : y c = x c) :
  Does y c P
  := by
  obtain ⟨es, heffect, hok⟩ := h
  refine ⟨es, ?_, ?_⟩
  · exact ⟨hxy ▸ heffect.mode_eq, hxy ▸ heffect.limits_eq, hxy ▸ heffect.steps,
      hxy ▸ heffect.exhausted⟩
  · exact hxy ▸ hok

/-- A program that comes out with new resources and the slots handed out for them. -/
theorem does_of_eq
    {x : Compile α} {c : Context} {P : α → List Event → Prop} {result : Except Fault α}
    {ws : List Warning} {ss : List Slot} {r : Resources} {es : List Event}
    (hx : x c = ⟨result, ws, ss, c.withResources r⟩)
    (hsteps : Steps c.mode c.limits es c.resources ss r)
    (hok : ∀ a, result = .ok a → P a es)
    (hfault : ∀ e, result = .error e → e = noSlot c.limits ∧ Slot.Exhausted c.limits r.free) :
  Does x c P
  := by
  refine ⟨es, ?_, ?_⟩
  · constructor
    · rw [hx]
      rfl
    · rw [hx]
      rfl
    · rw [hx]
      apply hsteps
    · rw [hx]
      intro groups bindings h
      apply hfault _ h
  · rw [hx]
    apply hok

theorem Quiet.does {x : Compile α} (hx : Quiet x) (c : Context) :
  Does x c fun _ es => es = []
  := by
  have hc := hx c
  refine ⟨[], ⟨hc.mode_eq, hc.limits_eq, ?_, ?_⟩, ?_⟩
  · rw [hc.taken_eq, hc.resources_eq]
    apply Steps.refl
  · intro groups bindings hfault
    cases hc.not_exhausted hfault
  · intro a _
    rfl

theorem does_pure {c : Context} {a : α} {P : α → List Event → Prop} (h : P a []) :
  Does (pure a) c P
  := by
  obtain ⟨es, heffect, hok⟩ := (quiet_pure a).does c
  use es, heffect
  intro a' ha'
  obtain rfl := Except.ok.inj ha'
  rw [hok _ rfl]
  apply h

theorem does_fail
    {c : Context} {e : Fault} (he : ∀ {groups bindings}, e ≠ .slotsExhausted groups bindings)
    (P : α → List Event → Prop) :
  Does (fail e) c P
  := by
  obtain ⟨es, heffect, -⟩ := (quiet_fail he).does c
  use es, heffect
  rintro a ⟨⟩

/-- The steps of a sequence are those of the first program, and then those of the second. -/
theorem Does.bind
    {x : Compile α} {f : α → Compile β} {c : Context} {P : α → List Event → Prop}
    {Q : β → List Event → Prop} (hx : Does x c P)
    (hf : ∀ a es, (x c).result = .ok a → P a es →
      Does (f a) (x c).context fun b es' => Q b (es ++ es')) :
  Does (x >>= f) c Q
  := by
  obtain ⟨es, heffect, hok⟩ := hx
  cases hr : (x c).result with
  | error e =>
    have hbind := bind_of_error (f := f) hr
    refine ⟨es, ⟨?_, ?_, ?_, ?_⟩, ?_⟩
    · rw [hbind]
      apply heffect.mode_eq
    · rw [hbind]
      apply heffect.limits_eq
    · rw [hbind]
      apply heffect.steps
    · rw [hbind]
      intro groups bindings hfault
      obtain rfl := Except.error.inj hfault
      apply heffect.exhausted hr
    · rw [hbind]
      rintro _ ⟨⟩
  | ok a =>
    have hbind := bind_of_ok (f := f) hr
    obtain ⟨es', heffect', hok'⟩ := hf a es hr (hok a hr)
    have hsteps := heffect'.steps
    have hexhausted := @heffect'.exhausted
    rw [heffect.limits_eq] at hsteps hexhausted
    rw [heffect.mode_eq] at hsteps
    refine ⟨es ++ es', ⟨?_, ?_, ?_, ?_⟩, ?_⟩
    · rw [hbind]
      apply heffect'.mode_eq.trans heffect.mode_eq
    · rw [hbind]
      apply heffect'.limits_eq.trans heffect.limits_eq
    · rw [hbind]
      apply heffect.steps.append hsteps
    · rw [hbind]
      apply hexhausted
    · rw [hbind]
      apply hok'

/-- A quiet program in front adds no steps. -/
theorem Quiet.bind_does
    {x : Compile α} {f : α → Compile β} {c : Context} {Q : β → List Event → Prop}
    (hx : Quiet x) (hf : ∀ a, Does (f a) (x c).context Q) :
  Does (x >>= f) c Q
  := by
  apply (hx.does c).bind
  rintro a es - rfl
  apply hf

/-- Giving back a value computed from another one adds no steps. -/
theorem Does.bind_pure
    {x : Compile α} {g : α → β} {c : Context} {Q : β → List Event → Prop}
    (hx : Does x c fun a es => Q (g a) es) :
  Does (x >>= fun a => pure (g a)) c Q
  := by
  apply hx.bind
  intro a es _ h
  apply does_pure
  rw [List.append_nil]
  apply h

/-- The steps of many programs are those of each of them in order. -/
theorem does_each
    {f : α → Compile β} {g : α → List Event} (as : List α)
    (hf : ∀ a ∈ as, ∀ c, Does (f a) c fun _ es => es = g a) (c : Context) :
  Does (each f as) c fun _ es => es = as.flatMap g
  := by
  induction as generalizing c with
  | nil => exact does_pure rfl
  | cons a as ih =>
    apply (hf a List.mem_cons_self c).bind
    rintro b es - rfl
    apply Does.bind_pure
    apply (ih (fun a ha => hf a (List.mem_cons_of_mem _ ha)) _).mono
    rintro bs es rfl
    rfl

end Compile

end ShaderPair
