import ShaderPair.Proofs.RegistryOrder

/-!
# The declarations of buffers

The declarations of buffers in a stage are annotated with slots.  A `BufferSite` is such a
declaration, with its slot and with the name under which the buffer is registered, and it is
`Registered` if the buffer has this slot.  Whatever happens afterwards, it stays so
(`Compile.Does.registered`).  The annotations of a stage, and the leftover buffer, are registered
(`Compile.registered_of_annotateBuffers`, `Compile.registered_of_buildLeftOver`).
-/

namespace ShaderPair

open OrderedMap (addKey)
open Resources (Event)

/-! ### Annotated texts -/

/-- The text of pieces in which each stretch that was found is annotated with a slot. -/
def Piece.annotate {α : Type} : List (Piece α) → List Slot → Text
  | [], _ => []
  | plain ch :: pieces, slots => ch :: annotate pieces slots
  | found t _ :: pieces, [] => t ++ annotate pieces []
  | found t _ :: pieces, slot :: slots => slot.annotation ++ t ++ annotate pieces slots

/-- Pieces with as many slots as stretches that were found are annotated apart from the rest. -/
theorem Piece.annotate_append
    {α : Type} {above : List (Piece α)} {slots : List Slot}
    (h : slots.length = (values above).length) (below : List (Piece α)) (slots' : List Slot) :
  annotate (above ++ below) (slots ++ slots') = annotate above slots ++ annotate below slots'
  := by
  induction above generalizing slots with
  | nil =>
    obtain rfl := List.eq_nil_of_length_eq_zero h
    rfl
  | cons piece above ih =>
    cases piece with
    | plain ch => rw [List.cons_append, annotate, annotate, ih h, List.cons_append]
    | found t a =>
      cases slots with
      | nil => cases h
      | cons slot slots =>
        simp only [List.cons_append, annotate, ih (Nat.succ.inj h), List.append_assoc]

/-- A text in which the declarations of buffers are annotated with slots. -/
def annotateForms (code : Text) (slots : List Slot) : Text :=
  Piece.annotate (Piece.ofText (fun _ => BufferForm.pattern) code) slots

namespace Compile

/-- To annotate the stretches that were found is to find the slots first. -/
theorem annotateEach_eq {α : Type} (f : α → Compile Slot) (pieces : List (Piece α)) :
  annotateEach f pieces
    = (do
      let slots ← each f (Piece.values pieces)
      return Piece.annotate pieces slots)
  := by
  induction pieces with
  | nil => rfl
  | cons piece pieces ih =>
    have hcons : annotateEach f (piece :: pieces)
        = (do
          let text ← annotatePiece f piece
          let rest ← annotateEach f pieces
          return text ++ rest) := by
      simp only [annotateEach, each, bind_assoc, pure_bind, List.flatten_cons]
    rw [hcons, ih]
    cases piece with
    | plain ch =>
      simp only [annotatePiece, Piece.values, Piece.annotate, List.flatMap_cons, List.nil_append,
        bind_assoc, pure_bind, List.singleton_append]
    | found t a =>
      simp only [annotatePiece, Piece.values, Piece.annotate, each, List.flatMap_cons,
        List.singleton_append, bind_assoc, pure_bind, List.append_assoc]

end Compile

/-! ### Sites -/

/-- A declaration of a buffer, with the name under which the buffer is registered and the slot
that the declaration is annotated with. -/
structure BufferSite where
  /-- The declaration. -/
  form : BufferForm
  /-- The name under which the buffer is registered. -/
  key : Text
  /-- The slot. -/
  slot : Slot

/-- The slot of a declaration is that of the buffer registered under its key, which is the name of
the variable or, for a buffer of the engine, that of the struct. -/
structure BufferSite.Registered (buffers : OrderedMap Text Buffer) (x : BufferSite) : Prop where
  /-- The slot is that of the registered buffer. -/
  find? : ∃ b, buffers.find? x.key = some b ∧ b.slot = x.slot
  /-- The key is the name of the variable or that of the struct. -/
  key_cases : x.key = x.form.name ∨ x.form.isEngineBuffer ∧ x.key = x.form.struct

namespace Compile

theorem Does.registered
    {α : Type} {p : Compile α} {c : Context} {P : α → List Event → Prop} (hp : Does p c P)
    {x : BufferSite} (hx : x.Registered c.resources.buffers) :
  x.Registered (p c).context.resources.buffers
  := by
  obtain ⟨es, heffect, -⟩ := hp
  obtain ⟨⟨b, hb, hslot⟩, hkey⟩ := hx
  refine ⟨⟨b, ?_, hslot⟩, hkey⟩
  apply heffect.steps.preserves (P := fun r => r.buffers.find? x.key = some b) _ hb
  intro _ _ _ _ hstep
  apply hstep.find?_buffers

theorem find?_of_registeredBuffer
    {key : Text} {form : BufferForm} {b : Buffer} {c : Context}
    (h : (registeredBuffer key form c).result = .ok b) :
  (registeredBuffer key form c).context.resources.buffers.find? key = some b
  := by
  rw [registeredBuffer, context_bind] at h ⊢
  cases hfind : c.resources.buffers.find? key with
  | some b' =>
    rw [hfind] at h
    obtain rfl := Except.ok.inj h
    apply hfind
  | none =>
    rw [hfind] at h
    dsimp only at h ⊢
    obtain ⟨slot, hslot, h⟩ := ok_of_bind h
    rw [update_bind] at h
    obtain rfl := Except.ok.inj h
    rw [bind_of_ok hslot, update_bind]
    apply OrderedMap.find?_insert_self

/-- The slot that a declaration of a buffer gets is that of the buffer registered under its
key. -/
theorem registered_of_declareBuffer
    {stage : Stage} {form : BufferForm} {slot : Slot} {c : Context}
    (h : (declareBuffer stage form c).result = .ok slot) :
  BufferSite.Registered (declareBuffer stage form c).context.resources.buffers
    ⟨form, form.keyAmong c.resources.buffers.keys, slot⟩
  := by
  apply BufferSite.Registered.mk _ (form.keyAmong_cases _)
  rw [← BufferForm.key_eq_keyAmong]
  rw [declareBuffer, context_bind] at h ⊢
  obtain ⟨b, hb, h⟩ := ok_of_bind h
  rw [describe, update_bind] at h
  obtain rfl := Except.ok.inj h
  rw [bind_of_ok hb, describe, update_bind]
  use b, find?_of_registeredBuffer hb

theorem keys_of_declareBuffer
    {stage : Stage} {form : BufferForm} {slot : Slot} {c : Context}
    (h : (declareBuffer stage form c).result = .ok slot) :
  (declareBuffer stage form c).context.resources.buffers.keys
    = addKey c.resources.buffers.keys (form.keyAmong c.resources.buffers.keys)
  := by
  obtain ⟨es, heffect, hok⟩ := does_declareBuffer stage form c
  obtain rfl := hok slot h
  apply heffect.steps.keys_buffers

theorem does_each_declareBuffer (stage : Stage) (forms : List BufferForm) (c : Context) :
  Does (each (declareBuffer stage) forms) c fun _ es => es = forms.flatMap fun f => [.buffer stage f]
  := by
  apply does_each
  intro form _ c
  apply does_declareBuffer

/-- Declarations get the slots of the buffers registered under their keys, one after the
other. -/
theorem registered_of_each
    {stage : Stage} {forms : List BufferForm} {slots : List Slot} {c : Context}
    (h : (each (declareBuffer stage) forms c).result = .ok slots) :
  let buffers := (each (declareBuffer stage) forms c).context.resources.buffers
  ∃ xs : List BufferSite, xs.map BufferSite.form = forms ∧ xs.map BufferSite.slot = slots ∧
    xs.map BufferSite.key = BufferForm.keysFrom c.resources.buffers.keys forms ∧
    buffers.keys = (xs.map BufferSite.key).foldl addKey c.resources.buffers.keys ∧
    ∀ x ∈ xs, x.Registered buffers
  := by
  induction forms generalizing slots c with
  | nil =>
    obtain rfl := Except.ok.inj h
    use [], rfl, rfl, rfl, rfl
    rintro x ⟨⟩
  | cons form forms ih =>
    obtain ⟨slot, hslot, h⟩ := ok_of_bind h
    obtain ⟨rest, hrest, h⟩ := ok_of_bind h
    obtain rfl := Except.ok.inj h
    obtain ⟨xs, hforms, hslots, hkeys, hbuffers, hxs⟩ := ih hrest
    have hcontext : (each (declareBuffer stage) (form :: forms) c).context
        = (each (declareBuffer stage) forms (declareBuffer stage form c).context).context := by
      rw [each, bind_of_ok hslot, bind_of_ok hrest]
      rfl
    have hfirst := registered_of_declareBuffer hslot
    rw [keys_of_declareBuffer hslot] at hkeys hbuffers
    dsimp only at hbuffers hxs ⊢
    rw [hcontext]
    refine ⟨⟨form, form.keyAmong c.resources.buffers.keys, slot⟩ :: xs, ?_, ?_, ?_, hbuffers, ?_⟩
    · rw [List.map_cons, hforms]
    · rw [List.map_cons, hslots]
    · rw [List.map_cons, hkeys, BufferForm.keysFrom]
    · rw [List.forall_mem_cons]
      use (does_each_declareBuffer stage forms _).registered hfirst

/-- Annotated declarations have the slots of the buffers registered under their keys. -/
theorem registered_of_annotateBuffers
    {stage : Stage} {code text : Text} {c : Context}
    (h : (annotateBuffers stage code c).result = .ok text) :
  let buffers := (annotateBuffers stage code c).context.resources.buffers
  ∃ xs : List BufferSite, xs.map BufferSite.form = bufferForms code ∧
    text = annotateForms code (xs.map BufferSite.slot) ∧
    xs.map BufferSite.key = BufferForm.keysFrom c.resources.buffers.keys (bufferForms code) ∧
    buffers.keys = (xs.map BufferSite.key).foldl addKey c.resources.buffers.keys ∧
    ∀ x ∈ xs, x.Registered buffers
  := by
  rw [annotateBuffers, annotateEach_eq] at h ⊢
  obtain ⟨slots, hslots, h⟩ := ok_of_bind h
  obtain rfl := Except.ok.inj h
  rw [bind_of_ok hslots]
  obtain ⟨xs, hforms, rfl, hkeys⟩ := registered_of_each hslots
  exact ⟨xs, hforms, rfl, hkeys⟩

/-- The leftover buffer has the slot registered under its name. -/
theorem registered_of_leftOverSlot
    {slot : Slot} {c : Context} (h : (leftOverSlot c).result = .ok slot) :
  BufferSite.Registered (leftOverSlot c).context.resources.buffers
    ⟨LeftOver.form, LeftOver.name, slot⟩
  := by
  apply BufferSite.Registered.mk _ (Or.inl rfl)
  rw [leftOverSlot, context_bind] at h ⊢
  cases hfind : c.resources.buffers.find? LeftOver.name with
  | some b =>
    rw [hfind] at h
    obtain rfl := Except.ok.inj h
    exact ⟨b, hfind, rfl⟩
  | none =>
    rw [hfind] at h
    dsimp only at h ⊢
    obtain ⟨slot', hslot', h⟩ := ok_of_bind h
    rw [update_bind, describe, update_bind, describe, update_bind] at h
    obtain rfl := Except.ok.inj h
    rw [bind_of_ok hslot', update_bind, describe, update_bind, describe, update_bind]
    exact ⟨_, OrderedMap.find?_insert_self _ _ _, rfl⟩

/-- The leftover buffer is built with the slot registered under its name, if it is built. -/
theorem registered_of_buildLeftOver
    {text : Text} {c : Context} (h : (buildLeftOver c).result = .ok text) :
  text = [] ∨ ∃ slot us, text = LeftOver.code slot us ∧
    BufferSite.Registered (buildLeftOver c).context.resources.buffers
      ⟨LeftOver.form, LeftOver.name, slot⟩
  := by
  rw [buildLeftOver, context_bind] at h ⊢
  by_cases hempty : c.uniforms.isEmpty
  · left
    rw [if_pos hempty] at h
    apply (Except.ok.inj h).symm
  · right
    rw [if_neg hempty] at h ⊢
    obtain ⟨slot, hslot, h⟩ := ok_of_bind h
    rw [update_bind] at h
    obtain rfl := Except.ok.inj h
    rw [bind_of_ok hslot, update_bind]
    exact ⟨slot, _, rfl, registered_of_leftOverSlot hslot⟩

end Compile

end ShaderPair
