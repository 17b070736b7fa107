import ShaderPair.Proofs.ContextFrame
import ShaderPair.Proofs.DirectiveSearch
import ShaderPair.Proofs.LeftOverFields

/-!
# Names of plain uniforms

What holds of everything that a pattern recognises (`Pattern.Gives`) goes through the composition of
patterns.  So a plain uniform that is declared in a line has an identifier for its name
(`Declaration.isIdentifier_of_uniform?`), and after any session all plain uniforms of a context have
identifiers for names (`Session.named_after`), unless one is entered under another name directly.
-/

namespace ShaderPair

open Text (IsIdentifier)

/-! ### Declarations -/

namespace Pattern

variable {α β : Type} {p : Pattern α} {f : α → Pattern β} {P : β → Prop} {Q : α → Prop} {t : Text}

/-- All that a pattern recognises, wherever it is applied, has a property. -/
def Gives (p : Pattern α) (Q : α → Prop) : Prop := ∀ t, ∀ way ∈ p t, Q way.1

theorem gives_pure {a : α} (ha : Q a) :
  Gives (pure a) Q
  := by
  intro t way hway
  rw [List.mem_singleton.mp hway]
  apply ha

theorem gives_all1 (c : Char → Bool) :
  Gives (all1 c) fun w => w ≠ [] ∧ ∀ x ∈ w, c x
  := by
  intro t way hway
  obtain ⟨hne, hall, -⟩ := Define.eq_of_mem_all1 hway
  exact ⟨hne, hall⟩

theorem Gives.bind (hp : Gives p Q) (hf : ∀ a, Q a → Gives (f a) P) :
  Gives (p >>= f) P
  := by
  intro t way hway
  obtain ⟨first, hfirst, hway⟩ := mem_bind_iff.mp hway
  apply hf _ (hp t first hfirst) _ way hway

/-- What a composition recognises may have the property whatever its first part recognises. -/
theorem gives_bind (hf : ∀ a, Gives (f a) P) :
  Gives (p >>= f) P
  := by
  have hp : Gives p fun _ => True := fun _ _ _ => trivial
  exact hp.bind fun a _ => hf a

theorem Gives.once (hp : Gives p Q) :
  Gives (once p) Q
  := by
  intro t way hway
  apply hp t way (List.mem_of_mem_head? (Option.mem_toList.mp hway))

/-- What is found somewhere in a text has the property. -/
theorem Gives.of_find? (hp : Gives p Q) {a : α} (h : find? p t = some a) :
  Q a
  := by
  obtain ⟨s, -, rest, hfirst⟩ := Define.exists_first?_of_find? h
  apply hp s (a, rest) (List.mem_of_mem_head? hfirst)

end Pattern

namespace Declaration

open Pattern

/-- The name that is read for a plain uniform is an identifier. -/
theorem gives_uniformPattern :
  Gives uniformPattern fun form => IsIdentifier form.name
  := by
  refine gives_bind fun _ => gives_bind fun _ => (gives_all1 _).bind fun name hname => ?_
  exact gives_bind fun _ => gives_bind fun _ => gives_bind fun _ => gives_pure hname

/-- The name of a plain uniform that is declared in a text is an identifier. -/
theorem isIdentifier_of_uniform? {t : Text} {form : VariableForm} (h : uniform? t = some form) :
  IsIdentifier form.name
  := gives_uniformPattern.of_find? h

end Declaration

/-- What a line declares is found in it by the pattern for its kind. -/
theorem Declaration.found_of_ofLine?
    {line : Text} {d : Declaration} (h : ofLine? line = some d) :
  match d with
  | .attribute form => attribute? (Text.trim line) = some form
  | .varying form => varying? (Text.trim line) = some form
  | .uniform form => uniform? (Text.trim line) = some form
  | .texture form => texture? (Text.trim line) = some form
  := by
  rw [ofLine?] at h
  split at h
  · obtain ⟨form, hform, rfl⟩ := Option.map_eq_some_iff.mp h
    exact hform
  · split at h
    · obtain ⟨form, hform, rfl⟩ := Option.map_eq_some_iff.mp h
      exact hform
    · rcases Option.or_eq_some_iff.mp h with h | ⟨-, h⟩
      · obtain ⟨form, hform, rfl⟩ := Option.map_eq_some_iff.mp h
        exact hform
      · obtain ⟨form, hform, rfl⟩ := Option.map_eq_some_iff.mp h
        exact hform

/-- The plain uniforms of a pair have identifiers for names. -/
theorem SourcePair.isIdentifier_of_mem_uniforms
    {source : SourcePair} {mode : Mode} {u : Uniform} (hu : u ∈ source.uniforms mode) :
  IsIdentifier u.name
  := by
  have hstage : ∀ constants stage code,
      u ∈ (Entry.ofStage constants stage code).filterMap Entry.uniform? → IsIdentifier u.name := by
    intro constants stage code hu
    obtain ⟨entry, hentry, huniform⟩ := List.mem_filterMap.mp hu
    obtain ⟨line, -, hline⟩ := List.mem_flatMap.mp hentry
    obtain ⟨hline, -⟩ := Entry.of_ofLine?_eq_some (Option.mem_toList.mp hline)
    cases entry with
    | uniform form e =>
      obtain rfl := Option.some_inj.mp huniform
      exact Declaration.isIdentifier_of_uniform? (Declaration.found_of_ofLine? hline)
    | «attribute» | varying | lookUp | texture => cases huniform
  rw [uniforms, entries, List.filterMap_append, List.mem_append] at hu
  rcases hu with hu | hu <;> apply hstage _ _ _ hu

/-! ### Contexts -/

namespace Context

/-- The plain uniforms have identifiers for names. -/
def Named (c : Context) : Prop := ∀ u ∈ c.uniforms, IsIdentifier u.name

theorem named_fresh (mode : Mode) (limits : Limits) (components : OrderedMap Text Int) :
  (fresh mode limits components).Named
  := fun _ hu => absurd hu List.not_mem_nil

/-- The second context has plain uniforms with identifiers for names, if the first one does. -/
def KeepsNamed (c c' : Context) : Prop := c.Named → c'.Named

theorem frame_keepsNamed :
  Frame KeepsNamed
  where
  refl _ := id
  trans h h' := h' ∘ h
  ofResources _ _ := id
  ofInterface _ _ _ := id
  ofAttribute _ _ _ _ _ := id

theorem allows_keepsNamed {form : VariableForm} (h : IsIdentifier form.name) :
  Allows KeepsNamed form
  := by
  intro c type length _ hc u hu
  rcases List.mem_append.mp hu with hu | hu
  · exact hc u hu
  · rw [List.mem_singleton.mp hu]
    exact h

end Context

/-! ### Sessions -/

open Context (KeepsNamed frame_keepsNamed allows_keepsNamed)

theorem Declaration.allows_keepsNamed
    {line : Text} {form : VariableForm} (h : ofLine? line = some (.uniform form)) :
  Context.Allows KeepsNamed form
  := Context.allows_keepsNamed (isIdentifier_of_uniform? (found_of_ofLine? h))

namespace Operation

open Compile

/-- A plain uniform that is entered directly has an identifier for its name. -/
def Named : Operation → Prop
  | declare _ _ _ d => ∀ form, d = .uniform form → IsIdentifier form.name
  | declareUniform _ form => IsIdentifier form.name
  | _ => True

theorem along_finish (texts : StageTexts) :
  Along KeepsNamed (Compile.finish texts)
  := by
  rw [finish_eq]
  apply frame_keepsNamed.along_bind (frame_keepsNamed.along_annotate texts)
  intro annotated c
  exact id

theorem along_pair (source : SourcePair) :
  Along KeepsNamed (Compile.pair source)
  := by
  apply frame_keepsNamed.along_bind
  · intro c
    exact frame_keepsNamed.declareStages (fun _ _ => Declaration.allows_keepsNamed) source c
  · apply along_finish

theorem keepsNamed_run {op : Operation} (hop : op.Named) (c : Context) :
  c.KeepsNamed (op.run c).context
  := by
  have hlines : ∀ line form, Declaration.ofLine? line = some (.uniform form) →
      Context.Allows KeepsNamed form :=
    fun _ _ => Declaration.allows_keepsNamed
  have frame := frame_keepsNamed
  have hignored {α : Type} {x : Compile α} (hx : Along KeepsNamed x) :
      c.KeepsNamed (ignore x c).context := by
    rw [context_ignore]
    apply hx
  cases op with
  | takeSlot => apply hignored (frame.along_of_sparing sparing_takeSlot)
  | takeLocation kind type length => apply hignored (frame.along_takeLocations _ _ _)
  | declare constants stage line d =>
    apply hignored (frame.along_declare _ (fun form hd => allows_keepsNamed (hop form hd)) _ _)
  | processLine constants stage line => apply hignored (frame.along_processLine _ hlines _ _)
  | processStage constants stage code => apply hignored (frame.along_processStage _ hlines _ _)
  | declareUniform constants form =>
    apply frame.along_declareUniform constants (allows_keepsNamed hop)
  | annotateSamplers stage code =>
    apply hignored (frame.along_of_sparing (sparing_annotateSamplers _ _))
  | annotateBuffers stage code =>
    apply hignored (frame.along_of_sparing (sparing_annotateBuffers _ _))
  | buildLeftOver => apply hignored frame.along_buildLeftOver
  | begin => exact id
  | clear => exact id
  | collectNames => exact id
  | collectPlaceholders => exact id
  | noteSettings mode bindingsPerGroup =>
    rw [run, noteSettings_apply]
    exact id
  | finish texts => apply hignored (along_finish texts)
  | pair source => apply hignored (along_pair source)

end Operation

/-- In a session, the plain uniforms keep identifiers for names. -/
theorem Session.named_after
    {c : Context} (hc : c.Named) {ops : List Operation} (hops : ∀ op ∈ ops, op.Named) :
  (c.after ops).Named
  := by
  induction ops generalizing c with
  | nil => exact hc
  | cons op ops ih =>
    obtain ⟨hop, hops⟩ := List.forall_mem_cons.mp hops
    apply ih (Operation.keepsNamed_run hop c hc) hops

end ShaderPair
