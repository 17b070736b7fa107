import ShaderPair.Proofs.ContextRelations
import ShaderPair.Proofs.Session

/-!
# What programs leave of a context

Whether or not they succeed, the programs of a compilation keep the component counts, they keep the
plain uniforms apart by name, and the attributes that they enter have the components that are
counted for them (`Context.Follows`).  A compilation of a pair starts with the
counts of the pair, and where it ends well it drops them (`Compile.finishes_pair`).  So it can be
told which counts a session leaves (`Session.components_after`), and the plain uniforms of a context
are apart by name after every session (`Session.namesNodup_after`).
-/

namespace ShaderPair

namespace Context

/-- The attributes entered have the components counted for them. -/
def Counted (c : Context) : Prop :=
  ∀ a ∈ c.interface.declarations.attributes, a.components = c.components.find? a.name

/-- The plain uniforms have different names. -/
def NamesNodup (c : Context) : Prop := (c.uniforms.map Uniform.name).Nodup

theorem namesNodup_fresh (mode : Mode) (limits : Limits) (components : OrderedMap Text Int) :
  (fresh mode limits components).NamesNodup
  := List.nodup_nil

/-- The second context has the counts of the first and comes from it in order. -/
structure Follows (c c' : Context) : Prop where
  components_eq : c'.components = c.components
  counted : c.Counted → c'.Counted
  namesNodup : c.NamesNodup → c'.NamesNodup

namespace Follows

theorem refl (c : Context) :
  Follows c c
  := ⟨rfl, id, id⟩

theorem trans {c c' c'' : Context} (h : Follows c c') (h' : Follows c' c'') :
  Follows c c''
  := ⟨h'.components_eq.trans h.components_eq, h'.counted ∘ h.counted, h'.namesNodup ∘ h.namesNodup⟩

/-- Resources are of no importance. -/
theorem withResources (c : Context) (r : Resources) :
  Follows c (c.withResources r)
  := ⟨rfl, id, id⟩

end Follows

theorem frame_follows :
  Frame Follows
  where
  refl := Follows.refl
  trans := Follows.trans
  ofResources := Follows.withResources
  ofInterface c i hi := by
    refine ⟨rfl, ?_, id⟩
    intro hcounted a ha
    apply hcounted a
    rwa [← hi]
  ofAttribute c i a ha hi := by
    refine ⟨rfl, ?_, id⟩
    intro hcounted a' ha'
    change a' ∈ i.declarations.attributes at ha'
    rw [hi, List.mem_append, List.mem_singleton] at ha'
    rcases ha' with ha' | rfl
    · exact hcounted a' ha'
    · exact ha

theorem allows_follows (form : VariableForm) :
  Allows Follows form
  := by
  intro c type length hnew
  refine ⟨rfl, id, ?_⟩
  intro hnodup
  rw [NamesNodup, List.map_append]
  apply hnodup.append (List.nodup_singleton _)
  intro name hname hname'
  rw [List.mem_singleton.mp hname'] at hname
  exact hnew hname

end Context

namespace Compile

open Context

variable {α : Type}

/-- From a context that follows the first one, a program stops on the way or drops the counts in the
end. -/
def Finishes (x : Compile α) (first c : Context) : Prop :=
  ∃ c' : Context, first.Follows c' ∧
    ((∃ fault, (x c).result = .error fault) ∧ (x c).context = c' ∨
      (∃ a, (x c).result = .ok a) ∧
        (x c).context = c'.collectNames.collectPlaceholders.clear)

theorem finishes_finish (texts : StageTexts) (c : Context) :
  Finishes (finish texts) c c
  := by
  refine ⟨_, frame_follows.along_annotate texts c, ?_⟩
  rw [finish_eq]
  cases hresult : (annotate texts c).result with
  | error fault =>
    left
    rw [bind_of_error hresult]
    exact ⟨⟨fault, rfl⟩, rfl⟩
  | ok annotated =>
    right
    rw [bind_of_ok hresult]
    exact ⟨⟨_, rfl⟩, rfl⟩

/-- The lines of a pair are gone through with the counts of the pair. -/
theorem follows_declareStages (source : SourcePair) (c : Context) :
  (c.start source).Follows (declareStages source c).context
  := frame_follows.declareStages (fun _ form _ => allows_follows form) source c

/-- A compilation of a pair starts with the counts of the pair. -/
theorem finishes_pair (source : SourcePair) (c : Context) :
  Finishes (pair source) (c.start source) c
  := by
  have hstart := follows_declareStages source c
  rw [Finishes, pair]
  cases hresult : (declareStages source c).result with
  | error fault =>
    refine ⟨_, hstart, ?_⟩
    left
    rw [bind_of_error hresult]
    exact ⟨⟨fault, rfl⟩, rfl⟩
  | ok texts =>
    obtain ⟨c', hfollows, hcases⟩ := finishes_finish texts (declareStages source c).context
    refine ⟨c', hstart.trans hfollows, ?_⟩
    rw [bind_of_ok hresult]
    exact hcases

end Compile

/-! ### Sessions -/

namespace Operation

open Compile

/-- The counts after an operation, if it ends well or not: what a pair brings with it stays if it
is not finished. -/
def countsLeft (well : Bool) (counts : OrderedMap Text Int) : Operation → OrderedMap Text Int
  | clear => ∅
  | finish _ => if well then ∅ else counts
  | pair source => if well then ∅ else source.components.getD counts
  | _ => counts

theorem isOk_ignore {α : Type} (x : Compile α) (c : Context) :
  (ignore x c).result.isOk = (x c).result.isOk
  := by
  rw [ignore]
  cases hx : (x c).result with
  | error e =>
    rw [bind_of_error hx]
    rfl
  | ok a =>
    rw [bind_of_ok hx]
    rfl

/-- What is left by an operation that finishes a pair. -/
theorem finishes_frame {α : Type} {x : Compile α} {first c : Context} (h : Finishes x first c) :
  (ignore x c).context.components
      = (if (ignore x c).result.isOk then ∅ else first.components) ∧
    (first.NamesNodup → (ignore x c).context.NamesNodup)
  := by
  rw [context_ignore, isOk_ignore]
  obtain ⟨c', hfollows, ⟨⟨_, hresult⟩, hcontext⟩ | ⟨⟨_, hresult⟩, hcontext⟩⟩ := h
  · rw [hresult, hcontext]
    exact ⟨hfollows.components_eq, hfollows.namesNodup⟩
  · rw [hresult, hcontext]
    exact ⟨rfl, hfollows.namesNodup⟩

/-- An operation leaves the counts as it says, and it keeps the plain uniforms apart by name. -/
theorem run_frame (op : Operation) (c : Context) :
  (op.run c).context.components = op.countsLeft (op.run c).result.isOk c.components ∧
    (c.NamesNodup → (op.run c).context.NamesNodup)
  := by
  have hlines : ∀ line form, Declaration.ofLine? line = some (.uniform form) →
      Context.Allows Context.Follows form :=
    fun _ form _ => Context.allows_follows form
  have frame := Context.frame_follows
  have hignored {α : Type} {x : Compile α} (hx : Along Context.Follows x) :
      (ignore x c).context.components = c.components ∧
        (c.NamesNodup → (ignore x c).context.NamesNodup) := by
    rw [context_ignore]
    exact ⟨(hx c).components_eq, (hx c).namesNodup⟩
  cases op with
  | takeSlot => apply hignored (frame.along_of_sparing sparing_takeSlot)
  | takeLocation kind type length => apply hignored (frame.along_takeLocations _ _ _)
  | declare constants stage line d =>
    apply hignored (frame.along_declare _ (fun form _ => Context.allows_follows form) _ _)
  | processLine constants stage line =>
    apply hignored (frame.along_processLine _ hlines _ _)
  | processStage constants stage code =>
    apply hignored (frame.along_processStage _ hlines _ _)
  | declareUniform constants form =>
    have hfollows := frame.along_declareUniform constants (Context.allows_follows form) c
    exact ⟨hfollows.components_eq, hfollows.namesNodup⟩
  | annotateSamplers stage code =>
    apply hignored (frame.along_of_sparing (sparing_annotateSamplers _ _))
  | annotateBuffers stage code =>
    apply hignored (frame.along_of_sparing (sparing_annotateBuffers _ _))
  | buildLeftOver => apply hignored frame.along_buildLeftOver
  | begin => exact ⟨rfl, id⟩
  | clear => exact ⟨rfl, id⟩
  | collectNames => exact ⟨rfl, id⟩
  | collectPlaceholders => exact ⟨rfl, id⟩
  | noteSettings mode bindingsPerGroup =>
    change (Compile.noteSettings _ _ c).context.components = c.components ∧ _
    rw [run, noteSettings_apply]
    exact ⟨rfl, id⟩
  | finish texts => apply finishes_frame (finishes_finish texts c)
  | pair source => apply finishes_frame (finishes_pair source c)

end Operation

namespace Session

/-- The counts that a session leaves, if it began with some counts. -/
def countsLeft (c : Context) (counts : OrderedMap Text Int) :
    List Operation → OrderedMap Text Int
  | [] => counts
  | op :: ops =>
    countsLeft (op.run c).context (op.countsLeft (op.run c).result.isOk counts) ops

/-- A session leaves the counts that its operations leave. -/
theorem components_after (c : Context) (ops : List Operation) :
  (c.after ops).components = countsLeft c c.components ops
  := by
  induction ops generalizing c with
  | nil => rfl
  | cons op ops ih => rw [Context.after, ih, (op.run_frame c).1, countsLeft]

/-- The plain uniforms of a context are apart by name after every session. -/
theorem namesNodup_after {c : Context} (hc : c.NamesNodup) (ops : List Operation) :
  (c.after ops).NamesNodup
  := by
  induction ops generalizing c with
  | nil => exact hc
  | cons op ops ih => apply ih ((op.run_frame c).2 hc)

end Session

end ShaderPair
