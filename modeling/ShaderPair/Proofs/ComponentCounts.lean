import ShaderPair.Proofs.ContextFrame

/-!
# Component counts from one pair to the next

The component counts that a pair brings with it are dropped when the pair is finished, but they
stay if its compilation fails (`Operation.countsLeft`, `Session.countsLeft`).  A pair without counts
of its own is compiled with those that are left: its attributes are converted that are named in
them, and no other ones (`attributes_counted`).
-/

namespace ShaderPair

namespace Compile

/-- A pair without counts of its own is compiled with those of the context. -/
theorem pair_with_components
    {next : SourcePair} {c : Context} (hnext : next.components = none) :
  pair next c = pair { next with components := some c.components } c
  := by
  have hdeclared : declareStages next c
      = declareStages { next with components := some c.components } c := by
    rw [declareStages, declareStages, hnext]
    rfl
  simp only [pair, bind, hdeclared]

end Compile

namespace Session

/-- What a compilation leaves at the end of a session. -/
theorem countsLeft_concat_pair
    (c : Context) (counts : OrderedMap Text Int) (ops : List Operation) (last : SourcePair) :
  countsLeft c counts (ops ++ [.pair last])
    = if (Compile.pair last (c.after ops)).result.isOk then ∅
      else last.components.getD (countsLeft c counts ops)
  := by
  induction ops generalizing c counts with
  | nil =>
    rw [List.nil_append, countsLeft, countsLeft, Operation.countsLeft, Operation.run,
      Operation.isOk_ignore]
    rfl
  | cons op ops ih => apply ih

end Session

/-- In every context that can be reached, a pair without counts of its own is compiled with the
counts that the session has left; these are none if the session ended with a successful compilation,
and otherwise those of the pair that failed.  Each attribute that it enters, whether or not it
succeeds, has the components counted for its name.  So no attribute is converted exactly if none is
named in the counts. -/
theorem attributes_counted
    (mode : Mode) (limits : Limits) (components : OrderedMap Text Int) (ops : List Operation)
    {next : SourcePair} (hnext : next.components = none) :
  let fresh := Context.fresh mode limits components
  let c := fresh.after ops
  let counts := Session.countsLeft fresh components ops
  let entered := (Compile.declareStages next c).context.interface.declarations.attributes
  (∀ ops' last, ops = ops' ++ [.pair last] →
    counts = if (Compile.pair last (fresh.after ops')).result.isOk then ∅
      else last.components.getD (Session.countsLeft fresh components ops')) ∧
  c.components = counts ∧
  Compile.pair next c = Compile.pair { next with components := some counts } c ∧
  (∀ a ∈ entered, a.components = counts.find? a.name) ∧
  ((∀ a ∈ entered, a.isConverted = false) ↔ ∀ a ∈ entered, counts.find? a.name = none)
  := by
  intro fresh c counts entered
  have hcounts : c.components = counts := Session.components_after fresh ops
  have hfollows := Compile.follows_declareStages next c
  have hentered : ∀ a ∈ entered, a.components = counts.find? a.name := by
    have hstart : (c.start next).components = counts := by
      rw [Context.start, hnext]
      exact hcounts
    rw [← hstart, ← hfollows.components_eq]
    apply hfollows.counted
    rintro a ⟨⟩
  refine ⟨?_, hcounts, ?_, hentered, ?_⟩
  · rintro ops' last rfl
    apply Session.countsLeft_concat_pair
  · rw [← hcounts]
    apply Compile.pair_with_components hnext
  · apply forall₂_congr
    intro a ha
    rw [Attribute.isConverted, hentered a ha, Option.isSome_eq_false_iff, Option.isNone_iff_eq_none]

/-- A pair with counts that declares a texture with an unknown function. -/
def untextured : SourcePair where
  vertex := "var t : texture_x;"
  fragment := []
  components := some (.ofList [("p", 2)])

/-- A pair with an attribute and without counts. -/
def uncounted : SourcePair where
  vertex := "attribute p : vec2<f32>;"
  fragment := []

/-- Behind a compilation that succeeds, nothing is left of the counts. -/
theorem attributes_counted_uncounted :
  let fresh := Context.fresh .pure {} ∅
  let c := fresh.after [.pair untextured, .pair uncounted]
  uncounted.components = none ∧
    (Compile.pair untextured fresh).result.isOk = false ∧
    Compile.pair uncounted c = Compile.pair { uncounted with components := some ∅ } c ∧
    ∀ a ∈ (Compile.declareStages uncounted c).context.interface.declarations.attributes,
      a.isConverted = false
  := by
  intro fresh c
  obtain ⟨-, -, hpair, -, hconverted⟩ :=
    attributes_counted .pure {} ∅ [.pair untextured, .pair uncounted]
      (show uncounted.components = none from rfl)
  have hcounts : Session.countsLeft fresh ∅ [.pair untextured, .pair uncounted] = ∅ := by
    decide +kernel
  rw [hcounts] at hpair hconverted
  refine ⟨rfl, by decide +kernel, hpair, hconverted.mpr ?_⟩
  intro a _
  rfl

/-- Behind a compilation that fails, its counts are still there: an attribute of the next pair is
converted, as it would not be without counts. -/
theorem not_dropped_untextured :
  let fresh := Context.fresh .pure {} ∅
  let c := fresh.after [.pair untextured]
  (Compile.pair untextured fresh).result
      = .error (.unknownTextureFunction "texture_x" "var t : texture_x;") ∧
    (∃ a ∈ (Compile.declareStages uncounted c).context.interface.declarations.attributes,
      a.isConverted) ∧
    (Compile.pair uncounted c).result.isOk ∧
    (Compile.pair uncounted c).result
      ≠ (Compile.pair { uncounted with components := some ∅ } c).result
  := by
  intro fresh c
  refine ⟨by decide +kernel, ?_, by decide +kernel, by decide +kernel⟩
  use ⟨0, "p", "vec2<f32>", some 2⟩
  decide +kernel

end ShaderPair
