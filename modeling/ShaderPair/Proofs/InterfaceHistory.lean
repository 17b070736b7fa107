import ShaderPair.Proofs.Entries
import ShaderPair.Proofs.Session

/-!
# The interface of a pair and the history of its context

Two contexts that agree on the component counts and on the interface still do after the same
entries, and the warnings are the same (`Context.Alike.enterAll`).  A compilation starts with an
empty interface.  So the attributes and varyings of a pair that has its own component counts, their
locations, the structs for them and all warnings are the same in every context with the same mode
and limits, whatever happened in it before (`interface_eq_fresh`).
-/

namespace ShaderPair

/-! ### Contexts that agree on the interface -/

namespace Context

/-- Contexts with the same component counts and the same interface. -/
structure Alike (c c' : Context) : Prop where
  components_eq : c.components = c'.components
  interface_eq : c.interface = c'.interface

namespace Alike

variable {c c' : Context}

/-- An entry makes the same of the same interface. -/
theorem enter (h : Alike c c') (e : Entry) :
  Alike (c.enter e) (c'.enter e)
  := by
  obtain ⟨hcomponents, hinterface⟩ := h
  cases e <;> constructor <;> simp only [Context.enter, hcomponents, hinterface]

theorem enterAll (h : Alike c c') (es : List Entry) :
  Alike (c.enterAll es) (c'.enterAll es)
  := by
  induction es generalizing c c' with
  | nil => exact h
  | cons e es ih => apply ih (h.enter e)

/-- The warnings about an entry are about the interface. -/
theorem warnings_eq (h : Alike c c') (e : Entry) :
  e.warnings c = e.warnings c'
  := by
  cases e with
  | lookUp form => rw [Entry.warnings, Entry.warnings, h.interface_eq]
  | _ => rfl

theorem warningsOf_eq (h : Alike c c') (es : List Entry) :
  c.warningsOf es = c'.warningsOf es
  := by
  induction es generalizing c c' with
  | nil => rfl
  | cons e es ih => rw [warningsOf, warningsOf, h.warnings_eq e, ih (h.enter e)]

/-- Compilations of a pair with its own component counts start from contexts that agree. -/
theorem start
    {source : SourcePair} {counts : OrderedMap Text Int} (hcounts : source.components = some counts)
    (c c' : Context) :
  Alike (c.start source) (c'.start source)
  := by
  constructor
  · rw [Context.start, Context.start, hcounts]
    rfl
  · rfl

theorem entered
    {source : SourcePair} {counts : OrderedMap Text Int} (hcounts : source.components = some counts)
    (hmode : c.mode = c'.mode) :
  Alike (c.entered source) (c'.entered source)
  := by
  rw [Context.entered, Context.entered, hmode]
  apply (start hcounts c c').enterAll

end Alike

end Context

/-! ### Structs -/

/-- Declarations with other strided arrays. -/
def Declarations.withStrided (d : Declarations) (strided : List Text) : Declarations :=
  { d with strided := strided }

namespace StageStruct

/-- The structs for attributes and varyings have nothing to do with strided arrays. -/
theorem withStrided_eq (d : Declarations) (strided : List Text) :
  vertexInputs (d.withStrided strided) = vertexInputs d ∧
    vertexOutputs (d.withStrided strided) = vertexOutputs d ∧
    fragmentInputs (d.withStrided strided) = fragmentInputs d
  := ⟨rfl, rfl, rfl⟩

end StageStruct

/-! ### Compilations -/

/-- A compiled pair is finished with what its lines have declared and some strided arrays, and
finishing it only drops the declarations. -/
theorem Compile.interface_of_pair_ok
    {source : SourcePair} {c : Context} {out : StageTexts} (h : (pair source c).result = .ok out) :
  (declareStages source c).context.interface = (c.entered source).interface ∧
    (pair source c).context.interface = { (c.entered source).interface with declarations := {} } ∧
    ∃ strided leftOver, ∃ annotated : StageTexts, out
      = annotated.finished c.mode
          ((c.entered source).interface.declarations.withStrided strided) leftOver
  := by
  obtain ⟨⟨slot, declared, annotated, hdeclared, -, hout⟩, -, r', hfinished⟩ := pair_of_ok h
  obtain ⟨⟨r, hcontext⟩, -⟩ := declareStages_of_ok hdeclared
  rw [hcontext, hfinished]
  exact ⟨rfl, rfl, _, _, annotated, hout⟩

/-- A pair with its own component counts that is compiled in a context with any history, and also
in a fresh one with the same mode and limits, declares the same attributes and varyings, and it has
the same interface afterwards, that is the same locations and the same counters.  It gives the same
warnings, and its stages are finished with structs of the same texts for attributes and
varyings. -/
theorem interface_eq_fresh
    (mode : Mode) (limits : Limits) (components components' : OrderedMap Text Int)
    (ops : List Operation) {source : SourcePair} {counts : OrderedMap Text Int}
    (hcounts : source.components = some counts) {out out' : StageTexts} :
  let c := (Context.fresh mode limits components).after ops
  let c' := Context.fresh mode limits components'
  (Compile.pair source c).result = .ok out →
  (Compile.pair source c').result = .ok out' →
  let i := (Compile.declareStages source c).context.interface
  let i' := (Compile.declareStages source c').context.interface
  i = i' ∧
  (Compile.pair source c).context.interface = (Compile.pair source c').context.interface ∧
  (Compile.pair source c).warnings = (Compile.pair source c').warnings ∧
  ∃ strided strided' leftOver leftOver', ∃ annotated annotated' : StageTexts,
    let d := i.declarations.withStrided strided
    let d' := i'.declarations.withStrided strided'
    out = annotated.finished mode d leftOver ∧ out' = annotated'.finished mode d' leftOver' ∧
    StageStruct.vertexInputs d = StageStruct.vertexInputs d' ∧
    StageStruct.vertexOutputs d = StageStruct.vertexOutputs d' ∧
    StageStruct.fragmentInputs d = StageStruct.fragmentInputs d'
  := by
  intro c c' h h' i i'
  have hmode : c.mode = mode := (Session.steps _ ops).1
  have halike : Context.Alike (c.entered source) (c'.entered source) := .entered hcounts hmode
  obtain ⟨hi, hend, strided, leftOver, annotated, hout⟩ := Compile.interface_of_pair_ok h
  obtain ⟨hi', hend', strided', leftOver', annotated', hout'⟩ := Compile.interface_of_pair_ok h'
  have heq : i = i' := hi.trans (halike.interface_eq.trans hi'.symm)
  rw [← hi, hmode] at hout
  rw [← hi'] at hout'
  refine ⟨heq, ?_, ?_, strided, strided', leftOver, leftOver', annotated, annotated', hout, hout',
    ?_⟩
  · rw [hend, hend', halike.interface_eq]
  · rw [(Compile.pair_of_ok h).2.1, (Compile.pair_of_ok h').2.1, hmode]
    apply (Context.Alike.start hcounts c c').warningsOf_eq
  · obtain ⟨hinputs, houtputs, hfragment⟩ :=
      StageStruct.withStrided_eq i.declarations strided
    obtain ⟨hinputs', houtputs', hfragment'⟩ :=
      StageStruct.withStrided_eq i'.declarations strided'
    rw [hinputs, houtputs, hfragment, hinputs', houtputs', hfragment', heq]
    exact ⟨rfl, rfl, rfl⟩

/-- A pair that runs out of locations when some attributes are entered. -/
def overfull : SourcePair where
  vertex := "attribute a : vec2<f32>;\nattribute b : array<vec4<f32>, 99>;\nuniform k : f32;"
  fragment := []
  components := some (.ofList [("a", 2)])

/-- A pair with an attribute that is converted, with a varying and with one that is missing. -/
def shaded : SourcePair where
  vertex := "attribute uv : vec2<f32>;\nvarying v : vec2<f32>;"
  fragment := "varying v : vec2<f32>;\nvarying w : f32;"
  components := some (.ofList [("uv", 2)])

/-- Behind a compilation that failed, the pair has the interface that it has in a fresh context. -/
theorem interface_eq_fresh_overfull :
  let fresh := Context.fresh .pure {} ∅
  let c := fresh.after [.takeSlot, .pair overfull]
  (Compile.pair overfull fresh).result.isOk = false ∧
    (Compile.pair shaded c).result.isOk ∧ (Compile.pair shaded fresh).result.isOk ∧
    (Compile.pair shaded c).context.interface = (Compile.pair shaded fresh).context.interface ∧
    (Compile.pair shaded c).warnings = (Compile.pair shaded fresh).warnings
  := by
  intro fresh c
  have hok : (Compile.pair shaded c).result.isOk := by decide +kernel
  have hok' : (Compile.pair shaded fresh).result.isOk := by decide +kernel
  obtain ⟨out, hout⟩ := Compile.exists_of_isOk hok
  obtain ⟨out', hout'⟩ := Compile.exists_of_isOk hok'
  obtain ⟨-, hinterface, hwarnings, -⟩ :=
    interface_eq_fresh .pure {} ∅ ∅ [.takeSlot, .pair overfull] rfl hout hout'
  exact ⟨by decide +kernel, hok, hok', hinterface, hwarnings⟩

end ShaderPair
