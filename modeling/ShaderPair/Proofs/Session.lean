import ShaderPair.Proofs.Holdings
import ShaderPair.Proofs.ProgramSteps

/-!
# Sessions

An `Operation` is anything that may be asked of a context, from the search for a single slot to
the compilation of a whole shader pair.  In a session operations follow each other, and one that
fails leaves the context as it is at that moment.  `Context.after` is the context after a
session and `Session.taken` are the slots handed out in it.  Whatever the operations are, they
amount to steps with the resources (`Session.steps`), so that what one step keeps is kept in
every session (`Session.preserves`).
-/

namespace ShaderPair

/-- Something to be asked of a context. -/
inductive Operation where
  /-- Hand out a slot. -/
  | takeSlot
  /-- Hand out locations. -/
  | takeLocation (kind : LocationKind) (type : Text) (length : Int)
  /-- Prepare for the next shader pair. -/
  | begin
  /-- Drop the declarations of a shader pair. -/
  | clear
  /-- Enter a declaration. -/
  | declare (constants : OrderedMap Text Text) (stage : Stage) (line : Text) (d : Declaration)
  /-- Enter what a line declares. -/
  | processLine (constants : OrderedMap Text Text) (stage : Stage) (line : Text)
  /-- Enter what the lines of a stage declare. -/
  | processStage (constants : OrderedMap Text Text) (stage : Stage) (code : Text)
  /-- Enter a plain uniform. -/
  | declareUniform (constants : OrderedMap Text Text) (form : VariableForm)
  /-- Enter and annotate the samplers of a stage. -/
  | annotateSamplers (stage : Stage) (code : Text)
  /-- Enter and annotate the buffers of a stage. -/
  | annotateBuffers (stage : Stage) (code : Text)
  /-- Build the leftover buffer. -/
  | buildLeftOver
  /-- Take stock of the names of the layout. -/
  | collectNames
  /-- Take stock of the bindings of the layout. -/
  | collectPlaceholders
  /-- Finish the stages of a shader pair. -/
  | finish (texts : StageTexts)
  /-- Note that other settings are asked for. -/
  | noteSettings (mode : Mode) (bindingsPerGroup : Int)
  /-- Compile a shader pair. -/
  | pair (source : SourcePair)

namespace Compile

/-- A program whose value does not matter. -/
def ignore {α : Type} (x : Compile α) : Compile Unit := do
  let _ ← x
  return ()

end Compile

namespace Operation

open Compile in
/-- What an operation does. -/
def run : Operation → Compile Unit
  | takeSlot => ignore Compile.takeSlot
  | takeLocation kind type length => ignore (Compile.takeLocation kind type length)
  | begin => update Context.begin
  | clear => update Context.clear
  | declare constants stage line d => ignore (Compile.declare constants stage line d)
  | processLine constants stage line => ignore (Compile.processLine constants stage line)
  | processStage constants stage code => ignore (Compile.processStage constants stage code)
  | declareUniform constants form => Compile.declareUniform constants form
  | annotateSamplers stage code => ignore (Compile.annotateSamplers stage code)
  | annotateBuffers stage code => ignore (Compile.annotateBuffers stage code)
  | buildLeftOver => ignore Compile.buildLeftOver
  | collectNames => update Context.collectNames
  | collectPlaceholders => update Context.collectPlaceholders
  | finish texts => ignore (Compile.finish texts)
  | noteSettings mode bindingsPerGroup => Compile.noteSettings mode bindingsPerGroup
  | pair source => ignore (Compile.pair source)

end Operation

namespace Compile

open Resources (Event)

theorem Does.ignore
    {α : Type} {x : Compile α} {c : Context} {P : α → List Event → Prop} (hx : Does x c P) :
  Does (ignore x) c fun _ _ => True
  := by
  apply Does.bind_pure
  apply hx.mono
  intro _ _ _
  trivial

/-- A program leaves the same context if its value does not matter. -/
theorem context_ignore {α : Type} (x : Compile α) (c : Context) :
  (ignore x c).context = (x c).context
  := by
  rw [ignore]
  cases hx : (x c).result with
  | error e => rw [bind_of_error hx]
  | ok a =>
    rw [bind_of_ok hx]
    rfl

theorem Quiet.does_true {α : Type} {x : Compile α} (hx : Quiet x) (c : Context) :
  Does x c fun _ _ => True
  := by
  apply (hx.does c).mono
  intro _ _ _
  trivial

theorem does_update
    {g : Context → Context}
    (hg : ∀ c, (g c).mode = c.mode ∧ (g c).limits = c.limits ∧ (g c).resources = c.resources)
    (c : Context) :
  Does (update g) c fun _ _ => True
  := (quiet_update hg).does_true c

/-- Every operation takes some steps with the resources. -/
theorem does_run (op : Operation) (c : Context) :
  Does op.run c fun _ _ => True
  := by
  cases op with
  | takeSlot => apply (does_takeSlot c).ignore
  | takeLocation kind type length => apply ((quiet_takeLocations _ _ _).does c).ignore
  | begin =>
    apply does_update
    intro c
    exact ⟨rfl, rfl, rfl⟩
  | clear =>
    apply does_update
    intro c
    exact ⟨rfl, rfl, rfl⟩
  | declare constants stage line d => apply (does_declare constants stage line d c).ignore
  | processLine constants stage line =>
    apply (does_processLine constants stage line c).ignore
  | processStage constants stage code =>
    apply (does_processStage constants stage code c).ignore
  | declareUniform constants form => apply (quiet_declareUniform constants form).does_true
  | annotateSamplers stage code => apply (does_annotateSamplers stage code c).ignore
  | annotateBuffers stage code => apply (does_annotateBuffers stage code c).ignore
  | buildLeftOver => apply (does_buildLeftOver c).ignore
  | collectNames =>
    apply does_update
    intro c
    exact ⟨rfl, rfl, rfl⟩
  | collectPlaceholders =>
    apply does_update
    intro c
    exact ⟨rfl, rfl, rfl⟩
  | finish texts => apply (does_finish texts c).ignore
  | noteSettings mode bindingsPerGroup => apply (quiet_noteSettings _ _).does_true
  | pair source => apply (does_pair source c).ignore

end Compile

/-! ### Runs -/

/-- The context after the operations of a session. -/
def Context.after (c : Context) : List Operation → Context
  | [] => c
  | op :: ops => (op.run c).context.after ops

namespace Session

/-- The slots handed out in a session, in order. -/
def taken (c : Context) : List Operation → List Slot
  | [] => []
  | op :: ops => (op.run c).taken ++ taken (op.run c).context ops

theorem after_append (c : Context) (ops ops' : List Operation) :
  c.after (ops ++ ops') = (c.after ops).after ops'
  := by
  induction ops generalizing c with
  | nil => rfl
  | cons op ops ih => apply ih

open Resources (Event Step Steps)

/-- A session amounts to steps with the resources. -/
theorem steps (c : Context) (ops : List Operation) :
  (c.after ops).mode = c.mode ∧ (c.after ops).limits = c.limits ∧
    ∃ es, Steps c.mode c.limits es c.resources (taken c ops) (c.after ops).resources
  := by
  induction ops generalizing c with
  | nil => exact ⟨rfl, rfl, [], Steps.refl _⟩
  | cons op ops ih =>
    obtain ⟨es, heffect, -⟩ := Compile.does_run op c
    obtain ⟨hmode, hlimits, es', hsteps⟩ := ih (op.run c).context
    rw [heffect.mode_eq, heffect.limits_eq] at hsteps
    use hmode.trans heffect.mode_eq, hlimits.trans heffect.limits_eq, es ++ es'
    apply heffect.steps.append hsteps

/-- What every step keeps is kept in a session. -/
theorem preserves
    {P : Resources → Prop} {c : Context}
    (hP : ∀ {e r ss r'}, Step c.mode c.limits e r ss r' → P r → P r') (hc : P c.resources)
    (ops : List Operation) :
  P (c.after ops).resources
  := by
  obtain ⟨-, -, es, hsteps⟩ := steps c ops
  apply hsteps.preserves hP hc

/-- What lasts is still there after a session. -/
theorem lasting
    {P : Resources → Prop} {c : Context} (hP : Resources.Lasting P) (hc : P c.resources)
    (ops : List Operation) :
  P (c.after ops).resources
  := by
  apply preserves _ hc
  intro _ _ _ _ hstep
  apply hP hstep

end Session

end ShaderPair
