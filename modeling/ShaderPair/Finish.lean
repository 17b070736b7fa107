import ShaderPair.Binding
import ShaderPair.Define
import ShaderPair.LeftOver
import ShaderPair.StageStruct
import ShaderPair.Text.Brace

/-!
# Finished stages

A stage is finished by structs for its inputs and outputs, and by code at the start and at the
end of its entry point that moves them in and out (`Finish.vertex`, `Finish.fragment`).  Outside
of pure mode the vertex stage also flips the vertical axis, and the fragment stage takes this
into account where it uses positions or derivatives.  `Compile.finish` finishes the two stages
of a pair, from the samplers and buffers to the catalogue of the layout.
-/

namespace ShaderPair

namespace Finish

/-! ### Directives -/

/-- Turns the diagnostic about derivatives in non-uniform control flow off. -/
def uniformityOff : Text := "diagnostic(off, derivative_uniformity);\n"

/-- Turns the diagnostic about unreachable code off. -/
def reachabilityOff : Text := "diagnostic(off, chromium.unreachable_code);\n"

/-- The diagnostics that are turned off in front of a stage. -/
def diagnostics (code : Text) : Text :=
  (if Text.occurs "#define DISABLE_UNIFORMITY_ANALYSIS" code then uniformityOff else [])
    ++ reachabilityOff

/-- The directive that enables extensions. -/
def enable (extensions : List Text) : Text :=
  if extensions.isEmpty then [] else "enable " ++ Text.join ";\nenable " extensions ++ ";\n"

/-- How the entry point is declared. -/
def entryPoint : Text := "fn main"

/-- A stage with code at the start and at the end of its entry point, behind the
diagnostics. -/
def wrap (start finish code : Text) : Text :=
  diagnostics code ++ Brace.wrap entryPoint start finish code

/-! ### The vertex stage -/

/-- The statements that convert the raw inputs. -/
def conversions (d : Declarations) : Text :=
  "vertexInputs.vertexIndex = " ++ "vertexInputs_.vertexIndex;\n"
    ++ "vertexInputs.instanceIndex = " ++ "vertexInputs_.instanceIndex;\n"
    ++ Text.unlines (d.attributes.map Attribute.conversion) ++ "\n"

/-- The start of the entry point of the vertex stage: it takes the inputs over, converted where
that is needed. -/
def vertexStart (d : Declarations) : Text :=
  "\n  vertexInputs" ++ StageStruct.rawSuffix d ++ " = input;\n"
    ++ if d.hasConverted then conversions d else []

/-- The end of the entry point of the vertex stage. -/
def vertexEnd : Mode → Text
  | .pure => "  return vertexOutputs;"
  | .engine =>
    "  vertexOutputs.position.y = " ++ "vertexOutputs.position.y * " ++ "internals.yFactor_;\n"
      ++ "  return vertexOutputs;"

/-- The finished vertex stage. -/
def vertex (mode : Mode) (d : Declarations) (code : Text) : Text :=
  let code := LeftOver.redirectAccesses d.strided (Define.commentOut code)
  wrap (vertexStart d) (vertexEnd mode)
    (StageStruct.vertexInputs d ++ StageStruct.vertexOutputs d ++ code)

/-! ### The fragment stage -/

/-- The statement that flips the position of a fragment back. -/
def positionFlip : Text :=
  "\n  if (internals.yFactor_ == 1.) \x7b\n" ++ "    fragmentInputs.position.y = "
    ++ "internals.textureOutputHeight_ - " ++ "fragmentInputs.position.y;\n" ++ "  \x7d\n"

/-- The start of the entry point of the fragment stage. -/
def fragmentStart (mode : Mode) (code : Text) : Text :=
  "\n  fragmentInputs = input;\n"
    ++ if mode = .engine ∧ Text.occurs "fragmentInputs.position" code then positionFlip else []

/-- The end of the entry point of the fragment stage. -/
def fragmentEnd : Text := "  return fragmentOutputs;"

/-- Flips the sign of the vertical derivatives along with the axis. -/
def flipDerivatives (mode : Mode) (code : Text) : Text :=
  match mode with
  | .pure => code
  | .engine => Text.replace "dpdy" "(-internals.yFactor_)*dpdy" code

/-- The finished fragment stage. -/
def fragment (mode : Mode) (d : Declarations) (code : Text) : Text :=
  let body :=
    flipDerivatives mode (LeftOver.redirectAccesses d.strided (Define.commentOut code))
  wrap (fragmentStart mode code) fragmentEnd
    (enable (StageStruct.extensions body)
      ++ StageStruct.fragmentInputs d ++ StageStruct.fragmentOutputs body ++ body)

end Finish

/-- The texts of the two stages of a shader pair. -/
structure StageTexts where
  /-- The vertex stage. -/
  vertex : Text
  /-- The fragment stage. -/
  fragment : Text
  deriving DecidableEq

namespace Compile

/-- Works on the text of the vertex stage, then on that of the fragment stage. -/
def bothStages (f : Stage → Text → Compile Text) (texts : StageTexts) : Compile StageTexts := do
  let vertex ← f .vertex texts.vertex
  let fragment ← f .fragment texts.fragment
  return ⟨vertex, fragment⟩

/-- Finishes the two stages of a shader pair: slots for samplers, buffers and the leftover
buffer, structs and entry points, and the catalogue.  Then the declarations are dropped. -/
def finish (texts : StageTexts) : Compile StageTexts := do
  let texts ← bothStages annotateSamplers texts
  let texts ← bothStages annotateBuffers texts
  let leftOver ← buildLeftOver
  let c ← context
  let d := c.interface.declarations
  update fun c => c.collectNames.collectPlaceholders.clear
  return {
    vertex := Finish.vertex c.mode d (leftOver ++ texts.vertex)
    fragment := Finish.fragment c.mode d (leftOver ++ texts.fragment) }

end Compile

end ShaderPair
