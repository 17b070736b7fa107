import ShaderPair.Interface

/-!
# The structs of the stages

The inputs and outputs of a stage are the fields of structs, with a private variable for each
struct.  `StageStruct.vertexInputs` holds the attributes, `StageStruct.vertexOutputs` and
`StageStruct.fragmentInputs` hold the varyings, and `StageStruct.fragmentOutputs` holds what the
code of the fragment stage is seen to write.
-/

namespace ShaderPair

namespace StageStruct

/-! ### The vertex stage -/

/-- What is put behind the names of the raw inputs if some of them are converted. -/
def rawSuffix (d : Declarations) : Text := if d.hasConverted then "_" else []

/-- The struct of the raw inputs. -/
def rawInputs (d : Declarations) : Text :=
  "struct VertexInputs \x7b\n" ++ "  @builtin(vertex_index) vertexIndex : u32,\n"
    ++ "  @builtin(instance_index) instanceIndex : u32,\n"
    ++ Text.unlines (d.attributes.map Attribute.rawField)
    ++ "\n\x7d;\n" ++ "var<private> vertexInputs" ++ rawSuffix d ++ " : VertexInputs;\n"

/-- The struct of the converted inputs. -/
def convertedInputs (d : Declarations) : Text :=
  "struct VertexInputs_ \x7b\n" ++ "  vertexIndex : u32, instanceIndex : u32,\n"
    ++ Text.unlines (d.attributes.map Attribute.field)
    ++ "\n\x7d;\n" ++ "var<private> vertexInputs : VertexInputs_;\n"

/-- The structs of the inputs of the vertex stage: if some inputs are converted, one for the raw
and one for the converted inputs. -/
def vertexInputs (d : Declarations) : Text :=
  rawInputs d ++ if d.hasConverted then convertedInputs d else []

/-- The fields of the varyings. -/
def varyingFields (d : Declarations) : Text := Text.unlines (d.varyings.map Varying.field)

/-- The struct of the outputs of the vertex stage. -/
def vertexOutputs (d : Declarations) : Text :=
  "struct FragmentInputs \x7b\n" ++ "  @builtin(position) position : vec4<f32>,\n"
    ++ varyingFields d
    ++ "\n\x7d;\n" ++ "var<private> vertexOutputs : FragmentInputs;\n"

/-! ### The fragment stage -/

/-- The struct of the inputs of the fragment stage. -/
def fragmentInputs (d : Declarations) : Text :=
  "struct FragmentInputs \x7b\n" ++ "  @builtin(position) position : vec4<f32>,\n"
    ++ "  @builtin(front_facing) frontFacing : bool,\n"
    ++ varyingFields d
    ++ "\n\x7d;\n" ++ "var<private> fragmentInputs : FragmentInputs;\n"

/-- How a stage writes to a render target. -/
def renderTarget : Text := "fragmentOutputs.fragData"

/-- How a stage writes a depth. -/
def depthOutput : Text := "fragmentOutputs.fragDepth"

/-- Whether a line writes a depth, and not only in a comment. -/
def lineWritesDepth (line : Text) : Bool :=
  match Text.indexOf? depthOutput line with
  | none => false
  | some i => !Text.occurs "//" (line.take i)

/-- Whether a stage writes a depth, and not only in comments. -/
def writesDepth (code : Text) : Bool := (Text.lines code).any lineWritesDepth

/-- The output for the render target with a number. -/
def targetOutput (number : Text) : Text := "fragData" ++ number ++ " : vec4<f32>"

/-- The output for a color besides the render targets. -/
def colorOutput : Text := "color : vec4<f32>"

/-- The field of the written depth. -/
def depthField : Text := "  @builtin(frag_depth) fragDepth: f32,\n"

/-- The outputs for the render targets that the code writes to: if it writes to target 0, that
one and all others below 8, and a color behind them where the code asks for it. -/
def targetOutputs (code : Text) : List Text :=
  if Text.occurs (renderTarget ++ "0") code then
    let targets := ((List.range 8).map Text.ofNat).filter fun k =>
      Text.occurs (renderTarget ++ k) code
    targets.map targetOutput ++ if Text.occurs "MRT_AND_COLOR" code then [colorOutput] else []
  else []

/-- The outputs for order independent transparency, where the code asks for it. -/
def transparencyOutputs (code : Text) : List Text :=
  if Text.occurs "oitDepthSampler" code then
    ["depth : vec2<f32>", "frontColor : vec4<f32>", "backColor : vec4<f32>"]
  else []

/-- Outputs with the locations from `first` on. -/
def locate (first : Nat) : List Text → Text
  | [] => []
  | t :: ts => "  @location(" ++ Text.ofNat first ++ ") " ++ t ++ ",\n" ++ locate (first + 1) ts

/-- The name of the extension for two colors that are blended. -/
def dualSourceBlending : Text := "dual_source_blending"

/-- Whether the code asks for two colors that are blended. -/
def blendsTwoSources (code : Text) : Bool :=
  targetOutputs code ++ transparencyOutputs code = [] && Text.occurs "DUAL_SOURCE_BLENDING" code

/-- The colors of a stage that writes to no render target. -/
def colorOutputs (code : Text) : Text :=
  if blendsTwoSources code then
    "  @location(0) @blend_src(0) " ++ "color : vec4<f32>,\n"
      ++ "  @location(0) @blend_src(1) " ++ "color2 : vec4<f32>,\n"
  else "  @location(0) color : vec4<f32>,\n"

/-- The struct of the outputs of a fragment stage with the given code. -/
def fragmentOutputs (code : Text) : Text :=
  let located := targetOutputs code ++ transparencyOutputs code
  "struct FragmentOutputs \x7b\n"
    ++ (if located.isEmpty then colorOutputs code else locate 0 located)
    ++ (if writesDepth code then depthField else [])
    ++ "\x7d;\n" ++ "var<private> fragmentOutputs : FragmentOutputs;\n"

/-- The extensions that the outputs of a fragment stage need. -/
def extensions (code : Text) : List Text :=
  if blendsTwoSources code then [dualSourceBlending] else []

end StageStruct

end ShaderPair
