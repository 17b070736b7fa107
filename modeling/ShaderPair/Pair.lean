import ShaderPair.Declare
import ShaderPair.Finish
import ShaderPair.Text.Comment

/-!
# Shader pairs

A `SourcePair` is a vertex stage and a fragment stage in source form, with the defines that come
from outside.  `Compile.declareStages` enters what its lines declare and puts its defines in, and
`Compile.pair` finishes the stages as well.  `Compile.pairAs` does the same where settings are asked
for that the context may not have, and `SourcePair.compile` compiles a pair in a context of its own.
-/

namespace ShaderPair

/-! ### Sources -/

/-- The declaration of the buffer through which the engine tells a stage about its output. -/
def internalsDeclaration : Text :=
  "struct Internals \x7b\n" ++ "  yFactor_: f32,\n" ++ "  textureOutputHeight_: f32,\n"
    ++ "\x7d;\n" ++ "var<uniform> internals : Internals;\n"

/-- A source text without comments, behind the declaration of the buffer of the engine.  A text
that holds this declaration already is left alone, with its comments. -/
def prepare (mode : Mode) (code : Text) : Text :=
  match mode with
  | .pure => Comment.remove code
  | .engine =>
    if Text.occurs internalsDeclaration code then code
    else internalsDeclaration ++ Comment.remove code

/-- A shader pair in source form. -/
structure SourcePair where
  /-- The vertex stage. -/
  vertex : Text
  /-- The fragment stage. -/
  fragment : Text
  /-- The defines from outside. -/
  outerDefines : OrderedMap Text Text := ∅
  /-- The defines to be replaced in both stages, instead of those that each stage holds. -/
  ownDefines : Option (OrderedMap Text Text) := none
  /-- The numbers of components of attributes with integers, instead of those of the
  context. -/
  components : Option (OrderedMap Text Int) := none

/-! ### Compilation -/

namespace Compile

/-- Enters what the lines of a shader pair declare, and puts its defines into both stages. -/
def declareStages (source : SourcePair) : Compile StageTexts := do
  update fun c => { c with components := source.components.getD c.components }
  update Context.begin
  let c ← context
  let texts ← bothStages (processStage source.outerDefines)
    ⟨prepare c.mode source.vertex, prepare c.mode source.fragment⟩
  let resolved (code : Text) : Text :=
    Define.resolve source.outerDefines (source.ownDefines.getD (Define.collect code)) code
  return ⟨resolved texts.vertex, resolved texts.fragment⟩

/-- Compiles a shader pair in a context. -/
def pair (source : SourcePair) : Compile StageTexts := do
  let texts ← declareStages source
  finish texts

/-- Notes that the mode and the number of bindings in a group are those of the context, where others
are asked for. -/
def noteSettings (mode : Mode) (bindingsPerGroup : Int) : Compile Unit := do
  let c ← context
  if mode = c.mode ∧ bindingsPerGroup = c.limits.bindingsPerGroup then pure ()
  else write [c.limits.bindingsPerGroup]

/-- Compiles a shader pair in a context, whatever mode and number of bindings in a group are asked
for. -/
def pairAs (mode : Mode) (bindingsPerGroup : Int) (source : SourcePair) :
    Compile StageTexts := do
  noteSettings mode bindingsPerGroup
  pair source

end Compile

/-- Compiles a shader pair in a context of its own. -/
def SourcePair.compile (source : SourcePair) (mode : Mode) (bindingsPerGroup : Int) :
    Outcome StageTexts :=
  Compile.pair source (.fresh mode { bindingsPerGroup } (source.components.getD ∅))

end ShaderPair
