import ShaderPair.Cli.Job
import ShaderPair.Cli.Terminal

/-!
# Exporting and listing

`Export.run` compiles a shader pair and writes the finished stages to a directory or prints
them, and `Listing.run` prints the bindings and locations of a shader pair.  A `Report` tells
what a command did.
-/

namespace ShaderPair

/-- What a command did. -/
structure Report where
  /-- Why it failed, if it did. -/
  failure : Option Failure
  /-- What it logged. -/
  logs : List Log
  /-- What it printed. -/
  printed : Text
  /-- The files afterwards. -/
  tree : FileTree

/-- The options as they stand on the command line. -/
structure RawOptions where
  /-- The file of the vertex stage. -/
  vertex : Text
  /-- The file of the fragment stage. -/
  fragment : Text
  /-- The assignments of defines. -/
  defines : List Text := []
  /-- The assignments of component counts. -/
  components : List Text := []
  /-- Whether the engine's part is there. -/
  mode : Mode := .engine
  /-- The number of bindings in a bind group. -/
  bindingsPerGroup : Int := 65536

/-- The job that options ask for. -/
def RawOptions.job (o : RawOptions) : Except OptionFault Job := do
  let defines ← Options.assignments "--define" o.defines
  let components ← Options.components o.components
  return {
    vertex := .ofText o.vertex
    fragment := .ofText o.fragment
    defines, components
    mode := o.mode
    bindingsPerGroup := o.bindingsPerGroup }

/-- Lines, each with its line break. -/
def wholeLines (ls : List Text) : Text := ls.flatMap (· ++ ['\n'])

/-- Lines as they are printed. -/
def printedLines (ls : List Text) : Text := Terminal.plain (wholeLines ls)

/-! ### Exporting -/

namespace Export

/-- The comment in front of a stage. -/
def header (time : Text) (source : Path) (stage : Text) : Text :=
  wholeLines [
    "// Generated by wgslbind v0.1.0",
    "// Generation time: " ++ time,
    "// Source file: " ++ source.name,
    "// Stage: " ++ stage,
    []]

/-- The finished stages in a format.  An unknown format is taken for the plain one. -/
def inFormat (time format : Text) (job : Job) (texts : StageTexts) : List Log × StageTexts :=
  if format = ("commented" : Text) then
    ([], ⟨header time job.vertex "vertex" ++ texts.vertex,
      header time job.fragment "fragment" ++ texts.fragment⟩)
  else if format = ("plain" : Text) then ([], texts)
  else ([⟨.warning, "Unknown format: " ++ format ++ ". Using plain."⟩], texts)

/-- Exports a job to a directory, or prints the finished stages. -/
def runJob (time format : Text) (directory : Option Path) (job : Job) (tree : FileTree) : Report :=
  match job.compile tree with
  | (logs, .error e) => ⟨some e, logs, [], tree⟩
  | (logs, .ok (texts, _)) =>
    let (formatLogs, texts) := inFormat time format job texts
    let logs := logs ++ formatLogs
    match directory with
    | none => ⟨none, logs, printedLines [texts.vertex, texts.fragment], tree⟩
    | some directory =>
      match job.writeFiles directory texts tree with
      | (tree, some e) => ⟨some (.badFile e), logs, [], tree⟩
      | (tree, none) => ⟨none, logs ++ [job.writtenLog directory], [], tree⟩

/-- Exports a shader pair as the options say. -/
def run (time format : Text) (directory : Option Path) (o : RawOptions) (tree : FileTree) :
    Report :=
  match o.job with
  | .error e => ⟨some (.badOption e), [], [], tree⟩
  | .ok job => runJob time format directory job tree

end Export

/-! ### Listing -/

namespace Listing

/-- The word for the kind of a resource. -/
def kindWord : Resource → Text
  | .buffer _ => "buffer"
  | .sampler _ => "sampler"
  | .texture _ _ _ => "texture"
  | .storageTexture _ _ => "storage_texture"
  | .externalTexture => "external_texture"

/-- The words for the stages from which a resource is seen. -/
def visibilityWords : Visibility → Text
  | ⟨true, true⟩ => "vertex|fragment"
  | ⟨true, false⟩ => "vertex"
  | ⟨false, true⟩ => "fragment"
  | ⟨false, false⟩ => []

/-- The line of a binding. -/
def bindingLine (slot : Slot) (i : LayoutInfo) (e : LayoutEntry) : Text :=
  Text.join [' '] [Text.ofNat slot.group, Text.ofNat slot.binding, kindWord e.resource,
    visibilityWords e.visibility, i.bindingName]

/-- Puts an attribute in front of the first one at a location that is not lower. -/
def insertByLocation (a : Int × Text) : List (Int × Text) → List (Int × Text)
  | [] => [a]
  | b :: bs => if a.1 ≤ b.1 then a :: b :: bs else b :: insertByLocation a bs

/-- The bindings of a context, its attributes by location, and its varyings. -/
def lines (c : Context) : List Text :=
  "group binding kind visibility name" ::
    (c.resources.layout.toList.map (fun (slot, i, e) => bindingLine slot i e)
      ++ (c.interface.attributeAt.entries.foldr insertByLocation []).map
        (fun (location, name) => Text.join [' '] ["attribute", Text.ofInt location, name])
      ++ c.interface.varyings.entries.map
        (fun (name, location) => Text.join [' '] ["varying", Text.ofInt location, name]))

/-- Prints the bindings of a shader pair as the options say. -/
def run (o : RawOptions) (tree : FileTree) : Report :=
  match o.job with
  | .error e => ⟨some (.badOption e), [], [], tree⟩
  | .ok job =>
    match job.compile tree with
    | (logs, .error e) => ⟨some e, logs, [], tree⟩
    | (logs, .ok (_, c)) => ⟨none, logs, printedLines (lines c), tree⟩

end Listing

end ShaderPair
