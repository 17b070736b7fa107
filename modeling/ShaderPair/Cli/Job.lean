import ShaderPair.Cli.FileTree
import ShaderPair.Cli.Options
import ShaderPair.Pair

/-!
# Jobs

A `Job` names the source files of a shader pair and the options for its compilation.
`Job.compile` reads the files and compiles them; what happens on the way is logged.
`Job.write` writes the finished stages to a directory.
-/

namespace ShaderPair

/-! ### Logs -/

/-- How much a log message matters. -/
inductive Level where
  | info
  | warning
  | error
  deriving DecidableEq

/-- A log message. -/
structure Log where
  /-- How much it matters. -/
  level : Level
  /-- What it says. -/
  message : Text
  deriving DecidableEq

/-- Why a command fails. -/
inductive Failure where
  /-- An option is wrong. -/
  | badOption (fault : OptionFault)
  /-- A fault has been logged. -/
  | logged
  /-- A file cannot be used. -/
  | badFile (fault : FileFault)
  /-- A number has too many digits. -/
  | badNumber (fault : Fault)
  deriving DecidableEq

/-! ### Compilation -/

/-- The text of a file with every line break written as one line feed. -/
def Text.normalizeBreaks : Text → Text
  | [] => []
  | '\r' :: '\n' :: r => '\n' :: normalizeBreaks r
  | '\r' :: r => '\n' :: normalizeBreaks r
  | c :: r => c :: normalizeBreaks r

/-- The sources of a shader pair and the options for its compilation. -/
structure Job where
  /-- The file of the vertex stage. -/
  vertex : Path
  /-- The file of the fragment stage. -/
  fragment : Path
  /-- The defines from outside. -/
  defines : OrderedMap Text Text
  /-- The component counts of attributes. -/
  components : OrderedMap Text Int
  /-- Whether the engine's part is there. -/
  mode : Mode
  /-- The number of bindings in a bind group. -/
  bindingsPerGroup : Int := 65536
  deriving DecidableEq

namespace Job

/-- The sources, if both files can be read. -/
def sources (job : Job) (tree : FileTree) : Except FileFault SourcePair := do
  let vertex ← tree.read? job.vertex
  let fragment ← tree.read? job.fragment
  return {
    vertex := Text.normalizeBreaks vertex
    fragment := Text.normalizeBreaks fragment
    outerDefines := job.defines
    components := some job.components }

/-- The outcome of the compilation of sources. -/
def outcome (job : Job) (source : SourcePair) : Outcome StageTexts :=
  source.compile job.mode job.bindingsPerGroup

/-- How a command fails if a source cannot be read, and what is logged: a broken path is not. -/
def readFailure (e : FileFault) : List Log × Failure :=
  if e.reason = .broken then ([], .badFile e)
  else ([⟨.error, "Failed to read shader sources: " ++ e.message⟩], .logged)

/-- How a command fails if the sources have a fault, and what is logged: only faults about
declarations are. -/
def compileFailure (e : Fault) : List Log × Failure :=
  if e.isAboutDigits then ([], .badNumber e)
  else ([⟨.error, "Transpilation error: " ++ e.message⟩], .logged)

/-- Reads and compiles the sources.  The finished stages come with the context that they leave
behind. -/
def compile (job : Job) (tree : FileTree) : List Log × Except Failure (StageTexts × Context) :=
  match job.sources tree with
  | .error e => ((readFailure e).1, .error (readFailure e).2)
  | .ok source =>
    let o := job.outcome source
    let warnings := o.warnings.map fun w => (⟨.warning, w.message⟩ : Log)
    match o.result with
    | .error e => (warnings ++ (compileFailure e).1, .error (compileFailure e).2)
    | .ok texts =>
      (warnings ++ [⟨.info, "Transpiled " ++ job.vertex.name ++ " and " ++ job.fragment.name⟩],
        .ok (texts, o.context))

/-! ### Outputs -/

/-- The file for the finished vertex stage in a directory. -/
def vertexOutput (job : Job) (directory : Path) : Path :=
  directory.child (job.vertex.stem ++ ".vertex.wgsl")

/-- The file for the finished fragment stage in a directory. -/
def fragmentOutput (job : Job) (directory : Path) : Path :=
  directory.child (job.vertex.stem ++ ".fragment.wgsl")

/-- Makes a directory and writes the finished stages to it, the vertex stage first, as far as
that goes: the files afterwards, and the fault that came up. -/
def writeFiles (job : Job) (directory : Path) (texts : StageTexts) (tree : FileTree) :
    FileTree × Option FileFault :=
  match tree.makeDirectory directory with
  | .error e => (tree, some e)
  | .ok tree =>
    match tree.write (job.vertexOutput directory) texts.vertex with
    | .error e => (tree, some e)
    | .ok tree =>
      match tree.write (job.fragmentOutput directory) texts.fragment with
      | .error e => (tree, some e)
      | .ok tree => (tree, none)

/-- The log message about the finished stages in a directory. -/
def writtenLog (job : Job) (directory : Path) : Log :=
  ⟨.info, "Shader code exported to " ++ (job.vertexOutput directory).text ++ " and "
    ++ (job.fragmentOutput directory).text⟩

end Job

end ShaderPair
