import ShaderPair.Cli.Job

/-!
# Watching

A `Watcher` exports a shader pair again when one of its sources changes.  `Watcher.notice` takes
note of a change, `Watcher.settle` forgets about it, and `Watcher.exportPair` exports the pair
from the sources as they are.  Nothing else is remembered.
-/

namespace ShaderPair

/-- A shader pair to be exported whenever it changes. -/
structure Watcher where
  /-- The pair. -/
  job : Job
  /-- The directory for the finished stages. -/
  directory : Path
  /-- The working directory. -/
  workingDirectory : Path := ⟨.here, []⟩
  /-- Whether a change was noticed. -/
  needsReload : Bool := false

namespace Watcher

/-- Whether a path is that of one of the sources, by the names from the working directory on. -/
def isSource (w : Watcher) (path : Text) : Bool :=
  [w.workingDirectory.absolute w.job.vertex, w.workingDirectory.absolute w.job.fragment].contains
    (w.workingDirectory.absolute (.ofText path))

/-- Takes note of a change of the file at a path, if it is one of the sources. -/
def notice (w : Watcher) (path : Text) : List Log × Watcher :=
  if w.isSource path then
    ([⟨.info, "Detected changes in " ++ path⟩], { w with needsReload := true })
  else ([], w)

/-- Forgets about the changes. -/
def settle (w : Watcher) : Watcher := { w with needsReload := false }

/-- Exports the pair.  If the sources have a fault that is logged, nothing is exported and no
file is changed, and the next change is waited for. -/
def exportPair (w : Watcher) (tree : FileTree) :
    List Log × Except Failure Bool × FileTree :=
  match w.job.compile tree with
  | (logs, .error .logged) =>
    (logs ++ [⟨.warning, "Export failed, waiting for the next change"⟩], .ok false, tree)
  | (logs, .error e) => (logs, .error e, tree)
  | (logs, .ok (texts, _)) =>
    match w.job.writeFiles w.directory texts tree with
    | (tree, some e) => (logs, .error (.badFile e), tree)
    | (tree, none) => (logs ++ [w.job.writtenLog w.directory], .ok true, tree)

end Watcher

end ShaderPair
