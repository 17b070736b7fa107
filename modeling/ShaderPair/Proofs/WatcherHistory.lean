import ShaderPair.Proofs.SourcePreservation
import Mathlib.Data.List.Induction

/-!
# The history of a watched pair

A `Watch` is a watcher and the files that it sees, and a `WatchStep` is something that happens to
them: files are written and removed, changes are made known and forgotten, and the pair is exported.

All that a watcher remembers of any row of steps is whether a change was made known and not
forgotten (`Watcher.Noticed`).  Whatever happened before, an export does what it would do on the
files as they are (`Watcher.ExportsAfresh`): it writes what the compilation of the texts in the two
sources gives, or else leaves all files alone.
-/

namespace ShaderPair

/-! ### Steps -/

/-- Something that happens to a watcher or to the files that it sees. -/
inductive WatchStep where
  /-- A file is given a text, if that is possible. -/
  | write (path : Path) (text : Text)
  /-- A file is removed, if it is there. -/
  | remove (path : Path)
  /-- It is made known that the file at a path has changed. -/
  | event (path : Text)
  /-- The changes are forgotten. -/
  | clear
  /-- The pair is exported. -/
  | exportPair

/-- A watcher and the files that it sees. -/
structure Watch where
  /-- The watcher. -/
  watcher : Watcher
  /-- The files. -/
  tree : FileTree

namespace Watch

/-- What a step does. -/
def step (s : Watch) : WatchStep → Watch
  | .write p t => { s with tree := (s.tree.write p t).toOption.getD s.tree }
  | .remove p => { s with tree := (s.tree.remove p).toOption.getD s.tree }
  | .event path => { s with watcher := (s.watcher.notice path).2 }
  | .clear => { s with watcher := s.watcher.settle }
  | .exportPair => { s with tree := (s.watcher.exportPair s.tree).2.2 }

/-- What steps do one after the other. -/
def after (s : Watch) (steps : List WatchStep) : Watch := steps.foldl step s

theorem after_concat (s : Watch) (steps : List WatchStep) (x : WatchStep) :
  s.after (steps ++ [x]) = (s.after steps).step x
  := List.foldl_concat ..

end Watch

/-! ### What is remembered -/

namespace Watcher

variable {w : Watcher} {steps : List WatchStep} {x : WatchStep}

/-- A change of a source was made known, and not forgotten since. -/
def Noticed (w : Watcher) (steps : List WatchStep) : Prop :=
  ∃ before path after, steps = before ++ .event path :: after ∧ w.isSource path = true ∧
    .clear ∉ after

theorem not_noticed_nil :
  ¬ w.Noticed []
  := by
  rintro ⟨before, path, after, h, -, -⟩
  exact List.append_ne_nil_of_right_ne_nil before (List.cons_ne_nil _ _) h.symm

theorem noticed_concat_iff :
  w.Noticed (steps ++ [x]) ↔
    (∃ path, x = .event path ∧ w.isSource path = true) ∨ (x ≠ .clear ∧ w.Noticed steps)
  := by
  constructor
  · rintro ⟨before, path, after, h, hsource, hclear⟩
    rcases List.eq_nil_or_concat' after with rfl | ⟨after, y, rfl⟩
    · obtain ⟨-, hx⟩ := List.append_inj' h rfl
      exact .inl ⟨path, List.singleton_inj.mp hx, hsource⟩
    · rw [← List.cons_append, ← List.append_assoc] at h
      obtain ⟨rfl, hx⟩ := List.append_inj' h rfl
      obtain rfl := List.singleton_inj.mp hx
      rw [List.mem_append, not_or, List.mem_singleton] at hclear
      exact .inr ⟨Ne.symm hclear.2, before, path, after, rfl, hsource, hclear.1⟩
  · rintro (⟨path, rfl, hsource⟩ | ⟨hx, before, path, after, rfl, hsource, hclear⟩)
    · exact ⟨steps, path, [], rfl, hsource, List.not_mem_nil⟩
    · refine ⟨before, path, after ++ [x], ?_, hsource, ?_⟩
      · rw [List.append_assoc, List.cons_append]
      · rw [List.mem_append, not_or, List.mem_singleton]
        exact ⟨hclear, Ne.symm hx⟩

end Watcher

namespace Watch

/-- Apart from what is noticed, a watcher stays as it is. -/
theorem watcher_step (s : Watch) (x : WatchStep) :
  (s.step x).watcher = { s.watcher with needsReload := (s.step x).watcher.needsReload }
  := by
  cases x with
  | event path =>
    rw [step, Watcher.notice]
    split
    · rfl
    · rfl
  | _ => rfl

/-- A step makes a change noticed, forgets about it, or leaves it at that. -/
theorem needsReload_step_iff (s : Watch) (x : WatchStep) :
  (s.step x).watcher.needsReload = true ↔
    (∃ path, x = .event path ∧ s.watcher.isSource path = true) ∨
      (x ≠ .clear ∧ s.watcher.needsReload = true)
  := by
  cases x with
  | event path =>
    rw [step, Watcher.notice]
    split
    next hsource => simp [hsource]
    next hsource => simp [hsource]
  | clear => simp [step, Watcher.settle]
  | write _ _ => simp [step]
  | remove _ => simp [step]
  | exportPair => simp [step]

theorem watcher_after (s : Watch) (steps : List WatchStep) :
  (s.after steps).watcher = { s.watcher with needsReload := (s.after steps).watcher.needsReload }
  := by
  induction steps using List.reverseRecOn with
  | nil => rfl
  | append_singleton steps x ih =>
    rw [after_concat, watcher_step, ih]

theorem needsReload_after_iff
    {s : Watch} (h : s.watcher.needsReload = false) (steps : List WatchStep) :
  (s.after steps).watcher.needsReload = true ↔ s.watcher.Noticed steps
  := by
  induction steps using List.reverseRecOn with
  | nil =>
    apply iff_of_false _ Watcher.not_noticed_nil
    rw [after, List.foldl_nil, h]
    exact Bool.false_ne_true
  | append_singleton steps x ih =>
    rw [after_concat, needsReload_step_iff, Watcher.noticed_concat_iff, ih]
    have hsource (path : Text) :
        (s.after steps).watcher.isSource path = s.watcher.isSource path := by
      rw [watcher_after]
      rfl
    simp only [hsource]

end Watch

/-! ### What an export does -/

namespace Job

variable {job : Job} {directory : Path} {tree : FileTree} {vertex fragment : Text}

/-- The pair with the texts of its sources. -/
def pairOf (job : Job) (vertex fragment : Text) : SourcePair where
  vertex := Text.normalizeBreaks vertex
  fragment := Text.normalizeBreaks fragment
  outerDefines := job.defines
  components := some job.components

theorem sources_of_read?
    (hvertex : tree.read? job.vertex = .ok vertex)
    (hfragment : tree.read? job.fragment = .ok fragment) :
  job.sources tree = .ok (job.pairOf vertex fragment)
  := by
  rw [sources, hvertex, hfragment]
  rfl

/-- The fault of a source that cannot be read; that of the vertex stage comes first. -/
def Unreadable (job : Job) (tree : FileTree) (e : FileFault) : Prop :=
  tree.read? job.vertex = .error e ∨
    (∃ t, tree.read? job.vertex = .ok t) ∧ tree.read? job.fragment = .error e

theorem Unreadable.sources_eq {e : FileFault} (h : job.Unreadable tree e) :
  job.sources tree = .error e
  := by
  rw [sources]
  rcases h with hvertex | ⟨⟨t, hvertex⟩, hfragment⟩
  · rw [hvertex]
    rfl
  · rw [hvertex, hfragment]
    rfl

/-- The directory can be made, and both files of finished stages can be written to it. -/
def CanWrite (job : Job) (directory : Path) (tree : FileTree) : Prop :=
  ∃ made, tree.makeDirectory directory = .ok made ∧
    ∀ p ∈ [job.vertexOutput directory, job.fragmentOutput directory],
      ∃ l, made.locatePath p = .ok l ∧ made.isDirectory l = false

/-- Whether the finished stages can be written does not depend on their texts. -/
theorem canWrite_iff (texts : StageTexts) :
  job.CanWrite directory tree ↔ (job.writeFiles directory texts tree).2 = none
  := by
  constructor
  · rintro ⟨made, hmade, houtputs⟩
    obtain ⟨l, hl, hdirectory⟩ := houtputs (job.vertexOutput directory) (by simp)
    obtain ⟨l', hl', hdirectory'⟩ := houtputs (job.fragmentOutput directory) (by simp)
    have hvertex := FileTree.write_eq_ok_iff (t := texts.vertex).mpr ⟨l, hl, hdirectory, rfl⟩
    have hwidens := FileTree.widens_of_write hvertex
    have hfragment := FileTree.write_eq_ok_iff (t := texts.fragment).mpr
      ⟨l', hwidens.locatePath hl', hdirectory', rfl⟩
    rw [writeFiles, hmade]
    simp only [hvertex, hfragment]
  · intro h
    obtain ⟨made, between, written, hmade, hvertex, hfragment, -⟩ := writes_of_writeFiles h
    obtain ⟨l, hl, hdirectory, rfl⟩ := FileTree.write_eq_ok_iff.mp hvertex
    obtain ⟨l', hl', hdirectory', -⟩ := FileTree.write_eq_ok_iff.mp hfragment
    refine ⟨made, hmade, ?_⟩
    simp only [List.mem_cons, List.not_mem_nil, or_false, forall_eq_or_imp, forall_eq]
    -- The files between the two writings are others, but the directories are the same.
    let between : FileTree := { made with files := made.files.insert l texts.vertex }
    have hwidens : between.Widens made := ⟨rfl, List.Subset.refl _⟩
    exact ⟨⟨l, hl, hdirectory⟩, l', hwidens.locatePath hl', hdirectory'⟩

end Job

namespace Watcher

variable {w : Watcher} {tree : FileTree}

/-- An export does what the files as they are ask for. -/
structure ExportsAfresh (w : Watcher) (tree : FileTree) : Prop where
  /-- If both sources are there and compile, the finished stages are written. -/
  finished : ∀ vertex fragment texts,
    tree.read? w.job.vertex = .ok vertex → tree.read? w.job.fragment = .ok fragment →
    ((w.job.pairOf vertex fragment).compile w.job.mode w.job.bindingsPerGroup).result = .ok texts →
    w.job.CanWrite w.directory tree →
    let (result, tree') := (w.exportPair tree).2
    result = .ok true ∧
      tree'.read? (w.job.vertexOutput w.directory) = .ok texts.vertex ∧
      tree'.read? (w.job.fragmentOutput w.directory) = .ok texts.fragment ∧
      w.job.Spares w.directory tree tree'
  /-- If the sources have a fault, all files are left alone.  Nothing is raised, unless the fault is
  about the digits of a number. -/
  faulty : ∀ vertex fragment e,
    tree.read? w.job.vertex = .ok vertex → tree.read? w.job.fragment = .ok fragment →
    ((w.job.pairOf vertex fragment).compile w.job.mode w.job.bindingsPerGroup).result = .error e →
    (w.exportPair tree).2 = (if e.isAboutDigits then .error (.badNumber e) else .ok false, tree)
  /-- If a source cannot be read, all files are left alone.  Nothing is raised, unless the path is
  broken. -/
  unreadable : ∀ e, w.job.Unreadable tree e →
    (w.exportPair tree).2 = (if e.reason = .broken then .error (.badFile e) else .ok false, tree)
  /-- A source that is not itself the file of a finished stage is left alone. -/
  kept : ∀ p, p = w.job.vertex ∨ p = w.job.fragment →
    ¬ w.job.IsOutput w.directory (w.exportPair tree).2.2 p →
    (w.exportPair tree).2.2.read? p = tree.read? p

/-- What comes of a compilation that fails: only what has been logged is not raised. -/
theorem exportPair_of_error {e : Failure} (h : (w.job.compile tree).2 = .error e) :
  (w.exportPair tree).2 = (if e = .logged then .ok false else .error e, tree)
  := by
  rw [exportPair]
  split
  next hcompile =>
    rw [hcompile] at h
    cases h
    rfl
  next hlogged hcompile =>
    rw [hcompile] at h
    cases h
    rw [if_neg]
    rintro rfl
    exact hlogged rfl
  next hcompile =>
    rw [hcompile] at h
    cases h

/-- What comes of a compilation that succeeds, if the finished stages can be written. -/
theorem exportPair_of_ok
    {texts : StageTexts} {c : Context} (h : (w.job.compile tree).2 = .ok (texts, c))
    (hwrite : w.job.CanWrite w.directory tree) :
  (w.exportPair tree).2 = (.ok true, (w.job.writeFiles w.directory texts tree).1)
  := by
  have hnone := (Job.canWrite_iff texts).mp hwrite
  rw [exportPair]
  split
  next hcompile =>
    rw [hcompile] at h
    cases h
  next hcompile =>
    rw [hcompile] at h
    cases h
  next hcompile =>
    rw [hcompile] at h
    cases h
    split
    next hfiles =>
      rw [hfiles] at hnone
      cases hnone
    next hfiles => rw [hfiles]

theorem exportsAfresh (w : Watcher) (tree : FileTree) :
  w.ExportsAfresh tree
  where
  finished vertex fragment texts hvertex hfragment hresult hwrite := by
    obtain ⟨c, hcompile⟩ : ∃ c, (w.job.compile tree).2 = .ok (texts, c) := by
      rw [Job.compile, Job.sources_of_read? hvertex hfragment]
      simp only [Job.outcome, hresult]
      exact ⟨_, rfl⟩
    have hnone := (Job.canWrite_iff texts).mp hwrite
    obtain ⟨hvertex, hfragment⟩ := Job.read?_of_writeFiles hnone
    rw [exportPair_of_ok hcompile hwrite]
    exact ⟨rfl, hvertex, hfragment, Job.spares_writeFiles _ _ _ _⟩
  faulty vertex fragment e hvertex hfragment hresult := by
    have hcompile : (w.job.compile tree).2 = .error (Job.compileFailure e).2 := by
      rw [Job.compile, Job.sources_of_read? hvertex hfragment]
      simp only [Job.outcome, hresult]
    rw [exportPair_of_error hcompile, Job.compileFailure]
    cases e.isAboutDigits with
    | true => rfl
    | false => rfl
  unreadable e h := by
    have hcompile : (w.job.compile tree).2 = .error (Job.readFailure e).2 := by
      rw [Job.compile, h.sources_eq]
    rw [exportPair_of_error hcompile, Job.readFailure]
    by_cases hbroken : e.reason = .broken
    · simp only [hbroken, if_true, reduceCtorEq, if_false]
    · simp only [hbroken, if_false, if_true]
  kept p hp hother := (w.exports_exportPair tree).read?_eq hp hother

end Watcher

/-- A watcher remembers a change of a source that was made known and not forgotten, and nothing
else: an export does what it does on the same files in the beginning, and that is told by the
texts of the sources. -/
theorem watcher_has_no_memory
    {w : Watcher} (h : w.needsReload = false) (tree : FileTree) (steps : List WatchStep) :
  let s := (Watch.mk w tree).after steps
  (s.watcher.needsReload = true ↔ w.Noticed steps) ∧
    s.watcher.exportPair s.tree = w.exportPair s.tree ∧
    w.ExportsAfresh s.tree
  := by
  intro s
  refine ⟨Watch.needsReload_after_iff h steps, ?_, w.exportsAfresh s.tree⟩
  rw [Watch.watcher_after]
  rfl

/-- A watcher on a shader pair that has an array of some length. -/
def arrayWatcher (length : Text) : Watcher where
  job := {
    vertex := .ofText "x.vertex.fx"
    fragment := .ofText "x.fragment.fx"
    defines := .ofList [("N", length)]
    components := ∅
    mode := .pure }
  directory := .ofText "out"

/-- The sources of the shader pair. -/
def arrayTree : FileTree where
  files := .ofList [(["x.vertex.fx"], "attribute p : array<f32, N>;"), (["x.fragment.fx"], [])]
  directories := []

/-- A source is changed, exported, lost, missed by another export, and written again. -/
def arraySteps : List WatchStep :=
  [.event "./x.vertex.fx", .exportPair, .clear, .remove (.ofText "x.fragment.fx"), .exportPair,
    .event "x.fragment.fx", .write (.ofText "x.fragment.fx") "varying v : f32;"]

theorem eq_ok_of_toOption {ε α : Type} {x : Except ε α} {a : α} (h : x.toOption = some a) :
  x = .ok a
  := by
  cases x with
  | error e => cases h
  | ok b => rw [Option.some.inj h]

theorem watcher_has_no_memory_array :
  let w := arrayWatcher "2"
  let s := (Watch.mk w arrayTree).after arraySteps
  let exported := s.watcher.exportPair s.tree
  s.watcher.needsReload = true ∧ exported.2.1 = .ok true ∧
    ∃ texts : StageTexts,
      exported.2.2.read? (w.job.vertexOutput w.directory) = .ok texts.vertex ∧
      exported.2.2.read? (w.job.fragmentOutput w.directory) = .ok texts.fragment
  := by
  obtain ⟨hreload, hexport, hafresh⟩ :=
    watcher_has_no_memory (w := arrayWatcher "2") rfl arrayTree arraySteps
  have hnoticed : (arrayWatcher "2").Noticed arraySteps := by
    refine ⟨arraySteps.take 5, "x.fragment.fx", arraySteps.drop 6, rfl, by decide +kernel, ?_⟩
    simp [arraySteps]
  let source := (arrayWatcher "2").job.pairOf "attribute p : array<f32, N>;" "varying v : f32;"
  have hresult : (source.compile .pure 65536).result.toOption.isSome := by decide +kernel
  obtain ⟨texts, htexts⟩ := Option.isSome_iff_exists.mp hresult
  have hwrite : (arrayWatcher "2").job.CanWrite (.ofText "out")
      ((Watch.mk (arrayWatcher "2") arrayTree).after arraySteps).tree := by
    rw [Job.canWrite_iff ⟨[], []⟩]
    decide +kernel
  obtain ⟨htrue, hvertex, hfragment, -⟩ := hafresh.finished _ _ texts
    (eq_ok_of_toOption (by decide +kernel)) (eq_ok_of_toOption (by decide +kernel))
    (eq_ok_of_toOption htexts) hwrite
  refine ⟨hreload.mpr hnoticed, ?_⟩
  rw [hexport]
  exact ⟨htrue, texts, hvertex, hfragment⟩

/-- An export is given up if the length of an array has too many digits. -/
theorem not_exportPair_ok_array :
  ¬ ∀ (w : Watcher) (tree : FileTree), w.job.CanWrite w.directory tree →
    ∃ done, (w.exportPair tree).2.1 = .ok done
  := by
  intro hok
  have hwrite :
      (arrayWatcher (List.replicate 4301 '9')).job.CanWrite (.ofText "out") arrayTree := by
    rw [Job.canWrite_iff ⟨[], []⟩]
    decide +kernel
  obtain ⟨done, hdone⟩ := hok _ _ hwrite
  have hnone :
      ((arrayWatcher (List.replicate 4301 '9')).exportPair arrayTree).2.1.toOption = none := by
    decide +kernel
  rw [hdone] at hnone
  cases hnone

end ShaderPair
