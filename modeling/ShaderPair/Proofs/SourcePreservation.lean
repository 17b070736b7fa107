import ShaderPair.Cli.Export
import ShaderPair.Cli.Watcher
import ShaderPair.Proofs.FileTrees

/-!
# What an export does to the sources

An export writes no files but those of the finished stages (`Job.Spares`), and it writes them only
when both sources have been read (`Job.Exports`).  Hence a source is read as before unless it is
itself the file of a finished stage.  There is nothing that keeps it from being so.

The files of the finished stages have names of their own: a source by another name is safe, whatever
the directories (`Job.not_isOutput_of_name_ne`).
-/

namespace ShaderPair

namespace Job

variable {job : Job} {directory p : Path} {texts : StageTexts} {tree tree' tree'' : FileTree}
  {t name : Text} {source : SourcePair}

/-! ### The files of the finished stages -/

/-- The path leads to the file of a finished stage. -/
def IsOutput (job : Job) (directory : Path) (tree : FileTree) (p : Path) : Prop :=
  tree.SameFile p (job.vertexOutput directory) ∨ tree.SameFile p (job.fragmentOutput directory)

theorem getLast?_of_locatePath_child
    {l : Location} (h : tree.locatePath (directory.child name) = .ok l) (hname : 2 < name.length) :
  l.getLast? = some name
  := by
  apply FileTree.getLast?_of_locatePath h (List.getLast?_concat ..)
  rintro rfl
  exact absurd hname (by decide)

theorem length_stem_append (stem : Text) :
  2 < (stem ++ (".vertex.wgsl" : Text)).length ∧ 2 < (stem ++ (".fragment.wgsl" : Text)).length
  := by
  have hlength : (".vertex.wgsl" : Text).length = 12 ∧ (".fragment.wgsl" : Text).length = 14 := by
    decide +kernel
  rw [List.length_append, List.length_append]
  omega

/-- Any file of a finished stage is named after the vertex file up to the first point. -/
theorem IsOutput.name_eq
    (h : job.IsOutput directory tree p) (hlast : p.names.getLast? = some name)
    (hname : name ≠ ['.', '.']) :
  name = job.vertex.stem ++ ".vertex.wgsl" ∨ name = job.vertex.stem ++ ".fragment.wgsl"
  := by
  obtain ⟨hvertex, hfragment⟩ := length_stem_append job.vertex.stem
  apply h.imp
  · rintro ⟨l, hl, hl'⟩
    apply Option.some.inj
    rw [← FileTree.getLast?_of_locatePath hl hlast hname, getLast?_of_locatePath_child hl' hvertex]
  · rintro ⟨l, hl, hl'⟩
    apply Option.some.inj
    rw [← FileTree.getLast?_of_locatePath hl hlast hname,
      getLast?_of_locatePath_child hl' hfragment]

/-- A file by another name is not that of a finished stage. -/
theorem not_isOutput_of_name_ne
    (hlast : p.names.getLast? = some name) (hname : name ≠ ['.', '.'])
    (hvertex : name ≠ job.vertex.stem ++ ".vertex.wgsl")
    (hfragment : name ≠ job.vertex.stem ++ ".fragment.wgsl") :
  ¬ job.IsOutput directory tree p
  := fun h => (h.name_eq hlast hname).elim hvertex hfragment

/-- The finished stages have a file each. -/
theorem not_sameFile_outputs :
  ¬ tree.SameFile (job.vertexOutput directory) (job.fragmentOutput directory)
  := by
  rintro ⟨l, hl, hl'⟩
  obtain ⟨hvertex, hfragment⟩ := length_stem_append job.vertex.stem
  have hlast := (getLast?_of_locatePath_child hl hvertex).symm.trans
    (getLast?_of_locatePath_child hl' hfragment)
  have hsame := List.append_cancel_left (Option.some.inj hlast)
  exact absurd hsame (by decide +kernel)

/-! ### Writing the finished stages -/

/-- Directories may have been made, and no files have changed but those of finished stages. -/
structure Spares (job : Job) (directory : Path) (tree tree' : FileTree) : Prop where
  widens : tree.Widens tree'
  find?_eq : ∀ l, tree'.locatePath (job.vertexOutput directory) ≠ .ok l →
    tree'.locatePath (job.fragmentOutput directory) ≠ .ok l →
    tree'.files.find? l = tree.files.find? l

theorem Spares.refl (job : Job) (directory : Path) (tree : FileTree) :
  job.Spares directory tree tree
  := ⟨.refl tree, fun _ _ _ => rfl⟩

theorem spares_of_makeDirectory (h : tree.makeDirectory p = .ok tree') :
  job.Spares directory tree tree'
  := by
  have hgrows := FileTree.grows_of_makeDirectory h
  refine ⟨hgrows.toWidens, ?_⟩
  intro l _ _
  rw [hgrows.files_eq]

theorem Spares.write
    (h : job.Spares directory tree tree')
    (hp : p = job.vertexOutput directory ∨ p = job.fragmentOutput directory)
    (hwrite : tree'.write p t = .ok tree'') :
  job.Spares directory tree tree''
  := by
  have hwidens := FileTree.widens_of_write hwrite
  refine ⟨h.widens.trans hwidens, ?_⟩
  intro l hvertex hfragment
  have hl : tree''.locatePath p ≠ .ok l := by
    rcases hp with rfl | rfl
    · exact hvertex
    · exact hfragment
  rw [FileTree.find?_of_write hwrite hl]
  apply h.find?_eq l (fun hl => hvertex (hwidens.locatePath hl))
    (fun hl => hfragment (hwidens.locatePath hl))

/-- As far as it gets, writing the finished stages changes no other file. -/
theorem spares_writeFiles (job : Job) (directory : Path) (texts : StageTexts) (tree : FileTree) :
  job.Spares directory tree (job.writeFiles directory texts tree).1
  := by
  rw [writeFiles]
  cases hmade : tree.makeDirectory directory with
  | error e => apply Spares.refl
  | ok made =>
    have hspares : job.Spares directory tree made := spares_of_makeDirectory hmade
    dsimp only
    cases hvertex : made.write (job.vertexOutput directory) texts.vertex with
    | error e => exact hspares
    | ok between =>
      have hspares := hspares.write (.inl rfl) hvertex
      dsimp only
      cases hfragment : between.write (job.fragmentOutput directory) texts.fragment with
      | error e => exact hspares
      | ok written => exact hspares.write (.inr rfl) hfragment

/-- What is not the file of a finished stage is read as before. -/
theorem Spares.read?
    (h : job.Spares directory tree tree') (hp : ¬ job.IsOutput directory tree' p)
    (ht : tree.read? p = .ok t) :
  tree'.read? p = .ok t
  := by
  obtain ⟨l, hl, hfind⟩ := FileTree.read?_eq_ok_iff.mp ht
  have hl' := h.widens.locatePath hl
  refine FileTree.read?_eq_ok_iff.mpr ⟨l, hl', ?_⟩
  rw [h.find?_eq l (fun hvertex => hp (.inl ⟨l, hl', hvertex⟩))
    (fun hfragment => hp (.inr ⟨l, hl', hfragment⟩)), hfind]

/-- The writing of finished stages, step by step. -/
theorem writes_of_writeFiles (h : (job.writeFiles directory texts tree).2 = none) :
  ∃ made between written, tree.makeDirectory directory = .ok made ∧
    made.write (job.vertexOutput directory) texts.vertex = .ok between ∧
    between.write (job.fragmentOutput directory) texts.fragment = .ok written ∧
    (job.writeFiles directory texts tree).1 = written
  := by
  rw [writeFiles] at h ⊢
  cases hmade : tree.makeDirectory directory with
  | error e =>
    rw [hmade] at h
    cases h
  | ok made =>
    simp only [hmade] at h ⊢
    cases hvertex : made.write (job.vertexOutput directory) texts.vertex with
    | error e =>
      rw [hvertex] at h
      cases h
    | ok between =>
      simp only [hvertex] at h ⊢
      cases hfragment : between.write (job.fragmentOutput directory) texts.fragment with
      | error e =>
        rw [hfragment] at h
        cases h
      | ok written => exact ⟨made, between, written, rfl, hvertex, hfragment, rfl⟩

/-- When both finished stages are written, they are read again. -/
theorem read?_of_writeFiles (h : (job.writeFiles directory texts tree).2 = none) :
  let tree' := (job.writeFiles directory texts tree).1
  tree'.read? (job.vertexOutput directory) = .ok texts.vertex ∧
    tree'.read? (job.fragmentOutput directory) = .ok texts.fragment
  := by
  obtain ⟨made, between, written, -, hvertex, hfragment, hwritten⟩ := writes_of_writeFiles h
  rw [hwritten]
  refine ⟨?_, FileTree.read?_of_write hfragment⟩
  obtain ⟨l, hl, hfind⟩ := FileTree.read?_eq_ok_iff.mp (FileTree.read?_of_write hvertex)
  have hl' := (FileTree.widens_of_write hfragment).locatePath hl
  refine FileTree.read?_eq_ok_iff.mpr ⟨l, hl', ?_⟩
  rw [FileTree.find?_of_write hfragment, hfind]
  exact fun hsame => not_sameFile_outputs ⟨l, hl', hsame⟩

/-! ### Exports -/

/-- Both sources can be read, and these are the finished stages. -/
def Yields (job : Job) (tree : FileTree) (texts : StageTexts) : Prop :=
  ∃ source, job.sources tree = .ok source ∧ (job.outcome source).result = .ok texts

theorem yields_of_compile {c : Context} (h : (job.compile tree).2 = .ok (texts, c)) :
  job.Yields tree texts
  := by
  rw [compile] at h
  cases hsources : job.sources tree with
  | error e =>
    rw [hsources] at h
    cases h
  | ok source =>
    simp only [hsources] at h
    cases hresult : (job.outcome source).result with
    | error e =>
      rw [hresult] at h
      cases h
    | ok texts' =>
      rw [hresult] at h
      cases h
      exact ⟨source, hsources, hresult⟩

theorem readable_of_sources (h : job.sources tree = .ok source) :
  (∃ t, tree.read? job.vertex = .ok t) ∧ ∃ t, tree.read? job.fragment = .ok t
  := by
  simp only [sources, bind, Except.bind] at h
  split at h
  · cases h
  next vertex hvertex =>
    split at h
    · cases h
    next fragment hfragment => exact ⟨⟨vertex, hvertex⟩, fragment, hfragment⟩

/-- Between two trees lies nothing, or the writing of finished stages after both sources were
read. -/
def Exports (job : Job) (directory : Path) (tree tree' : FileTree) : Prop :=
  tree' = tree ∨ (∃ source, job.sources tree = .ok source) ∧ job.Spares directory tree tree'

/-- A source that is not the file of a finished stage is read as before. -/
theorem Exports.read?_eq
    (h : job.Exports directory tree tree') (hp : p = job.vertex ∨ p = job.fragment)
    (hother : ¬ job.IsOutput directory tree' p) :
  tree'.read? p = tree.read? p
  := by
  rcases h with rfl | ⟨⟨source, hsource⟩, hspares⟩
  · rfl
  · obtain ⟨⟨vertex, hvertex⟩, fragment, hfragment⟩ := readable_of_sources hsource
    rcases hp with rfl | rfl
    · rw [hvertex, hspares.read? hother hvertex]
    · rw [hfragment, hspares.read? hother hfragment]

theorem exports_of_compile
    {c : Context} (h : (job.compile tree).2 = .ok (texts, c)) (directory : Path)
    (texts' : StageTexts) :
  job.Exports directory tree (job.writeFiles directory texts' tree).1
  := by
  obtain ⟨source, hsource, -⟩ := yields_of_compile h
  exact .inr ⟨⟨source, hsource⟩, spares_writeFiles job directory texts' tree⟩

end Job

namespace Watcher

theorem exports_exportPair (w : Watcher) (tree : FileTree) :
  w.job.Exports w.directory tree (w.exportPair tree).2.2
  := by
  rw [exportPair]
  split
  · exact .inl rfl
  · exact .inl rfl
  next logs texts c hcompile =>
    have hexports := Job.exports_of_compile (congrArg Prod.snd hcompile) w.directory texts
    split
    next tree' e hwrite => rwa [hwrite] at hexports
    next tree' hwrite => rwa [hwrite] at hexports

/-- An export that has succeeded leaves the finished stages in their files. -/
theorem read?_of_exportPair
    {w : Watcher} {tree : FileTree} (h : (w.exportPair tree).2.1 = .ok true) :
  let tree' := (w.exportPair tree).2.2
  ∃ texts, w.job.Yields tree texts ∧
    tree'.read? (w.job.vertexOutput w.directory) = .ok texts.vertex ∧
    tree'.read? (w.job.fragmentOutput w.directory) = .ok texts.fragment
  := by
  rw [exportPair] at h ⊢
  split at h
  · cases h
  · cases h
  next logs texts c hcompile =>
    have hyields := Job.yields_of_compile (congrArg Prod.snd hcompile)
    split at h
    · cases h
    next tree' hwrite =>
      have hread := Job.read?_of_writeFiles (congrArg Prod.snd hwrite)
      simp only [hwrite] at hread ⊢
      exact ⟨texts, hyields, hread⟩

end Watcher

namespace Export

theorem exports_runJob
    (time format : Text) (directory : Option Path) (job : Job) (tree : FileTree) :
  let tree' := (runJob time format directory job tree).tree
  tree' = tree ∨ ∃ d, directory = some d ∧ job.Exports d tree tree'
  := by
  rw [runJob]
  split
  · exact .inl rfl
  next logs texts c hcompile =>
    cases directory with
    | none => exact .inl rfl
    | some d =>
      have hexports := Job.exports_of_compile (congrArg Prod.snd hcompile) d
        (inFormat time format job texts).2
      refine .inr ⟨d, rfl, ?_⟩
      dsimp only
      split
      next tree' e hwrite => rwa [hwrite] at hexports
      next tree' hwrite => rwa [hwrite] at hexports

/-- An export that has succeeded leaves the finished stages in their files. -/
theorem read?_of_runJob
    {time format : Text} {d : Path} {job : Job} {tree : FileTree}
    (h : (runJob time format (some d) job tree).failure = none) :
  let tree' := (runJob time format (some d) job tree).tree
  ∃ texts, job.Yields tree texts ∧
    let finished := (inFormat time format job texts).2
    tree'.read? (job.vertexOutput d) = .ok finished.vertex ∧
    tree'.read? (job.fragmentOutput d) = .ok finished.fragment
  := by
  rw [runJob] at h ⊢
  split at h
  · cases h
  next logs texts c hcompile =>
    have hyields := Job.yields_of_compile (congrArg Prod.snd hcompile)
    dsimp only at h
    split at h
    · cases h
    next tree' hwrite =>
      have hread := Job.read?_of_writeFiles (congrArg Prod.snd hwrite)
      simp only [hwrite] at hread ⊢
      exact ⟨texts, hyields, hread⟩

end Export

theorem RawOptions.sources_of_job {o : RawOptions} {job : Job} (h : o.job = .ok job) :
  job.vertex = .ofText o.vertex ∧ job.fragment = .ofText o.fragment
  := by
  simp only [RawOptions.job, bind, Except.bind] at h
  split at h
  · cases h
  · split at h
    · cases h
    · cases h
      exact ⟨rfl, rfl⟩

/-- Whatever the options, the files and the outcome, an export leaves a source as it is, unless
the source is itself the file of a finished stage.  If the export succeeds, such a file holds the
finished stage. -/
theorem sources_kept :
  (∀ (time format : Text) (directory : Option Path) (o : RawOptions) (tree : FileTree),
    let report := Export.run time format directory o tree
    (∀ source, source = .ofText o.vertex ∨ source = .ofText o.fragment →
      (∀ d job, directory = some d → o.job = .ok job → ¬ job.IsOutput d report.tree source) →
      report.tree.read? source = tree.read? source) ∧
    ∀ d, directory = some d → report.failure = none →
      ∃ job texts, o.job = .ok job ∧ job.Yields tree texts ∧
        let finished := (Export.inFormat time format job texts).2
        report.tree.read? (job.vertexOutput d) = .ok finished.vertex ∧
        report.tree.read? (job.fragmentOutput d) = .ok finished.fragment) ∧
  ∀ (w : Watcher) (tree : FileTree),
    let (result, tree') := (w.exportPair tree).2
    (∀ source, source = w.job.vertex ∨ source = w.job.fragment →
      ¬ w.job.IsOutput w.directory tree' source →
      tree'.read? source = tree.read? source) ∧
    (result = .ok true → ∃ texts, w.job.Yields tree texts ∧
      tree'.read? (w.job.vertexOutput w.directory) = .ok texts.vertex ∧
      tree'.read? (w.job.fragmentOutput w.directory) = .ok texts.fragment)
  := by
  constructor
  · intro time format directory o tree report
    cases hjob : o.job with
    | error e =>
      have hrun : report = ⟨some (.badOption e), [], [], tree⟩ := by
        simp only [report, Export.run, hjob]
      rw [hrun]
      exact ⟨fun _ _ _ => rfl, nofun⟩
    | ok job =>
      have hrun : report = Export.runJob time format directory job tree := by
        simp only [report, Export.run, hjob]
      obtain ⟨hvertex, hfragment⟩ := RawOptions.sources_of_job hjob
      rw [hrun]
      constructor
      · intro source hsource hother
        rw [← hvertex, ← hfragment] at hsource
        rcases Export.exports_runJob time format directory job tree with hsame | ⟨d, hd, hexports⟩
        · rw [hsame]
        · apply hexports.read?_eq hsource (hother d job hd rfl)
      · rintro d rfl hsuccess
        obtain ⟨texts, hyields, hread⟩ := Export.read?_of_runJob hsuccess
        exact ⟨job, texts, rfl, hyields, hread⟩
  · intro w tree
    exact ⟨fun source hsource => (w.exports_exportPair tree).read?_eq hsource,
      Watcher.read?_of_exportPair⟩

/-- A shader pair whose vertex file has some name, without the engine's part. -/
def namedPair (vertex : Text) : RawOptions := { vertex, fragment := "x.fragment.fx", mode := .pure }

/-- The sources of a shader pair. -/
def namedTree (vertex : Text) : FileTree where
  files := .ofList [([vertex], "varying v : f32;"), (["x.fragment.fx"], "varying v : f32;")]
  directories := []

/-- A watcher that exports such a pair to the directory of its sources. -/
def namedWatcher (vertex : Text) : Watcher where
  job := {
    vertex := .ofText vertex
    fragment := .ofText "x.fragment.fx"
    defines := ∅
    components := ∅
    mode := .pure }
  directory := .ofText "."

theorem not_isOutput_named
    {job : Job} (hvertex : job.vertex = .ofText "x.vertex.fx") (directory : Path)
    (tree : FileTree) :
  ¬ job.IsOutput directory tree (.ofText "x.vertex.fx") ∧
    ¬ job.IsOutput directory tree (.ofText "x.fragment.fx")
  := by
  have hstem : job.vertex.stem = "x" := by
    rw [hvertex]
    decide +kernel
  have hlast : (Path.ofText "x.vertex.fx").names.getLast? = some "x.vertex.fx" ∧
      (Path.ofText "x.fragment.fx").names.getLast? = some "x.fragment.fx" := by
    decide +kernel
  constructor
  · apply Job.not_isOutput_of_name_ne hlast.1 (by decide +kernel)
    · rw [hstem]
      decide +kernel
    · rw [hstem]
      decide +kernel
  · apply Job.not_isOutput_of_name_ne hlast.2 (by decide +kernel)
    · rw [hstem]
      decide +kernel
    · rw [hstem]
      decide +kernel

theorem sources_kept_named :
  let tree := namedTree "x.vertex.fx"
  let report := Export.run [] "plain" (some (.ofText ".")) (namedPair "x.vertex.fx") tree
  let watched := (namedWatcher "x.vertex.fx").exportPair tree
  (report.failure = none ∧
    report.tree.read? (.ofText "x.vertex.fx") = tree.read? (.ofText "x.vertex.fx")) ∧
  watched.2.1.toOption = some true ∧
    watched.2.2.read? (.ofText "x.fragment.fx") = tree.read? (.ofText "x.fragment.fx")
  := by
  refine ⟨⟨by decide +kernel, ?_⟩, by decide +kernel, ?_⟩
  · apply (sources_kept.1 _ _ _ _ _).1 _ (.inl rfl)
    intro d job _ hjob
    apply (not_isOutput_named (RawOptions.sources_of_job hjob).1 _ _).1
  · apply (sources_kept.2 _ _).1 _ (.inr rfl)
    apply (not_isOutput_named rfl _ _).2

/-- A source that is called like a finished stage is lost if the stage goes next to it. -/
theorem not_sources_kept_sameName :
  ¬ ∀ (time format : Text) (directory : Option Path) (o : RawOptions) (tree : FileTree),
    let tree' := (Export.run time format directory o tree).tree
    tree'.read? (.ofText o.vertex) = tree.read? (.ofText o.vertex) ∧
      tree'.read? (.ofText o.fragment) = tree.read? (.ofText o.fragment)
  := by
  intro hkept
  have hsame := congrArg Except.toOption
    (hkept [] "plain" (some (.ofText ".")) (namedPair "x.vertex.wgsl")
      (namedTree "x.vertex.wgsl")).1
  revert hsame
  decide +kernel

end ShaderPair
