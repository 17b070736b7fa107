import ShaderPair.Proofs.Lines
import ShaderPair.Proofs.ProgramReplay
import ShaderPair.Proofs.Session

/-!
# Textures and samplers in both stages

A declaration of a texture or of a sampler is annotated while the registries still grow.  What
is registered under a name never gets another slot (`Resources.Lasting`), so in the end every
annotation is the one that the final registries have for the name
(`Resources.textureAnnotation?`, `Resources.samplerAnnotation?`), in both stages and for every
declaration of the name (`stages_agree`).  `LineBecomes` says what becomes of a line of a stage
and `SamplerPieceBecomes` what becomes of a piece of it when its samplers are annotated; nothing
else in the text changes.
-/

namespace ShaderPair

open Resources (Event Lasting)

/-! ### Annotations by name -/

namespace Resources

/-- The annotation that belongs to the name of a texture: that of its first element. -/
def textureAnnotation? (r : Resources) (name : Text) : Option Text :=
  (r.textures.find? name).map fun t => t.slot.annotation

/-- The annotation that belongs to the name of a sampler. -/
def samplerAnnotation? (r : Resources) (name : Text) : Option Text :=
  (r.samplers.find? name).map fun s => s.slot.annotation

theorem lasting_textureAnnotation? (name a : Text) :
  Lasting fun r => r.textureAnnotation? name = some a
  := by
  intro mode limits e r ss r' hstep h
  obtain ⟨t, ht, hslot⟩ := Option.map_eq_some_iff.mp h
  obtain ⟨t', ht', hcontinues⟩ := hstep.find?_textures ht
  have hfirst : t'.slot = t.slot := (List.cons.inj hcontinues.slots_eq).1
  apply Option.map_eq_some_iff.mpr
  use t', ht'
  rw [hfirst, hslot]

theorem lasting_samplerAnnotation? (name a : Text) :
  Lasting fun r => r.samplerAnnotation? name = some a
  := by
  intro mode limits e r ss r' hstep h
  obtain ⟨s, hs, hslot⟩ := Option.map_eq_some_iff.mp h
  apply Option.map_eq_some_iff.mpr
  use s, hstep.find?_samplers hs

end Resources

/-! ### Runs -/

namespace Compile

variable {α β : Type} {c : Context}

/-- Where each program gives something that lasts, the values of all of them have it in the
end. -/
theorem forall₂_of_each
    {f : α → Compile β} {g : α → List Event} {R : Resources → α → β → Prop}
    (hdoes : ∀ a c, Does (f a) c fun _ es => es = g a)
    (hR : ∀ a b, Lasting fun r => R r a b)
    (hf : ∀ {a b c}, (f a c).result = .ok b → R (f a c).context.resources a b)
    {as : List α} {bs : List β} (h : (each f as c).result = .ok bs) :
  List.Forall₂ (R (each f as c).context.resources) as bs
  := by
  induction as generalizing bs c with
  | nil =>
    obtain rfl := Except.ok.inj h
    apply List.Forall₂.nil
  | cons a as ih =>
    obtain ⟨b, hb, h⟩ := ok_of_bind h
    obtain ⟨bs, hbs, h⟩ := ok_of_bind h
    obtain rfl := Except.ok.inj h
    have hcontext : (each f (a :: as) c).context = (each f as (f a c).context).context := by
      rw [each, bind_of_ok hb, bind_of_ok hbs]
      rfl
    have hrest := does_each as (fun a _ => hdoes a) (f a c).context
    rw [hcontext]
    apply List.Forall₂.cons _ (ih hbs)
    apply hrest.lasting (hR a b) (hf hb)

/-- Where the program for a stage gives something that lasts, the texts of both stages have it in
the end. -/
theorem both_of_bothStages
    {f : Stage → Text → Compile Text} {g : Stage → Text → List Event}
    {R : Resources → Text → Text → Prop}
    (hdoes : ∀ stage code c, Does (f stage code) c fun _ es => es = g stage code)
    (hR : ∀ code out, Lasting fun r => R r code out)
    (hf : ∀ {stage code out c}, (f stage code c).result = .ok out →
      R (f stage code c).context.resources code out)
    {texts out : StageTexts} (h : (bothStages f texts c).result = .ok out) :
  let r := (bothStages f texts c).context.resources
  R r texts.vertex out.vertex ∧ R r texts.fragment out.fragment
  := by
  obtain ⟨vertex, hvertex, h⟩ := ok_of_bind h
  obtain ⟨fragment, hfragment, h⟩ := ok_of_bind h
  obtain rfl := Except.ok.inj h
  have hcontext : (bothStages f texts c).context
      = (f .fragment texts.fragment (f .vertex texts.vertex c).context).context := by
    rw [bothStages, bind_of_ok hvertex, bind_of_ok hfragment]
    rfl
  intro r
  rw [show r = _ from congrArg Context.resources hcontext]
  constructor
  · apply (hdoes .fragment texts.fragment _).lasting (hR _ _) (hf hvertex)
  · apply hf hfragment

end Compile

/-! ### Lines -/

/-- What becomes of a line of a stage: a declaration of a texture gets the annotation that belongs
to its name, any other declaration vanishes, and all other lines stay. -/
inductive LineBecomes (r : Resources) (line : Text) : Text → Prop
  | kept : Declaration.ofLine? line = none → LineBecomes r line line
  | dropped {d : Declaration} :
    Declaration.ofLine? line = some d → d.textureForms = [] → LineBecomes r line []
  | annotated {form : TextureForm} {a : Text} :
    Declaration.ofLine? line = some (.texture form) → r.textureAnnotation? form.name = some a →
      LineBecomes r line (a ++ line)

/-- The lines of a stage become those of another text. -/
def LinesBecome (r : Resources) (code out : Text) : Prop :=
  List.Forall₂ (LineBecomes r) (Text.lines code) (Text.lines out)

theorem lasting_lineBecomes (line out : Text) :
  Lasting fun r => LineBecomes r line out
  := by
  intro mode limits e r ss r' hstep h
  cases h with
  | kept hline => apply LineBecomes.kept hline
  | dropped hline hforms => apply LineBecomes.dropped hline hforms
  | annotated hline ha =>
    apply LineBecomes.annotated hline
    apply Resources.lasting_textureAnnotation? _ _ hstep ha

theorem lasting_linesBecome (code out : Text) :
  Lasting fun r => LinesBecome r code out
  := Resources.lasting_forall₂ lasting_lineBecomes _ _

/-- An annotation holds digits and the characters of its words. -/
theorem Slot.not_mem_annotation
    {c : Char} (s : Slot) (hdigit : c.isDigit = false)
    (hc : c ∉ ("@group() @binding() " : Text)) :
  c ∉ s.annotation
  := by
  have hdigits : ∀ n : Nat, c ∉ Text.ofInt n := Text.not_mem_ofNat hdigit
  rw [Text.ofString_eq] at hc
  simp only [annotationOf, annotation, Text.ofString_eq, List.mem_append, not_or, hdigits]
  simp at hc
  simp [hc]

/-- No annotation breaks a line. -/
theorem Slot.break_not_mem_annotation (s : Slot) :
  '\n' ∉ s.annotation
  := by
  apply s.not_mem_annotation rfl
  rw [Text.ofString_eq]
  decide

theorem LineBecomes.not_mem
    {r : Resources} {line out : Text} (h : LineBecomes r line out) (hline : '\n' ∉ line) :
  '\n' ∉ out
  := by
  cases h with
  | kept => apply hline
  | dropped => apply List.not_mem_nil
  | annotated _ ha =>
    obtain ⟨t, -, rfl⟩ := Option.map_eq_some_iff.mp ha
    rw [List.mem_append, not_or]
    use t.slot.break_not_mem_annotation

/-- Lines without line breaks become such lines. -/
theorem not_mem_of_linesBecome
    {r : Resources} {ls outs : List Text} (h : List.Forall₂ (LineBecomes r) ls outs)
    (hls : ∀ l ∈ ls, '\n' ∉ l) :
  ∀ out ∈ outs, '\n' ∉ out
  := by
  induction h with
  | nil =>
    rintro out ⟨⟩
  | cons hline _ ih =>
    rw [List.forall_mem_cons] at hls ⊢
    exact ⟨hline.not_mem hls.1, ih hls.2⟩

namespace Compile

variable {c : Context} {constants : OrderedMap Text Text} {stage : Stage}

/-- A texture that is entered has the annotation of the slot that is given back. -/
theorem textureAnnotation?_of_declareTexture
    {line : Text} {form : TextureForm} {slot : Slot}
    (h : (declareTexture constants stage line form c).result = .ok slot) :
  (declareTexture constants stage line form c).context.resources.textureAnnotation? form.name
    = some slot.annotation
  := by
  rw [declareTexture] at h ⊢
  cases hfunction : TextureFunction.ofName? form.function with
  | none =>
    rw [hfunction] at h
    cases h
  | some function =>
    rw [hfunction] at h
    dsimp only at h ⊢
    obtain ⟨length, hlength, h⟩ := ok_of_bind h
    rw [bind_of_ok hlength]
    obtain ⟨t, ht, -⟩ := ok_of_bind h
    obtain ⟨ss, free, hregistered⟩ := registeredTexture_of_ok ht
    have henter := enterTexture_of_registered hregistered stage
    rw [henter] at h ⊢
    obtain rfl := Except.ok.inj h
    apply Option.map_eq_some_iff.mpr
    exact ⟨_, OrderedMap.find?_insert_self _ _ _, rfl⟩

theorem lineBecomes_of_processLine
    {line out : Text} (h : (processLine constants stage line c).result = .ok out) :
  LineBecomes (processLine constants stage line c).context.resources line out
  := by
  rw [processLine] at h ⊢
  cases hline : Declaration.ofLine? line with
  | none =>
    rw [hline] at h
    obtain rfl := Except.ok.inj h
    apply LineBecomes.kept hline
  | some d =>
    rw [hline] at h
    obtain ⟨text?, htext, h⟩ := ok_of_bind h
    obtain rfl := Except.ok.inj h
    rw [bind_of_ok htext]
    obtain ⟨text, hdeclare, htext'⟩ := ok_of_bind htext
    obtain rfl := Except.ok.inj htext'
    rw [declareIf, bind_of_ok hdeclare]
    cases d with
    | texture form =>
      obtain ⟨slot, hslot, htext⟩ := ok_of_bind hdeclare
      obtain rfl := Except.ok.inj htext
      rw [declare, bind_of_ok hslot]
      apply LineBecomes.annotated hline
      apply textureAnnotation?_of_declareTexture hslot
    | varying form =>
      cases stage <;>
      · obtain ⟨_, -, hdeclare⟩ := ok_of_bind hdeclare
        obtain rfl := Except.ok.inj hdeclare
        exact LineBecomes.dropped hline rfl
    | _ =>
      obtain ⟨_, -, hdeclare⟩ := ok_of_bind hdeclare
      obtain rfl := Except.ok.inj hdeclare
      exact LineBecomes.dropped hline rfl

/-- The lines of a stage become those of the text that comes out. -/
theorem linesBecome_of_processStage
    {code out : Text} (h : (processStage constants stage code c).result = .ok out) :
  LinesBecome (processStage constants stage code c).context.resources code out
  := by
  rw [processStage] at h ⊢
  obtain ⟨ls, hls, h⟩ := ok_of_bind h
  obtain rfl := Except.ok.inj h
  have hlines := forall₂_of_each (does_processLine constants stage) lasting_lineBecomes
    lineBecomes_of_processLine hls
  have hne : ls ≠ [] := by
    rintro rfl
    exact Text.splitOn_ne_nil '\n' code (List.forall₂_nil_right_iff.mp hlines)
  have hbreaks := not_mem_of_linesBecome hlines fun l => Text.not_mem_of_mem_lines
  rw [bind_of_ok hls, LinesBecome]
  rw [Text.lines_unlines hne hbreaks]
  apply hlines

end Compile

/-! ### Samplers -/

/-- The pieces of a stage at its declarations of samplers. -/
def samplerPieces (code : Text) : List (Piece SamplerForm) :=
  Piece.ofText (fun _ => SamplerForm.pattern) code

/-- What becomes of a piece of a stage when its samplers are annotated: the declaration of a
sampler gets the annotation that belongs to its name, and any other character stays. -/
inductive SamplerPieceBecomes (r : Resources) : Piece SamplerForm → Text → Prop
  | plain (ch : Char) : SamplerPieceBecomes r (.plain ch) [ch]
  | annotated {form : SamplerForm} {t a : Text} :
    r.samplerAnnotation? form.name = some a → SamplerPieceBecomes r (.found t form) (a ++ t)

/-- The pieces of a stage become the parts of another text.  Without the annotations the parts are
the pieces, which make up the stage. -/
def SamplersBecome (r : Resources) (code out : Text) : Prop :=
  (samplerPieces code).flatMap Piece.source = code ∧
    ∃ parts, List.Forall₂ (SamplerPieceBecomes r) (samplerPieces code) parts ∧
      out = parts.flatten

theorem lasting_samplerPieceBecomes (piece : Piece SamplerForm) (out : Text) :
  Lasting fun r => SamplerPieceBecomes r piece out
  := by
  intro mode limits e r ss r' hstep h
  cases h with
  | plain ch => apply SamplerPieceBecomes.plain
  | annotated ha =>
    apply SamplerPieceBecomes.annotated
    apply Resources.lasting_samplerAnnotation? _ _ hstep ha

theorem lasting_samplersBecome (code out : Text) :
  Lasting fun r => SamplersBecome r code out
  := by
  rintro mode limits e r ss r' hstep ⟨hsource, parts, hparts, hout⟩
  use hsource, parts
  use Resources.lasting_forall₂ lasting_samplerPieceBecomes _ _ hstep hparts

namespace Compile

variable {c : Context} {stage : Stage}

/-- A sampler that is entered has the annotation of the slot that is given back. -/
theorem samplerAnnotation?_of_declareSampler
    {form : SamplerForm} {slot : Slot} (h : (declareSampler stage form c).result = .ok slot) :
  (declareSampler stage form c).context.resources.samplerAnnotation? form.name
    = some slot.annotation
  := by
  obtain ⟨_, hmark, h⟩ := ok_of_bind h
  obtain ⟨s, hs, -⟩ := ok_of_bind h
  obtain ⟨ss, r, hregistered, -, -, hfind⟩ := registeredSampler_of_ok hs
  have henter := enterSampler_of_registered hregistered stage
  rw [henter] at h
  obtain rfl := Except.ok.inj h
  rw [declareSampler, bind_of_ok hmark, henter]
  apply Option.map_eq_some_iff.mpr
  use s, hfind

theorem does_annotatePiece
    (stage : Stage) (piece : Piece SamplerForm) (c : Context) :
  Does (annotatePiece (declareSampler stage) piece) c fun _ es =>
    es = (Piece.values [piece]).flatMap fun form => [.mark form.name, .sampler stage form.name]
  := by
  cases piece with
  | plain ch => exact does_pure rfl
  | found t form =>
    apply Does.bind_pure
    apply does_declareSampler

theorem samplerPieceBecomes_of_annotatePiece
    {piece : Piece SamplerForm} {out : Text}
    (h : (annotatePiece (declareSampler stage) piece c).result = .ok out) :
  SamplerPieceBecomes (annotatePiece (declareSampler stage) piece c).context.resources piece out
  := by
  cases piece with
  | plain ch =>
    obtain rfl := Except.ok.inj h
    apply SamplerPieceBecomes.plain
  | found t form =>
    obtain ⟨slot, hslot, h⟩ := ok_of_bind h
    obtain rfl := Except.ok.inj h
    rw [annotatePiece, bind_of_ok hslot]
    apply SamplerPieceBecomes.annotated
    apply samplerAnnotation?_of_declareSampler hslot

/-- The pieces of a stage become the parts of the text that comes out. -/
theorem samplersBecome_of_annotateSamplers
    {code out : Text} (h : (annotateSamplers stage code c).result = .ok out) :
  SamplersBecome (annotateSamplers stage code c).context.resources code out
  := by
  rw [annotateSamplers, annotateEach] at h ⊢
  obtain ⟨parts, hparts, h⟩ := ok_of_bind h
  obtain rfl := Except.ok.inj h
  have hpieces := forall₂_of_each (does_annotatePiece stage) lasting_samplerPieceBecomes
    samplerPieceBecomes_of_annotatePiece hparts
  rw [bind_of_ok hparts]
  use Piece.flatMap_source_ofText _ code, parts, hpieces

/-! ### Both stages -/

/-- Goes through the lines of both stages, changes the texts in some way, and goes through their
samplers.  It gives the texts behind the lines and behind the samplers. -/
def declareShared (constants : Stage → OrderedMap Text Text) (change : StageTexts → StageTexts)
    (texts : StageTexts) : Compile (StageTexts × StageTexts) := do
  let declared ← bothStages (fun stage => processStage (constants stage) stage) texts
  let sampled ← bothStages annotateSamplers (change declared)
  return (declared, sampled)

end Compile

/-- In every context that can be reached, all declarations of textures and samplers in the two
stages have the annotation that the registries have for their name in the end. -/
theorem stages_agree
    (mode : Mode) (limits : Limits) (components : OrderedMap Text Int) (ops : List Operation)
    (constants : Stage → OrderedMap Text Text) (change : StageTexts → StageTexts)
    (texts declared sampled : StageTexts) :
  let o := Compile.declareShared constants change texts
    ((Context.fresh mode limits components).after ops)
  let r := o.context.resources
  o.result = .ok (declared, sampled) →
    LinesBecome r texts.vertex declared.vertex ∧
    LinesBecome r texts.fragment declared.fragment ∧
    SamplersBecome r (change declared).vertex sampled.vertex ∧
    SamplersBecome r (change declared).fragment sampled.fragment
  := by
  dsimp only
  generalize (Context.fresh mode limits components).after ops = c
  intro h
  obtain ⟨declared', hdeclared, h⟩ := Compile.ok_of_bind h
  obtain ⟨sampled', hsampled, h⟩ := Compile.ok_of_bind h
  obtain ⟨rfl, rfl⟩ := Prod.mk.inj (Except.ok.inj h)
  have hlines := Compile.both_of_bothStages
    (fun stage => Compile.does_processStage (constants stage) stage)
    lasting_linesBecome Compile.linesBecome_of_processStage hdeclared
  have hsamplers := Compile.both_of_bothStages Compile.does_annotateSamplers
    lasting_samplersBecome Compile.samplersBecome_of_annotateSamplers hsampled
  rw [Compile.declareShared, Compile.bind_of_ok hdeclared, Compile.bind_of_ok hsampled]
  -- the samplers change no annotation of a texture
  have hdoes := Compile.does_bothStages Compile.does_annotateSamplers (change declared')
  refine ⟨?_, ?_, hsamplers⟩
  · apply (hdoes _).lasting (lasting_linesBecome _ _) hlines.1
  · apply (hdoes _).lasting (lasting_linesBecome _ _) hlines.2

/-- A pair with an array of textures and a sampler that stand in both stages. -/
def sharedTexture : StageTexts where
  vertex := "var t : array<texture_2d<f32>, 2>;\nvar s : sampler;\nf(t)"
  fragment := "var t : texture_2d<i32>; var s:sampler;\nvar u : texture_2d<u32>;"

namespace sharedTexture

/-- The pair behind its lines. -/
def declared : StageTexts where
  vertex := "@group(0) @binding(0) var t : array<texture_2d<f32>, 2>;\nvar s : sampler;\nf(t)"
  fragment := "@group(0) @binding(0) var t : texture_2d<i32>; var s:sampler;\n"
    ++ "@group(0) @binding(2) var u : texture_2d<u32>;"

/-- The pair behind its samplers. -/
def sampled : StageTexts where
  vertex := "@group(0) @binding(0) var t : array<texture_2d<f32>, 2>;\n"
    ++ "@group(0) @binding(3) var s : sampler;\nf(t)"
  fragment := "@group(0) @binding(0) var t : texture_2d<i32>; "
    ++ "@group(0) @binding(3) var s:sampler;\n@group(0) @binding(2) var u : texture_2d<u32>;"

end sharedTexture

open sharedTexture in
/-- The texture and the sampler that stand in both stages have one annotation each. -/
theorem stages_agree_sharedTexture :
  let o := Compile.declareShared (fun _ => ∅) id sharedTexture
    ((Context.fresh .pure {} ∅).after [])
  o.result = .ok (declared, sampled) ∧
    o.context.resources.textureAnnotation? ("t" : Text) = some "@group(0) @binding(0) " ∧
    o.context.resources.samplerAnnotation? ("s" : Text) = some "@group(0) @binding(3) " ∧
    LinesBecome o.context.resources sharedTexture.vertex declared.vertex ∧
    LinesBecome o.context.resources sharedTexture.fragment declared.fragment ∧
    SamplersBecome o.context.resources declared.vertex sampled.vertex ∧
    SamplersBecome o.context.resources declared.fragment sampled.fragment
  := by
  have hresult : (Compile.declareShared (fun _ => ∅) id sharedTexture
      ((Context.fresh .pure {} ∅).after [])).result = .ok (declared, sampled) := by
    decide +kernel
  use hresult
  use by decide +kernel, by decide +kernel
  apply stages_agree .pure {} ∅ [] (fun _ => ∅) id sharedTexture declared sampled hresult

end ShaderPair
