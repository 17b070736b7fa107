import ShaderPair.Pair
import ShaderPair.Proofs.CommentTails
import ShaderPair.Proofs.ProgramSteps

/-!
# Sources that hold the declaration of the engine

A source that holds the declaration of the buffer of the engine is gone through with its comments,
since `prepare` leaves it alone.  What the lines of a stage do to the context is settled by what they
declare, in that order (`Compile.agree_processStage`).  So the comments of such a source make no
difference if the lines declare the same without them (`prepared_agrees`), for instance if each
comment stands behind its line and is inert (`declarationsIn_of_commented`).  A declaration inside a
comment, however, is entered (`not_prepared_agrees`).
-/

namespace ShaderPair

/-! ### Outcomes that agree -/

/-- Two outcomes that tell apart neither whether there was a fault nor what happened on the way. -/
structure Outcome.Agree {α β : Type} (o : Outcome α) (o' : Outcome β) : Prop where
  isOk : o.result.isOk = o'.result.isOk
  warnings : o.warnings = o'.warnings
  taken : o.taken = o'.taken
  context : o.context = o'.context

namespace Outcome.Agree

variable {α β γ : Type} {o : Outcome α} {o' : Outcome β} {o'' : Outcome γ}

theorem refl (o : Outcome α) :
  o.Agree o
  := ⟨rfl, rfl, rfl, rfl⟩

theorem symm (h : o.Agree o') :
  o'.Agree o
  := ⟨h.isOk.symm, h.warnings.symm, h.taken.symm, h.context.symm⟩

theorem trans (h : o.Agree o') (h' : o'.Agree o'') :
  o.Agree o''
  := ⟨h.isOk.trans h'.isOk, h.warnings.trans h'.warnings, h.taken.trans h'.taken,
    h.context.trans h'.context⟩

end Outcome.Agree

namespace Compile

variable {α β γ δ : Type} {x : Compile α} {y : Compile β} {f : α → Compile γ} {g : β → Compile δ}

/-- Programs whose outcomes agree, whatever the context. -/
def Agree (x : Compile α) (y : Compile β) : Prop := ∀ c, (x c).Agree (y c)

theorem agree_refl (x : Compile α) :
  Agree x x
  := fun c => .refl (x c)

/-- Programs go on to agree if they do so whatever the values are. -/
theorem Agree.bind (hx : Agree x y) (hf : ∀ a b, Agree (f a) (g b)) :
  Agree (x >>= f) (y >>= g)
  := by
  intro c
  obtain ⟨hok, hwarnings, htaken, hcontext⟩ := hx c
  cases hresult : (x c).result with
  | error e =>
    rw [hresult] at hok
    cases hresult' : (y c).result with
    | error e' =>
      rw [bind_of_error hresult, bind_of_error hresult']
      exact ⟨rfl, hwarnings, htaken, hcontext⟩
    | ok b =>
      rw [hresult'] at hok
      cases hok
  | ok a =>
    rw [hresult] at hok
    cases hresult' : (y c).result with
    | error e' =>
      rw [hresult'] at hok
      cases hok
    | ok b =>
      obtain ⟨hok', hwarnings', htaken', hcontext'⟩ := hf a b (x c).context
      rw [bind_of_ok hresult, bind_of_ok hresult', ← hcontext]
      exact ⟨hok', congrArg₂ _ hwarnings hwarnings', congrArg₂ _ htaken htaken', hcontext'⟩

theorem agree_bind_pure (x : Compile α) (g : α → β) :
  Agree (x >>= fun a => pure (g a)) x
  := by
  have h : Agree (x >>= fun a => pure (g a)) (x >>= pure) :=
    (agree_refl x).bind fun _ _ _ => ⟨rfl, rfl, rfl, rfl⟩
  rwa [bind_pure] at h

/-! ### Stages -/

variable (constants : OrderedMap Text Text) (stage : Stage)

/-- The line of a declaration shows in its text and in faults only. -/
theorem agree_declare (line line' : Text) (d : Declaration) :
  Agree (declare constants stage line d) (declare constants stage line' d)
  := by
  cases d with
  | texture form =>
    have htexture : Agree (declareTexture constants stage line form)
        (declareTexture constants stage line' form) := by
      rw [declareTexture, declareTexture]
      split
      · exact fun _ => ⟨rfl, rfl, rfl, rfl⟩
      · apply agree_refl
    exact htexture.bind fun _ _ _ => ⟨rfl, rfl, rfl, rfl⟩
  | _ => apply agree_refl

/-- Enters declarations one after the other. -/
def declareAll (ds : List Declaration) : Compile (List Text) := each (declare constants stage []) ds

/-- Lines do what their declarations do, one after the other. -/
theorem agree_processLines (ls : List Text) :
  Agree (each (processLine constants stage) ls)
    (declareAll constants stage (ls.filterMap Declaration.ofLine?))
  := by
  induction ls with
  | nil => exact fun _ => ⟨rfl, rfl, rfl, rfl⟩
  | cons l ls ih =>
    cases hline : Declaration.ofLine? l with
    | none =>
      rw [List.filterMap_cons_none hline, each, processLine_of_none hline, pure_bind]
      intro c
      exact (agree_bind_pure _ _ c).trans (ih c)
    | some d =>
      rw [List.filterMap_cons_some hline, each, declareAll, each, processLine_of_some hline]
      apply (agree_declare constants stage l [] d).bind
      intro _ _
      apply ih.bind
      exact fun _ _ _ => ⟨rfl, rfl, rfl, rfl⟩

/-- A stage does what the declarations in its lines do. -/
theorem agree_processStage (code : Text) :
  Agree (processStage constants stage code)
    (declareAll constants stage ((Text.lines code).filterMap Declaration.ofLine?))
  := by
  intro c
  apply (agree_bind_pure _ _ c).trans
  apply agree_processLines

end Compile

/-! ### Sources -/

/-- What the lines of a text declare, in order. -/
def declarationsIn (code : Text) : List Declaration :=
  (Text.lines code).filterMap Declaration.ofLine?

/-- A line as it may stand with comments: an inert text follows it, or there is no semicolon,
neither in the line nor in the comments. -/
inductive Commented (line : Text) : Text → Prop
  | inert {x : Text} : Declaration.Inert x → Commented line (line ++ x)
  | plain {l : Text} : ';' ∉ line → ';' ∉ l → Commented line l

namespace Commented

variable {line l : Text}

theorem iff_prefix :
  Commented line l ↔
    line <+: l ∧ Declaration.Inert (l.drop line.length) ∨ ';' ∉ line ∧ ';' ∉ l
  := by
  constructor
  · intro h
    cases h with
    | inert hx =>
      left
      use List.prefix_append line _
      rw [List.drop_left]
      exact hx
    | plain hline hl =>
      right
      exact ⟨hline, hl⟩
  · rintro (⟨⟨x, rfl⟩, hx⟩ | ⟨hline, hl⟩)
    · rw [List.drop_left] at hx
      exact inert hx
    · exact plain hline hl

instance : Decidable (Commented line l) := decidable_of_iff' _ iff_prefix

/-- Such comments make no difference for what a line declares. -/
theorem ofLine?_eq (h : Commented line l) :
  Declaration.ofLine? l = Declaration.ofLine? line
  := by
  cases h with
  | inert hx => apply Declaration.ofLine?_append hx
  | plain hline hl => rw [Declaration.ofLine?_eq_none hline, Declaration.ofLine?_eq_none hl]

end Commented

/-- Lines declare the same with and without such comments. -/
theorem declarationsIn_of_commented
    {code code' : Text} (h : List.Forall₂ Commented (Text.lines code') (Text.lines code)) :
  declarationsIn code = declarationsIn code'
  := by
  rw [declarationsIn, declarationsIn]
  generalize Text.lines code' = ls, Text.lines code = ls' at h
  induction h with
  | nil => rfl
  | cons hline _ ih => rw [List.filterMap_cons, List.filterMap_cons, hline.ofLine?_eq, ih]

/-- A source that holds the declaration of the engine is left alone, and so all that its lines declare
is entered, inside of comments too.  If they declare the same without comments, going through the
source and through the text without comments either both fails or leaves the same context.  They do so
if each comment is inert behind its line, or in a line without semicolons. -/
theorem prepared_agrees
    {code : Text} (h : Text.occurs internalsDeclaration code = true) :
  prepare .engine code = code ∧
  (∀ (constants : OrderedMap Text Text) (stage : Stage) (c : Context),
    let o := Compile.processStage constants stage (prepare .engine code) c
    o.Agree (Compile.declareAll constants stage (declarationsIn code) c) ∧
    (declarationsIn code = declarationsIn (Comment.remove code) →
      o.Agree (Compile.processStage constants stage (Comment.remove code) c))) ∧
  (List.Forall₂ Commented (Text.lines (Comment.remove code)) (Text.lines code) →
    declarationsIn code = declarationsIn (Comment.remove code))
  := by
  have hprepare : prepare .engine code = code := if_pos h
  refine ⟨hprepare, ?_, declarationsIn_of_commented⟩
  intro constants stage c o
  have hagree : o.Agree (Compile.declareAll constants stage (declarationsIn code) c) := by
    change (Compile.processStage constants stage (prepare .engine code) c).Agree _
    rw [hprepare]
    apply Compile.agree_processStage
  use hagree
  intro halike
  rw [halike] at hagree
  apply hagree.trans
  exact (Compile.agree_processStage constants stage (Comment.remove code) c).symm

/-- A source with comments behind its declarations and between them. -/
def annotatedSource : Text :=
  internalsDeclaration ++ "attribute p : vec3f; // where it is\n" ++ "/* nothing is\n" ++ "varying */\n"
    ++ "var t : texture_2d<f32>; /* of the sky */"

/-- The comments make no difference. -/
theorem prepared_agrees_annotatedSource :
  Text.occurs internalsDeclaration annotatedSource = true ∧
    List.Forall₂ Commented (Text.lines (Comment.remove annotatedSource))
      (Text.lines annotatedSource) ∧
    (declarationsIn annotatedSource).length = 2 ∧
    ∀ (constants : OrderedMap Text Text) (stage : Stage) (c : Context),
      (Compile.processStage constants stage annotatedSource c).Agree
        (Compile.processStage constants stage (Comment.remove annotatedSource) c)
  := by
  have h : Text.occurs internalsDeclaration annotatedSource = true := by decide +kernel
  have hcommented : List.Forall₂ Commented (Text.lines (Comment.remove annotatedSource))
      (Text.lines annotatedSource) := by
    decide +kernel
  obtain ⟨hprepare, hagree, halike⟩ := prepared_agrees h
  rw [hprepare] at hagree
  refine ⟨h, hcommented, by decide +kernel, ?_⟩
  intro constants stage c
  apply (hagree constants stage c).2 (halike hcommented)

/-- A plain uniform inside a comment is entered, but only if the source holds the declaration of the
engine. -/
theorem not_prepared_agrees :
  ¬ ∀ (code : Text) (constants : OrderedMap Text Text) (stage : Stage) (c : Context),
    Text.occurs internalsDeclaration code = true →
      let o := Compile.processStage constants stage (prepare .engine code) c
      let o' := Compile.processStage constants stage (Comment.remove code) c
      o.result.isOk = false ∧ o'.result.isOk = false ∨ o.context = o'.context
  := by
  intro h
  let code : Text := internalsDeclaration ++ "// uniform u : f32;"
  let c := Context.fresh .engine {} ∅
  have hoccurs : Text.occurs internalsDeclaration code = true := by decide +kernel
  have hok : (Compile.processStage ∅ .vertex (Comment.remove code) c).result.isOk = true := by
    decide +kernel
  have hnames : (Compile.processStage ∅ .vertex (prepare .engine code) c).context.uniforms.map
      Uniform.name = [("u" : Text)] := by
    decide +kernel
  have hnames' : (Compile.processStage ∅ .vertex (Comment.remove code) c).context.uniforms.map
      Uniform.name = [] := by
    decide +kernel
  rcases h code ∅ .vertex c hoccurs with ⟨-, hfault⟩ | hcontext
  · rw [hok] at hfault
    cases hfault
  · rw [hcontext, hnames'] at hnames
    cases hnames

end ShaderPair
