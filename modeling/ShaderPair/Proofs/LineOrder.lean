import ShaderPair.Proofs.AllOrNothing
import ShaderPair.Proofs.ContextParts
import ShaderPair.Proofs.StageAgreement

/-!
# The order of lines

The order of the lines of a stage matters within each kind of declarations only.  Two lines that
declare nothing of the same kind can change places: each of them is local to its kind, or does
nothing (`Compile.OfKinds`).  From any order of the lines to any other one that agrees with it
on each kind (`Reordered`) there is a way by such exchanges, and so a stage comes to the same
context in both, and its lines to the same texts (`processStage_reordered`).
-/

namespace ShaderPair

/-! ### Reordered lists -/

section

variable {α κ : Type} [DecidableEq κ] {kind? : α → Option κ} {a b : α} {as bs bs' : List α}

/-- Elements that are not of the same kind; an element without a kind differs from all. -/
def DifferInKind (kind? : α → Option κ) (a b : α) : Prop :=
  ∀ k, kind? a = some k → kind? b ≠ some k

/-- Lists with the same elements, those of each kind in the same order. -/
structure Reordered (kind? : α → Option κ) (as bs : List α) : Prop where
  perm : as.Perm bs
  inOrder (k : κ) : as.filter (kind? · = some k) = bs.filter (kind? · = some k)

theorem Reordered.symm (h : Reordered kind? as bs) :
  Reordered kind? bs as
  := ⟨h.perm.symm, fun k => (h.inOrder k).symm⟩

/-- The first element of a list stands in a reordered list behind elements of other kinds. -/
theorem Reordered.split (h : Reordered kind? (a :: as) bs) :
  ∃ bs₁ bs₂, bs = bs₁ ++ a :: bs₂ ∧ ∀ b ∈ bs₁, DifferInKind kind? a b
  := by
  cases hkind : kind? a with
  | none =>
    obtain ⟨bs₁, bs₂, rfl⟩ := List.append_of_mem (h.perm.subset List.mem_cons_self)
    refine ⟨bs₁, bs₂, rfl, ?_⟩
    intro b _ k hk
    rw [hkind] at hk
    cases hk
  | some k =>
    have hfilter := h.inOrder k
    rw [List.filter_cons_of_pos (by simp [hkind])] at hfilter
    obtain ⟨bs₁, bs₂, rfl, hother, -, -⟩ := List.filter_eq_cons_iff.mp hfilter.symm
    refine ⟨bs₁, bs₂, rfl, ?_⟩
    intro b hb k' hk'
    rw [hkind] at hk'
    obtain rfl := Option.some_inj.mp hk'
    simpa using hother b hb

/-- Without an element that stands behind elements of other kinds, a list is reordered as
before. -/
theorem Reordered.erase
    (h : Reordered kind? (a :: as) (bs ++ a :: bs'))
    (hdiffer : ∀ b ∈ bs, DifferInKind kind? a b) :
  Reordered kind? as (bs ++ bs')
  := by
  constructor
  · apply List.Perm.cons_inv (a := a)
    apply h.perm.trans List.perm_middle
  · intro k
    have hfilter := h.inOrder k
    rw [List.filter_append] at hfilter ⊢
    by_cases hk : kind? a = some k
    · have hnone : bs.filter (kind? · = some k) = [] := by
        rw [List.filter_eq_nil_iff]
        intro b hb
        simpa using hdiffer b hb k hk
      rw [List.filter_cons_of_pos (by simpa), List.filter_cons_of_pos (by simpa), hnone]
        at hfilter
      rw [hnone]
      exact (List.cons.inj hfilter).2
    · rwa [List.filter_cons_of_neg (by simpa), List.filter_cons_of_neg (by simpa)] at hfilter

end

namespace Compile

variable {α β : Type} {f : α → Compile β} {a b : α} {as bs : List α} {c c' : Context}

/-! ### Programs one after the other -/

/-- The programs for the elements of a list succeed one after the other, and lead from a context
to another one. -/
inductive Runs (f : α → Compile β) : Context → List α → Context → Prop
  | nil (c : Context) : Runs f c [] c
  | cons {c c' : Context} {a : α} {as : List α} {b : β} :
    (f a c).result = .ok b → Runs f (f a c).context as c' → Runs f c (a :: as) c'

theorem Runs.of_each {bs : List β} (h : (each f as c).result = .ok bs) :
  Runs f c as (each f as c).context
  := by
  induction as generalizing c bs with
  | nil => exact Runs.nil c
  | cons a as ih =>
    obtain ⟨b, hb, hrest⟩ := ok_of_bind h
    obtain ⟨bs, hbs, -⟩ := ok_of_bind hrest
    rw [each, bind_of_ok hb, bind_of_ok hbs]
    exact Runs.cons hb (ih hbs)

theorem Runs.each (h : Runs f c as c') :
  ∃ bs, (each f as c).result = .ok bs ∧ (Compile.each f as c).context = c'
  := by
  induction h with
  | nil c => exact ⟨[], rfl, rfl⟩
  | cons hb _ ih =>
    obtain ⟨bs, hbs, hcontext⟩ := ih
    rw [Compile.each, bind_of_ok hb, bind_of_ok hbs]
    exact ⟨_, rfl, hcontext⟩

/-! ### Programs of kinds -/

/-- The program for an element is local to its kind, or it does nothing if there is none. -/
def OfKinds (kind? : α → Option DeclarationKind) (f : α → Compile β) : Prop :=
  ∀ a, match kind? a with
    | none => ∃ b, f a = pure b
    | some kind => Local kind (f a)

variable {kind? : α → Option DeclarationKind}

/-- The programs for elements of different kinds can change places. -/
theorem OfKinds.exchange (hf : OfKinds kind? f) (h : DifferInKind kind? a b) (c : Context) :
  (f b (f a c).context).result = (f b c).result ∧
    (f a (f b c).context).result = (f a c).result ∧
    (f b (f a c).context).context = (f a (f b c).context).context
  := by
  have ha := hf a
  have hb := hf b
  cases hkind : kind? a with
  | none =>
    rw [hkind] at ha
    obtain ⟨x, hx⟩ := ha
    rw [hx]
    exact ⟨rfl, rfl, rfl⟩
  | some kind =>
    rw [hkind] at ha
    cases hkind' : kind? b with
    | none =>
      rw [hkind'] at hb
      obtain ⟨y, hy⟩ := hb
      rw [hy]
      exact ⟨rfl, rfl, rfl⟩
    | some kind' =>
      rw [hkind'] at hb
      have hne : kind ≠ kind' := by
        rintro rfl
        exact h kind hkind hkind'
      refine ⟨?_, ?_, ha.commute hb hne c⟩
      · rw [ha.apply_behind hb hne]
      · rw [hb.apply_behind ha (Ne.symm hne)]

/-- The first two elements of a list can change places. -/
theorem Runs.swap
    (hf : OfKinds kind? f) (hdiffer : DifferInKind kind? a b)
    (h : Runs f c (a :: b :: as) c') :
  Runs f c (b :: a :: as) c'
  := by
  obtain ⟨hb, ha, hcontext⟩ := hf.exchange hdiffer c
  cases h with
  | cons hfirst h =>
    cases h with
    | cons hsecond hrest =>
      rw [hcontext] at hrest
      exact Runs.cons (hb.symm.trans hsecond) (Runs.cons (ha.trans hfirst) hrest)

/-- The first element of a list can be put behind elements of other kinds. -/
theorem Runs.delay
    (hf : OfKinds kind? f) (hdiffer : ∀ b ∈ bs, DifferInKind kind? a b)
    (h : Runs f c (a :: (bs ++ as)) c') :
  Runs f c (bs ++ a :: as) c'
  := by
  induction bs generalizing c with
  | nil => exact h
  | cons b bs ih =>
    rw [List.forall_mem_cons] at hdiffer
    cases Runs.swap hf hdiffer.1 h with
    | cons hb hrest => exact Runs.cons hb (ih hdiffer.2 hrest)

/-- A list can be gone through in any order that agrees on each kind. -/
theorem Runs.reorder
    (hf : OfKinds kind? f) (hlists : Reordered kind? as bs) (h : Runs f c as c') :
  Runs f c bs c'
  := by
  induction as generalizing bs c with
  | nil =>
    rw [List.nil_perm.mp hlists.perm]
    exact h
  | cons a as ih =>
    obtain ⟨bs₁, bs₂, rfl, hdiffer⟩ := hlists.split
    apply Runs.delay hf hdiffer
    cases h with
    | cons ha hrest => exact Runs.cons ha (ih (hlists.erase hdiffer) hrest)

/-! ### Lines -/

/-- Lines are programs of the kinds that they declare. -/
theorem ofKinds_processLine (constants : OrderedMap Text Text) (stage : Stage) :
  OfKinds Declaration.kindOfLine? (processLine constants stage)
  := by
  intro line
  cases hline : Declaration.ofLine? line with
  | none =>
    rw [Declaration.kindOfLine?, hline]
    exact ⟨line, processLine_of_none hline⟩
  | some d =>
    rw [Declaration.kindOfLine?, hline, processLine_of_some hline]
    apply local_declare

/-- The lines of a stage lead where the stage leads. -/
theorem Runs.of_processStage
    {constants : OrderedMap Text Text} {stage : Stage} {code text : Text}
    (h : (processStage constants stage code c).result = .ok text) :
  Runs (processLine constants stage) c (Text.lines code)
    (processStage constants stage code c).context
  := by
  obtain ⟨texts, htexts, -⟩ := ok_of_bind h
  rw [processStage, bind_of_ok htexts]
  exact Runs.of_each htexts

theorem Runs.processStage
    {constants : OrderedMap Text Text} {stage : Stage} {code : Text}
    (h : Runs (processLine constants stage) c (Text.lines code) c') :
  ∃ text, (processStage constants stage code c).result = .ok text ∧
    (Compile.processStage constants stage code c).context = c'
  := by
  obtain ⟨texts, htexts, hcontext⟩ := h.each
  rw [Compile.processStage, bind_of_ok htexts]
  exact ⟨_, rfl, hcontext⟩

end Compile

/-! ### Replacements -/

namespace Resources

/-- The text in place of a line, where some resources are registered. -/
def replacement (r : Resources) (line : Text) : Text :=
  match Declaration.ofLine? line with
  | none => line
  | some (.texture form) => (r.textureAnnotation? form.name).getD [] ++ line
  | some _ => []

theorem replacement_of_lineBecomes {r : Resources} {line out : Text} (h : LineBecomes r line out) :
  out = r.replacement line
  := by
  rw [replacement]
  cases h with
  | kept hline => rw [hline]
  | @dropped d hline hforms =>
    rw [hline]
    cases d with
    | texture form => cases hforms
    | _ => rfl
  | annotated hline ha =>
    rw [hline]
    dsimp only
    rw [ha, Option.getD_some]

/-- Each line of a stage becomes its replacement. -/
theorem lines_of_linesBecome {r : Resources} {code out : Text} (h : LinesBecome r code out) :
  Text.lines out = (Text.lines code).map r.replacement
  := by
  have hequal : List.Forall₂ Eq (Text.lines out) ((Text.lines code).map r.replacement) := by
    rw [List.forall₂_map_right_iff]
    exact (h.imp fun _ _ => replacement_of_lineBecomes).flip
  rwa [List.forall₂_eq_eq_eq] at hequal

end Resources

/-! ### Stages -/

variable {constants : OrderedMap Text Text} {stage : Stage} {code code' : Text} {c : Context}

/-- A stage can be gone through in another order of its lines, and leads to the same context. -/
theorem Compile.processStage_of_reordered
    {text : Text}
    (hlines : Reordered Declaration.kindOfLine? (Text.lines code) (Text.lines code'))
    (h : (processStage constants stage code c).result = .ok text) :
  ∃ text', (processStage constants stage code' c).result = .ok text' ∧
    (processStage constants stage code' c).context = (processStage constants stage code c).context
  := by
  have hruns := Runs.of_processStage h
  exact (hruns.reorder (ofKinds_processLine constants stage) hlines).processStage

/-- Where two stages have the same lines, and those of each kind in the same order, both can be
gone through if one of them can.  They lead to the same context then, and every line has the
same text in its place in both. -/
theorem processStage_reordered
    (hlines : Reordered Declaration.kindOfLine? (Text.lines code) (Text.lines code')) :
  let o := Compile.processStage constants stage code c
  let o' := Compile.processStage constants stage code' c
  ((∃ text, o.result = .ok text) ↔ ∃ text', o'.result = .ok text') ∧
  ∀ text text', o.result = .ok text → o'.result = .ok text' →
    o'.context = o.context ∧
    Text.lines text = (Text.lines code).map o.context.resources.replacement ∧
    Text.lines text' = (Text.lines code').map o.context.resources.replacement
  := by
  intro o o'
  constructor
  · constructor
    · rintro ⟨text, htext⟩
      obtain ⟨text', htext', -⟩ := Compile.processStage_of_reordered hlines htext
      exact ⟨text', htext'⟩
    · rintro ⟨text', htext'⟩
      obtain ⟨text, htext, -⟩ := Compile.processStage_of_reordered hlines.symm htext'
      exact ⟨text, htext⟩
  · intro text text' htext htext'
    obtain ⟨-, -, hcontext⟩ := Compile.processStage_of_reordered hlines htext
    have hbecome := Compile.linesBecome_of_processStage htext
    have hbecome' := Compile.linesBecome_of_processStage htext'
    rw [hcontext] at hbecome'
    exact ⟨hcontext, Resources.lines_of_linesBecome hbecome,
      Resources.lines_of_linesBecome hbecome'⟩

/-- A texture, an attribute, a uniform and a line of code change places with a texture behind the
first one. -/
theorem processStage_reordered_mixed :
  let c := Context.fresh .engine {} ∅
  let code := Text.unlines ["var s : texture_2d<f32>;", "attribute p : vec3<f32>;", "x = 1;",
    "var t : texture_2d<f32>;", "uniform u : f32;"]
  let code' := Text.unlines ["uniform u : f32;", "x = 1;", "var s : texture_2d<f32>;",
    "var t : texture_2d<f32>;", "attribute p : vec3<f32>;"]
  let text := Text.unlines ["@group(1) @binding(0) " ++ "var s : texture_2d<f32>;", [], "x = 1;",
    "@group(1) @binding(1) " ++ "var t : texture_2d<f32>;", []]
  let text' := Text.unlines [[], "x = 1;", "@group(1) @binding(0) " ++ "var s : texture_2d<f32>;",
    "@group(1) @binding(1) " ++ "var t : texture_2d<f32>;", []]
  let o := Compile.processStage ∅ .vertex code c
  let o' := Compile.processStage ∅ .vertex code' c
  Reordered Declaration.kindOfLine? (Text.lines code) (Text.lines code') ∧
    o.result = .ok text ∧ o'.result = .ok text' ∧ o'.context = o.context
  := by
  intro c code code' text text' o o'
  have hlines : Reordered Declaration.kindOfLine? (Text.lines code) (Text.lines code') := by
    constructor
    · decide +kernel
    · intro k
      cases k <;> decide +kernel
  have htext : o.result = .ok text := by decide +kernel
  have htext' : o'.result = .ok text' := by decide +kernel
  obtain ⟨-, hsame⟩ := processStage_reordered hlines
  exact ⟨hlines, htext, htext', (hsame text text' htext htext').1⟩

end ShaderPair
