import ShaderPair.Proofs.ContextFrame

/-!
# The fields of the leftover buffer

A plain uniform is added to those of the context unless there is one of its name
(`Context.uniforms_enterAll`), and no uniform is ever taken away.  So the fields of the leftover
buffer are the uniforms that the context had before, and behind them the first declaration of each
new name in the pair (`leftOver_fields`).  They are those of the pair alone exactly if the uniforms
that the context had are the first ones of the pair.
-/

namespace ShaderPair

/-- The uniform that an entry declares. -/
def Entry.uniform? : Entry → Option Uniform
  | .uniform form e => some ⟨form.name, e.element, e.length⟩
  | _ => none

/-- The uniforms that the lines of a pair declare, those of the vertex stage first. -/
def SourcePair.uniforms (source : SourcePair) (mode : Mode) : List Uniform :=
  (source.entries mode).filterMap Entry.uniform?

namespace Uniform

/-- The first uniform of each name. -/
def firsts : List Uniform → List Uniform
  | [] => []
  | u :: us => u :: (firsts us).filter fun v => v.name ≠ u.name

/-- The uniforms whose names are not among those of others. -/
def without (others us : List Uniform) : List Uniform :=
  us.filter fun u => u.name ∉ others.map name

variable {us vs : List Uniform} {u : Uniform}

theorem add_of_mem (h : u.name ∈ us.map name) :
  add us u = us
  := by
  rw [add, if_pos]
  obtain ⟨v, hv, hname⟩ := List.mem_map.mp h
  exact List.any_eq_true.mpr ⟨v, hv, beq_iff_eq.mpr hname⟩

theorem add_of_not_mem (h : u.name ∉ us.map name) :
  add us u = us ++ [u]
  := by
  rw [add, if_neg]
  intro hany
  obtain ⟨v, hv, hname⟩ := List.any_eq_true.mp hany
  exact h (List.mem_map.mpr ⟨v, hv, beq_iff_eq.mp hname⟩)

/-- A uniform that is not new keeps no other one away. -/
theorem without_filter_of_mem (h : u.name ∈ us.map name) :
  without us (vs.filter fun v => v.name ≠ u.name) = without us vs
  := by
  rw [without, without, List.filter_filter]
  apply List.filter_congr
  intro v _
  rw [Bool.and_eq_left_iff_imp]
  intro hv
  apply decide_eq_true
  intro heq
  rw [heq] at hv
  exact of_decide_eq_true hv h

theorem without_concat :
  without (us ++ [u]) vs = without us (vs.filter fun v => v.name ≠ u.name)
  := by
  rw [without, without, List.filter_filter]
  apply List.filter_congr
  intro v _
  simp [not_or]

/-- Uniforms that are added one after the other come in where their names are new. -/
theorem foldl_add (us vs : List Uniform) :
  vs.foldl add us = us ++ without us (firsts vs)
  := by
  induction vs generalizing us with
  | nil => exact (List.append_nil us).symm
  | cons u vs ih =>
    rw [List.foldl_cons, ih, firsts]
    by_cases hu : u.name ∈ us.map name
    · rw [add_of_mem hu]
      conv_rhs => rw [without, List.filter_cons_of_neg (by simpa using hu), ← without]
      rw [without_filter_of_mem hu]
    · rw [add_of_not_mem hu, List.append_assoc, without_concat]
      conv_rhs => rw [without, List.filter_cons_of_pos (by simpa using hu), ← without]
      rfl

theorem nodup_firsts (us : List Uniform) :
  ((firsts us).map name).Nodup
  := by
  induction us with
  | nil => apply List.nodup_nil
  | cons u us ih =>
    rw [firsts, List.map_cons, List.nodup_cons]
    constructor
    · intro h
      obtain ⟨v, hv, hname⟩ := List.mem_map.mp h
      exact of_decide_eq_true (List.mem_filter.mp hv).2 hname
    · apply List.Nodup.sublist _ ih
      apply List.Sublist.map
      apply List.filter_sublist

theorem mem_of_mem_firsts (h : u ∈ firsts us) :
  u ∈ us
  := by
  induction us with
  | nil => exact h
  | cons v us ih =>
    rcases List.mem_cons.mp h with rfl | h
    · apply List.mem_cons_self
    · apply List.mem_cons_of_mem v (ih (List.mem_filter.mp h).1)

/-- Uniforms and new ones among others have different names. -/
theorem nodup_append_without
    (hus : (us.map name).Nodup) (hvs : (vs.map name).Nodup) :
  ((us ++ without us vs).map name).Nodup
  := by
  rw [List.map_append]
  apply hus.append
  · apply List.Nodup.sublist _ hvs
    apply List.Sublist.map
    apply List.filter_sublist
  · intro n hn hn'
    obtain ⟨v, hv, rfl⟩ := List.mem_map.mp hn'
    exact of_decide_eq_true (List.mem_filter.mp hv).2 hn

/-- The uniforms there are and the new ones among others are just the others exactly if those there
are stand at the front of them. -/
theorem append_without_eq_iff (hvs : (vs.map name).Nodup) :
  us ++ without us vs = vs ↔ us <+: vs
  := by
  constructor
  · intro h
    exact ⟨_, h⟩
  · rintro ⟨ws, rfl⟩
    rw [List.map_append] at hvs
    have hus : without us us = [] := by
      apply List.filter_eq_nil_iff.mpr
      intro u hu hnew
      exact of_decide_eq_true hnew (List.mem_map_of_mem hu)
    have hws : without us ws = ws := by
      apply List.filter_eq_self.mpr
      intro w hw
      apply decide_eq_true
      intro hmem
      exact List.disjoint_of_nodup_append hvs hmem (List.mem_map_of_mem hw)
    rw [without, List.filter_append, ← without, ← without, hus, hws]
    rfl

end Uniform

/-! ### Entries -/

/-- Of the entries only uniforms matter for the uniforms of a context. -/
theorem Context.uniforms_enterAll (c : Context) (es : List Entry) :
  (c.enterAll es).uniforms = (es.filterMap Entry.uniform?).foldl Uniform.add c.uniforms
  := by
  induction es generalizing c with
  | nil => rfl
  | cons e es ih =>
    rw [enterAll, List.foldl_cons, ← enterAll, ih]
    cases e <;> rfl

/-- The uniforms of a context in which the lines of a pair have been gone through. -/
theorem Context.uniforms_entered (c : Context) (source : SourcePair) :
  (c.entered source).uniforms
    = c.uniforms ++ Uniform.without c.uniforms (Uniform.firsts (source.uniforms c.mode))
  := by
  rw [entered, uniforms_enterAll, Uniform.foldl_add]
  rfl

/-- There is one field for each uniform. -/
theorem LeftOver.map_fst_enumerate (first : Nat) (us : List Uniform) :
  (enumerate first us).map Prod.fst = us
  := by
  induction us generalizing first with
  | nil => rfl
  | cons u us ih =>
    rw [enumerate]
    split <;> rw [List.map_cons, ih]

/-! ### Compilations -/

/-- In every context that can be reached, both stages of a pair that is compiled get the declaration
of the same leftover buffer.  It has one field for each uniform that the context had before and,
behind these, one for the first declaration of each new name in the pair; the names of all fields
are different.  So it has one field for each name declared in the pair, in the order of the first
declarations and with their types, and no other field, exactly if the uniforms that the context had
are the first ones of the pair, for example if it had none. -/
theorem leftOver_fields
    (mode : Mode) (limits : Limits) (components : OrderedMap Text Int) (ops : List Operation)
    {source : SourcePair} {out : StageTexts} :
  let c := (Context.fresh mode limits components).after ops
  (Compile.pair source c).result = .ok out →
  let own := Uniform.firsts (source.uniforms mode)
  let fields := c.uniforms ++ Uniform.without c.uniforms own
  (∃ slot d declared annotated,
    let leftOver := LeftOver.declaration slot 0 fields
    (Compile.declareStages source c).result = .ok declared ∧
    (Compile.annotate declared (Compile.declareStages source c).context).result
      = .ok (leftOver, annotated) ∧
    out = annotated.finished mode d leftOver) ∧
  (LeftOver.enumerate 0 fields).map Prod.fst = fields ∧
  (fields.map Uniform.name).Nodup ∧
  (fields = own ↔ c.uniforms <+: own)
  := by
  intro c h own fields
  have hmode : c.mode = mode := (Session.steps _ ops).1
  have hfields : (c.entered source).uniforms = fields := by
    rw [Context.uniforms_entered, hmode]
  obtain ⟨⟨slot, declared, annotated, hdeclared, hannotated, hout⟩, -⟩ := Compile.pair_of_ok h
  rw [hfields] at hannotated hout
  rw [hmode] at hout
  refine ⟨⟨slot, _, declared, annotated, hdeclared, hannotated, hout⟩,
    LeftOver.map_fst_enumerate 0 fields, ?_, ?_⟩
  · apply Uniform.nodup_append_without _ (Uniform.nodup_firsts _)
    apply Session.namesNodup_after (Context.namesNodup_fresh _ _ _)
  · apply Uniform.append_without_eq_iff (Uniform.nodup_firsts _)

/-- A pair with one plain uniform. -/
def tinted : SourcePair where
  vertex := "uniform a : f32;"
  fragment := []

/-- A pair that declares this uniform first, and then others more than once. -/
def retinted : SourcePair where
  vertex := "uniform a : f32;\nuniform b : array<vec4<f32>, 2>;"
  fragment := "uniform b : f32;\nuniform k : vec2<f32>;\nuniform a : i32;"

/-- A pair with another plain uniform. -/
def untinted : SourcePair where
  vertex := "uniform b : vec4<f32>;"
  fragment := []

/-- A pair that declares the uniforms of the context first has its own fields. -/
theorem leftOver_fields_retinted :
  let c := (Context.fresh .pure {} ∅).after [.pair tinted]
  let own : List Uniform := [⟨"a", "f32", 0⟩, ⟨"b", "vec4<f32>", 2⟩, ⟨"k", "vec2<f32>", 0⟩]
  (Compile.pair retinted c).result.isOk ∧
    ∃ slot d, ∃ annotated : StageTexts, (Compile.pair retinted c).result
      = .ok (annotated.finished .pure d (LeftOver.declaration slot 0 own))
  := by
  intro c own
  have hok : (Compile.pair retinted c).result.isOk := by decide +kernel
  obtain ⟨out, hresult⟩ := Compile.exists_of_isOk hok
  obtain ⟨⟨slot, d, declared, annotated, -, -, hout⟩, -, -, hown⟩ :=
    leftOver_fields .pure {} ∅ [.pair tinted] hresult
  have huniforms : Uniform.firsts (retinted.uniforms .pure) = own := by decide +kernel
  have hprefix : c.uniforms <+: own := by decide +kernel
  rw [huniforms] at hout hown
  rw [hown.mpr hprefix] at hout
  exact ⟨hok, slot, d, annotated, hresult.trans (congrArg Except.ok hout)⟩

/-- The uniform of a pair is a field of the leftover buffer of the next one, which does not declare
it. -/
theorem not_own_fields_untinted :
  let c := (Context.fresh .pure {} ∅).after [.pair tinted]
  let struct := Text.ofString "struct LeftOver \x7b\n  a : f32,\n  b : vec4<f32>,\n\x7d;\n"
  untinted.uniforms .pure = [⟨"b", "vec4<f32>", 0⟩] ∧
    ∃ out, (Compile.pair untinted c).result = .ok out ∧ Text.occurs struct out.vertex ∧
      Text.occurs struct out.fragment
  := by
  intro c struct
  have hoccurs : (Compile.pair untinted c).result.toOption.any fun out =>
      Text.occurs struct out.vertex && Text.occurs struct out.fragment := by
    decide +kernel
  refine ⟨by decide +kernel, ?_⟩
  cases hresult : (Compile.pair untinted c).result with
  | error e =>
    rw [hresult] at hoccurs
    cases hoccurs
  | ok out =>
    rw [hresult] at hoccurs
    exact ⟨out, rfl, Bool.and_eq_true_iff.mp hoccurs⟩

end ShaderPair
