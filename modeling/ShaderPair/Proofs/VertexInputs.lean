import ShaderPair.Proofs.DerivativeFlip
import ShaderPair.Proofs.Entries
import ShaderPair.Proofs.GeneratedStructs

/-!
# The inputs of the vertex stage

For each attribute that is declared, the vertex stage gets a raw field with locations of its own, a
field of the declared type, and a statement that assigns one to the other (`VertexInput`).  The raw
field is of an integer type, with a name of its own, exactly if the vertex buffer of the attribute
holds integers (`VertexInput.Carries`).  The declarations keep the attributes in order, with
ascending locations, and they are registered under their names and at their locations
(`Attributed`).  Where an attribute is converted, the fields make two structs, and the statements
stand at the start of the entry point, behind those for the fields that are built in: each field of
the second struct is assigned from a field of the first one (`vertexInputs_fit`).
-/

namespace ShaderPair

/-! ### Attributes one after the other -/

/-- Enters the attribute that a line declares, if it declares one, and gives the text in place of
the line. -/
def Compile.processAttribute (constants : OrderedMap Text Text) (line : Text) :
    Compile (Option Text) :=
  declareIf constants .vertex line ((Declaration.attribute? line).map .attribute)

/-- The attributes that lines declare. -/
def attributeForms (lines : List (OrderedMap Text Text × Text)) : List VariableForm :=
  lines.filterMap fun l => Declaration.attribute? l.2

/-- An attribute is entered for a form, with the number of integer components of its buffer. -/
structure Attribute.Enters (components : OrderedMap Text Int) (form : VariableForm)
    (a : Attribute) : Prop where
  name_eq : a.name = form.name
  type_eq : a.type = form.type
  components_eq : a.components = components.find? form.name

theorem Attribute.Enters.isConverted_eq
    {components : OrderedMap Text Int} {form : VariableForm} {a : Attribute}
    (h : a.Enters components form) :
  a.isConverted = components.contains form.name
  := by
  rw [Attribute.isConverted, h.components_eq, OrderedMap.contains]

/-- The attributes of an interface are those of some forms, in order. -/
structure Attributed (components : OrderedMap Text Int) (forms : List VariableForm)
    (i : Interface) : Prop where
  enters : List.Forall₂ (Attribute.Enters components) forms i.declarations.attributes
  /-- Each location lies above those of the attributes in front. -/
  ascending : i.declarations.attributes.Pairwise (·.location < ·.location)
  below : ∀ a ∈ i.declarations.attributes, a.location < i.nextAttribute
  /-- The names of the attributes are registered. -/
  mem_keys_iff : ∀ name, name ∈ i.attributes.keys ↔ name ∈ forms.map VariableForm.name
  /-- An attribute is found at its location. -/
  attributeAt : ∀ name l, i.attributes.find? name = some l →
    i.attributeAt.find? l = some name ∧ l < i.nextAttribute

variable
  {c : Context} {components : OrderedMap Text Int} {forms : List VariableForm}
  {form : VariableForm}

theorem attributed_begin (c : Context) :
  Attributed components [] c.begin.interface
  := by
  refine ⟨.nil, .nil, ?_, ?_, ?_⟩
  · intro a ha
    cases ha
  · intro name
    exact Iff.rfl
  · intro name l h
    cases h

/-- An attribute comes on top of the others. -/
theorem Attributed.enter (h : Attributed c.components forms c.interface) (form : VariableForm)
    (e : Extent) :
  Attributed c.components (forms ++ [form]) (c.enter (.attribute form e)).interface
  := by
  have hnext : c.interface.nextAttribute
      < c.interface.nextAttribute + ShaderType.locationSize form.type * e.room := by
    have htype := ShaderType.one_le_locationSize form.type
    have hroom := e.one_le_room
    have hpos : (0 : Int) < ShaderType.locationSize form.type * e.room := by
      apply Int.mul_pos <;> omega
    omega
  refine ⟨?_, ?_, ?_, ?_, ?_⟩
  · apply List.rel_append h.enters
    exact .cons ⟨rfl, rfl, rfl⟩ .nil
  · apply List.pairwise_append.mpr ⟨h.ascending, List.pairwise_singleton _ _, _⟩
    intro a ha b hb
    obtain rfl := List.mem_singleton.mp hb
    exact h.below a ha
  · intro a ha
    rcases List.mem_append.mp ha with ha | ha
    · exact (h.below a ha).trans hnext
    · obtain rfl := List.mem_singleton.mp ha
      exact hnext
  · intro name
    have hkeys : name ∈ (c.interface.attributes.insert form.name c.interface.nextAttribute).keys
        ↔ name ∈ c.interface.attributes.keys ∨ name = form.name := by
      rw [OrderedMap.keys_insert]
      split
      next hmem =>
        constructor
        · apply Or.inl
        · rintro (hname | rfl)
          · exact hname
          · exact hmem
      next => simp
    rw [List.map_append, List.mem_append, ← h.mem_keys_iff, List.map_singleton,
      List.mem_singleton]
    exact hkeys
  · intro name l hl
    by_cases hname : name = form.name
    · subst hname
      have hself := hl.symm.trans (OrderedMap.find?_insert_self _ _ _)
      obtain rfl := Option.some.inj hself
      exact ⟨OrderedMap.find?_insert_self _ _ _, hnext⟩
    · have hold : c.interface.attributes.find? name = some l :=
        (OrderedMap.find?_insert_of_ne _ hname _).symm.trans hl
      obtain ⟨hat, hlt⟩ := h.attributeAt name l hold
      refine ⟨?_, hlt.trans hnext⟩
      exact (OrderedMap.find?_insert_of_ne _ (ne_of_lt hlt) _).trans hat

namespace Compile

/-- A line enters the attribute that it declares, and nothing else. -/
theorem processAttribute_of_ok
    {constants : OrderedMap Text Text} {line : Text} {text : Option Text}
    (h : (processAttribute constants line c).result = .ok text) :
  (Declaration.attribute? line = none ∧ (processAttribute constants line c).context = c) ∨
    ∃ form e, Declaration.attribute? line = some form ∧
      (processAttribute constants line c).context = c.enter (.attribute form e)
  := by
  rw [processAttribute] at h ⊢
  cases hform : Declaration.attribute? line with
  | none => exact .inl ⟨rfl, rfl⟩
  | some form =>
    right
    rw [hform, Option.map_some, declareIf] at h
    obtain ⟨text, hdeclare, -⟩ := ok_of_bind h
    obtain ⟨_, hattribute, -⟩ := ok_of_bind hdeclare
    obtain ⟨e, -, -, henter⟩ :=
      LocatedForm.entered_of_ok (f := .attribute constants form) hattribute
    refine ⟨form, e, rfl, ?_⟩
    rw [Option.map_some, declareIf, bind_of_ok hdeclare, declare, bind_of_ok hattribute]
    exact congrArg Outcome.context henter

/-- Lines that are processed one after the other enter what they declare. -/
theorem attributed_of_each
    {lines : List (OrderedMap Text Text × Text)} {texts : List (Option Text)}
    (h : Attributed c.components forms c.interface)
    (hlines : (each (fun l => processAttribute l.1 l.2) lines c).result = .ok texts) :
  let c' := (each (fun l => processAttribute l.1 l.2) lines c).context
  Attributed c.components (forms ++ attributeForms lines) c'.interface
  := by
  induction lines generalizing c forms texts with
  | nil =>
    intro c'
    rw [attributeForms, List.filterMap_nil, List.append_nil]
    exact h
  | cons line lines ih =>
    obtain ⟨text, hline, hrest⟩ := ok_of_bind hlines
    obtain ⟨texts, hrest, -⟩ := ok_of_bind hrest
    have hcontext : (each (fun l => processAttribute l.1 l.2) (line :: lines) c).context
        = (each (fun l => processAttribute l.1 l.2) lines
            (processAttribute line.1 line.2 c).context).context := by
      rw [each, bind_of_ok hline]
      dsimp only
      rw [bind_of_ok hrest]
      rfl
    rw [hcontext]
    rcases processAttribute_of_ok hline with ⟨hnone, hc⟩ | ⟨form, e, hsome, hc⟩
    · rw [hc] at hrest ⊢
      have hforms : attributeForms (line :: lines) = attributeForms lines :=
        List.filterMap_cons_none hnone
      rw [hforms]
      exact ih h hrest
    · rw [hc] at hrest ⊢
      have hforms : attributeForms (line :: lines) = form :: attributeForms lines :=
        List.filterMap_cons_some hsome
      rw [hforms, List.append_cons]
      exact ih (h.enter form e) hrest

end Compile

/-! ### Fields and statements -/

/-- A field of a struct. -/
structure StructField where
  /-- What stands in front of its name. -/
  marks : Text
  /-- Its name. -/
  name : Text
  /-- Its type. -/
  type : Text

/-- The text of a field. -/
def StructField.text (f : StructField) : Text := f.marks ++ f.name ++ " : " ++ f.type ++ ","

/-- A statement that assigns a raw field to a field of the inputs. -/
structure Assignment where
  /-- The name of the field that is assigned. -/
  target : Text
  /-- The name of the raw field. -/
  source : Text
  /-- The type to which the raw field is converted, if it is. -/
  conversion : Option Text

/-- The text of a statement. -/
def Assignment.text (s : Assignment) : Text :=
  "vertexInputs." ++ s.target ++ " = " ++
    match s.conversion with
    | none => "vertexInputs_." ++ s.source ++ ";"
    | some type => type ++ "(vertexInputs_." ++ s.source ++ ");"

/-- An input of the vertex stage. -/
structure VertexInput where
  /-- The raw field. -/
  raw : StructField
  /-- The field of the inputs. -/
  field : StructField
  /-- The statement that assigns the raw field to the field. -/
  statement : Assignment

namespace VertexInput

/-- The statement assigns the raw field to the field. -/
def Fits (v : VertexInput) : Prop :=
  v.statement.target = v.field.name ∧ v.statement.source = v.raw.name

/-- An input that is there without being declared. -/
def builtin (marks name : Text) : VertexInput where
  raw := ⟨marks, name, "u32"⟩
  field := ⟨[], name, "u32"⟩
  statement := ⟨name, name, none⟩

/-- The inputs that are there without being declared. -/
def builtins : List VertexInput :=
  [builtin "@builtin(vertex_index) " "vertexIndex",
    builtin "@builtin(instance_index) " "instanceIndex"]

theorem fits_builtins :
  ∀ v ∈ builtins, v.Fits
  := by
  intro v hv
  rcases List.mem_pair.mp hv with rfl | rfl
  · exact ⟨rfl, rfl⟩
  · exact ⟨rfl, rfl⟩

end VertexInput

/-- The input for an attribute. -/
structure AttributeInput extends VertexInput where
  /-- The first location of the attribute. -/
  location : Int

namespace AttributeInput

/-- The name of the raw field if the vertex buffer holds integers. -/
def shadowName (name : Text) : Text := "_int_" ++ name ++ "_"

/-- An input is that for a declared attribute.  Its raw field is an integer one, under a name of its
own, exactly if there is a number of components for the attribute, and then it is converted to the
declared type. -/
structure Carries (components : OrderedMap Text Int) (form : VariableForm)
    (v : AttributeInput) : Prop where
  field_eq : v.field = ⟨[], form.name, form.type⟩
  marks_eq : v.raw.marks = "@location(" ++ Text.ofInt v.location ++ ") "
  name_eq_shadowName_iff : v.raw.name = shadowName form.name ↔ components.contains form.name
  name_eq : ¬ components.contains form.name → v.raw.name = form.name
  type_eq : v.raw.type = (components.find? form.name).elim form.type Attribute.integerType
  fits : v.Fits
  conversion_eq :
    v.statement.conversion = if components.contains form.name then some form.type else none

/-- The input for an attribute that is entered. -/
def ofAttribute (a : Attribute) : AttributeInput where
  raw := ⟨"@location(" ++ Text.ofInt a.location ++ ") ", a.rawName, a.rawType⟩
  field := ⟨[], a.name, a.type⟩
  statement := ⟨a.name, a.rawName, if a.isConverted then some a.type else none⟩
  location := a.location

theorem shadowName_ne (name : Text) :
  name ≠ shadowName name
  := by
  intro h
  have hlength := congrArg List.length h
  have hprefix : ("_int_" : Text).length = 5 := by decide +kernel
  rw [shadowName, List.length_append, List.length_append, hprefix] at hlength
  omega

theorem carries_ofAttribute {a : Attribute} (h : a.Enters components form) :
  Carries components form (ofAttribute a)
  := by
  have hconverted := h.isConverted_eq
  obtain ⟨hname, htype, hcomponents⟩ := h
  refine ⟨?_, rfl, ?_, ?_, ?_, ⟨rfl, rfl⟩, ?_⟩
  · rw [← hname, ← htype]
    rfl
  · rw [← hconverted, ← hname]
    change a.rawName = _ ↔ _
    rw [Attribute.rawName]
    split
    next hc => exact iff_of_true rfl hc
    next hc => exact iff_of_false (shadowName_ne a.name) hc
  · intro hc
    rw [← hconverted] at hc
    exact (if_neg hc).trans hname
  · rw [← hcomponents, ← htype]
    change a.rawType = _
    rw [Attribute.rawType]
    cases a.components <;> rfl
  · rw [← hconverted, ← htype]
    rfl

theorem text_raw (a : Attribute) :
  (ofAttribute a).raw.text = a.rawField
  := rfl

theorem text_field (a : Attribute) :
  (ofAttribute a).field.text = a.field
  := rfl

theorem text_statement (a : Attribute) :
  (ofAttribute a).statement.text = a.conversion
  := by
  rw [Attribute.conversion, Attribute.rawName, Assignment.text, ofAttribute, Attribute.rawName]
  split <;> rfl

/-! ### Two structs and a prologue -/

variable {vs : List AttributeInput} {d : Declarations}

/-- Some attributes make some inputs: the texts of their fields and statements are those of the
inputs. -/
structure Makes (d : Declarations) (vs : List AttributeInput) : Prop where
  raw : d.attributes.map Attribute.rawField = vs.map (·.raw.text)
  field : d.attributes.map Attribute.field = vs.map (·.field.text)
  statement : d.attributes.map Attribute.conversion = vs.map (·.statement.text)

theorem makes_ofAttribute (d : Declarations) :
  Makes d (d.attributes.map ofAttribute)
  := by
  constructor
  all_goals
    rw [List.map_map]
    apply List.map_congr_left
    intro a _
  · exact (text_raw a).symm
  · exact (text_field a).symm
  · exact (text_statement a).symm

/-- The struct of the raw fields, if there is one of the fields too. -/
def rawStruct (vs : List AttributeInput) : Text :=
  "struct VertexInputs \x7b\n"
    ++ VertexInput.builtins.flatMap (fun v => ("  " : Text) ++ v.raw.text ++ ("\n" : Text))
    ++ Text.unlines (vs.map (·.raw.text))
    ++ "\n\x7d;\n" ++ "var<private> vertexInputs_ : VertexInputs;\n"

/-- The struct of the fields. -/
def fieldStruct (vs : List AttributeInput) : Text :=
  "struct VertexInputs_ \x7b\n" ++ " "
    ++ VertexInput.builtins.flatMap (fun v => (" " : Text) ++ v.field.text) ++ "\n"
    ++ Text.unlines (vs.map (·.field.text))
    ++ "\n\x7d;\n" ++ "var<private> vertexInputs : VertexInputs_;\n"

/-- The code that takes the inputs over and assigns every field. -/
def prologue (vs : List AttributeInput) : Text :=
  "\n  vertexInputs_ = input;\n"
    ++ VertexInput.builtins.flatMap (fun v => v.statement.text ++ ("\n" : Text))
    ++ Text.unlines (vs.map (·.statement.text)) ++ "\n"

theorem Makes.vertexInputs (h : Makes d vs) (hd : d.hasConverted) :
  StageStruct.vertexInputs d = rawStruct vs ++ fieldStruct vs
  := by
  have hraw : ("  @builtin(vertex_index) vertexIndex : u32,\n" : Text)
      ++ "  @builtin(instance_index) instanceIndex : u32,\n"
      = VertexInput.builtins.flatMap fun v => ("  " : Text) ++ v.raw.text ++ ("\n" : Text) := by
    decide +kernel
  have hvariable : ("var<private> vertexInputs" : Text) ++ ("_" : Text) ++ " : VertexInputs;\n"
      = "var<private> vertexInputs_ : VertexInputs;\n" := by
    decide +kernel
  have hfield : ("  vertexIndex : u32, instanceIndex : u32,\n" : Text)
      = (" " : Text) ++ VertexInput.builtins.flatMap (fun v => (" " : Text) ++ v.field.text)
        ++ ("\n" : Text) := by
    decide +kernel
  rw [StageStruct.vertexInputs, if_pos hd, StageStruct.rawInputs, StageStruct.convertedInputs,
    StageStruct.rawSuffix, if_pos hd, h.raw, h.field, rawStruct, fieldStruct, ← hraw,
    ← hvariable, hfield]
  simp only [List.append_assoc]

theorem Makes.vertexStart (h : Makes d vs) (hd : d.hasConverted) :
  Finish.vertexStart d = prologue vs
  := by
  have hstart : ("\n  vertexInputs" : Text) ++ ("_" : Text) ++ " = input;\n"
      = "\n  vertexInputs_ = input;\n" := by
    decide +kernel
  have hbuiltins : ("vertexInputs.vertexIndex = " : Text) ++ "vertexInputs_.vertexIndex;\n"
      ++ "vertexInputs.instanceIndex = " ++ "vertexInputs_.instanceIndex;\n"
      = VertexInput.builtins.flatMap fun v => v.statement.text ++ ("\n" : Text) := by
    decide +kernel
  rw [Finish.vertexStart, if_pos hd, StageStruct.rawSuffix, if_pos hd, Finish.conversions,
    h.statement, prologue, ← hstart, ← hbuiltins]
  simp only [List.append_assoc]

/-! ### The finished stage -/

/-- The vertex stage behind its structs, before its entry point is wrapped. -/
def unwrapped (d : Declarations) (vs : List AttributeInput) (code : Text) : Text :=
  rawStruct vs ++ fieldStruct vs ++ (StageStruct.vertexOutputs d ++ Finish.body d code)

/-- In the finished vertex stage each field of the second struct is assigned from a field of the
first one. -/
structure Finished (mode : Mode) (d : Declarations) (vs : List AttributeInput) (code : Text) :
    Prop where
  /-- The statements of the prologue are about the fields of the structs. -/
  fits : ∀ v ∈ VertexInput.builtins ++ vs.map toVertexInput, v.Fits
  /-- Without an entry point only the structs are put in. -/
  unopened : let text := unwrapped d vs code
    (∀ o, ¬ Brace.Opens Finish.entryPoint text o) →
      Finish.vertex mode d code = Finish.diagnostics text ++ text
  /-- The prologue is put in at the brace that opens the entry point, and further down the epilogue,
  if no name or type closes a brace. -/
  opened : let text := unwrapped d vs code
    ∀ o, Brace.Opens Finish.entryPoint text o →
      ∃ p q, p ++ q = text.take (o + 1) ++ (prologue vs ++ text.drop (o + 1)) ∧
        (Finish.vertex mode d code = Finish.diagnostics text ++ (p ++ q) ∨
          Finish.vertex mode d code
            = Finish.diagnostics text ++ (p ++ (Finish.vertexEnd mode ++ '\n' :: q))) ∧
        ((∀ v ∈ vs, '\x7d' ∉ v.field.name ∧ '\x7d' ∉ v.field.type) →
          text.take (o + 1) ++ prologue vs <+: p)

theorem not_mem_conversion {a : Attribute} (hname : '\x7d' ∉ a.name) (htype : '\x7d' ∉ a.type) :
  '\x7d' ∉ a.conversion
  := by
  have hliteral : ∀ l ∈ ["vertexInputs.", " = ", "vertexInputs_.", ";", "(vertexInputs_.", ");",
      "_int_", "_"], '\x7d' ∉ Text.ofString l := by
    decide +kernel
  simp only [List.forall_mem_cons, List.not_mem_nil, false_implies, implies_true, and_true]
    at hliteral
  rw [Attribute.conversion, Attribute.rawName]
  split
  all_goals simp [hliteral, hname, htype]

theorem not_mem_prologue (h : ∀ v ∈ vs, '\x7d' ∉ v.statement.text) :
  '\x7d' ∉ prologue vs
  := by
  have hlines : '\x7d' ∉ Text.unlines (vs.map (·.statement.text)) := by
    rw [← List.singleton_infix_iff]
    apply Text.not_infix_unlines (List.cons_ne_nil _ _) (by decide)
    intro u hu
    obtain ⟨v, hv, rfl⟩ := List.mem_map.mp hu
    rw [List.singleton_infix_iff]
    exact h v hv
  have hstart : '\x7d' ∉ ("\n  vertexInputs_ = input;\n" : Text)
      ++ VertexInput.builtins.flatMap (fun v => v.statement.text ++ ("\n" : Text)) := by
    decide +kernel
  have hend : '\x7d' ∉ ("\n" : Text) := by decide +kernel
  rw [prologue, List.mem_append, List.mem_append, not_or, not_or]
  exact ⟨⟨hstart, hlines⟩, hend⟩

theorem finished_ofAttribute (hd : d.hasConverted) (mode : Mode) (code : Text) :
  Finished mode d (d.attributes.map ofAttribute) code
  := by
  have hmakes := makes_ofAttribute d
  generalize hvs : d.attributes.map ofAttribute = vs at hmakes ⊢
  have hvertex : Finish.vertex mode d code = Finish.diagnostics (unwrapped d vs code)
      ++ Brace.wrap Finish.entryPoint (prologue vs) (Finish.vertexEnd mode)
        (unwrapped d vs code) := by
    rw [unwrapped, ← hmakes.vertexInputs hd, ← hmakes.vertexStart hd, ← List.append_assoc]
    rfl
  refine ⟨?_, ?_, ?_⟩
  · intro v hv
    rcases List.mem_append.mp hv with hv | hv
    · exact VertexInput.fits_builtins v hv
    · rw [← hvs, List.map_map] at hv
      obtain ⟨a, -, rfl⟩ := List.mem_map.mp hv
      exact ⟨rfl, rfl⟩
  · intro text hunopened
    rw [hvertex, Brace.wrap, Brace.divide?_of_not_opens hunopened]
  · intro text o ho
    obtain ⟨p, q, hpq, hwrap, hprefix⟩ :=
      Brace.exists_wrap_of_opens ho (prologue vs) (Finish.vertexEnd mode)
    refine ⟨p, q, hpq, ?_, fun hplain => hprefix (not_mem_prologue fun v hv => ?_)⟩
    · rw [hvertex]
      exact hwrap.imp (congrArg _) (congrArg _)
    · obtain ⟨hname, htype⟩ := hplain v hv
      rw [← hvs] at hv
      obtain ⟨a, -, rfl⟩ := List.mem_map.mp hv
      rw [text_statement]
      exact not_mem_conversion hname htype

end AttributeInput

/-- Some attribute is converted exactly if there is a number of components for a declared name. -/
theorem any_isConverted_iff
    {as : List Attribute} (h : List.Forall₂ (Attribute.Enters components) forms as) :
  as.any Attribute.isConverted ↔ ∃ form ∈ forms, components.contains form.name
  := by
  induction h with
  | nil => simp
  | cons ha _ ih =>
    rw [List.any_cons, Bool.or_eq_true, ih, ha.isConverted_eq, List.exists_mem_cons_iff]

open AttributeInput (Carries Makes Finished)

/-- Where attributes are declared at the beginning of a shader pair, in any order and mixture, the
lists of raw fields, fields and statements have one element for each declaration, all three about
the same attribute, with ascending locations.  Some attribute is converted exactly if there is a
number of components for some declared name; each registered name is found at its location.  Where
there are two structs, each field of the second one is assigned from a field of the first one in
the finished vertex stage, whatever else has been declared by then. -/
theorem vertexInputs_fit
    {lines : List (OrderedMap Text Text × Text)} {texts : List (Option Text)}
    (h : (Compile.each (fun l => Compile.processAttribute l.1 l.2) lines c.begin).result
      = .ok texts) :
  let c' := (Compile.each (fun l => Compile.processAttribute l.1 l.2) lines c.begin).context
  let i := c'.interface
  let forms := attributeForms lines
  ∃ vs : List AttributeInput,
    List.Forall₂ (Carries c.components) forms vs ∧
    (vs.map AttributeInput.location).Pairwise (· < ·) ∧ Makes i.declarations vs ∧
    (i.declarations.hasConverted ↔ ∃ form ∈ forms, c.components.contains form.name) ∧
    (∀ name, name ∈ i.attributes.keys ↔ name ∈ forms.map VariableForm.name) ∧
    (∀ name l, i.attributes.find? name = some l → i.attributeAt.find? l = some name) ∧
    ∀ d : Declarations, d.attributes = i.declarations.attributes → d.hasConverted →
      ∀ mode code, Finished mode d vs code
  := by
  intro c' i forms
  have hattributed : Attributed c.components forms i :=
    Compile.attributed_of_each (attributed_begin c) h
  obtain ⟨henters, hascending, -, hkeys, hat⟩ := hattributed
  have hcarries : List.Forall₂ (Carries c.components) forms
      (i.declarations.attributes.map AttributeInput.ofAttribute) := by
    rw [List.forall₂_map_right_iff]
    apply henters.imp
    intro form a ha
    exact AttributeInput.carries_ofAttribute ha
  refine ⟨i.declarations.attributes.map AttributeInput.ofAttribute, hcarries, ?_,
    AttributeInput.makes_ofAttribute _, ?_, hkeys, fun name l hl => (hat name l hl).1, ?_⟩
  · rw [List.map_map]
    exact List.pairwise_map.mpr hascending
  · exact any_isConverted_iff henters
  · intro d hd hconverted mode code
    rw [← hd]
    exact AttributeInput.finished_ofAttribute hconverted mode code

/-- An attribute with two unsigned components between one without and an array with three signed
components, which is declared twice. -/
theorem vertexInputs_fit_mixed :
  let c : Context := .fresh .engine {} (.ofList [("weights", 2), ("bones", -3)])
  let lines : List (OrderedMap Text Text × Text) :=
    [(∅, "attribute position : vec3<f32>;"), (∅, "attribute weights : vec2<f32>;"),
      (.ofList [("COUNT", "2")], "attribute bones : array<vec3<f32>, COUNT>;"),
      (∅, "var x : f32;"), (∅, "attribute bones : vec3<f32>;")]
  let x := Compile.each (fun l => Compile.processAttribute l.1 l.2) lines c.begin
  let d := x.context.interface.declarations
  x.result = .ok [some [], some [], some [], none, some []] ∧ d.hasConverted ∧
    ∃ vs : List AttributeInput, List.Forall₂ (Carries c.components) (attributeForms lines) vs ∧
      (vs.map AttributeInput.location).Pairwise (· < ·) ∧ Makes d vs ∧
      ∀ code, Finished .engine d vs code
  := by
  intro c lines x d
  have h : x.result = .ok [some [], some [], some [], none, some []] := by
    decide +kernel
  have hconverted : d.hasConverted := by
    decide +kernel
  obtain ⟨vs, hcarries, hascending, hmakes, -, -, -, hfinished⟩ := vertexInputs_fit h
  exact ⟨h, hconverted, vs, hcarries, hascending, hmakes, hfinished d rfl hconverted .engine⟩

end ShaderPair
