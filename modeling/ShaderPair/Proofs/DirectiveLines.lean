import ShaderPair.Proofs.DefinedNames
import ShaderPair.Proofs.RegistryOrder

/-!
# Lines with directives

A text may be written line by line, where each line is a directive with gaps between its parts or
holds no keyword (`SourceLine`).  What is collected from the text are the names and values that
were written (`Define.collect_unlines`): a directive defines its name whatever gaps there are
(`DirectiveLine.ofLine?_text`), and a line without a keyword defines nothing.
-/

namespace ShaderPair

open Text (IsIdentifier isGap)
open OrderedMap (addKey lookup)

/-! ### Lists of entries -/

namespace OrderedMap

variable {κ α : Type} [DecidableEq κ]

/-- The keys of a map of listed entries stand in the order of their first occurrence. -/
theorem keys_ofList [BEq κ] [LawfulBEq κ] (es : List (κ × α)) :
  (ofList es).keys = (es.map Prod.fst).eraseDups
  := by
  rw [← foldl_addKey_nil, ofList]
  induction es using List.reverseRecOn with
  | nil => rfl
  | append_singleton es e ih =>
    rw [List.foldl_append, List.foldl_cons, List.foldl_nil, keys_insert_eq_addKey, ih,
      List.map_append, List.foldl_append]
    rfl

end OrderedMap

/-! ### Directives -/

/-- A text of gaps, which may be empty. -/
structure Gaps where
  /-- The text. -/
  text : Text
  /-- All of it are gaps. -/
  isGap : ∀ c ∈ text, Text.isGap c

theorem Gaps.not_mem_break (g : Gaps) :
  '\n' ∉ g.text
  := fun h => absurd (g.isGap _ h) (by decide)

/-- A line with a directive as it is written. -/
structure DirectiveLine where
  /-- The name. -/
  name : Text
  /-- The value, which is empty for a switch. -/
  value : Text
  /-- The gap in front of the keyword. -/
  beforeKeyword : Gaps
  /-- The gap in front of the name. -/
  beforeName : Gaps
  /-- The gap in front of the value. -/
  beforeValue : Gaps
  /-- The gap behind the value. -/
  afterValue : Gaps
  isIdentifier : IsIdentifier name
  beforeName_ne : beforeName.text ≠ []
  /-- A value is apart from the name. -/
  beforeValue_ne : value ≠ [] → beforeValue.text ≠ []
  /-- A value starts and ends with other characters than gaps. -/
  ends : (∀ c ∈ value.head?, ¬ isGap c) ∧ ∀ c ∈ value.getLast?, ¬ isGap c
  oneLine : '\n' ∉ value

namespace DirectiveLine

variable (d : DirectiveLine)

/-- What stands behind the name. -/
def rest : Text := d.beforeValue.text ++ (d.value ++ d.afterValue.text)

/-- The text of the line. -/
def text : Text :=
  d.beforeKeyword.text ++ (Define.keyword ++ (d.beforeName.text ++ (d.name ++ d.rest)))

/-- The name with its value; that of a switch is `true`. -/
def assignment : Text × Text :=
  (d.name, if d.value.isEmpty then Define.switchValue else d.value)

/-- If anything follows the name, it starts with a gap. -/
theorem isGap_head?_rest :
  ∀ c ∈ d.rest.head?, isGap c
  := by
  intro c hc
  have hmem : c ∈ d.beforeValue.text ∨ c ∈ d.afterValue.text := by
    rw [rest] at hc
    by_cases hgap : d.beforeValue.text = []
    · right
      have hvalue : d.value = [] := by
        by_contra hne
        exact d.beforeValue_ne hne hgap
      rw [hgap, hvalue] at hc
      apply List.mem_of_mem_head? hc
    · left
      rw [List.head?_append_of_ne_nil _ hgap] at hc
      apply List.mem_of_mem_head? hc
  rcases hmem with hmem | hmem
  · apply d.beforeValue.isGap c hmem
  · apply d.afterValue.isGap c hmem

theorem definesLine :
  Define.DefinesLine d.name d.rest d.text
  := by
  refine ⟨d.beforeKeyword.text, d.beforeName.text, d.beforeKeyword.isGap, d.beforeName_ne,
    d.beforeName.isGap, d.isIdentifier, ?_, rfl⟩
  apply Text.apart_of_head?
  intro c hc
  apply Text.not_isWord_of_isGap (d.isGap_head?_rest c hc)

/-- A directive defines its name, whatever gaps there are. -/
theorem ofLine?_text :
  Define.ofLine? d.text = some d.assignment
  := by
  have hvalue : Text.trimOf isGap d.rest = d.value :=
    Text.trimOf_append d.beforeValue.isGap d.afterValue.isGap d.ends
  rw [Define.ofLine?_of_definesLine d.definesLine, assignment, ← hvalue]
  rfl

theorem not_mem_break :
  '\n' ∉ d.text
  := by
  have hkeyword : '\n' ∉ Define.keyword := by decide +kernel
  have hname : '\n' ∉ d.name := fun h => absurd (d.isIdentifier.2 _ h) (by decide)
  simp only [text, rest, List.mem_append, not_or]
  exact ⟨d.beforeKeyword.not_mem_break, hkeyword, d.beforeName.not_mem_break, hname,
    d.beforeValue.not_mem_break, d.oneLine, d.afterValue.not_mem_break⟩

end DirectiveLine

/-! ### Lines -/

/-- A line of a text: a directive, or a line without the keyword. -/
inductive SourceLine where
  /-- A directive. -/
  | directive (d : DirectiveLine)
  /-- A line without the keyword. -/
  | other (text : Text) (oneLine : '\n' ∉ text) (plain : ¬ Define.keyword <:+: text)

namespace SourceLine

/-- The text of a line. -/
def text : SourceLine → Text
  | directive d => d.text
  | other t _ _ => t

/-- The name and the value that a line assigns. -/
def assignment? : SourceLine → Option (Text × Text)
  | directive d => some d.assignment
  | other _ _ _ => none

theorem not_mem_break (l : SourceLine) :
  '\n' ∉ l.text
  := by
  cases l with
  | directive d => apply d.not_mem_break
  | other t oneLine plain => exact oneLine

/-- A line defines what it was written for. -/
theorem ofLine?_text (l : SourceLine) :
  Define.ofLine? l.text = l.assignment?
  := by
  cases l with
  | directive d => apply d.ofLine?_text
  | other t oneLine plain =>
    apply Option.eq_none_iff_forall_ne_some.mpr
    intro ⟨name, value⟩ h
    obtain ⟨_, ⟨indent, g, -, -, -, -, -, rfl⟩, -⟩ := Define.ofLine?_eq_some_iff.mp h
    exact absurd ⟨indent, _, List.append_assoc _ _ _⟩ plain

end SourceLine

/-- What is collected from a text are the names and values of the directives that were written:
each name at the place of its first directive, with the value of its last one. -/
theorem Define.collect_unlines (ls : List SourceLine) :
  let collected := collect (Text.unlines (ls.map SourceLine.text))
  let assignments := ls.filterMap SourceLine.assignment?
  collected = OrderedMap.ofList assignments ∧
    collected.keys = (assignments.map Prod.fst).eraseDups ∧
    ∀ name, collected.find? name = lookup name assignments.reverse
  := by
  intro collected assignments
  have hcollected : collected = OrderedMap.ofList assignments := by
    cases ls with
    | nil =>
      have hempty : collect [] = OrderedMap.ofList [] := by decide +kernel
      exact hempty
    | cons l ls =>
      have hbreaks : ∀ t ∈ (l :: ls).map SourceLine.text, '\n' ∉ t := by
        intro t ht
        obtain ⟨l', -, rfl⟩ := List.mem_map.mp ht
        apply l'.not_mem_break
      have hlines := Text.lines_unlines (by simp) hbreaks
      have hassigned : ofLine? ∘ SourceLine.text = SourceLine.assignment? :=
        funext SourceLine.ofLine?_text
      change OrderedMap.ofList (List.filterMap _ (Text.lines (Text.unlines _))) = _
      rw [hlines, List.filterMap_map, hassigned]
  rw [hcollected]
  use rfl, OrderedMap.keys_ofList assignments, OrderedMap.find?_ofList assignments

/-- A gap of `n` blanks. -/
def Gaps.blanks (n : Nat) : Gaps where
  text := List.replicate n ' '
  isGap c hc := by
    rw [List.eq_of_mem_replicate hc]
    decide

/-- A directive behind `n` blanks, with one blank in front of the name and of a value without
gaps. -/
def DirectiveLine.indented (n : Nat) (name value : Text) (hname : IsIdentifier name)
    (hvalue : value.any isGap = false) (hline : '\n' ∉ value) : DirectiveLine where
  name := name
  value := value
  beforeKeyword := .blanks n
  beforeName := .blanks 1
  beforeValue := .blanks 1
  afterValue := .blanks 0
  isIdentifier := hname
  beforeName_ne := List.cons_ne_nil _ _
  beforeValue_ne _ := List.cons_ne_nil _ _
  ends := ⟨fun c hc => List.any_eq_false.mp hvalue c (List.mem_of_mem_head? hc),
    fun c hc => List.any_eq_false.mp hvalue c (List.mem_of_mem_getLast? hc)⟩
  oneLine := hline

/-- Lines with a name that is defined twice, with a switch and with an ordinary line. -/
def SourceLine.mixed : List SourceLine :=
  [.directive (.indented 0 "A" "1" (by decide +kernel) (by decide +kernel) (by decide +kernel)),
    .other "let x = A;" (by decide +kernel) (by decide +kernel),
    .directive (.indented 2 "DEBUG" "" (by decide +kernel) (by decide +kernel) (by decide +kernel)),
    .directive (.indented 0 "A" "2" (by decide +kernel) (by decide +kernel) (by decide +kernel))]

/-- The name that is defined twice comes first and has its second value, and the switch is
`true`. -/
theorem Define.collect_unlines_mixed :
  let collected := collect "#define A 1\nlet x = A;\n  #define DEBUG \n#define A 2"
  collected = OrderedMap.ofList [(("A" : Text), ("1" : Text)), ("DEBUG", "true"), ("A", "2")] ∧
    collected.keys = [("A" : Text), ("DEBUG" : Text)] ∧
    collected.find? ("A" : Text) = some ("2" : Text) ∧
    collected.find? ("DEBUG" : Text) = some ("true" : Text)
  := by
  have htext : Text.unlines (SourceLine.mixed.map SourceLine.text)
      = ("#define A 1\nlet x = A;\n  #define DEBUG \n#define A 2" : Text) := by decide +kernel
  have hassigned : SourceLine.mixed.filterMap SourceLine.assignment?
      = [(("A" : Text), ("1" : Text)), ("DEBUG", "true"), ("A", "2")] := by decide +kernel
  obtain ⟨hmap, hkeys, hfind⟩ := collect_unlines SourceLine.mixed
  rw [htext, hassigned] at hmap hkeys hfind
  refine ⟨hmap, hkeys.trans (by decide +kernel), ?_, ?_⟩
  · exact (hfind "A").trans (by decide +kernel)
  · exact (hfind "DEBUG").trans (by decide +kernel)

end ShaderPair
