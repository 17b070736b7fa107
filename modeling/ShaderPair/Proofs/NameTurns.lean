import ShaderPair.Proofs.DefinedNames
import ShaderPair.Proofs.Replacement

/-!
# The turns of the names

Names are replaced one after the other, each by the value that the text at hand gives it.
`Define.turns` lists the names with these values, so that a substitution is a row of exchanges
(`Define.substitute_eq`).  If the names are identifiers, the exchanges are made in each word on its
own (`Define.afterTurns_eq_flatMap`), and what happens to an occurrence of a name is what happens to
the name.  A name that is replaced stays until its turn comes, since the names before it are no
shorter, and is then exchanged as a whole.  A switch has no turn: it stays exactly if no name that
is replaced occurs in it, or each that does stands for itself (`Define.kept_iff`).  So a shorter
name breaks a switch with a longer name (`Define.not_kept_switch`).
-/

namespace ShaderPair

namespace Define

open Pattern (find?)
open Text (words isWord Apart IsIdentifier IsWords)

variable {fallback : Text → Text} {names : List Text} {steps before after : List (Text × Text)}
variable {code name value s t w : Text} {defines : OrderedMap Text Text}

/-! ### Rows of exchanges -/

/-- The names, each with the value that the text gives it when its turn comes. -/
def turns (fallback : Text → Text) : List Text → Text → List (Text × Text)
  | [], _ => []
  | name :: names, code =>
    let value := (find? (valueOf name) code).getD (fallback name)
    (name, value) :: turns fallback names (Text.replace name value code)

/-- The names that a substitution replaces, each with the value that is put in its place. -/
def substitutions (defines : OrderedMap Text Text) (code : Text) : List (Text × Text) :=
  turns (fun name => (defines.find? name).getD []) (substitutedNames defines) code

/-- A text after some exchanges. -/
def afterTurns (steps : List (Text × Text)) (t : Text) : Text :=
  steps.foldl (fun t step => Text.replace step.1 step.2 t) t

/-- No exchange changes a text. -/
def Kept (steps : List (Text × Text)) (w : Text) : Prop :=
  ∀ done, done <+: steps → afterTurns done w = w

@[simp]
theorem afterTurns_nil (t : Text) :
  afterTurns [] t = t
  := rfl

theorem afterTurns_cons (step : Text × Text) (steps : List (Text × Text)) (t : Text) :
  afterTurns (step :: steps) t = afterTurns steps (Text.replace step.1 step.2 t)
  := rfl

theorem afterTurns_append (before after : List (Text × Text)) (t : Text) :
  afterTurns (before ++ after) t = afterTurns after (afterTurns before t)
  := List.foldl_append

/-- Each name has one turn. -/
@[simp]
theorem map_fst_turns (fallback : Text → Text) (names : List Text) (code : Text) :
  (turns fallback names code).map Prod.fst = names
  := by
  induction names generalizing code with
  | nil => rfl
  | cons name names ih => rw [turns, List.map_cons, ih]

theorem map_fst_substitutions (defines : OrderedMap Text Text) (code : Text) :
  (substitutions defines code).map Prod.fst = substitutedNames defines
  := by
  apply map_fst_turns

/-- Replacing the names is to make the exchanges. -/
theorem foldl_substituteOne (fallback : Text → Text) (names : List Text) (code : Text) :
  names.foldl (fun code name => substituteOne code name (fallback name)) code
    = afterTurns (turns fallback names code) code
  := by
  induction names generalizing code with
  | nil => rfl
  | cons name names ih =>
    rw [List.foldl_cons, ih, turns, afterTurns_cons]
    rfl

theorem substitute_eq (defines : OrderedMap Text Text) (code : Text) :
  substitute defines code = afterTurns (substitutions defines code) code
  := by
  apply foldl_substituteOne

/-- The value at the turn of a name is the one that the text gives after the turns before. -/
theorem value_of_turns (h : turns fallback names code = before ++ (name, value) :: after) :
  value = (find? (valueOf name) (afterTurns before code)).getD (fallback name)
  := by
  induction before generalizing names code with
  | nil =>
    cases names with
    | nil => cases h
    | cons n names =>
      obtain ⟨hturn, -⟩ := List.cons.inj h
      obtain ⟨rfl, rfl⟩ := Prod.mk.inj hturn
      rfl
  | cons step before ih =>
    cases names with
    | nil => cases h
    | cons n names =>
      obtain ⟨rfl, htail⟩ := List.cons.inj h
      rw [afterTurns_cons]
      apply ih htail

/-! ### Texts that stay -/

theorem kept_nil (w : Text) :
  Kept [] w
  := by
  intro done hdone
  rw [List.prefix_nil.mp hdone]
  rfl

theorem kept_cons_iff {step : Text × Text} :
  Kept (step :: steps) w ↔ Text.replace step.1 step.2 w = w ∧ Kept steps w
  := by
  constructor
  · intro h
    have hstep := h [step] (by simp)
    rw [afterTurns_cons, afterTurns_nil] at hstep
    refine ⟨hstep, fun done hdone => ?_⟩
    have hdone := h (step :: done) (List.cons_prefix_cons.mpr ⟨rfl, hdone⟩)
    rwa [afterTurns_cons, hstep] at hdone
  · rintro ⟨hstep, h⟩ done hdone
    cases done with
    | nil => rfl
    | cons step' done =>
      obtain ⟨rfl, hrest⟩ := List.cons_prefix_cons.mp hdone
      rw [afterTurns_cons, hstep]
      apply h done hrest

/-- A text stays exactly if each name that is replaced and occurs in it stands for itself. -/
theorem kept_iff :
  Kept steps w ↔ ∀ name value, (name, value) ∈ steps → name <:+: w → value = name
  := by
  induction steps with
  | nil => simp [kept_nil]
  | cons step steps ih =>
    rw [kept_cons_iff, Text.replace_eq_self_iff, ih]
    simp only [List.mem_cons, or_imp, forall_and]
    constructor
    · rintro ⟨hstep, h⟩
      refine ⟨?_, h⟩
      rintro name value rfl
      exact hstep
    · rintro ⟨hstep, h⟩
      exact ⟨hstep step.1 step.2 rfl, h⟩

/-- A text stays if none of the names occurs in it. -/
theorem kept_of_not_infix (h : ∀ name ∈ steps.map Prod.fst, ¬ name <:+: w) :
  Kept steps w
  := by
  rw [kept_iff]
  intro name value hmem hoccurs
  exact absurd hoccurs (h name (List.mem_map_of_mem (f := Prod.fst) hmem))

/-! ### Exchanges in words -/

/-- Exchanges of identifiers leave nothing where nothing is. -/
theorem afterTurns_empty (h : ∀ step ∈ steps, IsIdentifier step.1) :
  afterTurns steps [] = []
  := by
  induction steps with
  | nil => rfl
  | cons step steps ih =>
    obtain ⟨hstep, hsteps⟩ := List.forall_mem_cons.mp h
    rw [afterTurns_cons, Text.replace, if_neg (by simpa using hstep.1)]
    apply ih hsteps

/-- Exchanges of identifiers do not reach over a character outside of identifiers. -/
theorem afterTurns_append_cons
    (h : ∀ step ∈ steps, IsIdentifier step.1) {c : Char} (hc : ¬ isWord c) (s t : Text) :
  afterTurns steps (s ++ c :: t) = afterTurns steps s ++ c :: afterTurns steps t
  := by
  have hlast : ∀ d ∈ [c].getLast?, ¬ isWord d := by
    rintro _ ⟨⟩
    exact hc
  have hfirst : ∀ u, ∀ d ∈ (c :: u : Text).head?, ¬ isWord d := by
    rintro _ _ ⟨⟩
    exact hc
  induction steps generalizing s t with
  | nil => rfl
  | cons step steps ih =>
    obtain ⟨hstep, hsteps⟩ := List.forall_mem_cons.mp h
    have hstay : Text.replace step.1 step.2 [c] = [c] := by
      apply Text.replace_eq_self_iff.mpr
      intro hoccurs
      obtain ⟨d, k, hk⟩ := List.exists_cons_of_ne_nil hstep.1
      have hd : d ∈ step.1 := by
        rw [hk]
        apply List.mem_cons_self
      rw [List.mem_singleton.mp (hoccurs.subset hd)] at hd
      exact absurd (hstep.2 c hd) hc
    rw [afterTurns_cons, hstep.replace_append (Text.apart_of_head? (hfirst t) s),
      ← List.singleton_append, hstep.replace_append (Text.apart_of_getLast? hlast t), hstay]
    apply ih hsteps

/-- Exchanges of identifiers do not reach into a text that starts outside of identifiers. -/
theorem afterTurns_append_of_head?
    (h : ∀ step ∈ steps, IsIdentifier step.1) (ht : ∀ c ∈ t.head?, ¬ isWord c) (s : Text) :
  afterTurns steps (s ++ t) = afterTurns steps s ++ afterTurns steps t
  := by
  cases t with
  | nil => rw [afterTurns_empty h, List.append_nil, List.append_nil]
  | cons c t =>
    have hc := ht c rfl
    have hcons := afterTurns_append_cons h hc [] t
    rw [afterTurns_empty h] at hcons
    rw [afterTurns_append_cons h hc]
    exact congrArg (afterTurns steps s ++ ·) hcons.symm

/-- Exchanges of identifiers are made in each word on its own. -/
theorem afterTurns_flatten (h : ∀ step ∈ steps, IsIdentifier step.1) {ws : List Text}
    (hws : IsWords ws) :
  afterTurns steps ws.flatten = ws.flatMap (afterTurns steps)
  := by
  induction ws with
  | nil => apply afterTurns_empty h
  | cons w ws ih =>
    rw [List.flatten_cons, List.flatMap_cons, ← ih hws.tail]
    rcases hws.token w List.mem_cons_self with hw | ⟨c, rfl, hc⟩
    · -- An identifier is followed by a word that is none.
      apply afterTurns_append_of_head? h
      intro c hc
      have hlast := List.getLast?_eq_some_getLast hw.1
      apply hws.apart _ hlast c hc
      apply hw.2 _ (List.mem_of_getLast? hlast)
    · have hcons := afterTurns_append_cons h hc [] ws.flatten
      have hsingle := afterTurns_append_cons h hc [] []
      rw [afterTurns_empty h] at hcons hsingle
      rw [List.nil_append] at hcons hsingle
      rw [hsingle]
      exact hcons

theorem afterTurns_eq_flatMap (h : ∀ step ∈ steps, IsIdentifier step.1) (t : Text) :
  afterTurns steps t = (words t).flatMap (afterTurns steps)
  := by
  conv_lhs => rw [← Text.flatten_words t]
  apply afterTurns_flatten h (Text.isWords_words t)

/-! ### What happens to a name -/

/-- If the names are identifiers, a substitution is made in each word on its own. -/
theorem substitute_eq_flatMap
    (h : ∀ name ∈ substitutedNames defines, IsIdentifier name) (code : Text) :
  substitute defines code = (words code).flatMap (afterTurns (substitutions defines code))
  := by
  rw [substitute_eq]
  apply afterTurns_eq_flatMap
  intro step hstep
  apply h
  rw [← map_fst_substitutions defines code]
  apply List.mem_map_of_mem hstep

/-- A name that is replaced occurs in no name that has its turn before. -/
theorem not_infix_of_before
    (h : substitutions defines code = before ++ (name, value) :: after) :
  ∀ n ∈ before.map Prod.fst, ¬ n <:+: name
  := by
  have hnames := map_fst_substitutions defines code
  rw [h, List.map_append, List.map_cons] at hnames
  intro n hn hoccurs
  have hsorted := sorted_substitutedNames defines
  rw [← hnames, List.pairwise_append] at hsorted
  have hle := hsorted.2.2 n hn name List.mem_cons_self
  obtain rfl := hoccurs.eq_of_length_le hle
  exact not_mem_done hnames.symm hn

/-- A name has its turn behind every name that has it in it, and is exchanged as a whole. -/
theorem exists_turn {v : Text} (hv : defines.find? name = some v) (hne : v ≠ switchValue)
    (code : Text) :
  ∃ before value after, substitutions defines code = before ++ (name, value) :: after ∧
    value = (find? (valueOf name) (afterTurns before code)).getD v ∧
    Kept before name ∧ afterTurns (before ++ [(name, value)]) name = value ∧
    ∀ n ∈ substitutedNames defines, n <:+: name → n ≠ name → n ∈ after.map Prod.fst
  := by
  have hmem := mem_substitutedNames_iff.mpr ⟨v, hv, hne⟩
  rw [← map_fst_substitutions defines code] at hmem
  obtain ⟨⟨n, value⟩, hturn, rfl⟩ := List.mem_map.mp hmem
  obtain ⟨before, after, hsteps⟩ := List.append_of_mem hturn
  have hbefore := not_infix_of_before hsteps
  have hkept := kept_of_not_infix hbefore
  refine ⟨before, value, after, hsteps, ?_, hkept, ?_, ?_⟩
  · have hvalue := value_of_turns hsteps
    rwa [hv] at hvalue
  · rw [afterTurns_append, hkept before List.prefix_rfl]
    apply Text.replace_self
  · intro m hm hoccurs hne
    rw [← map_fst_substitutions defines code, hsteps, List.map_append, List.mem_append,
      List.map_cons, List.mem_cons] at hm
    rcases hm with hm | hm | hm
    · exact absurd hoccurs (hbefore m hm)
    · exact absurd hm hne
    · exact hm

/-- If the names are identifiers, a substitution changes each word on its own.  A name that is
replaced stays until its turn and is then exchanged as a whole for its value at the moment; the
names that are part of it have their turns later.  A switch stays exactly if each name that is
replaced and occurs in it stands for itself. -/
theorem names_exchanged_whole
    (h : ∀ name ∈ substitutedNames defines, IsIdentifier name) (code : Text) :
  let steps := substitutions defines code
  substitute defines code = (words code).flatMap (afterTurns steps) ∧
  (∀ name v, defines.find? name = some v → v ≠ switchValue →
    ∃ before value after, steps = before ++ (name, value) :: after ∧
      value = (find? (valueOf name) (afterTurns before code)).getD v ∧
      Kept before name ∧ afterTurns (before ++ [(name, value)]) name = value ∧
      ∀ n ∈ substitutedNames defines, n <:+: name → n ≠ name → n ∈ after.map Prod.fst) ∧
  ∀ name, defines.find? name = some switchValue →
    (Kept steps name ↔ ∀ n value, (n, value) ∈ steps → n <:+: name → value = n)
  := by
  refine ⟨substitute_eq_flatMap h code, ?_, ?_⟩
  · intro name v hv hne
    apply exists_turn hv hne
  · intro name _
    apply kept_iff

/-- A name in which a shorter one occurs, next to a switch in which none does. -/
theorem names_exchanged_whole_nested :
  let code : Text := "#define A 1\n" ++ "#define AB A+A\n" ++ "#define FOG\n" ++ "AB+FOG"
  let steps := substitutions (collect code) code
  (∀ name ∈ substitutedNames (collect code), IsIdentifier name) ∧
    steps = [(("AB" : Text), ("A+A" : Text)), (("A" : Text), ("1" : Text))] ∧
    substitute (collect code) code = (words code).flatMap (afterTurns steps) ∧
    (∃ before value after, steps = before ++ (("AB" : Text), value) :: after ∧
      Kept before "AB" ∧ afterTurns (before ++ [(("AB" : Text), value)]) "AB" = value ∧
      ("A" : Text) ∈ after.map Prod.fst) ∧
    Kept steps "FOG"
  := by
  intro code steps
  have hnames : ∀ name ∈ substitutedNames (collect code), IsIdentifier name := by decide +kernel
  have hsteps : steps = [(("AB" : Text), ("A+A" : Text)), (("A" : Text), ("1" : Text))] := by
    decide +kernel
  obtain ⟨hwords, hreplaced, hswitch⟩ := names_exchanged_whole hnames code
  refine ⟨hnames, hsteps, hwords, ?_, ?_⟩
  · obtain ⟨before, value, after, heq, -, hkept, hwhole, hafter⟩ :=
      hreplaced "AB" "A+A" (by decide +kernel) (by decide +kernel)
    refine ⟨before, value, after, heq, hkept, hwhole, ?_⟩
    apply hafter <;> decide +kernel
  · apply (hswitch "FOG" (by decide +kernel)).mpr
    change ∀ n value, (n, value) ∈ steps → _
    rw [hsteps]
    simp only [List.mem_cons, List.not_mem_nil, or_false]
    rintro n value (heq | heq)
    all_goals
      cases heq
      decide +kernel

/-- A shorter name breaks a switch.  A name that is no identifier may take more than a word. -/
theorem not_kept_switch :
  let code : Text := "#define A 1\n" ++ "#define AB\n" ++ "let x = AB;"
  let outer : OrderedMap Text Text :=
    OrderedMap.ofList [(("AB+" : Text), ("1" : Text)), (("AB" : Text), switchValue)]
  let sum : Text := "AB+2"
  (collect code).find? "AB" = some switchValue ∧
    ¬ Kept (substitutions (collect code) code) "AB" ∧
    substitute (collect code) code = "#define 1 1\n" ++ "#define 1B\n" ++ "let x = 1B;" ∧
    substitute outer sum ≠ (words sum).flatMap (afterTurns (substitutions outer sum))
  := by
  refine ⟨by decide +kernel, ?_, by decide +kernel, by decide +kernel⟩
  intro hkept
  have hlast := hkept _ List.prefix_rfl
  revert hlast
  decide +kernel

end Define

end ShaderPair
