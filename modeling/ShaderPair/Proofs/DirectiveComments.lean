import ShaderPair.Proofs.NameTurns
import ShaderPair.Proofs.Terminated

/-!
# Directives that are left

In the end every directive of a text is to be a comment.  The search for directives to comment out
(`Define.commentOut`) works line by line (`Define.lines_commentOut`), but it asks for a space behind
the keyword, where a directive may have a tab as well (`Define.Tabbed`).  So a line is a directive
afterwards exactly if it was one with a tab there (`Define.definesLine_commentOut_iff`).  The
constants in front of a text bring no directives if their names and values hold no `#`, and so the
directives that are left are the tabbed ones of the text after the substitution
(`Define.directives_left`); none is left where there are no tabs.
-/

namespace ShaderPair

/-! ### Lines -/

namespace Text

variable {c : Char} {l s t : Text}

/-- The lines on both sides of a line break. -/
theorem lines_append_break (s t : Text) :
  lines (s ++ '\n' :: t) = lines s ++ lines t
  := by
  simp only [lines]
  induction s with
  | nil => rfl
  | cons c s ih =>
    rw [List.cons_append, splitOn, splitOn, ih]
    split
    · rfl
    · cases hs : splitOn '\n' s with
      | nil => exact absurd hs (splitOn_ne_nil '\n' s)
      | cons part parts => rfl

theorem unlines_cons (l : Text) {ls : List Text} (h : ls ≠ []) :
  unlines (l :: ls) = l ++ '\n' :: unlines ls
  := by
  rw [unlines, join_cons _ _ h, List.append_assoc]
  rfl

theorem lines_ne_nil (t : Text) :
  lines t ≠ []
  := splitOn_ne_nil '\n' t

/-- What is done line by line to a text is done to its lines. -/
theorem lines_of_linewise {f : Text → Text}
    (hline : ∀ l t, '\n' ∉ l → f (l ++ '\n' :: t) = f l ++ '\n' :: f t)
    (hbreak : ∀ l, '\n' ∉ l → '\n' ∉ f l) (t : Text) :
  lines (f t) = (lines t).map f
  := by
  have hunlines : ∀ ls : List Text, (∀ l ∈ ls, '\n' ∉ l) → ls ≠ [] →
      lines (f (unlines ls)) = ls.map f := by
    intro ls hls hne
    induction ls with
    | nil => exact absurd rfl hne
    | cons l ls ih =>
      obtain ⟨hl, hls⟩ := List.forall_mem_cons.mp hls
      cases ls with
      | nil => exact splitOn_of_not_mem (hbreak l hl)
      | cons u us =>
        have hus := List.cons_ne_nil u us
        rw [unlines_cons l hus, hline l _ hl, lines_append (hbreak l hl), ih hls hus]
        rfl
  have hlines := hunlines (lines t) (fun l => not_mem_of_mem_lines) (lines_ne_nil t)
  rwa [unlines_lines] at hlines

theorem mem_of_mem_lines (hl : l ∈ lines t) (hc : c ∈ l) :
  c ∈ t
  := by
  obtain ⟨above, below, hlines⟩ := List.append_of_mem hl
  obtain ⟨rest, rfl, -⟩ := exists_broken hlines
  simp [hc]

/-- A terminated text puts lines of its own in front of those of a text. -/
theorem Terminated.exists_lines (h : Terminated s) :
  ∃ ls, (∀ l ∈ ls, ∀ c ∈ l, c ∈ s) ∧ ∀ t, lines (s ++ t) = ls ++ lines t
  := by
  obtain rfl | ⟨s, rfl⟩ := h
  · use []
    simp
  · refine ⟨lines (s ++ [';']), ?_, ?_⟩
    · intro l hl c hc
      have hmem := mem_of_mem_lines hl hc
      simp only [List.mem_append, List.mem_cons] at hmem ⊢
      tauto
    · intro t
      rw [← lines_append_break]
      simp

end Text

namespace OrderedMap

variable {κ α : Type} [DecidableEq κ]

theorem mem_keys_ofList_iff {es : List (κ × α)} {k : κ} :
  k ∈ (ofList es).keys ↔ k ∈ es.map Prod.fst
  := by
  rw [← not_iff_not, ← find?_eq_none_iff, find?_ofList, lookup_eq_none_iff, List.map_reverse,
    List.mem_reverse]

end OrderedMap

namespace Define

open Pattern (find? first?)
open Text (Apart IsIdentifier Terminated isGap isWord)

variable {c : Char} {code l name rest s t u v : Text} {outer own : OrderedMap Text Text}

/-! ### Comments line by line -/

theorem mem_of_mem_commentOutAfter {slashes : Nat} (h : c ∈ commentOutAfter slashes t) :
  c ∈ t ∨ c = '/'
  := by
  induction slashes, t using commentOut_induction with
  | nil => cases h
  | directive slashes t hstarts hslashes ih =>
    rw [commentOutAfter_of_starts hstarts hslashes] at h
    simp only [List.mem_cons] at h ⊢
    rw [commentOut] at h
    tauto
  | char slashes d t hd ih =>
    rw [commentOutAfter_of_imp hd] at h
    simp only [List.mem_cons] at h ⊢
    tauto

/-- Directives are turned into comments line by line. -/
theorem lines_commentOut (t : Text) :
  Text.lines (commentOut t) = (Text.lines t).map commentOut
  := by
  have hbreak : '\n' ∉ marker := by
    rw [text_marker]
    decide
  apply Text.lines_of_linewise
  · intro l t _
    apply commentOutAfter_append_cons hbreak (by decide)
  · intro l hl hmem
    rcases mem_of_mem_commentOutAfter hmem with hmem | hslash
    · exact hl hmem
    · cases hslash

/-! ### Directive lines -/

/-- A tab follows the keyword at the start of a line. -/
def Tabbed (l : Text) : Prop := keyword ++ ['\t'] <+: l.dropWhile isGap

instance : DecidablePred Tabbed := fun l =>
  inferInstanceAs (Decidable (keyword ++ ['\t'] <+: l.dropWhile isGap))

theorem marker_eq :
  marker = keyword ++ [' ']
  := by
  rw [text_marker, keyword_eq, keywordName, Text.ofString_ofList]
  rfl

theorem tabbed_iff {indent : Text} (hindent : ∀ c ∈ indent, isGap c) (t : Text) :
  Tabbed (indent ++ (keyword ++ t)) ↔ ['\t'] <+: t
  := by
  have hdrop : (indent ++ (keyword ++ t)).dropWhile isGap = keyword ++ t := by
    rw [List.dropWhile_append_of_pos hindent, keyword_eq, List.cons_append,
      List.dropWhile_cons_of_neg (by decide)]
  rw [Tabbed, hdrop, List.prefix_append_right_inj]

/-- A character stays in front exactly if no directive starts there. -/
theorem commentOut_eq_cons_iff (hc : c ≠ '/') :
  commentOut t = c :: u ↔ ∃ r, t = c :: r ∧ ¬ marker <+: c :: r ∧ commentOut r = u
  := by
  constructor
  · intro h
    cases t with
    | nil => cases h
    | cons d r =>
      by_cases hstarts : marker <+: d :: r
      · rw [commentOut, commentOutAfter] at h
        simp only [List.isPrefixOf_iff_prefix.mpr hstarts] at h
        exact absurd (List.cons.inj h).1.symm hc
      · rw [commentOut, commentOutAfter_of_not_prefix hstarts] at h
        obtain ⟨rfl, rfl⟩ := List.cons.inj h
        refine ⟨r, rfl, hstarts, ?_⟩
        rw [if_neg hc]
        rfl
  · rintro ⟨r, rfl, hstarts, rfl⟩
    rw [commentOut, commentOutAfter_of_not_prefix hstarts, if_neg hc]
    rfl

/-- What neither starts a directive nor belongs to a comment stays in front. -/
theorem commentOut_eq_append_iff (hs : ∀ c ∈ s, c ≠ '#' ∧ c ≠ '/') :
  commentOut t = s ++ u ↔ ∃ r, t = s ++ r ∧ commentOut r = u
  := by
  induction s generalizing t with
  | nil =>
    constructor
    · intro h
      exact ⟨t, rfl, h⟩
    · rintro ⟨r, rfl, h⟩
      exact h
  | cons c s ih =>
    obtain ⟨⟨hhash, hslash⟩, hs⟩ := List.forall_mem_cons.mp hs
    have hstart : ∀ r, ¬ marker <+: c :: r := by
      intro r hstarts
      exact hhash (eq_of_starts hstarts)
    rw [List.cons_append, commentOut_eq_cons_iff hslash]
    constructor
    · rintro ⟨r, rfl, -, h⟩
      obtain ⟨r, rfl, hr⟩ := (ih hs).mp h
      exact ⟨r, rfl, hr⟩
    · rintro ⟨r, rfl, hr⟩
      exact ⟨s ++ r, rfl, hstart _, (ih hs).mpr ⟨r, rfl, hr⟩⟩

/-- Comments do not run on from a name. -/
theorem apart_commentOut_iff (w t : Text) :
  Apart w (commentOut t) ↔ Apart w t
  := by
  cases t with
  | nil => rfl
  | cons c t =>
    by_cases hstarts : marker <+: c :: t
    · have hhash := eq_of_starts hstarts
      have hnot : Apart w (commentOut (c :: t)) := by
        apply Text.apart_of_head?
        rw [commentOut, commentOutAfter, List.isPrefixOf_iff_prefix.mpr hstarts]
        rintro _ ⟨⟩
        decide
      have hnot' : Apart w (c :: t) := by
        apply Text.apart_of_head?
        rw [hhash]
        rintro _ ⟨⟩
        decide
      exact iff_of_true hnot hnot'
    · rw [commentOut, commentOutAfter_of_not_prefix hstarts]
      rfl

theorem plain_of_isGap {c : Char} (hc : isGap c) :
  c ≠ '#' ∧ c ≠ '/'
  := by
  constructor <;> rintro rfl <;> revert hc <;> decide

theorem plain_of_isWord {c : Char} (hc : isWord c) :
  c ≠ '#' ∧ c ≠ '/'
  := by
  constructor <;> rintro rfl <;> revert hc <;> decide

/-- Up to the end of its name a directive has no marker behind the first character. -/
theorem plain_of_directive {g : Text} (hg : ∀ c ∈ g, isGap c) (hname : IsIdentifier name) :
  ∀ c ∈ keywordName ++ (g ++ name), c ≠ '#' ∧ c ≠ '/'
  := by
  intro c hc
  simp only [List.mem_append] at hc
  rcases hc with hc | hc | hc
  · exact plain_of_isWord (isIdentifier_keywordName.2 c hc)
  · exact plain_of_isGap (hg c hc)
  · exact plain_of_isWord (hname.2 c hc)

theorem keyword_append (g name r : Text) :
  keyword ++ (g ++ (name ++ r)) = '#' :: ((keywordName ++ (g ++ name)) ++ r)
  := by
  rw [keyword_eq]
  simp

/-- A line is a directive afterwards exactly if it was one with a tab behind the keyword. -/
theorem definesLine_commentOut_iff :
  DefinesLine name rest (commentOut l) ↔
    ∃ r, DefinesLine name r l ∧ Tabbed l ∧ commentOut r = rest
  := by
  constructor
  · rintro ⟨indent, g, hindent, hne, hg, hname, hrest, heq⟩
    have hplain := fun c hc => plain_of_isGap (hindent c hc)
    obtain ⟨r, rfl, hr⟩ := (commentOut_eq_append_iff hplain).mp heq
    rw [keyword_append, commentOut_eq_cons_iff (by decide)] at hr
    obtain ⟨r, rfl, hstart, hr⟩ := hr
    obtain ⟨r, rfl, rfl⟩ := (commentOut_eq_append_iff (plain_of_directive hg hname)).mp hr
    rw [← keyword_append] at hstart ⊢
    refine ⟨r, ⟨indent, g, hindent, hne, hg, hname, ?_, rfl⟩, ?_, rfl⟩
    · exact (apart_commentOut_iff name r).mp hrest
    · obtain ⟨d, g, rfl⟩ := List.exists_cons_of_ne_nil hne
      have hd := hg d List.mem_cons_self
      rw [isGap, Bool.or_eq_true, beq_iff_eq, beq_iff_eq] at hd
      rw [tabbed_iff hindent]
      rw [marker_eq, List.prefix_append_right_inj] at hstart
      rcases hd with rfl | rfl
      · exact absurd (by simp) hstart
      · simp
  · rintro ⟨r, ⟨indent, g, hindent, hne, hg, hname, hrest, rfl⟩, htab, rfl⟩
    rw [tabbed_iff hindent] at htab
    refine ⟨indent, g, hindent, hne, hg, hname, (apart_commentOut_iff name r).mpr hrest, ?_⟩
    apply (commentOut_eq_append_iff fun c hc => plain_of_isGap (hindent c hc)).mpr
    refine ⟨_, rfl, ?_⟩
    rw [keyword_append, keyword_append, commentOut_eq_cons_iff (by decide)]
    refine ⟨_, rfl, ?_, (commentOut_eq_append_iff (plain_of_directive hg hname)).mpr ⟨r, rfl, rfl⟩⟩
    rw [← keyword_append, marker_eq, List.prefix_append_right_inj]
    obtain ⟨s, hs⟩ := htab
    rw [← hs]
    simp

/-- What a line defines after directives are turned into comments. -/
theorem ofLine?_commentOut_iff :
  (∃ v, ofLine? (commentOut l) = some (name, v)) ↔ Tabbed l ∧ ∃ v, ofLine? l = some (name, v)
  := by
  simp only [ofLine?_eq_some_iff, definesLine_commentOut_iff]
  constructor
  · rintro ⟨_, _, ⟨r, hdefines, htab, rfl⟩, -⟩
    exact ⟨htab, _, r, hdefines, rfl⟩
  · rintro ⟨htab, _, r, hdefines, -⟩
    exact ⟨_, _, ⟨r, hdefines, htab, rfl⟩, rfl⟩

/-! ### Constants -/

theorem terminated_constant (name value : Text) :
  Terminated (constant name value)
  := by
  have hend : (";\n" : Text) = [';', '\n'] := Text.ofString_ofList _
  rw [constant]
  split
  · left; rfl
  · split
    · right
      rw [hend]
      exact ⟨_, rfl⟩
    · split
      · right
        rw [hend]
        exact ⟨_, rfl⟩
      · left; rfl

/-- Each constant is a declaration of its own. -/
theorem terminated_constants (outer : OrderedMap Text Text) :
  Terminated (constants outer)
  := by
  rw [constants]
  induction outer.entries with
  | nil => left; rfl
  | cons e es ih =>
    rw [List.flatMap_cons]
    apply (terminated_constant e.1 e.2).append ih

/-- The constants hold no `#` if the names and values do not. -/
theorem not_mem_constants (h : ∀ e ∈ outer.entries, '#' ∉ e.1 ∧ '#' ∉ e.2) :
  '#' ∉ constants outer
  := by
  have hconst : '#' ∉ ("const " : Text) := by
    rw [Text.ofString_ofList]
    decide
  have hequals : '#' ∉ (" = " : Text) := by
    rw [Text.ofString_ofList]
    decide
  have hswitch : '#' ∉ switchValue := by
    rw [switchValue, Text.ofString_ofList]
    decide
  have hend : '#' ∉ (";\n" : Text) := by
    rw [Text.ofString_ofList]
    decide
  intro hmem
  obtain ⟨⟨name, value⟩, he, hmem⟩ := List.mem_flatMap.mp hmem
  obtain ⟨hname, hvalue⟩ := h _ he
  have htrim : '#' ∉ Text.trim value := fun hmem => hvalue ((Text.infix_trim value).subset hmem)
  change '#' ∈ constant name value at hmem
  rw [constant] at hmem
  split at hmem
  · cases hmem
  · split at hmem
    · simp [hconst, hequals, hend, hname, htrim] at hmem
    · split at hmem
      · simp [hconst, hequals, hend, hname, hswitch] at hmem
      · cases hmem

/-! ### Directives that are left -/

/-- The names that a text defines are those of its directives. -/
theorem mem_keys_collect_iff :
  name ∈ (collect code).keys ↔ ∃ l ∈ Text.lines code, ∃ v, ofLine? l = some (name, v)
  := by
  rw [collect, OrderedMap.mem_keys_ofList_iff]
  simp only [List.mem_map, List.mem_filterMap, Prod.exists, exists_and_right, exists_eq_right]
  tauto

/-- The directives that are left are those with a tab behind the keyword. -/
theorem mem_keys_collect_resolve_iff
    (h : ∀ e ∈ outer.entries, '#' ∉ e.1 ∧ '#' ∉ e.2) (own : OrderedMap Text Text)
    (code name : Text) :
  name ∈ (collect (resolve outer own code)).keys ↔
    ∃ l ∈ Text.lines (substitute own code), Tabbed l ∧ ∃ v, ofLine? l = some (name, v)
  := by
  obtain ⟨ls, hls, hlines⟩ := (terminated_constants outer).exists_lines
  rw [mem_keys_collect_iff, resolve, lines_commentOut, hlines]
  simp only [List.mem_map, exists_exists_and_eq_and, ofLine?_commentOut_iff, List.mem_append]
  constructor
  · rintro ⟨l, hl | hl, htab, hdefines⟩
    · -- There is no keyword among the constants.
      have hhash : '#' ∈ l := by
        apply (List.dropWhile_suffix isGap).subset
        apply htab.subset
        rw [keyword_eq]
        simp
      exact absurd (hls l hl '#' hhash) (not_mem_constants h)
    · exact ⟨l, hl, htab, hdefines⟩
  · rintro ⟨l, hl, htab, hdefines⟩
    exact ⟨l, .inr hl, htab, hdefines⟩

/-! ### Characters of a text after a substitution -/

/-- The value that a text gives a name is part of the text. -/
theorem infix_of_find?_valueOf (h : find? (valueOf name) t = some v) :
  v <:+: t
  := by
  obtain ⟨s, hs, rest, hfirst⟩ := exists_first?_of_find? h
  have hmem := List.mem_of_mem_head? hfirst
  simp only [valueOf, Pattern.mem_bind_iff, Pattern.pure_apply, List.mem_singleton] at hmem
  obtain ⟨w₁, h₁, w₂, h₂, w₃, h₃, w₄, h₄, w₅, h₅, heq⟩ := hmem
  obtain rfl := List.mem_singleton.mp h₅
  obtain ⟨g, -, -, hgap⟩ := exists_of_mem_someOf h₂
  have hrest : w₄.2 = w₃.2 := by
    rw [Pattern.boundary] at h₄
    split at h₄
    next => rw [List.mem_singleton.mp h₄]
    next => cases h₄
  cases heq
  have hline : w₃.2.takeWhile (· != '\n') <:+: t := by
    apply List.IsInfix.trans _ hs.isInfix
    rw [eq_of_mem_word h₁, hgap, eq_of_mem_word h₃]
    apply (List.takeWhile_prefix _).isInfix.trans
    apply List.IsSuffix.isInfix
    exact ⟨keyword ++ (g ++ name), by simp⟩
  rw [← hrest] at hline
  exact (Text.infix_trim _).trans hline

theorem mem_of_mem_substituteOne {fallback : Text} (h : c ∈ substituteOne code name fallback) :
  c ∈ code ∨ c ∈ fallback
  := by
  rcases Text.mem_of_mem_replace h with h | h
  · left; exact h
  · cases hvalue : find? (valueOf name) code with
    | none =>
      rw [hvalue] at h
      right; exact h
    | some v =>
      rw [hvalue] at h
      left; exact (infix_of_find?_valueOf hvalue).subset h

/-- The characters of a text after a substitution were there or belong to a value. -/
theorem mem_of_mem_substitute (h : c ∈ substitute own code) :
  c ∈ code ∨ ∃ name v, own.find? name = some v ∧ c ∈ v
  := by
  rw [substitute] at h
  generalize substitutedNames own = names at h
  induction names generalizing code with
  | nil => left; exact h
  | cons name names ih =>
    rw [List.foldl_cons] at h
    rcases ih h with h | h
    · rcases mem_of_mem_substituteOne h with h | h
      · left; exact h
      · right
        cases hv : own.find? name with
        | none =>
          rw [hv] at h
          cases h
        | some v =>
          rw [hv] at h
          exact ⟨name, v, hv, h⟩
    · right; exact h

/-- The characters of a value that a text defines are in the text, unless it is that of a
switch. -/
theorem mem_of_find?_collect (h : (collect code).find? name = some v) (hc : c ∈ v) :
  c ∈ code ∨ v = switchValue
  := by
  obtain ⟨l, hl, hline⟩ := List.mem_filterMap.mp (OrderedMap.mem_of_find?_ofList h)
  obtain ⟨rest, ⟨indent, g, -, -, -, -, -, rfl⟩, rfl⟩ := ofLine?_eq_some_iff.mp hline
  rw [lineValue] at hc ⊢
  split at hc
  next hempty =>
    right
    rw [if_pos hempty]
  next =>
    left
    apply Text.mem_of_mem_lines hl
    have hrest : c ∈ rest := by
      have hdrop := (List.rdropWhile_prefix isGap (rest.dropWhile isGap)).subset hc
      exact (List.dropWhile_suffix isGap).subset hdrop
    simp [hrest]

/-- The directives that are left are those of the text after the substitution that have a tab
behind the keyword.  So no directive is left in a text without tabs. -/
theorem directives_left (h : ∀ e ∈ outer.entries, '#' ∉ e.1 ∧ '#' ∉ e.2) (code : Text) :
  let own := collect code
  (∀ name, name ∈ (collect (resolve outer own code)).keys ↔
    ∃ l ∈ Text.lines (substitute own code), Tabbed l ∧ ∃ v, ofLine? l = some (name, v)) ∧
  ('\t' ∉ code → collect (resolve outer own code) = ∅)
  := by
  intro own
  have hkeys := mem_keys_collect_resolve_iff h own code
  use hkeys
  intro htab
  have htab' : '\t' ∉ substitute own code := by
    intro hmem
    rcases mem_of_mem_substitute hmem with hmem | ⟨name, v, hv, hmem⟩
    · exact htab hmem
    · rcases mem_of_find?_collect hv hmem with hmem' | rfl
      · exact htab hmem'
      · revert hmem
        decide +kernel
  apply OrderedMap.ext
  rw [OrderedMap.entries_empty, ← List.map_eq_nil_iff (f := Prod.fst),
    List.eq_nil_iff_forall_not_mem]
  intro name hname
  obtain ⟨l, hl, htabbed, -⟩ := (hkeys name).mp hname
  apply htab'
  apply Text.mem_of_mem_lines hl
  apply (List.dropWhile_suffix isGap).subset
  apply htabbed.subset
  simp

/-- A text with a constant from outside and directives for a number and for a switch. -/
theorem directives_left_spaced :
  let outer : OrderedMap Text Text := OrderedMap.ofList [(("SIZE" : Text), ("4" : Text))]
  let code : Text := "  #define A B+1\n" ++ "#define  B 2\n" ++ "#define FOG\n" ++ "x = A;"
  (∀ e ∈ outer.entries, '#' ∉ e.1 ∧ '#' ∉ e.2) ∧ '\t' ∉ code ∧
    (collect code).keys = [("A" : Text), ("B" : Text), ("FOG" : Text)] ∧
    collect (resolve outer (collect code) code) = ∅
  := by
  intro outer code
  have houter : ∀ e ∈ outer.entries, '#' ∉ e.1 ∧ '#' ∉ e.2 := by decide +kernel
  have htab : '\t' ∉ code := by decide +kernel
  exact ⟨houter, htab, by decide +kernel, (directives_left houter code).2 htab⟩

/-- A tab behind the keyword: the directive is found and left. -/
theorem not_neutralized_tab :
  let code : Text := "#define\tA 1"
  (collect code).keys = [("A" : Text)] ∧
    resolve ∅ (collect code) code = "#define\t1 1" ∧
    (collect (resolve ∅ (collect code) code)).keys = [("1" : Text)]
  := by
  decide +kernel

end Define

end ShaderPair
