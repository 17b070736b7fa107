import ShaderPair.Proofs.Substitution

/-!
# The order of directives

Directives stand on top of a body, each for a name of its own (`Define.Heading`).  Their order
makes no difference for the values (`Define.Heading.value?_perm`), so it makes none for the body
where the names are expanded in full in either order (`Define.expandedBody_perm`).  What an order
has to provide for that is `Define.Settled`: the search for a value would stop too early at the
directive for a name that is replaced already and whose value leads at its start to the name that
is looked for.  This happens (`Define.expandedBody_ne_reverse`).
-/

namespace ShaderPair

namespace Define

open Text (words isGap)
open Relation (TransGen)

/-! ### Texts with directives on top -/

/-- A text with some lines on top of a body. -/
def headed (ds : List Text) (body : Text) : Text := Text.broken ds ++ body

/-- What the replacement of names makes of the body below some directives. -/
def expandedBody (ds : List Text) (body : Text) : Text :=
  let code := headed ds body
  Text.unlines ((Text.lines (substitute (collect code) code)).drop ds.length)

/-- Directives for different names on top of a body that has none. -/
structure Heading (ds : List Text) (body : Text) : Prop where
  /-- On top there are only directives. -/
  directive : ∀ l ∈ ds, (ofLine? l).isSome ∧ '\n' ∉ l
  /-- The body has no directive. -/
  undirected : ∀ l ∈ Text.lines body, ofLine? l = none
  /-- Each name has one directive. -/
  single : ((ds.filterMap ofLine?).map Prod.fst).Nodup

/-- Directives whose names occur only as whole words and whose values do not lead back to the
names. -/
structure Preamble (ds : List Text) (body : Text) : Prop extends Heading ds body where
  /-- No value leads back to its name. -/
  acyclic : ∀ n, ¬ TransGen (Mentions (value? (headed ds body))) n n
  /-- A replaced name is a whole word wherever it occurs. -/
  whole : ∀ n ∈ substitutedNames (collect (headed ds body)), ∀ t ∈ body :: ds, ∀ w ∈ words t,
    n <:+: w → w = n

/-- Directives whose values make no difference for where directives start and for the blanks
around values. -/
structure Regular (ds : List Text) (body : Text) : Prop where
  /-- The name in the keyword is not replaced. -/
  keyword_kept : keywordName ∉ substitutedNames (collect (headed ds body))
  /-- The keyword stands only at the start of a directive. -/
  marked : ∀ l ∈ ds, ¬ keyword <:+: (l.dropWhile isGap).tail
  edged : Edged (headed ds body)
  /-- No word behind a `#` is replaced by a text that starts with the name in the keyword. -/
  unmade : ∀ t ∈ body :: ds, (words t).IsChain fun a b =>
    a = ['#'] → ¬ TransGen (StartsWith (value? (headed ds body))) b keywordName

variable {ds ds' : List Text} {body : Text}

/-- The words of lines and of the body below them, line breaks aside. -/
theorem mem_words_headed {w : Text} (hw : w ∈ words (headed ds body)) :
  w = ['\n'] ∨ ∃ t ∈ body :: ds, w ∈ words t
  := by
  rw [headed] at hw
  induction ds with
  | nil => exact .inr ⟨body, List.mem_cons_self, hw⟩
  | cons l ds ih =>
    rw [Text.broken_cons, List.append_assoc, List.cons_append, Text.words_line,
      List.mem_append, List.mem_cons] at hw
    rcases hw with hw | rfl | hw
    · exact .inr ⟨l, by simp, hw⟩
    · exact .inl rfl
    · rcases ih hw with heq | ⟨t, ht, hw⟩
      · exact .inl heq
      · refine .inr ⟨t, ?_, hw⟩
        rcases List.mem_cons.mp ht with rfl | ht <;> simp [*]

namespace Heading

theorem lines_headed (h : Heading ds body) :
  Text.lines (headed ds body) = ds ++ Text.lines body
  := Text.lines_broken (fun l hl => (h.directive l hl).2) body

theorem directives_headed (h : Heading ds body) :
  directives (headed ds body) = ds.filterMap ofLine?
  := by
  rw [directives, h.lines_headed, List.filterMap_append,
    List.filterMap_eq_nil_iff.mpr h.undirected, List.append_nil]

/-- The values of the names are those in the directives. -/
theorem find?_collect_iff (h : Heading ds body) {n v : Text} :
  (collect (headed ds body)).find? n = some v ↔ (n, v) ∈ ds.filterMap ofLine?
  := by
  have hcollect : collect (headed ds body) = OrderedMap.ofList (ds.filterMap ofLine?) := by
    rw [← h.directives_headed]
    rfl
  rw [hcollect]
  exact ⟨OrderedMap.mem_of_find?_ofList, OrderedMap.find?_ofList_of_mem h.single⟩

/-- Directives may be put into another order. -/
theorem perm (h : Heading ds body) (hperm : ds.Perm ds') :
  Heading ds' body
  := by
  refine ⟨fun l hl => h.directive l (hperm.mem_iff.mpr hl), h.undirected, ?_⟩
  rw [← ((hperm.filterMap ofLine?).map Prod.fst).nodup_iff]
  exact h.single

/-- The order of the directives makes no difference for the names. -/
theorem find?_collect_perm (h : Heading ds body) (hperm : ds.Perm ds') (n : Text) :
  (collect (headed ds body)).find? n = (collect (headed ds' body)).find? n
  := by
  apply Option.ext
  intro v
  rw [h.find?_collect_iff, (h.perm hperm).find?_collect_iff, (hperm.filterMap ofLine?).mem_iff]

theorem mem_substitutedNames_perm (h : Heading ds body) (hperm : ds.Perm ds') {n : Text} :
  n ∈ substitutedNames (collect (headed ds body)) ↔
    n ∈ substitutedNames (collect (headed ds' body))
  := by
  rw [mem_substitutedNames_iff, mem_substitutedNames_iff, h.find?_collect_perm hperm]

/-- The order of the directives makes no difference for the values. -/
theorem value?_perm (h : Heading ds body) (hperm : ds.Perm ds') :
  value? (headed ds body) = value? (headed ds' body)
  := by
  funext n
  rw [value?, value?, replacement?, replacement?, h.find?_collect_perm hperm]

/-- A line above a directive is on top. -/
theorem mem_of_above
    (h : Heading ds body) {above below : List Text} {l : Text}
    (hlines : Text.lines (headed ds body) = above ++ l :: below)
    (hbelow : ∃ u ∈ below, (ofLine? u).isSome) :
  l ∈ ds
  := by
  obtain ⟨u, hu, hsome⟩ := hbelow
  have hbody : u ∉ Text.lines body := by
    intro hmem
    rw [h.undirected u hmem] at hsome
    cases hsome
  rw [h.lines_headed] at hlines
  rcases List.append_eq_append_iff.mp hlines with ⟨as, -, heq⟩ | ⟨as, rfl, heq⟩
  · exact absurd (by simp [heq, hu]) hbody
  · cases as with
    | nil =>
      rw [List.nil_append] at heq
      exact absurd (by simp [← heq, hu]) hbody
    | cons a as =>
      obtain ⟨rfl, -⟩ := List.cons.inj heq
      simp

end Heading

namespace Regular

theorem unmade_headed (hr : Regular ds body) :
  Unmade (headed ds body)
  := by
  have hbreak : ∀ b, ¬ TransGen (StartsWith (value? (headed ds body))) ['\n'] b := by
    intro b hb
    obtain ⟨_, ⟨v, hv, -⟩, -⟩ := TransGen.head'_iff.mp hb
    exact absurd (isIdentifier_of_value? hv) (by decide)
  have hunmade := hr.unmade
  rw [Unmade]
  generalize value? (headed ds body) = values at hbreak hunmade ⊢
  rw [headed]
  clear hr
  induction ds with
  | nil => exact hunmade body List.mem_cons_self
  | cons l ds ih =>
    rw [Text.broken_cons, List.append_assoc, List.cons_append, Text.words_line,
      List.isChain_append, List.isChain_cons]
    refine ⟨hunmade l (by simp), ⟨?_, ih ?_⟩, ?_⟩
    · rintro b - hb
      cases hb
    · intro t ht
      apply hunmade t
      rcases List.mem_cons.mp ht with rfl | ht <;> simp [*]
    · rintro a - b hb -
      obtain rfl := Option.some.inj hb
      apply hbreak

/-- Regular directives may be put into another order. -/
theorem perm (h : Heading ds body) (hr : Regular ds body) (hperm : ds.Perm ds') :
  Regular ds' body
  := by
  constructor
  · rw [← h.mem_substitutedNames_perm hperm]
    exact hr.keyword_kept
  · intro l hl
    apply hr.marked l (hperm.mem_iff.mpr hl)
  · rw [Edged, ← h.value?_perm hperm]
    exact hr.edged
  · rw [← h.value?_perm hperm]
    intro t ht
    apply hr.unmade t ((hperm.cons body).mem_iff.mpr ht)

end Regular

namespace Preamble

/-- The directives may be put into another order. -/
theorem perm (h : Preamble ds body) (hperm : ds.Perm ds') :
  Preamble ds' body
  := by
  have hheading := h.toHeading
  refine ⟨hheading.perm hperm, ?_, ?_⟩
  · rw [← hheading.value?_perm hperm]
    exact h.acyclic
  · intro n hn t ht
    rw [← hheading.mem_substitutedNames_perm hperm] at hn
    apply h.whole n hn t ((hperm.cons body).mem_iff.mpr ht)

/-- Regular directives on top of a body are expanded in full if no value leads at its start to a
name that is replaced later and defined further down. -/
theorem expandable
    (h : Preamble ds body) (hr : Regular ds body) (hs : Settled (headed ds body)) :
  Expandable (headed ds body)
  := by
  constructor
  · intro above l below hlines hbelow _
    have hl : l ∈ ds := by
      apply h.mem_of_above hlines
      obtain ⟨u, hu, d, hd, -⟩ := hbelow
      exact ⟨u, hu, Option.isSome_iff_exists.mpr ⟨d, hd⟩⟩
    exact ⟨(h.directive l hl).1, hr.marked l hl⟩
  · intro n hn
    obtain ⟨v, hv, -⟩ := mem_substitutedNames_iff.mp hn
    rw [h.directives_headed]
    apply List.count_eq_one_of_mem h.single
    apply List.mem_map_of_mem (f := Prod.fst) (h.find?_collect_iff.mp hv)
  · exact hr.keyword_kept
  · intro n v hv hkeyword
    obtain ⟨x, hx, rfl, l, hl, hline⟩ := exists_ofLine? hv
    obtain ⟨r, ⟨indent, g, hindent, -, -, -, -, rfl⟩, htrim⟩ := definesLine_of_ofLine? hline
    rw [htrim hx] at hkeyword
    rw [h.lines_headed, List.mem_append] at hl
    rcases hl with hl | hl
    · apply hr.marked _ hl
      rw [tail_dropWhile_keyword hindent]
      apply hkeyword.trans ((Text.infix_trim r).trans _)
      exact ⟨keywordName ++ (g ++ n), [], by simp⟩
    · cases (h.undirected _ hl).symm.trans hline
  · exact h.acyclic
  · exact hs
  · intro n hn w hw hnw
    left
    rcases mem_words_headed hw with rfl | ⟨t, ht, hw⟩
    · obtain ⟨v, hv⟩ := isSome_value?_iff.mpr hn
      have hname := isIdentifier_of_value? hv
      obtain ⟨c, s, rfl⟩ := List.exists_cons_of_ne_nil hname.1
      obtain rfl := List.mem_singleton.mp (hnw.subset List.mem_cons_self)
      exact absurd (hname.2 '\n' List.mem_cons_self) (by decide)
    · apply h.whole n hn t ht w hw hnw
  · exact hr.edged
  · exact hr.unmade_headed

end Preamble

/-! ### The body -/

/-- The expansion of lines consists of as many lines. -/
theorem exists_broken_of_expands
    {code : Text} {us : List Text} (hds : ∀ l ∈ ds, '\n' ∉ l)
    (hus : Expands (value? code) (words (Text.broken ds)) us) :
  ∃ ls : List Text, ls.length = ds.length ∧ (∀ l ∈ ls, '\n' ∉ l) ∧ us.flatten = Text.broken ls
  := by
  induction ds generalizing us with
  | nil =>
    rw [hus.eq_nil]
    exact ⟨[], rfl, by simp, rfl⟩
  | cons d ds ih =>
    obtain ⟨hd, hds⟩ := List.forall_mem_cons.mp hds
    rw [Text.broken_cons, Text.words_line] at hus
    obtain ⟨ul, ur, rfl, hul, hur⟩ := hus.of_append
    cases hur with
    | replace hv _ _ => exact absurd (isIdentifier_of_value? hv) (by decide)
    | keep _ hur =>
      obtain ⟨ls, hlength, hls, hflatten⟩ := ih hds hur
      have hline : '\n' ∉ ul.flatten := by
        have hwords := hul.forall_mem (P := fun w => '\n' ∉ w)
          (fun w hw hc => hd (Text.mem_of_mem_words hw hc))
          (fun n v hv w hw hc => not_mem_of_value? hv (Text.mem_of_mem_words hw hc))
        intro hmem
        obtain ⟨w, hw, hc⟩ := List.mem_flatten.mp hmem
        exact hwords w hw hc
      refine ⟨ul.flatten :: ls, by simp [hlength], ?_, ?_⟩
      · rw [List.forall_mem_cons]
        exact ⟨hline, hls⟩
      · rw [Text.broken_cons, List.flatten_append, List.flatten_cons, hflatten]
        rfl

/-- The body is expanded in full. -/
theorem Preamble.expands_body
    (h : Preamble ds body) (hr : Regular ds body) (hs : Settled (headed ds body)) :
  Expands (value? (headed ds body)) (words body) (words (expandedBody ds body))
  := by
  have hus := (h.expandable hr hs).expands
  have hwords : words (headed ds body) = words (Text.broken ds) ++ words body :=
    Text.words_append (Text.apart_broken ds body)
  rw [hwords] at hus
  obtain ⟨u₁, u₂, heq, hu₁, hu₂⟩ := hus.of_append
  obtain ⟨ls, hlength, hls, hflatten⟩ :=
    exists_broken_of_expands (fun l hl => (h.directive l hl).2) hu₁
  have htext : substitute (collect (headed ds body)) (headed ds body)
      = Text.broken ls ++ u₂.flatten := by
    rw [← hflatten, ← List.flatten_append, ← heq, Text.flatten_words]
  have hbody : expandedBody ds body = u₂.flatten := by
    rw [expandedBody, htext, Text.lines_broken hls, ← hlength, List.drop_left, Text.unlines_lines]
  have hwords₂ := hu₂.isWords (fun n v hv => isIdentifier_of_value? hv) (Text.isWords_words body)
  rw [hbody, hwords₂.words_flatten]
  exact hu₂

/-- Whatever the order of directives, they make the same of the body below them, which is expanded
in full.  This holds of regular directives; in either order, where the value of a name leads at
its start to another name, the directive for the other name stands further up, or the other name
is replaced earlier. -/
theorem expandedBody_perm
    (h : Preamble ds body) (hr : Regular ds body) (hperm : ds.Perm ds')
    (hs : Settled (headed ds body)) (hs' : Settled (headed ds' body)) :
  expandedBody ds' body = expandedBody ds body ∧
    Expands (value? (headed ds body)) (words body) (words (expandedBody ds body))
  := by
  have hexpands := h.expands_body hr hs
  have hexpands' := (h.perm hperm).expands_body (hr.perm h.toHeading hperm) hs'
  rw [← h.toHeading.value?_perm hperm] at hexpands'
  constructor
  · rw [← Text.flatten_words (expandedBody ds' body), hexpands'.unique hexpands,
      Text.flatten_words]
  · exact hexpands

/-- Two names of one length, and either order of their directives. -/
theorem expandedBody_perm_forward :
  let ds : List Text := [("#define ETA 1/IOR" : Text), ("#define IOR 3" : Text)]
  let body : Text := "x = ETA;"
  (Preamble ds body ∧ Regular ds body ∧ ds.Perm ds.reverse ∧ Settled (headed ds body) ∧
    Settled (headed ds.reverse body)) ∧
    expandedBody ds body = "x = 1/3;" ∧
    expandedBody ds.reverse body = expandedBody ds body ∧
      Expands (value? (headed ds body)) (words body) (words (expandedBody ds body))
  := by
  intro ds body
  have hpreamble : Preamble ds body := by
    refine ⟨⟨by decide +kernel, by decide +kernel, by decide +kernel⟩, ?_, by decide +kernel⟩
    apply acyclic_of_rank fun n => if n = ("ETA" : Text) then 1 else 0
    decide +kernel
  have hregular : Regular ds body := by
    refine ⟨by decide +kernel, by decide +kernel, by decide +kernel, ?_⟩
    have hunnamed : ∀ t ∈ body :: ds, (words t).IsChain fun a b =>
        a = ['#'] → b ∉ substitutedNames (collect (headed ds body)) := by
      decide +kernel
    exact fun t ht => unmade_of_isChain (hunnamed t ht)
  have hperm : ds.Perm ds.reverse := ds.reverse_perm.symm
  have hsettled : Settled (headed ds body) := by
    apply settled_of_head?
    decide +kernel
  have hsettled' : Settled (headed ds.reverse body) := by
    apply settled_of_head?
    decide +kernel
  exact ⟨⟨hpreamble, hregular, hperm, hsettled, hsettled'⟩, by decide +kernel,
    expandedBody_perm hpreamble hregular hperm hsettled hsettled'⟩

/-- The search for the value of `B` stops at the directive for `AA`, which starts with `B` once
`AA` is replaced.  If the directive for `B` stands on top, it is found. -/
theorem expandedBody_ne_reverse :
  let ds : List Text := [("#define AA B 1" : Text), ("#define B 2" : Text)]
  let body : Text := "B"
  Preamble ds body ∧ Regular ds body ∧ expandedBody ds body = "1 B 1" ∧
    expandedBody ds.reverse body = "2"
  := by
  intro ds body
  refine ⟨?_, ?_, by decide +kernel, by decide +kernel⟩
  · refine ⟨⟨by decide +kernel, by decide +kernel, by decide +kernel⟩, ?_, by decide +kernel⟩
    apply acyclic_of_rank List.length
    decide +kernel
  · refine ⟨by decide +kernel, by decide +kernel, by decide +kernel, ?_⟩
    have hunnamed : ∀ t ∈ body :: ds, (words t).IsChain fun a b =>
        a = ['#'] → b ∉ substitutedNames (collect (headed ds body)) := by
      decide +kernel
    exact fun t ht => unmade_of_isChain (hunnamed t ht)

end Define

end ShaderPair
