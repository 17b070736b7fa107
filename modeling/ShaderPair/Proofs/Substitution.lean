import ShaderPair.Proofs.DefinedNames
import ShaderPair.Proofs.Expansion

/-!
# Substitution

Replacing the names of a text one after the other expands the text in full, if the search for
each value finds the directive for the name (`Define.Expandable.expands`).  What carries the
proof: when a name has its turn, the text at hand is the expansion of the original one for the
names before (`Define.valueAmong?`).  The lines above the directive for the name hold no directive
for it (`Define.Expandable.not_defines_above`): no keyword has come up, and an expanded directive
for another name starts with the name only if the value leads to it.  So the search finds the rest
of the line, which is expanded as far as the text is (`Define.Expandable.find?_valueOf`).  Longer
names are gone already, so the name is a whole word wherever it occurs, and putting the value in
its place is one more step of the expansion (`Define.Expandable.expands_substituteOne`).
-/

namespace ShaderPair

namespace Define

open Text (words singles isWord isGap isBlank IsSolid Apart IsIdentifier IsWords Bare)
open Relation (ReflTransGen TransGen)

/-! ### Texts that are expanded in full -/

/-- A name to which the start of a value leads has its directive further up, or it is replaced
earlier. -/
def Settled (code : Text) : Prop :=
  let names := (directives code).map Prod.fst
  let replaced := substitutedNames (collect code)
  ∀ n m, TransGen (StartsWith (value? code)) n m → m ∈ replaced →
    names.idxOf m < names.idxOf n ∨ replaced.idxOf m < replaced.idxOf n

/-- No value leads at its start to a name that is replaced if none starts with such a name. -/
theorem settled_of_head?
    {code : Text} (h : ∀ n ∈ substitutedNames (collect code), ∀ v ∈ value? code n,
      ∀ m ∈ (words v).head?, m ∉ substitutedNames (collect code)) :
  Settled code
  := by
  intro n m hnm hm
  obtain ⟨b, -, ⟨v, hv, hhead⟩⟩ := TransGen.tail'_iff.mp hnm
  exact absurd hm (h b (isSome_value?_iff.mp ⟨v, hv⟩) v hv m hhead)

/-- No value leads back to its name if values mention only names of lower rank. -/
theorem acyclic_of_rank
    {code : Text} (rank : Text → Nat)
    (h : ∀ n ∈ substitutedNames (collect code), ∀ v ∈ value? code n, ∀ m ∈ words v,
      m ∈ substitutedNames (collect code) → rank m < rank n) :
  ∀ n, ¬ TransGen (Mentions (value? code)) n n
  := by
  apply not_mentions_self
  rintro n m ⟨v, hv, hm⟩ hsome
  apply h n (isSome_value?_iff.mp ⟨v, hv⟩) v hv m hm
  apply isSome_value?_iff.mp (Option.isSome_iff_exists.mp hsome)

/-- No name whose value is blank stands at the start or at the end of a value. -/
def Edged (code : Text) : Prop :=
  ∀ n v, value? code n = some v → ∀ w, w ∈ (words v).head? ∨ w ∈ (words v).getLast? →
    value? code w ≠ some []

/-- No word behind a `#` is replaced by a text that starts with the name in the keyword. -/
def Unmade (code : Text) : Prop :=
  (words code).IsChain fun a b => a = ['#'] → ¬ TransGen (StartsWith (value? code)) b keywordName

theorem edged_iff (code : Text) :
  Edged code ↔ ∀ n ∈ substitutedNames (collect code), ∀ v ∈ value? code n,
    (∀ w ∈ (words v).head?, value? code w ≠ some []) ∧
      ∀ w ∈ (words v).getLast?, value? code w ≠ some []
  := by
  constructor
  · intro h n _ v hv
    exact ⟨fun w hw => h n v hv w (.inl hw), fun w hw => h n v hv w (.inr hw)⟩
  · intro h n v hv w hw
    have hends := h n (isSome_value?_iff.mp ⟨v, hv⟩) v hv
    rcases hw with hw | hw
    · apply hends.1 w hw
    · apply hends.2 w hw

instance (code : Text) : Decidable (Edged code) := decidable_of_iff' _ (edged_iff code)

/-- No keyword comes up where no replaced name stands behind a `#`. -/
theorem unmade_of_isChain
    {code : Text} {ws : List Text}
    (h : ws.IsChain fun a b => a = ['#'] → b ∉ substitutedNames (collect code)) :
  ws.IsChain fun a b => a = ['#'] → ¬ TransGen (StartsWith (value? code)) b keywordName
  := by
  apply h.imp
  intro a b hab ha hb
  obtain ⟨_, ⟨v, hv, -⟩, -⟩ := TransGen.head'_iff.mp hb
  apply hab ha (isSome_value?_iff.mp ⟨v, hv⟩)

/-- What makes sure that replacing the names of a text one after the other expands them. -/
structure Expandable (code : Text) : Prop where
  /-- Above a directive for a replaced name the keyword stands only at the start of
  directives. -/
  marked : ∀ above l below, Text.lines code = above ++ l :: below →
    (∃ u ∈ below, ∃ d ∈ ofLine? u, d.1 ∈ substitutedNames (collect code)) → keyword <:+: l →
      (ofLine? l).isSome ∧ ¬ keyword <:+: (l.dropWhile isGap).tail
  /-- Every replaced name has one directive. -/
  single : ∀ n ∈ substitutedNames (collect code), ((directives code).map Prod.fst).count n = 1
  /-- The name in the keyword is not replaced. -/
  keyword_kept : keywordName ∉ substitutedNames (collect code)
  /-- The keyword stands in no value. -/
  unmarked : ∀ n v, value? code n = some v → ¬ keyword <:+: v
  /-- No value leads back to its name. -/
  acyclic : ∀ n, ¬ TransGen (Mentions (value? code)) n n
  settled : Settled code
  /-- A replaced name is a whole word wherever it occurs, or it is part of a longer one. -/
  whole : ∀ n ∈ substitutedNames (collect code), ∀ w ∈ words code, n <:+: w →
    w = n ∨ w ∈ substitutedNames (collect code) ∧ n.length < w.length
  edged : Edged code
  unmade : Unmade code

/-! ### Names that are replaced already -/

/-- The values of some names. -/
def valueAmong? (names : List Text) (code n : Text) : Option Text :=
  if n ∈ names then value? code n else none

theorem valueAmong?_eq_some_iff {names : List Text} {code n v : Text} :
  valueAmong? names code n = some v ↔ n ∈ names ∧ value? code n = some v
  := by
  rw [valueAmong?]
  split
  next h => simp [h]
  next h => simp [h]

theorem isIdentifier_of_valueAmong? {names : List Text} {code : Text} :
  ∀ n v, valueAmong? names code n = some v → IsIdentifier n
  := fun _ _ h => isIdentifier_of_value? (valueAmong?_eq_some_iff.mp h).2

/-- A character outside of identifiers has no value. -/
theorem valueAmong?_eq_none {names : List Text} {code w : Text} (h : ¬ IsIdentifier w) :
  valueAmong? names code w = none
  := by
  rw [← Option.not_isSome_iff_eq_none, Option.isSome_iff_exists]
  rintro ⟨v, hv⟩
  exact h (isIdentifier_of_valueAmong? w v hv)

theorem valueAmong?_of_mem_singles
    {names : List Text} {code s : Text} (hs : ∀ c ∈ s, ¬ isWord c) :
  ∀ w ∈ singles s, valueAmong? names code w = none
  := by
  intro w hw
  apply valueAmong?_eq_none (Text.not_isIdentifier_of_mem_singles hs w hw)

theorem StartsWith.of_among {names : List Text} {code n m : Text}
    (h : StartsWith (valueAmong? names code) n m) :
  n ∈ names ∧ StartsWith (value? code) n m
  := by
  obtain ⟨v, hv, hm⟩ := h
  obtain ⟨hn, hv⟩ := valueAmong?_eq_some_iff.mp hv
  exact ⟨hn, v, hv, hm⟩

/-- A name all of whose expansion is led by another word is that word, or it is replaced and its
value leads to the other word. -/
theorem startsWith_of_among {names : List Text} {code n m : Text}
    (h : ReflTransGen (StartsWith (valueAmong? names code)) n m) :
  n = m ∨ n ∈ names ∧ TransGen (StartsWith (value? code)) n m
  := by
  rcases h.cases_head with rfl | ⟨x, hx, hxm⟩
  · left
    rfl
  · right
    use hx.of_among.1
    apply TransGen.head' hx.of_among.2
    apply ReflTransGen.mono _ _ _ hxm
    intro a b hab
    exact hab.of_among.2

namespace Expandable

variable {code k t : Text} {names done rest us : List Text}

/-! ### No new keywords -/

/-- Where the keyword does not stand in a part of the text, no word behind a `#` there leads to
it. -/
theorem chain_of_part
    (hcode : Expandable code) (ht : words t <:+: words code) (hkeyword : ¬ keyword <:+: t) :
  (words t).IsChain fun a b => a = ['#'] →
    ∀ u, ReflTransGen (StartsWith (valueAmong? names code)) b u → ¬ u = keywordName
  := by
  have hunmade := hcode.unmade.infix ht
  have hneighbours := List.isChain_isInfix (words t)
  rw [List.isChain_iff_getElem] at hunmade hneighbours ⊢
  intro i hi ha u hu hname
  subst hname
  rcases startsWith_of_among hu with hb | ⟨-, hb⟩
  · apply hkeyword
    obtain ⟨s, s', hs⟩ := hneighbours i hi
    use s.flatten, s'.flatten
    rw [keyword_eq, ← Text.flatten_words t, ← hs, ha, hb]
    simp
  · exact hunmade i hi ha hb

/-- No keyword comes up in the expansion of a part of the text without it. -/
theorem not_defines
    (hcode : Expandable code) (ht : words t <:+: words code) (hkeyword : ¬ keyword <:+: t)
    (hus : Expands (valueAmong? names code) (words t) us) :
  ∀ s, s <:+ us.flatten → ¬ Defines k s
  := by
  have hwords := hus.isWords isIdentifier_of_valueAmong? (Text.isWords_words t)
  have hchain : us.IsChain fun a b => a = ['#'] → ¬ b = keywordName := by
    apply hus.isChain isIdentifier_of_valueAmong?
    · rintro _ rfl
      apply isIdentifier_keywordName
    · apply (Text.isWords_words t).separate
    · apply hcode.chain_of_part ht hkeyword
    · intro n v hv
      obtain ⟨-, hv⟩ := valueAmong?_eq_some_iff.mp hv
      apply hcode.chain_of_part (words_infix_of_value? hv) (hcode.unmarked n v hv)
  rintro s ⟨p, hp⟩ ⟨g, r, hne, hg, -, rfl⟩
  have hhash : ¬ isWord '#' := by decide
  have hapart : Apart p (keyword ++ (g ++ (k ++ r))) := by
    apply Text.apart_of_head?
    intro c hc
    rw [keyword_eq] at hc
    cases hc
    exact hhash
  have hgap : Apart keywordName (g ++ (k ++ r)) := by
    apply Text.apart_of_head?
    intro c hc
    rw [List.head?_append_of_ne_nil _ hne] at hc
    apply Text.not_isWord_of_isGap (hg c (List.mem_of_mem_head? hc))
  rw [← hwords.words_flatten, ← hp, Text.words_append hapart, keyword_eq, List.cons_append,
    Text.words_cons_of_not_isWord hhash, isIdentifier_keywordName.words_append hgap] at hchain
  exact (List.isChain_cons_cons.mp hchain.right_of_append).1 rfl rfl

/-! ### No blanks at the ends -/

/-- No word at the start or at the end of a value vanishes. -/
theorem ne_blank_of_end
    (hcode : Expandable code) {n v w : Text} (hv : value? code n = some v)
    (hw : w ∈ (words v).head? ∨ w ∈ (words v).getLast?) :
  valueAmong? names code w ≠ some []
  := by
  intro hblank
  apply hcode.edged n v hv w hw (valueAmong?_eq_some_iff.mp hblank).2

/-- Where the expansion of some words starts or ends with a word that does not vanish, it does so
with a solid word if the words do. -/
theorem exists_ends
    (hcode : Expandable code) {ws : List Text} (hus : Expands (valueAmong? names code) ws us) :
  (∀ w ∈ ws.head?, IsSolid w → valueAmong? names code w ≠ some [] → ∃ u ∈ us.head?, IsSolid u) ∧
    ∀ w ∈ ws.getLast?, IsSolid w → valueAmong? names code w ≠ some [] →
      ∃ u ∈ us.getLast?, IsSolid u
  := by
  constructor
  · apply hus.exists_head
    intro n v hv _ w hw
    obtain ⟨-, hv⟩ := valueAmong?_eq_some_iff.mp hv
    exact ⟨(Text.isSolid_of_bare (bare_of_value? hv)).1 w hw, hcode.ne_blank_of_end hv (.inl hw)⟩
  · apply hus.exists_last
    intro n v hv _ w hw
    obtain ⟨-, hv⟩ := valueAmong?_eq_some_iff.mp hv
    exact ⟨(Text.isSolid_of_bare (bare_of_value? hv)).2 w hw, hcode.ne_blank_of_end hv (.inr hw)⟩

/-- There are no blanks at the ends of the expansion of a value. -/
theorem bare_expansion
    (hcode : Expandable code) {n v : Text} (hv : value? code n = some v)
    (hus : Expands (valueAmong? names code) (words v) us) :
  Bare us.flatten
  := by
  by_cases hne : v = []
  · subst hne
    rw [hus.eq_nil]
    exact ⟨by simp, by simp⟩
  · have hwords := Text.words_ne_nil hne
    have hsolid := Text.isSolid_of_bare (bare_of_value? hv)
    have hhead := List.head?_eq_some_head hwords
    have hlast := List.getLast?_eq_some_getLast hwords
    have hends := hcode.exists_ends hus
    apply Text.bare_flatten
    · intro u hu
      apply ((hus.isWords isIdentifier_of_valueAmong? (Text.isWords_words v)).token u hu).ne_nil
    · apply hends.1 _ hhead (hsolid.1 _ hhead) (hcode.ne_blank_of_end hv (.inl hhead))
    · apply hends.2 _ hlast (hsolid.2 _ hlast) (hcode.ne_blank_of_end hv (.inr hlast))

/-! ### Directives for other names -/

/-- A replaced name has no directive on two lines. -/
theorem directive_unique
    (hcode : Expandable code) (hk : k ∈ substitutedNames (collect code))
    {above below : List Text} {l x X : Text} (hlines : Text.lines code = above ++ l :: below)
    (hl : ofLine? l = some (X, x)) (hbelow : ∃ u ∈ below, ∃ d ∈ ofLine? u, d.1 = k) :
  let names := (directives code).map Prod.fst
  X ≠ k ∧ names.idxOf X < names.idxOf k
  := by
  intro names
  have hnames : names = (above.filterMap ofLine?).map Prod.fst ++
      X :: (below.filterMap ofLine?).map Prod.fst := by
    rw [show names = (directives code).map Prod.fst from rfl, directives, hlines,
      List.filterMap_append, List.filterMap_cons_some hl, List.map_append, List.map_cons]
  have hmem : k ∈ (below.filterMap ofLine?).map Prod.fst := by
    obtain ⟨u, hu, d, hd, rfl⟩ := hbelow
    apply List.mem_map_of_mem
    apply List.mem_filterMap.mpr ⟨u, hu, hd⟩
  have hcount : names.count k = 1 := hcode.single k hk
  have hpos := List.count_pos_iff.mpr hmem
  rw [hnames, List.count_append, List.count_cons] at hcount
  have hne : X ≠ k := by
    rintro rfl
    simp at hcount
    omega
  use hne
  have habove : k ∉ (above.filterMap ofLine?).map Prod.fst := by
    rw [← List.count_eq_zero]
    omega
  rw [hnames]
  apply idxOf_lt_idxOf habove hne

/-- The value of a name is the rest of every directive line for it, blanks aside. -/
theorem value?_eq_trim
    (hcode : Expandable code) {l x X r v : Text} (hl : l ∈ Text.lines code)
    (hline : ofLine? l = some (X, x)) (hx : x ≠ switchValue → Text.trim x = Text.trim r)
    (hv : value? code X = some v) :
  v = Text.trim r
  := by
  obtain ⟨x', hswitch, rfl, l', hl', hline'⟩ := exists_ofLine? hv
  have hsingle := hcode.single X (isSome_value?_iff.mp ⟨_, hv⟩)
  have hmem : (X, x) ∈ directives code := List.mem_filterMap.mpr ⟨l, hl, hline⟩
  have hmem' : (X, x') ∈ directives code := List.mem_filterMap.mpr ⟨l', hl', hline'⟩
  obtain rfl := eq_of_count_eq_one hsingle hmem hmem'
  apply hx hswitch

/-- Of a name that vanishes and the blanks behind it only the blanks are left. -/
theorem eq_singles_of_vanishes
    {X r : Text} (hvanish : valueAmong? done code X = some []) (hr : ∀ c ∈ r, isBlank c)
    (hus : Expands (valueAmong? done code) (X :: words r) us) :
  us = singles r
  := by
  have hword : ∀ c ∈ r, ¬ isWord c := fun c hc => Text.not_isWord_of_isBlank (hr c hc)
  rw [Text.words_of_not_isWord hword] at hus
  cases hus with
  | keep hnone _ => cases hnone.symm.trans hvanish
  | @replace _ v _ vs us hv hvs hrest =>
    obtain rfl := Option.some.inj (hv.symm.trans hvanish)
    rw [hvs.eq_nil, List.nil_append]
    apply hrest.unique (Expands.of_eq_none (valueAmong?_of_mem_singles hword))

/-- A word that is solid is not blank. -/
theorem not_forall_isBlank {w : Text} (hne : w ≠ []) (hw : IsSolid w) :
  ¬ ∀ c ∈ w, isBlank c
  := by
  intro hall
  obtain ⟨c, w, rfl⟩ := List.exists_cons_of_ne_nil hne
  exact hw c List.mem_cons_self (hall c List.mem_cons_self)

/-- Behind a gap, a name and the rest of its line do not turn into another gap and another name
to which the value does not lead. -/
theorem gap_append_ne
    (hcode : Expandable code) {X r g g' : Text} {ws : List Text} (hk : IsIdentifier k)
    (hX : IsIdentifier X) (hr : valueAmong? done code X = some [] → ∀ c ∈ r, isBlank c)
    (hX' : IsWords (X :: words r))
    (hlead : ¬ ReflTransGen (StartsWith (valueAmong? done code)) X k)
    (hus : Expands (valueAmong? done code) (X :: words r) us) (hg : ∀ c ∈ g, isBlank c)
    (hg' : ∀ c ∈ g', isBlank c) :
  singles g ++ us ≠ singles g' ++ k :: ws
  := by
  intro heq
  have hblanks : ∀ {s : Text}, (∀ c ∈ s, isBlank c) → k ∉ singles s := by
    intro s hs hmem
    apply Text.not_isIdentifier_of_mem_singles _ k hmem hk
    intro c hc
    apply Text.not_isWord_of_isBlank (hs c hc)
  by_cases hvanish : valueAmong? done code X = some []
  · rw [eq_singles_of_vanishes hvanish (hr hvanish) hus] at heq
    have hmem : k ∈ singles g ++ singles r := by simp [heq]
    rcases List.mem_append.mp hmem with hmem | hmem
    · exact hblanks hg hmem
    · exact hblanks (hr hvanish) hmem
  · -- Both sides have their first word that is not blank in the same place.
    obtain ⟨u, hu, hsolid⟩ :=
      (hcode.exists_ends hus).1 X rfl (Text.isSolid_of_isIdentifier hX) hvanish
    obtain ⟨us', rfl⟩ := List.head?_eq_some_iff.mp hu
    have hune := ((hus.isWords isIdentifier_of_valueAmong? hX').token u List.mem_cons_self).ne_nil
    have hsingle : ∀ {s : Text}, (∀ c ∈ s, isBlank c) → ∀ w ∈ singles s, ∀ c ∈ w, isBlank c := by
      intro s hs w hw c hc
      obtain ⟨d, hd, rfl⟩ := Text.mem_singles.mp hw
      rw [List.mem_singleton.mp hc]
      exact hs d hd
    obtain rfl := eq_of_append_cons_eq (hsingle hg) (hsingle hg') (not_forall_isBlank hune hsolid)
      (not_forall_isBlank hk.1 (Text.isSolid_of_isIdentifier hk)) heq
    obtain ⟨w, hw, hwu⟩ :=
      hus.exists_startsWith isIdentifier_of_valueAmong? hX'.separate rfl hk
    cases hw
    exact hlead hwu

/-- The expansion of a directive for a name: only the name and what follows may change. -/
theorem exists_expansion
    (hcode : Expandable code) {indent g X r : Text} (hindent : ∀ c ∈ indent, isGap c)
    (hne : g ≠ []) (hg : ∀ c ∈ g, isGap c) (hX : IsIdentifier X) (hr : Apart X r)
    (hus : Expands (valueAmong? done code)
      (words (indent ++ (keyword ++ (g ++ (X ++ r))))) us) :
  ∃ ux, us = singles indent ++ ['#'] :: keywordName :: (singles g ++ ux) ∧
    Expands (valueAmong? done code) (words (keywordName ++ (g ++ (X ++ r))))
      (keywordName :: (singles g ++ ux)) ∧
    Expands (valueAmong? done code) (X :: words r) ux
  := by
  have hgap : ∀ {s : Text}, (∀ c ∈ s, isGap c) →
      ∀ w ∈ singles s, valueAmong? done code w = none := by
    intro s hs
    apply valueAmong?_of_mem_singles
    intro c hc
    apply Text.not_isWord_of_isGap (hs c hc)
  have hmark : ∀ w ∈ singles indent ++ [['#']], valueAmong? done code w = none := by
    rw [List.forall_mem_append, List.forall_mem_singleton]
    refine ⟨hgap hindent, valueAmong?_eq_none (by decide)⟩
  have hkeyword : ∀ w ∈ keywordName :: singles g, valueAmong? done code w = none := by
    rw [List.forall_mem_cons]
    refine ⟨?_, hgap hg⟩
    rw [← Option.not_isSome_iff_eq_none, Option.isSome_iff_exists]
    rintro ⟨v, hv⟩
    apply hcode.keyword_kept
    apply isSome_value?_iff.mp ⟨v, (valueAmong?_eq_some_iff.mp hv).2⟩
  rw [words_keyword hindent, List.append_cons] at hus
  obtain ⟨ut, rfl, hut⟩ := hus.of_append_of_eq_none hmark
  have hbehind := hut
  rw [words_keywordName hne hg hX hr, ← List.cons_append] at hbehind
  obtain ⟨ux, rfl, hux⟩ := hbehind.of_append_of_eq_none hkeyword
  exact ⟨ux, by simp, hut, hux⟩

/-- The keyword of a directive for a name does not become that of a directive for another name to
which the value does not lead. -/
theorem not_defines_at_keyword
    (hcode : Expandable code) {g X r : Text} {ux : List Text} (hk : IsIdentifier k)
    (hg : ∀ c ∈ g, isGap c) (hX : IsIdentifier X) (hr : Apart X r)
    (hblank : valueAmong? done code X = some [] → ∀ c ∈ r, isBlank c)
    (hlead : ¬ ReflTransGen (StartsWith (valueAmong? done code)) X k)
    (hux : Expands (valueAmong? done code) (X :: words r) ux) :
  ¬ Defines k ('#' :: (keywordName :: (singles g ++ ux)).flatten)
  := by
  rintro ⟨g', r', -, hg', hrest, hdefines⟩
  have hwords := Text.isWords_words (X ++ r)
  rw [hX.words_append hr] at hwords
  have hux' := (hux.isWords isIdentifier_of_valueAmong? hwords).words_flatten
  rw [keyword_eq, List.cons_append] at hdefines
  have hbehind := List.append_cancel_left (List.cons.inj hdefines).2
  rw [List.flatten_append, Text.flatten_singles] at hbehind
  have hbehind' := congrArg words hbehind
  rw [Text.words_append_of_not_isWord fun c hc => Text.not_isWord_of_isGap (hg c hc),
    Text.words_append_of_not_isWord fun c hc => Text.not_isWord_of_isGap (hg' c hc),
    hk.words_append hrest, hux'] at hbehind'
  apply hcode.gap_append_ne hk hX hblank hwords hlead hux
    (fun c hc => Text.isBlank_of_isGap (hg c hc)) (fun c hc => Text.isBlank_of_isGap (hg' c hc))
    hbehind'

/-- No directive for a name comes up in the expansion of a directive for another name whose value
does not lead to it. -/
theorem not_defines_directive
    (hcode : Expandable code) {indent g X r : Text} (hk : IsIdentifier k)
    (hindent : ∀ c ∈ indent, isGap c) (hne : g ≠ []) (hg : ∀ c ∈ g, isGap c)
    (hX : IsIdentifier X) (hr : Apart X r)
    (hpart : words (indent ++ (keyword ++ (g ++ (X ++ r)))) <:+: words code)
    (hkeyword : ¬ keyword <:+: keywordName ++ (g ++ (X ++ r)))
    (hblank : valueAmong? done code X = some [] → ∀ c ∈ r, isBlank c)
    (hlead : ¬ ReflTransGen (StartsWith (valueAmong? done code)) X k)
    (hus : Expands (valueAmong? done code)
      (words (indent ++ (keyword ++ (g ++ (X ++ r))))) us) :
  ∀ s, s <:+ us.flatten → ¬ Defines k s
  := by
  obtain ⟨ux, rfl, hut, hux⟩ := hcode.exists_expansion hindent hne hg hX hr hus
  have hpart' : words (keywordName ++ (g ++ (X ++ r))) <:+: words code := by
    rw [words_keyword hindent, List.append_cons] at hpart
    apply List.IsInfix.trans _ hpart
    apply (List.suffix_append _ _).isInfix
  have hflatten : (singles indent ++ ['#'] :: keywordName :: (singles g ++ ux)).flatten
      = indent ++ '#' :: (keywordName :: (singles g ++ ux)).flatten := by
    simp
  -- The keyword at the start of the line is the only one.
  have hstart : ∀ s, s <:+ '#' :: (keywordName :: (singles g ++ ux)).flatten →
      ¬ Defines k s := by
    intro s hs
    rcases List.suffix_cons_iff.mp hs with rfl | hs
    · apply hcode.not_defines_at_keyword hk hg hX hr hblank hlead hux
    · apply hcode.not_defines hpart' hkeyword hut s hs
  rw [hflatten]
  rintro s ⟨p, hp⟩ hdefines
  rcases List.append_eq_append_iff.mp hp with ⟨s', hindent', rfl⟩ | ⟨s', rfl, hs⟩
  · cases s' with
    | nil => exact hstart _ List.suffix_rfl hdefines
    | cons c s' =>
      obtain ⟨_, _, -, -, -, heq⟩ := hdefines
      rw [keyword_eq] at heq
      obtain ⟨rfl, -⟩ := List.cons.inj heq
      exact absurd (hindent '#' (by simp [hindent'])) (by decide)
  · exact hstart s ⟨s', hs.symm⟩ hdefines

/-- No directive for a name comes up in the expansion of a line above the directive for it. -/
theorem not_defines_above
    (hcode : Expandable code) (hnames : substitutedNames (collect code) = done ++ k :: rest)
    {above below : List Text} {l : Text} (hlines : Text.lines code = above ++ l :: below)
    (hbelow : ∃ u ∈ below, ∃ d ∈ ofLine? u, d.1 = k)
    (hus : Expands (valueAmong? done code) (words l) us) :
  ∀ s, s <:+ us.flatten → ¬ Defines k s
  := by
  have hk : k ∈ substitutedNames (collect code) := by simp [hnames]
  have hkname : IsIdentifier k := by
    obtain ⟨v, hv⟩ := isSome_value?_iff.mpr hk
    apply isIdentifier_of_value? hv
  have hl : l ∈ Text.lines code := by simp [hlines]
  have hpart := Text.words_infix_of_mem_lines hl
  by_cases hkeyword : keyword <:+: l
  · have hbelow' : ∃ u ∈ below, ∃ d ∈ ofLine? u, d.1 ∈ substitutedNames (collect code) := by
      obtain ⟨u, hu, d, hd, rfl⟩ := hbelow
      exact ⟨u, hu, d, hd, hk⟩
    obtain ⟨hsome, htail⟩ := hcode.marked above l below hlines hbelow' hkeyword
    obtain ⟨⟨X, x⟩, hX⟩ := Option.isSome_iff_exists.mp hsome
    obtain ⟨hne, hidx⟩ := hcode.directive_unique hk hlines hX hbelow
    obtain ⟨r, ⟨indent, g, hindent, hgne, hg, hname, hr, rfl⟩, hx⟩ := definesLine_of_ofLine? hX
    have hlead : ¬ ReflTransGen (StartsWith (valueAmong? done code)) X k := by
      intro hXk
      rcases startsWith_of_among hXk with heq | ⟨hdone, hXk⟩
      · exact hne heq
      · have hbefore : (done ++ k :: rest).idxOf X < (done ++ k :: rest).idxOf k :=
          idxOf_lt_of_mem_of_not_mem hdone (not_mem_done hnames)
        rw [← hnames] at hbefore
        rcases hcode.settled X k hXk hk with hlt | hlt <;> omega
    have hblank : valueAmong? done code X = some [] → ∀ c ∈ r, isBlank c := by
      intro hvanish
      have htrim := hcode.value?_eq_trim hl hX hx (valueAmong?_eq_some_iff.mp hvanish).2
      obtain ⟨b, b', hb, hb', hr'⟩ := Text.exists_trim r
      rw [hr', ← htrim, List.nil_append, List.forall_mem_append]
      exact ⟨hb, hb'⟩
    rw [tail_dropWhile_keyword hindent] at htail
    apply hcode.not_defines_directive hkname hindent hgne hg hname hr hpart htail hblank hlead hus
  · apply hcode.not_defines hpart hkeyword hus

/-! ### The value found -/

/-- Lines without a directive for a name are skipped. -/
theorem find?_broken
    {ls : List Text} (hk : IsIdentifier k)
    (hls : ∀ l ∈ ls, ∀ us, Expands (valueAmong? done code) (words l) us →
      ∀ s, s <:+ us.flatten → ¬ Defines k s)
    (hus : Expands (valueAmong? done code) (words (Text.broken ls)) us) (u : Text) :
  Pattern.find? (valueOf k) (us.flatten ++ u) = Pattern.find? (valueOf k) u
  := by
  induction ls generalizing us with
  | nil =>
    rw [hus.eq_nil]
    rfl
  | cons l ls ih =>
    obtain ⟨hl, hls⟩ := List.forall_mem_cons.mp hls
    rw [Text.broken_cons, Text.words_line] at hus
    obtain ⟨ul, ur, rfl, hul, hur⟩ := hus.of_append
    cases hur with
    | keep _ hur =>
      rw [List.flatten_append, List.flatten_cons, List.append_assoc, List.append_assoc,
        List.singleton_append, find?_line hk (hl ul hul), ih hls hur]
    | replace hv _ _ => exact absurd (isIdentifier_of_valueAmong? _ _ hv) (by decide)

/-- No line break comes up in the expansion of a value. -/
theorem not_mem_flatten
    {n v : Text} (hv : value? code n = some v)
    (hus : Expands (valueAmong? names code) (words v) us) :
  '\n' ∉ us.flatten
  := by
  rw [List.mem_flatten]
  rintro ⟨w, hw, hbreak⟩
  apply hus.forall_mem (P := fun w => '\n' ∉ w) _ _ w hw hbreak
  · intro w hw hc
    apply not_mem_of_value? hv (Text.mem_of_mem_words hw hc)
  · intro m x hm w hw hc
    apply not_mem_of_value? (valueAmong?_eq_some_iff.mp hm).2 (Text.mem_of_mem_words hw hc)

/-- A line that ends stays at its end. -/
theorem takeWhile_of_break
    {t : Text} (ht : ∀ c ∈ t.head?, c = '\n')
    (hus : Expands (valueAmong? names code) (words t) us) :
  us.flatten.takeWhile (· != '\n') = []
  := by
  cases t with
  | nil =>
    rw [hus.eq_nil]
    rfl
  | cons c t =>
    obtain rfl := ht c rfl
    rw [Text.words_cons_of_not_isWord (by decide)] at hus
    cases hus with
    | keep _ _ => rfl
    | replace hv _ _ => exact absurd (isIdentifier_of_valueAmong? _ _ hv) (by decide)

/-- Behind the name in its directive the search finds the expansion of what is left of the line by
trimming. -/
theorem find?_own
    (hcode : Expandable code) {indent g r t : Text} (hindent : ∀ c ∈ indent, isGap c)
    (hne : g ≠ []) (hg : ∀ c ∈ g, isGap c) (hk : IsIdentifier k)
    (hkdone : valueAmong? done code k = none) (hr : Apart k r)
    (hv : value? code k = some (Text.trim r)) (hbreak : '\n' ∉ r) (ht : ∀ c ∈ t.head?, c = '\n')
    (hus : Expands (valueAmong? done code)
      (words (indent ++ (keyword ++ (g ++ (k ++ (r ++ t)))))) us) :
  ∃ vs, Expands (valueAmong? done code) (words (Text.trim r)) vs ∧
    Pattern.find? (valueOf k) us.flatten = some vs.flatten
  := by
  have hrt : Apart r t := by
    apply Text.apart_of_head?
    intro c hc
    rw [ht c hc]
    decide
  have hkrt : Apart k (r ++ t) := by
    intro c hc d hd hcword
    cases r with
    | nil =>
      rw [ht d hd]
      decide
    | cons e r => exact hr c hc d hd hcword
  obtain ⟨ux, rfl, -, hux⟩ := hcode.exists_expansion hindent hne hg hk hkrt hus
  have hline' := Text.isWords_words (k ++ (r ++ t))
  rw [hk.words_append hkrt] at hline'
  have hux' := hux.isWords isIdentifier_of_valueAmong? hline'
  obtain ⟨s, s', hs, hs', htrim, hwords⟩ := Text.exists_words_trim r
  cases hux with
  | replace hkv _ _ => cases hkdone.symm.trans hkv
  | keep _ hur =>
    rw [Text.words_append hrt, hwords, List.append_assoc, List.append_assoc] at hur
    obtain ⟨ur, rfl, hrest⟩ := hur.of_append_of_eq_none (valueAmong?_of_mem_singles fun c hc =>
      Text.not_isWord_of_isBlank (hs c hc))
    obtain ⟨vs, us', rfl, hvs, hafter⟩ := hrest.of_append
    obtain ⟨ut, rfl, hut⟩ := hafter.of_append_of_eq_none (valueAmong?_of_mem_singles fun c hc =>
      Text.not_isWord_of_isBlank (hs' c hc))
    use vs, hvs
    have hflatten : (singles indent ++ ['#'] :: keywordName ::
        (singles g ++ k :: (singles s ++ (vs ++ (singles s' ++ ut))))).flatten
        = indent ++ (keyword ++ (g ++ (k ++ ((s ++ (vs.flatten ++ s')) ++ ut.flatten)))) := by
      simp [keyword_eq]
    have hline : ∀ c ∈ s ++ (vs.flatten ++ s'), c != '\n' := by
      have hbreak' := not_mem_flatten hv hvs
      rw [htrim] at hbreak
      intro c hc
      simp only [List.mem_append, not_or] at hc hbreak
      rw [bne_iff_ne]
      rintro rfl
      rcases hc with hc | hc | hc
      · exact hbreak.1 hc
      · exact hbreak' hc
      · exact hbreak.2.2 hc
    have hapart : Apart k ((s ++ (vs.flatten ++ s')) ++ ut.flatten) := by
      have hbehind := hux'.apart
      simpa using hbehind
    rw [hflatten, find?_directive hk hindent hne hg hapart, List.takeWhile_append_of_pos hline,
      takeWhile_of_break ht hut, List.append_nil,
      Text.trim_append hs hs' (hcode.bare_expansion hv hvs)]

/-- The search for the value of a name finds the value as it is expanded by then. -/
theorem find?_valueOf
    (hcode : Expandable code) (hnames : substitutedNames (collect code) = done ++ k :: rest)
    {v : Text} (hv : value? code k = some v)
    (hus : Expands (valueAmong? done code) (words code) us) :
  ∃ vs, Expands (valueAmong? done code) (words v) vs ∧
    Pattern.find? (valueOf k) us.flatten = some vs.flatten
  := by
  have hkdone : valueAmong? done code k = none := by
    rw [valueAmong?, if_neg (not_mem_done hnames)]
  obtain ⟨x, hx, rfl, l, hl, hline⟩ := exists_ofLine? hv
  obtain ⟨r, ⟨indent, g, hindent, hne, hg, hk, hr, rfl⟩, htrim⟩ := definesLine_of_ofLine? hline
  rw [htrim hx] at hv ⊢
  have hbreak : '\n' ∉ r := by
    intro hmem
    apply Text.not_mem_of_mem_lines hl
    simp [hmem]
  obtain ⟨above, below, hlines⟩ := List.append_of_mem hl
  obtain ⟨t, htext, ht⟩ := Text.exists_broken hlines
  have hwords := congrArg words htext
  rw [Text.words_append (Text.apart_broken above _)] at hwords
  rw [hwords] at hus
  obtain ⟨u₁, u₂, rfl, hu₁, hu₂⟩ := hus.of_append
  have hskip : Pattern.find? (valueOf k) (u₁ ++ u₂).flatten
      = Pattern.find? (valueOf k) u₂.flatten := by
    rw [List.flatten_append]
    apply find?_broken hk _ hu₁
    intro a ha ua hua
    obtain ⟨above₁, above₂, rfl⟩ := List.append_of_mem ha
    rw [List.append_assoc, List.cons_append] at hlines
    apply hcode.not_defines_above hnames hlines _ hua
    exact ⟨_, List.mem_append_right _ List.mem_cons_self, _, hline, rfl⟩
  rw [hskip]
  simp only [List.append_assoc] at hu₂
  apply hcode.find?_own hindent hne hg hk hkdone hr hv hbreak ht hu₂

/-! ### One name after the other -/

/-- The words of an expansion are words of the text. -/
theorem mem_words_of_mem
    (hus : Expands (valueAmong? names code) (words code) us) :
  ∀ u ∈ us, u ∈ words code
  := by
  apply hus.forall_mem fun w hw => hw
  intro n v hv w hw
  apply (words_infix_of_value? (valueAmong?_eq_some_iff.mp hv).2).subset hw

/-- When a name is replaced, it is a whole word wherever it occurs. -/
theorem eq_of_occurs
    (hcode : Expandable code) (hnames : substitutedNames (collect code) = done ++ k :: rest)
    (hus : Expands (valueAmong? done code) (words code) us) :
  ∀ w ∈ us, k <:+: w → w = k
  := by
  intro w hw hkw
  have hk : k ∈ substitutedNames (collect code) := by simp [hnames]
  rcases hcode.whole k hk w (mem_words_of_mem hus w hw) hkw with heq | ⟨hmem, hlength⟩
  · exact heq
  · -- A longer name would be replaced already.
    have hsorted := sorted_substitutedNames (collect code)
    obtain ⟨v, hv⟩ := isSome_value?_iff.mpr hmem
    rw [hnames, List.pairwise_append, List.pairwise_cons] at hsorted
    rw [hnames, List.mem_append, List.mem_cons] at hmem
    rcases hmem with hdone | rfl | hrest
    · have hnone := hus.eq_none_of_mem w hw
      cases hnone.symm.trans (valueAmong?_eq_some_iff.mpr ⟨hdone, hv⟩)
    · rfl
    · have hle := hsorted.2.1.1 w hrest
      omega

/-- Exchanging a word for some words, and for the text that they form. -/
theorem flatten_exchange (us vs : List Text) :
  (us.flatMap fun u => if u = k then vs else [u]).flatten
    = us.flatMap fun u => if u = k then vs.flatten else u
  := by
  induction us with
  | nil => rfl
  | cons u us ih =>
    rw [List.flatMap_cons, List.flatMap_cons, List.flatten_append, ih]
    split
    · rfl
    · rw [List.flatten_singleton]

/-- Replacing one more name gives the expansion for it and those before. -/
theorem expands_substituteOne
    (hcode : Expandable code) (hnames : substitutedNames (collect code) = done ++ k :: rest)
    (hus : Expands (valueAmong? done code) (words code) us) (fallback : Text) :
  ∃ us', Expands (valueAmong? (done ++ [k]) code) (words code) us' ∧
    substituteOne us.flatten k fallback = us'.flatten
  := by
  have hreplaced : k ∈ substitutedNames (collect code) := by simp [hnames]
  obtain ⟨v, hv⟩ := isSome_value?_iff.mpr hreplaced
  have hk := isIdentifier_of_value? hv
  obtain ⟨vs, hvs, hfind⟩ := hcode.find?_valueOf hnames hv hus
  have hkdone := not_mem_done hnames
  have hupdate : valueAmong? (done ++ [k]) code
      = Function.update (valueAmong? done code) k (some v) := by
    funext n
    by_cases hn : n = k
    · subst hn
      rw [Function.update_self, valueAmong?, if_pos (by simp), hv]
    · rw [Function.update_of_ne hn, valueAmong?, valueAmong?]
      simp [hn]
  have hkv : k ∉ vs := by
    intro hmem
    obtain ⟨w, hw, hwk⟩ := hvs.exists_mentions k hmem
    apply hcode.acyclic k
    apply TransGen.head' ⟨v, hv, hw⟩
    apply ReflTransGen.mono _ _ _ hwk
    rintro a b ⟨x, hx, hb⟩
    exact ⟨x, (valueAmong?_eq_some_iff.mp hx).2, hb⟩
  have hstep := Expands.add (v := v) (by rw [valueAmong?, if_neg hkdone]) hvs hkv hus
  rw [← hupdate] at hstep
  refine ⟨_, hstep, ?_⟩
  have hwords := hus.isWords isIdentifier_of_valueAmong? (Text.isWords_words code)
  rw [substituteOne, hfind, Option.getD_some,
    hwords.replace_flatten hk (hcode.eq_of_occurs hnames hus), flatten_exchange]

/-- Replacing names one after the other gives the expansion for all of them. -/
theorem expands_foldl
    (hcode : Expandable code) (hnames : substitutedNames (collect code) = done ++ rest)
    (hus : Expands (valueAmong? done code) (words code) us) (fallback : Text → Text) :
  ∃ us', Expands (valueAmong? (done ++ rest) code) (words code) us' ∧
    rest.foldl (fun t n => substituteOne t n (fallback n)) us.flatten = us'.flatten
  := by
  induction rest generalizing done us with
  | nil => exact ⟨us, by rwa [List.append_nil], rfl⟩
  | cons k rest ih =>
    obtain ⟨us₁, hus₁, hone⟩ := hcode.expands_substituteOne hnames hus (fallback k)
    rw [List.append_cons] at hnames ⊢
    obtain ⟨us', hus', hrest⟩ := ih hnames hus₁
    refine ⟨us', hus', ?_⟩
    rw [List.foldl_cons, hone, hrest]

/-- All names that are replaced have their values. -/
theorem valueAmong?_substitutedNames (code : Text) :
  valueAmong? (substitutedNames (collect code)) code = value? code
  := by
  funext n
  rw [valueAmong?]
  split
  next => rfl
  next h =>
    cases hv : value? code n with
    | none => rfl
    | some v => exact absurd (isSome_value?_iff.mp ⟨v, hv⟩) h

/-- The substitution gives the full expansion. -/
theorem expands (hcode : Expandable code) :
  Expands (value? code) (words code) (words (substitute (collect code) code))
  := by
  have hstart : Expands (valueAmong? [] code) (words code) (words code) := by
    apply Expands.of_eq_none
    intro w _
    rw [valueAmong?, if_neg (by simp)]
  obtain ⟨us, hus, hfold⟩ := hcode.expands_foldl (List.nil_append _).symm hstart
    fun n => ((collect code).find? n).getD []
  rw [List.nil_append, valueAmong?_substitutedNames] at hus
  rw [Text.flatten_words] at hfold
  rw [substitute, hfold, (hus.isWords _ (Text.isWords_words code)).words_flatten]
  · exact hus
  · intro n v hv
    exact isIdentifier_of_value? hv

/-- No name that is replaced is left, not even inside of a word. -/
theorem not_infix_substitute
    (hcode : Expandable code) {n : Text} (hn : n ∈ substitutedNames (collect code)) :
  ¬ n <:+: substitute (collect code) code
  := by
  intro hpart
  have hus := hcode.expands
  obtain ⟨v, hv⟩ := isSome_value?_iff.mpr hn
  rw [← Text.flatten_words (substitute _ _)] at hpart
  obtain ⟨w, hw, hnw⟩ :=
    (Text.isWords_words _).exists_word_of_occurs (isIdentifier_of_value? hv) hpart
  have hnone := hus.eq_none_of_mem w hw
  rw [← valueAmong?_substitutedNames] at hus
  rcases hcode.whole n hn w (mem_words_of_mem hus w hw) hnw with rfl | ⟨hmem, -⟩
  · cases hnone.symm.trans hv
  · obtain ⟨u, hu⟩ := isSome_value?_iff.mpr hmem
    cases hnone.symm.trans hu

end Expandable

end Define

end ShaderPair
