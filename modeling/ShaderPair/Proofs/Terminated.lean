import ShaderPair.Define
import ShaderPair.Proofs.AccessPass
import ShaderPair.Proofs.BraceMatching

/-!
# Declarations in front of a stage

A declaration that ends in a semicolon and a line break is `Text.Terminated`.  Where directives are
turned into comments and accesses to strided arrays are redirected, a terminated text in front of a
stage becomes what it becomes on its own (`Define.commentOut_append`,
`LeftOver.redirectAccesses_append_of_terminated`).  Comments and redirections neither make nor
break an occurrence of an identifier that does not start like the field of an element
(`Define.infix_commentOut_iff`, `LeftOver.infix_redirectAccesses_iff`).  What stands in front of the
entry point stays there (`Brace.prefix_wrap`).
-/

namespace ShaderPair

namespace Text

variable {c d : Char} {k t u : Text}

/-! ### Occurrences -/

/-- A text without some character of a word does not hold the word. -/
theorem not_infix_of_not_mem (hk : c ∈ k) (ht : c ∉ t) :
  ¬ k <:+: t
  := fun h => ht (h.subset hk)

/-- An identifier does not reach over a character outside of identifiers. -/
theorem IsIdentifier.infix_append_cons_iff (hk : IsIdentifier k) (hc : ¬ isWord c) (t u : Text) :
  k <:+: t ++ c :: u ↔ k <:+: t ∨ k <:+: u
  := by
  have hlast : ∀ d ∈ [c].getLast?, ¬ isWord d := by
    rintro _ ⟨⟩
    exact hc
  have hfirst : ∀ d ∈ (c :: u).head?, ¬ isWord d := by
    rintro _ ⟨⟩
    exact hc
  have hnot : ¬ k <:+: [c] := by
    obtain ⟨d, k, rfl⟩ := List.exists_cons_of_ne_nil hk.1
    intro h
    have hd := h.subset (List.mem_cons_self (a := d))
    rw [List.mem_singleton.mp hd] at hk
    exact hc (hk.2 c List.mem_cons_self)
  rw [hk.infix_append_iff (apart_of_head? hfirst t), ← List.singleton_append,
    hk.infix_append_iff (apart_of_getLast? hlast u)]
  simp only [hnot, false_or]

/-- An identifier does not reach into characters outside of identifiers. -/
theorem IsIdentifier.infix_append_iff_left
    (hk : IsIdentifier k) (hu : ∀ c ∈ u, ¬ isWord c) (t : Text) :
  k <:+: t ++ u ↔ k <:+: t
  := by
  obtain ⟨d, k, rfl⟩ := List.exists_cons_of_ne_nil hk.1
  have hd := hk.2 d List.mem_cons_self
  rw [hk.infix_append_iff (apart_of_head? (fun c hc => hu c (List.mem_of_mem_head? hc)) t),
    or_iff_left (not_infix_of_not_mem List.mem_cons_self fun hmem => hu d hmem hd)]

/-- A word does not start at a character that is not its first one. -/
theorem infix_cons_iff_of_ne (h : c ≠ d) :
  d :: k <:+: c :: t ↔ d :: k <:+: t
  := by
  rw [List.infix_cons_iff]
  constructor
  · rintro (hstarts | hoccurs)
    · exact absurd (List.cons_prefix_cons.mp hstarts).1 h.symm
    · exact hoccurs
  · exact Or.inr

/-- A word does not reach over a character that it does not hold. -/
theorem prefix_append_cons_iff (h : c ∉ k) (t u : Text) :
  k <+: t ++ c :: u ↔ k <+: t
  := by
  constructor
  · intro hstarts
    rcases Nat.lt_or_ge t.length k.length with hlt | hle
    · have hshort : t ++ [c] <+: k := by
        apply List.prefix_of_prefix_length_le _ hstarts
        · rw [List.length_append]
          exact hlt
        · exact ⟨u, by simp⟩
      exact absurd (hshort.subset (by simp)) h
    · apply List.prefix_of_prefix_length_le hstarts (List.prefix_append t _) hle
  · intro hstarts
    apply hstarts.trans (List.prefix_append t _)

/-- A text that is empty or ends in a semicolon and a line break. -/
def Terminated (t : Text) : Prop := t = [] ∨ ∃ s, t = s ++ [';', '\n']

/-- What ends in a semicolon and a line break is terminated. -/
theorem terminated_append (s : Text) (ht : [';', '\n'] <:+ t) :
  Terminated (s ++ t)
  := by
  obtain ⟨t, rfl⟩ := ht
  right
  exact ⟨s ++ t, (List.append_assoc s t _).symm⟩

theorem Terminated.append (hs : Terminated s) (ht : Terminated t) :
  Terminated (s ++ t)
  := by
  obtain rfl | ⟨t, rfl⟩ := ht
  · rwa [List.append_nil]
  · apply terminated_append s (List.suffix_append t _)

/-- A terminated text is apart from all that follows. -/
theorem Terminated.apart (h : Terminated t) (u : Text) :
  Apart t u
  := by
  obtain rfl | ⟨s, rfl⟩ := h
  · apply nil_apart
  · apply apart_of_getLast?
    rw [List.append_cons, List.getLast?_concat]
    rintro _ ⟨⟩
    decide

end Text

open Text (IsIdentifier Terminated isBlank isWord)

/-! ### Directives as comments -/

namespace Define

variable {k s t : Text}

theorem text_marker :
  marker = ['#', 'd', 'e', 'f', 'i', 'n', 'e', ' ']
  := by
  rw [marker, Text.ofString_eq]
  rfl

theorem eq_of_starts {c : Char} (h : marker <+: c :: t) :
  c = '#'
  := by
  rw [text_marker] at h
  exact (List.cons_prefix_cons.mp h).1.symm

/-- Two slashes are put in front of a directive that has less. -/
theorem commentOutAfter_of_starts
    {slashes : Nat} (h : marker <+: '#' :: t) (hslashes : slashes < 2) :
  commentOutAfter slashes ('#' :: t) = '/' :: '/' :: '#' :: commentOut t
  := by
  rw [commentOutAfter, if_pos]
  · rfl
  · simp [h, hslashes]

/-- Every other character stays. -/
theorem commentOutAfter_of_imp
    {c : Char} {slashes : Nat} (h : marker <+: c :: t → 2 ≤ slashes) :
  commentOutAfter slashes (c :: t)
    = c :: commentOutAfter (if c = '/' then slashes + 1 else 0) t
  := by
  rw [commentOutAfter, if_neg]
  rw [Bool.and_eq_true, List.isPrefixOf_iff_prefix, decide_eq_true_iff]
  rintro ⟨hstarts, hslashes⟩
  have hle := h hstarts
  omega

/-- A text is gone through character by character, and the slashes directly in front count. -/
@[elab_as_elim]
theorem commentOut_induction
    {motive : Nat → Text → Prop}
    (nil : ∀ slashes, motive slashes [])
    (directive : ∀ slashes t, marker <+: '#' :: t → slashes < 2 → motive 0 t →
      motive slashes ('#' :: t))
    (char : ∀ slashes c t, (marker <+: c :: t → 2 ≤ slashes) →
      motive (if c = '/' then slashes + 1 else 0) t → motive slashes (c :: t))
    (slashes : Nat) (t : Text) :
  motive slashes t
  := by
  induction t generalizing slashes with
  | nil => apply nil
  | cons c t ih =>
    by_cases h : marker <+: c :: t → 2 ≤ slashes
    · apply char slashes c t h (ih _)
    · obtain ⟨hstarts, hslashes⟩ := Classical.not_imp.mp h
      obtain rfl := eq_of_starts hstarts
      apply directive slashes t hstarts (by omega) (ih 0)

/-- Where no directive starts, a character stays. -/
theorem commentOutAfter_of_not_prefix {c : Char} (h : ¬ marker <+: c :: t) (slashes : Nat) :
  commentOutAfter slashes (c :: t)
    = c :: commentOutAfter (if c = '/' then slashes + 1 else 0) t
  := commentOutAfter_of_imp fun hstarts => absurd hstarts h

/-- What follows a character that belongs neither to a directive nor to a comment is turned into
comments on its own. -/
theorem commentOutAfter_append_cons
    {c : Char} (hmarker : c ∉ marker) (hslash : c ≠ '/') (slashes : Nat) (s t : Text) :
  commentOutAfter slashes (s ++ c :: t) = commentOutAfter slashes s ++ c :: commentOut t
  := by
  induction s generalizing slashes with
  | nil =>
    have hstart : ¬ marker <+: c :: t := by
      intro hstarts
      have hmem := (Text.prefix_append_cons_iff hmarker [] t).mp hstarts
      rw [text_marker] at hmem
      cases List.prefix_nil.mp hmem
    rw [List.nil_append, commentOutAfter_of_not_prefix hstart, if_neg hslash]
    rfl
  | cons d s ih =>
    have hstart : marker.isPrefixOf (d :: s ++ c :: t) = marker.isPrefixOf (d :: s) := by
      rw [Bool.eq_iff_iff, List.isPrefixOf_iff_prefix, List.isPrefixOf_iff_prefix,
        Text.prefix_append_cons_iff hmarker]
    rw [List.cons_append] at hstart ⊢
    rw [commentOutAfter, commentOutAfter, ih, hstart]
    split <;> rfl

/-- What follows a line that ends in a semicolon is turned into comments on its own. -/
theorem commentOutAfter_append (slashes : Nat) (s t : Text) :
  commentOutAfter slashes (s ++ ';' :: '\n' :: t)
    = commentOutAfter slashes s ++ ';' :: '\n' :: commentOut t
  := by
  have hsemicolon : ';' ∉ marker := by
    rw [text_marker]
    decide
  have hbreak : '\n' ∉ marker := by
    rw [text_marker]
    decide
  rw [commentOutAfter_append_cons hsemicolon (by decide)]
  have hline := commentOutAfter_append_cons hbreak (by decide) 0 [] t
  exact congrArg (commentOutAfter slashes s ++ ';' :: ·) hline

theorem commentOut_append (h : Terminated s) (t : Text) :
  commentOut (s ++ t) = commentOut s ++ commentOut t
  := by
  obtain rfl | ⟨s, rfl⟩ := h
  · rfl
  · have hs := commentOutAfter_append 0 s []
    rw [List.append_assoc, commentOut, commentOut, hs, List.append_assoc]
    apply commentOutAfter_append

theorem terminated_commentOut (h : Terminated s) :
  Terminated (commentOut s)
  := by
  obtain rfl | ⟨s, rfl⟩ := h
  · left
    rfl
  · right
    exact ⟨commentOutAfter 0 s, commentOutAfter_append 0 s []⟩

/-- The slashes in front of a directive are no part of an identifier. -/
theorem infix_commentOut_iff (hk : IsIdentifier k) (t : Text) :
  k <:+: commentOut t ↔ k <:+: t
  := by
  have hslash : ¬ isWord '/' := by decide
  have hhash : ¬ isWord '#' := by decide
  have hfrom : ∀ (slashes : Nat) (s : Text),
      k <:+: s ++ commentOutAfter slashes t ↔ k <:+: s ++ t := by
    intro slashes
    induction slashes, t using commentOut_induction with
    | nil =>
      intro _
      rfl
    | directive slashes t hstarts hslashes ih =>
      intro s
      have ht := ih []
      rw [List.nil_append, List.nil_append] at ht
      have hnil : ¬ k <:+: [] := fun h => hk.1 (List.infix_nil.mp h)
      rw [commentOutAfter_of_starts hstarts hslashes, hk.infix_append_cons_iff hslash,
        ← List.nil_append ('/' :: _), hk.infix_append_cons_iff hslash,
        ← List.nil_append ('#' :: _), hk.infix_append_cons_iff hhash,
        hk.infix_append_cons_iff hhash, commentOut, ht]
      simp only [hnil, false_or]
    | char slashes c t hc ih =>
      intro s
      rw [commentOutAfter_of_imp hc, List.append_cons s c t,
        List.append_cons s c (commentOutAfter _ t)]
      apply ih
  apply hfrom 0 []

end Define

/-! ### Redirected accesses -/

namespace LeftOver

section Array

variable {array k s t index rest : Text} {before : Option Char}

/-- What an access is for an array of any name. -/
theorem opening?_bind_closing?_eq_some_iff :
  (opening? array before t).bind closing? = some (index, rest) ↔
    Text.isBoundary before t.head? = true ∧ (∀ c ∈ index, c ≠ ']' ∧ c ≠ '\n') ∧
      ∃ gap, (∀ c ∈ gap, isBlank c) ∧ t = array ++ (gap ++ '[' :: index) ++ ']' :: rest
  := by
  rw [Option.bind_eq_some_iff]
  constructor
  · rintro ⟨r, hopening, hclosing⟩
    obtain ⟨rfl, hindex⟩ := closing?_eq_some_iff.mp hclosing
    rw [opening?] at hopening
    split at hopening
    next hcondition =>
      rw [Bool.and_eq_true, List.isPrefixOf_iff_prefix] at hcondition
      obtain ⟨hboundary, s, rfl⟩ := hcondition
      rw [List.drop_left] at hopening
      split at hopening
      next r' hdrop =>
        obtain rfl := Option.some.inj hopening
        refine ⟨hboundary, hindex, s.takeWhile isBlank, fun c hc => List.mem_takeWhile_imp hc, ?_⟩
        rw [← access_assoc, ← hdrop, List.takeWhile_append_dropWhile]
      next => cases hopening
    next => cases hopening
  · rintro ⟨hboundary, hindex, gap, hgap, rfl⟩
    refine ⟨index ++ ']' :: rest, ?_, closing?_eq_some_iff.mpr ⟨rfl, hindex⟩⟩
    rw [← access_assoc] at hboundary ⊢
    have hdrop : (gap ++ '[' :: (index ++ ']' :: rest)).dropWhile isBlank
        = '[' :: (index ++ ']' :: rest) := by
      rw [List.dropWhile_append_of_pos hgap]
      rfl
    rw [opening?, hboundary, List.drop_left, hdrop]
    simp [List.isPrefixOf_iff_prefix]

/-- A pass goes on character by character or access by access. -/
@[elab_as_elim]
theorem pass_induction
    {motive : Option Char → Text → Prop} (array : Text)
    (nil : ∀ before, motive before [])
    (cons : ∀ before c t, (opening? array before (c :: t)).bind closing? = none →
      motive (some c) t → motive before (c :: t))
    (access : ∀ before gap index rest, (∀ c ∈ gap, isBlank c) →
      (∀ c ∈ index, c ≠ ']' ∧ c ≠ '\n') →
      (opening? array before (array ++ (gap ++ '[' :: index) ++ ']' :: rest)).bind closing?
        = some (index, rest) →
      motive (some ']') rest → motive before (array ++ (gap ++ '[' :: index) ++ ']' :: rest))
    (before : Option Char) (t : Text) :
  motive before t
  := by
  induction hn : t.length using Nat.strong_induction_on generalizing before t with
  | _ n ih =>
    cases t with
    | nil => apply nil
    | cons c t =>
      cases hfound : (opening? array before (c :: t)).bind closing? with
      | none =>
        apply cons _ _ _ hfound
        apply ih _ _ _ _ rfl
        rw [← hn, List.length_cons]
        omega
      | some found =>
        obtain ⟨index, rest⟩ := found
        obtain ⟨-, hindex, gap, hgap, heq⟩ := opening?_bind_closing?_eq_some_iff.mp hfound
        rw [heq] at hfound hn ⊢
        apply access _ _ _ _ hgap hindex hfound
        apply ih _ _ _ _ rfl
        rw [← hn]
        simp only [List.length_append, List.length_cons]
        omega

/-- Where no name of an array holds a semicolon, an access does not reach over the end of a
declaration. -/
theorem access_append_eq
    {gap : Text} (harray : ';' ∉ array) (hgap : ∀ c ∈ gap, isBlank c)
    (hindex : ∀ c ∈ index, c ≠ ']' ∧ c ≠ '\n')
    (h : s ++ ';' :: '\n' :: t = array ++ (gap ++ '[' :: index) ++ ']' :: rest) :
  ∃ s', s = array ++ (gap ++ '[' :: index) ++ ']' :: s' ∧ rest = s' ++ ';' :: '\n' :: t
  := by
  have hname : ';' ∉ array ++ gap := by
    rw [List.mem_append, not_or]
    use harray
    intro hmem
    have hblank := hgap _ hmem
    revert hblank
    decide
  have hbracket : '\n' ∉ '[' :: (index ++ [']']) := by
    have hbreak : '\n' ∉ index := fun hmem => (hindex _ hmem).2 rfl
    simp [hbreak]
  have hassoc : array ++ (gap ++ '[' :: index) ++ ']' :: rest
      = (array ++ gap) ++ ('[' :: (index ++ [']']) ++ rest) := by
    simp
  rw [hassoc, List.append_eq_append_iff] at h
  -- The declaration ends in the name and the blanks, in the brackets, or behind them.
  obtain ⟨u, hu, hrest⟩ | ⟨u, rfl, hrest⟩ := h
  · cases u with
    | nil =>
      obtain ⟨hsemicolon, -⟩ := List.cons.inj hrest
      cases hsemicolon
    | cons c u =>
      obtain ⟨rfl, -⟩ := List.cons.inj hrest
      exact absurd (by rw [hu]; simp) hname
  · rw [List.append_eq_append_iff] at hrest
    obtain ⟨v, rfl, hv⟩ | ⟨v, hv, hrest⟩ := hrest
    · refine ⟨v, ?_, hv⟩
      simp
    · match v with
      | [] =>
        refine ⟨[], ?_, ?_⟩
        · rw [List.append_nil] at hv
          rw [← hv]
          simp
        · rw [List.nil_append] at hrest ⊢
          exact hrest.symm
      | [c] =>
        obtain ⟨rfl, -⟩ := List.cons.inj hrest
        have hlast := congrArg List.getLast? hv
        rw [List.getLast?_concat, ← List.cons_append, List.getLast?_concat] at hlast
        cases hlast
      | c :: d :: v =>
        obtain ⟨-, hrest⟩ := List.cons.inj hrest
        obtain ⟨rfl, -⟩ := List.cons.inj hrest
        exact absurd (by rw [hv]; simp) hbracket

/-- In a pass, what follows a line that ends in a semicolon is changed on its own. -/
theorem redirectFrom_append (harray : ';' ∉ array) (before : Option Char) (s t : Text) :
  redirectFrom array before (s ++ ';' :: '\n' :: t)
    = redirectFrom array before s ++ ';' :: '\n' :: redirectAccess array t
  := by
  generalize hx : s ++ ';' :: '\n' :: t = x
  induction before, x using pass_induction array generalizing s with
  | nil before => cases s <;> cases hx
  | cons before c x hnone ih =>
    cases s with
    | nil =>
      obtain ⟨rfl, rfl⟩ := List.cons.inj hx
      have hbreak : (opening? array (some ';') ('\n' :: t)).bind closing? = none := by
        rw [Option.eq_none_iff_forall_ne_some]
        rintro ⟨index, rest⟩ hfound
        obtain ⟨hboundary, -⟩ := opening?_bind_closing?_eq_some_iff.mp hfound
        rw [List.head?_cons] at hboundary
        revert hboundary
        decide
      have hblank : (some '\n').any isWord = (none : Option Char).any isWord := by decide
      rw [redirectFrom_cons hnone, redirectFrom_cons hbreak, redirectAccess_eq,
        redirectFrom_congr hblank]
      rfl
    | cons d s =>
      obtain ⟨rfl, rfl⟩ := List.cons.inj hx
      have hnone' : (opening? array before (d :: s)).bind closing? = none := by
        rw [Option.eq_none_iff_forall_ne_some] at hnone ⊢
        rintro ⟨index, rest⟩ hfound
        obtain ⟨hboundary, hindex, gap, hgap, heq⟩ := opening?_bind_closing?_eq_some_iff.mp hfound
        apply hnone (index, rest ++ ';' :: '\n' :: t)
        refine opening?_bind_closing?_eq_some_iff.mpr ⟨hboundary, hindex, gap, hgap, ?_⟩
        have happend := congrArg (· ++ ';' :: '\n' :: t) heq
        rwa [List.append_assoc] at happend
      rw [redirectFrom_cons hnone, redirectFrom_cons hnone', ih s rfl, List.cons_append]
  | access before gap index rest hgap hindex hfound ih =>
    obtain ⟨s', rfl, rfl⟩ := access_append_eq harray hgap hindex hx
    have hfound' : (opening? array before (array ++ (gap ++ '[' :: index) ++ ']' :: s')).bind
        closing? = some (index, s') := by
      refine opening?_bind_closing?_eq_some_iff.mpr ⟨?_, hindex, gap, hgap, rfl⟩
      obtain ⟨hboundary, -⟩ := opening?_bind_closing?_eq_some_iff.mp hfound
      rw [List.head?_append] at hboundary ⊢
      exact hboundary
    rw [redirectFrom_access hfound, redirectFrom_access hfound', ih s' rfl]
    simp only [List.append_assoc]

theorem redirectAccess_append_of_terminated
    (harray : ';' ∉ array) (hs : Terminated s) (t : Text) :
  redirectAccess array (s ++ t) = redirectAccess array s ++ redirectAccess array t
  := by
  obtain rfl | ⟨s, rfl⟩ := hs
  · rfl
  · have hs := redirectFrom_append harray none s []
    rw [List.append_assoc, redirectAccess_eq, redirectAccess_eq _ (s ++ _), hs, List.append_assoc]
    apply redirectFrom_append harray

theorem terminated_redirectAccess (harray : ';' ∉ array) (hs : Terminated s) :
  Terminated (redirectAccess array s)
  := by
  obtain rfl | ⟨s, rfl⟩ := hs
  · left
    rfl
  · right
    exact ⟨redirectFrom array none s, redirectFrom_append harray none s []⟩

/-- The blanks that a redirected access loses and the field that it gets are no part of an
identifier, except that one may start with the field. -/
theorem infix_redirectFrom_iff
    {d : Char} (hk : IsIdentifier (d :: k)) (he : 'e' ≠ d) (hl : 'l' ≠ d) (before : Option Char)
    (t : Text) :
  d :: k <:+: redirectFrom array before t ↔ d :: k <:+: t
  := by
  have hopen : ¬ isWord '[' := by decide
  have hclose : ¬ isWord ']' := by decide
  have hdot : '.' ≠ d := by
    rintro rfl
    have hword := hk.2 '.' List.mem_cons_self
    revert hword
    decide
  have hfrom : ∀ s : Text, d :: k <:+: s ++ redirectFrom array before t ↔ d :: k <:+: s ++ t := by
    induction before, t using pass_induction array with
    | nil before =>
      intro s
      rfl
    | cons before c t hnone ih =>
      intro s
      rw [redirectFrom_cons hnone, List.append_cons s c t,
        List.append_cons s c (redirectFrom _ _ t)]
      apply ih
    | access before gap index rest hgap _ hfound ih =>
      intro s
      have hrest := ih []
      rw [List.nil_append, List.nil_append] at hrest
      have hblank : ∀ c ∈ gap, ¬ isWord c := fun c hc => Text.not_isWord_of_isBlank (hgap c hc)
      have hredirected :
          s ++ redirectFrom array before (array ++ (gap ++ '[' :: index) ++ ']' :: rest)
          = (s ++ array) ++ '[' :: (index ++ ']' :: '.' :: 'e' :: 'l'
            :: redirectFrom array (some ']') rest) := by
        rw [redirectFrom_access hfound, text_opening, text_field]
        simp
      have hsource : s ++ (array ++ (gap ++ '[' :: index) ++ ']' :: rest)
          = (s ++ array ++ gap) ++ '[' :: (index ++ ']' :: rest) := by
        simp
      rw [hredirected, hsource, hk.infix_append_cons_iff hopen, hk.infix_append_cons_iff hclose,
        Text.infix_cons_iff_of_ne hdot, Text.infix_cons_iff_of_ne he, Text.infix_cons_iff_of_ne hl,
        hrest, hk.infix_append_cons_iff hopen, hk.infix_append_cons_iff hclose,
        hk.infix_append_iff_left hblank]
  apply hfrom []

end Array

section Arrays

variable {arrays : List Text} {k s : Text}

theorem redirectAccesses_append_of_terminated
    (harrays : ∀ array ∈ arrays, ';' ∉ array) (hs : Terminated s) (t : Text) :
  redirectAccesses arrays (s ++ t) = redirectAccesses arrays s ++ redirectAccesses arrays t
  := by
  induction arrays generalizing s t with
  | nil => rfl
  | cons array arrays ih =>
    obtain ⟨harray, harrays⟩ := List.forall_mem_cons.mp harrays
    rw [redirectAccesses, List.foldl_cons, redirectAccess_append_of_terminated harray hs]
    apply ih harrays (terminated_redirectAccess harray hs)

theorem terminated_redirectAccesses
    (harrays : ∀ array ∈ arrays, ';' ∉ array) (hs : Terminated s) :
  Terminated (redirectAccesses arrays s)
  := by
  induction arrays generalizing s with
  | nil => exact hs
  | cons array arrays ih =>
    obtain ⟨harray, harrays⟩ := List.forall_mem_cons.mp harrays
    apply ih harrays (terminated_redirectAccess harray hs)

theorem infix_redirectAccesses_iff
    {d : Char} (hk : IsIdentifier (d :: k)) (he : 'e' ≠ d) (hl : 'l' ≠ d) (t : Text) :
  d :: k <:+: redirectAccesses arrays t ↔ d :: k <:+: t
  := by
  induction arrays generalizing t with
  | nil => rfl
  | cons array arrays ih =>
    rw [redirectAccesses, List.foldl_cons, ← redirectAccesses, ih]
    apply infix_redirectFrom_iff hk he hl

end Arrays

end LeftOver

/-! ### Braces -/

namespace Text

/-- A word that does not occur in front of a character that it does not hold is found behind that
character. -/
theorem length_lt_of_prefix_drop
    {word s t : Text} {c : Char} {i : Nat} (hword : c ∉ word) (hs : ¬ word <:+: s)
    (h : word <+: (s ++ c :: t).drop i) :
  s.length < i
  := by
  by_contra hle
  rw [List.drop_append_of_le_length (by omega), prefix_append_cons_iff hword] at h
  exact hs (h.isInfix.trans (List.drop_suffix i s).isInfix)

/-- So it is found behind a terminated text in which it does not occur. -/
theorem Terminated.length_le_of_prefix_drop
    {word s t : Text} {i : Nat} (hs : Terminated s) (hword : '\n' ∉ word) (hnot : ¬ word <:+: s)
    (h : word <+: (s ++ t).drop i) :
  s.length ≤ i
  := by
  obtain rfl | ⟨s, rfl⟩ := hs
  · apply Nat.zero_le
  · rw [List.append_cons, List.append_assoc, List.singleton_append] at h
    have hnot' : ¬ word <:+: s ++ [';'] := by
      intro hoccurs
      apply hnot
      rw [List.append_cons]
      exact hoccurs.trans (List.prefix_append _ _).isInfix
    have hlt := length_lt_of_prefix_drop hword hnot' h
    simp only [List.length_append, List.length_cons, List.length_nil] at hlt ⊢
    omega

end Text

/-- Where the word in front of the braces does not occur in some lines, these lines stay in
front. -/
theorem Brace.prefix_wrap
    {word s : Text} (hword : '\n' ∉ word) (hs : ¬ word <:+: s) (start finish t : Text) :
  s ++ ['\n'] <+: Brace.wrap word start finish (s ++ '\n' :: t)
  := by
  rw [Brace.wrap]
  split
  next => exact ⟨t, by simp⟩
  next head tail hdivide =>
    obtain ⟨i, hi, hdivide⟩ := Option.bind_eq_some_iff.mp hdivide
    obtain ⟨j, -, heq⟩ := Option.map_eq_some_iff.mp hdivide
    obtain ⟨rfl, -⟩ := Prod.mk.inj heq
    have hlt := Text.length_lt_of_prefix_drop hword hs (Text.indexOf?_eq_some_iff.mp hi).1
    have hhead : s ++ ['\n'] <+: (s ++ '\n' :: t).take (i + j + 1) := by
      apply List.prefix_take_iff.mpr
      use ⟨t, by simp⟩
      rw [List.length_append, List.length_singleton]
      omega
    have hmore : ∀ u, s ++ ['\n'] <+: (s ++ '\n' :: t).take (i + j + 1) ++ u := fun u =>
      hhead.trans (List.prefix_append _ u)
    dsimp only
    split
    · apply hmore
    · split
      · apply hmore
      · rw [List.append_assoc, List.append_assoc, List.append_assoc]
        apply hmore

end ShaderPair
