import ShaderPair.Proofs.AccessPass

/-!
# Lone accesses

A `LeftOver.LoneAccess` is a text with one access to an element of an array and no other bracket.
The passes over the accesses to some arrays put the field of the element behind it exactly if its
array is one of them (`LeftOver.LoneAccess.redirectAccesses_text`).
-/

namespace ShaderPair

namespace LeftOver

open Text (IsIdentifier isBlank isWord)

/-! ### Texts around an access -/

section Around

variable {array s t w : Text} {before : Option Char}

theorem opening?_eq_none_of_not_mem (harray : IsIdentifier array) (ht : '[' ∉ t) :
  opening? array before t = none
  := by
  apply Option.eq_none_iff_forall_not_mem.mpr
  intro r hr
  obtain ⟨-, gap, -, rfl⟩ := (opening?_eq_some_iff harray).mp hr
  simp at ht

/-- A text without opening brackets stays. -/
theorem redirectFrom_of_not_mem
    (harray : IsIdentifier array) (ht : '[' ∉ t) (before : Option Char) :
  redirectFrom array before t = t
  := by
  induction t generalizing before with
  | nil => rfl
  | cons c t ih =>
    have hnone : (opening? array before (c :: t)).bind closing? = none := by
      rw [opening?_eq_none_of_not_mem harray ht]
      rfl
    rw [redirectFrom_cons hnone, ih fun h => ht (List.mem_cons_of_mem c h)]

/-- Blanks and a bracket behind them do not reach over an identifier. -/
theorem gap_append_ne
    {gap r : Text} (hgap : ∀ c ∈ gap, isBlank c) (hs : '[' ∉ s) (hw : IsIdentifier w) :
  gap ++ '[' :: r ≠ s ++ (w ++ t)
  := by
  obtain ⟨d, w, rfl⟩ := List.exists_cons_of_ne_nil hw.1
  have hd : isWord d := hw.2 d List.mem_cons_self
  have hbracket : '[' ≠ d := by
    rintro rfl
    revert hd
    decide
  intro heq
  rw [List.append_eq_append_iff, List.cons_append] at heq
  obtain ⟨u, rfl, hu⟩ | ⟨u, rfl, hu⟩ := heq
  · cases u with
    | nil => exact hbracket (List.cons.inj hu).1
    | cons c u =>
      obtain ⟨rfl, -⟩ := List.cons.inj hu
      simp at hs
  · cases u with
    | nil => exact hbracket (List.cons.inj hu).1.symm
    | cons c u =>
      obtain ⟨rfl, -⟩ := List.cons.inj hu
      exact Text.not_isWord_of_isBlank (hgap d (by simp)) hd

/-- In a text without opening brackets, which does not end in an identifier, and in front of one, no
array is opened. -/
theorem opening?_append_identifier
    (harray : IsIdentifier array) (hs : '[' ∉ s) {last : Char} (hlast : s.getLast? = some last)
    (hword : ¬ isWord last) (hw : IsIdentifier w) :
  opening? array before (s ++ (w ++ t)) = none
  := by
  apply Option.eq_none_iff_forall_not_mem.mpr
  intro r hr
  obtain ⟨-, gap, hgap, heq⟩ := (opening?_eq_some_iff harray).mp hr
  have hprefix : array <+: s := by
    apply (List.prefix_or_prefix_of_prefix ⟨_, heq.symm⟩ (List.prefix_append s _)).resolve_right
    intro h
    exact hword (harray.2 last (h.subset (List.mem_of_getLast? hlast)))
  obtain ⟨s', rfl⟩ := hprefix
  rw [List.append_assoc, List.append_cancel_left_eq] at heq
  apply gap_append_ne hgap _ hw heq.symm
  exact fun h => hs (List.mem_append_right array h)

/-- A text without opening brackets, which does not end in an identifier, stays in front of one. -/
theorem redirectAccess_append_identifier
    (harray : IsIdentifier array) (hs : '[' ∉ s) (hlast : ∀ c ∈ s.getLast?, ¬ isWord c)
    (hw : IsIdentifier w) (t : Text) :
  redirectAccess array (s ++ (w ++ t)) = s ++ redirectAccess array (w ++ t)
  := by
  have hfrom : ∀ before : Option Char, (∀ c ∈ (before.toList ++ s).getLast?, ¬ isWord c) →
      redirectFrom array before (s ++ (w ++ t)) = s ++ redirectAccess array (w ++ t) := by
    clear hlast
    induction s with
    | nil =>
      intro before hbefore
      apply redirectFrom_of_fresh harray
      left
      cases before with
      | none => rintro c ⟨⟩
      | some c => exact hbefore
    | cons c s ih =>
      intro before hbefore
      have hlast := List.getLast?_eq_some_getLast (List.cons_ne_nil c s)
      have hnone : opening? array before (c :: s ++ (w ++ t)) = none := by
        apply opening?_append_identifier harray hs hlast _ hw
        apply hbefore
        rw [List.getLast?_append, hlast]
        rfl
      rw [List.cons_append] at hnone ⊢
      rw [redirectFrom_cons (by rw [hnone]; rfl), ih (fun h => hs (List.mem_cons_of_mem c h)),
        List.cons_append]
      intro d hd
      apply hbefore
      rw [List.getLast?_append_of_ne_nil _ (List.cons_ne_nil c s)]
      exact hd
  exact hfrom none hlast

end Around

/-! ### Lone accesses -/

/-- A text with one access to an element of an array and no other opening bracket. -/
structure LoneAccess where
  /-- What stands in front of the access. -/
  before : Text
  /-- The name of the array. -/
  array : Text
  /-- The blanks between the name and the bracket. -/
  gap : Text
  /-- The index. -/
  index : Text
  /-- What stands behind the access. -/
  rest : Text
  /-- The name is one. -/
  isIdentifier : IsIdentifier array
  /-- The name is not a part of another one. -/
  apart : ∀ c ∈ before.getLast?, ¬ isWord c
  /-- The blanks are blank. -/
  isBlank_gap : ∀ c ∈ gap, isBlank c
  /-- The index is closed behind itself, on the same line. -/
  closed : ∀ c ∈ index, c ≠ ']' ∧ c ≠ '\n'
  /-- There is no other opening bracket. -/
  not_mem : '[' ∉ before ++ index ++ rest

namespace LoneAccess

variable {a : LoneAccess} {array : Text} {arrays : List Text}

/-- The text. -/
def text (a : LoneAccess) : Text :=
  a.before ++ (a.array ++ (a.gap ++ '[' :: (a.index ++ ']' :: a.rest)))

/-- The text with the field of the element behind the access. -/
def redirected (a : LoneAccess) : Text :=
  a.before ++ (a.array ++ ("[" ++ (a.index ++ ("].el" ++ a.rest))))

theorem redirectAccess_text (a : LoneAccess) :
  redirectAccess a.array a.text = a.redirected
  := by
  have hnot := a.not_mem
  simp only [List.mem_append, not_or] at hnot
  rw [text, redirectAccess_append_identifier a.isIdentifier hnot.1.1 a.apart a.isIdentifier,
    redirectAccess_access a.isIdentifier a.isBlank_gap a.closed, redirectAccess_eq,
    redirectFrom_of_not_mem a.isIdentifier hnot.2]
  rfl

theorem redirectAccess_text_of_ne (harray : IsIdentifier array) (hne : array ≠ a.array) :
  redirectAccess array a.text = a.text
  := by
  have hnot := a.not_mem
  simp only [List.mem_append, not_or] at hnot
  rw [text, redirectAccess_append_identifier harray hnot.1.1 a.apart a.isIdentifier,
    redirectAccess_other harray a.isIdentifier hne a.isBlank_gap hnot.1.2, redirectAccess_eq,
    redirectFrom_of_not_mem harray hnot.2]

/-- The field behind the access is a part of what follows it. -/
def done (a : LoneAccess) : LoneAccess where
  before := a.before
  array := a.array
  gap := []
  index := a.index
  rest := ".el" ++ a.rest
  isIdentifier := a.isIdentifier
  apart := a.apart
  isBlank_gap := List.forall_mem_nil _
  closed := a.closed
  not_mem := by
    have hnot := a.not_mem
    simp only [Text.ofString_eq, List.mem_append, not_or] at hnot ⊢
    exact ⟨hnot.1, by decide, hnot.2⟩

theorem text_done (a : LoneAccess) :
  a.done.text = a.redirected
  := by
  have hfield : Text.ofString "].el" = ']' :: Text.ofString ".el" := by
    rw [Text.ofString_eq, Text.ofString_eq]
    rfl
  rw [redirected, text_opening, hfield]
  rfl

theorem redirectAccesses_text_of_not_mem
    (harrays : ∀ array ∈ arrays, IsIdentifier array) (hnot : a.array ∉ arrays) :
  redirectAccesses arrays a.text = a.text
  := by
  induction arrays with
  | nil => rfl
  | cons array arrays ih =>
    obtain ⟨harray, harrays⟩ := List.forall_mem_cons.mp harrays
    rw [List.mem_cons, not_or] at hnot
    obtain ⟨hne, hnot⟩ := hnot
    rw [redirectAccesses, List.foldl_cons, redirectAccess_text_of_ne harray (Ne.symm hne)]
    apply ih harrays hnot

/-- The field is put behind the access exactly if the array is one of those. -/
theorem redirectAccesses_text
    (harrays : ∀ array ∈ arrays, IsIdentifier array) (hnodup : arrays.Nodup) (a : LoneAccess) :
  redirectAccesses arrays a.text = if a.array ∈ arrays then a.redirected else a.text
  := by
  split
  next hmem =>
    induction arrays with
    | nil => cases hmem
    | cons array arrays ih =>
      obtain ⟨harray, hothers⟩ := List.forall_mem_cons.mp harrays
      obtain ⟨hnot, hnodup⟩ := List.nodup_cons.mp hnodup
      rw [redirectAccesses, List.foldl_cons]
      by_cases heq : array = a.array
      · subst heq
        rw [redirectAccess_text, ← text_done]
        exact redirectAccesses_text_of_not_mem (a := a.done) hothers hnot
      · rw [redirectAccess_text_of_ne harray heq]
        apply ih hothers hnodup ((List.mem_cons.mp hmem).resolve_left (Ne.symm heq))
  next hnot => exact redirectAccesses_text_of_not_mem harrays hnot

end LoneAccess

end LeftOver

end ShaderPair
