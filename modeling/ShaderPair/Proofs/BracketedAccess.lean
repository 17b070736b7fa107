import ShaderPair.LeftOver
import ShaderPair.Proofs.Lines
import ShaderPair.Proofs.Words
import Mathlib.Data.List.Infix

/-!
# Accesses to arrays

An access to an element of an array is the name of the array, blanks, and an index between
brackets, in which the brackets are balanced (`LeftOver.IsAccess`).  A text is *redirected* if each
of its accesses to some arrays goes to the field of the element: the field follows the bracket
that closes the index, the index is redirected in the same way, and everything else is as it was
(`LeftOver.Redirects`).  Every text is redirected to one text only
(`LeftOver.existsUnique_redirects`).
-/

namespace ShaderPair

namespace LeftOver

open Text (IsIdentifier isBlank isWord)

/-! ### Brackets -/

/-- Each bracket is closed in the text, and no other one is. -/
structure Balanced (t : Text) : Prop where
  /-- Nowhere more brackets are closed than were opened. -/
  closed_le : ∀ p, p <+: t → p.count ']' ≤ p.count '['
  /-- In the end all brackets are closed. -/
  closed_eq : t.count ']' = t.count '['

theorem balanced_iff (t : Text) :
  Balanced t ↔ (∀ p ∈ t.inits, p.count ']' ≤ p.count '[') ∧ t.count ']' = t.count '['
  := by
  simp only [List.mem_inits]
  constructor
  · rintro ⟨hle, heq⟩
    exact ⟨hle, heq⟩
  · rintro ⟨hle, heq⟩
    exact ⟨hle, heq⟩

instance : DecidablePred Balanced := fun t => decidable_of_iff' _ (balanced_iff t)

theorem balanced_of_not_mem {t : Text} (hopen : '[' ∉ t) (hclose : ']' ∉ t) :
  Balanced t
  := by
  constructor
  · intro p hp
    rw [List.count_eq_zero.mpr fun h => hclose (hp.subset h)]
    apply Nat.zero_le
  · rw [List.count_eq_zero.mpr hopen, List.count_eq_zero.mpr hclose]

/-- A balanced text does not go on behind the bracket that closes a balanced text. -/
theorem Balanced.length_le
    {t u : Text} (ht : Balanced t) (hu : Balanced u) {r s : Text}
    (h : t ++ ']' :: r = u ++ ']' :: s) :
  u.length ≤ t.length
  := by
  by_contra hlt
  have hprefix : t ++ [']'] <+: u := by
    have hfull : t ++ [']'] <+: u ++ ']' :: s := by
      rw [← h, List.append_cons t ']' r]
      apply List.prefix_append
    apply List.prefix_of_prefix_length_le hfull (List.prefix_append _ _)
    rw [List.length_append, List.length_singleton]
    omega
  have hle := hu.closed_le _ hprefix
  have heq := ht.closed_eq
  simp only [List.count_append] at hle
  simp at hle
  omega

/-- An opening bracket is closed in one place only. -/
theorem Balanced.unique
    {t u : Text} (ht : Balanced t) (hu : Balanced u) {r s : Text}
    (h : t ++ ']' :: r = u ++ ']' :: s) :
  t = u ∧ r = s
  := by
  have hlength := Nat.le_antisymm (hu.length_le ht h.symm) (ht.length_le hu h)
  obtain ⟨htu, hrs⟩ := List.append_inj h hlength
  use htu
  apply (List.cons.inj hrs).2

/-- An opening bracket that is never closed is not in a balanced text. -/
theorem Balanced.not_suffix {t u : Text} (ht : Balanced t) (hu : ']' ∉ u) :
  ¬ '[' :: u <:+ t
  := by
  rintro ⟨p, rfl⟩
  have hle := ht.closed_le p (List.prefix_append _ _)
  have heq := ht.closed_eq
  have hzero := List.count_eq_zero.mpr hu
  simp only [List.count_append] at heq
  simp [hzero] at heq
  omega

/-- Of two opening brackets with texts behind them up to the same place, one balanced and one in
which nothing is closed, the former is not in front. -/
theorem Balanced.suffix_of_suffix
    {s t u : Text} (ht : Balanced t) (hts : '[' :: t <:+ s) (hu : ']' ∉ u)
    (hus : '[' :: u <:+ s) :
  t <:+ u
  := by
  rcases List.suffix_or_suffix_of_suffix hus hts with hsub | hsub
  · rcases List.suffix_cons_iff.mp hsub with hsame | hsub
    · rw [(List.cons.inj hsame).2]
    · exact absurd hsub (ht.not_suffix hu)
  · rcases List.suffix_cons_iff.mp hsub with hsame | hsub
    · rw [(List.cons.inj hsame).2]
    · exact (List.suffix_cons '[' t).trans hsub

theorem Balanced.mem_iff {t : Text} (ht : Balanced t) :
  ']' ∈ t ↔ '[' ∈ t
  := by
  rw [← List.count_pos_iff, ht.closed_eq, List.count_pos_iff]

/-! ### Openings -/

/-- What follows the bracket, if a text starts with the name of an array as a whole identifier,
blanks and an opening bracket.  The text stands behind the character `before`. -/
def opening? (array : Text) (before : Option Char) (t : Text) : Option Text :=
  if Text.isBoundary before t.head? && array.isPrefixOf t then
    match (t.drop array.length).dropWhile isBlank with
    | '[' :: r => some r
    | _ => none
  else none

section Opening

variable {array array' t r r' : Text} {before : Option Char}

theorem opening?_eq_some_iff (harray : IsIdentifier array) :
  opening? array before t = some r ↔
    (∀ c ∈ before, ¬ isWord c) ∧
      ∃ gap, (∀ c ∈ gap, isBlank c) ∧ t = array ++ (gap ++ '[' :: r)
  := by
  obtain ⟨first, others, rfl⟩ := List.exists_cons_of_ne_nil harray.1
  have hfirst := harray.2 first List.mem_cons_self
  constructor
  · intro h
    rw [opening?] at h
    split at h
    next hcondition =>
      rw [Bool.and_eq_true, List.isPrefixOf_iff_prefix] at hcondition
      obtain ⟨hboundary, s, rfl⟩ := hcondition
      rw [List.drop_left] at h
      split at h
      next r' hdrop =>
        obtain rfl := Option.some.inj h
        constructor
        · intro c hc hword
          rw [Option.mem_def.mp hc] at hboundary
          simp [Text.isBoundary, hword, hfirst] at hboundary
        · refine ⟨s.takeWhile isBlank, fun c hc => List.mem_takeWhile_imp hc, ?_⟩
          rw [← hdrop, List.takeWhile_append_dropWhile]
      next => cases h
    next => cases h
  · rintro ⟨hbefore, gap, hgap, rfl⟩
    have hboundary : Text.isBoundary before (some first) = true := by
      cases before with
      | none => simp [Text.isBoundary, hfirst]
      | some c => simp [Text.isBoundary, hfirst, hbefore c rfl]
    have hdrop : (gap ++ '[' :: r).dropWhile isBlank = '[' :: r := by
      rw [List.dropWhile_append_of_pos hgap]
      rfl
    rw [opening?, List.drop_left, hdrop]
    simp [hboundary, List.isPrefixOf_iff_prefix]

/-- An array that is opened is the whole identifier at the start of the text. -/
theorem takeWhile_of_opening?
    (harray : IsIdentifier array) (h : opening? array before t = some r) :
  t.takeWhile isWord = array
  := by
  obtain ⟨-, gap, hgap, rfl⟩ := (opening?_eq_some_iff harray).mp h
  have hend : (gap ++ '[' :: r).takeWhile isWord = [] := by
    cases gap with
    | nil => rfl
    | cons c gap =>
      have hc := Text.not_isWord_of_isBlank (hgap c List.mem_cons_self)
      simp [hc]
  rw [List.takeWhile_append_of_pos harray.2, hend, List.append_nil]

/-- At most one array is opened at the start of a text. -/
theorem opening?_unique
    (harray : IsIdentifier array) (harray' : IsIdentifier array')
    (h : opening? array before t = some r) (h' : opening? array' before t = some r') :
  array = array' ∧ r = r'
  := by
  obtain rfl : array = array' :=
    (takeWhile_of_opening? harray h).symm.trans (takeWhile_of_opening? harray' h')
  exact ⟨rfl, Option.some.inj (h.symm.trans h')⟩

theorem length_of_opening?
    (harray : IsIdentifier array) (h : opening? array before t = some r) :
  r.length < t.length
  := by
  obtain ⟨-, gap, -, rfl⟩ := (opening?_eq_some_iff harray).mp h
  simp only [List.length_append, List.length_cons]
  omega

end Opening

/-! ### Accesses -/

/-- A text starts with an access to an element of one of some arrays. -/
structure IsAccess (arrays : List Text) (before : Option Char) (t name index rest : Text) :
    Prop where
  /-- The array is one of them. -/
  mem : name ∈ arrays
  /-- The index and the rest of the text follow the opening bracket. -/
  opening?_eq : opening? name before t = some (index ++ ']' :: rest)
  /-- The bracket behind the index belongs to the opening one. -/
  balanced : Balanced index

/-- The second text is the first one with each access to an element of one of some arrays
redirected to the field of the element. -/
inductive Redirects (arrays : List Text) : (before : Option Char) → Text → Text → Prop
  | nil (before : Option Char) : Redirects arrays before [] []
  | access {before : Option Char} {t name index rest index' rest' : Text} :
    IsAccess arrays before t name index rest → Redirects arrays (some '[') index index' →
      Redirects arrays (some ']') rest rest' →
      Redirects arrays before t (name ++ ("[" ++ (index' ++ ("].el" ++ rest'))))
  | other {before : Option Char} {c : Char} {t u : Text} :
    (∀ name index rest, ¬ IsAccess arrays before (c :: t) name index rest) →
      Redirects arrays (some c) t u → Redirects arrays before (c :: t) (c :: u)

section Redirects

variable {arrays : List Text} {before : Option Char} {t u u' : Text}

/-- Where no array is opened there is no access. -/
theorem not_isAccess
    (h : ∀ array ∈ arrays, opening? array before t = none) (name index rest : Text) :
  ¬ IsAccess arrays before t name index rest
  := by
  intro haccess
  have hopening := haccess.opening?_eq
  rw [h name haccess.mem] at hopening
  cases hopening

/-- A text starts with one access only. -/
theorem IsAccess.unique
    (harrays : ∀ a ∈ arrays, IsIdentifier a) {name index rest name' index' rest' : Text}
    (h : IsAccess arrays before t name index rest)
    (h' : IsAccess arrays before t name' index' rest') :
  name = name' ∧ index = index' ∧ rest = rest'
  := by
  obtain ⟨hname, heq⟩ := opening?_unique (harrays _ h.mem) (harrays _ h'.mem) h.opening?_eq
    h'.opening?_eq
  use hname
  apply h.balanced.unique h'.balanced heq

/-- A text is redirected to one text only. -/
theorem Redirects.unique
    (harrays : ∀ a ∈ arrays, IsIdentifier a) (h : Redirects arrays before t u)
    (h' : Redirects arrays before t u') :
  u = u'
  := by
  induction h generalizing u' with
  | nil =>
    cases h' with
    | nil => rfl
    | access haccess =>
      have hlength := length_of_opening? (harrays _ haccess.mem) haccess.opening?_eq
      simp at hlength
  | access haccess _ _ ihindex ihrest =>
    cases h' with
    | nil =>
      have hlength := length_of_opening? (harrays _ haccess.mem) haccess.opening?_eq
      simp at hlength
    | access haccess' hindex' hrest' =>
      obtain ⟨rfl, rfl, rfl⟩ := haccess.unique harrays haccess'
      rw [ihindex hindex', ihrest hrest']
    | other hnone => exact absurd haccess (hnone _ _ _)
  | other hnone _ ih =>
    cases h' with
    | access haccess => exact absurd haccess (hnone _ _ _)
    | other _ h' => rw [ih h']

theorem exists_redirects
    (harrays : ∀ a ∈ arrays, IsIdentifier a) (before : Option Char) (t : Text) :
  ∃ u, Redirects arrays before t u
  := by
  induction hn : t.length using Nat.strong_induction_on generalizing before t with
  | _ n ih =>
    subst hn
    by_cases haccess : ∃ name index rest, IsAccess arrays before t name index rest
    · obtain ⟨name, index, rest, haccess⟩ := haccess
      have hlength := length_of_opening? (harrays _ haccess.mem) haccess.opening?_eq
      simp only [List.length_append, List.length_cons] at hlength
      obtain ⟨index', hindex⟩ := ih index.length (by omega) (some '[') index rfl
      obtain ⟨rest', hrest⟩ := ih rest.length (by omega) (some ']') rest rfl
      exact ⟨_, Redirects.access haccess hindex hrest⟩
    · cases t with
      | nil => exact ⟨[], Redirects.nil before⟩
      | cons c t =>
        obtain ⟨u, hu⟩ := ih t.length (Nat.lt_succ_self _) (some c) t rfl
        use c :: u
        apply Redirects.other _ hu
        intro name index rest h
        exact haccess ⟨name, index, rest, h⟩

/-- Every text is redirected to exactly one text. -/
theorem existsUnique_redirects
    (harrays : ∀ a ∈ arrays, IsIdentifier a) (before : Option Char) (t : Text) :
  ∃! u, Redirects arrays before t u
  := by
  obtain ⟨u, hu⟩ := exists_redirects harrays before t
  use u, hu
  intro u' hu'
  apply hu'.unique harrays hu

end Redirects

end LeftOver

end ShaderPair
