import ShaderPair.Proofs.BracketedAccess
import ShaderPair.Proofs.Pieces

/-!
# One pass over the accesses

The accesses to strided arrays are redirected by one pass over the text for each array
(`LeftOver.redirectAccess`).  A pass takes the first closing bracket on the line for the one that
closes an index (`LeftOver.closing?`).  From a place where no identifier goes on, a pass may as
well start (`LeftOver.redirectFrom_of_fresh`); so it goes over a text part by part, an identifier,
an access or a single character at a time.
-/

namespace ShaderPair

namespace LeftOver

open Text (IsIdentifier isBlank isWord)

/-! ### One place of a pass -/

/-- The index and the rest of the text behind an opening bracket, if a bracket is closed on the
line. -/
def closing? (r : Text) : Option (Text × Text) :=
  match r.dropWhile fun c => c != ']' && c != '\n' with
  | ']' :: rest => some (r.takeWhile fun c => c != ']' && c != '\n', rest)
  | _ => none

theorem text_opening :
  Text.ofString "[" = ['[']
  := by
  rw [Text.ofString_eq]
  rfl

theorem text_closing :
  Text.ofString "]" = [']']
  := by
  rw [Text.ofString_eq]
  rfl

theorem text_field :
  Text.ofString "].el" = [']', '.', 'e', 'l']
  := by
  rw [Text.ofString_eq]
  rfl

theorem word_singleton_cons (c d : Char) (t : Text) :
  Pattern.word [c] (d :: t) = if d = c then [((), t)] else []
  := by
  by_cases h : c = d
  · simp [Pattern.word, h]
  · simp [Pattern.word, h, Ne.symm h]

/-- The pattern behind an opening bracket looks for the closing one. -/
theorem first?_closing (r : Text) :
  (do
    let index ← Pattern.all fun c => c != ']' && c != '\n'
    Pattern.word [']']
    return index : Pattern Text).first? r = closing? r
  := by
  simp only [Pattern.first?, Pattern.bind_apply, Pattern.all, List.flatMap_singleton, closing?]
  cases hdrop : r.dropWhile fun c => c != ']' && c != '\n' with
  | nil => simp [Pattern.word]
  | cons d rest =>
    rw [word_singleton_cons]
    by_cases hd : d = ']'
    · subst hd
      simp
    · simp [hd]

/-- An access is found where an array is opened and a bracket is closed on the line. -/
theorem first?_access (array : Text) (before : Option Char) (t : Text) :
  Pattern.first? (access array before) t = (opening? array before t).bind closing?
  := by
  rw [access, text_opening, text_closing, opening?, Pattern.first?, Pattern.bind_apply,
    Pattern.boundary]
  by_cases hboundary : Text.isBoundary before t.head? = true
  · rw [if_pos hboundary, List.flatMap_singleton, Pattern.bind_apply, Pattern.word, hboundary,
      Bool.true_and]
    by_cases hprefix : array.isPrefixOf t = true
    · rw [if_pos hprefix, if_pos hprefix, List.flatMap_singleton, Pattern.bind_apply,
        Pattern.blanks, List.flatMap_singleton, Pattern.bind_apply]
      cases hdrop : (t.drop array.length).dropWhile isBlank with
      | nil => simp [Pattern.word]
      | cons d r =>
        rw [word_singleton_cons]
        by_cases hd : d = '['
        · subst hd
          rw [if_pos rfl, List.flatMap_singleton]
          apply first?_closing
        · simp [hd]
    · rw [if_neg hprefix, if_neg hprefix]
      rfl
  · simp [hboundary]

theorem closing?_eq_some_iff {r index rest : Text} :
  closing? r = some (index, rest) ↔
    r = index ++ ']' :: rest ∧ ∀ c ∈ index, c ≠ ']' ∧ c ≠ '\n'
  := by
  constructor
  · intro h
    rw [closing?] at h
    split at h
    next rest' hdrop =>
      obtain ⟨rfl, rfl⟩ := Prod.mk.inj (Option.some.inj h)
      constructor
      · rw [← hdrop, List.takeWhile_append_dropWhile]
      · intro c hc
        simpa using List.mem_takeWhile_imp hc
    next => cases h
  · rintro ⟨rfl, hindex⟩
    have hall : ∀ c ∈ index, (c != ']' && c != '\n') = true := by
      intro c hc
      simpa using hindex c hc
    rw [closing?, List.dropWhile_append_of_pos hall, List.takeWhile_append_of_pos hall]
    simp

theorem closing?_eq_none {r : Text} (h : ']' ∉ r) :
  closing? r = none
  := by
  rw [closing?]
  split
  next rest hdrop =>
    have hmem : ']' ∈ r.dropWhile fun c => c != ']' && c != '\n' := by
      rw [hdrop]
      apply List.mem_cons_self
    exact absurd ((List.dropWhile_suffix _).subset hmem) h
  next => rfl

/-! ### A pass from some place on -/

/-- The text that a pass makes of what follows the character `before`. -/
def redirectFrom (array : Text) (before : Option Char) (t : Text) : Text :=
  Piece.assemble (fun _ index => array ++ "[" ++ index ++ "].el")
    (Piece.ofTextAfter (access array) before 0 t)

theorem redirectAccess_eq (array t : Text) :
  redirectAccess array t = redirectFrom array none t
  := rfl

section Pass

variable {array : Text} {before : Option Char} {c d : Char} {s t w index gap : Text}

/-- A character at which no access starts stays. -/
theorem redirectFrom_cons
    (h : (opening? array before (c :: t)).bind closing? = none) :
  redirectFrom array before (c :: t) = c :: redirectFrom array (some c) t
  := by
  rw [← first?_access] at h
  apply Piece.assemble_ofTextAfter_cons _ _ _ h

/-- An access goes to the field. -/
theorem redirectFrom_access
    (h : (opening? array before (s ++ ']' :: t)).bind closing? = some (index, t)) :
  redirectFrom array before (s ++ ']' :: t)
    = array ++ "[" ++ index ++ "].el" ++ redirectFrom array (some ']') t
  := by
  rw [List.append_cons] at h ⊢
  rw [← first?_access] at h
  rw [redirectFrom, Piece.assemble_ofTextAfter_append _ _ _ (by simp) h, List.getLast?_concat]
  rfl

/-- Only whether an identifier goes on from the character before matters. -/
theorem redirectFrom_congr {before' : Option Char} (h : before.any isWord = before'.any isWord) :
  redirectFrom array before t = redirectFrom array before' t
  := by
  cases t with
  | nil => rfl
  | cons c t =>
    have hopening : opening? array before (c :: t) = opening? array before' (c :: t) := by
      rw [opening?, opening?, Text.isBoundary, Text.isBoundary, h]
    rw [redirectFrom, redirectFrom, Piece.ofTextAfter, Piece.ofTextAfter]
    simp only [first?_access, hopening]

/-- A character outside of identifiers opens no array. -/
theorem opening?_of_not_isWord (harray : IsIdentifier array) (hc : ¬ isWord c) :
  opening? array before (c :: t) = none
  := by
  apply Option.eq_none_iff_forall_not_mem.mpr
  intro r hr
  obtain ⟨-, gap, -, heq⟩ := (opening?_eq_some_iff harray).mp hr
  obtain ⟨first, others, rfl⟩ := List.exists_cons_of_ne_nil harray.1
  obtain ⟨rfl, -⟩ := List.cons.inj heq
  exact hc (harray.2 c List.mem_cons_self)

/-- Inside an identifier no array is opened. -/
theorem opening?_of_isWord (harray : IsIdentifier array) (hc : isWord c) :
  opening? array (some c) t = none
  := by
  apply Option.eq_none_iff_forall_not_mem.mpr
  intro r hr
  obtain ⟨hbefore, -⟩ := (opening?_eq_some_iff harray).mp hr
  exact hbefore c rfl hc

/-- An array is opened behind an identifier only if it is this one. -/
theorem opening?_identifier
    (harray : IsIdentifier array) (hw : IsIdentifier w) (ht : ∀ c ∈ t.head?, ¬ isWord c)
    {r : Text} (h : opening? array before (w ++ t) = some r) :
  array = w ∧ t.dropWhile isBlank = '[' :: r
  := by
  have hend : t.takeWhile isWord = [] := by
    cases t with
    | nil => rfl
    | cons c t => simp [ht c rfl]
  have hname := takeWhile_of_opening? harray h
  rw [List.takeWhile_append_of_pos hw.2, hend, List.append_nil] at hname
  subst hname
  obtain ⟨-, gap, hgap, heq⟩ := (opening?_eq_some_iff harray).mp h
  obtain rfl := List.append_cancel_left heq
  rw [List.dropWhile_append_of_pos hgap]
  exact ⟨rfl, rfl⟩

/-- In a text without opening brackets, in front of a character that is neither blank nor a part of
an identifier nor an opening bracket, no array is opened. -/
theorem opening?_of_not_mem
    (harray : IsIdentifier array) (hs : '[' ∉ s) (hword : ¬ isWord d) (hblank : ¬ isBlank d)
    (hd : d ≠ '[') :
  opening? array before (s ++ d :: t) = none
  := by
  apply Option.eq_none_iff_forall_not_mem.mpr
  intro r hr
  obtain ⟨-, gap, hgap, heq⟩ := (opening?_eq_some_iff harray).mp hr
  have hnot : ∀ c ∈ array ++ gap, c ≠ d := by
    rintro c hc rfl
    rcases List.mem_append.mp hc with hc | hc
    · exact hword (harray.2 c hc)
    · exact hblank (hgap c hc)
  -- The opening bracket stands in `s`, or `d` stands in the name or among the blanks.
  rw [← List.append_assoc, List.append_eq_append_iff] at heq
  obtain ⟨u, heq, hu⟩ | ⟨u, heq, hu⟩ := heq
  · cases u with
    | nil => exact hd (List.cons.inj hu).1
    | cons c u =>
      obtain ⟨rfl, -⟩ := List.cons.inj hu
      refine hnot d ?_ rfl
      rw [heq]
      simp
  · cases u with
    | nil => exact hd (List.cons.inj hu).1.symm
    | cons c u =>
      obtain ⟨rfl, -⟩ := List.cons.inj hu
      apply hs
      rw [heq]
      simp

/-! ### A pass over the parts of a text -/

/-- No identifier goes on from the character `before` into a text. -/
def Fresh (before : Option Char) (t : Text) : Prop :=
  (∀ c ∈ before, ¬ isWord c) ∨ ∀ d ∈ t.head?, ¬ isWord d

theorem fresh_none (t : Text) :
  Fresh none t
  := by
  left
  rintro _ ⟨⟩

theorem fresh_some (hc : ¬ isWord c) (t : Text) :
  Fresh (some c) t
  := by
  left
  rintro _ ⟨⟩
  exact hc

/-- Where no identifier goes on, a pass may as well start. -/
theorem redirectFrom_of_fresh (harray : IsIdentifier array) (h : Fresh before t) :
  redirectFrom array before t = redirectAccess array t
  := by
  rw [redirectAccess_eq]
  rcases h with h | h
  · apply redirectFrom_congr
    cases before with
    | none => rfl
    | some c => simp [h c rfl]
  · cases t with
    | nil => rfl
    | cons c t =>
      have hnone : ∀ before, (opening? array before (c :: t)).bind closing? = none := by
        intro before
        rw [opening?_of_not_isWord harray (h c rfl)]
        rfl
      rw [redirectFrom_cons (hnone before), redirectFrom_cons (hnone none)]

/-- A character outside of identifiers stays. -/
theorem redirectAccess_cons (harray : IsIdentifier array) (hc : ¬ isWord c) (t : Text) :
  redirectAccess array (c :: t) = c :: redirectAccess array t
  := by
  rw [redirectAccess_eq, redirectFrom_cons]
  · rw [redirectFrom_of_fresh harray (fresh_some hc t)]
  · rw [opening?_of_not_isWord harray hc]
    rfl

theorem redirectAccess_append
    (harray : IsIdentifier array) (hs : ∀ c ∈ s, ¬ isWord c) (t : Text) :
  redirectAccess array (s ++ t) = s ++ redirectAccess array t
  := by
  induction s with
  | nil => rfl
  | cons c s ih =>
    obtain ⟨hc, hs⟩ := List.forall_mem_cons.mp hs
    rw [List.cons_append, redirectAccess_cons harray hc, ih hs, List.cons_append]

/-- An identifier stays if it does not start an access. -/
theorem redirectAccess_identifier
    (harray : IsIdentifier array) (hw : IsIdentifier w) (ht : ∀ c ∈ t.head?, ¬ isWord c)
    (h : (opening? array none (w ++ t)).bind closing? = none) :
  redirectAccess array (w ++ t) = w ++ redirectAccess array t
  := by
  have hinside : ∀ {s : Text} {c : Char}, isWord c → (∀ d ∈ s, isWord d) →
      redirectFrom array (some c) (s ++ t) = s ++ redirectAccess array t := by
    intro s c hc hs
    induction s generalizing c with
    | nil =>
      rw [List.nil_append, redirectFrom_of_fresh harray (Or.inr ht)]
      rfl
    | cons d s ih =>
      obtain ⟨hd, hs⟩ := List.forall_mem_cons.mp hs
      rw [List.cons_append, redirectFrom_cons, ih hd hs, List.cons_append]
      rw [opening?_of_isWord harray hc]
      rfl
  obtain ⟨c, s, rfl⟩ := List.exists_cons_of_ne_nil hw.1
  obtain ⟨hc, hs⟩ := List.forall_mem_cons.mp hw.2
  rw [List.cons_append] at h ⊢
  rw [redirectAccess_eq, redirectFrom_cons h, hinside hc hs, List.cons_append]

/-- The parts of an access, up to the closing bracket and from it on. -/
theorem access_assoc (array gap index t : Text) :
  array ++ (gap ++ '[' :: (index ++ ']' :: t)) = (array ++ (gap ++ '[' :: index)) ++ ']' :: t
  := by
  simp

/-- An access to an element of the array goes to the field. -/
theorem redirectAccess_access
    (harray : IsIdentifier array) (hgap : ∀ c ∈ gap, isBlank c)
    (hindex : ∀ c ∈ index, c ≠ ']' ∧ c ≠ '\n') (t : Text) :
  redirectAccess array (array ++ (gap ++ '[' :: (index ++ ']' :: t)))
    = array ++ ("[" ++ (index ++ ("].el" ++ redirectAccess array t)))
  := by
  have hopening : opening? array none (array ++ (gap ++ '[' :: (index ++ ']' :: t)))
      = some (index ++ ']' :: t) := by
    rw [opening?_eq_some_iff harray]
    refine ⟨?_, gap, hgap, rfl⟩
    rintro c ⟨⟩
  rw [access_assoc] at hopening ⊢
  have hfound : (opening? array none (array ++ (gap ++ '[' :: index) ++ ']' :: t)).bind closing?
      = some (index, t) := by
    rw [hopening]
    apply closing?_eq_some_iff.mpr ⟨rfl, hindex⟩
  rw [redirectAccess_eq, redirectFrom_access hfound,
    redirectFrom_of_fresh harray (fresh_some (by decide) t)]
  simp only [List.append_assoc]

/-- A text without opening brackets stays, up to a character that separates it from what
follows. -/
theorem redirectAccess_of_not_mem
    (harray : IsIdentifier array) (hs : '[' ∉ s) (hword : ¬ isWord d) (hblank : ¬ isBlank d)
    (hd : d ≠ '[') (t : Text) :
  redirectAccess array (s ++ d :: t) = s ++ d :: redirectAccess array t
  := by
  have hfrom : ∀ before, redirectFrom array before (s ++ d :: t)
      = s ++ d :: redirectAccess array t := by
    intro before
    induction s generalizing before with
    | nil =>
      rw [List.nil_append, redirectFrom_of_fresh harray, redirectAccess_cons harray hword]
      · rfl
      · right
        rintro _ ⟨⟩
        exact hword
    | cons c s ih =>
      have hnone : opening? array before (c :: s ++ d :: t) = none :=
        opening?_of_not_mem harray hs hword hblank hd
      rw [List.mem_cons, not_or] at hs
      rw [List.cons_append] at hnone ⊢
      rw [redirectFrom_cons, ih hs.2, List.cons_append]
      rw [hnone]
      rfl
  apply hfrom

/-- An access to an element of another array stays. -/
theorem redirectAccess_other
    (harray : IsIdentifier array) (hw : IsIdentifier w) (hne : array ≠ w)
    (hgap : ∀ c ∈ gap, isBlank c) (hindex : '[' ∉ index) (t : Text) :
  redirectAccess array (w ++ (gap ++ '[' :: (index ++ ']' :: t)))
    = w ++ (gap ++ '[' :: (index ++ ']' :: redirectAccess array t))
  := by
  have hhead : ∀ c ∈ (gap ++ '[' :: (index ++ ']' :: t)).head?, ¬ isWord c := by
    intro c hc
    cases gap with
    | nil =>
      obtain rfl := Option.some.inj hc
      decide
    | cons d gap =>
      obtain rfl := Option.some.inj hc
      exact Text.not_isWord_of_isBlank (hgap d List.mem_cons_self)
  rw [redirectAccess_identifier harray hw hhead,
    redirectAccess_append harray fun c hc => Text.not_isWord_of_isBlank (hgap c hc),
    redirectAccess_cons harray (by decide),
    redirectAccess_of_not_mem harray hindex (by decide) (by decide) (by decide)]
  apply Option.bind_eq_none_iff.mpr
  intro r hr
  exact absurd (opening?_identifier harray hw hhead hr).1 hne

end Pass

end LeftOver

end ShaderPair
