import ShaderPair.Proofs.AccessPass

/-!
# Redirection of shallow accesses

The passes that redirect the accesses to strided arrays go over the text one after the other, and
each sees what the ones before it have left.  This is right for accesses that are shallow
(`LeftOver.Shallow`): the index stays on one line and has no brackets in it, and what follows
cannot be mixed up with the field.  `LeftOver.Rendered` says how far the passes for some of the
arrays have come with a text of shallow accesses; one pass takes it one array further
(`LeftOver.Rendered.redirectAccess`), and with all arrays done the text is redirected
(`LeftOver.redirects_redirectAccesses`).  An index with brackets in it is closed too early
(`LeftOver.not_redirects_nested`), and one with a line break is not found: an access on its own
is redirected only if it is shallow (`LeftOver.redirects_access_iff`).
-/

namespace ShaderPair

namespace LeftOver

open Text (IsIdentifier isBlank isWord)

/-! ### Shallow accesses -/

/-- The name of the field. -/
def fieldName : Text := "el"

theorem isIdentifier_fieldName :
  IsIdentifier fieldName
  := by
  decide +kernel

/-- The access to the field of an element, part by part. -/
theorem redirected_eq (name index rest : Text) :
  (name ++ ("[" ++ (index ++ ("].el" ++ rest))) : Text)
    = name ++ ([] ++ '[' :: (index ++ ']' :: '.' :: (fieldName ++ rest)))
  := by
  rw [text_opening, text_field, fieldName, Text.ofString_eq]
  rfl

/-- What follows an access is not mixed up with the field: it does not prolong the name, and it
does not open the field if there is an array of this name. -/
def Detached (arrays : List Text) (rest : Text) : Prop :=
  (∀ c ∈ rest.head?, ¬ isWord c) ∧
    (fieldName ∈ arrays → (rest.dropWhile isBlank).head? ≠ some '[')

instance (arrays : List Text) (rest : Text) : Decidable (Detached arrays rest) :=
  -- Only the first character is looked at, not all characters there are.
  have : Decidable (∀ c ∈ rest.head?, ¬ isWord c) := Option.decidableForallMem rest.head?
  inferInstanceAs (Decidable (_ ∧ _))

/-- Behind an opening bracket no bracket is closed at all, or the next one is closed on the line,
with no bracket opened in between, and what follows is detached from it. -/
def ShallowIndex (arrays : List Text) (r : Text) : Prop :=
  ']' ∉ r ∨ ∃ found ∈ closing? r, '[' ∉ found.1 ∧ Detached arrays found.2

instance (arrays : List Text) (r : Text) : Decidable (ShallowIndex arrays r) :=
  inferInstanceAs (Decidable (_ ∨ _))

/-- Wherever an array is opened, a shallow index follows. -/
def Shallow (arrays : List Text) : (before : Option Char) → Text → Prop
  | _, [] => True
  | before, c :: t =>
    (∀ array ∈ arrays, ∀ r ∈ opening? array before (c :: t), ShallowIndex arrays r)
      ∧ Shallow arrays (some c) t

/-- `Shallow` is decided along the text. -/
def decidableShallow (arrays : List Text) :
    (before : Option Char) → (t : Text) → Decidable (Shallow arrays before t)
  | _, [] => isTrue trivial
  | _, c :: t =>
    have := decidableShallow arrays (some c) t
    inferInstanceAs (Decidable (_ ∧ _))

instance (arrays : List Text) (before : Option Char) (t : Text) :
    Decidable (Shallow arrays before t) :=
  decidableShallow arrays before t

section Shallow

variable {arrays : List Text} {before : Option Char} {s t r w : Text}

theorem Shallow.suffix (h : Shallow arrays before (s ++ t)) :
  Shallow arrays (s.getLast?.or before) t
  := by
  induction s generalizing before with
  | nil => exact h
  | cons c s ih =>
    have hrest := ih h.2
    cases s with
    | nil => exact hrest
    | cons d s =>
      rw [List.getLast?_eq_some_getLast (List.cons_ne_nil d s)] at hrest
      rw [List.getLast?_cons_cons, List.getLast?_eq_some_getLast (List.cons_ne_nil d s)]
      exact hrest

theorem Shallow.shallowIndex (h : Shallow arrays before t) (hw : w ∈ arrays)
    (hopening : opening? w before t = some r) :
  ShallowIndex arrays r
  := by
  cases t with
  | nil =>
    rw [opening?] at hopening
    split at hopening
    · simp at hopening
    · cases hopening
  | cons c t => exact h.1 w hw r hopening

end Shallow

/-- An access whose index stays on one line and has no brackets in it, with the blanks between the
name and the opening bracket. -/
structure ShallowAccess (arrays : List Text) (name gap index rest : Text) : Prop where
  /-- The array is one of them. -/
  mem : name ∈ arrays
  /-- Between the name and the opening bracket there are blanks. -/
  blank : ∀ c ∈ gap, isBlank c
  /-- The index has no brackets in it and stays on one line. -/
  flat : ∀ c ∈ index, c ≠ '[' ∧ c ≠ ']' ∧ c ≠ '\n'
  /-- What follows is not mixed up with the field. -/
  detached : Detached arrays rest

/-! ### Texts with some arrays done -/

/-- The second text is the first one, in which all accesses are shallow, with the accesses to the
arrays in `done` redirected. -/
inductive Rendered (arrays done : List Text) : Text → Text → Prop
  | nil : Rendered arrays done [] []
  | other {c : Char} {t u : Text} :
    ¬ isWord c → Rendered arrays done t u → Rendered arrays done (c :: t) (c :: u)
  | identifier {w t u : Text} :
    IsIdentifier w → (∀ c ∈ t.head?, ¬ isWord c) →
      (w ∈ arrays → (t.dropWhile isBlank).head? = some '[' → ']' ∉ t) →
      Rendered arrays done t u → Rendered arrays done (w ++ t) (w ++ u)
  | kept {name gap index rest rest' : Text} :
    ShallowAccess arrays name gap index rest → name ∉ done → Rendered arrays done rest rest' →
      Rendered arrays done (name ++ (gap ++ '[' :: (index ++ ']' :: rest)))
        (name ++ (gap ++ '[' :: (index ++ ']' :: rest')))
  | redirected {name gap index rest rest' : Text} :
    ShallowAccess arrays name gap index rest → name ∈ done → Rendered arrays done rest rest' →
      Rendered arrays done (name ++ (gap ++ '[' :: (index ++ ']' :: rest)))
        (name ++ ("[" ++ (index ++ ("].el" ++ rest'))))

section Rendered

variable {arrays done : List Text} {before : Option Char} {t u : Text}

theorem Rendered.head?_eq (h : Rendered arrays done t u)
    (harrays : ∀ a ∈ arrays, IsIdentifier a) :
  u.head? = t.head?
  := by
  cases h with
  | nil => rfl
  | other => rfl
  | identifier hw =>
    obtain ⟨c, w, rfl⟩ := List.exists_cons_of_ne_nil hw.1
    rfl
  | kept haccess =>
    obtain ⟨c, w, rfl⟩ := List.exists_cons_of_ne_nil (harrays _ haccess.mem).1
    rfl
  | redirected haccess =>
    obtain ⟨c, w, rfl⟩ := List.exists_cons_of_ne_nil (harrays _ haccess.mem).1
    rfl

theorem head?_dropWhile_identifier {w : Text} (hw : IsIdentifier w) (t : Text) :
  ((w ++ t).dropWhile isBlank).head? = w.head?
  := by
  obtain ⟨c, w, rfl⟩ := List.exists_cons_of_ne_nil hw.1
  have hc : isBlank c = false := by
    by_contra hblank
    exact Text.not_isWord_of_isBlank (by simpa using hblank) (hw.2 c List.mem_cons_self)
  simp [hc]

/-- Up to the first character that is not blank, nothing changes. -/
theorem Rendered.head?_dropWhile_eq (h : Rendered arrays done t u)
    (harrays : ∀ a ∈ arrays, IsIdentifier a) :
  (u.dropWhile isBlank).head? = (t.dropWhile isBlank).head?
  := by
  induction h with
  | nil => rfl
  | @other c t u _ _ ih =>
    by_cases hblank : isBlank c = true
    · simp [hblank, ih]
    · simp [hblank]
  | identifier hw => rw [head?_dropWhile_identifier hw, head?_dropWhile_identifier hw]
  | kept haccess =>
    have hname := harrays _ haccess.mem
    rw [head?_dropWhile_identifier hname, head?_dropWhile_identifier hname]
  | redirected haccess =>
    have hname := harrays _ haccess.mem
    rw [head?_dropWhile_identifier hname, head?_dropWhile_identifier hname]

/-- Where no bracket is closed there is nothing to redirect. -/
theorem Rendered.eq_of_not_mem (h : Rendered arrays done t u) (ht : ']' ∉ t) :
  u = t
  := by
  induction h with
  | nil => rfl
  | other _ _ ih =>
    rw [List.mem_cons, not_or] at ht
    rw [ih ht.2]
  | identifier _ _ _ _ ih =>
    rw [List.mem_append, not_or] at ht
    rw [ih ht.2]
  | kept => simp at ht
  | redirected => simp at ht

/-- An identifier at the start of a text of shallow accesses starts a shallow access, or the array
is not opened there, or no bracket is closed. -/
theorem Shallow.identifier
    {w : Text} (hw : IsIdentifier w) (h : Shallow arrays before (w ++ t))
    (hbefore : ∀ c ∈ before, ¬ isWord c) :
  (w ∈ arrays → (t.dropWhile isBlank).head? = some '[' → ']' ∉ t) ∨
    ∃ gap index rest, t = gap ++ '[' :: (index ++ ']' :: rest)
      ∧ ShallowAccess arrays w gap index rest
  := by
  by_contra hneither
  rw [not_or] at hneither
  obtain ⟨hopened, hnone⟩ := hneither
  simp only [Classical.not_imp, not_not] at hopened
  obtain ⟨hmem, hhead, hclosed⟩ := hopened
  -- The text behind the identifier: the blanks, the opening bracket and the rest.
  obtain ⟨gap, r, hgap, rfl⟩ : ∃ gap r, (∀ c ∈ gap, isBlank c) ∧ t = gap ++ '[' :: r := by
    obtain ⟨r, hr⟩ := List.head?_eq_some_iff.mp hhead
    use t.takeWhile isBlank, r
    use fun c hc => List.mem_takeWhile_imp hc
    rw [← hr, List.takeWhile_append_dropWhile]
  have hopening : opening? w before (w ++ (gap ++ '[' :: r)) = some r :=
    (opening?_eq_some_iff hw).mpr ⟨hbefore, gap, hgap, rfl⟩
  rcases h.shallowIndex hmem hopening with hnotMem | ⟨⟨index, rest⟩, hfound, hflat, hdetached⟩
  · rcases List.mem_append.mp hclosed with hclosed | hclosed
    · have hblank := hgap _ hclosed
      revert hblank
      decide
    · rcases List.mem_cons.mp hclosed with hclosed | hclosed
      · cases hclosed
      · exact hnotMem hclosed
  · obtain ⟨rfl, hclean⟩ := closing?_eq_some_iff.mp hfound
    refine hnone ⟨gap, index, rest, rfl, hmem, hgap, ?_, hdetached⟩
    intro c hc
    refine ⟨?_, hclean c hc⟩
    rintro rfl
    exact hflat hc

/-- At first nothing is redirected. -/
theorem Shallow.rendered (h : Shallow arrays before t) (hfresh : Fresh before t) :
  Rendered arrays [] t t
  := by
  induction hn : t.length using Nat.strong_induction_on generalizing before t with
  | _ n ih =>
    subst hn
    cases t with
    | nil => exact Rendered.nil
    | cons c t =>
      by_cases hc : isWord c = true
      · have hbefore : ∀ d ∈ before, ¬ isWord d := by
          rcases hfresh with hfresh | hfresh
          · exact hfresh
          · exact absurd hc (hfresh c rfl)
        obtain ⟨w, s, hw, hs, heq⟩ := Text.exists_identifier hc t
        rw [heq] at h ih ⊢
        rcases h.identifier hw hbefore with hnone | ⟨gap, index, rest, rfl, haccess⟩
        · apply Rendered.identifier hw hs hnone
          apply ih s.length _ h.suffix (Or.inr hs) rfl
          rw [List.length_append]
          exact Nat.lt_add_of_pos_left (List.length_pos_of_ne_nil hw.1)
        · apply Rendered.kept haccess List.not_mem_nil
          rw [access_assoc, List.append_cons] at h
          apply ih rest.length _ h.suffix (Or.inr haccess.detached.1) rfl
          simp only [List.length_append, List.length_cons]
          omega
      · apply Rendered.other hc
        exact ih t.length (Nat.lt_succ_self _) h.2 (fresh_some hc t) rfl

/-- A pass leaves an identifier alone if it is not opened, or if no bracket is closed behind it. -/
theorem Rendered.redirectAccess_identifier
    (harrays : ∀ a ∈ arrays, IsIdentifier a) {array : Text} (hmem : array ∈ arrays)
    (h : Rendered arrays done t u) {w : Text} (hw : IsIdentifier w)
    (ht : ∀ c ∈ t.head?, ¬ isWord c)
    (hopened : w ∈ arrays → (t.dropWhile isBlank).head? = some '[' → ']' ∉ t) :
  LeftOver.redirectAccess array (w ++ u) = w ++ LeftOver.redirectAccess array u
  := by
  have hu : ∀ c ∈ u.head?, ¬ isWord c := by
    rw [h.head?_eq harrays]
    exact ht
  apply LeftOver.redirectAccess_identifier (harrays array hmem) hw hu
  apply Option.bind_eq_none_iff.mpr
  intro r hr
  obtain ⟨rfl, hdrop⟩ := opening?_identifier (harrays array hmem) hw hu hr
  have hclosed : ']' ∉ t := by
    apply hopened hmem
    rw [← h.head?_dropWhile_eq harrays, hdrop]
    rfl
  apply closing?_eq_none
  intro hclosing
  apply hclosed
  rw [← h.eq_of_not_mem hclosed]
  apply (List.dropWhile_suffix _).subset
  rw [hdrop]
  exact List.mem_cons_of_mem _ hclosing

/-- A pass for one more array redirects the accesses to it, and leaves the rest alone. -/
theorem Rendered.redirectAccess
    (harrays : ∀ a ∈ arrays, IsIdentifier a) {array : Text} (hmem : array ∈ arrays)
    (hdone : array ∉ done) (h : Rendered arrays done t u) :
  Rendered arrays (array :: done) t (LeftOver.redirectAccess array u)
  := by
  have harray := harrays array hmem
  induction h with
  | nil => exact Rendered.nil
  | other hc _ ih =>
    rw [redirectAccess_cons harray hc]
    exact Rendered.other hc ih
  | identifier hw ht hopened h ih =>
    rw [h.redirectAccess_identifier harrays hmem hw ht hopened]
    exact Rendered.identifier hw ht hopened ih
  | @kept name gap index rest rest' haccess hname h ih =>
    by_cases heq : name = array
    · subst heq
      rw [redirectAccess_access harray haccess.blank fun c hc => (haccess.flat c hc).2]
      exact Rendered.redirected haccess List.mem_cons_self ih
    · rw [redirectAccess_other harray (harrays name haccess.mem) (Ne.symm heq) haccess.blank
        fun hc => (haccess.flat _ hc).1 rfl]
      apply Rendered.kept haccess _ ih
      simp [heq, hname]
  | @redirected name gap index rest rest' haccess hname h ih =>
    have hne : array ≠ name := by
      rintro rfl
      exact hdone hname
    -- The field is not taken for an array that is opened behind the access.
    have hfield := h.redirectAccess_identifier harrays hmem isIdentifier_fieldName
      haccess.detached.1 fun hel hopened => absurd hopened (haccess.detached.2 hel)
    rw [redirected_eq, redirectAccess_other harray (harrays name haccess.mem) hne
      (List.forall_mem_nil _) fun hc => (haccess.flat _ hc).1 rfl,
      redirectAccess_cons harray (by decide), hfield, ← redirected_eq]
    exact Rendered.redirected haccess (List.mem_cons_of_mem _ hname) ih

/-- The passes for some more arrays, one after the other. -/
theorem Rendered.redirectAccesses
    (harrays : ∀ a ∈ arrays, IsIdentifier a) {more : List Text} (hmore : more ⊆ arrays)
    (hnodup : more.Nodup) (hdone : more.Disjoint done) (h : Rendered arrays done t u) :
  Rendered arrays (more.reverse ++ done) t (LeftOver.redirectAccesses more u)
  := by
  induction more generalizing done u with
  | nil => exact h
  | cons array more ih =>
    obtain ⟨hmem, hmore⟩ := List.cons_subset.mp hmore
    obtain ⟨hnew, hnodup⟩ := List.nodup_cons.mp hnodup
    obtain ⟨hnot, hdone⟩ := List.disjoint_cons_left.mp hdone
    rw [List.reverse_cons, List.append_assoc, List.singleton_append]
    apply ih hmore hnodup (List.disjoint_cons_right.mpr ⟨hnew, hdone⟩)
    exact h.redirectAccess harrays hmem hnot

/-- A text in which no array is opened is redirected to itself. -/
theorem redirects_of_not_mem (harrays : ∀ a ∈ arrays, IsIdentifier a) (ht : '[' ∉ t) :
  Redirects arrays before t t
  := by
  induction t generalizing before with
  | nil => exact Redirects.nil before
  | cons c t ih =>
    apply Redirects.other
    · apply not_isAccess
      intro array harray
      apply Option.eq_none_iff_forall_not_mem.mpr
      intro r hr
      obtain ⟨-, gap, -, heq⟩ := (opening?_eq_some_iff (harrays _ harray)).mp hr
      apply ht
      rw [heq]
      simp
    · rw [List.mem_cons, not_or] at ht
      apply ih ht.2

/-- Inside an identifier no access starts. -/
theorem redirects_append
    (harrays : ∀ a ∈ arrays, IsIdentifier a) {c : Char} (hc : isWord c) {w : Text}
    (hw : ∀ d ∈ w, isWord d) (h : ∀ d, isWord d → Redirects arrays (some d) t u) :
  Redirects arrays (some c) (w ++ t) (w ++ u)
  := by
  induction w generalizing c with
  | nil => exact h c hc
  | cons d w ih =>
    obtain ⟨hd, hw⟩ := List.forall_mem_cons.mp hw
    apply Redirects.other _ (ih hd hw)
    apply not_isAccess
    intro array harray
    exact opening?_of_isWord (harrays _ harray) hc

/-- With all arrays done, a text is redirected. -/
theorem Rendered.redirects
    (harrays : ∀ a ∈ arrays, IsIdentifier a) (hall : arrays ⊆ done)
    (h : Rendered arrays done t u) (hfresh : Fresh before t) :
  Redirects arrays before t u
  := by
  induction h generalizing before with
  | nil => exact Redirects.nil before
  | other hc _ ih =>
    apply Redirects.other
    · apply not_isAccess
      intro array harray
      exact opening?_of_not_isWord (harrays _ harray) hc
    · apply ih (fresh_some hc _)
  | @identifier w t u hw ht hopened _ ih =>
    have hnone : ∀ name index rest, ¬ IsAccess arrays before (w ++ t) name index rest := by
      intro name index rest haccess
      obtain ⟨rfl, hdrop⟩ :=
        opening?_identifier (harrays _ haccess.mem) hw ht haccess.opening?_eq
      apply hopened haccess.mem (by rw [hdrop]; rfl)
      apply (List.dropWhile_suffix _).subset
      rw [hdrop]
      simp
    obtain ⟨c, w, rfl⟩ := List.exists_cons_of_ne_nil hw.1
    obtain ⟨hc, hw⟩ := List.forall_mem_cons.mp hw.2
    apply Redirects.other hnone
    apply redirects_append harrays hc hw
    intro d _
    exact ih (Or.inr ht)
  | kept haccess hname => exact absurd (hall haccess.mem) hname
  | @redirected name gap index rest rest' haccess _ _ ih =>
    have hname := harrays _ haccess.mem
    have hbefore : ∀ c ∈ before, ¬ isWord c := by
      rcases hfresh with hfresh | hfresh
      · exact hfresh
      · obtain ⟨c, w, rfl⟩ := List.exists_cons_of_ne_nil hname.1
        exact absurd (hname.2 c List.mem_cons_self) (hfresh c rfl)
    apply Redirects.access
    · constructor
      · exact haccess.mem
      · exact (opening?_eq_some_iff hname).mpr ⟨hbefore, gap, haccess.blank, rfl⟩
      · exact balanced_of_not_mem (fun hc => (haccess.flat _ hc).1 rfl)
          fun hc => (haccess.flat _ hc).2.1 rfl
    · exact redirects_of_not_mem harrays fun hc => (haccess.flat _ hc).1 rfl
    · apply ih (fresh_some (by decide) _)

end Rendered

/-! ### One access -/

section Access

variable {array gap index s : Text} {before : Option Char}

/-- If a pass puts something behind a closing bracket at the end, then it has found an access that
this bracket closes. -/
theorem exists_found_of_getLast?
    (harray : IsIdentifier array)
    (h : (redirectFrom array before (s ++ [']'])).getLast? ≠ some ']') :
  ∃ index, '[' :: index <:+ s ∧ ∀ c ∈ index, c ≠ ']' ∧ c ≠ '\n'
  := by
  induction hn : s.length using Nat.strong_induction_on generalizing before s with
  | _ n ih =>
    subst hn
    cases hfound : (opening? array before (s ++ [']'])).bind closing? with
    | none =>
      cases s with
      | nil => exact absurd (by rw [List.nil_append, redirectFrom_cons hfound]; rfl) h
      | cons c s =>
        rw [List.cons_append] at hfound h
        rw [redirectFrom_cons hfound, List.getLast?_cons] at h
        have hlast : (redirectFrom array (some c) (s ++ [']'])).getLast? ≠ some ']' := by
          intro hlast
          rw [hlast] at h
          exact h rfl
        obtain ⟨index, hsuffix, hindex⟩ := ih s.length (Nat.lt_succ_self _) hlast rfl
        use index, hsuffix.trans (List.suffix_cons c s)
    | some found =>
      obtain ⟨r, hopening, hclosing⟩ := Option.bind_eq_some_iff.mp hfound
      obtain ⟨index, rest⟩ := found
      obtain ⟨rfl, hindex⟩ := closing?_eq_some_iff.mp hclosing
      obtain ⟨-, gap, hgap, heq⟩ := (opening?_eq_some_iff harray).mp hopening
      rw [access_assoc] at heq
      rcases List.eq_nil_or_concat' rest with rfl | ⟨rest, c, rfl⟩
      · -- The access reaches to the end.
        obtain ⟨rfl, -⟩ := List.append_inj' heq rfl
        refine ⟨index, ?_, hindex⟩
        rw [← List.append_assoc]
        apply List.suffix_append
      · -- The access ends before.
        rw [← List.cons_append, ← List.append_assoc] at heq
        obtain ⟨rfl, hc⟩ := List.append_inj' heq rfl
        obtain rfl := (List.cons.inj hc).1
        rw [List.append_assoc, List.cons_append] at hfound h
        rw [redirectFrom_access hfound, List.getLast?_append] at h
        have hlast : (redirectFrom array (some ']') (rest ++ [']'])).getLast? ≠ some ']' := by
          intro hlast
          rw [hlast] at h
          exact h rfl
        have hlength : rest.length < (array ++ (gap ++ '[' :: index) ++ ']' :: rest).length := by
          simp only [List.length_append, List.length_cons]
          omega
        obtain ⟨index', hsuffix, hindex'⟩ := ih rest.length hlength hlast rfl
        refine ⟨index', hsuffix.trans ?_, hindex'⟩
        exact (List.suffix_cons ']' rest).trans (List.suffix_append _ _)

/-- An access on its own is redirected if and only if its index has no brackets in it and stays on
one line. -/
theorem redirects_access_iff
    (harray : IsIdentifier array) (hgap : ∀ c ∈ gap, isBlank c) (hindex : Balanced index) :
  Redirects [array] none (array ++ (gap ++ '[' :: (index ++ [']'])))
      (redirectAccess array (array ++ (gap ++ '[' :: (index ++ [']']))))
    ↔ '[' ∉ index ∧ '\n' ∉ index
  := by
  have harrays : ∀ a ∈ [array], IsIdentifier a := by simpa using harray
  have haccess :
      IsAccess [array] none (array ++ (gap ++ '[' :: (index ++ [']']))) array index [] := by
    refine ⟨List.mem_singleton_self array, ?_, hindex⟩
    rw [opening?_eq_some_iff harray]
    refine ⟨?_, gap, hgap, rfl⟩
    rintro _ ⟨⟩
  constructor
  · intro h
    -- The field is put behind the last bracket, so a pass has found an access that ends there.
    obtain ⟨index', hindex'⟩ := exists_redirects harrays (some '[') index
    have heq := h.unique harrays (Redirects.access haccess hindex' (Redirects.nil _))
    have hlast : (redirectFrom array none ((array ++ (gap ++ '[' :: index)) ++ [']'])).getLast?
        ≠ some ']' := by
      rw [← redirectAccess_eq, ← access_assoc, heq, text_field]
      simp
    obtain ⟨found, hsuffix, hfound⟩ := exists_found_of_getLast? harray hlast
    have hclosing : ']' ∉ found := fun hc => (hfound _ hc).1 rfl
    -- That access has the whole index: otherwise its bracket would not be closed in the index.
    have hfull : '[' :: index <:+ array ++ (gap ++ '[' :: index) := by
      rw [← List.append_assoc]
      apply List.suffix_append
    have hinside := hindex.suffix_of_suffix hfull hclosing hsuffix
    constructor
    · intro hopen
      exact hclosing (hinside.subset (hindex.mem_iff.mpr hopen))
    · intro hline
      exact (hfound _ (hinside.subset hline)).2 rfl
  · rintro ⟨hopen, hline⟩
    have hflat : ∀ c ∈ index, c ≠ ']' ∧ c ≠ '\n' := by
      intro c hc
      constructor
      · rintro rfl
        exact hopen (hindex.mem_iff.mp hc)
      · rintro rfl
        exact hline hc
    rw [redirectAccess_access harray hgap hflat]
    exact Redirects.access haccess (redirects_of_not_mem harrays hopen) (Redirects.nil _)

end Access

/-! ### The accesses to all arrays -/

/-- If all accesses to the arrays are shallow, then the passes together redirect the text. -/
theorem redirects_redirectAccesses
    {arrays : List Text} (harrays : ∀ a ∈ arrays, IsIdentifier a) (hnodup : arrays.Nodup)
    {t : Text} (h : Shallow arrays none t) :
  Redirects arrays none t (redirectAccesses arrays t)
  := by
  have hrendered := (h.rendered (fresh_none t)).redirectAccesses harrays
    (List.Subset.refl arrays) hnodup (List.disjoint_nil_right arrays)
  apply hrendered.redirects harrays _ (fresh_none t)
  intro array harray
  apply List.mem_append_left _ (List.mem_reverse.mpr harray)

/-- Two arrays: `ab` is another variable, and the access in the index of `c` stands in no index of
an array. -/
theorem redirects_redirectAccesses_prefix :
  Redirects ["a", "b"] none "a [i + 1] * b[0];\nab[1] + c[b [j]]"
    "a[i + 1].el * b[0].el;\nab[1] + c[b[j].el]"
  := by
  have hcomputed : redirectAccesses ["a", "b"] "a [i + 1] * b[0];\nab[1] + c[b [j]]"
      = "a[i + 1].el * b[0].el;\nab[1] + c[b[j].el]" := by
    decide +kernel
  rw [← hcomputed]
  exact redirects_redirectAccesses (by decide +kernel) (by decide +kernel) (by decide +kernel)

/-- An index with brackets in it is closed at the first of them. -/
theorem not_redirects_nested :
  Redirects ["a"] none "a[b[0]]" "a[b[0]].el" ∧
    redirectAccesses ["a"] "a[b[0]]" = "a[b[0].el]" ∧
    ¬ Redirects ["a"] none "a[b[0]]" (redirectAccesses ["a"] "a[b[0]]")
  := by
  have harrays : ∀ a ∈ ([("a" : Text)] : List Text), IsIdentifier a := by decide +kernel
  have hindex : Redirects ["a"] (some '[') ['b', '[', '0', ']'] ['b', '[', '0', ']'] := by
    iterate 4 apply Redirects.other (not_isAccess (by decide +kernel))
    exact Redirects.nil _
  have hredirected : Redirects ["a"] none "a[b[0]]" "a[b[0]].el" := by
    have haccess : IsAccess ["a"] none "a[b[0]]" "a" ['b', '[', '0', ']'] [] :=
      ⟨by decide +kernel, by decide +kernel, by decide +kernel⟩
    have heq : ("a[b[0]].el" : Text)
        = "a" ++ ("[" ++ (['b', '[', '0', ']'] ++ ("].el" ++ ([] : Text)))) := by
      decide +kernel
    rw [heq]
    exact Redirects.access haccess hindex (Redirects.nil _)
  have hcomputed : redirectAccesses ["a"] "a[b[0]]" = "a[b[0].el]" := by decide +kernel
  refine ⟨hredirected, hcomputed, ?_⟩
  rw [hcomputed]
  intro h
  exact absurd (h.unique harrays hredirected) (by decide +kernel)

end LeftOver

end ShaderPair
