import ShaderPair.Proofs.DirectiveSearch
import Mathlib.Data.List.Sort

/-!
# Defined names

A text replaces the names of its directives that are no switches
(`Define.mem_substitutedNames_iff`), longer names before shorter ones
(`Define.sorted_substitutedNames`).  The value of a name is the rest of a line that defines it,
without the blanks around it (`Define.value?`, `Define.exists_definesLine`).  Only identifiers
have values, and no value holds a line break.
-/

namespace ShaderPair

namespace OrderedMap

variable {κ α : Type} [DecidableEq κ]

/-- A map of listed entries has the value that is listed last. -/
theorem find?_ofList (es : List (κ × α)) (k : κ) :
  (ofList es).find? k = lookup k es.reverse
  := by
  rw [ofList]
  induction es using List.reverseRecOn with
  | nil => rfl
  | append_singleton es e ih =>
    rw [List.foldl_append, List.foldl_cons, List.foldl_nil, List.reverse_append,
      List.reverse_singleton, List.singleton_append, lookup]
    split
    next hk => rw [hk, find?_insert_self]
    next hk => rw [find?_insert_of_ne _ (Ne.symm hk), ih]

/-- A value of a map of listed entries is listed. -/
theorem mem_of_find?_ofList
    {es : List (κ × α)} {k : κ} {a : α} (h : (ofList es).find? k = some a) :
  (k, a) ∈ es
  := by
  rw [find?_ofList] at h
  apply List.mem_reverse.mp (mem_of_lookup h)

/-- Where no key comes twice, a map has the values that are listed. -/
theorem find?_ofList_of_mem
    {es : List (κ × α)} {k : κ} {a : α} (hes : (es.map Prod.fst).Nodup) (h : (k, a) ∈ es) :
  (ofList es).find? k = some a
  := by
  rw [find?_ofList]
  apply lookup_of_mem _ (List.mem_reverse.mpr h)
  rw [List.map_reverse]
  apply List.nodup_reverse.mpr hes

end OrderedMap

namespace Define

open Text (words singles IsIdentifier Bare)

/-! ### Places in lists -/

/-- What is in the first part of a list comes first before what is not. -/
theorem idxOf_lt_of_mem_of_not_mem
    {xs ys : List Text} {x k : Text} (hx : x ∈ xs) (hk : k ∉ xs) :
  (xs ++ ys).idxOf x < (xs ++ ys).idxOf k
  := by
  have hlt := List.idxOf_lt_length_of_mem hx
  rw [List.idxOf_append_of_mem hx, List.idxOf_append_of_notMem hk]
  omega

/-- What stands behind all places of another element comes first behind its own first place. -/
theorem idxOf_lt_idxOf {xs ys : List Text} {x k : Text} (hk : k ∉ xs) (hne : x ≠ k) :
  (xs ++ x :: ys).idxOf x < (xs ++ x :: ys).idxOf k
  := by
  rw [List.append_cons]
  apply idxOf_lt_of_mem_of_not_mem
  · simp
  · simp [hk, hne.symm]

/-- The first elements without a property are the same. -/
theorem eq_of_append_cons_eq
    {P : Text → Prop} {xs ys us vs : List Text} {x y : Text} (hxs : ∀ w ∈ xs, P w)
    (hys : ∀ w ∈ ys, P w) (hx : ¬ P x) (hy : ¬ P y) (h : xs ++ x :: us = ys ++ y :: vs) :
  x = y
  := by
  induction xs generalizing ys with
  | nil =>
    cases ys with
    | nil => exact (List.cons.inj h).1
    | cons w ys =>
      obtain ⟨rfl, -⟩ := List.cons.inj h
      exact absurd (hys x List.mem_cons_self) hx
  | cons z xs ih =>
    cases ys with
    | nil =>
      obtain ⟨rfl, -⟩ := List.cons.inj h
      exact absurd (hxs z List.mem_cons_self) hy
    | cons w ys =>
      apply ih (fun w hw => hxs w (List.mem_cons_of_mem z hw))
        (fun u hu => hys u (List.mem_cons_of_mem w hu)) (List.cons.inj h).2

/-- A key that occurs once has one value. -/
theorem eq_of_count_eq_one
    {es : List (Text × Text)} {k a b : Text} (h : (es.map Prod.fst).count k = 1)
    (ha : (k, a) ∈ es) (hb : (k, b) ∈ es) :
  a = b
  := by
  obtain ⟨xs, ys, rfl⟩ := List.append_of_mem ha
  rw [List.map_append, List.map_cons, List.count_append, List.count_cons_self] at h
  have hnot : ∀ zs : List (Text × Text), (zs.map Prod.fst).count k = 0 → (k, b) ∉ zs := by
    intro zs hzs hmem
    apply List.count_eq_zero.mp hzs
    apply List.mem_map_of_mem (f := Prod.fst) hmem
  rcases List.mem_append.mp hb with hb | hb
  · exact absurd hb (hnot xs (by omega))
  · rcases List.mem_cons.mp hb with heq | hb
    · cases heq
      rfl
    · exact absurd hb (hnot ys (by omega))

/-! ### The names that are replaced -/

theorem sortByLength_eq (names : List Text) :
  sortByLength names = names.insertionSort fun a b => b.length ≤ a.length
  := by
  have hinsert : ∀ n ns, insertByLength n ns
      = List.orderedInsert (fun a b : Text => b.length ≤ a.length) n ns := by
    intro n ns
    induction ns with
    | nil => rfl
    | cons m ms ih => rw [insertByLength, List.orderedInsert, ih]
  induction names with
  | nil => rfl
  | cons n ns ih => rw [sortByLength, List.foldr_cons, ← sortByLength, ih, hinsert]; rfl

theorem perm_substitutedNames (defines : OrderedMap Text Text) :
  (substitutedNames defines).Perm
    ((defines.entries.filter (·.2 != switchValue)).map Prod.fst)
  := by
  rw [substitutedNames, sortByLength_eq]
  apply List.perm_insertionSort

/-- No name is replaced twice. -/
theorem nodup_substitutedNames (defines : OrderedMap Text Text) :
  (substitutedNames defines).Nodup
  := by
  rw [(perm_substitutedNames defines).nodup_iff]
  apply List.Nodup.sublist _ defines.nodup
  apply List.filter_sublist.map

/-- A name was not replaced before its turn. -/
theorem not_mem_done
    {defines : OrderedMap Text Text} {done rest : List Text} {k : Text}
    (h : substitutedNames defines = done ++ k :: rest) :
  k ∉ done
  := by
  have hnodup := h ▸ nodup_substitutedNames defines
  intro hk
  exact (List.nodup_append.mp hnodup).2.2 k hk k List.mem_cons_self rfl

/-- Longer names are replaced before shorter ones. -/
theorem sorted_substitutedNames (defines : OrderedMap Text Text) :
  (substitutedNames defines).Pairwise fun a b => b.length ≤ a.length
  := by
  rw [substitutedNames, sortByLength_eq]
  have : Std.Total fun a b : Text => b.length ≤ a.length := ⟨fun a b => Nat.le_total _ _⟩
  have : IsTrans Text fun a b => b.length ≤ a.length := ⟨fun a b c h h' => h'.trans h⟩
  apply List.pairwise_insertionSort

/-- The names that have values and are no switches are replaced. -/
theorem mem_substitutedNames_iff {defines : OrderedMap Text Text} {n : Text} :
  n ∈ substitutedNames defines ↔ ∃ v, defines.find? n = some v ∧ v ≠ switchValue
  := by
  rw [(perm_substitutedNames defines).mem_iff]
  simp only [List.mem_map, List.mem_filter, bne_iff_ne, Prod.exists, exists_and_right,
    exists_eq_right, OrderedMap.mem_entries_iff]

/-! ### The values of the names -/

/-- The directives of a text, in order. -/
def directives (code : Text) : List (Text × Text) := (Text.lines code).filterMap ofLine?

/-- What stands for a name that is replaced in a text. -/
def replacement? (code name : Text) : Option Text :=
  ((collect code).find? name).filter (· ≠ switchValue)

/-- What stands for a name that is replaced in a text, without the blanks around it. -/
def value? (code name : Text) : Option Text := (replacement? code name).map Text.trim

theorem isSome_value?_iff {code n : Text} :
  (∃ v, value? code n = some v) ↔ n ∈ substitutedNames (collect code)
  := by
  simp [mem_substitutedNames_iff, value?, replacement?, Option.filter_eq_some_iff]

/-- The value of a name that is replaced is that of one of its directives, blanks aside. -/
theorem exists_ofLine? {code n v : Text} (h : value? code n = some v) :
  ∃ x ≠ switchValue, v = Text.trim x ∧ ∃ l ∈ Text.lines code, ofLine? l = some (n, x)
  := by
  obtain ⟨x, hx, rfl⟩ := Option.map_eq_some_iff.mp h
  obtain ⟨hfind, hswitch⟩ := Option.filter_eq_some_iff.mp hx
  use x, by simpa using hswitch, rfl
  apply List.mem_filterMap.mp (OrderedMap.mem_of_find?_ofList hfind)

/-- The value of a name that is replaced is the rest of a line without the blanks around it. -/
theorem exists_definesLine {code n v : Text} (h : value? code n = some v) :
  ∃ rest, ∃ l ∈ Text.lines code, DefinesLine n rest l ∧ v = Text.trim rest
  := by
  obtain ⟨x, hswitch, rfl, l, hl, hline⟩ := exists_ofLine? h
  obtain ⟨rest, hdefines, htrim⟩ := definesLine_of_ofLine? hline
  exact ⟨rest, l, hl, hdefines, htrim hswitch⟩

/-- There are no blanks at the ends of a value. -/
theorem bare_of_value? {code n v : Text} (h : value? code n = some v) :
  Bare v
  := by
  obtain ⟨x, -, rfl⟩ := Option.map_eq_some_iff.mp h
  apply Text.bare_trim

/-- Only identifiers have values. -/
theorem isIdentifier_of_value? {code n v : Text} (h : value? code n = some v) :
  IsIdentifier n
  := by
  obtain ⟨rest, l, -, ⟨_, _, -, -, -, hname, -⟩, -⟩ := exists_definesLine h
  exact hname

/-- No value holds a line break. -/
theorem not_mem_of_value? {code n v : Text} (h : value? code n = some v) :
  '\n' ∉ v
  := by
  obtain ⟨rest, l, hl, ⟨_, _, -, -, -, -, -, rfl⟩, rfl⟩ := exists_definesLine h
  obtain ⟨s, s', -, -, hrest⟩ := Text.exists_trim rest
  intro hmem
  apply Text.not_mem_of_mem_lines hl
  rw [hrest]
  simp [hmem]

/-- The words of the value of a name stand next to each other in the text. -/
theorem words_infix_of_value? {code n v : Text} (h : value? code n = some v) :
  words v <:+: words code
  := by
  obtain ⟨rest, l, hl, hdefines, rfl⟩ := exists_definesLine h
  obtain ⟨indent, g, hindent, hne, hg, hname, hrest, rfl⟩ := hdefines
  obtain ⟨s, s', -, -, -, hwords⟩ := Text.exists_words_trim rest
  apply List.IsInfix.trans _ (Text.words_infix_of_mem_lines hl)
  rw [words_keyword hindent, words_keywordName hne hg hname hrest, hwords]
  use singles indent ++ ['#'] :: keywordName :: (singles g ++ n :: singles s), singles s'
  simp

end Define

end ShaderPair
