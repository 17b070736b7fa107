import ShaderPair.Text.Basic
import Mathlib.Data.List.Infix
import Mathlib.Tactic.Ring

/-!
# What an exchange changes

An exchange of a word for a text changes the length of a text by the difference of their lengths,
once for each place at which the word is found (`Text.exists_length_replaceAfter`).  A text stays as
it is exactly if the word does not occur in it or is exchanged for itself
(`Text.replace_eq_self_iff`).  The characters of the result come from the text and from what is put
in (`Text.mem_of_mem_replace`).
-/

namespace ShaderPair

namespace Text

variable {k v t : Text}

/-! ### Occurrences -/

/-- Passing over the rest of an occurrence. -/
theorem replaceAfter_append (k v s t : Text) :
  replaceAfter k v s.length (s ++ t) = replaceAfter k v 0 t
  := by
  induction s with
  | nil => rfl
  | cons c s ih => rw [List.length_cons, List.cons_append, replaceAfter, ih]

theorem replaceAfter_self (hk : k ≠ []) (v t : Text) :
  replaceAfter k v 0 (k ++ t) = v ++ replaceAfter k v 0 t
  := by
  cases k with
  | nil => exact absurd rfl hk
  | cons c k =>
    have hstart : (c :: k).isPrefixOf (c :: (k ++ t)) := by simp
    rw [List.cons_append, replaceAfter, if_pos hstart, List.length_cons, Nat.add_sub_cancel,
      replaceAfter_append]

/-- An exchange goes on character by character or occurrence by occurrence. -/
@[elab_as_elim]
theorem replaceAfter_induction
    {motive : Text → Text → Prop} (hk : k ≠ []) (v : Text)
    (nil : motive [] [])
    (cons : ∀ c t r, motive t r → motive (c :: t) (c :: r))
    (word : ∀ t r, motive t r → motive (k ++ t) (v ++ r))
    (t : Text) :
  motive t (replaceAfter k v 0 t)
  := by
  induction hn : t.length using Nat.strong_induction_on generalizing t with
  | _ n ih =>
    subst hn
    by_cases hstarts : k <+: t
    · obtain ⟨t, rfl⟩ := hstarts
      rw [replaceAfter_self hk]
      apply word
      apply ih _ _ _ rfl
      have hpos := List.length_pos_iff.mpr hk
      rw [List.length_append]
      omega
    · cases t with
      | nil => exact nil
      | cons c t =>
        rw [replaceAfter, if_neg (by rwa [List.isPrefixOf_iff_prefix])]
        apply cons
        apply ih _ _ _ rfl
        rw [List.length_cons]
        omega

/-- The word itself is exchanged as a whole. -/
theorem replace_self (k v : Text) :
  replace k v k = v
  := by
  rw [replace]
  split
  next hempty =>
    rw [List.isEmpty_iff.mp hempty]
    rfl
  next hne =>
    have hself := replaceAfter_self (by simpa using hne) v []
    rw [List.append_nil, replaceAfter, List.append_nil] at hself
    exact hself

/-! ### Lengths -/

theorem length_interleave (v t : Text) :
  (interleave v t).length = t.length + (t.length + 1) * v.length
  := by
  induction t with
  | nil => simp [interleave]
  | cons c t ih =>
    rw [interleave, List.length_append, List.length_cons, ih, List.length_cons]
    ring

/-- From inside an occurrence on, the word is found some times, at least once if it occurs. -/
theorem exists_length_replaceAfter (hk : k ≠ []) (v : Text) {skip : Nat} (hskip : skip ≤ t.length) :
  ∃ found, (replaceAfter k v skip t).length + skip + found * k.length
      = t.length + found * v.length ∧
    (k <:+: t.drop skip → 0 < found)
  := by
  induction t generalizing skip with
  | nil =>
    obtain rfl := Nat.le_zero.mp hskip
    refine ⟨0, by simp [replaceAfter], fun h => ?_⟩
    exact absurd (List.infix_nil.mp h) hk
  | cons c t ih =>
    cases skip with
    | succ skip =>
      rw [List.length_cons] at hskip
      obtain ⟨found, hlength, hpos⟩ := ih (Nat.le_of_succ_le_succ hskip)
      refine ⟨found, ?_, hpos⟩
      rw [replaceAfter, List.length_cons]
      omega
    | zero =>
      rw [replaceAfter, List.drop_zero]
      split
      next hstarts =>
        have hle := (List.isPrefixOf_iff_prefix.mp hstarts).length_le
        rw [List.length_cons] at hle
        have hskipped : k.length - 1 ≤ t.length := by omega
        obtain ⟨found, hlength, -⟩ := ih hskipped
        refine ⟨found + 1, ?_, fun _ => Nat.succ_pos found⟩
        have hone := List.length_pos_iff.mpr hk
        rw [List.length_append, List.length_cons, Nat.succ_mul, Nat.succ_mul]
        omega
      next hstarts =>
        obtain ⟨found, hlength, hpos⟩ := ih (Nat.zero_le _)
        refine ⟨found, ?_, fun hoccurs => ?_⟩
        · rw [List.length_cons, List.length_cons]
          omega
        · rcases List.infix_cons_iff.mp hoccurs with hprefix | hoccurs
          · exact absurd (List.isPrefixOf_iff_prefix.mpr hprefix) hstarts
          · exact hpos hoccurs

theorem exists_length_replace (hk : k ≠ []) (v t : Text) :
  ∃ found, (replace k v t).length + found * k.length = t.length + found * v.length ∧
    (k <:+: t → 0 < found)
  := by
  obtain ⟨found, hlength, hpos⟩ := exists_length_replaceAfter hk v (Nat.zero_le t.length)
  refine ⟨found, ?_, hpos⟩
  rw [replace, if_neg (by simpa using hk)]
  exact hlength

/-- Exchanging a word that occurs for a longer one makes a text longer. -/
theorem length_lt_replace (hk : k ≠ []) (hv : k.length < v.length) (h : k <:+: t) :
  t.length < (replace k v t).length
  := by
  obtain ⟨found, hlength, hpos⟩ := exists_length_replace hk v t
  have hlt := Nat.mul_lt_mul_of_pos_left hv (hpos h)
  omega

/-! ### Texts that stay -/

theorem replaceAfter_of_not_infix (h : ¬ k <:+: t) (v : Text) :
  replaceAfter k v 0 t = t
  := by
  induction t with
  | nil => rfl
  | cons c t ih =>
    rw [List.infix_cons_iff, not_or] at h
    rw [replaceAfter, if_neg (by simpa [List.isPrefixOf_iff_prefix] using h.1), ih h.2]

/-- Nothing happens if a word is exchanged for itself. -/
theorem replaceAfter_same (hk : k ≠ []) (skip : Nat) (t : Text) :
  replaceAfter k k skip t = t.drop skip
  := by
  induction t generalizing skip with
  | nil => simp [replaceAfter]
  | cons c t ih =>
    cases skip with
    | succ skip =>
      rw [replaceAfter, ih, List.drop_succ_cons]
    | zero =>
      rw [replaceAfter]
      split
      next hstarts =>
        obtain ⟨s, hs⟩ := List.isPrefixOf_iff_prefix.mp hstarts
        obtain ⟨d, k, rfl⟩ := List.exists_cons_of_ne_nil hk
        obtain ⟨rfl, rfl⟩ := List.cons.inj hs
        have hdrop : (k ++ s).drop k.length = s := List.drop_left
        rw [ih, List.length_cons, Nat.add_sub_cancel]
        exact congrArg (d :: k ++ ·) hdrop
      next => rw [ih, List.drop_zero, List.drop_zero]

/-- If an exchange for a text of the same length changes nothing, it puts in the word itself. -/
theorem eq_of_replaceAfter_eq_self
    (hlength : v.length = k.length) (hk : k ≠ []) (h : replaceAfter k v 0 t = t)
    (hoccurs : k <:+: t) :
  v = k
  := by
  induction t with
  | nil => exact absurd (List.infix_nil.mp hoccurs) hk
  | cons c t ih =>
    rw [replaceAfter] at h
    split at h
    next hstarts =>
      obtain ⟨s, hs⟩ := List.isPrefixOf_iff_prefix.mp hstarts
      rw [← hs] at h
      apply (List.append_inj h hlength).1
    next hstarts =>
      rcases List.infix_cons_iff.mp hoccurs with hprefix | hoccurs
      · exact absurd (List.isPrefixOf_iff_prefix.mpr hprefix) hstarts
      · apply ih (List.cons.inj h).2 hoccurs

/-- An exchange keeps a text exactly if the word does not occur in it or stands for itself. -/
theorem replace_eq_self_iff :
  replace k v t = t ↔ (k <:+: t → v = k)
  := by
  by_cases hk : k = []
  · subst hk
    rw [replace, if_pos List.isEmpty_nil, forall_prop_of_true (List.nil_infix)]
    constructor
    · intro h
      have hlength := congrArg List.length h
      rw [length_interleave, Nat.add_eq_left, Nat.mul_eq_zero] at hlength
      simpa using hlength
    · rintro rfl
      induction t with
      | nil => rfl
      | cons c t ih => rw [interleave, ih, List.nil_append]
  · constructor
    · intro h hoccurs
      obtain ⟨found, hlength, hpos⟩ := exists_length_replace hk v t
      rw [h, Nat.add_left_cancel_iff] at hlength
      rw [replace, if_neg (by simpa using hk)] at h
      apply eq_of_replaceAfter_eq_self _ hk h hoccurs
      exact (Nat.eq_of_mul_eq_mul_left (hpos hoccurs) hlength).symm
    · intro h
      rw [replace, if_neg (by simpa using hk)]
      by_cases hoccurs : k <:+: t
      · rw [h hoccurs, replaceAfter_same hk, List.drop_zero]
      · apply replaceAfter_of_not_infix hoccurs

/-! ### Characters -/

theorem mem_of_mem_replaceAfter {c : Char} {skip : Nat} (h : c ∈ replaceAfter k v skip t) :
  c ∈ t ∨ c ∈ v
  := by
  induction t generalizing skip with
  | nil => simp [replaceAfter] at h
  | cons d t ih =>
    cases skip with
    | succ skip => exact (ih h).imp_left (List.mem_cons_of_mem d)
    | zero =>
      rw [replaceAfter] at h
      split at h
      · rcases List.mem_append.mp h with h | h
        · right; exact h
        · exact (ih h).imp_left (List.mem_cons_of_mem d)
      · rcases List.mem_cons.mp h with rfl | h
        · left; exact List.mem_cons_self
        · exact (ih h).imp_left (List.mem_cons_of_mem d)

/-- The characters of a text after an exchange were there or are put in. -/
theorem mem_of_mem_replace {c : Char} (h : c ∈ replace k v t) :
  c ∈ t ∨ c ∈ v
  := by
  rw [replace] at h
  split at h
  · induction t with
    | nil => right; exact h
    | cons d t ih =>
      rw [interleave, List.mem_append, List.mem_cons] at h
      rcases h with h | rfl | h
      · right; exact h
      · left; exact List.mem_cons_self
      · exact (ih h).imp_left (List.mem_cons_of_mem d)
  · apply mem_of_mem_replaceAfter h

end Text

end ShaderPair
