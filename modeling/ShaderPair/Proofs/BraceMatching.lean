import ShaderPair.Text.Brace
import Mathlib.Data.Int.Basic
import Mathlib.Data.List.Infix
import Mathlib.Order.Bounds.Basic

/-!
# Matching braces

A search gives the least place, or the greatest one (`Text.indexOf?_eq_some_iff`,
`Text.lastIndexOf?_eq_some_iff`).  The brace that matches an open one is the first place up to which
as many braces are closed as opened (`Brace.closing?_eq_some_iff`), and a balanced text behind the
open brace makes no difference for it (`Brace.Balanced.closing?_append`).  So code at the start and
at the end of the braces behind a word is put in at the brace and at its match, and the rest of the
text stays as it is (`Brace.wrap_places`).
-/

namespace ShaderPair

/-! ### Searches -/

namespace Text

variable {word t : Text} {x : Char} {i : Nat}

/-- What is least behind the first place is least one place further on from it. -/
theorem isLeast_succ_iff {P : Nat → Prop} (h : ¬ P 0) :
  IsLeast {j | P j} i ↔ ∃ j, IsLeast {j | P (j + 1)} j ∧ j + 1 = i
  := by
  constructor
  · rintro ⟨hi, hle⟩
    cases i with
    | zero => exact absurd hi h
    | succ i =>
      refine ⟨i, ⟨hi, fun j hj => ?_⟩, rfl⟩
      exact Nat.le_of_succ_le_succ (hle hj)
  · rintro ⟨j, ⟨hj, hle⟩, rfl⟩
    refine ⟨hj, fun k hk => ?_⟩
    cases k with
    | zero => exact absurd hk h
    | succ k => exact Nat.succ_le_succ (hle hk)

theorem isLeast_zero_iff {P : Nat → Prop} (h : P 0) :
  IsLeast {j | P j} i ↔ 0 = i
  := by
  constructor
  · rintro ⟨-, hle⟩
    exact (Nat.le_zero.mp (hle h)).symm
  · rintro rfl
    exact ⟨h, fun j _ => Nat.zero_le j⟩

/-- What is least from a place on is at some distance from it. -/
theorem isLeast_add_iff {P : Nat → Prop} {o : Nat} :
  IsLeast {j | i ≤ j ∧ P j} o ↔ ∃ m, IsLeast {m | P (i + m)} m ∧ i + m = o
  := by
  constructor
  · rintro ⟨⟨hle, ho⟩, hleast⟩
    obtain ⟨m, rfl⟩ := Nat.exists_eq_add_of_le hle
    refine ⟨m, ⟨ho, fun k hk => ?_⟩, rfl⟩
    exact Nat.le_of_add_le_add_left (hleast ⟨Nat.le_add_right i k, hk⟩)
  · rintro ⟨m, ⟨hm, hleast⟩, rfl⟩
    refine ⟨⟨Nat.le_add_right i m, hm⟩, ?_⟩
    rintro _ ⟨hle, hk⟩
    obtain ⟨k, rfl⟩ := Nat.exists_eq_add_of_le hle
    exact Nat.add_le_add_left (hleast hk) i

theorem exists_isLeast {P : Nat → Prop} (h : P i) :
  ∃ j, IsLeast {j | P j} j
  := by
  induction i using Nat.strong_induction_on with
  | _ i ih =>
    by_cases hlt : ∃ j < i, P j
    · obtain ⟨j, hj, hP⟩ := hlt
      apply ih j hj hP
    · refine ⟨i, h, fun j hj => ?_⟩
      by_contra hji
      exact hlt ⟨j, Nat.lt_of_not_le hji, hj⟩

/-- A word is found at its first place. -/
theorem indexOf?_eq_some_iff :
  indexOf? word t = some i ↔ IsLeast {j | word <+: t.drop j} i
  := by
  induction t generalizing i with
  | nil =>
    rw [indexOf?]
    simp only [List.drop_nil, List.prefix_nil]
    split
    next hempty =>
      rw [isLeast_zero_iff (List.isEmpty_iff.mp hempty), Option.some_inj]
    next hempty =>
      rw [List.isEmpty_iff] at hempty
      simp [hempty, IsLeast]
  | cons c t ih =>
    rw [indexOf?]
    split
    next hstarts =>
      have hzero : word <+: (c :: t).drop 0 := List.isPrefixOf_iff_prefix.mp hstarts
      rw [isLeast_zero_iff hzero, Option.some_inj]
    next hstarts =>
      have hzero : ¬ word <+: (c :: t).drop 0 := by
        rwa [List.drop_zero, ← List.isPrefixOf_iff_prefix]
      rw [isLeast_succ_iff hzero, Option.map_eq_some_iff]
      simp only [ih, List.drop_succ_cons]

/-- A character is found behind a text that does not hold it. -/
theorem indexOf?_append_of_not_mem {s : Text} (hs : x ∉ s) (t : Text) :
  indexOf? [x] (s ++ x :: t) = some s.length
  := by
  induction s with
  | nil => simp [indexOf?]
  | cons c s ih =>
    rw [List.mem_cons, not_or] at hs
    rw [List.cons_append, indexOf?, ih hs.2]
    simp [hs.1]

theorem lastIndexOf?_eq_none_iff :
  lastIndexOf? x t = none ↔ x ∉ t
  := by
  induction t with
  | nil => simp [lastIndexOf?]
  | cons c t ih =>
    rw [lastIndexOf?, List.mem_cons, not_or, ← ih]
    split
    next hi => simp [hi]
    next hnone => simp [hnone, eq_comm]

theorem isGreatest_of_lastIndexOf? (h : lastIndexOf? x t = some i) :
  IsGreatest {j | t[j]? = some x} i
  := by
  induction t generalizing i with
  | nil => cases h
  | cons c t ih =>
    rw [lastIndexOf?] at h
    split at h
    next k hk =>
      obtain rfl := Option.some.inj h
      obtain ⟨hmem, hle⟩ := ih hk
      refine ⟨hmem, fun j hj => ?_⟩
      cases j with
      | zero => exact Nat.zero_le _
      | succ j => exact Nat.succ_le_succ (hle hj)
    next hnone =>
      split at h
      next heq =>
        obtain rfl := Option.some.inj h
        refine ⟨congrArg some heq, fun j hj => ?_⟩
        cases j with
        | zero => exact le_rfl
        | succ j =>
          have hmem : x ∈ t := List.mem_of_getElem? hj
          exact absurd hmem (lastIndexOf?_eq_none_iff.mp hnone)
      next => cases h

/-- A character is found at its last place. -/
theorem lastIndexOf?_eq_some_iff :
  lastIndexOf? x t = some i ↔ IsGreatest {j | t[j]? = some x} i
  := by
  constructor
  · apply isGreatest_of_lastIndexOf?
  · intro h
    cases hk : lastIndexOf? x t with
    | none => exact absurd (List.mem_of_getElem? h.1) (lastIndexOf?_eq_none_iff.mp hk)
    | some k => rw [(isGreatest_of_lastIndexOf? hk).unique h]

/-- A last place behind a text is a last place in the rest. -/
theorem isGreatest_append {s : Text} (h : IsGreatest {j | (s ++ t)[j]? = some x} (s.length + i)) :
  IsGreatest {j | t[j]? = some x} i
  := by
  have hplace : ∀ j, (s ++ t)[s.length + j]? = t[j]? := by
    intro j
    rw [List.getElem?_append_right (Nat.le_add_right _ _), Nat.add_sub_cancel_left]
  obtain ⟨hmem, hle⟩ := h
  constructor
  · exact (hplace i).symm.trans hmem
  · intro j hj
    exact Nat.le_of_add_le_add_left (hle ((hplace j).trans hj))

end Text

/-! ### Balance -/

namespace Brace

variable {p s t u word start finish : Text} {d : Int} {c o : Nat} {x : Char}

/-- What a character adds to the number of open braces. -/
def weight (c : Char) : Int := if c = '\x7b' then 1 else if c = '\x7d' then -1 else 0

/-- By how many more braces are opened than closed. -/
def net (t : Text) : Int := t.count '\x7b' - t.count '\x7d'

@[simp]
theorem net_nil :
  net [] = 0
  := rfl

@[simp]
theorem net_append (s t : Text) :
  net (s ++ t) = net s + net t
  := by
  rw [net, net, net, List.count_append, List.count_append]
  omega

theorem net_cons (c : Char) (t : Text) :
  net (c :: t) = weight c + net t
  := by
  have hsingle : net [c] = weight c := by
    rw [net, weight, List.count_singleton, List.count_singleton]
    by_cases hopen : c = '\x7b'
    · subst hopen
      rfl
    · by_cases hclose : c = '\x7d'
      · subst hclose
        rfl
      · simp [hopen, hclose]
  rw [← List.singleton_append, net_append, hsingle]

/-- Each brace is closed in the text, and no other one is. -/
structure Balanced (t : Text) : Prop where
  /-- Nowhere more braces are closed than were opened. -/
  closed_le : ∀ p, p <+: t → p.count '\x7d' ≤ p.count '\x7b'
  /-- In the end all braces are closed. -/
  closed_eq : t.count '\x7d' = t.count '\x7b'

theorem balanced_iff_inits (t : Text) :
  Balanced t ↔
    (∀ p ∈ t.inits, p.count '\x7d' ≤ p.count '\x7b') ∧ t.count '\x7d' = t.count '\x7b'
  := by
  simp only [List.mem_inits]
  constructor
  · rintro ⟨hle, heq⟩
    exact ⟨hle, heq⟩
  · rintro ⟨hle, heq⟩
    exact ⟨hle, heq⟩

instance : DecidablePred Balanced := fun t => decidable_of_iff' _ (balanced_iff_inits t)

theorem balanced_iff_net :
  Balanced t ↔ (∀ p, p <+: t → 0 ≤ net p) ∧ net t = 0
  := by
  constructor
  · rintro ⟨hle, heq⟩
    refine ⟨fun p hp => ?_, ?_⟩
    · have hp := hle p hp
      rw [net]
      omega
    · rw [net, heq]
      omega
  · rintro ⟨hle, heq⟩
    refine ⟨fun p hp => ?_, ?_⟩
    · have hp := hle p hp
      rw [net] at hp
      omega
    · rw [net] at heq
      omega

theorem balanced_of_not_mem (hopen : '\x7b' ∉ t) (hclose : '\x7d' ∉ t) :
  Balanced t
  := by
  constructor
  · intro p hp
    rw [List.count_eq_zero.mpr fun hmem => hclose (hp.subset hmem)]
    apply Nat.zero_le
  · rw [List.count_eq_zero.mpr hopen, List.count_eq_zero.mpr hclose]

/-- Whether a character is a brace. -/
def isBrace (c : Char) : Bool := c == '\x7b' || c == '\x7d'

/-- Only the braces of a text matter for its balance. -/
theorem balanced_filter_iff :
  Balanced (t.filter isBrace) ↔ Balanced t
  := by
  have hopen : isBrace '\x7b' := by decide
  have hclose : isBrace '\x7d' := by decide
  constructor
  · rintro ⟨hle, heq⟩
    rw [List.count_filter hopen, List.count_filter hclose] at heq
    refine ⟨fun p hp => ?_, heq⟩
    have hp := hle _ (hp.filter isBrace)
    rwa [List.count_filter hopen, List.count_filter hclose] at hp
  · rintro ⟨hle, heq⟩
    constructor
    · intro p hp
      obtain ⟨q, hq, rfl⟩ := List.prefix_filter_iff.mp hp
      rw [List.count_filter hopen, List.count_filter hclose]
      apply hle q hq
    · rwa [List.count_filter hopen, List.count_filter hclose]

/-! ### The matching brace -/

theorem neg_one_le_weight (c : Char) :
  -1 ≤ weight c
  := by
  rw [weight]
  split
  · decide
  · split <;> decide

/-- The search for the closing brace goes on as long as braces are open. -/
theorem closing?_cons (hd : 1 ≤ d) (x : Char) (t : Text) :
  closing? d (x :: t)
    = if d + weight x = 0 then some 0 else (closing? (d + weight x) t).map (· + 1)
  := by
  rw [closing?, weight]
  split
  next => rw [if_neg (by omega)]
  next =>
    split
    next => rfl
    next => rw [if_neg (by omega), Int.add_zero]

/-- The closing brace is the first place up to which all open braces are closed. -/
theorem closing?_eq_some_iff (hd : 1 ≤ d) :
  closing? d t = some c ↔ IsLeast {j | j < t.length ∧ d + net (t.take (j + 1)) = 0} c
  := by
  induction t generalizing d c with
  | nil => simp [closing?, IsLeast]
  | cons x t ih =>
    rw [closing?_cons hd]
    have hfirst : net ((x :: t).take (0 + 1)) = weight x := by
      rw [List.take_succ_cons, net_cons, List.take_zero, net_nil, Int.add_zero]
    split
    next hzero =>
      have hclosed : 0 < (x :: t).length ∧ d + net ((x :: t).take (0 + 1)) = 0 := by
        rw [hfirst]
        exact ⟨Nat.succ_pos _, hzero⟩
      rw [Text.isLeast_zero_iff hclosed, Option.some_inj]
    next hzero =>
      have hopen : ¬ (0 < (x :: t).length ∧ d + net ((x :: t).take (0 + 1)) = 0) := by
        rw [hfirst]
        exact fun h => hzero h.2
      have hle := neg_one_le_weight x
      rw [Text.isLeast_succ_iff hopen, Option.map_eq_some_iff]
      simp only [ih (show 1 ≤ d + weight x by omega), List.length_cons, Nat.succ_lt_succ_iff,
        List.take_succ_cons, net_cons, Int.add_assoc]

/-- Where no brace is closed more often than opened, the search goes on behind the text. -/
theorem closing?_append (h : ∀ p, p <+: s → 1 ≤ d + net p) (t : Text) :
  closing? d (s ++ t) = (closing? (d + net s) t).map (· + s.length)
  := by
  induction s generalizing d with
  | nil => simp
  | cons x s ih =>
    have hd := h [] List.nil_prefix
    rw [net_nil, Int.add_zero] at hd
    have hx := h [x] (by simp)
    rw [net_cons, net_nil, Int.add_zero] at hx
    rw [List.cons_append, closing?_cons hd, if_neg (by omega), ih, Option.map_map, net_cons,
      ← Int.add_assoc]
    · rfl
    · intro p hp
      have hxp := h (x :: p) (List.cons_prefix_cons.mpr ⟨rfl, hp⟩)
      rwa [net_cons, ← Int.add_assoc] at hxp

/-- A balanced text makes no difference for the brace that closes an open one. -/
theorem Balanced.closing?_append (hs : Balanced s) (hd : 1 ≤ d) (t : Text) :
  closing? d (s ++ t) = (closing? d t).map (· + s.length)
  := by
  obtain ⟨hle, hnet⟩ := balanced_iff_net.mp hs
  rw [Brace.closing?_append, hnet, Int.add_zero]
  intro p hp
  have hp := hle p hp
  omega

theorem eq_of_weight_neg (h : weight x < 0) :
  x = '\x7d'
  := by
  rw [weight] at h
  split at h
  · cases h
  · split at h
    next hx => exact hx
    next => cases h

/-- Where braces are open in front of a text and none is left behind it, one of its braces closes
the last of them first. -/
theorem exists_closed (hd : 1 ≤ d) (h : d + net t ≤ 0) :
  ∃ u v, t = u ++ '\x7d' :: v ∧ (∀ p, p <+: u → 1 ≤ d + net p) ∧ d + net u = 1
  := by
  induction t generalizing d with
  | nil =>
    rw [net_nil] at h
    omega
  | cons x t ih =>
    rw [net_cons, ← Int.add_assoc] at h
    have hweight := neg_one_le_weight x
    rcases eq_or_ne (d + weight x) 0 with hzero | hzero
    · obtain rfl := eq_of_weight_neg (x := x) (by omega)
      refine ⟨[], t, rfl, ?_, ?_⟩
      · intro p hp
        rw [List.prefix_nil.mp hp, net_nil]
        omega
      · rw [net_nil]
        omega
    · obtain ⟨u, v, rfl, hu, hnet⟩ := ih (by omega) h
      refine ⟨x :: u, v, rfl, ?_, ?_⟩
      · intro p hp
        cases p with
        | nil =>
          rw [net_nil]
          omega
        | cons y p =>
          obtain ⟨rfl, htail⟩ := List.cons_prefix_cons.mp hp
          rw [net_cons, ← Int.add_assoc]
          apply hu p htail
      · rwa [net_cons, ← Int.add_assoc]

/-- A brace that is opened in a balanced text is closed behind a balanced body. -/
theorem Balanced.exists_body (h : Balanced (s ++ '\x7b' :: t)) :
  ∃ u v, t = u ++ '\x7d' :: v ∧ Balanced u
  := by
  obtain ⟨hle, hnet⟩ := balanced_iff_net.mp h
  have hs := hle s (List.prefix_append _ _)
  have hweight : weight '\x7b' = 1 := rfl
  rw [net_append, net_cons, hweight] at hnet
  obtain ⟨u, v, rfl, hu, hone⟩ := exists_closed (d := 1) (t := t) le_rfl (by omega)
  refine ⟨u, v, rfl, balanced_iff_net.mpr ⟨fun p hp => ?_, by omega⟩⟩
  have hp := hu p hp
  omega

/-! ### Code around a body -/

/-- The first opening brace behind the start of the first occurrence of a word. -/
def Opens (word t : Text) (o : Nat) : Prop :=
  ∃ i, IsLeast {j | word <+: t.drop j} i ∧ IsLeast {j | i ≤ j ∧ t[j]? = some '\x7b'} o

/-- The brace stands behind the word, if that has no brace in it. -/
theorem Opens.length_le (h : Opens word t o) (hword : '\x7b' ∉ word) :
  ∃ i, IsLeast {j | word <+: t.drop j} i ∧ i + word.length ≤ o
  := by
  obtain ⟨i, hi, ⟨hle, ho⟩, -⟩ := h
  refine ⟨i, hi, ?_⟩
  by_contra hlt
  obtain ⟨m, rfl⟩ := Nat.exists_eq_add_of_le hle
  obtain ⟨s, hs⟩ := hi.1
  have hplace : word[m]? = some '\x7b' := by
    rw [← ho, ← List.getElem?_drop, ← hs, List.getElem?_append_left (by omega)]
  exact hword (List.mem_of_getElem? hplace)

/-- Where a brace follows a word, one is found there at the latest. -/
theorem exists_opens (s r rest : Text) :
  ∃ o ≤ (s ++ (word ++ r)).length, Opens word (s ++ (word ++ r) ++ '\x7b' :: rest) o
  := by
  have hoccurs : word <+: (s ++ (word ++ r) ++ '\x7b' :: rest).drop s.length := by
    rw [List.append_assoc, List.drop_left, List.append_assoc]
    apply List.prefix_append
  obtain ⟨i, hi, hleast⟩ := Text.exists_isLeast
    (P := fun j => word <+: (s ++ (word ++ r) ++ '\x7b' :: rest).drop j) hoccurs
  have hle : i ≤ s.length := hleast hoccurs
  have hplace : i ≤ (s ++ (word ++ r)).length ∧
      (s ++ (word ++ r) ++ '\x7b' :: rest)[(s ++ (word ++ r)).length]? = some '\x7b' := by
    constructor
    · rw [List.length_append]
      omega
    · simp
  obtain ⟨o, ho, hfirst⟩ := Text.exists_isLeast
    (P := fun j => i ≤ j ∧ (s ++ (word ++ r) ++ '\x7b' :: rest)[j]? = some '\x7b') hplace
  exact ⟨o, hfirst hplace, i, ⟨hi, hleast⟩, ho, hfirst⟩

/-- The first place from a brace on up to which as many braces are closed as opened. -/
def Closes (t : Text) (o c : Nat) : Prop :=
  IsLeast {j | o ≤ j ∧ j < t.length ∧
    ((t.take (j + 1)).drop o).count '\x7b' = ((t.take (j + 1)).drop o).count '\x7d'} c

/-- The first brace from a place on is searched for in the rest of the text. -/
theorem isLeast_brace_iff {i : Nat} :
  IsLeast {j | i ≤ j ∧ t[j]? = some '\x7b'} o ↔
    ∃ j, Text.indexOf? ['\x7b'] (t.drop i) = some j ∧ i + j = o
  := by
  have hplace : ∀ j, ['\x7b'] <+: (t.drop i).drop j ↔ t[i + j]? = some '\x7b' := by
    intro j
    rw [List.drop_drop, ← List.head?_drop]
    cases t.drop (i + j) with
    | nil => simp
    | cons d r => simp [eq_comm]
  simp only [Text.indexOf?_eq_some_iff, hplace]
  apply Text.isLeast_add_iff

/-- A text is divided behind the brace. -/
theorem divide?_of_opens (h : Opens word t o) :
  divide? word t = some (t.take (o + 1), t.drop (o + 1))
  := by
  obtain ⟨i, hi, ho⟩ := h
  obtain ⟨j, hj, rfl⟩ := isLeast_brace_iff.mp ho
  rw [divide?, Text.indexOf?_eq_some_iff.mpr hi, Option.bind_some, hj]
  rfl

theorem divide?_of_not_opens (h : ∀ o, ¬ Opens word t o) :
  divide? word t = none
  := by
  rw [Option.eq_none_iff_forall_ne_some]
  intro parts hdivide
  obtain ⟨i, hi, hdivide⟩ := Option.bind_eq_some_iff.mp hdivide
  obtain ⟨j, hj, -⟩ := Option.map_eq_some_iff.mp hdivide
  exact h (i + j) ⟨i, Text.indexOf?_eq_some_iff.mp hi, isLeast_brace_iff.mpr ⟨j, hj, rfl⟩⟩

/-- A word is found where no brace is opened between its first occurrence and the brace that follows
this one. -/
theorem opens_of_not_mem
    {before signature : Text} (hword : '\x7b' ∉ word) (hsignature : '\x7b' ∉ signature)
    (hbefore : ∀ s r, before = s ++ (word ++ r) → '\x7b' ∉ r) (rest : Text) :
  Opens word (before ++ (word ++ signature) ++ '\x7b' :: rest)
    (before ++ (word ++ signature)).length
  := by
  have hoccurs : word <+: (before ++ (word ++ signature) ++ '\x7b' :: rest).drop before.length := by
    rw [List.append_assoc, List.drop_left, List.append_assoc]
    apply List.prefix_append
  obtain ⟨i, hi, hleast⟩ := Text.exists_isLeast
    (P := fun j => word <+: (before ++ (word ++ signature) ++ '\x7b' :: rest).drop j) hoccurs
  have hle : i ≤ before.length := hleast hoccurs
  refine ⟨i, ⟨hi, hleast⟩, isLeast_brace_iff.mpr ?_⟩
  -- Up to the end of the signature no brace follows the first occurrence.
  have hdrop : '\x7b' ∉ before.drop i := by
    have hstarts : word <+: (before ++ (word ++ signature) ++ '\x7b' :: rest).drop i := hi
    rw [List.append_assoc, List.drop_append_of_le_length hle] at hstarts
    rcases Nat.le_total word.length (before.drop i).length with hlong | hshort
    · obtain ⟨r, hr⟩ := List.prefix_of_prefix_length_le hstarts (List.prefix_append _ _) hlong
      have hsplit : before = before.take i ++ (word ++ r) := by rw [hr, List.take_append_drop]
      rw [← hr, List.mem_append, not_or]
      exact ⟨hword, hbefore _ r hsplit⟩
    · have hpart := List.prefix_of_prefix_length_le (List.prefix_append _ _) hstarts hshort
      exact fun hmem => hword (hpart.subset hmem)
  refine ⟨(before.drop i ++ (word ++ signature)).length, ?_, ?_⟩
  · rw [List.append_assoc, List.drop_append_of_le_length hle, ← List.append_assoc]
    apply Text.indexOf?_append_of_not_mem
    simp only [List.mem_append, not_or]
    exact ⟨hdrop, hword, hsignature⟩
  · simp only [List.length_append, List.length_drop]
    omega

/-- The brace that matches an open one is searched for behind it. -/
theorem closes_iff (ho : t[o]? = some '\x7b') :
  Closes t o c ↔ ∃ k, closing? 1 (t.drop (o + 1)) = some k ∧ o + (k + 1) = c
  := by
  obtain ⟨hlt, hbrace⟩ := List.getElem?_eq_some_iff.mp ho
  have hcount : ∀ m, (o + m < t.length ∧ ((t.take (o + m + 1)).drop o).count '\x7b'
        = ((t.take (o + m + 1)).drop o).count '\x7d') ↔
      m < (t.drop (o + 1)).length + 1 ∧ 1 + net ((t.drop (o + 1)).take m) = 0 := by
    intro m
    have hpart : (t.take (o + m + 1)).drop o = '\x7b' :: (t.drop (o + 1)).take m := by
      rw [List.drop_take, Nat.add_assoc, Nat.add_sub_cancel_left, List.drop_eq_getElem_cons hlt,
        hbrace, List.take_succ_cons]
    have hnet := net_cons '\x7b' ((t.drop (o + 1)).take m)
    have hweight : weight '\x7b' = 1 := rfl
    rw [hpart, ← hweight, ← hnet, net, List.length_drop]
    omega
  have hzero : ¬ (0 < (t.drop (o + 1)).length + 1 ∧ 1 + net ((t.drop (o + 1)).take 0) = 0) := by
    rw [List.take_zero, net_nil]
    omega
  rw [Closes, Text.isLeast_add_iff]
  simp only [hcount, closing?_eq_some_iff (show (1 : Int) ≤ 1 from le_rfl)]
  constructor
  · rintro ⟨m, hm, rfl⟩
    obtain ⟨k, hk, rfl⟩ := (Text.isLeast_succ_iff hzero).mp hm
    simp only [Nat.succ_lt_succ_iff] at hk
    exact ⟨k, hk, rfl⟩
  · rintro ⟨k, hk, rfl⟩
    refine ⟨k + 1, (Text.isLeast_succ_iff hzero).mpr ⟨k, ?_, rfl⟩, rfl⟩
    simp only [Nat.succ_lt_succ_iff]
    exact hk

/-- The code goes to the start and to the end of the braces if they are closed. -/
theorem wrap_of_closes
    (hstart : Balanced start) (hfinish : finish ≠ []) (ho : Opens word t o)
    (hc : Closes t o c) :
  wrap word start finish t
    = t.take (o + 1) ++ start ++ (t.take c).drop (o + 1) ++ finish ++ ['\n'] ++ t.drop c
  := by
  obtain ⟨i, -, hbrace⟩ := id ho
  obtain ⟨k, hk, rfl⟩ := (closes_iff hbrace.1.2).mp hc
  have hend : bodyEnd? (start ++ t.drop (o + 1)) = some (k + start.length) := by
    rw [bodyEnd?, hstart.closing?_append le_rfl, hk]
    rfl
  have htake : (start ++ t.drop (o + 1)).take (k + start.length)
      = start ++ (t.take (o + (k + 1))).drop (o + 1) := by
    rw [Nat.add_comm k, List.take_length_add_append, List.drop_take]
    congr 2
    omega
  have hdrop : (start ++ t.drop (o + 1)).drop (k + start.length) = t.drop (o + (k + 1)) := by
    rw [Nat.add_comm k, List.drop_length_add_append, List.drop_drop]
    congr 1
    omega
  rw [wrap, divide?_of_opens ho]
  dsimp only
  rw [if_neg (by simpa using hfinish), hend]
  dsimp only
  rw [htake, hdrop]
  simp only [List.append_assoc]

/-- Without a matching brace the end of the body is the last closing brace. -/
theorem bodyEnd?_of_not_closes
    (hstart : Balanced start) (ho : t[o]? = some '\x7b') (hc : ∀ c, ¬ Closes t o c) :
  bodyEnd? (start ++ t.drop (o + 1)) = Text.lastIndexOf? '\x7d' (start ++ t.drop (o + 1))
  := by
  have hnone : closing? 1 (t.drop (o + 1)) = none := by
    rw [Option.eq_none_iff_forall_ne_some]
    intro k hk
    exact hc _ ((closes_iff ho).mpr ⟨k, hk, rfl⟩)
  rw [bodyEnd?, hstart.closing?_append le_rfl, hnone]
  rfl

/-- Without a matching brace the code for the end goes to the last closing brace. -/
theorem wrap_of_isGreatest
    (hstart : Balanced start) (hfinish : finish ≠ []) (ho : Opens word t o)
    (hc : ∀ c, ¬ Closes t o c) {e : Nat}
    (he : IsGreatest {j | (t.take (o + 1) ++ start ++ t.drop (o + 1))[j]? = some '\x7d'} e)
    (hoe : o < e) :
  wrap word start finish t
    = (t.take (o + 1) ++ start ++ t.drop (o + 1)).take e ++ finish ++ ['\n']
      ++ (t.take (o + 1) ++ start ++ t.drop (o + 1)).drop e
  := by
  obtain ⟨i, -, hbrace⟩ := id ho
  obtain ⟨hlt, -⟩ := List.getElem?_eq_some_iff.mp hbrace.1.2
  have hlength : (t.take (o + 1)).length = o + 1 := List.length_take_of_le hlt
  obtain ⟨m, rfl⟩ := Nat.exists_eq_add_of_le (Nat.succ_le_of_lt hoe)
  rw [wrap, divide?_of_opens ho]
  dsimp only
  rw [if_neg (by simpa using hfinish), bodyEnd?_of_not_closes hstart hbrace.1.2 hc]
  rw [List.append_assoc (t.take (o + 1)) start] at he ⊢
  generalize start ++ t.drop (o + 1) = body at he ⊢
  generalize t.take (o + 1) = head at he hlength ⊢
  rw [Nat.succ_eq_add_one, ← hlength] at he ⊢
  rw [Text.lastIndexOf?_eq_some_iff.mpr (Text.isGreatest_append he),
    List.take_length_add_append, List.drop_length_add_append]

/-- Without any closing brace behind them only the code for the start is put in. -/
theorem wrap_of_le
    (hstart : Balanced start) (hfinish : finish ≠ []) (ho : Opens word t o)
    (hc : ∀ c, ¬ Closes t o c)
    (h : ∀ e, (t.take (o + 1) ++ start ++ t.drop (o + 1))[e]? = some '\x7d' → e ≤ o) :
  wrap word start finish t = t.take (o + 1) ++ start ++ t.drop (o + 1)
  := by
  obtain ⟨i, -, hbrace⟩ := id ho
  obtain ⟨hlt, -⟩ := List.getElem?_eq_some_iff.mp hbrace.1.2
  have hlength : (t.take (o + 1)).length = o + 1 := List.length_take_of_le hlt
  have hnone : Text.lastIndexOf? '\x7d' (start ++ t.drop (o + 1)) = none := by
    rw [Text.lastIndexOf?_eq_none_iff]
    intro hmem
    obtain ⟨j, hj⟩ := List.mem_iff_getElem?.mp hmem
    have hplace : (t.take (o + 1) ++ start ++ t.drop (o + 1))[o + 1 + j]? = some '\x7d' := by
      rw [List.append_assoc, List.getElem?_append_right (by omega), hlength,
        Nat.add_sub_cancel_left]
      exact hj
    have hle := h (o + 1 + j) hplace
    omega
  rw [wrap, divide?_of_opens ho]
  dsimp only
  rw [if_neg (by simpa using hfinish), bodyEnd?_of_not_closes hstart hbrace.1.2 hc, hnone,
    List.append_assoc]

/-- The body between the brace and its match gets the code around it. -/
theorem wrap_of_balanced
    {head body behind : Text} (hstart : Balanced start) (hfinish : finish ≠ [])
    (hbody : Balanced body)
    (ho : Opens word (head ++ '\x7b' :: (body ++ '\x7d' :: behind)) head.length) :
  wrap word start finish (head ++ '\x7b' :: (body ++ '\x7d' :: behind))
    = head ++ '\x7b' :: (start ++ (body ++ (finish ++ '\n' :: '\x7d' :: behind)))
  := by
  have hlength : head.length + 1 = (head ++ ['\x7b']).length := by simp
  have hdivide := divide?_of_opens ho
  rw [List.append_cons, hlength, List.take_left, List.drop_left] at hdivide
  have hend : bodyEnd? (start ++ (body ++ '\x7d' :: behind)) = some (start ++ body).length := by
    have hclose : closing? 1 ('\x7d' :: behind) = some 0 := rfl
    rw [bodyEnd?, hstart.closing?_append le_rfl, hbody.closing?_append le_rfl, hclose,
      Option.map_some, Option.map_some, Nat.zero_add, List.length_append, Nat.add_comm]
  rw [List.append_cons, wrap, hdivide]
  dsimp only
  rw [if_neg (by simpa using hfinish), hend]
  dsimp only
  rw [← List.append_assoc start, List.take_left, List.drop_left]
  simp

/-- The code for the start is put in where the brace is, if a brace is closed behind it. -/
theorem prefix_wrap_of_opens
    (hstart : Balanced start) (ho : Opens word t o) (hclose : '\x7d' ∈ t.drop (o + 1))
    (finish : Text) :
  t.take (o + 1) ++ start <+: wrap word start finish t
  := by
  have hlength : ∀ i, bodyEnd? (start ++ t.drop (o + 1)) = some i → start.length ≤ i := by
    intro i hi
    rw [bodyEnd?, hstart.closing?_append le_rfl] at hi
    split at hi
    next k hk =>
      obtain ⟨j, -, rfl⟩ := Option.map_eq_some_iff.mp hk
      obtain rfl := Option.some.inj hi
      apply Nat.le_add_left
    next =>
      obtain ⟨j, hj⟩ := List.mem_iff_getElem?.mp hclose
      have hplace : (start ++ t.drop (o + 1))[start.length + j]? = some '\x7d' := by
        rw [List.getElem?_append_right (Nat.le_add_right _ _), Nat.add_sub_cancel_left, hj]
      have hle := (Text.lastIndexOf?_eq_some_iff.mp hi).2 hplace
      omega
  rw [wrap, divide?_of_opens ho]
  dsimp only
  split
  · rw [← List.append_assoc]
    apply List.prefix_append
  · split
    · rw [← List.append_assoc]
      apply List.prefix_append
    next i hi =>
      obtain ⟨j, rfl⟩ := Nat.exists_eq_add_of_le (hlength i hi)
      rw [List.take_length_add_append]
      simp only [List.append_assoc]
      apply (List.prefix_append_right_inj _).mpr
      apply List.prefix_append

theorem getElem?_of_closing? (h : closing? d t = some c) :
  t[c]? = some '\x7d'
  := by
  induction t generalizing d c with
  | nil => cases h
  | cons x t ih =>
    rw [closing?] at h
    split at h
    · obtain ⟨c, hc, rfl⟩ := Option.map_eq_some_iff.mp h
      exact ih hc
    · split at h
      next hx =>
        split at h
        · obtain rfl := Option.some.inj h
          exact congrArg some hx
        · obtain ⟨c, hc, rfl⟩ := Option.map_eq_some_iff.mp h
          exact ih hc
      next =>
        obtain ⟨c, hc, rfl⟩ := Option.map_eq_some_iff.mp h
        exact ih hc

/-- A body ends in front of a closing brace. -/
theorem getElem?_of_bodyEnd? (h : bodyEnd? t = some c) :
  t[c]? = some '\x7d'
  := by
  rw [bodyEnd?] at h
  split at h
  next i hi =>
    obtain rfl := Option.some.inj h
    exact getElem?_of_closing? hi
  next => exact (Text.lastIndexOf?_eq_some_iff.mp h).1

/-- Whatever the code for the start is, it is put in where the brace is.  All that is put in besides
is the code for the end, which stands further down if the code for the start closes no brace. -/
theorem exists_wrap_of_opens (ho : Opens word t o) (start finish : Text) :
  ∃ p q, p ++ q = t.take (o + 1) ++ (start ++ t.drop (o + 1)) ∧
    (wrap word start finish t = p ++ q ∨
      wrap word start finish t = p ++ (finish ++ '\n' :: q)) ∧
    ('\x7d' ∉ start → t.take (o + 1) ++ start <+: p)
  := by
  have hwhole : t.take (o + 1) ++ start <+: t.take (o + 1) ++ (start ++ t.drop (o + 1)) := by
    rw [← List.append_assoc]
    apply List.prefix_append
  rw [wrap, divide?_of_opens ho]
  dsimp only
  split
  · refine ⟨_, [], List.append_nil _, .inl (List.append_nil _).symm, fun _ => hwhole⟩
  · split
    · refine ⟨_, [], List.append_nil _, .inl (List.append_nil _).symm, fun _ => hwhole⟩
    next i hi =>
      refine ⟨t.take (o + 1) ++ (start ++ t.drop (o + 1)).take i,
        (start ++ t.drop (o + 1)).drop i, ?_, .inr (by simp), fun hstart => ?_⟩
      · rw [List.append_assoc, List.take_append_drop]
      · have hle : start.length ≤ i := by
          by_contra hlt
          have hbrace := getElem?_of_bodyEnd? hi
          rw [List.getElem?_append_left (Nat.lt_of_not_le hlt)] at hbrace
          exact hstart (List.mem_of_getElem? hbrace)
        apply (List.prefix_append_right_inj _).mpr
        exact List.prefix_take_iff.mpr ⟨List.prefix_append _ _, hle⟩

/-- If the brace stands in a part of the text, the code for the start does too. -/
theorem exists_prefix_wrap
    {front before rest : Text} (hstart : Balanced start)
    (ho : Opens word (front ++ (before ++ rest)) o) (hfirst : front.length ≤ o)
    (hlast : o < front.length + before.length) (hclose : '\x7d' ∈ rest) (finish : Text) :
  ∃ s, s ++ ['\x7b'] <+: before ∧
    front ++ (s ++ '\x7b' :: start) <+: wrap word start finish (front ++ (before ++ rest))
  := by
  obtain ⟨k, rfl⟩ := Nat.exists_eq_add_of_le hfirst
  have hlt : k + 1 ≤ before.length := by omega
  obtain ⟨-, -, ⟨-, hbrace⟩, -⟩ := id ho
  have hsplit : before.take (k + 1) = before.take k ++ ['\x7b'] := by
    rw [List.getElem?_append_right hfirst, Nat.add_sub_cancel_left,
      List.getElem?_append_left hlt] at hbrace
    rw [List.take_add_one, hbrace]
    rfl
  have hbehind : '\x7d' ∈ (front ++ (before ++ rest)).drop (front.length + k + 1) := by
    rw [Nat.add_assoc, List.drop_length_add_append, List.drop_append_of_le_length hlt]
    exact List.mem_append_right _ hclose
  refine ⟨before.take k, ?_, ?_⟩
  · rw [← hsplit]
    apply List.take_prefix
  · have hprefix := prefix_wrap_of_opens hstart ho hbehind finish
    rw [Nat.add_assoc, List.take_length_add_append, List.take_append_of_le_length hlt,
      hsplit] at hprefix
    simpa using hprefix

/-- Code is put in at the first brace behind a word and in front of the matching brace.  If no brace
matches, the last closing brace counts, if it comes later; and nothing else changes. -/
theorem wrap_places (hstart : Balanced start) (hfinish : finish ≠ []) (word t : Text) :
  (∀ o, Opens word t o →
    (∀ c, Closes t o c → wrap word start finish t
      = t.take (o + 1) ++ start ++ (t.take c).drop (o + 1) ++ finish ++ ['\n'] ++ t.drop c) ∧
    ((∀ c, ¬ Closes t o c) →
      let started := t.take (o + 1) ++ start ++ t.drop (o + 1)
      (∀ e, IsGreatest {j | started[j]? = some '\x7d'} e → o < e →
        wrap word start finish t = started.take e ++ finish ++ ['\n'] ++ started.drop e) ∧
      ((∀ e, started[e]? = some '\x7d' → e ≤ o) → wrap word start finish t = started))) ∧
  ((∀ o, ¬ Opens word t o) → wrap word start finish t = t)
  := by
  refine ⟨fun o ho => ⟨fun c hc => wrap_of_closes hstart hfinish ho hc, fun hc => ⟨?_, ?_⟩⟩, ?_⟩
  · intro e he hoe
    apply wrap_of_isGreatest hstart hfinish ho hc he hoe
  · apply wrap_of_le hstart hfinish ho hc
  · intro h
    rw [wrap, divide?_of_not_opens h]

/-- A body with braces of its own, and a function behind it. -/
theorem wrap_places_nested :
  let start : Text := "if a \x7b b; \x7d"
  let t : Text := "fn f() \x7b g(\x7b\x7d); \x7d fn h() \x7b\x7d"
  Balanced start ∧ ("end;" : Text) ≠ [] ∧ Opens "fn f" t 7 ∧ Closes t 7 16 ∧
    wrap "fn f" start "end;" t
      = "fn f() \x7bif a \x7b b; \x7d g(\x7b\x7d); " ++ "end;\n" ++ "\x7d fn h() \x7b\x7d"
  := by
  intro start t
  have hstart : Balanced start := by decide +kernel
  have hfinish : ("end;" : Text) ≠ [] := by decide +kernel
  have hword : Text.indexOf? "fn f" t = some 0 := by decide +kernel
  have hbrace : Text.indexOf? ['\x7b'] (t.drop 0) = some 7 := by decide +kernel
  have hopens : Opens "fn f" t 7 :=
    ⟨0, Text.indexOf?_eq_some_iff.mp hword, isLeast_brace_iff.mpr ⟨7, hbrace, rfl⟩⟩
  have hcloses : Closes t 7 16 := by
    rw [closes_iff (by decide +kernel)]
    exact ⟨8, by decide +kernel, rfl⟩
  refine ⟨hstart, hfinish, hopens, hcloses, ?_⟩
  rw [((wrap_places hstart hfinish "fn f" t).1 7 hopens).1 16 hcloses]
  decide +kernel

end Brace

end ShaderPair
