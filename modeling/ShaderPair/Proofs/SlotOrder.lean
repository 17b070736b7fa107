import ShaderPair.Slot
import Mathlib.Data.Prod.Lex

/-!
# The order of the slots handed out

Slots are ordered by their group, and in a group by their binding.  `Slot.Handed limits a ss b`
says that by looking for slots again and again the first free slot goes from `a` to `b` while
the slots `ss` are handed out.  They ascend from `a` to `b` (`Slot.Handed.pairwise`), and once no
slot was left, none is ever handed out again (`Slot.Exhausted.handed`).
-/

namespace ShaderPair

namespace Slot

/-! ### The order -/

/-- The group and the binding of a slot. -/
def toPair (s : Slot) : ℕ ×ₗ ℕ := toLex (s.group, s.binding)

theorem toPair_injective :
  Function.Injective toPair
  := by
  intro s t h
  have hpair : (s.group, s.binding) = (t.group, t.binding) := toLex.injective h
  apply Slot.ext
  · exact congrArg Prod.fst hpair
  · exact congrArg Prod.snd hpair

/-- Slots are ordered by their group first. -/
instance : PartialOrder Slot := PartialOrder.lift toPair toPair_injective

theorem lt_iff {s t : Slot} :
  s < t ↔ s.group < t.group ∨ s.group = t.group ∧ s.binding < t.binding
  := by
  apply Prod.Lex.toLex_lt_toLex

theorem le_iff {s t : Slot} :
  s ≤ t ↔ s.group < t.group ∨ s.group = t.group ∧ s.binding ≤ t.binding
  := by
  apply Prod.Lex.toLex_le_toLex

/-! ### One search -/

/-- No slot is left. -/
def Exhausted (limits : Limits) (free : Slot) : Prop :=
  limits.groups ≤ ((normalize limits free).group : Int)

theorem le_normalize (limits : Limits) (s : Slot) :
  s ≤ normalize limits s
  := by
  rw [normalize]
  split
  · apply le_of_lt
    rw [lt_iff]
    left
    apply Nat.lt_succ_self
  · apply le_refl

/-- A slot that is handed out is the first one that is free, and its group is within the
limits. -/
theorem take_some {limits : Limits} {free s free' : Slot}
    (h : take limits free = (some s, free')) :
  s = normalize limits free ∧ free' = ⟨s.group, s.binding + 1⟩ ∧ (s.group : Int) < limits.groups
  := by
  rw [take] at h
  split at h
  · simp at h
  next hroom =>
    obtain ⟨hs, hfree⟩ := Prod.mk.inj h
    obtain rfl := Option.some.inj hs
    use rfl, hfree.symm
    omega

theorem take_none {limits : Limits} {free free' : Slot} (h : take limits free = (none, free')) :
  free' = normalize limits free ∧ Exhausted limits free
  := by
  rw [take] at h
  split at h
  next hfull =>
    obtain ⟨-, hfree⟩ := Prod.mk.inj h
    use hfree.symm
    exact hfull
  · simp at h

/-- A slot that is handed out is not before the first free slot, which moves behind it. -/
theorem take_some_lt {limits : Limits} {free s free' : Slot}
    (h : take limits free = (some s, free')) :
  free ≤ s ∧ s < free'
  := by
  obtain ⟨hs, hfree, -⟩ := take_some h
  constructor
  · rw [hs]
    apply le_normalize
  · rw [hfree, lt_iff]
    right
    exact ⟨rfl, Nat.lt_succ_self _⟩

/-- Once no slot is left, there is none at the next search either. -/
theorem Exhausted.normalize {limits : Limits} {free : Slot} (h : Exhausted limits free) :
  Exhausted limits (normalize limits free)
  := by
  rw [Exhausted] at *
  have hle := le_normalize limits (Slot.normalize limits free)
  rw [le_iff] at hle
  omega

theorem Exhausted.take {limits : Limits} {free : Slot} (h : Exhausted limits free) :
  take limits free = (none, Slot.normalize limits free)
  := by
  rw [Slot.take]
  exact if_pos h

/-! ### Many searches -/

/-- By searches for a slot, the first free slot goes from one to another while slots are handed
out. -/
inductive Handed (limits : Limits) : Slot → List Slot → Slot → Prop
  | refl (free : Slot) : Handed limits free [] free
  | took {free s free' last : Slot} {ss : List Slot} :
    take limits free = (some s, free') → Handed limits free' ss last →
      Handed limits free (s :: ss) last
  | missed {free free' last : Slot} {ss : List Slot} :
    take limits free = (none, free') → Handed limits free' ss last → Handed limits free ss last

variable {limits : Limits} {free last : Slot} {ss : List Slot}

theorem Handed.trans {last' : Slot} {ss' : List Slot}
    (h : Handed limits free ss last) (h' : Handed limits last ss' last') :
  Handed limits free (ss ++ ss') last'
  := by
  induction h with
  | refl => apply h'
  | took htake _ ih => apply Handed.took htake (ih h')
  | missed htake _ ih => apply Handed.missed htake (ih h')

/-- The first free slot never moves back. -/
theorem Handed.le (h : Handed limits free ss last) :
  free ≤ last
  := by
  induction h with
  | refl => apply le_refl
  | took htake _ ih =>
    obtain ⟨hle, hlt⟩ := take_some_lt htake
    apply le_trans (le_trans hle hlt.le) ih
  | missed htake _ ih =>
    obtain ⟨rfl, -⟩ := take_none htake
    apply le_trans (le_normalize _ _) ih

/-- The slots handed out lie between the first free slot before and the one after. -/
theorem Handed.mem (h : Handed limits free ss last) {s : Slot} (hs : s ∈ ss) :
  free ≤ s ∧ s < last
  := by
  induction h with
  | refl => cases hs
  | took htake hrest ih =>
    obtain ⟨hle, hlt⟩ := take_some_lt htake
    rcases List.mem_cons.mp hs with rfl | hs
    · exact ⟨hle, lt_of_lt_of_le hlt hrest.le⟩
    · obtain ⟨hle', hlt'⟩ := ih hs
      exact ⟨le_trans (le_trans hle hlt.le) hle', hlt'⟩
  | missed htake _ ih =>
    obtain ⟨rfl, -⟩ := take_none htake
    obtain ⟨hle', hlt'⟩ := ih hs
    exact ⟨le_trans (le_normalize _ _) hle', hlt'⟩

/-- Slots are handed out in ascending order. -/
theorem Handed.pairwise (h : Handed limits free ss last) :
  ss.Pairwise (· < ·)
  := by
  induction h with
  | refl => apply List.Pairwise.nil
  | took htake hrest ih =>
    apply List.Pairwise.cons _ ih
    intro s hs
    apply lt_of_lt_of_le (take_some_lt htake).2 (hrest.mem hs).1
  | missed _ _ ih => apply ih

/-- No slot is handed out twice. -/
theorem Handed.nodup (h : Handed limits free ss last) :
  ss.Nodup
  := h.pairwise.imp ne_of_lt

/-- Slots are handed out in groups within the limits only. -/
theorem Handed.group_lt (h : Handed limits free ss last) {s : Slot} (hs : s ∈ ss) :
  (s.group : Int) < limits.groups
  := by
  induction h with
  | refl => cases hs
  | took htake _ ih =>
    rcases List.mem_cons.mp hs with rfl | hs
    · exact (take_some htake).2.2
    · apply ih hs
  | missed _ _ ih => apply ih hs

/-- Once no slot is left, none is handed out any more. -/
theorem Exhausted.handed (hfree : Exhausted limits free) (h : Handed limits free ss last) :
  ss = [] ∧ Exhausted limits last
  := by
  induction h with
  | refl => exact ⟨rfl, hfree⟩
  | took htake _ _ =>
    rw [hfree.take] at htake
    simp at htake
  | missed htake _ ih =>
    obtain ⟨rfl, -⟩ := take_none htake
    apply ih hfree.normalize

/-! ### The searches of one request -/

theorem handed_takeManyAfter (limits : Limits) (count : ℕ) (taken : List Slot) (free : Slot) :
  ∃ ss, (takeManyAfter limits taken count free).1 = taken.reverse ++ ss ∧
    Handed limits free ss (takeManyAfter limits taken count free).2 ∧
    (ss.length ≠ count → Exhausted limits (takeManyAfter limits taken count free).2)
  := by
  induction count generalizing taken free with
  | zero =>
    use []
    simp [takeManyAfter, Handed.refl]
  | succ count ih =>
    rw [takeManyAfter]
    cases htake : take limits free with
    | mk found free' =>
      cases found with
      | none =>
        obtain ⟨rfl, hfull⟩ := take_none htake
        use []
        use by simp, Handed.missed htake (Handed.refl _)
        intro _
        apply hfull.normalize
      | some s =>
        obtain ⟨ss, hss, hhanded, hfull⟩ := ih (s :: taken) free'
        use s :: ss
        refine ⟨?_, Handed.took htake hhanded, ?_⟩
        · simp [hss]
        · intro hlength
          apply hfull
          intro h
          exact hlength (congrArg Nat.succ h)

/-- A request for many slots is as many searches, and where it gets fewer, no slot is left. -/
theorem handed_takeMany (limits : Limits) (count : ℕ) (free : Slot) :
  Handed limits free (takeMany limits count free).1 (takeMany limits count free).2 ∧
    ((takeMany limits count free).1.length ≠ count →
      Exhausted limits (takeMany limits count free).2)
  := by
  obtain ⟨ss, hss, hhanded, hfull⟩ := handed_takeManyAfter limits count [] free
  have h : (takeMany limits count free).1 = ss := hss
  rw [h]
  exact ⟨hhanded, hfull⟩

end Slot

end ShaderPair
