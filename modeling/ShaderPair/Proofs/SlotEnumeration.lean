import ShaderPair.Proofs.SlotOrder

/-!
# The enumeration of slots

If a group has room for at least one binding, the slots from a group on are enumerated by
`Slot.nth`: group after group, and in each group binding after binding.  What is handed out from
the first of them on is an initial part of this enumeration (`Slot.Handed.eq_map_nth`), and no
slot is left when all that the limits allow are handed out (`Slot.Handed.length_of_exhausted`).
-/

namespace ShaderPair

namespace Limits

/-- The number of bindings in a group. -/
def capacity (limits : Limits) : Nat := limits.bindingsPerGroup.toNat

/-- The number of slots in the groups from `first` on. -/
def room (limits : Limits) (first : Nat) : Nat :=
  limits.capacity * (limits.groups - first).toNat

end Limits

namespace Slot

/-- The slot with the number `k` from the group `first` on. -/
def nth (limits : Limits) (first k : Nat) : Slot :=
  ⟨first + k / limits.capacity, k % limits.capacity⟩

variable {limits : Limits} {first k : Nat}

theorem nth_zero (limits : Limits) (first : Nat) :
  nth limits first 0 = ⟨first, 0⟩
  := by
  rw [nth, Nat.zero_div, Nat.zero_mod, Nat.add_zero]

/-- A slot of the enumeration is in a group that has room for it. -/
theorem normalize_nth (hcap : 0 < limits.bindingsPerGroup) (first k : Nat) :
  normalize limits (nth limits first k) = nth limits first k
  := by
  have hmod : k % limits.capacity < limits.capacity := by
    apply Nat.mod_lt
    rw [Limits.capacity]
    omega
  apply if_neg
  rw [Limits.capacity] at hmod
  simp only [nth, Limits.capacity]
  omega

/-- The place behind a slot of the enumeration belongs to the next slot. -/
theorem normalize_succ (hcap : 0 < limits.bindingsPerGroup) (first k : Nat) :
  normalize limits ⟨(nth limits first k).group, (nth limits first k).binding + 1⟩
    = nth limits first (k + 1)
  := by
  have hcapacity : (limits.capacity : Int) = limits.bindingsPerGroup := by
    rw [Limits.capacity]
    omega
  have hmod : k % limits.capacity < limits.capacity := by
    apply Nat.mod_lt
    omega
  have hsplit := Nat.div_add_mod k limits.capacity
  unfold normalize nth
  by_cases hfull : k % limits.capacity + 1 = limits.capacity
  · -- the group is full
    have hnext : k + 1 = limits.capacity * (k / limits.capacity + 1) := by
      rw [Nat.mul_add]
      omega
    rw [if_pos (by dsimp only; omega), hnext, Nat.mul_mod_right,
      Nat.mul_div_cancel_left _ (by omega)]
    rfl
  · have hlt : k % limits.capacity + 1 < limits.capacity := by
      omega
    have hnext : k + 1 = k % limits.capacity + 1 + limits.capacity * (k / limits.capacity) := by
      omega
    rw [if_neg (by dsimp only; omega)]
    conv_rhs => rw [hnext]
    rw [Nat.add_mul_div_left _ _ (by omega), Nat.div_eq_of_lt hlt, Nat.add_mul_mod_self_left,
      Nat.mod_eq_of_lt hlt, Nat.zero_add]

variable {free last : Slot} {ss : List Slot}

/-- What is handed out from a slot of the enumeration on is the enumeration itself. -/
theorem Handed.eq_map_nth_range'
    (h : Handed limits free ss last) (hcap : 0 < limits.bindingsPerGroup)
    (hfree : normalize limits free = nth limits first k) :
  ss = (List.range' k ss.length).map (nth limits first) ∧
    normalize limits last = nth limits first (k + ss.length)
  := by
  induction h generalizing k with
  | refl free => exact ⟨rfl, hfree⟩
  | took htake _ ih =>
    obtain ⟨rfl, rfl, -⟩ := take_some htake
    rw [hfree] at ih
    obtain ⟨hss, hlast⟩ := ih (normalize_succ hcap first k)
    constructor
    · rw [List.length_cons, List.range'_succ, List.map_cons, ← hss, hfree]
    · rw [hlast, List.length_cons]
      congr 1
      omega
  | missed htake _ ih =>
    obtain ⟨rfl, -⟩ := take_none htake
    apply ih
    rw [hfree, normalize_nth hcap]

/-- What is handed out from the start on is an initial part of the enumeration. -/
theorem Handed.eq_map_nth
    (h : Handed limits ⟨first, 0⟩ ss last) (hcap : 0 < limits.bindingsPerGroup) :
  ss = (List.range ss.length).map (nth limits first)
  := by
  have hstart : normalize limits ⟨first, 0⟩ = nth limits first 0 := by
    rw [← nth_zero limits first, normalize_nth hcap]
  rw [List.range_eq_range']
  exact (h.eq_map_nth_range' hcap hstart).1

/-- No more slots are handed out than there are. -/
theorem Handed.length_le
    (h : Handed limits ⟨first, 0⟩ ss last) (hcap : 0 < limits.bindingsPerGroup) :
  ss.length ≤ limits.room first
  := by
  cases hlength : ss.length with
  | zero => apply Nat.zero_le
  | succ m =>
    have hmem : nth limits first m ∈ ss := by
      rw [h.eq_map_nth hcap, hlength]
      apply List.mem_map_of_mem
      apply List.mem_range.mpr (Nat.lt_succ_self m)
    have hgroup := h.group_lt hmem
    have hdiv : m / limits.capacity < (limits.groups - first).toNat := by
      simp only [nth] at hgroup
      omega
    rw [Nat.div_lt_iff_lt_mul (by rw [Limits.capacity]; omega), Nat.mul_comm] at hdiv
    apply hdiv

/-- When no slot is left, all of them are handed out. -/
theorem Handed.length_of_exhausted
    (h : Handed limits ⟨first, 0⟩ ss last) (hcap : 0 < limits.bindingsPerGroup)
    (hlast : Exhausted limits last) :
  ss.length = limits.room first
  := by
  apply Nat.le_antisymm (h.length_le hcap)
  have hstart : normalize limits ⟨first, 0⟩ = nth limits first 0 := by
    rw [← nth_zero limits first, normalize_nth hcap]
  have hend := (h.eq_map_nth_range' hcap hstart).2
  rw [Exhausted, hend, nth, Nat.zero_add] at hlast
  have hdiv : (limits.groups - first).toNat ≤ ss.length / limits.capacity := by
    generalize ss.length / limits.capacity = filled at hlast ⊢
    dsimp only at hlast
    omega
  rw [Nat.le_div_iff_mul_le (by rw [Limits.capacity]; omega), Nat.mul_comm] at hdiv
  apply hdiv

end Slot

end ShaderPair
