import ShaderPair.Proofs.SlotDistinctness
import ShaderPair.Proofs.SlotEnumeration

/-!
# The capacity of the groups

A search for a slot leaves a group that is full, and it takes for granted that the next group has
room.  If groups have room for a binding, then in every session all slots handed out lie within the
limits (`Slot.Within`), and a search fails exactly if all slots within the limits are handed out
(`Slot.Handed.exhausted_iff`).  The search says so, if the limits are not too long for its message:
the capacity is respected (`Session.RespectsCapacity`).  If groups have no room at all, searches hand
out the first binding of one group after the other (`Slot.Handed.eq_map_range`).  So the capacity is
respected in all sessions exactly if groups have room, or the first search already runs out of groups,
and the limits can be written (`capacity_respected_iff`).
-/

namespace ShaderPair

namespace Slot

variable {limits : Limits} {free last s t : Slot} {ss : List Slot}

/-- A slot is within the limits: they allow for its group, and for its binding in a group. -/
structure Within (limits : Limits) (s : Slot) : Prop where
  /-- The group is one of the groups. -/
  group_mem : 0 ≤ (s.group : Int) ∧ (s.group : Int) < limits.groups
  /-- The binding is one of the bindings of a group. -/
  binding_mem : 0 ≤ (s.binding : Int) ∧ (s.binding : Int) < limits.bindingsPerGroup

/-! ### One search -/

/-- A search leads to a binding that groups have room for, or to the start of a group. -/
theorem binding_normalize_lt (limits : Limits) (s : Slot) :
  ((normalize limits s).binding : Int) < max 1 limits.bindingsPerGroup
  := by
  rw [normalize]
  split
  · simp
  · omega

/-- A search passes over no slot within the limits. -/
theorem normalize_le (ht : t.Within limits) (hle : s ≤ t) :
  normalize limits s ≤ t
  := by
  have hbinding := ht.binding_mem.2
  rw [le_iff] at hle ⊢
  rw [normalize]
  split
  · dsimp only
    omega
  · exact hle

/-- When no slot is left, all slots within the limits lie behind. -/
theorem Exhausted.lt (h : Exhausted limits free) (hs : s.Within limits) :
  s < free
  := by
  have hnot : ¬ free ≤ s := by
    intro hle
    have hgroup := hs.group_mem.2
    have hpassed := normalize_le hs hle
    rw [le_iff] at hpassed
    rw [Exhausted] at h
    omega
  rw [le_iff] at hnot
  rw [lt_iff]
  omega

/-- While a slot is left, a search leads within the limits if groups have room. -/
theorem within_normalize (hcap : 0 < limits.bindingsPerGroup) (h : ¬ Exhausted limits free) :
  (normalize limits free).Within limits
  := by
  have hbinding := binding_normalize_lt limits free
  rw [Exhausted] at h
  constructor <;> omega

/-- If groups have no room, a search goes on to the next group at once. -/
theorem normalize_of_nonpos (hcap : limits.bindingsPerGroup ≤ 0) (s : Slot) :
  normalize limits s = ⟨s.group + 1, 0⟩
  := if_pos (by omega)

theorem exhausted_iff_of_nonpos (hcap : limits.bindingsPerGroup ≤ 0) :
  Exhausted limits free ↔ limits.groups ≤ free.group + 1
  := by
  rw [Exhausted, normalize_of_nonpos hcap]
  rfl

theorem not_within_of_nonpos (hcap : limits.bindingsPerGroup ≤ 0) :
  ¬ s.Within limits
  := by
  intro hs
  have hbinding := hs.binding_mem
  omega

/-! ### Many searches -/

/-- Slots have bindings that groups have room for, or the first one. -/
theorem Handed.binding_lt (h : Handed limits free ss last) (hs : s ∈ ss) :
  (s.binding : Int) < max 1 limits.bindingsPerGroup
  := by
  induction h with
  | refl => cases hs
  | took htake _ ih =>
    rcases List.mem_cons.mp hs with rfl | hs
    · rw [(take_some htake).1]
      apply binding_normalize_lt
    · apply ih hs
  | missed _ _ ih => apply ih hs

theorem Handed.within
    (h : Handed limits free ss last) (hcap : 0 < limits.bindingsPerGroup) (hs : s ∈ ss) :
  s.Within limits
  := by
  have hgroup := h.group_lt hs
  have hbinding := h.binding_lt hs
  constructor <;> omega

/-- Searches hand out all slots within the limits that they go past. -/
theorem Handed.mem_of_within
    (h : Handed limits free ss last) (hs : s.Within limits) (hfree : free ≤ s) (hlast : s < last) :
  s ∈ ss
  := by
  induction h with
  | refl => exact absurd hfree hlast.not_ge
  | took htake _ ih =>
    obtain ⟨rfl, rfl, -⟩ := take_some htake
    rcases (normalize_le hs hfree).eq_or_lt with heq | hlt
    · rw [heq]
      apply List.mem_cons_self
    · apply List.mem_cons_of_mem
      apply ih _ hlast
      rw [lt_iff] at hlt
      rw [le_iff]
      dsimp only
      omega
  | missed htake _ ih =>
    obtain ⟨rfl, -⟩ := take_none htake
    apply ih (normalize_le hs hfree) hlast

/-- If groups have room, no slot is left exactly if all those within the limits are handed out. -/
theorem Handed.exhausted_iff
    (h : Handed limits free ss last) (hcap : 0 < limits.bindingsPerGroup) :
  Exhausted limits last ↔ ∀ s, free ≤ s → s.Within limits → s ∈ ss
  := by
  constructor
  · intro hlast s hfree hs
    apply h.mem_of_within hs hfree (hlast.lt hs)
  · intro hall
    by_contra hlast
    have hnext := le_normalize limits last
    have hmem := hall _ (h.le.trans hnext) (within_normalize hcap hlast)
    exact absurd hnext (h.mem hmem).2.not_ge

/-- If groups have no room, the first bindings of the groups are handed out one by one. -/
theorem Handed.eq_map_range
    (h : Handed limits free ss last) (hcap : limits.bindingsPerGroup ≤ 0) :
  ss = (List.range ss.length).map fun k => ⟨free.group + 1 + k, 0⟩
  := by
  induction h with
  | refl => rfl
  | @took free s free' last ss htake _ ih =>
    obtain ⟨rfl, rfl, -⟩ := take_some htake
    rw [normalize_of_nonpos hcap] at ih ⊢
    rw [List.length_cons, List.range_succ_eq_map, List.map_cons, List.map_map]
    congr 1
    conv_lhs => rw [ih]
    apply List.map_congr_left
    intro k _
    dsimp only [Function.comp]
    congr 1
    omega
  | missed htake hrest _ =>
    obtain ⟨rfl, hfull⟩ := take_none htake
    rw [(hfull.normalize.handed hrest).1]
    rfl

end Slot

/-! ### Searches that fail -/

namespace Compile

variable {c : Context} {limits : Limits}

/-- A search fails exactly if no slot is left. -/
theorem takeSlot_eq_error_iff {e : Fault} :
  (takeSlot c).result = .error e ↔
    e = noSlot c.limits ∧ Slot.Exhausted c.limits c.resources.free
  := by
  constructor
  · intro h
    have hfull : Slot.Exhausted c.limits c.resources.free := by
      by_contra hleft
      have htake : Slot.take c.limits c.resources.free = (some _, _) := if_neg hleft
      rw [takeSlot, htake] at h
      cases h
    rw [takeSlot_of_exhausted hfull] at h
    exact ⟨(Except.error.inj h).symm, hfull⟩
  · rintro ⟨rfl, hfull⟩
    exact takeSlot_of_exhausted hfull

/-- A search that fails tells that no slot is left if it can write the limits. -/
theorem slotsExhausted_eq_noSlot_iff :
  .slotsExhausted limits.groups limits.bindingsPerGroup = noSlot limits ↔
    Text.isWritable limits.groups ∧ Text.isWritable limits.bindingsPerGroup
  := by
  rw [noSlot_eq]
  split
  next h => exact iff_of_true rfl h
  next h =>
    apply iff_of_false _ h
    rintro ⟨⟩

end Compile

/-! ### Sessions -/

/-- In a session the capacity is respected: slots within the limits are handed out, and the next
search fails exactly if all of them are, from the first slot of the mode on. -/
structure Session.RespectsCapacity (c : Context) (ops : List Operation) : Prop where
  /-- The slots handed out are within the limits. -/
  within : ∀ s ∈ Session.taken c ops, s.Within c.limits
  /-- The next search fails if no slot within the limits is left, and otherwise it does not. -/
  takeSlot_eq_error_iff :
    (Compile.takeSlot (c.after ops)).result
        = .error (.slotsExhausted c.limits.groups c.limits.bindingsPerGroup) ↔
      ∀ s, c.mode.firstSlot ≤ s → s.Within c.limits → s ∈ Session.taken c ops

namespace Session

variable {mode : Mode} {limits : Limits} {components : OrderedMap Text Int}

/-- As many searches as one likes find a slot each, or no slot is left in the end. -/
theorem length_taken_or_exhausted (count : Nat) (c : Context) :
  let ops := List.replicate count .takeSlot
  (taken c ops).length = count ∨ Slot.Exhausted c.limits (c.after ops).resources.free
  := by
  induction count generalizing c with
  | zero =>
    left
    rfl
  | succ count ih =>
    intro ops
    have hrun : ops = .takeSlot :: List.replicate count .takeSlot := List.replicate_succ
    obtain ⟨free, ⟨s, -, heq⟩ | ⟨-, hfull, heq⟩⟩ := Compile.takeSlot_cases c
    · have hop : Operation.takeSlot.run c = ⟨.ok (), [], [s], c.withFree free⟩ := by
        rw [Operation.run, Compile.ignore, Compile.bind_of_ok (a := s) (by rw [heq]), heq]
        rfl
      rw [hrun, taken, Context.after, hop]
      apply (ih (c.withFree free)).imp_left
      intro hlength
      rw [List.length_append, hlength, List.length_singleton, Nat.add_comm]
    · right
      have hop : (Operation.takeSlot.run c).context = c.withFree free := by
        rw [Operation.run, Compile.context_ignore, heq]
      rw [hrun, Context.after, hop]
      obtain ⟨-, -, es, hsteps⟩ := steps (c.withFree free) (List.replicate count .takeSlot)
      exact (hfull.handed hsteps.handed).2

/-- If groups have room, there are searches behind which no slot is left. -/
theorem exists_exhausted
    (mode : Mode) (components : OrderedMap Text Int) (hcap : 0 < limits.bindingsPerGroup) :
  ∃ ops, Slot.Exhausted limits ((Context.fresh mode limits components).after ops).resources.free
  := by
  let count := limits.room mode.firstSlot.group + 1
  use List.replicate count .takeSlot
  apply (length_taken_or_exhausted count (.fresh mode limits components)).resolve_left
  intro hlength
  have hhanded : Slot.Handed limits mode.firstSlot
    (taken (.fresh mode limits components) (List.replicate count .takeSlot)) _ := handed _
  have hfirst : mode.firstSlot = ⟨mode.firstSlot.group, 0⟩ := by
    cases mode <;> rfl
  rw [hfirst] at hhanded
  have hle := hhanded.length_le hcap
  omega

/-- If groups have room, or the first search finds no group, then a search fails exactly if all slots
within the limits are handed out. -/
theorem takeSlot_eq_error_iff_forall_mem
    (hcap : 0 < limits.bindingsPerGroup ∨ Slot.Exhausted limits mode.firstSlot)
    (ops : List Operation) {e : Fault} :
  let c := Context.fresh mode limits components
  (Compile.takeSlot (c.after ops)).result = .error e ↔
    e = Compile.noSlot limits ∧
      ∀ s, mode.firstSlot ≤ s → s.Within limits → s ∈ taken c ops
  := by
  intro c
  have hhanded : Slot.Handed limits mode.firstSlot (taken c ops) (c.after ops).resources.free :=
    handed ops
  have hlimits : (c.after ops).limits = limits := (steps c ops).2.1
  rw [Compile.takeSlot_eq_error_iff, hlimits]
  apply and_congr_right
  rintro -
  by_cases hroom : 0 < limits.bindingsPerGroup
  · exact hhanded.exhausted_iff hroom
  · apply iff_of_true
    · exact ((hcap.resolve_left hroom).handed hhanded).2
    · intro s _ hs
      exact absurd hs (Slot.not_within_of_nonpos (Int.not_lt.mp hroom))

theorem respectsCapacity
    (hcap : 0 < limits.bindingsPerGroup ∨ Slot.Exhausted limits mode.firstSlot)
    (hlimits : Text.isWritable limits.groups ∧ Text.isWritable limits.bindingsPerGroup)
    (ops : List Operation) :
  RespectsCapacity (.fresh mode limits components) ops
  := by
  have hhanded : Slot.Handed limits mode.firstSlot
    (taken (.fresh mode limits components) ops) _ := handed ops
  constructor
  · intro s hs
    by_cases hroom : 0 < limits.bindingsPerGroup
    · exact hhanded.within hroom hs
    · rw [((hcap.resolve_left hroom).handed hhanded).1] at hs
      cases hs
  · apply (takeSlot_eq_error_iff_forall_mem hcap ops).trans
    exact and_iff_right (Compile.slotsExhausted_eq_noSlot_iff.mpr hlimits)

/-- If the capacity is respected in all sessions, then groups have room or the first search finds no
group, and the limits can be written when no slot is left. -/
theorem of_forall_respectsCapacity
    (hall : ∀ ops, RespectsCapacity (.fresh mode limits components) ops) :
  (0 < limits.bindingsPerGroup ∨ Slot.Exhausted limits mode.firstSlot) ∧
    Text.isWritable limits.groups ∧ Text.isWritable limits.bindingsPerGroup
  := by
  by_cases hroom : 0 < limits.bindingsPerGroup
  · refine ⟨.inl hroom, ?_⟩
    obtain ⟨ops, hfull⟩ := exists_exhausted mode components hroom
    have hhanded : Slot.Handed limits mode.firstSlot
      (taken (.fresh mode limits components) ops) _ := handed ops
    have herror := (hall ops).takeSlot_eq_error_iff.mpr ((hhanded.exhausted_iff hroom).mp hfull)
    have hfault := (takeSlot_eq_error_iff_forall_mem (.inl hroom) ops).mp herror
    exact Compile.slotsExhausted_eq_noSlot_iff.mp hfault.1
  · have herror := (hall []).takeSlot_eq_error_iff.mpr fun s _ hs =>
      absurd hs (Slot.not_within_of_nonpos (Int.not_lt.mp hroom))
    obtain ⟨hfault, hfull⟩ := Compile.takeSlot_eq_error_iff.mp herror
    exact ⟨.inr hfull, Compile.slotsExhausted_eq_noSlot_iff.mp hfault⟩

end Session

/-- In every session the slots handed out are in groups within the limits, and their bindings are
within the limits or the first ones.  If groups have room for a binding, or if no group is left
behind the first one, a search fails exactly if all slots within the limits are handed out.  The
capacity is respected in all sessions exactly in these cases, provided that the message about it can
be written.  If groups have no room, the groups behind the first one have their first bindings
handed out one by one. -/
theorem capacity_respected_iff
    (mode : Mode) (limits : Limits) (components : OrderedMap Text Int) :
  let c := Context.fresh mode limits components
  let room := 0 < limits.bindingsPerGroup ∨ limits.groups ≤ mode.firstSlot.group + 1
  (∀ ops, ∀ s ∈ Session.taken c ops,
    0 ≤ (s.group : Int) ∧ (s.group : Int) < limits.groups ∧
    0 ≤ (s.binding : Int) ∧ (s.binding : Int) < max 1 limits.bindingsPerGroup) ∧
  (room → ∀ ops e, (Compile.takeSlot (c.after ops)).result = .error e ↔
    e = .ofSlots limits.groups limits.bindingsPerGroup ∧
      ∀ s, mode.firstSlot ≤ s → s.Within limits → s ∈ Session.taken c ops) ∧
  ((∀ ops, Session.RespectsCapacity c ops) ↔
    room ∧ Text.isWritable limits.groups ∧ Text.isWritable limits.bindingsPerGroup) ∧
  (limits.bindingsPerGroup ≤ 0 → ∀ ops, Session.taken c ops
    = (List.range (Session.taken c ops).length).map fun k => ⟨mode.firstSlot.group + 1 + k, 0⟩)
  := by
  intro c room
  have hhanded : ∀ ops, Slot.Handed limits mode.firstSlot (Session.taken c ops)
      (c.after ops).resources.free := fun ops => Session.handed ops
  have hroom : room ↔ 0 < limits.bindingsPerGroup ∨ Slot.Exhausted limits mode.firstSlot := by
    apply or_congr_right'
    intro hcap
    exact (Slot.exhausted_iff_of_nonpos (Int.not_lt.mp hcap)).symm
  refine ⟨?_, ?_, ?_, fun hcap ops => (hhanded ops).eq_map_range hcap⟩
  · intro ops s hs
    have hgroup := (hhanded ops).group_lt hs
    have hbinding := (hhanded ops).binding_lt hs
    omega
  · intro h ops e
    exact Session.takeSlot_eq_error_iff_forall_mem (hroom.mp h) ops
  · rw [hroom]
    constructor
    · exact Session.of_forall_respectsCapacity
    · rintro ⟨hcap, hlimits⟩ ops
      exact Session.respectsCapacity hcap hlimits ops

/-- If groups have no room, a search hands out a binding that no group has. -/
theorem not_within_noRoom :
  let limits : Limits := { bindingsPerGroup := 0 }
  let c := Context.fresh .pure limits ∅
  Session.taken c [.takeSlot] = [⟨1, 0⟩] ∧ ¬ (⟨1, 0⟩ : Slot).Within limits ∧
    ¬ ∀ ops, Session.RespectsCapacity c ops
  := by
  intro limits c
  have hnone : ¬ (⟨1, 0⟩ : Slot).Within limits := Slot.not_within_of_nonpos le_rfl
  have htaken : Session.taken c [.takeSlot] = [⟨1, 0⟩] := by decide +kernel
  refine ⟨htaken, hnone, ?_⟩
  intro hall
  apply hnone
  apply (hall [.takeSlot]).within
  rw [htaken]
  apply List.mem_singleton_self

/-- A search that fails does not say so if the number of bindings in a group cannot be written. -/
example :
  let limits : Limits := { groups := 0, bindingsPerGroup := 10 ^ 4300 }
  (Compile.takeSlot (.fresh .pure limits ∅)).result = .error .unwritableNumber
  := by decide +kernel

end ShaderPair
