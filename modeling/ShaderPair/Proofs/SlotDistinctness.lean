import ShaderPair.Proofs.Session

/-!
# No slot is used twice

Over the whole life of a context slots are handed out in ascending order, the slot that the
engine has reserved is not among them, and after a search that found no slot every further
search fails as well.  At no time do two resources, or two elements of a texture, hold the same
slot.
-/

namespace ShaderPair

open Resources (Placed Step Steps)

variable {mode : Mode} {limits : Limits} {components : OrderedMap Text Int}

namespace Session

/-- In a session from the start the slots handed out follow the first one. -/
theorem handed (ops : List Operation) :
  Slot.Handed limits mode.firstSlot (taken (.fresh mode limits components) ops)
    ((Context.fresh mode limits components).after ops).resources.free
  := by
  obtain ⟨-, -, es, hsteps⟩ := steps (.fresh mode limits components) ops
  apply hsteps.handed

theorem placed (ops : List Operation) :
  Placed mode ((Context.fresh mode limits components).after ops).resources
  := by
  have hfresh := Resources.placed_fresh mode
  apply preserves (c := .fresh mode limits components) Step.placed hfresh

/-- An operation that finds no slot leaves none. -/
theorem exhausted
    {c : Context} {op : Operation} {groups bindings : Int}
    (h : (op.run c).result = .error (.slotsExhausted groups bindings)) (ops : List Operation) :
  .slotsExhausted groups bindings = Compile.noSlot c.limits ∧
    taken (op.run c).context ops = [] ∧
    Slot.Exhausted c.limits ((op.run c).context.after ops).resources.free
  := by
  obtain ⟨es, heffect, -⟩ := Compile.does_run op c
  obtain ⟨-, -, es', hsteps⟩ := steps (op.run c).context ops
  have hhanded := hsteps.handed
  rw [heffect.limits_eq] at hhanded
  obtain ⟨hfault, hfull⟩ := heffect.exhausted h
  exact ⟨hfault, hfull.handed hhanded⟩

end Session

/-- Where no slot is left, a search for one fails. -/
theorem Compile.takeSlot_of_exhausted
    {c : Context} (h : Slot.Exhausted c.limits c.resources.free) :
  (takeSlot c).result = .error (noSlot c.limits)
  := by
  rw [takeSlot]
  rw [h.take]

/-- In every session slots are handed out in ascending order, without the reserved one; no slot
is held twice; and after an operation that found no slot none is ever handed out again, but every
search for one fails in the same way. -/
theorem slots_distinct
    (mode : Mode) (limits : Limits) (components : OrderedMap Text Int) (ops : List Operation) :
  let c := Context.fresh mode limits components
  (Session.taken c ops).Pairwise (· < ·) ∧
    (mode = .engine → (⟨0, 0⟩ : Slot) ∉ Session.taken c ops) ∧
    (c.after ops).resources.slots.Nodup ∧
    ∀ (op : Operation) (ops' : List Operation) (groups bindings : Int),
      (op.run (c.after ops)).result = .error (.slotsExhausted groups bindings) →
        Session.taken (c.after (ops ++ [op])) ops' = [] ∧
        (Compile.takeSlot (c.after (ops ++ op :: ops'))).result
          = .error (.slotsExhausted groups bindings)
  := by
  intro c
  have hhanded : Slot.Handed limits mode.firstSlot (Session.taken c ops) _ := Session.handed ops
  refine ⟨hhanded.pairwise, ?_, (Session.placed ops).nodup, ?_⟩
  · rintro rfl hmem
    have hle := (hhanded.mem hmem).1
    rw [Slot.le_iff] at hle
    simp [Mode.firstSlot] at hle
  · intro op ops' groups bindings hfault
    obtain ⟨hnoSlot, htaken, hexhausted⟩ := Session.exhausted hfault ops'
    have hlimits : (c.after ops).limits = limits := (Session.steps c ops).2.1
    have hlimits' : (c.after (ops ++ op :: ops')).limits = limits :=
      (Session.steps c (ops ++ op :: ops')).2.1
    constructor
    · rw [Session.after_append]
      apply htaken
    · rw [hnoSlot, hlimits, ← hlimits']
      apply Compile.takeSlot_of_exhausted
      rw [hlimits', Session.after_append, ← hlimits]
      apply hexhausted

end ShaderPair
