import ShaderPair.Proofs.LocationRanges
import ShaderPair.Proofs.Session
import Mathlib.Algebra.GroupWithZero.Nat

/-!
# Requests for locations

A `LocationRequest` asks for the locations of a variable.  Requests of both kinds may follow each
other, with preparations for another shader pair in between (`LocationStep`).  Whether it is granted
or not, a request moves the counter of its kind by the size of the variable and leaves the other
counter alone, so that a counter stands at what the requests of its kind since the last preparation
have asked for (`LocationStep.nextLocation_after`).  This says which requests are granted, and what
they are given (`locations_requested`).
-/

namespace ShaderPair

open Compile (nextLocation locationLimit)

/-! ### Requests -/

/-- A request for the locations of a variable. -/
structure LocationRequest where
  /-- The kind of the variable. -/
  kind : LocationKind
  /-- Its type. -/
  type : Text
  /-- The number of its elements; zero if it is no array. -/
  length : Nat
  deriving DecidableEq

namespace LocationRequest

/-- The number of locations asked for: those of the type for each element, and for one if there are
none. -/
def size (q : LocationRequest) : Nat := ShaderType.locationSize q.type * max 1 q.length

/-- Hands out the locations. -/
def take (q : LocationRequest) : Compile Int := Compile.takeLocation q.kind q.type q.length

/-- The number of locations that the requests of a kind ask for. -/
def demand (kind : LocationKind) (qs : List LocationRequest) : Nat :=
  ((qs.filter (·.kind = kind)).map size).sum

/-- What is given to a request if `first` locations of its kind have been asked for before. -/
def answer (q : LocationRequest) (first : Nat) (limit : Int) : Except Fault Int :=
  if (first + q.size : Int) ≤ limit then .ok first
  else .error (.ofLocations q.kind q.type (first + q.size) limit)

theorem demand_append (kind : LocationKind) (qs qs' : List LocationRequest) :
  demand kind (qs ++ qs') = demand kind qs + demand kind qs'
  := by
  simp only [demand, List.filter_append, List.map_append, List.sum_append]

theorem demand_singleton (kind : LocationKind) (q : LocationRequest) :
  demand kind [q] = if q.kind = kind then q.size else 0
  := by
  by_cases h : q.kind = kind <;> simp [demand, h]

/-- Only the requests of a kind count. -/
theorem demand_filter (kind : LocationKind) (qs : List LocationRequest) :
  demand kind (qs.filter (·.kind = kind)) = demand kind qs
  := by
  rw [demand, List.filter_filter]
  simp only [Bool.and_self]
  rfl

/-- Locations are handed out from the counter on, and they count as taken either way. -/
theorem take_apply (q : LocationRequest) {c : Context} {first : Nat}
    (h : nextLocation c.interface q.kind = first) :
  q.take c = ⟨q.answer first (locationLimit c.limits q.kind), [], [],
    { c with interface := Compile.setNextLocation c.interface (first + q.size) q.kind }⟩
  := by
  have hroom : (if (q.length : Int) = 0 then 1 else (q.length : Int)) = (max 1 q.length : Nat) := by
    split <;> omega
  rw [take, Compile.takeLocation, hroom, ← Int.natCast_mul, ← size, Compile.takeLocations_apply, h,
    answer]
  by_cases hlimit : (first + q.size : Int) ≤ locationLimit c.limits q.kind
  · rw [if_pos hlimit, if_neg (by omega)]
  · rw [if_neg hlimit, if_pos (by omega)]

/-- A request fails if another one does that comes when less has been asked for. -/
theorem answer_of_le
    {q q' : LocationRequest} {first first' : Nat} {limit : Int}
    (hle : first' + q'.size ≤ first) {fault : Fault} (h : q'.answer first' limit = .error fault) :
  q.answer first limit = .error (.ofLocations q.kind q.type (first + q.size) limit)
  := by
  rw [answer] at h
  split at h
  · cases h
  · rw [answer, if_neg (by omega)]

end LocationRequest

/-! ### Requests one after the other -/

/-- A request for locations, or the preparation for the next shader pair. -/
inductive LocationStep where
  | request (q : LocationRequest)
  | begin
  deriving DecidableEq

namespace LocationStep

open LocationRequest (demand)

/-- The operation that a step stands for. -/
def operation : LocationStep → Operation
  | request q => .takeLocation q.kind q.type q.length
  | begin => .begin

/-- Whether a step has to do with the locations of a kind. -/
def concerns (kind : LocationKind) : LocationStep → Bool
  | request q => q.kind = kind
  | begin => true

/-- The requests since the last preparation, where the requests `qs` come before. -/
def pending (qs : List LocationRequest) : List LocationStep → List LocationRequest
  | [] => qs
  | request q :: steps => pending (qs ++ [q]) steps
  | begin :: steps => pending [] steps

theorem pending_append (qs : List LocationRequest) (steps steps' : List LocationStep) :
  pending qs (steps ++ steps') = pending (pending qs steps) steps'
  := by
  induction steps generalizing qs with
  | nil => rfl
  | cons step steps ih => cases step <;> apply ih

/-- Without a preparation all requests are pending. -/
theorem prefix_pending
    (qs : List LocationRequest) {steps : List LocationStep} (h : begin ∉ steps) :
  qs <+: pending qs steps
  := by
  induction steps generalizing qs with
  | nil => apply List.prefix_refl
  | cons step steps ih =>
    obtain ⟨hstep, hsteps⟩ := not_or.mp (mt List.mem_cons.mpr h)
    cases step with
    | request q => apply (List.prefix_append qs [q]).trans (ih _ hsteps)
    | begin => exact absurd rfl hstep

/-- Steps that have nothing to do with a kind leave what is pending of it. -/
theorem pending_filter
    (kind : LocationKind) (qs : List LocationRequest) (steps : List LocationStep) :
  pending (qs.filter (·.kind = kind)) (steps.filter (concerns kind))
    = (pending qs steps).filter (·.kind = kind)
  := by
  induction steps generalizing qs with
  | nil => rfl
  | cons step steps ih =>
    cases step with
    | begin => apply ih []
    | request q =>
      rw [pending, ← ih]
      by_cases hkind : q.kind = kind <;> simp [concerns, pending, hkind]

/-- A step moves the counters by what it asks for, or back to zero. -/
theorem nextLocation_run
    {c : Context} {qs : List LocationRequest} (step : LocationStep)
    (h : ∀ kind, nextLocation c.interface kind = demand kind qs) (kind : LocationKind) :
  nextLocation (step.operation.run c).context.interface kind = demand kind (pending qs [step])
  := by
  cases step with
  | begin => cases kind <;> rfl
  | request q =>
    have hcontext : ((request q).operation.run c).context = (q.take c).context :=
      Compile.context_ignore _ c
    rw [hcontext, q.take_apply (h q.kind), pending, pending, LocationRequest.demand_append,
      LocationRequest.demand_singleton]
    have hother := h kind
    obtain ⟨kind', type, length⟩ := q
    cases kind' <;> cases kind <;> simp_all [Compile.setNextLocation, nextLocation]

/-- The counters stand at what has been asked for since the last preparation. -/
theorem nextLocation_after
    {c : Context} {qs : List LocationRequest} (steps : List LocationStep)
    (h : ∀ kind, nextLocation c.interface kind = demand kind qs) (kind : LocationKind) :
  nextLocation (c.after (steps.map operation)).interface kind = demand kind (pending qs steps)
  := by
  induction steps generalizing c qs with
  | nil => apply h
  | cons step steps ih =>
    rw [← List.singleton_append, pending_append]
    apply ih (nextLocation_run step h)

/-- What is given to a request behind some steps. -/
theorem result_take (c : Context) (steps : List LocationStep) (q : LocationRequest) :
  (q.take (c.begin.after (steps.map operation))).result
    = q.answer (demand q.kind (pending [] steps)) (locationLimit c.limits q.kind)
  := by
  have hbegin : ∀ kind, nextLocation c.begin.interface kind = demand kind [] := by
    rintro (_ | _) <;> rfl
  have hlimits : (c.begin.after (steps.map operation)).limits = c.limits :=
    (Session.steps _ _).2.1
  rw [q.take_apply (nextLocation_after steps hbegin q.kind), hlimits]

end LocationStep

open LocationRequest (demand)
open LocationStep (pending)

/-- From the beginning of a shader pair on, with any number of requests for locations and of further
beginnings behind each other, a request is granted exactly if what the requests of its kind since
the last beginning have asked for, together with its own size, is within the limit of the kind, and
then it is given the sum of what they have asked for.  Requests of the other kind do not matter.
Behind a request that fails, all others of its kind fail up to the next beginning. -/
theorem locations_requested (c : Context) (steps : List LocationStep) (q : LocationRequest) :
  let result steps q :=
    (LocationRequest.take q (c.begin.after (steps.map LocationStep.operation))).result
  let first := demand q.kind (pending [] steps)
  let limit := locationLimit c.limits q.kind
  ((∃ location, result steps q = .ok location) ↔ (first + q.size : Int) ≤ limit) ∧
  (∀ location, result steps q = .ok location → location = first) ∧
  (∀ fault, result steps q = .error fault →
    fault = .ofLocations q.kind q.type (first + q.size) limit) ∧
  result (steps.filter (LocationStep.concerns q.kind)) q = result steps q ∧
  ∀ above q' below fault, steps = above ++ .request q' :: below → LocationStep.begin ∉ below →
    q'.kind = q.kind → result above q' = .error fault → ∃ fault', result steps q = .error fault'
  := by
  intro result first limit
  have hresult : ∀ steps q, result steps q
      = q.answer (demand q.kind (pending [] steps)) (locationLimit c.limits q.kind) :=
    LocationStep.result_take c
  have hanswer := hresult steps q
  rw [LocationRequest.answer] at hanswer
  refine ⟨?_, ?_, ?_, ?_, ?_⟩
  · by_cases hlimit : (first + q.size : Int) ≤ limit
    · simp [hanswer, first, limit, hlimit]
    · simp [hanswer, first, limit, hlimit]
  · intro location h
    rw [hanswer] at h
    split at h
    · exact (Except.ok.inj h).symm
    · cases h
  · intro fault h
    rw [hanswer] at h
    split at h
    · cases h
    · exact (Except.error.inj h).symm
  · have hpending := LocationStep.pending_filter q.kind [] steps
    rw [List.filter_nil] at hpending
    rw [hresult, hresult, hpending, LocationRequest.demand_filter]
  · rintro above q' below fault rfl hbelow hkind hfault
    rw [hresult, hkind] at hfault
    rw [hresult]
    refine ⟨_, LocationRequest.answer_of_le ?_ hfault⟩
    -- the request that fails is among those that are still pending
    rw [LocationStep.pending_append, pending]
    obtain ⟨qs, hqs⟩ := LocationStep.prefix_pending (pending [] above ++ [q']) hbelow
    rw [← hqs, LocationRequest.demand_append, LocationRequest.demand_append,
      LocationRequest.demand_singleton, if_pos hkind]
    apply Nat.le_add_right

end ShaderPair
