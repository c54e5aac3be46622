import Mathlib.Data.UInt

/-!
# The health of a backend

`BackendHealthState` (`conduit-core/src/health/state.rs`): `observed` is what probes and live
forwards say of a backend, `applied` is what routing reads. A verdict moves `observed`, and
`applied` with it unless the backend is frozen.

The time of the last transition and the weight factor of the latency weighting are left out; none of
the functions here reads them.

- `recordSuccess`, `recordFailure`: the outcome of a probe.
- `recordPassiveFailure`, `recordPassiveSuccess`: the outcome of a live forward.
- `Verdict`: what an outcome can do to the state.
-/

namespace Conduit

/-- Liveness of a backend. -/
inductive Health where
  | unknown | up | down
  deriving DecidableEq, Repr

inductive InitialHealthState where
  | optimistic | require1Good | requireFullRise
  deriving DecidableEq, Repr

structure PassiveFailureResult where
  applied : Health
  consecutiveFailures : UInt32
  passiveFall : UInt32
  /-- This failure moved `observed` to down. -/
  transitioned : Bool
  /-- The backend was observed down before. -/
  alreadyDown : Bool
  deriving DecidableEq, Repr

structure BackendHealthState where
  observed : Health := .unknown
  applied : Health
  frozen : Bool := false
  consecutiveSuccesses : UInt32 := 0
  consecutiveFailures : UInt32 := 0
  passiveConsecutiveFailures : UInt32 := 0
  /-- `none`: no latency sample yet. -/
  latencyEwmaMs : Option Float := none
  transitionsTotal : UInt64 := 0

/-- `saturating_add(1)`. -/
def saturatingSucc (n : UInt32) : UInt32 := if n + 1 = 0 then n else n + 1

namespace BackendHealthState

def fromInitialPolicy (initial : InitialHealthState) : BackendHealthState where
  applied := match initial with
    | .optimistic => .up
    | .require1Good | .requireFullRise => .down

def setFrozenFlag (s : BackendHealthState) (frozen : Bool) : BackendHealthState :=
  { s with frozen := frozen }

def noteTransition (s : BackendHealthState) : BackendHealthState :=
  { s with transitionsTotal := s.transitionsTotal + 1 }

def setApplied (s : BackendHealthState) (value : Health) : BackendHealthState :=
  let next := { s with applied := value }
  if s.applied ≠ value then next.noteTransition else next

def snapAppliedToObserved (s : BackendHealthState) : BackendHealthState := s.setApplied s.observed

def updateEwma (s : BackendHealthState) (rttMs alpha : Float) : BackendHealthState :=
  { s with latencyEwmaMs := some (match s.latencyEwmaMs with
    | none => rttMs
    | some prev => alpha * rttMs + (1.0 - alpha) * prev) }

/-- The end of the three `record` functions: the run is long enough for a verdict. -/
def observe (s : BackendHealthState) (value : Health) : BackendHealthState :=
  let next := { s with observed := value }
  let next := if s.observed ≠ value then next.noteTransition else next
  if next.frozen then next else next.setApplied value

/-- `record_success`; it returns the `applied` of the new state. -/
def recordSuccess (s : BackendHealthState) (rise : UInt32) (alpha rttMs : Float) :
    BackendHealthState :=
  let s := s.updateEwma rttMs alpha
  let successes := saturatingSucc s.consecutiveSuccesses
  let s := { s with consecutiveFailures := 0, consecutiveSuccesses := successes }
  if successes ≥ max rise 1 then s.observe .up else s

/-- `record_failure`; it returns the `applied` of the new state. -/
def recordFailure (s : BackendHealthState) (fall : UInt32) : BackendHealthState :=
  let failures := saturatingSucc s.consecutiveFailures
  let s := { s with consecutiveSuccesses := 0, consecutiveFailures := failures }
  if failures ≥ max fall 1 then s.observe .down else s

def recordPassiveFailure (s : BackendHealthState) (passiveFall : UInt32) :
    BackendHealthState × PassiveFailureResult :=
  let failures := saturatingSucc s.passiveConsecutiveFailures
  let next := { s with passiveConsecutiveFailures := failures }
  let trip : Bool := failures ≥ max passiveFall 1
  let next := if trip then next.observe .down else next
  (next, {
    applied := next.applied
    consecutiveFailures := failures
    passiveFall := passiveFall
    transitioned := trip && s.observed ≠ .down
    alreadyDown := s.observed = .down })

def recordPassiveSuccess (s : BackendHealthState) : BackendHealthState :=
  { s with passiveConsecutiveFailures := 0 }

/-! ## What an outcome does -/

/-- The flag stays; either the liveness stays, or there is a verdict, which `applied` follows unless
the backend is frozen. -/
def Verdict (s s' : BackendHealthState) : Prop :=
  s'.frozen = s.frozen ∧
    ((s'.observed = s.observed ∧ s'.applied = s.applied) ∨
      s'.observed ≠ .unknown ∧ s'.applied = if s.frozen then s.applied else s'.observed)

variable (s : BackendHealthState)

@[simp] theorem setApplied_observed (v : Health) : (s.setApplied v).observed = s.observed := by
  unfold setApplied
  split <;> rfl

@[simp] theorem setApplied_applied (v : Health) : (s.setApplied v).applied = v := by
  unfold setApplied
  split <;> rfl

@[simp] theorem setApplied_frozen (v : Health) : (s.setApplied v).frozen = s.frozen := by
  unfold setApplied
  split <;> rfl

theorem setApplied_self {v : Health} (h : s.applied = v) : s.setApplied v = s := by
  subst h
  simp [setApplied]

theorem observe_spec (v : Health) :
    (s.observe v).frozen = s.frozen ∧ (s.observe v).observed = v ∧
      (s.observe v).applied = if s.frozen then s.applied else v := by
  cases hf : s.frozen <;> by_cases hv : s.observed = v <;> simp [observe, noteTransition, hf, hv]

theorem verdict_observe {s₀ : BackendHealthState} {v : Health} (hv : v ≠ .unknown)
    (hfrozen : s.frozen = s₀.frozen) (happlied : s.applied = s₀.applied) :
    Verdict s₀ (s.observe v) := by
  obtain ⟨hf, ho, ha⟩ := s.observe_spec v
  refine ⟨hf.trans hfrozen, .inr ⟨?_, ?_⟩⟩
  · rw [ho]
    exact hv
  · rw [ha, ho, hfrozen, happlied]

theorem verdict_recordSuccess (rise : UInt32) (alpha rttMs : Float) :
    Verdict s (s.recordSuccess rise alpha rttMs) := by
  unfold recordSuccess
  simp only
  split
  · exact verdict_observe _ (by simp) rfl rfl
  · exact ⟨rfl, .inl ⟨rfl, rfl⟩⟩

theorem verdict_recordFailure (fall : UInt32) : Verdict s (s.recordFailure fall) := by
  unfold recordFailure
  simp only
  split
  · exact verdict_observe _ (by simp) rfl rfl
  · exact ⟨rfl, .inl ⟨rfl, rfl⟩⟩

theorem verdict_recordPassiveFailure (passiveFall : UInt32) :
    Verdict s (s.recordPassiveFailure passiveFall).1 := by
  unfold recordPassiveFailure
  simp only
  split
  · exact verdict_observe _ (by simp) rfl rfl
  · exact ⟨rfl, .inl ⟨rfl, rfl⟩⟩

theorem verdict_refl : Verdict s s := ⟨rfl, .inl ⟨rfl, rfl⟩⟩

theorem verdict_recordPassiveSuccess : Verdict s s.recordPassiveSuccess := ⟨rfl, .inl ⟨rfl, rfl⟩⟩

end BackendHealthState

end Conduit
