import Mathlib.Algebra.GroupWithZero.Nat
import Conduit.Config.Validate
import Conduit.Core.Inflight

/-!
# Backend selection

The weighted pick of the route stage (`routing.rs`): the backends of the pool that the transaction
has not tried, restricted to the eligible ones unless the pool fails open, and one of them by the
transaction's id and the generation of the snapshot.

A socket address is its canonical text; `parse` gives it for the address of a backend.

- `selectBackend`: the source's `select_backend`.
- `selectBackend_spec`: what is selected is a backend of the pool, and on a retry not a tried one.
-/

namespace Conduit

open Config (Pool Backend effectiveBackendWeight)

structure PoolHealthView where
  minEligible : Nat
  latencyWeighting : Bool
  /-- `backend_eligible`. -/
  eligible : String → Bool
  /-- The damped latency factor; `none`: no state for the backend. -/
  weightFactor : String → Option Float

def effectiveWeight (configured : Nat) (factor : Float) : Nat :=
  max (configured.toFloat * factor).round.toInt64.toInt 1 |>.toNat

/-- A backend with its parsed address. -/
abbrev Candidate := Backend × String

/-- The parseable backends that were not tried. -/
def candidates (parse : String → Option String) (attemptCount : Nat) (tried : List String)
    (backends : List Backend) : List Candidate :=
  backends.filterMap fun b =>
    match parse b.address with
    | none => none
    | some addr => if attemptCount > 0 ∧ addr ∈ tried then none else some (b, addr)

/-- The eligible candidates, or all of them if the pool fails open; and if latency weighs. -/
def chosen (pool : Pool) (health : Option PoolHealthView) (cs : List Candidate) :
    List Candidate × Bool :=
  match health with
  | some view =>
    let eligible := cs.filter fun c => view.eligible c.2
    if pool.backends.length ≤ 1 ∨ eligible.length < max view.minEligible 1 then (cs, false)
    else (eligible, view.latencyWeighting)
  | none => (cs, false)

def weightOf (health : Option PoolHealthView) (useLatency : Bool) (c : Candidate) : Nat :=
  let configured := effectiveBackendWeight c.1
  if useLatency then
    match health.bind (·.weightFactor c.2) with
    | some factor => effectiveWeight configured factor
    | none => configured
  else configured

/-- The loop of the pick: the first candidate whose accumulated weight exceeds `pick`. -/
def pickWeighted (weight : Candidate → Nat) (pick : Nat) : Nat → List Candidate → Option Candidate
  | _, [] => none
  | acc, c :: cs =>
    if pick < acc + weight c then some c else pickWeighted weight pick (acc + weight c) cs

/-- `select_backend`: the pool and the address. -/
def selectBackend (parse : String → Option String) (pools : List Pool) (poolName : String)
    (txnId generation attemptCount : Nat) (tried : List String) (health : Option PoolHealthView) :
    Option (String × String) :=
  match pools.find? (·.name == poolName) with
  | none => none
  | some pool =>
    let cs := candidates parse attemptCount tried pool.backends
    if pool.backends.isEmpty || cs.isEmpty then none
    else
      let (cs, useLatency) := chosen pool health cs
      let weight := weightOf health useLatency
      let total := (cs.map weight).sum
      if total = 0 then none
      else
        let pick := (txnId + generation) % 2 ^ 64 % total
        ((pickWeighted weight pick 0 cs).or cs.getLast?).map fun c => (poolName, c.2)

variable {c : Candidate} {cs : List Candidate}

theorem pickWeighted_mem {weight : Candidate → Nat} {pick acc : Nat}
    (h : pickWeighted weight pick acc cs = some c) : c ∈ cs := by
  induction cs generalizing acc with
  | nil => cases h
  | cons x cs ih =>
    rw [pickWeighted] at h
    split at h
    · cases h
      exact List.mem_cons_self
    · exact List.mem_cons_of_mem _ (ih h)

variable {health : Option PoolHealthView}

theorem chosen_subset {pool : Pool} (h : c ∈ (chosen pool health cs).1) : c ∈ cs := by
  unfold chosen at h
  split at h
  · simp only at h
    split at h
    · exact h
    · exact (List.mem_filter.mp h).1
  · exact h

variable {attemptCount : Nat} {tried : List String} {parse : String → Option String}

theorem mem_candidates {backends : List Backend}
    (h : c ∈ candidates parse attemptCount tried backends) :
    c.1 ∈ backends ∧ parse c.1.address = some c.2 ∧ (attemptCount > 0 → c.2 ∉ tried) := by
  obtain ⟨b, hb, hc⟩ := List.mem_filterMap.mp h
  split at hc
  · cases hc
  · rename_i addr hparse
    split at hc
    · cases hc
    · rename_i hnot
      cases hc
      exact ⟨hb, hparse, fun hpos hmem => hnot ⟨hpos, hmem⟩⟩

/-- What is selected: a backend of the named pool, by its parsed address; on a retry, none that was
tried. -/
theorem selectBackend_spec {pools : List Pool} {poolName : String} {txnId generation : Nat}
    {p addr : String}
    (h : selectBackend parse pools poolName txnId generation attemptCount tried health =
      some (p, addr)) :
    p = poolName ∧ (attemptCount > 0 → addr ∉ tried) ∧
      ∃ pool ∈ pools, pool.name = poolName ∧ ∃ b ∈ pool.backends, parse b.address = some addr := by
  unfold selectBackend at h
  split at h
  · cases h
  rename_i pool hpool
  simp only at h
  split at h
  · cases h
  split at h
  · cases h
  obtain ⟨c, hc, hres⟩ := Option.map_eq_some_iff.mp h
  cases hres
  have hmem : c ∈ (chosen pool health (candidates parse attemptCount tried pool.backends)).1 := by
    rcases Option.or_eq_some_iff.mp hc with hpick | ⟨-, hlast⟩
    · exact pickWeighted_mem hpick
    · exact List.mem_of_getLast? hlast
  obtain ⟨hb, hparse, hnew⟩ := mem_candidates (chosen_subset hmem)
  refine ⟨rfl, hnew, pool, List.mem_of_find?_eq_some hpool, ?_, c.1, hb, hparse⟩
  simpa using List.find?_some hpool

end Conduit
