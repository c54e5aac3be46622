import Conduit.Lib.Table
import Conduit.Health.State

/-!
# The health registry

The table of the backends' states and the scopes that operators control
(`conduit-core/src/health/state.rs`, `control.rs`). A scope is set at a backend, at a pool or
globally; the most specific one counts. The frozen flag of a state is a copy of what its scope
resolves to.

Of the compiled configuration, what only the probe scheduler reads is left out: the intervals, the
acceptable response codes, the thresholds of the probes (the outcome of a probe brings its own), the
names and the labels.

- `HealthRegistry.fromCompiled`, `reconcile`: the table of a configuration.
- `HealthControlScopes.setLevel`, `resolve`.
- `HealthRegistry.setHealthControl`: an operator's action; `syncFrozenFlags`.
- `setHealthControl_spec`: what an action that is accepted does.
-/

namespace Conduit

structure BackendKey where
  pool : String
  address : String
  deriving DecidableEq, Repr

/-! ## The compiled configuration -/

structure CompiledBackendHealth where
  address : String
  probeQname : String := "health."
  probeQtype : UInt16 := 1
  probeSource : Option String := none
  deriving DecidableEq, Repr

structure CompiledPoolHealth where
  initialState : InitialHealthState := .optimistic
  passiveFastTrip : Bool := true
  passiveFall : UInt32 := 2
  backends : List CompiledBackendHealth
  deriving DecidableEq, Repr

/-- A map: no pool is listed twice. -/
structure CompiledHealth where
  pools : List (String × CompiledPoolHealth)
  nodup : (pools.map (·.1)).Nodup

namespace CompiledHealth

def pool (c : CompiledHealth) (name : String) : Option CompiledPoolHealth := c.pools.lookup name

/-- A backend of the configuration, with its key and its pool's policy. -/
structure Entry where
  key : BackendKey
  initial : InitialHealthState
  backend : CompiledBackendHealth

/-- The two loops over the pools and their backends. -/
def entries (c : CompiledHealth) : List Entry :=
  c.pools.flatMap fun p => p.2.backends.map fun b => ⟨⟨p.1, b.address⟩, p.2.initialState, b⟩

def keys (c : CompiledHealth) : List BackendKey := c.entries.map (·.key)

end CompiledHealth

/-! ## Scopes -/

inductive ScopeMode where
  | inherit | frozen | automatic
  deriving DecidableEq, Repr

/-- What a scope resolves to; also what a level stores. -/
inductive EffectiveScope where
  | frozen | automatic
  deriving DecidableEq, Repr

inductive HealthControlScope where
  | global
  | pool (pool : String)
  | backend (key : BackendKey)
  deriving DecidableEq, Repr

inductive HealthControlAction where
  | freeze | setUp | setDown | resumeAutomatic
  deriving DecidableEq, Repr

structure HealthControlScopes where
  global : EffectiveScope := .automatic
  pools : String → Option EffectiveScope := fun _ => none
  backends : BackendKey → Option EffectiveScope := fun _ => none

/-- `scope_to_u8`. -/
def ScopeMode.stored : ScopeMode → EffectiveScope
  | .automatic | .inherit => .automatic
  | .frozen => .frozen

namespace HealthControlScopes

def setLevel (s : HealthControlScopes) (scope : HealthControlScope) (mode : ScopeMode) :
    HealthControlScopes :=
  match scope with
  | .global => { s with global := mode.stored }
  | .pool pool =>
    { s with
      pools := Function.update s.pools pool (if mode = .inherit then none else some mode.stored) }
  | .backend key =>
    { s with
      backends := Function.update s.backends key
        (if mode = .inherit then none else some mode.stored) }

def resolve (s : HealthControlScopes) (key : BackendKey) : EffectiveScope :=
  match s.backends key with
  | some mode => mode
  | none =>
    match s.pools key.pool with
    | some mode => mode
    | none => s.global

end HealthControlScopes

/-! ## The registry -/

structure HealthRegistry where
  table : BackendKey → Option BackendHealthState
  scopes : HealthControlScopes := {}

/-- One backend that an action was applied to. -/
structure HealthControlOutcome where
  scope : HealthControlScope
  scopeState : EffectiveScope
  key : BackendKey
  applied : Health
  deriving DecidableEq, Repr

def probeSemanticsEq (a b : CompiledBackendHealth) : Bool :=
  a.probeQname == b.probeQname && a.probeQtype == b.probeQtype && a.probeSource == b.probeSource

def backendsInScope (compiled : CompiledHealth) : HealthControlScope → List BackendKey
  | .global => compiled.keys
  | .pool pool =>
    match compiled.pool pool with
    | some p => p.backends.map fun b => ⟨pool, b.address⟩
    | none => []
  | .backend key => [key]

def validateScope (compiled : CompiledHealth) : HealthControlScope → Except String Unit
  | .global => .ok ()
  | .pool pool =>
    if (compiled.pool pool).isSome then .ok () else .error s!"unknown pool {pool.quote}"
  | .backend key =>
    match compiled.pool key.pool with
    | none => .error s!"unknown pool {key.pool.quote}"
    | some p =>
      if p.backends.any fun b => b.address == key.address then .ok ()
      else .error s!"backend {key.address} not in pool {key.pool.quote}"

namespace HealthRegistry

def fromCompiled (c : CompiledHealth) : HealthRegistry where
  table := Table.insertAll (·.key) (fun e => .fromInitialPolicy e.initial) c.entries fun _ => none

/-- The state of an unchanged backend. -/
def preserved (r : HealthRegistry) (prev : CompiledHealth) (e : CompiledHealth.Entry) :
    Option BackendHealthState :=
  (r.table e.key).filter fun _ =>
    match (prev.pool e.key.pool).bind fun p => p.backends.find? (·.address == e.backend.address) with
    | some b => probeSemanticsEq b e.backend
    | none => false

def reconcile (r : HealthRegistry) (prev new : CompiledHealth) : HealthRegistry :=
  { r with
    table := Table.insertAll (·.key)
      (fun e => (r.preserved prev e).getD (.fromInitialPolicy e.initial)) new.entries fun _ => none }

def recordPassiveForwardOutcome (r : HealthRegistry) (compiled : CompiledHealth)
    (pool backend : String) (isFailure : Bool) : HealthRegistry × Option PassiveFailureResult :=
  match compiled.pool pool with
  | none => (r, none)
  | some cfg =>
    if cfg.passiveFastTrip then
      match r.table ⟨pool, backend⟩ with
      | none => (r, none)
      | some state =>
        if isFailure then
          let x := state.recordPassiveFailure cfg.passiveFall
          ({ r with table := Function.update r.table ⟨pool, backend⟩ (some x.1) }, some x.2)
        else
          ({ r with
            table := Function.update r.table ⟨pool, backend⟩ (some state.recordPassiveSuccess) }, none)
    else (r, none)

def isEffectivelyFrozen (s : HealthControlScopes) (key : BackendKey) : Bool :=
  s.resolve key = .frozen

def syncOne (s : HealthControlScopes) (key : BackendKey) (state : BackendHealthState) :
    BackendHealthState := state.setFrozenFlag (isEffectivelyFrozen s key)

def syncFrozenFlags (r : HealthRegistry) (compiled : CompiledHealth) : HealthRegistry :=
  { r with table := Table.sweep (syncOne r.scopes) compiled.keys r.table }

/-- The level that an action stores: a manual set implies freeze. -/
def actionMode : HealthControlAction → ScopeMode
  | .freeze | .setUp | .setDown => .frozen
  | .resumeAutomatic => .automatic

/-- What an action does to the state of one backend, with the scopes after it. -/
def controlOne (s : HealthControlScopes) (action : HealthControlAction) (key : BackendKey)
    (state : BackendHealthState) : BackendHealthState :=
  syncOne s key (match action with
    | .freeze => state
    | .setUp => state.setApplied .up
    | .setDown => state.setApplied .down
    | .resumeAutomatic =>
      if s.resolve key = .automatic then state.snapAppliedToObserved else state)

def scopeForBackend (scope : HealthControlScope) (key : BackendKey) : HealthControlScope :=
  match scope with
  | .global | .pool _ => .backend key
  | .backend _ => scope

/-- `set_health_control`. An action on one backend is idempotent, so the outcomes can be read off
the table after the loop. -/
def setHealthControl (r : HealthRegistry) (compiled : CompiledHealth) (scope : HealthControlScope)
    (action : HealthControlAction) : Except String (HealthRegistry × List HealthControlOutcome) := do
  validateScope compiled scope
  let affected := backendsInScope compiled scope
  if affected.isEmpty then throw "no backends in scope"
  let scopes := r.scopes.setLevel scope (actionMode action)
  let table := Table.sweep (controlOne scopes action) affected r.table
  let outcomes := affected.filterMap fun key => (table key).map fun state =>
    ⟨scopeForBackend scope key, scopes.resolve key, key, state.applied⟩
  return (⟨table, scopes⟩, outcomes)

/-! ## What the functions do -/

theorem controlOne_idem (s : HealthControlScopes) (action : HealthControlAction) (key : BackendKey)
    (state : BackendHealthState) :
    controlOne s action key (controlOne s action key state) = controlOne s action key state := by
  have hset : ∀ v, ((state.setApplied v).setFrozenFlag (isEffectivelyFrozen s key)).setApplied v =
      (state.setApplied v).setFrozenFlag (isEffectivelyFrozen s key) := fun v =>
    BackendHealthState.setApplied_self _ (by simp [BackendHealthState.setFrozenFlag])
  cases action with
  | freeze => rfl
  | setUp | setDown =>
    simp only [controlOne, syncOne, hset]
    rfl
  | resumeAutomatic =>
    by_cases hs : s.resolve key = .automatic
    · simp only [controlOne, syncOne, hs, if_true, BackendHealthState.snapAppliedToObserved]
      rw [show ((state.setApplied state.observed).setFrozenFlag
        (isEffectivelyFrozen s key)).observed = state.observed by
          simp [BackendHealthState.setFrozenFlag], hset]
      rfl
    · simp [controlOne, syncOne, hs, BackendHealthState.setFrozenFlag]

/-- An action that is accepted sets the level of its scope and treats every backend of the scope. -/
theorem setHealthControl_spec {r r' : HealthRegistry} {compiled : CompiledHealth}
    {scope : HealthControlScope} {action : HealthControlAction} {outs : List HealthControlOutcome}
    (h : r.setHealthControl compiled scope action = .ok (r', outs)) :
    r'.scopes = r.scopes.setLevel scope (actionMode action) ∧
      ∀ key, r'.table key = if key ∈ backendsInScope compiled scope
        then (r.table key).map (controlOne r'.scopes action key) else r.table key := by
  unfold setHealthControl at h
  cases hv : validateScope compiled scope with
  | error e =>
    rw [hv] at h
    cases h
  | ok u =>
    rw [hv] at h
    by_cases hempty : (backendsInScope compiled scope).isEmpty
    · simp [hempty] at h
      cases h
    · simp only [hempty] at h
      cases h
      exact ⟨rfl, fun key => Table.sweep_eq (controlOne_idem _ _) _ _ _⟩

theorem syncFrozenFlags_table (r : HealthRegistry) (compiled : CompiledHealth) (key : BackendKey) :
    (r.syncFrozenFlags compiled).table key =
      if key ∈ compiled.keys then (r.table key).map (syncOne r.scopes key) else r.table key :=
  Table.sweep_eq (f := syncOne r.scopes) (fun _ _ => rfl) _ _ _

/-- After a reconcile, a backend has its state from before, or a fresh one. -/
theorem reconcile_table {r : HealthRegistry} {prev new : CompiledHealth} {key : BackendKey}
    {state : BackendHealthState} (h : (r.reconcile prev new).table key = some state) :
    ∃ e ∈ new.entries, e.key = key ∧ (r.table key = some state ∨
      r.preserved prev e = none ∧ state = .fromInitialPolicy e.initial) := by
  simp only [reconcile, Table.insertAll_eq, Option.or_none] at h
  obtain ⟨e, he, hstate⟩ := Option.map_eq_some_iff.mp h
  obtain ⟨hm, hkey⟩ := Table.lastWith_mem he
  refine ⟨e, hm, hkey, ?_⟩
  cases hp : r.preserved prev e with
  | none =>
    rw [hp] at hstate
    exact .inr ⟨rfl, hstate.symm⟩
  | some st =>
    rw [hp] at hstate
    cases hstate
    obtain ⟨hst, -⟩ := Option.filter_eq_some_iff.mp hp
    exact .inl (hkey ▸ hst)

theorem fromCompiled_table {c : CompiledHealth} {key : BackendKey} {state : BackendHealthState}
    (h : (fromCompiled c).table key = some state) :
    ∃ e ∈ c.entries, e.key = key ∧ state = .fromInitialPolicy e.initial := by
  simp only [fromCompiled, Table.insertAll_eq, Option.or_none] at h
  obtain ⟨e, he, hstate⟩ := Option.map_eq_some_iff.mp h
  obtain ⟨hm, hkey⟩ := Table.lastWith_mem he
  exact ⟨e, hm, hkey, hstate.symm⟩

theorem verdict_update {t : BackendKey → Option BackendHealthState} {k key : BackendKey}
    {state new state' : BackendHealthState} (hst : t k = some state) (hv : state.Verdict new)
    (h : Function.update t k (some new) key = some state') :
    ∃ state, t key = some state ∧ state.Verdict state' := by
  by_cases hkey : key = k
  · subst hkey
    rw [Function.update_self] at h
    cases h
    exact ⟨state, hst, hv⟩
  · rw [Function.update_of_ne hkey] at h
    exact ⟨state', h, state'.verdict_refl⟩

theorem recordPassiveForwardOutcome_spec (r : HealthRegistry) (compiled : CompiledHealth)
    (pool backend : String) (isFailure : Bool) :
    (r.recordPassiveForwardOutcome compiled pool backend isFailure).1.scopes = r.scopes ∧
      ∀ key state', (r.recordPassiveForwardOutcome compiled pool backend isFailure).1.table key =
        some state' → ∃ state, r.table key = some state ∧ state.Verdict state' := by
  have hsame : ∀ key state', r.table key = some state' →
      ∃ state, r.table key = some state ∧ state.Verdict state' := fun key state' hst =>
    ⟨state', hst, state'.verdict_refl⟩
  unfold recordPassiveForwardOutcome
  split
  · exact ⟨rfl, hsame⟩
  · split
    · split
      · exact ⟨rfl, hsame⟩
      · rename_i hst
        split
        · exact ⟨rfl, fun _ _ => verdict_update hst (BackendHealthState.verdict_recordPassiveFailure _ _)⟩
        · exact ⟨rfl, fun _ _ => verdict_update hst (BackendHealthState.verdict_recordPassiveSuccess _)⟩
    · exact ⟨rfl, hsame⟩

end HealthRegistry

end Conduit
