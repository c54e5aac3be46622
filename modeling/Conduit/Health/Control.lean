import Conduit.Lib.Lts
import Conduit.Health.Registry

/-!
# Scopes and flags

The health registry over whole runs: operators' actions, outcomes of probes and of live forwards,
and configuration swaps (`SnapshotStore::try_swap`).

- `healthStore`: the transition system; `KeyStep`: what a step can do to one backend.
- `FrozenConsistent`: the frozen flag of a backend says what its scope resolves to, and no outcome
  changes the `applied` of a frozen backend. `frozenConsistent_of_fresh`: it holds in every run in
  which a backend that gets a fresh state resolves to automatic; `fresh_backend_not_frozen`.
- `Follows`: a backend that resolves to automatic follows its observations. `follows_of_uncarved`:
  it holds in every run in which no manual set reaches a backend that a narrower level keeps
  automatic; `carved_out_set`.
-/

namespace Conduit

/-- The current compiled configuration, and the registry beside it. -/
structure HealthStore where
  compiled : CompiledHealth
  registry : HealthRegistry

/-- What a probe reports; the thresholds are those that the probe loop has for the backend. -/
inductive ProbeOutcome where
  | success (rise : UInt32) (alpha rttMs : Float)
  | failure (fall : UInt32)

def ProbeOutcome.record (s : BackendHealthState) : ProbeOutcome → BackendHealthState
  | .success rise alpha rttMs => s.recordSuccess rise alpha rttMs
  | .failure fall => s.recordFailure fall

inductive HealthAct where
  | control (scope : HealthControlScope) (action : HealthControlAction)
  | probe (key : BackendKey) (o : ProbeOutcome)
  | forward (pool backend : String) (isFailure : Bool)
  /-- The health of the backends is listed or exported. -/
  | list
  | swap (new : CompiledHealth)

/-- The action is the outcome of a probe or of a live forward. -/
def HealthAct.isOutcome : HealthAct → Bool
  | .probe _ _ | .forward _ _ _ => true
  | _ => false

namespace HealthStore

/-- A probe of a backend that the table does not have any more changes nothing in it. -/
def recordProbe (r : HealthRegistry) (key : BackendKey) (o : ProbeOutcome) : HealthRegistry :=
  match r.table key with
  | some state => { r with table := Function.update r.table key (some (o.record state)) }
  | none => r

def step (s : HealthStore) : HealthAct → HealthStore
  | .control scope action =>
    match s.registry.setHealthControl s.compiled scope action with
    | .ok (r, _) => { s with registry := r }
    | .error _ => s
  | .probe key o => { s with registry := recordProbe s.registry key o }
  | .forward pool backend isFailure =>
    { s with registry :=
        (s.registry.recordPassiveForwardOutcome s.compiled pool backend isFailure).1 }
  | .list => { s with registry := s.registry.syncFrozenFlags s.compiled }
  | .swap new => { compiled := new, registry := s.registry.reconcile s.compiled new }

end HealthStore

/-- The registry of any configuration, at its start. -/
abbrev healthStore : Lts where
  St := HealthStore
  Act := HealthAct
  init s := s.registry = .fromCompiled s.compiled
  step s a := some (s.step a)

/-! ## Scopes -/

namespace CompiledHealth

variable {c : CompiledHealth} {key : BackendKey}

theorem mem_keys : key ∈ c.keys ↔
    ∃ p, c.pool key.pool = some p ∧ ∃ b ∈ p.backends, b.address = key.address := by
  have hlookup : ∀ name p, (name, p) ∈ c.pools ↔ c.pool name = some p :=
    fun name p => (Table.lookup_iff_mem c.nodup).symm
  simp only [keys, entries, List.mem_map, List.mem_flatMap]
  constructor
  · rintro ⟨e, ⟨⟨name, p⟩, hp, b, hb, rfl⟩, rfl⟩
    exact ⟨p, (hlookup name p).mp hp, b, hb, rfl⟩
  · rintro ⟨p, hp, b, hb, hkey⟩
    refine ⟨⟨⟨key.pool, b.address⟩, p.initialState, b⟩, ⟨(key.pool, p), (hlookup _ _).mpr hp, b, hb,
      rfl⟩, ?_⟩
    cases key
    simp_all

/-- The backends that a level of the scope can concern are those that an action treats. -/
theorem mem_backendsInScope (hkey : key ∈ c.keys) {scope : HealthControlScope}
    (hscope : match scope with
      | .global => True
      | .pool pool => key.pool = pool
      | .backend k => key = k) : key ∈ backendsInScope c scope := by
  cases scope with
  | global => exact hkey
  | pool pool =>
    subst hscope
    obtain ⟨p, hp, b, hb, haddr⟩ := mem_keys.mp hkey
    simp only [backendsInScope, hp, List.mem_map]
    exact ⟨b, hb, by rw [haddr]⟩
  | backend k =>
    subst hscope
    exact List.mem_singleton.mpr rfl

end CompiledHealth

namespace HealthControlScopes

variable {s : HealthControlScopes} {key : BackendKey} {scope : HealthControlScope} {mode : ScopeMode}

/-- A narrower level than the scope's keeps the backend automatic. -/
def carvedOut (s : HealthControlScopes) (scope : HealthControlScope) (key : BackendKey) : Bool :=
  match scope with
  | .global =>
    match s.backends key with
    | some mode => mode = .automatic
    | none => s.pools key.pool = some .automatic
  | .pool _ => s.backends key = some .automatic
  | .backend _ => false

/-- A level concerns the backends of its scope only. -/
theorem resolve_setLevel_of_not_mem {c : CompiledHealth} (hkey : key ∈ c.keys)
    (hnot : key ∉ backendsInScope c scope) : (s.setLevel scope mode).resolve key = s.resolve key := by
  have hout := fun h => hnot (CompiledHealth.mem_backendsInScope hkey h)
  cases scope with
  | global => exact absurd trivial hout
  | pool pool => simp [resolve, setLevel, Function.update_of_ne (show key.pool ≠ pool from hout)]
  | backend k => simp [resolve, setLevel, Function.update_of_ne (show key ≠ k from hout)]

/-- A backend that is still automatic when its scope is frozen is carved out of the scope, and was
automatic before. -/
theorem carvedOut_of_automatic {c : CompiledHealth} (hmem : key ∈ backendsInScope c scope)
    (h : (s.setLevel scope .frozen).resolve key = .automatic) :
    s.carvedOut scope key = true ∧ s.resolve key = .automatic := by
  cases scope with
  | global =>
    simp only [resolve, setLevel, carvedOut, ScopeMode.stored] at h ⊢
    cases hb : s.backends key with
    | some m =>
      simp only [hb] at h
      simp [h]
    | none =>
      cases hp : s.pools key.pool with
      | some m =>
        simp only [hb, hp] at h
        simp [h]
      | none => simp [hb, hp] at h
  | pool pool =>
    have hpool : key.pool = pool := by
      simp only [backendsInScope] at hmem
      split at hmem
      · obtain ⟨b, -, rfl⟩ := List.mem_map.mp hmem
        rfl
      · cases hmem
    simp only [resolve, setLevel, carvedOut] at h ⊢
    cases hb : s.backends key with
    | some m =>
      simp only [hb] at h
      simp [h]
    | none => simp [hb, hpool, ScopeMode.stored] at h
  | backend k =>
    cases List.mem_singleton.mp hmem
    simp [resolve, setLevel, ScopeMode.stored] at h

end HealthControlScopes

/-! ## Steps -/

/-- What a step can do to the state of one backend. -/
inductive KeyStep (s : HealthStore) (a : HealthAct) (s' : HealthStore) (key : BackendKey)
    (state' : BackendHealthState) : Prop
  | same (hst : s.registry.table key = some state')
      (hres : s'.registry.scopes.resolve key = s.registry.scopes.resolve key)
  | verdict {state : BackendHealthState} (hst : s.registry.table key = some state)
      (hv : state.Verdict state') (hscopes : s'.registry.scopes = s.registry.scopes)
  | control {scope : HealthControlScope} {action : HealthControlAction} {state : BackendHealthState}
      (ha : a = .control scope action) (hst : s.registry.table key = some state)
      (hmem : key ∈ backendsInScope s.compiled scope)
      (hscopes : s'.registry.scopes =
        s.registry.scopes.setLevel scope (HealthRegistry.actionMode action))
      (hst' : state' = HealthRegistry.controlOne s'.registry.scopes action key state)
  | list {state : BackendHealthState} (hst : s.registry.table key = some state)
      (hst' : state' = HealthRegistry.syncOne s'.registry.scopes key state)
      (hscopes : s'.registry.scopes = s.registry.scopes)
  | fresh {new : CompiledHealth} {e : CompiledHealth.Entry} (ha : a = .swap new)
      (he : e ∈ new.entries) (hkey : e.key = key)
      (hnone : s.registry.preserved s.compiled e = none)
      (hst' : state' = .fromInitialPolicy e.initial)
      (hscopes : s'.registry.scopes = s.registry.scopes)

/-- The table has the backends of the configuration only. -/
def HealthStore.Covered (s : HealthStore) : Prop :=
  ∀ key state, s.registry.table key = some state → key ∈ s.compiled.keys

section

variable {s : HealthStore} {a : HealthAct} {key : BackendKey} {state' : BackendHealthState}

theorem ProbeOutcome.verdict_record (o : ProbeOutcome) (state : BackendHealthState) :
    state.Verdict (o.record state) := by
  cases o with
  | success rise alpha rttMs => exact state.verdict_recordSuccess rise alpha rttMs
  | failure fall => exact state.verdict_recordFailure fall

theorem recordProbe_spec (r : HealthRegistry) (k : BackendKey) (o : ProbeOutcome) :
    (HealthStore.recordProbe r k o).scopes = r.scopes ∧
      ∀ key state', (HealthStore.recordProbe r k o).table key = some state' →
        ∃ state, r.table key = some state ∧ state.Verdict state' := by
  unfold HealthStore.recordProbe
  split
  · rename_i state hk
    exact ⟨rfl, fun key state' h => HealthRegistry.verdict_update hk (o.verdict_record state) h⟩
  · exact ⟨rfl, fun key state' h => ⟨state', h, state'.verdict_refl⟩⟩

theorem keyStep_control (hcov : s.Covered) {scope : HealthControlScope}
    {action : HealthControlAction}
    (h : (s.step (.control scope action)).registry.table key = some state') :
    KeyStep s (.control scope action) (s.step (.control scope action)) key state' := by
  simp only [HealthStore.step] at h ⊢
  cases hr : s.registry.setHealthControl s.compiled scope action with
  | error e =>
    simp only [hr] at h
    exact .same h rfl
  | ok x =>
    obtain ⟨r, outs⟩ := x
    obtain ⟨hscopes, htable⟩ := HealthRegistry.setHealthControl_spec hr
    simp only [hr, htable] at h
    split at h
    · rename_i hmem
      obtain ⟨state, hst, rfl⟩ := Option.map_eq_some_iff.mp h
      exact .control rfl hst hmem hscopes rfl
    · rename_i hnot
      refine .same h ?_
      simp only [hscopes]
      exact HealthControlScopes.resolve_setLevel_of_not_mem (hcov key state' h) hnot

/-- Every step does one of these to a backend. -/
theorem health_step_cases (hcov : s.Covered) (h : (s.step a).registry.table key = some state') :
    KeyStep s a (s.step a) key state' := by
  cases a with
  | control scope action => exact keyStep_control hcov h
  | probe k o =>
    obtain ⟨hscopes, hv⟩ := recordProbe_spec s.registry k o
    obtain ⟨state, hst, hverdict⟩ := hv key state' h
    exact .verdict hst hverdict hscopes
  | forward pool backend isFailure =>
    obtain ⟨hscopes, hv⟩ :=
      s.registry.recordPassiveForwardOutcome_spec s.compiled pool backend isFailure
    obtain ⟨state, hst, hverdict⟩ := hv key state' h
    exact .verdict hst hverdict hscopes
  | list =>
    simp only [HealthStore.step, HealthRegistry.syncFrozenFlags_table] at h
    split at h
    · obtain ⟨state, hst, rfl⟩ := Option.map_eq_some_iff.mp h
      exact .list hst rfl rfl
    · exact .same h rfl
  | swap new =>
    obtain ⟨e, he, hkey, hst | ⟨hnone, hst⟩⟩ := HealthRegistry.reconcile_table h
    · exact .same hst rfl
    · exact .fresh rfl he hkey hnone hst rfl

theorem covered_step (hcov : s.Covered) : (s.step a).Covered := by
  intro key state' h
  cases a with
  | swap new =>
    obtain ⟨e, he, hkey, -⟩ := HealthRegistry.reconcile_table h
    exact List.mem_map.mpr ⟨e, he, hkey⟩
  | control scope action =>
    have hcompiled : (s.step (.control scope action)).compiled = s.compiled := by
      simp only [HealthStore.step]
      split <;> rfl
    rw [hcompiled]
    cases health_step_cases hcov h with
    | same hst | verdict hst | control _ hst | list hst => exact hcov _ _ hst
    | fresh ha => cases ha
  | probe _ _ | forward _ _ _ | list =>
    cases health_step_cases hcov h with
    | same hst | verdict hst | control _ hst | list hst => exact hcov _ _ hst
    | fresh ha => cases ha

theorem covered_init (h : healthStore.init s) : s.Covered := by
  intro key state hst
  rw [show s.registry = _ from h] at hst
  obtain ⟨e, he, hkey, -⟩ := HealthRegistry.fromCompiled_table hst
  exact List.mem_map.mpr ⟨e, he, hkey⟩

theorem covered {C : HealthStore → HealthAct → Prop} (h : healthStore.Reach C s) : s.Covered := by
  refine Lts.Reach.inv (P := HealthStore.Covered) (fun _ => covered_init) ?_ h
  rintro s a s' - hcov - he
  cases he
  exact covered_step hcov

end

/-! ## The frozen flag -/

structure FrozenConsistent (s : HealthStore) : Prop where
  flag : ∀ key state, s.registry.table key = some state →
    (state.frozen = true ↔ s.registry.scopes.resolve key = .frozen)
  /-- An outcome leaves the `applied` of a frozen backend alone. -/
  held : ∀ key state, s.registry.table key = some state →
    s.registry.scopes.resolve key = .frozen → ∀ a : HealthAct, a.isOutcome = true →
      ∀ state', (s.step a).registry.table key = some state' → state'.applied = state.applied

/-- A backend for which a swap makes a fresh state resolves to automatic. -/
def FreshAutomatic (s : HealthStore) : HealthAct → Prop
  | .swap new => ∀ e ∈ new.entries, (s.registry.preserved s.compiled e).isNone = true →
      s.registry.scopes.resolve e.key = .automatic
  | _ => True

instance (s : HealthStore) (a : HealthAct) : Decidable (FreshAutomatic s a) := by
  unfold FreshAutomatic
  split <;> infer_instance

/-- The frozen flags say what the scopes resolve to. -/
def HealthStore.Flagged (s : HealthStore) : Prop :=
  ∀ key state, s.registry.table key = some state →
    (state.frozen = true ↔ s.registry.scopes.resolve key = .frozen)

section

variable {s : HealthStore} {a : HealthAct} {key : BackendKey} {state' : BackendHealthState}

theorem syncOne_frozen (scopes : HealthControlScopes) (state : BackendHealthState) :
    (HealthRegistry.syncOne scopes key state).frozen = true ↔ scopes.resolve key = .frozen := by
  simp [HealthRegistry.syncOne, HealthRegistry.isEffectivelyFrozen,
    BackendHealthState.setFrozenFlag]

theorem flagged_step (hcov : s.Covered) (hflag : s.Flagged) (hfresh : FreshAutomatic s a) :
    (s.step a).Flagged := by
  intro key state' h
  cases health_step_cases hcov h with
  | same hst hres =>
    rw [hres]
    exact hflag key state' hst
  | verdict hst hv hscopes =>
    rw [hv.1, hscopes]
    exact hflag key _ hst
  | control ha hst hmem hscopes hst' | list hst hst' hscopes =>
    rw [hst']
    exact syncOne_frozen _ _
  | fresh ha he hkey hnone hst' hscopes =>
    subst ha
    have hauto := hfresh _ he (by rw [hnone]; rfl)
    rw [hkey] at hauto
    rw [hst', hscopes, hauto]
    simp [BackendHealthState.fromInitialPolicy]

theorem outcome_verdict (ha : a.isOutcome = true)
    (h : (s.step a).registry.table key = some state') :
    ∃ state, s.registry.table key = some state ∧ state.Verdict state' := by
  cases a with
  | probe k o => exact (recordProbe_spec s.registry k o).2 _ _ h
  | forward pool backend isFailure =>
    exact (s.registry.recordPassiveForwardOutcome_spec s.compiled pool backend isFailure).2 _ _ h
  | control _ _ | list | swap _ => cases ha

theorem frozenConsistent_of_flagged (hflag : s.Flagged) : FrozenConsistent s := by
  refine ⟨hflag, fun key state hst hres a ha state' h => ?_⟩
  obtain ⟨st, hst', hf, ⟨-, happlied⟩ | ⟨-, happlied⟩⟩ := outcome_verdict ha h
  · rw [hst] at hst'
    cases hst'
    exact happlied
  · rw [hst] at hst'
    cases hst'
    rw [happlied, (hflag key state hst).mpr hres, if_pos rfl]

end

/-- **In every run in which the backends that a swap gives a fresh state resolve to automatic, the
frozen flag of a backend is set exactly when its scope resolves to frozen, and no outcome changes
what is applied to a frozen backend.** -/
theorem frozenConsistent_of_fresh {s : HealthStore} (h : healthStore.Reach FreshAutomatic s) :
    FrozenConsistent s := by
  refine frozenConsistent_of_flagged (Lts.Reach.inv (P := HealthStore.Flagged) ?_ ?_ h)
  · intro s hinit key state hst
    rw [show s.registry = _ from hinit] at hst ⊢
    obtain ⟨e, -, -, rfl⟩ := HealthRegistry.fromCompiled_table hst
    simp [BackendHealthState.fromInitialPolicy, HealthRegistry.fromCompiled,
      HealthControlScopes.resolve]
  · rintro s a s' hr hflag hfresh he
    cases he
    exact flagged_step (covered hr) hflag hfresh

/-- A configuration with one pool, `default`, and the given backends. -/
def samplePool (addresses : List String) : CompiledHealth where
  pools := [("default", { backends := addresses.map fun a => { address := a } })]
  nodup := by simp

def sampleStore (addresses : List String) : HealthStore :=
  ⟨samplePool addresses, .fromCompiled (samplePool addresses)⟩

/-- A backend is added and frozen with its pool; then a probe of it fails. -/
def sampleFreeze : List HealthAct :=
  [.swap (samplePool ["192.0.2.1:53", "192.0.2.2:53"]), .control (.pool "default") .freeze,
    .probe ⟨"default", "192.0.2.2:53"⟩ (.failure 1)]

theorem frozenConsistent_of_fresh_sample :
    ∃ s, healthStore.Reach FreshAutomatic s ∧
      (s.registry.table ⟨"default", "192.0.2.2:53"⟩).map
        (fun st => (st.frozen, st.observed, st.applied)) =
        some (true, .down, .up) ∧ FrozenConsistent s := by
  obtain ⟨s, hr, hobs⟩ := Lts.exists_exec (L := healthStore) FreshAutomatic
    (s := sampleStore ["192.0.2.1:53"]) sampleFreeze
    (fun s => (s.registry.table ⟨"default", "192.0.2.2:53"⟩).map
      (fun st => (st.frozen, st.observed, st.applied)) = some (true, .down, .up))
    rfl (by decide +kernel)
  exact ⟨s, hr, hobs, frozenConsistent_of_fresh hr⟩

/-- The pool is frozen, a backend is added to it, and a probe of it fails. -/
def sampleLateBackend : List HealthAct :=
  [.control (.pool "default") .freeze, .swap (samplePool ["192.0.2.1:53", "192.0.2.2:53"]),
    .probe ⟨"default", "192.0.2.2:53"⟩ (.failure 1)]

/-- A backend that is added to a frozen pool is not frozen, and the probe changes what is applied.
-/
theorem fresh_backend_not_frozen :
    ∃ s, healthStore.Reach Lts.Any s ∧
      s.registry.scopes.resolve ⟨"default", "192.0.2.2:53"⟩ = .frozen ∧
      (s.registry.table ⟨"default", "192.0.2.2:53"⟩).map (fun st => (st.frozen, st.applied)) =
        some (false, .down) :=
  Lts.exists_exec (L := healthStore) Lts.Any (s := sampleStore ["192.0.2.1:53"]) sampleLateBackend _
    rfl (by decide +kernel)

/-! ## Automatic backends -/

/-- A backend that resolves to automatic and has a verdict follows it. -/
def Follows (s : HealthStore) : Prop :=
  ∀ key state, s.registry.table key = some state → s.registry.scopes.resolve key = .automatic →
    state.observed ≠ .unknown → state.applied = state.observed

/-- The value that a manual set applies. -/
def HealthControlAction.target : HealthControlAction → Option Health
  | .setUp => some .up
  | .setDown => some .down
  | .freeze | .resumeAutomatic => none

/-- A manual set reaches no backend that a narrower level keeps automatic and whose verdict it
contradicts. -/
def Uncarved (s : HealthStore) : HealthAct → Prop
  | .control scope action =>
    ∀ key ∈ backendsInScope s.compiled scope, s.registry.scopes.carvedOut scope key = true →
      ∀ v ∈ action.target.toList, ∀ state ∈ (s.registry.table key).toList,
        state.observed = .unknown ∨ state.observed = v
  | _ => True

instance (s : HealthStore) (a : HealthAct) : Decidable (Uncarved s a) := by
  unfold Uncarved
  split <;> infer_instance

/-- A frozen flag is set only where the scope resolves to frozen. -/
structure Following (s : HealthStore) : Prop where
  flag : ∀ key state, s.registry.table key = some state → state.frozen = true →
    s.registry.scopes.resolve key = .frozen
  follows : Follows s

section

variable {s : HealthStore} {a : HealthAct}

theorem flag_step (hcov : s.Covered) (hs : Following s) {key : BackendKey}
    {state' : BackendHealthState} (h : (s.step a).registry.table key = some state')
    (hfrozen : state'.frozen = true) : (s.step a).registry.scopes.resolve key = .frozen := by
  cases health_step_cases hcov h with
  | same hst hres =>
    rw [hres]
    exact hs.flag key state' hst hfrozen
  | verdict hst hv hscopes =>
    rw [hscopes]
    exact hs.flag key _ hst (hv.1 ▸ hfrozen)
  | control ha hst hmem hscopes hst' | list hst hst' hscopes =>
    rw [hst'] at hfrozen
    exact (syncOne_frozen _ _).mp hfrozen
  | fresh ha he hkey hnone hst' hscopes =>
    rw [hst'] at hfrozen
    cases hfrozen

/-- An action leaves a backend of its scope that is automatic afterwards following its verdict. -/
theorem controlOne_follows (hs : Follows s) {scope : HealthControlScope}
    {action : HealthControlAction} {key : BackendKey} {state : BackendHealthState}
    (hunc : Uncarved s (.control scope action)) (hst : s.registry.table key = some state)
    (hmem : key ∈ backendsInScope s.compiled scope) {scopes : HealthControlScopes}
    (hscopes : scopes = s.registry.scopes.setLevel scope (HealthRegistry.actionMode action))
    (hauto : scopes.resolve key = .automatic) (hknown : state.observed ≠ .unknown) :
    (HealthRegistry.controlOne scopes action key state).applied = state.observed := by
  have hset : ∀ v, action.target = some v → state.observed = v := by
    intro v hv
    have hmode : HealthRegistry.actionMode action = .frozen := by
      cases action <;> first | rfl | cases hv
    rw [hscopes, hmode] at hauto
    obtain ⟨hcarved, -⟩ := HealthControlScopes.carvedOut_of_automatic hmem hauto
    have hok := hunc key hmem hcarved v (by simp [hv]) state (by simp [hst])
    exact hok.resolve_left hknown
  cases action with
  | freeze =>
    -- the backend was automatic before
    rw [hscopes] at hauto
    obtain ⟨-, hbefore⟩ := HealthControlScopes.carvedOut_of_automatic hmem hauto
    exact hs key state hst hbefore hknown
  | setUp =>
    rw [hset .up rfl]
    exact state.setApplied_applied .up
  | setDown =>
    rw [hset .down rfl]
    exact state.setApplied_applied .down
  | resumeAutomatic =>
    simp only [HealthRegistry.controlOne, hauto, if_true]
    exact state.setApplied_applied state.observed

theorem controlOne_observed (scopes : HealthControlScopes) (action : HealthControlAction)
    (key : BackendKey) (state : BackendHealthState) :
    (HealthRegistry.controlOne scopes action key state).observed = state.observed := by
  cases action with
  | freeze => rfl
  | setUp => exact state.setApplied_observed .up
  | setDown => exact state.setApplied_observed .down
  | resumeAutomatic =>
    simp only [HealthRegistry.controlOne]
    split
    · exact state.setApplied_observed state.observed
    · rfl

theorem following_step (hcov : s.Covered) (hs : Following s) (hunc : Uncarved s a) :
    Following (s.step a) := by
  refine ⟨fun key state' h => flag_step hcov hs h, fun key state' h hauto hknown => ?_⟩
  cases health_step_cases hcov h with
  | same hst hres =>
    rw [hres] at hauto
    exact hs.follows key state' hst hauto hknown
  | @verdict state hst hv hscopes =>
    rw [hscopes] at hauto
    obtain ⟨-, ⟨hobs, happ⟩ | ⟨-, happ⟩⟩ := hv
    · rw [hobs] at hknown ⊢
      rw [happ]
      exact hs.follows key state hst hauto hknown
    · have hthawed : state.frozen = false := by
        by_contra hf
        have hres := hs.flag key state hst (by simpa using hf)
        rw [hauto] at hres
        cases hres
      rw [happ, hthawed]
      rfl
  | control ha hst hmem hscopes hst' =>
    subst ha
    rw [hst', controlOne_observed] at hknown ⊢
    exact controlOne_follows hs.follows hunc hst hmem hscopes hauto hknown
  | @list state hst hst' hscopes =>
    rw [hscopes] at hauto
    rw [hst'] at hknown ⊢
    exact hs.follows key state hst hauto hknown
  | fresh ha he hkey hnone hst' hscopes =>
    rw [hst'] at hknown
    exact absurd rfl hknown

end

/-- **In every run in which no manual set contradicts the verdict of a backend that a narrower level
keeps automatic, every backend that resolves to automatic and has a verdict follows it.** -/
theorem follows_of_uncarved {s : HealthStore} (h : healthStore.Reach Uncarved s) : Follows s := by
  refine (Lts.Reach.inv (P := Following) ?_ ?_ h).follows
  · intro s hinit
    have hfresh : ∀ key state, s.registry.table key = some state →
        state.frozen = false ∧ state.observed = .unknown := by
      intro key state hst
      rw [show s.registry = _ from hinit] at hst
      obtain ⟨e, -, -, rfl⟩ := HealthRegistry.fromCompiled_table hst
      exact ⟨rfl, rfl⟩
    refine ⟨fun key state hst hf => ?_, fun key state hst _ hknown => ?_⟩
    · rw [(hfresh key state hst).1] at hf
      cases hf
    · exact absurd (hfresh key state hst).2 hknown
  · rintro s a s' hr hs hunc he
    cases he
    exact following_step (covered hr) hs hunc

/-- A backend is drained, observed down, and resumed. -/
def sampleResume : List HealthAct :=
  [.control (.backend ⟨"default", "192.0.2.1:53"⟩) .setUp,
    .probe ⟨"default", "192.0.2.1:53"⟩ (.failure 1),
    .control (.backend ⟨"default", "192.0.2.1:53"⟩) .resumeAutomatic]

theorem follows_of_uncarved_sample :
    ∃ s, healthStore.Reach Uncarved s ∧
      s.registry.scopes.resolve ⟨"default", "192.0.2.1:53"⟩ = .automatic ∧
      (s.registry.table ⟨"default", "192.0.2.1:53"⟩).map (fun st => (st.observed, st.applied)) =
        some (.down, .down) ∧ Follows s := by
  obtain ⟨s, hr, hscope, happlied⟩ := Lts.exists_exec (L := healthStore) Uncarved
    (s := sampleStore ["192.0.2.1:53"]) sampleResume
    (fun s => s.registry.scopes.resolve ⟨"default", "192.0.2.1:53"⟩ = .automatic ∧
      (s.registry.table ⟨"default", "192.0.2.1:53"⟩).map (fun st => (st.observed, st.applied)) =
        some (.down, .down)) rfl (by decide +kernel)
  exact ⟨s, hr, hscope, happlied, follows_of_uncarved hr⟩

/-- The backend is set to automatic, its probe fails, and its pool is set up. -/
def sampleCarveOut : List HealthAct :=
  [.control (.backend ⟨"default", "192.0.2.1:53"⟩) .resumeAutomatic,
    .probe ⟨"default", "192.0.2.1:53"⟩ (.failure 1), .control (.pool "default") .setUp]

/-- A set of the pool applies to a backend that is automatic, against what is observed. -/
theorem carved_out_set :
    ∃ s, healthStore.Reach Lts.Any s ∧
      s.registry.scopes.resolve ⟨"default", "192.0.2.1:53"⟩ = .automatic ∧
      (s.registry.table ⟨"default", "192.0.2.1:53"⟩).map (fun st => (st.observed, st.applied)) =
        some (.down, .up) :=
  Lts.exists_exec (L := healthStore) Lts.Any (s := sampleStore ["192.0.2.1:53"]) sampleCarveOut _
    rfl (by decide +kernel)

end Conduit
