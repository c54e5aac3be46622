import Conduit.Config.Types

/-!
# Validation

`validate` (`conduit-config/src/validate.rs`): the errors of a configuration, in the order of the
source. The checks of the sections that no result depends on are parameters (`SectionChecks`).
-/

namespace Conduit.Config

/-- The checks of the sections that are not modelled: the errors that each one finds. -/
structure SectionChecks where
  /-- `validate_listeners`, `validate_dataplane` and `validate_shutdown`. -/
  listeners : Config → List String
  /-- The forward section and `validate_upstream_backend_addresses`. -/
  forward : Config → List String
  /-- `validate_health` and `validate_lookup`. -/
  lookup : Config → List String
  /-- `parse_sources_v4` and `parse_sources_v6` of a pool. -/
  poolSources : Pool → List String
  /-- The logging, the events and the rules. -/
  rules : Config → List String
  /-- The control address, `validate_metrics_tracing` and `validate_acls`. -/
  metrics : Config → List String
  /-- `max_tables` of the data source limits. -/
  maxTables : Message → Nat

/-- The error, if the condition holds. -/
def check (c : Bool) (error : String) : List String := if c then [error] else []

def effectiveBackendWeight (b : Backend) : Nat := b.weight.getD 100

/-- The checks of one backend; `names` are the names of the backends before it. -/
def validateBackend (pool : String) (names : List String) (b : Backend) : List String :=
  let address := b.address
  check (b.address == "") s!"pool '{pool}' backend address must not be empty" ++
  (match b.named with
    | some name => check (names.contains name) s!"pool '{pool}' duplicate backend name '{name}'"
    | none => []) ++
  check (effectiveBackendWeight b == 0) s!"pool '{pool}' backend '{address}' weight must be >= 1"

def validateBackends (pool : String) (names : List String) : List Backend → List String
  | [] => []
  | b :: bs =>
    validateBackend pool names b ++
      validateBackends pool (names ++ b.named.toList) bs

/-- The checks of one pool; `names` are the names of the pools before it. -/
def validatePool (checks : SectionChecks) (names : List String) (p : Pool) : List String :=
  let name := p.name
  (if p.name = "" then ["pool name must not be empty"]
    else check (names.contains name) s!"duplicate pool name '{name}'") ++
  check p.backends.isEmpty s!"pool '{name}' has no backends" ++
  validateBackends name [] p.backends ++
  checks.poolSources p ++
  check (p.maxInflight == some 0) s!"pool '{name}' max_inflight must be >= 1 when set"

def validatePools (checks : SectionChecks) (names : List String) : List Pool → List String
  | [] => []
  | p :: ps =>
    validatePool checks names p ++
      validatePools checks (names ++ if p.name = "" then [] else [p.name]) ps

def validateOrchestrator (c : Config) : List String :=
  match c.orchestrator with
  | some o => check (o.maxAttempts == 0) "orchestrator.max_attempts must be >= 1"
  | none => []

/-- The checks of the data sources; `names` are the names of those before. -/
def validateDataSources (names : List String) : List DataSource → List String
  | [] => []
  | ds :: rest =>
    let name := ds.name
    let type := ds.type
    check (name == "") "data_sources entry name must not be empty" ++
    check (names.contains name) s!"duplicate data_sources name '{name}'" ++
    check (type != "csv" && type != "cidr")
      s!"data_sources '{name}' has unsupported type '{type}', only csv and cidr are supported" ++
    check (ds.path == "") s!"data_sources '{name}' path must not be empty" ++
    validateDataSources (names ++ [name]) rest

def validateDataSourceLimits (checks : SectionChecks) (c : Config) : List String :=
  match c.dataSourceLimits with
  | some limits =>
    let count := c.dataSources.length
    let maxTables := checks.maxTables limits
    check (0 < maxTables && maxTables < count)
      s!"data_sources has {count} entries, exceeding data_source_limits.max_tables {maxTables}"
  | none => []

def validateRhai (c : Config) : List String :=
  match c.rhai with
  | some r =>
    check (r.maxOperations == 0) "rhai.max_operations must be >= 1 when set" ++
    check (r.maxCallDepth == 0) "rhai.max_call_depth must be >= 1 when set"
  | none => []

/-- `validate`: the errors; the configuration is valid if there are none. -/
def validate (checks : SectionChecks) (c : Config) : List String :=
  let version := c.schemaVersion
  check (version != 1) s!"unsupported schema_version {version}" ++
  checks.listeners c ++
  validateOrchestrator c ++
  checks.forward c ++
  checks.lookup c ++
  validatePools checks [] c.pools ++
  checks.rules c ++
  validateDataSources [] c.dataSources ++
  validateDataSourceLimits checks c ++
  validateRhai c ++
  checks.metrics c

/-! ## What a valid configuration has -/

theorem check_eq_nil {c : Bool} {error : String} : check c error = [] ↔ c = false := by
  cases c <;> simp [check]

/-- The backends of a pool: each has an address, and no two have the same name. -/
structure BackendsOk (bs : List Backend) : Prop where
  address : ∀ b ∈ bs, b.address ≠ ""
  names : (bs.filterMap Backend.named).Nodup

theorem backendsOk_of_validate {pool : String} {names : List String} {bs : List Backend}
    (h : validateBackends pool names bs = []) :
    BackendsOk bs ∧ ∀ n ∈ names, n ∉ bs.filterMap Backend.named := by
  induction bs generalizing names with
  | nil => exact ⟨⟨by simp, by simp⟩, by simp⟩
  | cons b bs ih =>
    rw [validateBackends, List.append_eq_nil_iff] at h
    obtain ⟨hb, hbs⟩ := h
    obtain ⟨hok, hnames⟩ := ih hbs
    simp only [validateBackend, List.append_eq_nil_iff, check_eq_nil, beq_eq_false_iff_ne] at hb
    obtain ⟨⟨haddr, hname⟩, -⟩ := hb
    have hall : ∀ x ∈ b :: bs, x.address ≠ "" := by
      intro x hx
      rcases List.mem_cons.mp hx with rfl | hx
      · exact haddr
      · exact hok.address x hx
    cases hn : b.named with
    | none =>
      have hskip : ((b :: bs).filterMap Backend.named) =
          bs.filterMap Backend.named := by
        rw [List.filterMap_cons, hn]
      refine ⟨⟨hall, hskip ▸ hok.names⟩, ?_⟩
      rw [hskip]
      exact fun n hmem => hnames n (List.mem_append_left _ hmem)
    | some n =>
      have hkeep : ((b :: bs).filterMap Backend.named) =
          n :: bs.filterMap Backend.named := by
        rw [List.filterMap_cons, hn]
      rw [hn] at hname hnames
      simp only [check_eq_nil, List.contains_eq_mem, decide_eq_false_iff_not] at hname
      have hfresh := hnames n (List.mem_append_right _ List.mem_cons_self)
      refine ⟨⟨hall, ?_⟩, ?_⟩
      · rw [hkeep]
        exact List.nodup_cons.mpr ⟨hfresh, hok.names⟩
      · rw [hkeep]
        intro k hk hmem
        rcases List.mem_cons.mp hmem with rfl | hmem
        · exact hname hk
        · exact hnames k (List.mem_append_left _ hk) hmem

/-- The pools: each has a name that no other has, and its backends are in order. -/
structure PoolsOk (ps : List Pool) : Prop where
  names : (ps.map (·.name)).Nodup
  backends : ∀ p ∈ ps, BackendsOk p.backends

theorem poolsOk_of_validatePools {checks : SectionChecks} {names : List String} {ps : List Pool}
    (h : validatePools checks names ps = []) : PoolsOk ps ∧ ∀ n ∈ names, n ∉ ps.map (·.name) := by
  induction ps generalizing names with
  | nil => exact ⟨⟨by simp, by simp⟩, by simp⟩
  | cons p ps ih =>
    rw [validatePools, List.append_eq_nil_iff] at h
    obtain ⟨hp, hps⟩ := h
    obtain ⟨hok, hnames⟩ := ih hps
    simp only [validatePool, List.append_eq_nil_iff, check_eq_nil] at hp
    obtain ⟨⟨⟨⟨hname, -⟩, hback⟩, -⟩, -⟩ := hp
    have hne : p.name ≠ "" := by
      intro he
      simp [he] at hname
    rw [if_neg hne] at hname hnames
    simp only [check_eq_nil, List.contains_eq_mem, decide_eq_false_iff_not] at hname
    have hfresh := hnames p.name (List.mem_append_right _ List.mem_cons_self)
    refine ⟨⟨?_, ?_⟩, ?_⟩
    · rw [List.map_cons]
      exact List.nodup_cons.mpr ⟨hfresh, hok.names⟩
    · intro q hq
      rcases List.mem_cons.mp hq with rfl | hq
      · exact (backendsOk_of_validate hback).1
      · exact hok.backends q hq
    · intro n hn hmem
      rcases List.mem_cons.mp hmem with rfl | hmem
      · exact hname hn
      · exact hnames n (List.mem_append_left _ hn) hmem

theorem poolsOk_of_validate {checks : SectionChecks} {c : Config} (h : validate checks c = []) :
    PoolsOk c.pools := by
  simp only [validate, List.append_eq_nil_iff] at h
  obtain ⟨⟨⟨⟨⟨⟨-, hpools⟩, -⟩, -⟩, -⟩, -⟩, -⟩ := h
  exact (poolsOk_of_validatePools hpools).1

end Conduit.Config
