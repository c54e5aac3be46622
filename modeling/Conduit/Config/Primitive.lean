import Conduit.Config.Synthesize

/-!
# Configuration primitives

The typed changes of the configuration (`ConfigPrimitive`, `conduit-core/src/configurator.rs`) and
what each one does to the desired configuration (`mutate_desired`).
-/

namespace Conduit.Config

open Keyed

inductive ConfigPrimitive where
  | setBackendWeight (pool backend : String) (weight : Nat)
  | removeBackend (pool backend : String)
  | addBackend (pool : String) (backend : Backend)
  | setOrchestratorLimits (maxAttempts maxTxnDurationMs : Option Nat)
  | upsertDataSource (source : DataSource)
  | removeDataSource (name : String)
  | setDataSourceLimits (limits : Message)
  | setEventSinkFilters (name : String) (filters : Message)
  | setEventSinkEmit (name : String) (emit extraFields extraTags : List String)
      (extraFieldsSet extraTagsSet : Bool)
  | setRhaiLimits (maxOperations maxCallDepth hookTimeoutMs : Option Nat)
  | patchMetrics (metrics : MetricsConfig)
  | setCacheMaxEntries (name : String) (maxEntries : Nat)
  | setCacheLmdbHot (name : String) (whenFull : Option String) (sampleSize : Option Nat)
      (sync syncInterval : Option String) (mapSizeBytes : Option Nat)
  | setCachePolicyHot (name : String) (negativeCache onHit truncatedUdp : Option Message)
      (rotateRrsetOnServe : Option Bool)
  deriving DecidableEq

/-- The errors that are reported to the caller. -/
abbrev Result (α : Type) := Except (List String) α

/-- The error of a merge or of a synthesis, as it is reported. -/
def report {α : Type} (x : Except ConfigError α) : Result α := x.mapError fun e => [e.toString]

/-! ## Pools -/

/-- `find_backend_index`: by name, then by address. -/
def findBackendIndex (pool : Pool) (id : String) : Result Nat :=
  match pool.backends.findIdx? (·.name == some id) with
  | some i => .ok i
  | none =>
    match pool.backends.findIdx? (·.address == id) with
    | some i => .ok i
    | none =>
      let name := pool.name
      .error [s!"pool '{name}' has no backend named or addressed '{id}'"]

def backendIdentityExists (pool : Pool) (b : Backend) : Bool :=
  (b.named.any fun name => pool.backends.any (·.name == some name)) ||
    (b.address != "" && pool.backends.any (·.address == b.address))

/-- Change the pool that `find_pool_mut` finds. -/
def mutatePool (pool : String) (f : Pool → Result Pool) (c : Config) : Result Config := do
  let pools ← upsert (·.name == pool) f (.error [s!"unknown pool '{pool}'"]) c.pools
  return { c with pools }

def setWeight (id : String) (weight : Nat) (p : Pool) : Result Pool := do
  let idx ← findBackendIndex p id
  return { p with backends := p.backends.modify idx fun b => { b with weight := some weight } }

def dropBackend (id : String) (p : Pool) : Result Pool := do
  let idx ← findBackendIndex p id
  return { p with backends := p.backends.eraseIdx idx }

def pushBackend (pool : String) (b : Backend) (p : Pool) : Result Pool :=
  if backendIdentityExists p b then
    .error [s!"pool '{pool}' already has a backend matching the add identity"]
  else if b.address = "" then .error ["add backend requires a non-empty address"]
  else .ok { p with backends := p.backends ++ [b.unmarked] }

/-! ## Events and caches -/

def eventSinkName (sink : EventSink) : String :=
  match sink.name.filter (· != "") with
  | some name => name
  | none => sink.exportId

/-- Change the sink that `find_event_sink_mut` finds. -/
def mutateEventSink (name : String) (f : EventSink → EventSink) (c : Config) : Result Config :=
  if name = "" then .error ["event sink name is required"]
  else
    match c.events with
    | none => .error ["no events section in effective config"]
    | some events => do
      let sinks ← upsert (eventSinkName · == name) (fun s => .ok (f s))
        (.error [s!"unknown event sink '{name}'"]) events.sinks
      return { c with events := some { events with sinks } }

/-- Change the cache that `find_cache_mut` finds. -/
def mutateCache (name : String) (f : CacheInstance → Result CacheInstance) (c : Config) :
    Result Config :=
  if name = "" then .error ["cache name is required"]
  else do
    let caches ← upsert (·.name == name) f (.error [s!"unknown cache '{name}'"]) c.caches
    return { c with caches }

/-- The hot fields of an LMDB cache; the others need a restart. -/
def setLmdbHot (name : String) (whenFull : Option String) (sampleSize : Option Nat)
    (sync syncInterval : Option String) (mapSizeBytes : Option Nat) (cache : CacheInstance) :
    Result CacheInstance :=
  let type := cache.type
  if type ≠ "lmdb" then
    .error [s!"cache '{name}' type is '{type}' (SetCacheLmdbHot requires lmdb)"]
  else
    let lmdb := cache.lmdb.getD {}
    .ok { cache with
      lmdb := some { lmdb with
        whenFull := whenFull.or lmdb.whenFull
        sampleSize := sampleSize.or lmdb.sampleSize
        sync := sync.or lmdb.sync
        syncInterval := syncInterval.or lmdb.syncInterval
        mapSizeBytes := mapSizeBytes.getD lmdb.mapSizeBytes } }

/-! ## All primitives -/

def mutateDesired (c : Config) : ConfigPrimitive → Result Config
  | .setBackendWeight pool backend weight => mutatePool pool (setWeight backend weight) c
  | .removeBackend pool backend => mutatePool pool (dropBackend backend) c
  | .addBackend pool backend => mutatePool pool (pushBackend pool backend) c
  | .setOrchestratorLimits maxAttempts maxTxnDurationMs =>
    if maxAttempts.isNone && maxTxnDurationMs.isNone then
      .error ["SetOrchestratorLimits requires max_attempts and/or max_txn_duration_ms"]
    else
      let orch := c.orchestrator.getD {}
      .ok { c with
        orchestrator := some { orch with
          maxAttempts := maxAttempts.getD orch.maxAttempts
          maxTxnDurationMs := maxTxnDurationMs.getD orch.maxTxnDurationMs } }
  | .upsertDataSource source =>
    if source.name = "" then .error ["data source name is required"]
    else
      .ok { c with
        dataSources := put (·.name == source.name) (fun _ => source) source c.dataSources }
  | .removeDataSource name =>
    if name = "" then .error ["data source name is required"]
    else do
      let dataSources ← removeAll (·.name == name) [s!"unknown data source '{name}'"] c.dataSources
      return { c with dataSources }
  | .setDataSourceLimits limits => .ok { c with dataSourceLimits := some limits }
  | .setEventSinkFilters name filters =>
    mutateEventSink name (fun s => { s with filters := some filters }) c
  | .setEventSinkEmit name emit extraFields extraTags extraFieldsSet extraTagsSet =>
    mutateEventSink name (fun s =>
      { s with
        emit
        extraFields := if extraFieldsSet then extraFields else s.extraFields
        extraTags := if extraTagsSet then extraTags else s.extraTags }) c
  | .setRhaiLimits maxOperations maxCallDepth hookTimeoutMs =>
    if maxOperations.isNone && maxCallDepth.isNone && hookTimeoutMs.isNone then
      .error
        ["SetRhaiLimits requires at least one of max_operations, max_call_depth, hook_timeout_ms"]
    else
      let rhai := c.rhai.getD {}
      .ok { c with
        rhai := some {
          maxOperations := maxOperations.getD rhai.maxOperations
          maxCallDepth := maxCallDepth.getD rhai.maxCallDepth
          hookTimeoutMs := hookTimeoutMs.getD rhai.hookTimeoutMs } }
  | .patchMetrics metrics =>
    report (mergeFileAndOverlay c { schemaVersion := c.schemaVersion, metrics := some metrics })
  | .setCacheMaxEntries name maxEntries =>
    mutateCache name (fun cache => .ok { cache with maxEntries := some maxEntries }) c
  | .setCacheLmdbHot name whenFull sampleSize sync syncInterval mapSizeBytes =>
    if whenFull.isNone && sampleSize.isNone && sync.isNone && syncInterval.isNone &&
        mapSizeBytes.isNone then
      .error ["SetCacheLmdbHot requires at least one LMDB hot field"]
    else mutateCache name (setLmdbHot name whenFull sampleSize sync syncInterval mapSizeBytes) c
  | .setCachePolicyHot name negativeCache onHit truncatedUdp rotateRrsetOnServe =>
    if negativeCache.isNone && onHit.isNone && truncatedUdp.isNone && rotateRrsetOnServe.isNone then
      .error ["SetCachePolicyHot requires at least one policy field"]
    else
      mutateCache name (fun cache => .ok { cache with
        negativeCache := negativeCache.or cache.negativeCache
        onHit := onHit.or cache.onHit
        truncatedUdp := truncatedUdp.or cache.truncatedUdp
        rotateRrsetOnServe := rotateRrsetOnServe.or cache.rotateRrsetOnServe }) c

/-- The configurations that sequences of primitives lead to. -/
inductive Reaches (file : Config) : Config → Prop
  | refl : Reaches file file
  | mutate {c d : Config} (primitive : ConfigPrimitive) : Reaches file c →
    mutateDesired c primitive = .ok d → Reaches file d

end Conduit.Config
