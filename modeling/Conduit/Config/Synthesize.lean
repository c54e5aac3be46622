import Conduit.Config.Merge

/-!
# Synthesizing an overlay

`synthesize_overlay` (`conduit-config/src/synthesize.rs`): from the file and the configuration that
should be in effect, an overlay whose merge with the file is meant to give it.
-/

namespace Conduit.Config

/-- The section of the desired configuration, if it differs from that of the file. -/
def changed {S : Type} [DecidableEq S] (file desired : Option S) : Option S :=
  if desired = file then none else desired

/-- The string of the desired configuration, if it differs from that of the file. -/
def changedString (file desired : String) : String := if desired = file then "" else desired

/-! ## Metrics -/

/-- The entries of the desired map that the file does not have as they are. -/
def changedEntries (file desired : StrMap MetricsCollectEmit) : StrMap MetricsCollectEmit :=
  desired.filter fun key ce => decide (file[key]? ≠ some ce)

def synthesizeUserMetrics (file desired : List UserMetricExportConfig) :
    List UserMetricExportConfig :=
  desired.filter fun d => decide (file.find? (·.name == d.name) ≠ some d)

def metricsDelta (file desired : MetricsConfig) : MetricsConfig where
  enabled := changed file.enabled desired.enabled
  profile := changedString file.profile desired.profile
  base := changedString file.base desired.base
  prometheus := changed file.prometheus desired.prometheus
  otel := changed file.otel desired.otel
  eventExport := changed file.eventExport desired.eventExport
  categories := changed file.categories desired.categories
  granularity := changed file.granularity desired.granularity
  collection := changedEntries file.collection desired.collection
  userMetrics := synthesizeUserMetrics file.userMetrics desired.userMetrics

def synthesizeMetrics (file desired : Option MetricsConfig) : Option MetricsConfig :=
  match file, desired with
  | _, none => none
  | none, some d => some d
  | some f, some d => if f = d then none else some (metricsDelta f d)

/-! ## Backends and pools -/

/-- `find_backend`: by name, then by address. -/
def findBackend (haystack : List Backend) (needle : Backend) : Option Backend :=
  (needle.named.bind fun name => haystack.find? (·.name == some name)).or
    (if needle.address = "" then none else haystack.find? (·.address == needle.address))

def removeMarkerFor (b : Backend) : Backend :=
  match b.named with
  | some name => { name := some name, remove := some true }
  | none => { address := b.address, remove := some true }

/-- The fields of a delta that say which backend it is for: the name, and the address. -/
def deltaIdentity (file desired : Backend) : Option String × String :=
  match desired.named with
  | some name => (some name, "")
  | none =>
    if desired.address ≠ "" then (none, desired.address)
    else match file.named with
      | some name => (some name, "")
      | none => (none, file.address)

/-- The address of the desired backend is new. -/
def addressChanged (file desired : Backend) : Bool :=
  desired.address != file.address && desired.address != ""

def backendDelta (file desired : Backend) : Option Backend :=
  let delta : Backend :=
    { address := if addressChanged file desired then desired.address
        else (deltaIdentity file desired).2
      name := if desired.name = file.name then (deltaIdentity file desired).1 else desired.name
      weight := changed file.weight desired.weight
      probeQname := changed file.probeQname desired.probeQname
      probeQtype := changed file.probeQtype desired.probeQtype
      probeSource := changed file.probeSource desired.probeSource
      transport := changed file.transport desired.transport }
  if addressChanged file desired || desired.name != file.name || desired.weight != file.weight ||
      desired.probeQname != file.probeQname || desired.probeQtype != file.probeQtype ||
      desired.probeSource != file.probeSource || desired.transport != file.transport then
    some delta
  else none

/-- The entry for a backend of the file, if it needs one. -/
def backendEntry (desired : List Backend) (file : Backend) : Option Backend :=
  match findBackend desired file with
  | none => some (removeMarkerFor file)
  | some d => backendDelta file d

def synthesizeBackends (file desired : List Backend) : List Backend :=
  file.filterMap (backendEntry desired) ++
    (desired.filter fun d => (findBackend file d).isNone).map Backend.unmarked

/-- The entry for a pool of the file, if it needs one. -/
def poolEntry (desired : List Pool) (file : Pool) : Option Pool :=
  match desired.find? (·.name == file.name) with
  | none => some { name := file.name, remove := some true }
  | some d =>
    let backends := synthesizeBackends file.backends d.backends
    if backends.isEmpty then none else some { name := file.name, backends }

def synthesizePools (file desired : List Pool) : List Pool :=
  file.filterMap (poolEntry desired) ++
    (desired.filter fun d => !file.any (·.name == d.name)).map (addedPool .applyToBaseline)

/-! ## Configurations -/

/-- `synthesize_data_sources`, `synthesize_caches`: the whole list, if it differs. The merge ignores
an empty list, so a list cannot be cleared. -/
def synthesizeList {α : Type} [DecidableEq α] (field : String) (file desired : List α) :
    Except ConfigError (List α) :=
  if file = desired then .ok []
  else if desired.isEmpty && !file.isEmpty then
    .error (.invalid s!"synthesize_overlay cannot clear all {field} via empty overlay list")
  else .ok desired

def synthesizeOverlay (file desired : Config) : Except ConfigError Config := do
  let dataSources ← synthesizeList "data_sources" file.dataSources desired.dataSources
  let caches ← synthesizeList "caches" file.caches desired.caches
  return {
    schemaVersion := desired.schemaVersion
    listeners := changed file.listeners desired.listeners
    forward := changed file.forward desired.forward
    orchestrator := changed file.orchestrator desired.orchestrator
    events := changed file.events desired.events
    rhai := changed file.rhai desired.rhai
    control := changed file.control desired.control
    logging := changed file.logging desired.logging
    dataplane := changed file.dataplane desired.dataplane
    shutdown := changed file.shutdown desired.shutdown
    lookup := changed file.lookup desired.lookup
    acls := changed file.acls desired.acls
    dataSourceLimits := changed file.dataSourceLimits desired.dataSourceLimits
    pools := synthesizePools file.pools desired.pools
    metrics := synthesizeMetrics file.metrics desired.metrics
    dataSources, caches }

end Conduit.Config
