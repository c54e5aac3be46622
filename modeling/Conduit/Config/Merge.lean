import Conduit.Lib.Keyed
import Conduit.Config.Types

/-!
# Merging overlays

The merge of the file configuration and an API overlay (`conduit-config/src/merge.rs`) and the check
of an overlay patch (`overlay.rs`).

`mergeConfigs` runs in two modes. On a full configuration it applies the `remove` markers; when it
accumulates overlay patches it keeps them for the later merge with the file.
-/

namespace Conduit.Config

open Keyed

inductive ConfigError where
  | yaml (message : String)
  | incomplete (message : String)
  | invalid (message : String)
  deriving DecidableEq, Repr

def ConfigError.toString : ConfigError → String
  | yaml message => s!"failed to parse YAML: {message}"
  | incomplete message => s!"config cannot be exported: {message}"
  | invalid message => s!"invalid config: {message}"

inductive MergeMode where
  | applyToBaseline
  | accumulateOverlay
  deriving DecidableEq, Repr

/-- A string of the overlay wins when it is not empty. -/
def stringOr (overlay base : String) : String := if overlay = "" then base else overlay

/-- A list of the overlay wins when it is not empty. -/
def listOr {α : Type} (overlay base : List α) : List α := if overlay.isEmpty then base else overlay

/-! ## Backends -/

def applyBackendOverlay (base overlay : Backend) : Backend :=
  { base with
    address := stringOr overlay.address base.address
    name := overlay.name.or base.name
    weight := overlay.weight.or base.weight }

/-- `accumulate_backend_remove`: keep the marker, drop the earlier entries for the backend. -/
def accumulateBackendRemove (pool : String) (base : List Backend) (overlay : Backend) :
    Except ConfigError (List Backend) :=
  match overlay.named with
  | some name => .ok (base.filter (·.name != some name) ++ [{ name := some name, remove := some true }])
  | none =>
    if overlay.address = "" then
      .error (.invalid s!"overlay pool '{pool}' backend remove requires name or address")
    else
      .ok (base.filter (·.address != overlay.address) ++
        [{ address := overlay.address, remove := some true }])

def removeBackend (pool : String) (base : List Backend) (overlay : Backend) :
    Except ConfigError (List Backend) :=
  match overlay.named with
  | some name =>
    removeAll (·.name == some name)
      (.invalid s!"overlay pool '{pool}' requests remove of unknown backend name '{name}'") base
  | none =>
    let addr := overlay.address
    if addr = "" then
      .error (.invalid s!"overlay pool '{pool}' backend remove requires name or address")
    else
      removeAll (·.address == addr)
        (.invalid s!"overlay pool '{pool}' requests remove of unknown backend address '{addr}'") base

/-- An update of a backend cancels its `remove` marker. -/
def updateBackend (overlay base : Backend) : Backend :=
  { applyBackendOverlay base overlay with remove := none }

/-- One turn of the loop of `merge_backends`. -/
def mergeBackend (pool : String) (mode : MergeMode) (base : List Backend) (overlay : Backend) :
    Except ConfigError (List Backend) :=
  if overlay.remove.getD false then
    match mode with
    | .applyToBaseline => removeBackend pool base overlay
    | .accumulateOverlay => accumulateBackendRemove pool base overlay
  else
    match overlay.named with
    | some name =>
      upsert (·.name == some name) (fun b => .ok (updateBackend overlay b))
        (if overlay.address = "" then
          .error (.invalid s!"overlay pool '{pool}' references unknown backend name '{name}'")
        else .ok { overlay with remove := none }) base
    | none =>
      if overlay.address = "" then
        .error (.invalid s!"overlay pool '{pool}' backend entry requires name or address")
      else
        upsert (·.address == overlay.address) (fun b => .ok (updateBackend overlay b))
          (.ok { overlay with remove := none }) base

def mergeBackends (pool : String) (mode : MergeMode) (base overlay : List Backend) :
    Except ConfigError (List Backend) :=
  overlay.foldlM (mergeBackend pool mode) base

/-! ## Pools -/

def Backend.unmarked (b : Backend) : Backend := { b with remove := none }

/-- A pool of the overlay that the base does not have. Markers never reach the effective
configuration, and those on the backends stay in an accumulated overlay. -/
def addedPool (mode : MergeMode) (overlay : Pool) : Pool :=
  match mode with
  | .applyToBaseline =>
    { overlay with remove := none, backends := overlay.backends.map Backend.unmarked }
  | .accumulateOverlay => { overlay with remove := none }

/-- An update of a pool cancels its `remove` marker. -/
def updatePool (mode : MergeMode) (overlay base : Pool) : Except ConfigError Pool := do
  let backends ← mergeBackends base.name mode base.backends overlay.backends
  return { base with remove := none, backends }

/-- One turn of the loop of `merge_pools`. -/
def mergePool (mode : MergeMode) (base : List Pool) (overlay : Pool) :
    Except ConfigError (List Pool) :=
  let name := overlay.name
  if overlay.remove.getD false then
    if name = "" then .error (.invalid "overlay pool remove requires a non-empty name")
    else
      match mode with
      | .applyToBaseline =>
        removeAll (·.name == name)
          (.invalid s!"overlay requests remove of unknown pool '{name}'") base
      | .accumulateOverlay =>
        .ok (base.filter (·.name != name) ++ [{ name := name, remove := some true }])
  else
    upsert (·.name == name) (updatePool mode overlay) (.ok (addedPool mode overlay)) base

def mergePools (mode : MergeMode) (base overlay : List Pool) : Except ConfigError (List Pool) :=
  overlay.foldlM (mergePool mode) base

/-! ## Metrics -/

/-- A sub-message of the overlay is laid over the base, or over the default message. -/
def mergeSection {S : Type} (merge : S → S → S) (default : S) (base overlay : Option S) : Option S :=
  match overlay with
  | some o => some (merge (base.getD default) o)
  | none => base

def mergeCollectEmit (base overlay : MetricsCollectEmit) : MetricsCollectEmit where
  collect := overlay.collect.or base.collect
  emit := overlay.emit.or base.emit

/-- The entries of the overlay, each laid over the entry of the base. -/
def mergeCollection (base overlay : StrMap MetricsCollectEmit) : StrMap MetricsCollectEmit :=
  base ∪ overlay.map fun key o =>
    match base[key]? with
    | some b => mergeCollectEmit b o
    | none => o

def mergeGranularity (base overlay : MetricsGranularity) : MetricsGranularity where
  default := stringOr overlay.default base.default
  overrides := base.overrides ∪ overlay.overrides

def mergeCategories (base overlay : MetricsCategories) : MetricsCategories where
  includes := if overlay.includeSet then overlay.includes else base.includes
  includeSet := overlay.includeSet || base.includeSet
  excludes := if overlay.excludeSet then overlay.excludes else base.excludes
  excludeSet := overlay.excludeSet || base.excludeSet

def mergePrometheus (base overlay : PrometheusMetricsConfig) : PrometheusMetricsConfig where
  listenAddress := stringOr overlay.listenAddress base.listenAddress
  path := stringOr overlay.path base.path

def mergeOtel (base overlay : OtelMetricsConfig) : OtelMetricsConfig where
  endpoint := stringOr overlay.endpoint base.endpoint
  pushIntervalMs := if overlay.pushIntervalMs = 0 then base.pushIntervalMs else overlay.pushIntervalMs
  allowInvalidCerts := overlay.allowInvalidCerts.or base.allowInvalidCerts
  resourceAttributes := base.resourceAttributes ∪ overlay.resourceAttributes
  headers := base.headers ∪ overlay.headers

def mergeUserMetric (overlay base : UserMetricExportConfig) : UserMetricExportConfig :=
  { base with
    «export» := stringOr overlay.export base.export
    collect := overlay.collect.or base.collect
    emit := overlay.emit.or base.emit
    help := stringOr overlay.help base.help }

def mergeUserMetrics (base overlay : List UserMetricExportConfig) : List UserMetricExportConfig :=
  overlay.foldl (fun us o => put (·.name == o.name) (mergeUserMetric o) o us) base

def mergeMetrics (base : Option MetricsConfig) (overlay : MetricsConfig) : MetricsConfig :=
  let merged := base.getD {}
  { enabled := overlay.enabled.or merged.enabled
    profile := stringOr overlay.profile merged.profile
    base := stringOr overlay.base merged.base
    collection := mergeCollection merged.collection overlay.collection
    granularity := mergeSection mergeGranularity {} merged.granularity overlay.granularity
    categories := mergeSection mergeCategories {} merged.categories overlay.categories
    eventExport := mergeSection mergeCollectEmit {} merged.eventExport overlay.eventExport
    prometheus := mergeSection mergePrometheus {} merged.prometheus overlay.prometheus
    otel := mergeSection mergeOtel {} merged.otel overlay.otel
    userMetrics := mergeUserMetrics merged.userMetrics overlay.userMetrics }

def mergeMetricsSection (base overlay : Option MetricsConfig) : Option MetricsConfig :=
  match overlay with
  | some o => some (mergeMetrics base o)
  | none => base

/-! ## Configurations -/

/-- `merge_configs`. The rules and the tracing section of the overlay are not merged. -/
def mergeConfigs (base overlay : Config) (mode : MergeMode) : Except ConfigError Config := do
  let pools ← mergePools mode base.pools overlay.pools
  return { base with
    schemaVersion := overlay.schemaVersion
    listeners := overlay.listeners.or base.listeners
    forward := overlay.forward.or base.forward
    orchestrator := overlay.orchestrator.or base.orchestrator
    events := overlay.events.or base.events
    rhai := overlay.rhai.or base.rhai
    control := overlay.control.or base.control
    logging := overlay.logging.or base.logging
    dataplane := overlay.dataplane.or base.dataplane
    shutdown := overlay.shutdown.or base.shutdown
    dataSources := listOr overlay.dataSources base.dataSources
    dataSourceLimits := overlay.dataSourceLimits.or base.dataSourceLimits
    lookup := overlay.lookup.or base.lookup
    acls := overlay.acls.or base.acls
    caches := listOr overlay.caches base.caches
    metrics := mergeMetricsSection base.metrics overlay.metrics
    pools }

def mergeFileAndOverlay (file overlay : Config) : Except ConfigError Config :=
  mergeConfigs file overlay .applyToBaseline

def mergeOverlayPatches (base patch : Config) : Except ConfigError Config :=
  mergeConfigs base patch .accumulateOverlay

def isOverlayPatchEmpty (c : Config) : Bool :=
  c.listeners.isNone && c.forward.isNone && c.orchestrator.isNone && c.events.isNone &&
    c.rhai.isNone && c.control.isNone && c.logging.isNone && c.dataplane.isNone &&
    c.shutdown.isNone && c.pools.isEmpty && c.dataSources.isEmpty && c.dataSourceLimits.isNone &&
    c.lookup.isNone && c.caches.isEmpty && c.acls.isNone && c.metrics.isNone

/-- `validate_overlay_patch`: the errors. -/
def validateOverlayPatch (patch : Config) : List String :=
  (if patch.rules.isSome then
    ["overlay patch must not include `rules` — edit the config file and reload"] else []) ++
  if patch.tracing.isSome then
    ["overlay patch must not include `tracing` — edit the config file and reload"] else []

/-! ## The effective configuration -/

/-- The file and the API overlay. The overlay has been merged with the file before it is stored, so
`effective` has no error case. -/
structure EffectiveConfig where
  file : Config
  overlay : Option Config
  merges : ∀ o ∈ overlay, (mergeFileAndOverlay file o).isOk

namespace EffectiveConfig

def new (file : Config) : EffectiveConfig := ⟨file, none, by simp⟩

def effective (e : EffectiveConfig) : Config :=
  match h : e.overlay with
  | some overlay =>
    match hm : mergeFileAndOverlay e.file overlay with
    | .ok c => c
    | .error _ => nomatch hm ▸ e.merges overlay h
  | none => e.file

def clearOverlay (e : EffectiveConfig) : EffectiveConfig := new e.file

end EffectiveConfig

end Conduit.Config
