import Std.Data.ExtTreeMap

/-!
# Configuration messages

The messages of `proto/conduit/v1/config.proto`. A proto3 scalar without `optional` has a default
(`""`, `0`, `false`), which also means "not set"; an `optional` field and a sub-message is an
`Option`; a `repeated` field is a list; a `map` is an extensional map.

A message that the merge, the synthesis and the primitives only copy or compare is its encoding
(`Message`).
-/

namespace Conduit.Config

/-- A message that is only copied or compared: its encoding. -/
abbrev Message := List UInt8

abbrev StrMap (V : Type) := Std.ExtTreeMap String V

structure OrchestratorConfig where
  maxAttempts : Nat := 0
  maxTxnDurationMs : Nat := 0
  txnTableCapacity : Nat := 0
  deriving DecidableEq

structure RhaiConfig where
  maxOperations : Nat := 0
  maxCallDepth : Nat := 0
  hookTimeoutMs : Nat := 0
  deriving DecidableEq

structure EventSink where
  type : String := ""
  exportId : String := ""
  destinations : List String := []
  emit : List String := []
  filters : Option Message := none
  extraFields : List String := []
  extraTags : List String := []
  name : Option String := none
  connectRetry : Option Message := none
  deriving DecidableEq

structure EventsConfig where
  queueDepth : Nat := 0
  dropPolicy : String := ""
  sinks : List EventSink := []
  deriving DecidableEq

structure Backend where
  address : String := ""
  weight : Option Nat := none
  name : Option String := none
  probeQname : Option String := none
  probeQtype : Option String := none
  probeSource : Option String := none
  transport : Option String := none
  remove : Option Bool := none
  deriving DecidableEq

def Backend.named (b : Backend) : Option String := b.name.filter (· != "")

structure Pool where
  name : String := ""
  backends : List Backend := []
  sourcesV4 : List String := []
  sourcesV6 : List String := []
  maxInflight : Option Nat := none
  health : Option Message := none
  remove : Option Bool := none
  deriving DecidableEq

structure DataSource where
  name : String := ""
  type : String := ""
  path : String := ""
  keyColumn : String := ""
  valueColumn : String := ""
  maxFileBytes : Option Nat := none
  maxEntries : Option Nat := none
  maxKeyBytes : Option Nat := none
  maxValueBytes : Option Nat := none
  deriving DecidableEq

structure CacheLmdbConfig where
  path : String := ""
  mapSizeBytes : Nat := 0
  whenFull : Option String := none
  sampleSize : Option Nat := none
  shardCount : Option Nat := none
  sync : Option String := none
  syncInterval : Option String := none
  deriving DecidableEq

structure CacheInstance where
  name : String := ""
  type : String := ""
  negativeCache : Option Message := none
  onHit : Option Message := none
  rotateRrsetOnServe : Option Bool := none
  memory : Option Message := none
  key : Option Message := none
  maxEntries : Option Nat := none
  truncatedUdp : Option Message := none
  lmdb : Option CacheLmdbConfig := none
  deriving DecidableEq

/-! ## Metrics -/

/-- `MetricsCollectEmit` and `MetricsEventExport`: the same two fields. -/
structure MetricsCollectEmit where
  collect : Option Bool := none
  emit : Option Bool := none
  deriving DecidableEq

structure MetricsCategories where
  includes : List String := []
  excludes : List String := []
  includeSet : Bool := false
  excludeSet : Bool := false
  deriving DecidableEq

structure MetricsDimensionList where
  dimensions : List String := []
  rcode : String := ""
  dimensionsSet : Bool := false
  deriving DecidableEq

structure MetricsGranularity where
  default : String := ""
  overrides : StrMap MetricsDimensionList := ∅
  deriving DecidableEq

structure PrometheusMetricsConfig where
  listenAddress : String := ""
  path : String := ""
  deriving DecidableEq

structure OtelMetricsConfig where
  endpoint : String := ""
  pushIntervalMs : Nat := 0
  resourceAttributes : StrMap String := ∅
  allowInvalidCerts : Option Bool := none
  headers : StrMap String := ∅
  deriving DecidableEq

structure UserMetricExportConfig where
  name : String := ""
  «export» : String := ""
  collect : Option Bool := none
  emit : Option Bool := none
  help : String := ""
  deriving DecidableEq

structure MetricsConfig where
  enabled : Option Bool := none
  profile : String := ""
  prometheus : Option PrometheusMetricsConfig := none
  otel : Option OtelMetricsConfig := none
  userMetrics : List UserMetricExportConfig := []
  base : String := ""
  categories : Option MetricsCategories := none
  granularity : Option MetricsGranularity := none
  collection : StrMap MetricsCollectEmit := ∅
  eventExport : Option MetricsCollectEmit := none
  deriving DecidableEq

end Conduit.Config

namespace Conduit

/-! ## The configuration -/

structure Config where
  schemaVersion : Nat := 0
  listeners : Option Config.Message := none
  forward : Option Config.Message := none
  orchestrator : Option Config.OrchestratorConfig := none
  events : Option Config.EventsConfig := none
  rhai : Option Config.RhaiConfig := none
  pools : List Config.Pool := []
  control : Option Config.Message := none
  rules : Option Config.Message := none
  logging : Option Config.Message := none
  dataSources : List Config.DataSource := []
  metrics : Option Config.MetricsConfig := none
  tracing : Option Config.Message := none
  dataplane : Option Config.Message := none
  shutdown : Option Config.Message := none
  dataSourceLimits : Option Config.Message := none
  caches : List Config.CacheInstance := []
  lookup : Option Config.Message := none
  acls : Option Config.Message := none
  deriving DecidableEq

end Conduit
