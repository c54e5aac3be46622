import Conduit.Cache.Memory
import Conduit.Lib.Keyed

/-!
# Cache instances and the settings of an LMDB backend

The compiled configuration of a cache instance (`conduit-config/src/lookup.rs`), and of an LMDB
backend (`lookup/cache/lmdb.rs`) what a configuration change reads and writes: its shard layout, its
caps, its map size and its policy. The entries are in the environment's files and are left out.

What the operating system and LMDB answer during one apply is given (`CacheIo`): the layout found at
the path, and the errors, as their texts.

- `CacheBackend.fromConfig`: open a backend.
- `LmdbCacheBackend.applyPolicy`, `applySyncConfig`, `applyMapSize`: the Hot operations, with a
  lemma each that says what they leave alone.
-/

namespace Conduit

/-- `CacheBackendType`; `ebpf_map` is reserved, and the compiler of the configuration rejects it. -/
inductive CacheBackendType where
  | memory | lmdb
  deriving DecidableEq, Repr

inductive LmdbWhenFull where
  | refuse | evictOne | sample
  deriving DecidableEq, Repr

inductive LmdbSync where
  | full | noMeta | periodic | none
  deriving DecidableEq, Repr

def LmdbSync.asStr : LmdbSync → String
  | .full => "full"
  | .noMeta => "no_meta"
  | .periodic => "periodic"
  | .none => "none"

structure CompiledLmdbCache where
  path : String
  mapSizeBytes : Nat
  whenFull : LmdbWhenFull := .evictOne
  sampleSize : Nat := 16
  sync : LmdbSync := .full
  syncInterval : Option Nat := none
  shardCount : Option Nat := none
  lookupThreadCount : Nat := 1
  deriving DecidableEq, Repr

/-- A whole `CompiledCacheInstance`: what lookups and fills read, and the store. -/
structure CompiledCache extends CompiledCacheInstance where
  backendType : CacheBackendType
  memoryShardCount : Nat := 1
  lmdb : Option CompiledLmdbCache := none
  maxEntries : Nat
  deriving DecidableEq, Repr

def lmdbPath (cfg : CompiledCache) : Option String := cfg.lmdb.map (·.path)

inductive OnDiskLayout where
  | empty
  | legacy
  | sharded (n : Nat)
  deriving DecidableEq, Repr

/-- What the outside answers for one instance during one apply. -/
structure CacheIo where
  onDisk : OnDiskLayout := .empty
  openError : Option String := none
  /-- Setting the sync flags of an environment fails. -/
  flagsError : Option String := none
  /-- The thread of the flusher cannot be started. -/
  flusherError : Option String := none
  resizeError : Option String := none
  /-- Evicting and clearing entries does not bring the used bytes under the new size. -/
  shrinkError : Option String := none
  order : IterOrder := .same
  now : Nat := 0

/-- Where it is asked, the outside may answer with an error. -/
def CacheIo.check (asked : Bool) (error : Option String) : Except String Unit :=
  match asked, error with
  | true, some e => .error e
  | _, _ => .ok ()

structure LmdbPolicy where
  whenFull : LmdbWhenFull
  sampleSize : Nat
  sync : LmdbSync
  syncInterval : Option Nat
  deriving DecidableEq, Repr

def CompiledLmdbCache.policy (c : CompiledLmdbCache) : LmdbPolicy :=
  ⟨c.whenFull, c.sampleSize, c.sync, c.syncInterval⟩

structure LmdbCacheBackend where
  cacheName : String
  layoutIsLegacy : Bool
  /-- The caps of the shards. -/
  shardMaxEntries : List Nat
  totalMapSizeBytes : Nat
  totalMaxEntries : Nat
  policy : LmdbPolicy
  /-- The interval of the periodic flusher, if one is running. -/
  flusher : Option Nat := none
  deriving DecidableEq, Repr

def maxLmdbShardCount : Nat := 64

def alignMapSize (bytes : Nat) : Nat := (max bytes 4096 + 4095) / 4096 * 4096

def perShardMapSizes (totalBytes n : Nat) : List Nat :=
  let total := alignMapSize totalBytes
  let base := max (total / n / 4096 * 4096) 4096
  let sum := base * n
  (List.replicate n base).modifyHead fun first =>
    if sum < total then first + (total - sum)
    else if first > 4096 + (sum - total) then first - (sum - total)
    else first

def perShardMaxEntries (maxEntries n : Nat) : List Nat :=
  (List.range n).map fun i => if i < maxEntries % n then maxEntries / n + 1 else maxEntries / n

def clampShards (n : Nat) : Nat := min (max n 1) maxLmdbShardCount

def explicitRequiresAbandon (explicit : Option Nat) (onDisk : OnDiskLayout) : Bool :=
  match explicit, onDisk with
  | some n, .legacy => 1 != clampShards n
  | some n, .sharded disk => disk != clampShards n
  | _, _ => false

def resolveEffectiveShardCount (explicit : Option Nat) (onDisk : OnDiskLayout)
    (lookupThreadCount : Nat) : Nat :=
  match explicit, onDisk with
  | some n, _ => clampShards n
  | none, .sharded n => clampShards n
  | none, .legacy => 1
  | none, .empty => clampShards (max lookupThreadCount 1 * 2)

namespace LmdbCacheBackend

def shardCount (l : LmdbCacheBackend) : Nat := l.shardMaxEntries.length

def openAt (io : CacheIo) (cacheName : String) (maxEntries : Nat) (lmdb : CompiledLmdbCache) :
    Except String LmdbCacheBackend := do
  CacheIo.check true io.openError
  let onDisk := if explicitRequiresAbandon lmdb.shardCount io.onDisk then .empty else io.onDisk
  let n := resolveEffectiveShardCount lmdb.shardCount onDisk lmdb.lookupThreadCount
  let flusher := if lmdb.sync = .periodic then lmdb.syncInterval else none
  CacheIo.check flusher.isSome io.flusherError
  return {
    cacheName := cacheName
    layoutIsLegacy := onDisk = .legacy && n = 1
    shardMaxEntries := perShardMaxEntries maxEntries n
    totalMapSizeBytes := (perShardMapSizes lmdb.mapSizeBytes n).sum
    totalMaxEntries := maxEntries
    policy := lmdb.policy
    flusher := flusher }

/-- `open`, and `open_for_shard_reopen` with an empty staging directory. -/
def openConfig (io : CacheIo) (cfg : CompiledCache) : Except String LmdbCacheBackend :=
  match cfg.lmdb with
  | some lmdb => openAt io cfg.name cfg.maxEntries lmdb
  | none => .error s!"LMDB I/O error for cache '{cfg.name}' at '': missing lmdb compiled config"

def applyPolicy (l : LmdbCacheBackend) (whenFull : LmdbWhenFull) (sampleSize : Nat) :
    LmdbCacheBackend :=
  { l with policy := { l.policy with whenFull := whenFull, sampleSize := sampleSize } }

def reconcileFlusher (io : CacheIo) (l : LmdbCacheBackend) (sync : LmdbSync)
    (interval : Option Nat) : Except String LmdbCacheBackend :=
  match sync, interval with
  | .periodic, some iv => do
    CacheIo.check l.flusher.isNone io.flusherError
    return { l with flusher := some iv }
  | _, _ => .ok { l with flusher := none }

/-- `apply_sync_config`; after an error the backend is as before. -/
def applySyncConfig (io : CacheIo) (l : LmdbCacheBackend) (sync : LmdbSync)
    (interval : Option Nat) : Except String LmdbCacheBackend :=
  let invalid (message : String) :=
    s!"invalid LMDB sync configuration for cache '{l.cacheName}': {message}"
  if sync = .periodic && interval.isNone then
    .error (invalid "sync=periodic requires sync_interval")
  else if sync ≠ .periodic && interval.isSome then
    .error (invalid
      s!"sync_interval must only be set when sync=periodic (got sync={sync.asStr})")
  else if l.policy.sync = sync && l.policy.syncInterval = interval then .ok l
  else do
    CacheIo.check (l.policy.sync ≠ sync) io.flagsError
    reconcileFlusher io
      { l with policy := { l.policy with sync := sync, syncInterval := interval } } sync interval

def setMaxEntries (l : LmdbCacheBackend) (maxEntries : Nat) : LmdbCacheBackend :=
  { l with
    totalMaxEntries := maxEntries
    shardMaxEntries := perShardMaxEntries maxEntries l.shardCount }

def resizeTotalTo (io : CacheIo) (l : LmdbCacheBackend) (alignedTotal : Nat) :
    Except String LmdbCacheBackend := do
  CacheIo.check true io.resizeError
  return { l with totalMapSizeBytes := (perShardMapSizes alignedTotal l.shardCount).sum }

def growMapSize (io : CacheIo) (l : LmdbCacheBackend) (newSize : Nat) :
    Except String LmdbCacheBackend :=
  if newSize ≤ l.totalMapSizeBytes then .ok l else l.resizeTotalTo io (alignMapSize newSize)

def shrinkMapSize (io : CacheIo) (l : LmdbCacheBackend) (newSize : Nat) :
    Except String LmdbCacheBackend :=
  let target := alignMapSize newSize
  if target ≥ l.totalMapSizeBytes then .ok l
  else do
    CacheIo.check true io.shrinkError
    l.resizeTotalTo io target

/-- The change of the map size in `reconcile`, with its errors. -/
def applyMapSize (io : CacheIo) (l : LmdbCacheBackend) (newSize : Nat) :
    Except String LmdbCacheBackend :=
  if newSize > l.totalMapSizeBytes then
    (l.growMapSize io newSize).mapError fun e => s!"LMDB map_size grow failed: {e}"
  else if newSize < l.totalMapSizeBytes then
    (l.shrinkMapSize io newSize).mapError fun e => s!"LMDB map_size shrink failed: {e}"
  else .ok l

/-! ## What the operations leave alone -/

variable {io : CacheIo} {l l' : LmdbCacheBackend}

theorem openAt_spec {cacheName : String} {maxEntries : Nat} {c : CompiledLmdbCache}
    (h : openAt io cacheName maxEntries c = .ok l) :
    l.totalMaxEntries = maxEntries ∧ l.policy = c.policy := by
  obtain ⟨-, -, h⟩ := Keyed.bind_eq_ok.mp h
  obtain ⟨-, -, h⟩ := Keyed.bind_eq_ok.mp h
  cases h
  exact ⟨rfl, rfl⟩

theorem openConfig_spec {cfg : CompiledCache} (h : openConfig io cfg = .ok l) :
    l.totalMaxEntries = cfg.maxEntries ∧ ∃ c, cfg.lmdb = some c ∧ l.policy = c.policy := by
  unfold openConfig at h
  split at h
  · rename_i c hc
    obtain ⟨hmax, hpolicy⟩ := openAt_spec h
    exact ⟨hmax, c, hc, hpolicy⟩
  · cases h

variable {sync : LmdbSync} {interval : Option Nat}

theorem reconcileFlusher_spec (h : l.reconcileFlusher io sync interval = .ok l') :
    l'.totalMaxEntries = l.totalMaxEntries ∧ l'.policy = l.policy := by
  unfold reconcileFlusher at h
  split at h
  · obtain ⟨-, -, h⟩ := Keyed.bind_eq_ok.mp h
    cases h
    exact ⟨rfl, rfl⟩
  · cases h
    exact ⟨rfl, rfl⟩

theorem applySyncConfig_spec (h : l.applySyncConfig io sync interval = .ok l') :
    l'.totalMaxEntries = l.totalMaxEntries ∧
      l'.policy = { l.policy with sync := sync, syncInterval := interval } := by
  unfold applySyncConfig at h
  dsimp only at h
  split at h
  · cases h
  split at h
  · cases h
  split at h
  · rename_i hsame
    cases h
    obtain ⟨hsync, hinterval⟩ := Bool.and_eq_true_iff.mp hsame
    refine ⟨rfl, ?_⟩
    rw [← of_decide_eq_true hsync, ← of_decide_eq_true hinterval]
  · obtain ⟨-, -, h⟩ := Keyed.bind_eq_ok.mp h
    exact reconcileFlusher_spec h

theorem resizeTotalTo_spec {alignedTotal : Nat} (h : l.resizeTotalTo io alignedTotal = .ok l') :
    l'.totalMaxEntries = l.totalMaxEntries ∧ l'.policy = l.policy := by
  obtain ⟨-, -, h⟩ := Keyed.bind_eq_ok.mp h
  cases h
  exact ⟨rfl, rfl⟩

variable {newSize : Nat}

theorem growMapSize_spec (h : l.growMapSize io newSize = .ok l') :
    l'.totalMaxEntries = l.totalMaxEntries ∧ l'.policy = l.policy := by
  unfold growMapSize at h
  split at h
  · cases h
    exact ⟨rfl, rfl⟩
  · exact resizeTotalTo_spec h

theorem shrinkMapSize_spec (h : l.shrinkMapSize io newSize = .ok l') :
    l'.totalMaxEntries = l.totalMaxEntries ∧ l'.policy = l.policy := by
  unfold shrinkMapSize at h
  dsimp only at h
  split at h
  · cases h
    exact ⟨rfl, rfl⟩
  · obtain ⟨-, -, h⟩ := Keyed.bind_eq_ok.mp h
    exact resizeTotalTo_spec h

theorem mapError_eq_ok {f : String → String} {x : Except String LmdbCacheBackend}
    (h : x.mapError f = .ok l') : x = .ok l' := by
  cases x with
  | error e => cases h
  | ok l => exact h

theorem applyMapSize_spec (h : l.applyMapSize io newSize = .ok l') :
    l'.totalMaxEntries = l.totalMaxEntries ∧ l'.policy = l.policy := by
  unfold applyMapSize at h
  split at h
  · exact growMapSize_spec (mapError_eq_ok h)
  split at h
  · exact shrinkMapSize_spec (mapError_eq_ok h)
  · cases h
    exact ⟨rfl, rfl⟩

end LmdbCacheBackend

inductive CacheBackend where
  | memory (m : MemoryCacheBackend)
  | lmdb (l : LmdbCacheBackend)

namespace CacheBackend

def fromConfig (io : CacheIo) (cfg : CompiledCache) : Except String CacheBackend :=
  match cfg.backendType with
  | .memory => .ok (.memory (.fromConfig cfg.memoryShardCount cfg.maxEntries))
  | .lmdb => (LmdbCacheBackend.openConfig io cfg).map .lmdb

def maxEntries : CacheBackend → Nat
  | .memory m => m.maxEntries
  | .lmdb l => l.totalMaxEntries

def setMaxEntries (io : CacheIo) (b : CacheBackend) (maxEntries : Nat) : CacheBackend :=
  match b with
  | .memory m => .memory (m.setMaxEntries io.order io.now maxEntries)
  | .lmdb l => .lmdb (l.setMaxEntries maxEntries)

def asLmdb : CacheBackend → Option LmdbCacheBackend
  | .memory _ => none
  | .lmdb l => some l

end CacheBackend

end Conduit
