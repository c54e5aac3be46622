import Conduit.Core.Inflight
import Conduit.Core.Wire

/-!
# The cache registry

The lookups and the fills of `LookupCacheRegistry` (`lookup/cache/registry.rs`), as programs over
the operations of `Conduit/Core/Inflight.lean`.

The cache keys and the tests if a wire is cacheable or an NXDOMAIN are parameters (`CacheFns`), with
the message codec: no result below depends on how they are computed.
-/

namespace Conduit

open Prog

/-- The functions of the transaction and the wire that lookups and fills use. -/
structure CacheFns where
  codec : Codec
  /-- `build_query_key`; `none`: it fails. -/
  buildQueryKey : Transaction → Option CacheKey
  /-- `build_truncated_udp_key`; `none`: it fails. -/
  buildTruncatedUdpKey : Transaction → Option CacheKey
  /-- `build_key_from_parts` for the ancestors of the query name, the nearest first. -/
  ancestorKeys : Transaction → List (Option CacheKey)
  /-- `entry_from_wire` gives an entry. -/
  entryFromWire : CompiledCacheInstance → Wire → Bool
  /-- The entry of the wire has the kind `EntryKind::NxDomain`. -/
  isNxDomain : Wire → Bool

inductive CacheLookupOutcome where
  | hit (wire : Wire) (cacheName : String) (skipResponseRules : Bool)
  | miss (key : CacheKey) (gate : GateId)
  | waitAsync (key : CacheKey)
  | bypass
  deriving DecidableEq, Repr

/-- `hit_from_entry`, `hit_from_stored`: serve a stored wire, or bypass if it cannot be prepared. -/
def hitFrom (i : InstId) (wire : Wire) : StageProg CacheLookupOutcome := do
  let cfg ← perform (.config i)
  match ← perform (.prepareServed i wire) with
  | none => return .bypass
  | some w => return .hit w cfg.name cfg.skipResponseRules

def tryReadHit (i : InstId) (key : CacheKey) : StageProg (Option CacheLookupOutcome) := do
  match ← perform (.get i key) with
  | none => return none
  | some wire => return some (← hitFrom i wire)

/-- The loop of `try_ancestor_nxdomain_hit`: a key that cannot be built or has no entry ends it. -/
def walkAncestors (isNxDomain : Wire → Bool) (i : InstId) :
    List (Option CacheKey) → StageProg (Option Wire)
  | some key :: keys => do
    let some wire ← perform (.get i key) | return none
    if isNxDomain wire then return some wire
    walkAncestors isNxDomain i keys
  | _ => return none

def tryAncestorNxdomainHit (fns : CacheFns) (i : InstId) (t : Transaction) :
    StageProg (Option Wire) := do
  let cfg ← perform (.config i)
  if !cfg.negativeCacheEnabled || !cfg.nxdomainCoversDescendants then return none
  walkAncestors fns.isNxDomain i (fns.ancestorKeys t)

section

variable {H : Type} {P : Proto Op Op.Resp H} {h : H} {i : InstId}

/-- Reads of the instance are allowed, and the history does not record them. -/
structure ReadsFreely (P : Proto Op Op.Resp H) (h : H) (i : InstId) : Prop where
  ok_config : P.ok h (.config i)
  next_config : ∀ r, P.next h (.config i) r = h
  ok_get : ∀ key, P.ok h (.get i key)
  next_get : ∀ key r, P.next h (.get i key) r = h

theorem walkAncestors_obeys (hr : ReadsFreely P h i) (isNxDomain : Wire → Bool)
    (keys : List (Option CacheKey)) :
    Obeys P (fun h' out => h' = h ∧ ∀ wire ∈ out, isNxDomain wire = true ∧
      ∃ key, some key ∈ keys ∧ P.may h (.get i key) (some wire)) h
      (walkAncestors isNxDomain i keys) := by
  induction keys with
  | nil => exact ⟨rfl, nofun⟩
  | cons key? keys ih =>
    cases key? with
    | none => exact ⟨rfl, nofun⟩
    | some key =>
      rw [walkAncestors, call_bind]
      refine ⟨hr.ok_get key, fun r hmay => ?_⟩
      rw [hr.next_get]
      cases r with
      | none => exact ⟨rfl, nofun⟩
      | some wire =>
        dsimp only
        split
        next hnx =>
          refine ⟨rfl, ?_⟩
          rintro _ ⟨⟩
          exact ⟨hnx, key, List.mem_cons_self, hmay⟩
        next =>
          refine ih.mono ?_
          rintro _ out ⟨rfl, hout⟩
          refine ⟨rfl, fun wire hwire => ?_⟩
          obtain ⟨hnx, key', hmem, hmay'⟩ := hout wire hwire
          exact ⟨hnx, key', List.mem_cons_of_mem _ hmem, hmay'⟩

/-- The walk returns an NXDOMAIN that one of its reads has given. -/
theorem tryAncestorNxdomainHit_obeys (hr : ReadsFreely P h i) (fns : CacheFns) (t : Transaction) :
    Obeys P (fun h' out => h' = h ∧ ∀ wire ∈ out, fns.isNxDomain wire = true ∧
      ∃ key, some key ∈ fns.ancestorKeys t ∧ P.may h (.get i key) (some wire)) h
      (tryAncestorNxdomainHit fns i t) := by
  rw [tryAncestorNxdomainHit, call_bind]
  refine ⟨hr.ok_config, fun cfg _ => ?_⟩
  rw [hr.next_config]
  dsimp only
  split
  · exact ⟨rfl, nofun⟩
  · exact walkAncestors_obeys hr ..

end

/-- The reads of a lookup before it goes to the in-flight table: the key, the NXDOMAIN of an
ancestor, the truncated-UDP key. -/
def lookupReads (fns : CacheFns) (i : InstId) (key : CacheKey) (t : Transaction) :
    StageProg (Option CacheLookupOutcome) := do
  if let some out ← tryReadHit i key then return some out
  if let some wire ← tryAncestorNxdomainHit fns i t then return some (← hitFrom i wire)
  let cfg ← perform (.config i)
  if cfg.truncatedUdpEnabled && t.protocol == .udp then
    if let some tcKey := fns.buildTruncatedUdpKey t then
      if let some out ← tryReadHit i tcKey then return some out
  return none

/-- The synchronous follower: wait for the leader, then read again. -/
def followSync (i : InstId) (key : CacheKey) (gate : GateId) : StageProg CacheLookupOutcome := do
  let wire ← perform (.waitForResult gate)
  let _ ← perform (.removeFlight i key)
  if let some entry ← perform (.get i key) then return ← hitFrom i entry
  match wire with
  | some w => hitFrom i w
  | none => return .bypass

/-- Register in the in-flight table. -/
def joinFlight (i : InstId) (key : CacheKey) (t : Transaction) : StageProg CacheLookupOutcome := do
  let gate ← perform (.gateFor i key)
  let asyncCoalesce ← perform .asyncCoalesce
  match ← perform (.register gate t.id asyncCoalesce) with
  | .leader => return .miss key gate
  | .follower => if asyncCoalesce then return .waitAsync key else followSync i key gate

def lookup (fns : CacheFns) (cacheName : String) (t : Transaction) :
    StageProg CacheLookupOutcome := do
  let some i ← perform (.inst cacheName) | return .bypass
  if ← perform (.isRebuilding i) then return .bypass
  if !t.cacheLookupEligible then return .bypass
  let some key := fns.buildQueryKey t | return .bypass
  if let some out ← lookupReads fns i key t then return out
  joinFlight i key t

/-- Call the wake handler, if one is set, for each waiter. -/
def wakeAll : List Nat → StageProg Unit
  | [] => return ()
  | id :: ids => do
    perform (.wake id)
    wakeAll ids

def wakeWaiters (waiters : List Nat) : StageProg Unit := do
  if ← perform .wakeHandler then wakeAll waiters

/-- An exit of `fill_from_forward` that stores nothing: the waiters that `complete` returns are
dropped. -/
def fillSkipped (i : InstId) (key : CacheKey) (gate : GateId) (site : CompleteSite) :
    StageProg Unit := do
  let _ ← perform (.complete gate none site)
  perform (.removeFlight i key)

def isTruncatedUdpWire (fns : CacheFns) (wire : Wire) (t : Transaction) : Bool :=
  t.protocol == .udp && ((fns.codec.fromVec wire).map (·.truncated)).getD false

def shouldStoreTruncated (fns : CacheFns) (cfg : CompiledCacheInstance) (wire : Wire)
    (t : Transaction) : Bool :=
  cfg.truncatedUdpEnabled && isTruncatedUdpWire fns wire t

/-- The key under which a truncated answer is stored, if it is. -/
def truncatedStoreKey (fns : CacheFns) (cfg : CompiledCacheInstance) (wire : Wire)
    (t : Transaction) : Option CacheKey :=
  if shouldStoreTruncated fns cfg wire t then fns.buildTruncatedUdpKey t else none

/-- The last part of `fill_from_forward`: insert the entry, complete the gate, wake the waiters. -/
def fillStore (fns : CacheFns) (i : InstId) (key : CacheKey) (gate : GateId) (wire : Wire)
    (storeKey : Option CacheKey) (t : Transaction) : StageProg Unit := do
  let stored ← perform (.insert i (storeKey.getD key) wire)
  if stored && storeKey.isNone then
    if let some tcKey := fns.buildTruncatedUdpKey t then
      let _ ← perform (.evict i tcKey)
  let waiters ← perform (.complete gate (some wire) .stored)
  perform (.removeFlight i key)
  wakeWaiters waiters

def fillFromForward (fns : CacheFns) (cacheName : String) (key : CacheKey) (gate : GateId)
    (wire : Wire) (t : Transaction) : StageProg Unit := do
  let some i ← perform (.inst cacheName) | return ()
  let cfg ← perform (.config i)
  if ← perform (.isRebuilding i) then return ← fillSkipped i key gate .rebuilding
  let storeKey := truncatedStoreKey fns cfg wire t
  if storeKey.isNone && isTruncatedUdpWire fns wire t then
    return ← fillSkipped i key gate .truncated
  if !fns.entryFromWire cfg wire then return ← fillSkipped i key gate .notCacheable
  fillStore fns i key gate wire storeKey t

def instanceGate (cacheName : String) (key : CacheKey) : StageProg (Option GateId) := do
  let some i ← perform (.inst cacheName) | return none
  return some (← perform (.gateFor i key))

def completeInflightMiss (cacheName : String) (key : CacheKey) (gate : GateId) :
    StageProg Unit := do
  let waiters ← perform (.complete gate none .miss)
  if let some i ← perform (.inst cacheName) then perform (.removeFlight i key)
  wakeWaiters waiters

def resumeAfterWait (cacheName : String) (key : CacheKey) : StageProg CacheLookupOutcome := do
  let some i ← perform (.inst cacheName) | return .bypass
  let gate ← perform (.gateFor i key)
  if let some entry ← perform (.get i key) then
    perform (.removeFlight i key)
    return ← hitFrom i entry
  if let some wire ← perform (.gateResult gate) then
    perform (.removeFlight i key)
    return ← hitFrom i wire
  return .bypass

end Conduit
