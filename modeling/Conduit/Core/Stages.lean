import Conduit.Config.Types
import Conduit.Core.Registry
import Conduit.Core.Rules

/-!
# The pipeline stages

The stages that the orchestrator runs: request rules and response rules
(`stages/request_rules.rs`, `stages/response_rules.rs`), and lookup with its provider chain
(`lookup/stage.rs`), which runs route (`stages/route.rs`), forward
(`conduit-dataplane/src/forward/transport.rs`) and wait (`forward/wait_stage.rs`) inside. Parse and
send are in `Conduit/Core/Wire.lean`.

- `RuntimeSnapshot`: what a stage reads of the configuration.
- `Wiring`: how the runtime is put together (synchronous, or split_io with submitted forwards).
- `runStage`: the stage of a phase.
-/

namespace Conduit

open Prog

inductive CompiledLookupProvider where
  | cache (cacheName : String)
  | forward
  deriving DecidableEq, Repr

structure CompiledLookupProfile where
  name : String
  providers : List CompiledLookupProvider
  deriving DecidableEq, Repr

/-- The parts of a snapshot that the pipeline reads: the configuration, and what is compiled from
it. -/
structure RuntimeSnapshot where
  config : Config := {}
  rules : CompiledRules := []
  scripting : CompiledScripting := []
  profiles : String → Option CompiledLookupProfile := fun _ => none
  cacheProviderConfigured : Bool := false
  generation : Nat := 0

namespace RuntimeSnapshot

def maxAttempts (s : RuntimeSnapshot) : Nat := (s.config.orchestrator.map (·.maxAttempts)).getD 3

/-- `default_pool_name`: the pool `default`, else the first one. -/
def defaultPoolName (s : RuntimeSnapshot) : Option String :=
  if s.config.pools.any (·.name == "default") then some "default"
  else s.config.pools.head?.map (·.name)

end RuntimeSnapshot

inductive Runtime where
  | sync | splitIo
  deriving DecidableEq, Repr

structure Wiring where
  runtime : Runtime
  /-- The lookup stage has a cache registry. -/
  cache : Bool := true
  fns : CacheFns

/-! ## Rules -/

def requestRulesStage (t : Transaction) (snap : RuntimeSnapshot) :
    StageProg (Transaction × StageOutcome) := do
  let world ← perform .world
  match snap.rules.eval .request snap.scripting world t with
  | (t', .drop) => return (t', .drop)
  | (t', .cont) | (t', .retry) => return (t', .cont .lookup)

def responseRulesStage (t : Transaction) (snap : RuntimeSnapshot) :
    StageProg (Transaction × StageOutcome) := do
  let world ← perform .world
  match snap.rules.eval .response snap.scripting world t with
  | (t', .retry) => return (t', .cont .lookup)
  | (t', .drop) => return (t', .drop)
  | (t', .cont) => return (t', .cont .send)

/-! ## Route, forward, wait -/

/-- The pool of the next attempt; a stashed retry pool is used up by a retry. -/
def takePoolName (t : Transaction) (snap : RuntimeSnapshot) : Transaction × Option String :=
  if t.attemptCount > 0 then
    ({ t with retryPool := none }, (t.retryPool.or t.selectedPool).or snap.defaultPoolName)
  else (t, t.selectedPool.or snap.defaultPoolName)

/-- `RouteStage::handle`. -/
def routeStage (t : Transaction) (snap : RuntimeSnapshot) :
    StageProg (Transaction × StageOutcome) := do
  let (t, pool) := takePoolName t snap
  let some pool := pool | return (t.setServfail, .cont .send)
  let tried := (t.attempts.filter (·.pool == pool)).map (·.backend)
  match ← perform (.selectBackend pool t.attemptCount tried) with
  | none => return (t.setServfail, .cont .send)
  | some b => return (t.recordAttempt b.pool b.backend b.label, .cont .forward)

/-- `finish_response` of the synchronous forward. -/
def finishResponse (c : Codec) (t : Transaction) (wire : Wire) : Transaction :=
  let wire := rewriteDnsId wire t.dnsId
  (recordUpstreamResponse c t wire).storeAnswer wire

/-- `ForwardTransport::handle_sync`. -/
def forwardSync (c : Codec) (t : Transaction) : StageProg (Transaction × StageOutcome) := do
  let some backend := t.selectedBackend | return (t.setServfail, .cont .send)
  match ← perform (.exchange backend) with
  | .refused => return (t.setServfail, .cont .send)
  | .error => return (t.takeEffectiveSources.setServfail, .cont .send)
  | .answer wire => return (finishResponse c t.takeEffectiveSources wire, .cont .responseRules)
  | .timeout => return (t.takeEffectiveSources.setServfail, .cont .responseRules)

/-- `ForwardTransport::handle_submit`. -/
def forwardSubmit (t : Transaction) : StageProg (Transaction × StageOutcome) := do
  let some backend := t.selectedBackend | return (t.setServfail, .cont .send)
  match ← perform (.submit backend) with
  | .refused => return (t.setServfail, .cont .send)
  | .error => return (t.takeEffectiveSources.setServfail, .cont .send)
  | .sent => return (t.takeEffectiveSources, .suspend .waitResponse)

def forwardStage (w : Wiring) (t : Transaction) : StageProg (Transaction × StageOutcome) :=
  match w.runtime with
  | .sync => forwardSync w.fns.codec t
  | .splitIo => forwardSubmit t

/-- `WaitResponseStage::handle`: always on to the response rules. -/
def waitResponseStage (c : Codec) (t : Transaction) : Transaction :=
  match t.responseWire with
  | some wire => recordUpstreamResponse c t wire
  | none => t

/-- The end of a submitted forward. -/
inductive WaitCompletion where
  | response (wire : Wire)
  | timeout
  deriving DecidableEq, Repr

def applyWaitCompletion (t : Transaction) : WaitCompletion → Transaction
  | .response wire => t.storeAnswer (rewriteDnsId wire t.dnsId)
  | .timeout => t.setServfail

/-! ## Lookup -/

/-- The fill of `finish_forward_answer`: complete the flight that the transaction has to fill. -/
def finishFill (w : Wiring) (t : Transaction) : StageProg Unit := do
  if w.cache then
    if let some fill := t.lookupCacheFill then
      let t := { t with lookupCacheFill := none }
      match t.responseWire with
      | some wire =>
        if let some gate ← instanceGate fill.cacheName fill.key then
          fillFromForward w.fns fill.cacheName fill.key gate wire t
      | none =>
        if let some gate ← instanceGate fill.cacheName fill.key then
          completeInflightMiss fill.cacheName fill.key gate

def finishForwardAnswer (w : Wiring) (t : Transaction) :
    StageProg (Transaction × StageOutcome) := do
  let t := waitResponseStage w.fns.codec t
  finishFill w t
  return ({ t with
    lookupCacheFill := none, lookupOutcome := some .answered
    answerSource := some .forward, cacheInstance := none },
    .cont .responseRules)

/-- The forward and what follows it, in `LookupStage::run_forward_chain`. -/
def forwardThenFinish (w : Wiring) (t : Transaction) :
    StageProg (Transaction × StageOutcome) := do
  match ← forwardStage w t with
  | (t, .suspend .waitResponse) =>
    return ({ t with lookupForwardStep := some .wait }, .suspend .lookup)
  | (t, .cont .waitResponse) => finishForwardAnswer w t
  | (t, .cont .responseRules) => finishForwardAnswer w t
  | (t, .drop) => return (t, .drop)
  | (t, _) => return (t, .cont .send)

def runForwardChain (w : Wiring) (t : Transaction) (snap : RuntimeSnapshot) :
    StageProg (Transaction × StageOutcome) := do
  let t := { t with cacheLookupEligible := false }
  if t.attemptCount ≥ snap.maxAttempts then return (t.setServfail, .cont .send)
  match ← routeStage t snap with
  | (t, .cont .forward) => forwardThenFinish w t
  | (t, .drop) => return (t, .drop)
  | (t, _) => return (t, .cont .send)

def applyCacheHit (c : Codec) (t : Transaction) (wire : Wire) (cacheName : String)
    (skipResponseRules : Bool) : Transaction × StageOutcome :=
  ({ (recordUpstreamResponse c t wire).storeAnswer wire with
      lookupOutcome := some .answered, answerSource := some .cache
      cacheInstance := some cacheName },
    if skipResponseRules then .cont .send else .cont .responseRules)

/-- The end of `LookupStage::try_cache_provider`: the transaction, and the stage's outcome if the
provider ends the stage. -/
def afterLookup (w : Wiring) (cacheName : String) (t : Transaction) :
    CacheLookupOutcome → Transaction × Option StageOutcome
  | .hit wire name skip =>
    let r := applyCacheHit w.fns.codec t wire name skip
    (r.1, some r.2)
  | .miss key _ =>
    ({ t with lookupOutcome := some .miss, lookupCacheFill := some ⟨cacheName, key⟩ }, none)
  | .waitAsync key => ({ t with lookupCacheWait := some ⟨cacheName, key⟩ }, some (.suspend .lookup))
  | .bypass => (t, none)

def tryCacheProvider (w : Wiring) (cacheName : String) (t : Transaction) (snap : RuntimeSnapshot) :
    StageProg (Transaction × Option StageOutcome) := do
  if w.cache && snap.cacheProviderConfigured then
    return afterLookup w cacheName t (← lookup w.fns cacheName t)
  else return (t, none)

/-- The provider loop of `LookupStage::handle`. -/
def runProviders (w : Wiring) (snap : RuntimeSnapshot) :
    List CompiledLookupProvider → Transaction → StageProg (Transaction × StageOutcome)
  | [], t => return ({ t with lookupOutcome := some .miss }, .cont .responseRules)
  | .cache cacheName :: rest, t => do
    if t.cacheLookupEligible then
      match ← tryCacheProvider w cacheName t snap with
      | (t, some out) => return (t, out)
      | (t, none) => runProviders w snap rest t
    else runProviders w snap rest t
  | .forward :: _, t => runForwardChain w t snap

def resumeCacheWait (w : Wiring) (t : Transaction) (wait : CacheTarget) (snap : RuntimeSnapshot) :
    StageProg (Transaction × StageOutcome) := do
  if w.cache then
    match ← resumeAfterWait wait.cacheName wait.key with
    | .hit wire name skip => return applyCacheHit w.fns.codec t wire name skip
    | _ =>
      runForwardChain w
        { t with lookupOutcome := some .miss, lookupCacheFill := some wait } snap
  else runForwardChain w t snap

/-- `LookupStage::handle`. -/
def lookupStage (w : Wiring) (t : Transaction) (snap : RuntimeSnapshot) :
    StageProg (Transaction × StageOutcome) :=
  match t.lookupCacheWait with
  | some wait => resumeCacheWait w { t with lookupCacheWait := none } wait snap
  | none =>
    if t.lookupForwardStep = some .wait then
      finishForwardAnswer w { t with lookupForwardStep := none }
    else match snap.profiles (t.lookupProfile.getD "default") with
      | none => return (t.setServfail, .cont .send)
      | some profile =>
        runProviders w snap profile.providers { t with lookupProfile := some profile.name }

/-- The stage that is registered for a phase. -/
def runStage (w : Wiring) (t : Transaction) (snap : RuntimeSnapshot) :
    Phase → Option (StageProg (Transaction × StageOutcome))
  | .parse => some (return parseStage w.fns.codec t)
  | .requestRules => some (requestRulesStage t snap)
  | .lookup => some (lookupStage w t snap)
  | .responseRules => some (responseRulesStage t snap)
  | .send => some (return (sendStage w.fns.codec t, .cont .send))
  | _ => none

end Conduit
