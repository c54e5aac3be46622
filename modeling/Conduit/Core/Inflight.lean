import Conduit.Lib.Prog
import Conduit.Core.Transaction

/-!
# In-flight gates and the operations of a stage

Single-flight coalescing (`lookup/cache/inflight.rs`), and the shared state of the process that the
stages of all transactions work on.

A stage is a program (`Prog`) over the operations `Op`: each operation is what the source does
under one lock (of the gate table, of a gate, of the instance map), or one question to what is
outside the pipeline (a cache backend, backend selection, upstream I/O, the rules' world). The
answers of the outside are taken from `Env`, so a result about every `Env` is a result about every
cache content, every network and every clock.

- `InFlightGate.register`, `InFlightGate.complete`: one gate.
- `Shared`: the instance map, the gate tables (the gates are a heap: a transaction may hold a gate
  that is not in a table any more), and the queue of the split_io policy workers.
- `Op.sem`: the effect and the answer of an operation.
-/

namespace Conduit

abbrev GateId := Nat
abbrev InstId := Nat
abbrev CacheKey := List UInt8

inductive InFlightRole where
  | leader | follower
  deriving DecidableEq, Repr

structure InFlightGate where
  leaderActive : Bool := false
  result : Option Wire := none
  waiters : List Nat := []
  deriving DecidableEq, Repr

namespace InFlightGate

/-- Follow the active flight (an asynchronous follower leaves its slot id), or start a new one. -/
def register (g : InFlightGate) (txnId : Nat) (asyncWait : Bool) : InFlightGate × InFlightRole :=
  if g.leaderActive then
    (if asyncWait then { g with waiters := g.waiters ++ [txnId] } else g, .follower)
  else ({ leaderActive := true, result := none, waiters := [] }, .leader)

/-- End the flight; the waiters are the caller's to wake. -/
def complete (g : InFlightGate) (wire : Option Wire) : InFlightGate × List Nat :=
  ({ leaderActive := false, result := wire, waiters := [] }, g.waiters)

end InFlightGate

/-- The part of a compiled cache instance that lookups and fills read. -/
structure CompiledCacheInstance where
  name : String := ""
  truncatedUdpEnabled : Bool := false
  negativeCacheEnabled : Bool := false
  nxdomainCoversDescendants : Bool := true
  servfailTtlSecs : Nat := 10
  skipResponseRules : Bool := false
  deriving DecidableEq, Repr

/-- Where a gate is completed: the exits of `fill_from_forward`, and `complete_inflight_miss`. -/
inductive CompleteSite where
  | rebuilding | truncated | notCacheable | stored | miss
  deriving DecidableEq, Repr

/-- `let _ = gate.complete(None)`: the waiters of the gate are thrown away. -/
def CompleteSite.discards : CompleteSite → Bool
  | .rebuilding | .truncated | .notCacheable => true
  | .stored | .miss => false

/-- The end of a synchronous exchange with a backend. -/
inductive ExchangeResult where
  /-- The forward table has no free id for the backend. -/
  | refused
  /-- A send or TCP error. -/
  | error
  | answer (wire : Wire)
  | timeout
  deriving DecidableEq, Repr

/-- The start of a submitted forward. -/
inductive SubmitResult where
  /-- No free id, no free place in the pool, or TCP. -/
  | refused
  /-- No socket, or a send error. -/
  | error
  | sent
  deriving DecidableEq, Repr

/-- A selected backend: its pool, its address, its label. -/
structure SelectedBackend where
  pool : String
  backend : String
  label : String
  deriving DecidableEq, Repr

/-- The operations of the stages. -/
inductive Op where
  /-- `instance(name)`: the instance of the registry's map. -/
  | inst (name : String)
  | isRebuilding (i : InstId)
  | config (i : InstId)
  /-- `backend.get`. -/
  | get (i : InstId) (key : CacheKey)
  /-- `prepare_served_arc`. -/
  | prepareServed (i : InstId) (wire : Wire)
  /-- `backend.insert`: was the entry stored? -/
  | insert (i : InstId) (key : CacheKey) (wire : Wire)
  /-- `backend.remove`. -/
  | evict (i : InstId) (key : CacheKey)
  /-- `inflight.gate_for`. -/
  | gateFor (i : InstId) (key : CacheKey)
  | asyncCoalesce
  | register (g : GateId) (txnId : Nat) (asyncWait : Bool)
  | waitForResult (g : GateId)
  | gateResult (g : GateId)
  | complete (g : GateId) (wire : Option Wire) (site : CompleteSite)
  /-- `inflight.remove`. -/
  | removeFlight (i : InstId) (key : CacheKey)
  /-- Is a wake handler set? -/
  | wakeHandler
  /-- A call of the wake handler. -/
  | wake (txnId : Nat)
  /-- What selectors and scripts read outside the transaction. -/
  | world
  | selectBackend (pool : String) (attempt : Nat) (tried : List String)
  /-- A synchronous forward. -/
  | exchange (backend : String)
  /-- A submitted forward. -/
  | submit (backend : String)

/-- The answer of an operation. -/
@[reducible] def Op.Resp : Op → Type
  | .inst _ => Option InstId
  | .isRebuilding _ => Bool
  | .config _ => CompiledCacheInstance
  | .get _ _ => Option Wire
  | .prepareServed _ _ => Option Wire
  | .insert _ _ _ => Bool
  | .evict _ _ => Bool
  | .gateFor _ _ => GateId
  | .asyncCoalesce => Bool
  | .register _ _ _ => InFlightRole
  | .waitForResult _ => Option Wire
  | .gateResult _ => Option Wire
  | .complete _ _ _ => List Nat
  | .removeFlight _ _ => Unit
  | .wakeHandler => Bool
  | .wake _ => Unit
  | .world => Nat
  | .selectBackend _ _ _ => Option SelectedBackend
  | .exchange _ => ExchangeResult
  | .submit _ => SubmitResult

abbrev StageProg (α : Type) := Prog Op Op.Resp α

abbrev perform (o : Op) : StageProg o.Resp := Prog.call o

/-- The answers of the outside at one operation. -/
structure Env where
  rebuilding : Bool := false
  config : CompiledCacheInstance := {}
  entry : Option Wire := none
  served : Option Wire := none
  stored : Bool := true
  timedOut : Bool := false
  world : Nat := 0
  backend : Option SelectedBackend := none
  exchange : ExchangeResult := .timeout
  submitted : SubmitResult := .sent

structure Shared where
  instances : String → Option InstId := fun _ => none
  nextInst : InstId := 0
  flights : InstId → CacheKey → Option GateId := fun _ _ => none
  gates : GateId → InFlightGate := fun _ => {}
  nextGate : GateId := 0
  asyncCoalesce : Bool := false
  wakeHandler : Bool := false
  /-- The slots that were woken (`PolicyWork::LookupResume`) and not popped yet. -/
  queue : List Nat := []

namespace Shared

def setGate (s : Shared) (g : GateId) (v : InFlightGate) : Shared :=
  { s with gates := Function.update s.gates g v }

def setFlight (s : Shared) (i : InstId) (key : CacheKey) (v : Option GateId) : Shared :=
  { s with flights := Function.update s.flights i (Function.update (s.flights i) key v) }

end Shared

/-- The effect of an operation on the shared state and its answer; `none`: it blocks. -/
def Op.sem (env : Env) (s : Shared) : (o : Op) → Option (o.Resp × Shared)
  | .inst name => some (s.instances name, s)
  | .isRebuilding _ => some (env.rebuilding, s)
  | .config _ => some (env.config, s)
  | .get _ _ => some (env.entry, s)
  | .prepareServed _ _ => some (env.served, s)
  | .insert _ _ _ => some (env.stored, s)
  | .evict _ _ => some (env.stored, s)
  | .gateFor i key =>
    match s.flights i key with
    | some g => some (g, s)
    | none =>
      let s' := (s.setGate s.nextGate {}).setFlight i key (some s.nextGate)
      some (s.nextGate, { s' with nextGate := s.nextGate + 1 })
  | .asyncCoalesce => some (s.asyncCoalesce, s)
  | .register g txnId asyncWait =>
    let r := (s.gates g).register txnId asyncWait
    some (r.2, s.setGate g r.1)
  | .waitForResult g =>
    -- the wait may time out at any point; else it ends when there is a result or no leader
    if env.timedOut then some (none, s)
    else if (s.gates g).result.isNone && (s.gates g).leaderActive then none
    else some ((s.gates g).result, s)
  | .gateResult g => some ((s.gates g).result, s)
  | .complete g wire _ =>
    let r := (s.gates g).complete wire
    some (r.2, s.setGate g r.1)
  | .removeFlight i key => some ((), s.setFlight i key none)
  | .wakeHandler => some (s.wakeHandler, s)
  | .wake txnId => some ((), { s with queue := s.queue ++ [txnId] })
  | .world => some (env.world, s)
  | .selectBackend _ _ _ => some (env.backend, s)
  | .exchange _ => some (env.exchange, s)
  | .submit _ => some (env.submitted, s)

theorem Op.sem_switches {o : Op} {env : Env} {s s' : Shared} {r : o.Resp}
    (h : o.sem env s = some (r, s')) :
    s'.asyncCoalesce = s.asyncCoalesce ∧ s'.wakeHandler = s.wakeHandler := by
  cases o <;> simp only [Op.sem] at h
  case gateFor i key => split at h <;> cases h <;> exact ⟨rfl, rfl⟩
  case waitForResult g =>
    split at h
    · cases h; exact ⟨rfl, rfl⟩
    · split at h
      · cases h
      · cases h; exact ⟨rfl, rfl⟩
  all_goals cases h; exact ⟨rfl, rfl⟩

end Conduit
