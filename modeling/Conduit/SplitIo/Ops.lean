import Conduit.Core.Machine
import Conduit.Slots.Store
import Conduit.Forward.Sync

/-!
# The shared state of the split_io runtime

What the ingress, policy and I/O threads of `runtime/split_io` share, and what each of them does to
it at a time: an operation is what runs under one lock. A policy worker holds the lock of its slot
from `lockPolicy` to `unlock`; an operation on a locked slot blocks.

A token number is a history variable of a forward or of a waiter: `trackPending` and
`registerWaiter` give a new one, and what comes of the entry carries it. Nothing reads it.
Deadlines are left out: any pending forward may expire at any time. So is the choice of the egress
socket (`udp_socket_for` cannot fail on a backend that was built with `from_egresses`).
-/

namespace Conduit

open Function (update)

/-- `ReplyTarget`: where the response of a slot goes. -/
inductive ReplyTarget where
  | udp (socket : SockId) (peer : String)
  | tcp (tx : Nat)
  deriving DecidableEq, Repr

structure PendingForward where
  slotId : SlotId
  /-- History: its number. -/
  token : Nat
  deriving DecidableEq, Repr

structure IoResume where
  slotId : SlotId
  completion : WaitCompletion
  /-- History: the number of the forward. -/
  token : Nat
  deriving DecidableEq, Repr

inductive PolicyWork where
  | new (slotId : SlotId)
  | resume (r : IoResume)
  /-- The number is that of the waiter. -/
  | lookupResume (slotId : SlotId) (token : Nat)
  deriving DecidableEq, Repr

/-- A slot that waits for a flight. -/
structure Waiter where
  slotId : SlotId
  token : Nat
  deriving DecidableEq, Repr

inductive OrchestratorRun where
  | finished (out : RunOutcome)
  | suspended
  deriving DecidableEq, Repr

/-- What the pipeline does next for a transaction: a stage changes it, the forward stage runs, or
the transaction becomes a waiter of a flight. -/
inductive PipelineTurn where
  | stage (t : Transaction)
  | forward
  | coalesce

/-! ## Limits of the pools -/

structure PoolInflight where
  limits : String → Option Nat
  active : String → Nat := fun _ => 0

namespace PoolInflight

def tryAcquire (f : PoolInflight) (pool : String) : PoolInflight × Bool :=
  match f.limits pool with
  | none => (f, true)
  | some limit =>
    if f.active pool ≥ limit then (f, false)
    else ({ f with active := update f.active pool (f.active pool + 1) }, true)

def release (f : PoolInflight) (pool : String) : PoolInflight :=
  match f.limits pool with
  | none => f
  | some _ => { f with active := update f.active pool (f.active pool - 1) }

end PoolInflight

/-! ## Operations -/

inductive IoOp where
  /-- `acquire`, in two parts. -/
  | takeFree
  | markIngress (id : SlotId)
  /-- The `with_slot` of `acquire_ingress_slot`: did it succeed? -/
  | setup (id : SlotId) (t : Transaction)
  /-- `release_active`, in two parts; the answer of the first is `should_return`. -/
  | clearActive (id : SlotId)
  | returnToFree (id : SlotId)
  | transition (id : SlotId) (expected next : SlotState)
  /-- The `with_slot_exclusive` of `process_resume`. -/
  | beginResume (r : IoResume)
  /-- The `with_slot_exclusive` of `run_policy_loop` begins; `none`: it fails. -/
  | lockPolicy (id : SlotId)
  /-- It ends. -/
  | unlock (id : SlotId) (t : Transaction) (run : OrchestratorRun)
  /-- The `with_slot_exclusive` of `release_slot`. -/
  | poolOf (id : SlotId)
  | insertRoute (id : SlotId) (target : ReplyTarget)
  | takeRoute (id : SlotId)
  | sendReply (target : ReplyTarget) (wire : Wire)
  | push (work : PolicyWork)
  | pop
  | registerUnique (backend : String) (txnId : Nat)
  | tableRemove (key : ForwardKey)
  | tryAcquire (pool : String)
  | releasePool (pool : String)
  | trackPending (shard : Nat) (key : ForwardKey) (slotId : SlotId)
  | cancelPending (shard : Nat) (key : ForwardKey)
  /-- The `contains_key` of `handle_reply`. -/
  | hasPending (shard : Nat) (key : ForwardKey)
  /-- The keys that `poll_timeouts` collects. -/
  | expired (shard : Nat)
  /-- The `remove` of `complete`. -/
  | removePending (shard : Nat) (key : ForwardKey)
  /-- `send_to` an upstream: did it succeed? -/
  | sendTo (backend : String) (wire : Wire)
  | sendResume (r : IoResume)
  | recvResume
  /-- What the pipeline will do in this run of the orchestrator. -/
  | pipeline
  | registerWaiter (id : SlotId)

@[reducible] def IoOp.Resp : IoOp → Type
  | .takeFree => Except AcquireError SlotId
  | .setup _ _ | .clearActive _ | .transition _ _ _ | .beginResume _ => Bool
  | .lockPolicy _ => Option Transaction
  | .poolOf _ => Option String
  | .takeRoute _ => Option ReplyTarget
  | .pop => PolicyWork
  | .registerUnique _ _ => Option ForwardKey
  | .tryAcquire _ | .cancelPending _ _ | .hasPending _ _ | .sendTo _ _ => Bool
  | .expired _ => List ForwardKey
  | .removePending _ _ => Option PendingForward
  | .recvResume => IoResume
  | .pipeline => List PipelineTurn × RunOutcome
  | _ => Unit

abbrev IoProg := Prog IoOp IoOp.Resp

/-- One operation. -/
abbrev ioOp (o : IoOp) : IoProg o.Resp := Prog.call o

/-! ## What the operations do -/

structure IoShared where
  store : Store
  /-- A policy worker holds the lock of the slot. -/
  locked : SlotId → Bool := fun _ => false
  /-- `PolicyQueue`; a worker may take from any shard of it. -/
  queue : List PolicyWork := []
  /-- `IoBackend::resume_tx`. -/
  channel : List IoResume := []
  /-- The slots that wait for a flight. -/
  waiters : List Waiter := []
  table : TxnTable
  /-- The pending forwards of each shard of the `IoBackend`. -/
  pending : Nat → ForwardKey → Option PendingForward := fun _ _ => none
  inflight : PoolInflight
  /-- `ReplyRoutes`. -/
  routes : SlotId → Option ReplyTarget := fun _ => none
  /-- History: the next token number. -/
  nextToken : Nat := 0

/-- What the environment decides. -/
structure IoEnv where
  /-- The queue entry that is taken. -/
  index : Nat := 0
  /-- The keys whose deadline has passed. -/
  late : List ForwardKey := []
  sent : Bool := true
  turns : List PipelineTurn := []
  out : RunOutcome := .dropped

namespace IoShared

/-- Run `f` on a slot that is not locked. -/
def onSlot {α : Type} (s : IoShared) (id : SlotId) (f : Store → Store × α) : Option (α × IoShared) :=
  if s.locked id then none
  else
    let r := f s.store
    some (r.2, { s with store := r.1 })

/-- Did it return `Ok`? -/
def isOk {α : Type} : Except SlotError α → Bool
  | .ok _ => true
  | .error _ => false

/-- `with_slot(slot_id, SlotState::Ingress, …)` of `acquire_ingress_slot`. -/
def setupSlot (t : Transaction) (id : SlotId) (s : Store) : Store × Bool :=
  let r := s.withSlotExclusive id fun slot =>
    if slot.state ≠ .ingress then (slot, .error (.stateMismatch .ingress slot.state))
    else ({ slot with txn := { t with id := id } }, .ok ())
  (r.1, isOk r.2)

/-- The closure of `process_resume`. -/
def resumeSlot (r : IoResume) (s : Store) : Store × Bool :=
  let x := s.withSlotExclusive r.slotId fun slot =>
    if slot.state ≠ .ioWait then (slot, .ok false)
    else ({ state := .policy, txn := applyWaitCompletion slot.txn r.completion }, .ok true)
  (x.1, match x.2 with
    | .ok b => b
    | .error _ => false)

/-- `should_return` of `release_active`. -/
def clearSlot (id : SlotId) (s : Store) : Store × Bool :=
  let r := s.clearActive id
  (r.1, match r.2 with
    | .ok b => b
    | .error _ => false)

/-- The closure of `release_slot`. -/
def slotPool (s : Store) (id : SlotId) : Option String :=
  match s.slots[id]? with
  | none => none
  | some slot =>
    match slot.state with
    | .policy | .ioWait => slot.txn.selectedPool
    | _ => none

end IoShared

open IoShared in
/-- The effect of an operation and its answer; `none`: it blocks. -/
def IoOp.sem (env : IoEnv) (s : IoShared) : (o : IoOp) → Option (o.Resp × IoShared)
  | .takeFree => s.store.takeFree.map fun r => (r.2, { s with store := r.1 })
  | .markIngress id => s.onSlot id fun st => (st.markIngress id, ())
  | .setup id t => s.onSlot id (setupSlot t id)
  | .clearActive id => s.onSlot id (clearSlot id)
  | .returnToFree id => some ((), { s with store := s.store.returnToFree id })
  | .transition id expected next =>
    s.onSlot id fun st =>
      let r := st.transition id expected next
      (r.1, isOk r.2)
  | .beginResume r => s.onSlot r.slotId (resumeSlot r)
  | .lockPolicy id =>
    if s.locked id then none
    else match s.store.slots[id]? with
      | none => some (none, s)
      | some slot =>
        if slot.state ≠ .policy then some (none, s)
        else some (some slot.txn, { s with locked := update s.locked id true })
  | .unlock id t run =>
    let state := match run with
      | .suspended => .ioWait
      | .finished _ => .policy
    some ((), { s with
      store := { s.store with slots := s.store.slots.set id { state := state, txn := t } }
      locked := update s.locked id false })
  | .poolOf id => if s.locked id then none else some (slotPool s.store id, s)
  | .insertRoute id target => some ((), { s with routes := update s.routes id (some target) })
  | .takeRoute id => some (s.routes id, { s with routes := update s.routes id none })
  | .sendReply _ _ => some ((), s)
  | .push work => some ((), { s with queue := s.queue ++ [work] })
  | .pop => s.queue[env.index]?.map fun work => (work, { s with queue := s.queue.eraseIdx env.index })
  | .registerUnique backend txnId =>
    let r := s.table.registerUnique backend txnId
    some (r.2, { s with table := r.1 })
  | .tableRemove key => some ((), { s with table := s.table.remove key })
  | .tryAcquire pool =>
    let r := s.inflight.tryAcquire pool
    some (r.2, { s with inflight := r.1 })
  | .releasePool pool => some ((), { s with inflight := s.inflight.release pool })
  | .trackPending i key id =>
    some ((), { s with
      pending := update2 s.pending i key (some ⟨id, s.nextToken⟩), nextToken := s.nextToken + 1 })
  | .cancelPending i key =>
    some ((s.pending i key).isSome, { s with pending := update2 s.pending i key none })
  | .hasPending i key => some ((s.pending i key).isSome, s)
  | .expired i => some (env.late.filter fun key => (s.pending i key).isSome, s)
  | .removePending i key =>
    some (s.pending i key, { s with pending := update2 s.pending i key none })
  | .sendTo _ _ => some (env.sent, s)
  | .sendResume r => some ((), { s with channel := s.channel ++ [r] })
  | .recvResume =>
    match s.channel with
    | [] => none
    | r :: rest => some (r, { s with channel := rest })
  | .pipeline => some ((env.turns, env.out), s)
  | .registerWaiter id =>
    some ((), { s with
      waiters := s.waiters ++ [⟨id, s.nextToken⟩], nextToken := s.nextToken + 1 })

/-! ## What the operations leave alone -/

/-- The part of the shared state that an operation may change. -/
inductive IoPart where
  | slots | routes | queue | table | inflight | pending | channel | waiters | nothing
  deriving DecidableEq, Repr

def IoOp.part : IoOp → IoPart
  | .takeFree | .markIngress _ | .setup _ _ | .clearActive _ | .returnToFree _ | .transition _ _ _
  | .beginResume _ | .lockPolicy _ | .unlock _ _ _ => .slots
  | .insertRoute _ _ | .takeRoute _ => .routes
  | .push _ | .pop => .queue
  | .registerUnique _ _ | .tableRemove _ => .table
  | .tryAcquire _ | .releasePool _ => .inflight
  | .trackPending _ _ _ | .cancelPending _ _ | .removePending _ _ => .pending
  | .sendResume _ | .recvResume => .channel
  | .registerWaiter _ => .waiters
  | .poolOf _ | .sendReply _ _ | .hasPending _ _ | .expired _ | .sendTo _ _ | .pipeline => .nothing

/-- The states agree on everything but one part. -/
structure AgreeBut (p : IoPart) (s s' : IoShared) : Prop where
  routes : p ≠ .routes → s'.routes = s.routes
  queue : p ≠ .queue → s'.queue = s.queue
  table : p ≠ .table → s'.table = s.table
  inflight : p ≠ .inflight → s'.inflight = s.inflight
  pending : p ≠ .pending → s'.pending = s.pending
  channel : p ≠ .channel → s'.channel = s.channel
  waiters : p ≠ .waiters → s'.waiters = s.waiters
  nextToken : p ≠ .pending → p ≠ .waiters → s'.nextToken = s.nextToken

theorem IoShared.onSlot_eq {α : Type} {s s' : IoShared} {id : SlotId} {f : Store → Store × α} {r : α}
    (h : s.onSlot id f = some (r, s')) :
    s.locked id = false ∧ r = (f s.store).2 ∧ s' = { s with store := (f s.store).1 } := by
  unfold onSlot at h
  split at h
  · cases h
  · rename_i hfree
    cases h
    exact ⟨by simpa using hfree, rfl, rfl⟩

theorem agreeBut_slots {s : IoShared} (store : Store) (locked : SlotId → Bool) :
    AgreeBut .slots s { s with store := store, locked := locked } :=
  ⟨fun _ => rfl, fun _ => rfl, fun _ => rfl, fun _ => rfl, fun _ => rfl, fun _ => rfl, fun _ => rfl,
    fun _ _ => rfl⟩

/-- An operation changes its own part only. -/
theorem IoOp.agreeBut {env : IoEnv} {s s' : IoShared} {o : IoOp} {r : o.Resp}
    (h : o.sem env s = some (r, s')) : AgreeBut o.part s s' := by
  cases o with
  | takeFree =>
    obtain ⟨x, -, heq⟩ := Option.map_eq_some_iff.mp h
    cases heq
    exact agreeBut_slots _ _
  | markIngress id | setup id t | clearActive id | transition id expected next | beginResume res =>
    simp only [IoOp.sem] at h
    obtain ⟨-, -, rfl⟩ := IoShared.onSlot_eq h
    exact agreeBut_slots _ _
  | lockPolicy id =>
    simp only [IoOp.sem] at h
    split at h
    · cases h
    · split at h
      · cases h
        exact agreeBut_slots _ _
      · split at h <;> cases h <;> exact agreeBut_slots _ _
  | returnToFree id | unlock id t run =>
    cases h
    exact agreeBut_slots _ _
  | poolOf id =>
    simp only [IoOp.sem] at h
    split at h
    · cases h
    · cases h
      exact ⟨fun _ => rfl, fun _ => rfl, fun _ => rfl, fun _ => rfl, fun _ => rfl, fun _ => rfl,
        fun _ => rfl, fun _ _ => rfl⟩
  | pop =>
    obtain ⟨x, -, heq⟩ := Option.map_eq_some_iff.mp h
    cases heq
    refine ⟨fun _ => rfl, fun hne => absurd rfl hne, fun _ => rfl, fun _ => rfl, fun _ => rfl,
      fun _ => rfl, fun _ => rfl, fun _ _ => rfl⟩
  | recvResume =>
    simp only [IoOp.sem] at h
    split at h
    · cases h
    · cases h
      exact ⟨fun _ => rfl, fun _ => rfl, fun _ => rfl, fun _ => rfl, fun _ => rfl,
        fun hne => absurd rfl hne, fun _ => rfl, fun _ _ => rfl⟩
  | _ =>
    cases h
    constructor <;> first
      | (intro hne; exact absurd rfl hne)
      | (intro _; rfl)
      | (intro _ _; rfl)
      | (intro _ hne; exact absurd rfl hne)

end Conduit
