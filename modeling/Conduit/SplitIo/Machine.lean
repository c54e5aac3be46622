import Conduit.SplitIo.Programs

/-!
# The split_io machine

All threads of the runtime, interleaved: a step is one operation of a thread's program, the start or
the end of a turn of its loop, or the wake-up of a slot that waits for a flight.

- `Loc`: where a thread is, by the operations it has performed.
- `Ctl`: who may change a slot. `IoHist` also numbers the transactions: `serial` is the one that a
  slot holds, `actor` the one that a thread works for. These are history; no step reads them.
- `split`: the transition system.
-/

namespace Conduit

open Function (update)

inductive Loc where
  | idle
  /-- An ingress thread has taken the slot off the free list, has marked it, has written the
  transaction, has inserted the route. -/
  | taken (id : SlotId)
  | marked (id : SlotId)
  | ready (id : SlotId)
  | routed (id : SlotId)
  | popped (work : PolicyWork)
  /-- The slot is in the policy state; in the orchestrator. The worker may have a permit to give
  back. -/
  | entered (id : SlotId)
  | running (id : SlotId) (debt : Option String)
  /-- In `handle_submit`: the key is registered, the permit acquired, the forward tracked. -/
  | registered (id : SlotId) (key : ForwardKey)
  | permitted (id : SlotId) (key : ForwardKey) (pool : String)
  | tracked (id : SlotId) (key : ForwardKey) (pool : String)
  /-- The send failed; the key is out of the table and the shards from `shard` on are searched. -/
  | failed (id : SlotId) (key : ForwardKey) (debt : Option String)
  | cancelling (id : SlotId) (key : ForwardKey) (shard : Nat)
  /-- The forward was sent, or the transaction is a waiter. -/
  | parked (id : SlotId)
  | finished (id : SlotId) (out : RunOutcome)
  | delivering (id : SlotId) (target : ReplyTarget) (wire : Wire)
  | delivered (id : SlotId)
  /-- In `release_slot`: the pool is read, the slot cleared, the slot on the free list. -/
  | releasing (id : SlotId) (pool : Option String)
  | cleared (id : SlotId) (pool : Option String)
  | freed (pool : Option String)
  /-- In `complete`: the pending entry is removed, then the table entry. -/
  | completing (key : ForwardKey) (p : PendingForward)
  | resuming (p : PendingForward)
  | moving (r : IoResume)
  | ended
  deriving DecidableEq, Repr

namespace Loc

def next (w : SplitWiring) (l : Loc) : (o : IoOp) → o.Resp → Loc
  | .takeFree, r => match (r : Except AcquireError SlotId) with
    | .ok id => .taken id
    | .error _ => .ended
  | .markIngress id, _ => .marked id
  | .setup id _, _ => .ready id
  | .insertRoute id _, _ => .routed id
  | .push _, _ => .ended
  | .pop, work => .popped work
  | .transition id _ _, r => if r then .entered id else .ended
  | .beginResume r, ok => if ok then .entered r.slotId else .ended
  | .lockPolicy id, _ => .running id none
  | .registerUnique _ id, r => match (r : Option ForwardKey) with
    | some key => .registered id key
    | none => l
  | .tryAcquire pool, r => match l, (r : Bool) with
    | .registered id key, true => .permitted id key pool
    | l, _ => l
  | .tableRemove _, _ => match l with
    | .registered id _ => .running id none
    | .permitted id _ pool => .running id (some pool)
    | .failed id key _ => .cancelling id key 0
    | .completing _ p => .resuming p
    | l => l
  | .releasePool _, _ => match l with
    | .running id _ => .running id none
    | .failed id key _ => .failed id key none
    | .freed _ => .ended
    | l => l
  | .trackPending _ key id, _ => match l with
    | .permitted _ _ pool => .tracked id key pool
    | l => l
  | .sendTo _ _, r => match l, (r : Bool) with
    | .tracked id _ _, true => .parked id
    | .tracked id key pool, false => .failed id key (some pool)
    | l, _ => l
  | .cancelPending i key, found => match l with
    | .cancelling id _ _ =>
      if found || i + 1 ≥ w.ioShards then .running id none else .cancelling id key (i + 1)
    | l => l
  | .registerWaiter id, _ => .parked id
  | .unlock id _ run, _ => match run with
    | .suspended => .ended
    | .finished out => .finished id out
  | .takeRoute id, r => match l, (r : Option ReplyTarget) with
    | .finished _ (.response wire), some target => .delivering id target wire
    | _, _ => .delivered id
  | .sendReply _ _, _ => match l with
    | .delivering id _ _ => .delivered id
    | l => l
  | .poolOf id, pool => .releasing id pool
  | .clearActive id, _ => match l with
    | .releasing _ pool => .cleared id pool
    | l => l
  | .returnToFree _, _ => match l with
    | .cleared _ pool => .freed pool
    | l => l
  | .removePending _ key, r => match (r : Option PendingForward) with
    | some p => .completing key p
    | none => l
  | .sendResume _, _ => .idle
  | .recvResume, r => .moving r
  | .hasPending _ _, _ | .expired _, _ | .pipeline, _ => l

end Loc

/-- Who may change a slot: nobody, a thread, the worker that takes its entry off the policy queue,
or the worker that takes its resume. -/
inductive Ctl where
  | free
  | thread (t : Tid)
  | queued
  | waiting
  deriving DecidableEq, Repr

structure IoHist where
  loc : Tid → Loc := fun _ => .idle
  ctl : SlotId → Ctl := fun _ => .free
  /-- The number of the transaction in the slot, from `setup` to `clearActive`. -/
  serial : SlotId → Option Nat := fun _ => none
  nextSerial : Nat := 0
  /-- The transaction that the thread works for. -/
  actor : Tid → Option Nat := fun _ => none

namespace IoHist

/-- A thread gets hold of a slot, and of the transaction in it. -/
def hold (h : IoHist) (t : Tid) (id : SlotId) : IoHist :=
  { h with
    ctl := update h.ctl id (.thread t)
    actor := update h.actor t (h.serial id) }

def letGo (h : IoHist) (t : Tid) (id : SlotId) (c : Ctl) : IoHist :=
  { h with
    ctl := update h.ctl id c
    actor := update h.actor t none }

/-- What an operation does to the slots' histories. -/
def transfer (h : IoHist) (t : Tid) : (o : IoOp) → o.Resp → IoHist
  | .takeFree, r => match (r : Except AcquireError SlotId) with
    | .ok id => { h with ctl := update h.ctl id (.thread t) }
    | .error _ => h
  | .setup id _, _ =>
    { h with
      serial := update h.serial id (some h.nextSerial), nextSerial := h.nextSerial + 1
      actor := update h.actor t (some h.nextSerial) }
  | .push work, _ => match work with
    | .new id => h.letGo t id .queued
    | _ => h
  | .pop, work => match (work : PolicyWork) with
    | .new id => h.hold t id
    | _ => h
  | .transition id _ _, r => if r then h.hold t id else h
  | .beginResume r, ok => if ok then h.hold t r.slotId else h
  | .unlock id _ run, _ => match run with
    | .suspended => h.letGo t id .waiting
    | .finished _ => h
  | .clearActive id, _ => { h with serial := update h.serial id none }
  | .returnToFree id, _ => { h with ctl := update h.ctl id .free }
  | _, _ => h

def next (w : SplitWiring) (h : IoHist) (t : Tid) (o : IoOp) (r : o.Resp) : IoHist :=
  { h.transfer t o r with loc := update h.loc t ((h.loc t).next w o r) }

/-- A turn of the thread's loop begins or ends. -/
def reset (h : IoHist) (t : Tid) : IoHist :=
  { h with loc := update h.loc t .idle, actor := update h.actor t none }

end IoHist

/-! ## The system -/

structure IoState where
  shared : IoShared
  threads : Tid → Option (IoProg Unit) := fun _ => none
  hist : IoHist := {}

inductive IoAct where
  | start (t : Tid) (job : Job)
  | op (t : Tid) (env : IoEnv)
  | ret (t : Tid)
  /-- The wake handler is called for a stored waiter. -/
  | wake (index : Nat)

namespace IoState

def step (w : SplitWiring) (s : IoState) : IoAct → Option IoState
  | .start t job =>
    match s.threads t with
    | none => some { s with threads := update s.threads t (some (job.prog w)) }
    | some _ => none
  | .op t env =>
    match s.threads t with
    | some (.op o k) =>
      (o.sem env s.shared).map fun (r, shared) =>
        { shared := shared
          threads := update s.threads t (some (k r))
          hist := s.hist.next w t o r }
    | _ => none
  | .ret t =>
    match s.threads t with
    | some (.ret _) =>
      some { s with threads := update s.threads t none, hist := s.hist.reset t }
    | _ => none
  | .wake index =>
    s.shared.waiters[index]?.map fun waiter =>
      { s with shared := { s.shared with
          waiters := s.shared.waiters.eraseIdx index
          queue := s.shared.queue ++ [.lookupResume waiter.slotId waiter.token] } }

/-- The operation that the thread performs next. -/
def nextOp (s : IoState) (t : Tid) : Option IoOp :=
  match s.threads t with
  | some (.op o _) => some o
  | _ => none

/-- The operation that a step performs, with its answer. -/
def performed (s : IoState) : IoAct → Option (Tid × (o : IoOp) × o.Resp)
  | .op t env =>
    match s.threads t with
    | some (.op o _) => (o.sem env s.shared).map fun x => (t, ⟨o, x.1⟩)
    | _ => none
  | _ => none

theorem performed_op {s : IoState} {t : Tid} {env : IoEnv} {o : IoOp} {k : o.Resp → IoProg Unit}
    {r : o.Resp} {shared : IoShared} (ht : s.threads t = some (.op o k))
    (hs : o.sem env s.shared = some (r, shared)) : s.performed (.op t env) = some (t, ⟨o, r⟩) := by
  simp [performed, ht, hs]

end IoState

inductive IoStep (w : SplitWiring) (s : IoState) : IoAct → IoState → Prop
  | start {t : Tid} (job : Job) (ht : s.threads t = none) : IoStep w s (.start t job)
      { s with threads := update s.threads t (some (job.prog w)) }
  | op {t : Tid} {env : IoEnv} {o : IoOp} {k : o.Resp → IoProg Unit} {r : o.Resp} {shared : IoShared}
      (ht : s.threads t = some (.op o k)) (hs : o.sem env s.shared = some (r, shared)) :
      IoStep w s (.op t env)
        { shared := shared
          threads := update s.threads t (some (k r))
          hist := s.hist.next w t o r }
  | ret {t : Tid} (ht : s.threads t = some (.ret ())) : IoStep w s (.ret t)
      { s with threads := update s.threads t none, hist := s.hist.reset t }
  | wake {index : Nat} {waiter : Waiter} (hw : s.shared.waiters[index]? = some waiter) :
      IoStep w s (.wake index)
        { s with shared := { s.shared with
            waiters := s.shared.waiters.eraseIdx index
            queue := s.shared.queue ++ [.lookupResume waiter.slotId waiter.token] } }

theorem ioStep_cases {w : SplitWiring} {s s' : IoState} {a : IoAct} (h : s.step w a = some s') :
    IoStep w s a s' := by
  cases a with
  | start t job =>
    simp only [IoState.step] at h
    split at h
    · cases h; exact .start job ‹_›
    · cases h
  | op t env =>
    simp only [IoState.step] at h
    split at h
    · obtain ⟨⟨r, shared⟩, hs, h⟩ := Option.map_eq_some_iff.mp h
      cases h; exact .op ‹_› hs
    · cases h
  | ret t =>
    simp only [IoState.step] at h
    split at h
    · cases h; exact .ret ‹_›
    · cases h
  | wake index =>
    obtain ⟨waiter, hw, h⟩ := Option.map_eq_some_iff.mp h
    cases h; exact .wake hw

/-- The runtime at its start: any limits, and an empty slot store of any size. -/
abbrev split (w : SplitWiring) : Lts where
  St := IoState
  Act := IoAct
  init s := ∃ store table inflight, s = { shared := { store, table, inflight } } ∧
    store.slots = [] ∧ store.freeList = [] ∧ table.entries = [] ∧ inflight.active = fun _ => 0
  step s a := s.step w a

/-! ## A sample runtime -/

def sampleSplitWiring : SplitWiring where
  codec := .header
  upstreamTransport := .udpOnly
  clientTcpUsesUpstreamTcp := false
  isIpv4 := fun _ => true
  ioShards := 1
  ioShards_pos := by decide

/-- A runtime with `slots` slots and the given pool limits. -/
def sampleSplit (slots : Nat) (h : 1 ≤ slots) (limits : String → Option Nat) : IoState where
  shared :=
    { store := { capacity := slots, chunkSize := slots, capacity_pos := h, chunkSize_pos := h }
      table := { capacity := 8, perBackendLimit := 8 }
      inflight := { limits := limits } }

theorem sampleSplit_init (slots : Nat) (h : 1 ≤ slots) (limits : String → Option Nat) :
    (split sampleSplitWiring).init (sampleSplit slots h limits) :=
  ⟨_, _, _, rfl, rfl, rfl, rfl, rfl⟩

/-- One turn of a thread's loop that performs `n` operations. -/
def sampleTurn (t : Tid) (job : Job) (n : Nat) (env : IoEnv) : List IoAct :=
  .start t job :: List.replicate n (.op t env) ++ [.ret t]

/-- A query of the client arrives at the ingress. -/
def sampleArrival (peer : String) : List IoAct :=
  sampleTurn 0 (.query {} (.udp 0 peer)) 5 {}

/-- The pipeline routes the transaction to a backend of the default pool and forwards it; if that
fails, it answers. -/
def forwardPlan : IoEnv where
  turns := [.stage { selectedPool := some "default", selectedBackend := some "192.0.2.1:53" }, .forward]
  out := .response [1]

/-- The pipeline answers. -/
def finishPlan : IoEnv where
  out := .response [2]

def backendReply : Datagram := ⟨"192.0.2.1:53", List.replicate 12 0⟩

end Conduit
