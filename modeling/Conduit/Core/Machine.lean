import Conduit.Lib.Lts
import Conduit.Core.Stages

/-!
# The machine

All transactions of the process, interleaved: the orchestrator loop (`orchestrator.rs`) of each
transaction, the resumes of the split_io policy workers (`runtime/split_io/policy.rs`), the
snapshot store (`snapshot.rs`), and the changes of the instance map. A step of a transaction is one
operation of its stage, or a step of the orchestrator between two stages.

- `Thread`: a transaction with its snapshot and its place in the orchestrator loop.
- `Act`, `step`, `machine`: the steps, and the transition system.
- `Local`, `Hist`: history variables of the single-flight protocol; no step reads them.
-/

namespace Conduit

open Function (update update_eq_self update_of_ne update_self)

abbrev Tid := Nat

inductive RunOutcome where
  | response (wire : Wire)
  | dropped
  deriving DecidableEq, Repr

/-- One stage run of a transaction: the phase, the generation of the snapshot it got, if the
deadline check jumped to it, the transaction before and after it, and its outcome. -/
structure StageRun where
  phase : Phase
  generation : Nat
  late : Bool
  before : Transaction
  after : Transaction
  outcome : StageOutcome

inductive Pos where
  /-- At the head of the loop of `run_loop`. -/
  | top
  /-- In the stage of a phase. -/
  | running (phase : Phase) (late : Bool) (before : Transaction)
      (prog : StageProg (Transaction × StageOutcome))
  | suspended
  | finished (out : RunOutcome)

instance (p : Pos) (out : RunOutcome) : Decidable (p = .finished out) :=
  match p with
  | .finished out' => decidable_of_iff (out' = out) (by simp)
  | .top | .running _ _ _ _ | .suspended => .isFalse nofun

structure Thread where
  txn : Transaction
  snap : RuntimeSnapshot
  pos : Pos
  log : List StageRun := []

/-- What the listener hands over: the slot or counter id, the query, and the tag of the access
list. -/
structure Ingress where
  id : Nat
  queryWire : Wire
  protocol : ClientProtocol
  tag : Option String := none

/-- The transaction of a new query. The split_io ingress parses the query itself, and drops what
does not parse. -/
def Ingress.transaction (w : Wiring) (q : Ingress) : Option Transaction :=
  let t : Transaction := { id := q.id, queryWire := q.queryWire, protocol := q.protocol }
  let t := match q.tag with
    | some tag => { t with tags := t.tags.setBool tag true }
    | none => t
  match w.runtime with
  | .sync => some t
  | .splitIo =>
    match structuralParse w.fns.codec q.queryWire with
    | .ok p => some (applyParsedQuery t p)
    | .error _ => none

namespace Thread

/-- The start of `run_loop` for a new transaction. -/
def start (t : Transaction) (snap : RuntimeSnapshot) : Thread where
  txn := { t with snapshotGeneration := snap.generation, currentPhase := .parse }
  snap := snap
  pos := .top

/-- The transaction after the deadline check. -/
def checkDeadline (t : Transaction) (late : Bool) : Transaction :=
  if late then { t.setServfail with currentPhase := .send } else t

/-- From the head of the loop into the stage; a phase without a stage is passed over. -/
def enter (w : Wiring) (th : Thread) (late : Bool) : Thread :=
  let t := checkDeadline th.txn late
  match runStage w t th.snap t.currentPhase with
  | some p => { th with txn := t, pos := .running t.currentPhase late t p }
  | none => { th with txn := { t with currentPhase := nextPhase t.currentPhase } }

/-- What the orchestrator does with the result of a stage. -/
def leave (th : Thread) (phase : Phase) (late : Bool) (before after : Transaction)
    (out : StageOutcome) : Thread :=
  let log := th.log ++ [⟨phase, th.snap.generation, late, before, after, out⟩]
  match out with
  | .drop => { th with txn := after, pos := .finished .dropped, log := log }
  | .suspend _ => { th with txn := after, pos := .suspended, log := log }
  | .cont next =>
    let t := { after with currentPhase := next }
    if phase = .send then
      { th with
        txn := t, log := log
        pos := .finished (match t.responseWire with
          | some wire => .response wire
          | none => .dropped) }
    else { th with txn := t, pos := .top, log := log }

/-- `run_policy_loop` for a resumed transaction: it loads the current snapshot. -/
def resume (th : Thread) (t : Transaction) (snap : RuntimeSnapshot) : Thread :=
  { th with txn := { t with currentPhase := .lookup }, snap := snap, pos := .top }

end Thread

/-! ## History of the single-flight protocol -/

/-- A flight that a transaction leads: the instance by name and id, the key, the gate. -/
structure Flight where
  name : String
  inst : InstId
  key : CacheKey
  gate : GateId
  deriving DecidableEq, Repr

/-- A transaction between `gate_for` and the last use of the table or the gate that follows it. -/
structure Section where
  inst : InstId
  key : CacheKey
  gate : GateId
  /-- The transaction has completed the gate. -/
  completed : Bool
  deriving DecidableEq, Repr

/-- The history of one transaction. -/
structure Local where
  /-- The name of the last `instance(name)`. -/
  name : String := ""
  /-- The last value of `async_coalesce` that it read. -/
  async : Bool := false
  /-- The flight it leads: from its registration to its own `complete`. -/
  lead : Option Flight := none
  sect : Option Section := none
  /-- The waiters it has taken and not woken yet. -/
  owed : List Nat := []
  deriving DecidableEq, Repr

def Local.next (l : Local) : (o : Op) → o.Resp → Local
  | .inst name, r =>
    { l with name := name, sect := match (r : Option InstId) with | some _ => l.sect | none => none }
  | .gateFor i key, g => { l with sect := some ⟨i, key, g, false⟩ }
  | .asyncCoalesce, r => { l with async := r }
  | .register g _ _, r =>
    match (r : InFlightRole) with
    | .leader =>
      { l with sect := none, lead := l.sect.map (fun s => ⟨l.name, s.inst, s.key, g⟩) }
    | .follower => { l with sect := none }
  | .gateResult _, r =>
    match (r : Option Wire) with
    | some _ => l
    | none => { l with sect := none }
  | .complete _ _ site, ws =>
    { l with
      lead := none, sect := l.sect.map (fun s => { s with completed := true })
      owed := if site.discards then [] else ws }
  | .removeFlight _ _, _ => { l with sect := none }
  | .wake _, _ => { l with owed := l.owed.tail }
  | _, _ => l

/-- The leader of a gate, with the key it registered for. -/
structure Holder where
  tid : Tid
  inst : InstId
  key : CacheKey
  deriving DecidableEq, Repr

/-- The history of all flights. The flights of a gate are numbered: a completion ends one. -/
structure Hist where
  locals : Tid → Local := fun _ => {}
  /-- The transaction that leads the gate, from its registration to its own `complete` of it. -/
  held : GateId → Option Holder := fun _ => none
  /-- The number of the current flight of the gate. -/
  flight : GateId → Nat := fun _ => 0
  /-- The transaction that registered as leader of the flight. -/
  leader : GateId → Nat → Option Tid := fun _ _ => none
  /-- The slot ids stored as waiters of the flight, in order. -/
  stored : GateId → Nat → List Nat := fun _ _ => []
  /-- The slot ids passed to the wake handler for the flight, in order. -/
  woken : GateId → Nat → List Nat := fun _ _ => []
  /-- The flight has ended: it was completed, or its leader's fill returned. -/
  ended : GateId → Nat → Bool := fun _ _ => false
  /-- The number of the flight that the transaction leads. -/
  leadNo : Tid → Nat := fun _ => 0
  /-- The flight whose waiters the transaction is waking. -/
  owes : Tid → GateId × Nat := fun _ => (0, 0)

/-- Update a table with two arguments. -/
def update2 {A B C : Type} [DecidableEq A] [DecidableEq B] (f : A → B → C) (a : A) (b : B) (c : C) :
    A → B → C :=
  update f a (update (f a) b c)

section update2

variable {A B C : Type} [DecidableEq A] [DecidableEq B] {f : A → B → C} {a a' : A} {b b' : B}

theorem update2_self (c : C) : update2 f a b c a b = c := by
  rw [update2, update_self, update_self]

theorem update2_of_ne (c : C) (h : ¬ (a' = a ∧ b' = b)) : update2 f a b c a' b' = f a' b' := by
  by_cases ha : a' = a
  · subst ha
    rw [update2, update_self, update_of_ne fun hb => h ⟨rfl, hb⟩]
  · rw [update2, update_of_ne ha]

theorem update2_apply (c : C) :
    update2 f a b c a' b' = if a' = a ∧ b' = b then c else f a' b' := by
  by_cases h : a' = a ∧ b' = b
  · obtain ⟨rfl, rfl⟩ := h
    rw [update2_self, if_pos ⟨rfl, rfl⟩]
  · rw [update2_of_ne c h, if_neg h]

theorem update2_eq_self {c : C} (h : f a b = c) : update2 f a b c = f := by
  rw [update2, ← h, update_eq_self, update_eq_self]

theorem update2_idem (c : C) : update2 (update2 f a b c) a b c = update2 f a b c :=
  update2_eq_self (update2_self c)

end update2

namespace Hist

/-- The flight that `t` leads, if any, is over. -/
def endLead (h : Hist) (t : Tid) : GateId → Nat → Bool :=
  match (h.locals t).lead with
  | some f => update2 h.ended f.gate (h.leadNo t) true
  | none => h.ended

def next (h : Hist) (t : Tid) (o : Op) (r : o.Resp) : Hist :=
  let h' := { h with locals := update h.locals t ((h.locals t).next o r) }
  match o, r with
  | .inst _, r =>
    -- inside a fill: it returns without a completion
    match (r : Option InstId), (h.locals t).sect with
    | none, some ⟨_, _, _, false⟩ => { h' with ended := h.endLead t }
    | _, _ => h'
  | .register g txnId asyncWait, r =>
    match (r : InFlightRole) with
    | .leader =>
      { h' with
        held := update h.held g ((h.locals t).sect.map fun c => ⟨t, c.inst, c.key⟩)
        leader := update2 h.leader g (h.flight g) (some t)
        leadNo := update h.leadNo t (h.flight g) }
    | .follower =>
      if asyncWait then
        { h' with
          stored := update2 h.stored g (h.flight g) (h.stored g (h.flight g) ++ [txnId]) }
      else h'
  | .complete g _ _, _ =>
    { h' with
      held := if (h.held g).map (·.tid) = some t then update h.held g none else h.held
      flight := update h.flight g (h.flight g + 1)
      ended := update2 (h.endLead t) g (h.flight g) true
      owes := update h.owes t (g, h.flight g) }
  | .wake id, _ =>
    let (g, n) := h.owes t
    { h' with woken := update2 h.woken g n (h.woken g n ++ [id]) }
  | _, _ => h'

end Hist

/-! ## The system -/

structure State where
  shared : Shared := {}
  current : RuntimeSnapshot := {}
  generation : Nat := 0
  threads : Tid → Option Thread := fun _ => none
  nextTid : Tid := 0
  hist : Hist := {}

inductive Act where
  /-- A query arrives; its transaction loads the current snapshot. -/
  | start (q : Ingress)
  /-- The head of the orchestrator loop; `late`: the deadline check fires. -/
  | enter (t : Tid) (late : Bool)
  /-- The next operation of the stage. -/
  | op (t : Tid) (env : Env)
  /-- The stage returns. -/
  | ret (t : Tid)
  /-- `process_resume`: the upstream answered or timed out. -/
  | resumeIo (t : Tid) (c : WaitCompletion)
  /-- `process_lookup_resume`: a woken slot is popped. -/
  | resumeLookup (t : Tid)
  /-- `install_validated_with_base`: a new snapshot. -/
  | install (snap : RuntimeSnapshot)
  | dropInstance (name : String)
  | addInstance (name : String)

/-- The operation that the stage of the transaction performs next. -/
def Thread.nextOp (th : Thread) : Option Op :=
  match th.pos with
  | .running _ _ _ (.op o _) => some o
  | _ => none

namespace State

def setThread (s : State) (t : Tid) (th : Thread) : State :=
  { s with threads := update s.threads t (some th) }

def nextOp (s : State) (t : Tid) : Option Op := (s.threads t).bind (·.nextOp)

/-- What the orchestrator returned for the transaction, if it has finished. -/
def result (s : State) (t : Tid) : Option RunOutcome :=
  match (s.threads t).map Thread.pos with
  | some (Pos.finished out) => some out
  | _ => none

theorem result_eq {s : State} {t : Tid} {out : RunOutcome} (h : s.result t = some out) :
    ∃ th, s.threads t = some th ∧ th.pos = .finished out := by
  unfold result at h
  split at h
  · rename_i hpos
    cases h
    exact Option.map_eq_some_iff.mp hpos
  · cases h

end State

def step (w : Wiring) (s : State) : Act → Option State
  | .start q =>
    (q.transaction w).map fun t =>
      { s.setThread s.nextTid (Thread.start t s.current) with nextTid := s.nextTid + 1 }
  | .enter t late =>
    match s.threads t with
    | some th =>
      match th.pos with
      | .top => some (s.setThread t (th.enter w late))
      | _ => none
    | none => none
  | .op t env =>
    match s.threads t with
    | some th =>
      match th.pos with
      | .running phase late before (.op o k) =>
        (o.sem env s.shared).map fun (r, shared) =>
          { s.setThread t { th with pos := .running phase late before (k r) } with
            shared := shared, hist := s.hist.next t o r }
      | _ => none
    | none => none
  | .ret t =>
    match s.threads t with
    | some th =>
      match th.pos with
      | .running phase late before (.ret (after, out)) =>
        some (s.setThread t (th.leave phase late before after out))
      | _ => none
    | none => none
  | .resumeIo t c =>
    match s.threads t with
    | some th =>
      match th.pos, w.runtime with
      | .suspended, .splitIo =>
        some (s.setThread t (th.resume (applyWaitCompletion th.txn c) s.current))
      | _, _ => none
    | none => none
  | .resumeLookup t =>
    match s.threads t with
    | some th =>
      match th.pos, w.runtime with
      | .suspended, .splitIo =>
        if th.txn.id ∈ s.shared.queue then
          some { s.setThread t (th.resume th.txn s.current) with
            shared := { s.shared with queue := s.shared.queue.erase th.txn.id } }
        else none
      | _, _ => none
    | none => none
  | .install snap =>
    some { s with
      current := { snap with generation := s.generation + 1 }, generation := s.generation + 1 }
  | .dropInstance name =>
    some { s with shared :=
      { s.shared with instances := update s.shared.instances name none } }
  | .addInstance name =>
    match s.shared.instances name with
    | some _ => none
    | none => some { s with shared := { s.shared with
        instances := update s.shared.instances name (some s.shared.nextInst)
        nextInst := s.shared.nextInst + 1 } }

/-- What a step can be: the cases of `step`, with what each needs and does. -/
inductive Step (w : Wiring) (s : State) : Act → State → Prop
  | start {q : Ingress} {t : Transaction} (hq : q.transaction w = some t) : Step w s (.start q)
      { s.setThread s.nextTid (Thread.start t s.current) with nextTid := s.nextTid + 1 }
  | enter {t : Tid} {th : Thread} (late : Bool) (ht : s.threads t = some th) (hp : th.pos = .top) :
      Step w s (.enter t late) (s.setThread t (th.enter w late))
  | op {t : Tid} {th : Thread} {env : Env} {phase : Phase} {late : Bool} {before : Transaction}
      {o : Op} {k : o.Resp → StageProg (Transaction × StageOutcome)} {r : o.Resp} {shared : Shared}
      (ht : s.threads t = some th) (hp : th.pos = .running phase late before (.op o k))
      (hs : o.sem env s.shared = some (r, shared)) :
      Step w s (.op t env)
        { s.setThread t { th with pos := .running phase late before (k r) } with
          shared := shared, hist := s.hist.next t o r }
  | ret {t : Tid} {th : Thread} {phase : Phase} {late : Bool} {before after : Transaction}
      {out : StageOutcome} (ht : s.threads t = some th)
      (hp : th.pos = .running phase late before (.ret (after, out))) :
      Step w s (.ret t) (s.setThread t (th.leave phase late before after out))
  | resumeIo {t : Tid} {th : Thread} (c : WaitCompletion) (ht : s.threads t = some th)
      (hp : th.pos = .suspended) (hr : w.runtime = .splitIo) :
      Step w s (.resumeIo t c)
        (s.setThread t (th.resume (applyWaitCompletion th.txn c) s.current))
  | resumeLookup {t : Tid} {th : Thread} (ht : s.threads t = some th) (hp : th.pos = .suspended)
      (hr : w.runtime = .splitIo) (hq : th.txn.id ∈ s.shared.queue) :
      Step w s (.resumeLookup t)
        { s.setThread t (th.resume th.txn s.current) with
          shared := { s.shared with queue := s.shared.queue.erase th.txn.id } }
  | install (snap : RuntimeSnapshot) : Step w s (.install snap)
      { s with
        current := { snap with generation := s.generation + 1 }, generation := s.generation + 1 }
  | dropInstance (name : String) : Step w s (.dropInstance name)
      { s with shared :=
        { s.shared with instances := update s.shared.instances name none } }
  | addInstance {name : String} (h : s.shared.instances name = none) :
      Step w s (.addInstance name)
        { s with shared := { s.shared with
            instances := update s.shared.instances name (some s.shared.nextInst)
            nextInst := s.shared.nextInst + 1 } }

theorem step_cases {w : Wiring} {s s' : State} {a : Act} (h : step w s a = some s') :
    Step w s a s' := by
  cases a with
  | start q =>
    obtain ⟨t, hq, h⟩ := Option.map_eq_some_iff.mp h
    cases h; exact .start hq
  | enter t late =>
    simp only [step] at h
    split at h
    · split at h
      · cases h; exact .enter late ‹_› ‹_›
      · cases h
    · cases h
  | op t env =>
    simp only [step] at h
    split at h
    · split at h
      · obtain ⟨⟨r, shared⟩, hs, h⟩ := Option.map_eq_some_iff.mp h
        cases h; exact .op ‹_› ‹_› hs
      · cases h
    · cases h
  | ret t =>
    simp only [step] at h
    split at h
    · split at h
      · cases h; exact .ret ‹_› ‹_›
      · cases h
    · cases h
  | resumeIo t c =>
    simp only [step] at h
    split at h
    · split at h
      · cases h; exact .resumeIo c ‹_› ‹_› ‹_›
      · cases h
    · cases h
  | resumeLookup t =>
    simp only [step] at h
    split at h
    · split at h
      · split at h
        · cases h; exact .resumeLookup ‹_› ‹_› ‹_› ‹_›
        · cases h
      · cases h
    · cases h
  | install snap => cases h; exact .install snap
  | dropInstance name => cases h; exact .dropInstance name
  | addInstance name =>
    simp only [step] at h
    split at h
    · cases h
    · cases h; exact .addInstance ‹_›

/-- The process at the start of the runtime: any snapshot, any cache instances, no flights. -/
def initState (w : Wiring) (snap : RuntimeSnapshot) (instances : String → Option InstId)
    (nextInst : InstId) : State where
  shared :=
    { instances := instances, nextInst := nextInst
      asyncCoalesce := w.runtime == .splitIo, wakeHandler := w.runtime == .splitIo }
  current := snap
  generation := snap.generation

abbrev machine (w : Wiring) : Lts where
  St := State
  Act := Act
  init s := ∃ snap instances nextInst, s = initState w snap instances nextInst
  step := step w

/-! ## A sample process -/

/-- A process for concrete runs: all queries have the key `[1]`. -/
def sampleWiring (runtime : Runtime) : Wiring where
  runtime := runtime
  fns :=
    { codec := .header, buildQueryKey := fun _ => some [1]
      buildTruncatedUdpKey := fun _ => none, ancestorKeys := fun _ => []
      entryFromWire := fun _ _ => true, isNxDomain := fun _ => false }

/-- One pool, and one lookup profile with a cache instance in front of the forward provider. -/
def sampleSnapshot : RuntimeSnapshot where
  config := { pools := [{ name := "default" }] }
  profiles := fun _ => some ⟨"default", [.cache "c", .forward]⟩
  cacheProviderConfigured := true

def sampleInit (runtime : Runtime) (snap : RuntimeSnapshot) : State :=
  initState (sampleWiring runtime) snap (fun _ => some 0) 1

theorem sampleInit_init (runtime : Runtime) (snap : RuntimeSnapshot) :
    (machine (sampleWiring runtime)).init (sampleInit runtime snap) :=
  ⟨snap, fun _ => some 0, 1, rfl⟩

def sampleQuery (id : Nat) : Ingress where
  id := id
  queryWire := [0, 7, 0, 0]
  protocol := .udp

def sampleBackend : SelectedBackend := ⟨"default", "192.0.2.1:53", "b"⟩

/-- The actions that take `t` through parse and request rules into lookup. -/
def toLookup (t : Tid) : List Act :=
  [.enter t false, .ret t, .enter t false, .op t {}, .ret t, .enter t false]

/-- The next `n` operations of `t`, answered by the default environment: an empty cache. -/
def ops (t : Tid) (n : Nat) : List Act := List.replicate n (.op t {})

end Conduit
