import Conduit.Lib.Lts
import Conduit.Events.Extra

/-!
# The event hub

The fan-out of events to the sink runtimes (`conduit-events/src/hub.rs`, `queue.rs`). The runtimes
are started at boot and keep running; the compiled sinks come with the snapshot of the transaction
(`event_emit.rs`), and the hub pairs the two by position.

Workers enqueue concurrently, so a step is one operation on one queue: `FanOut` is a worker in the
loop of `try_enqueue_kind`, `FanOut.turn` its next operation.

- `SinkQueue`, `SinkRuntime`, `EventHub`: the queues and their owners.
- `EventSystem`, `eventSystem`: the hub, the snapshots and the workers, over configuration swaps.
- `eventLog`: the system with a history of what was put in the queues.
- `Enqueued.Own`: an event was accepted by the sink that the runtime was started for.
- `KeepsPositions`: the swaps keep every sink's position, and the sinks that are in use.
- `sink_identity`: then every event is the sink's own, and the installed snapshot has the sink.
-/

namespace Conduit

structure ExportEvent where
  kind : EventKind
  txnId : Nat
  clientAddr : String
  protocolUdp : Bool
  wire : List UInt8
  attemptCount : Nat
  extra : Option String
  deriving DecidableEq, Repr

/-! ## Queues -/

structure SinkQueue where
  capacity : Nat
  policy : DropPolicy
  events : List ExportEvent := []

/-- `try_send`: `none` if the queue is full. -/
def SinkQueue.trySend (q : SinkQueue) (event : ExportEvent) : Option SinkQueue :=
  if q.events.length < q.capacity then some { q with events := q.events ++ [event] } else none

/-- `try_recv`, without the event. -/
def SinkQueue.pop (q : SinkQueue) : SinkQueue := { q with events := q.events.tail }

structure SinkMetrics where
  enqueued : EventKind → Nat := fun _ => 0
  queueDropped : Nat := 0

def SinkMetrics.recordEnqueued (m : SinkMetrics) (kind : EventKind) : SinkMetrics :=
  { m with enqueued := fun k => if k = kind then m.enqueued k + 1 else m.enqueued k }

def SinkMetrics.recordQueueDropped (m : SinkMetrics) : SinkMetrics :=
  { m with queueDropped := m.queueDropped + 1 }

/-- A runtime, with the name of the sink that it was started for. -/
structure SinkRuntime where
  name : String
  metrics : SinkMetrics := {}
  queue : SinkQueue

structure EventHub where
  enabled : Bool
  drops : Nat := 0
  sinks : List SinkRuntime

namespace EventHub

def disabled : EventHub where
  enabled := false
  sinks := []

def fromCompiled (compiled : CompiledEvents) : EventHub :=
  if compiled.enabled then
    { enabled := true
      sinks := compiled.sinks.map fun sink =>
        { name := sink.name, queue := ⟨compiled.queueDepth, compiled.dropPolicy, []⟩ } }
  else disabled

/-- The sinks that the runtimes were started for. -/
def names (hub : EventHub) : List String := hub.sinks.map (·.name)

end EventHub

/-! ## The fan-out of an event -/

/-- A worker in the loop of `try_enqueue_kind`, before the runtime `idx`. -/
structure FanOut where
  compiled : CompiledEvents
  view : TxnView
  tagHas : String → Bool
  kind : EventKind
  wire : List UInt8
  idx : Nat := 0
  /-- The event to send once more, after the oldest one made place for it. -/
  evicted : Option ExportEvent := none

namespace FanOut

def event (f : FanOut) (sink : CompiledSinkInstance) : ExportEvent where
  kind := f.kind
  txnId := f.view.txnId
  clientAddr := f.view.clientAddr
  protocolUdp := f.view.protocolUdp
  wire := f.wire
  attemptCount := f.view.attemptCount
  extra := buildExtraJson sink f.view.extra

/-- The emit flags and the filters of a sink accept the event. -/
def accepts (f : FanOut) (sink : CompiledSinkInstance) : Bool :=
  emitAllowed sink f.kind && sinkEventMatches sink.filters f.kind f.view f.tagHas

/-- The event for the runtime `idx`, built from the sink at its position. -/
def offer (f : FanOut) : Option ExportEvent :=
  match f.compiled.sinks[f.idx]? with
  | none => none
  | some sink => if f.accepts sink then some (f.event sink) else none

/-- The loop goes on to the next runtime. -/
def next (f : FanOut) : FanOut := { f with idx := f.idx + 1, evicted := none }

/-- What an operation leaves, the drops it counts and the event it put in the queue. -/
structure Turn where
  fan : FanOut
  runtime : SinkRuntime
  drops : Nat := 0
  sent : Option ExportEvent := none

/-- The event is counted as dropped, or as having dropped another. -/
def Turn.dropped (f : FanOut) (rt : SinkRuntime) (sent : Option ExportEvent) : Turn where
  fan := f.next
  runtime := { rt with metrics := rt.metrics.recordQueueDropped }
  drops := 1
  sent := sent

/-- The next operation on the queue of the runtime `idx`. -/
def turn (f : FanOut) (rt : SinkRuntime) : Turn :=
  match f.evicted with
  | some event =>
    -- another worker may have taken the place, and then the event is lost
    match rt.queue.trySend event with
    | some q => .dropped f { rt with queue := q } (some event)
    | none => .dropped f rt none
  | none =>
    match f.offer with
    | none => { fan := f.next, runtime := rt }
    | some event =>
      match rt.queue.trySend event with
      | some q =>
        { fan := f.next
          runtime := { rt with queue := q, metrics := rt.metrics.recordEnqueued f.kind }
          sent := some event }
      | none =>
        match rt.queue.policy with
        | .dropNewest => .dropped f rt none
        | .dropOldest =>
          { fan := { f with evicted := some event }
            runtime := { rt with queue := rt.queue.pop } }

end FanOut

namespace EventHub

def tryEnqueueQuery (hub : EventHub) (view : TxnView) (compiled : CompiledEvents)
    (tagHas : String → Bool) : Option FanOut :=
  if !hub.enabled || view.qname.isNone || view.queryWire.isEmpty then none
  else some { compiled, view, tagHas, kind := .query, wire := view.queryWire }

def tryEnqueueResponse (hub : EventHub) (view : TxnView) (compiled : CompiledEvents)
    (tagHas : String → Bool) : Option FanOut :=
  match view.responseWire with
  | none => none
  | some wire =>
    if !hub.enabled || wire.isEmpty then none
    else some { compiled, view, tagHas, kind := .response, wire }

def tryEnqueueRetry (hub : EventHub) (view : TxnView) (compiled : CompiledEvents)
    (tagHas : String → Bool) : Option FanOut :=
  if !hub.enabled || view.attemptCount ≤ 1 then none
  else some { compiled, view, tagHas, kind := .retry, wire := view.queryWire }

/-- The worker that starts the fan-out, if there is one. -/
def tryEnqueue (hub : EventHub) (kind : EventKind) (view : TxnView) (compiled : CompiledEvents)
    (tagHas : String → Bool) : Option FanOut :=
  match kind with
  | .query => hub.tryEnqueueQuery view compiled tagHas
  | .response => hub.tryEnqueueResponse view compiled tagHas
  | .retry => hub.tryEnqueueRetry view compiled tagHas

end EventHub

/-! ## The system -/

structure EventSystem where
  hub : EventHub
  /-- The compiled sinks of the installed snapshot. -/
  live : CompiledEvents
  /-- The compiled sinks of the snapshots that transactions hold. -/
  held : List CompiledEvents := []
  fans : List FanOut := []

inductive EventAct where
  | swap (new : CompiledEvents)
  /-- A transaction takes the installed snapshot. -/
  | load
  /-- A transaction ends. -/
  | finish (t : Nat)
  | emit (t : Nat) (kind : EventKind) (view : TxnView) (tagHas : String → Bool)
  /-- The next operation of the worker `i`. -/
  | visit (i : Nat)
  /-- The runtime `idx` takes an event from its queue. -/
  | receive (idx : Nat)

namespace EventSystem

def boot (c : CompiledEvents) : EventSystem where
  hub := .fromCompiled c
  live := c

/-- The worker `i`, the runtime it is at and its next operation there. -/
def turnOf (s : EventSystem) (i : Nat) : Option (FanOut × SinkRuntime) :=
  s.fans[i]?.bind fun f => s.hub.sinks[f.idx]?.map fun rt => (f, rt)

/-- The state after the operation `t` of the worker `i` on the runtime `idx`. -/
def after (s : EventSystem) (i idx : Nat) (t : FanOut.Turn) : EventSystem :=
  { s with
    hub :=
      { s.hub with
        drops := s.hub.drops + t.drops
        sinks := s.hub.sinks.set idx t.runtime }
    fans := s.fans.set i t.fan }

def step (s : EventSystem) : EventAct → Option EventSystem
  | .swap new => some { s with live := new }
  | .load => some { s with held := s.held ++ [s.live] }
  | .finish t => some { s with held := s.held.eraseIdx t }
  | .emit t kind view tagHas => s.held[t]?.map fun compiled =>
    { s with fans := s.fans ++ (s.hub.tryEnqueue kind view compiled tagHas).toList }
  | .visit i => (s.turnOf i).map fun (f, rt) => s.after i f.idx (f.turn rt)
  | .receive idx => s.hub.sinks[idx]?.map fun rt =>
    { s with
      hub := { s.hub with sinks := s.hub.sinks.set idx { rt with queue := rt.queue.pop } } }

end EventSystem

abbrev eventSystem : Lts where
  St := EventSystem
  Act := EventAct
  init s := ∃ c, s = .boot c
  step := EventSystem.step

/-- An event put in the queue of the runtime started for the sink `name`, with the sinks of the
snapshot that is installed at that time. -/
structure Enqueued where
  name : String
  fan : FanOut
  event : ExportEvent
  live : CompiledEvents

/-- The event that a step puts in a queue. -/
def EventSystem.enqueued (s : EventSystem) : EventAct → Option Enqueued
  | .visit i => (s.turnOf i).bind fun (f, rt) => (f.turn rt).sent.map fun e =>
    ⟨rt.name, f, e, s.live⟩
  | .swap _ | .load | .finish _ | .emit _ _ _ _ | .receive _ => none

/-- The system with a history of what was put in the queues. -/
abbrev eventLog : Lts :=
  eventSystem.record ([] : List Enqueued) fun s a log => log ++ (s.enqueued a).toList

/-- The sink of the runtime's name, in the snapshot of the event, accepted the event, which has its
extra fields. In particular the snapshot has a sink of that name. -/
def Enqueued.Own (r : Enqueued) : Prop :=
  ∃ sink, r.fan.compiled.sinkByName r.name = some sink ∧ r.fan.accepts sink ∧
    r.event = r.fan.event sink

/-- The events in the queues are those that were put there. -/
def EventSystem.QueuesLogged (s : EventSystem) (log : List Enqueued) : Prop :=
  ∀ rt ∈ s.hub.sinks, ∀ e ∈ rt.queue.events, ∃ r ∈ log, r.name = rt.name ∧ r.event = e

/-- At the position of every runtime the snapshot has its sink, or none. -/
def CompiledEvents.Aligned (names : List String) (c : CompiledEvents) : Prop :=
  ∀ p ∈ names.zip c.sinks, p.2.name = p.1

instance (names : List String) (c : CompiledEvents) : Decidable (c.Aligned names) :=
  inferInstanceAs (Decidable (∀ p ∈ _, _))

/-- The snapshots that are in use: those of the transactions, and those of the workers that are not
through with their events. -/
def EventSystem.inUse (s : EventSystem) : List CompiledEvents :=
  s.held ++ (s.fans.filter (·.idx < s.hub.sinks.length)).map (·.compiled)

/-- Of the sinks that have runtimes, the snapshot has those of the other one. -/
def CompiledEvents.Covers (names : List String) (c c' : CompiledEvents) : Prop :=
  ∀ name ∈ names, (c'.sinkByName name).isSome = true → (c.sinkByName name).isSome = true

instance (names : List String) (c c' : CompiledEvents) : Decidable (c.Covers names c') :=
  inferInstanceAs (Decidable (∀ name ∈ _, _))

/-- The swaps leave every sink at the position of its runtime, or drop it from the end when no
snapshot in use has it. -/
def KeepsPositions (x : eventLog.St) : EventAct → Prop
  | .swap new => new.Aligned x.1.hub.names ∧ ∀ c ∈ x.1.inUse, new.Covers x.1.hub.names c
  | .load | .finish _ | .emit _ _ _ _ | .visit _ | .receive _ => True

instance (x : eventLog.St) : (a : EventAct) → Decidable (KeepsPositions x a)
  | .swap _ => inferInstanceAs (Decidable (CompiledEvents.Aligned _ _ ∧ ∀ c ∈ _, _))
  | .load | .finish _ | .emit _ _ _ _ | .visit _ | .receive _ => .isTrue trivial

/-! ## One operation -/

/-- The event sent once more is the one that the sink at the position accepted. -/
def FanOut.Ready (f : FanOut) : Prop := ∀ e, f.evicted = some e → f.offer = some e

variable {e : ExportEvent}

theorem SinkQueue.trySend_events {q q' : SinkQueue} (h : q.trySend e = some q') :
    q'.events = q.events ++ [e] := by
  unfold trySend at h
  split at h
  · cases h
    rfl
  · cases h

/-- What an operation can do. -/
structure FanOut.Did (f : FanOut) (rt : SinkRuntime) (t : Turn) : Prop where
  name : t.runtime.name = rt.name
  compiled : t.fan.compiled = f.compiled
  idx : f.idx ≤ t.fan.idx
  ready : t.fan.Ready
  sent : ∀ e, t.sent = some e → f.offer = some e
  queue : ∀ e ∈ t.runtime.queue.events, e ∈ rt.queue.events ∨ t.sent = some e

theorem FanOut.ready_next (f : FanOut) : f.next.Ready := nofun

theorem FanOut.did_dropped (f : FanOut) (rt : SinkRuntime) : f.Did rt (.dropped f rt none) where
  name := rfl
  compiled := rfl
  idx := Nat.le_succ _
  ready := f.ready_next
  sent _ h := by cases h
  queue _ he := .inl he

variable {f : FanOut}

theorem FanOut.did_turn (hf : f.Ready) (rt : SinkRuntime) : f.Did rt (f.turn rt) := by
  -- what a successful send adds to the queue is what it sent
  have hput : ∀ {q e}, rt.queue.trySend e = some q →
      ∀ e' ∈ q.events, e' ∈ rt.queue.events ∨ some e = some e' := by
    intro q e hq e' he'
    rw [SinkQueue.trySend_events hq] at he'
    rcases List.mem_append.mp he' with h | h
    · exact .inl h
    · exact .inr (by rw [List.mem_singleton.mp h])
  unfold turn
  split
  · rename_i event hevicted
    split
    · rename_i q hq
      refine ⟨rfl, rfl, Nat.le_succ _, f.ready_next, fun e he => ?_, hput hq⟩
      cases he
      exact hf event hevicted
    · exact f.did_dropped rt
  · split
    · exact ⟨rfl, rfl, Nat.le_succ _, f.ready_next, nofun, fun _ he => .inl he⟩
    · rename_i event hoffer
      split
      · rename_i q hq
        refine ⟨rfl, rfl, Nat.le_succ _, f.ready_next, fun e he => ?_, hput hq⟩
        cases he
        exact hoffer
      · split
        · exact f.did_dropped rt
        · refine ⟨rfl, rfl, Nat.le_refl _, ?_, nofun, fun e he => ?_⟩
          · intro e he
            cases he
            exact hoffer
          · exact .inl (List.mem_of_mem_tail he)

/-- What is offered to a runtime is its sink's own, in a snapshot that has the sink in place. -/
theorem FanOut.own_offer {names : List String} {name : String} (h : f.compiled.Aligned names)
    (hname : names[f.idx]? = some name) (he : f.offer = some e) (live : CompiledEvents) :
    Enqueued.Own ⟨name, f, e, live⟩ := by
  unfold offer at he
  split at he
  · cases he
  · rename_i sink hsink
    split at he
    · rename_i haccepts
      cases he
      have hpair : (name, sink) ∈ names.zip f.compiled.sinks :=
        List.mem_of_getElem? (i := f.idx) (by simp [List.getElem?_zip_eq_some, hname, hsink])
      have hown : sink.name = name := h _ hpair
      refine ⟨sink, ?_, haccepts, rfl⟩
      rw [← hown]
      exact CompiledEvents.sinkByName_of_mem (List.mem_of_getElem? hsink)
    · cases he

/-! ## Runs -/

/-- The invariant: every snapshot in use has the sinks in place, the installed one has the sinks of
all of them, and what was put is accounted. -/
structure EventSystem.Inv (s : EventSystem) (log : List Enqueued) : Prop where
  live : s.live.Aligned s.hub.names
  held : ∀ c ∈ s.held, c.Aligned s.hub.names
  fans : ∀ f ∈ s.fans, f.compiled.Aligned s.hub.names ∧ f.Ready
  covers : ∀ c ∈ s.inUse, s.live.Covers s.hub.names c
  queues : s.QueuesLogged log
  own : ∀ r ∈ log, r.Own ∧ (r.live.sinkByName r.name).isSome = true

namespace EventSystem

theorem mem_inUse {s : EventSystem} {c : CompiledEvents} : c ∈ s.inUse ↔
    c ∈ s.held ∨ ∃ f ∈ s.fans, f.idx < s.hub.sinks.length ∧ f.compiled = c := by
  simp [inUse, and_assoc]

theorem aligned_fromCompiled (c : CompiledEvents) : c.Aligned (EventHub.fromCompiled c).names := by
  intro p hp
  unfold EventHub.fromCompiled at hp
  split at hp
  · simp only [EventHub.names, List.map_map, List.zip_map_left, List.mem_map] at hp
    obtain ⟨⟨a, b⟩, hmem, rfl⟩ := hp
    have hab : a = b := by
      obtain ⟨i, hi⟩ := List.getElem?_of_mem hmem
      obtain ⟨ha, hb⟩ := List.getElem?_zip_eq_some.mp hi
      exact Option.some.inj (ha.symm.trans hb)
    rw [hab]
    rfl
  · simp [EventHub.names, EventHub.disabled] at hp

theorem inv_boot (c : CompiledEvents) : (boot c).Inv [] where
  live := aligned_fromCompiled c
  held _ h := by cases h
  fans _ h := by cases h
  covers _ h := by cases h
  queues rt hrt e he := by
    unfold boot EventHub.fromCompiled at hrt
    split at hrt
    · obtain ⟨sink, -, rfl⟩ := List.mem_map.mp hrt
      cases he
    · cases hrt
  own _ h := by cases h

variable {idx : Nat} {rt' rt : SinkRuntime}

theorem names_set {sinks : List SinkRuntime} (h : sinks[idx]? = some rt)
    (hname : rt'.name = rt.name) :
    (sinks.set idx rt').map (·.name) = sinks.map (·.name) := by
  rw [List.map_set, hname]
  refine List.ext_getElem? fun j => ?_
  rw [List.getElem?_set]
  split
  · rename_i hj
    subst hj
    split
    · rw [List.getElem?_map, h, Option.map_some]
    · rename_i hlt
      rw [List.getElem?_eq_none (by omega)]
  · rfl

variable {s : EventSystem} {log : List Enqueued}

theorem QueuesLogged.set {log' : List Enqueued} (h : s.QueuesLogged log)
    (hlog : ∀ r ∈ log, r ∈ log') (hrt : s.hub.sinks[idx]? = some rt) (hname : rt'.name = rt.name)
    (hnew : ∀ e ∈ rt'.queue.events, e ∈ rt.queue.events ∨
      ∃ r ∈ log', r.name = rt.name ∧ r.event = e) :
    ∀ q ∈ s.hub.sinks.set idx rt', ∀ e ∈ q.queue.events,
      ∃ r ∈ log', r.name = q.name ∧ r.event = e := by
  have hold : ∀ q ∈ s.hub.sinks, ∀ e ∈ q.queue.events,
      ∃ r ∈ log', r.name = q.name ∧ r.event = e := by
    intro q hq e he
    obtain ⟨r, hr, hre⟩ := h q hq e he
    exact ⟨r, hlog r hr, hre⟩
  intro q hq e he
  rcases List.mem_or_eq_of_mem_set hq with hq | rfl
  · exact hold q hq e he
  · rw [hname]
    rcases hnew e he with he | he
    · exact hold rt (List.mem_of_getElem? hrt) e he
    · exact he

variable {f : FanOut}

theorem tryEnqueue_starts {hub : EventHub} {kind : EventKind} {view : TxnView}
    {compiled : CompiledEvents} {tagHas : String → Bool}
    (h : hub.tryEnqueue kind view compiled tagHas = some f) :
    f.compiled = compiled ∧ f.evicted = none := by
  cases kind with
  | query =>
    simp only [EventHub.tryEnqueue, EventHub.tryEnqueueQuery] at h
    split at h
    · cases h
    · cases h
      exact ⟨rfl, rfl⟩
  | response =>
    simp only [EventHub.tryEnqueue, EventHub.tryEnqueueResponse] at h
    split at h
    · cases h
    · split at h
      · cases h
      · cases h
        exact ⟨rfl, rfl⟩
  | retry =>
    simp only [EventHub.tryEnqueue, EventHub.tryEnqueueRetry] at h
    split at h
    · cases h
    · cases h
      exact ⟨rfl, rfl⟩

theorem Inv.emit (h : s.Inv log) {c : CompiledEvents} (hc : c ∈ s.held) (kind : EventKind)
    (view : TxnView) (tagHas : String → Bool) :
    Inv { s with fans := s.fans ++ (s.hub.tryEnqueue kind view c tagHas).toList } log := by
  refine { h with fans := fun f hf => ?_, covers := fun c' hc' => ?_ }
  · rcases List.mem_append.mp hf with hf | hf
    · exact h.fans f hf
    · obtain ⟨hcompiled, hevicted⟩ := tryEnqueue_starts (Option.mem_toList.mp hf)
      refine ⟨hcompiled ▸ h.held c hc, fun e he => ?_⟩
      rw [hevicted] at he
      cases he
  · -- the snapshot of a new worker is one that its transaction holds
    refine h.covers c' (mem_inUse.mpr ?_)
    rcases mem_inUse.mp hc' with hc' | ⟨f, hf, hidx, rfl⟩
    · exact .inl hc'
    · rcases List.mem_append.mp hf with hf | hf
      · exact .inr ⟨f, hf, hidx, rfl⟩
      · exact .inl ((tryEnqueue_starts (Option.mem_toList.mp hf)).1 ▸ hc)

theorem Inv.visit (h : s.Inv log) {i : Nat} (hf : s.fans[i]? = some f)
    (hrt : s.hub.sinks[f.idx]? = some rt) :
    (s.after i f.idx (f.turn rt)).Inv
      (log ++ ((f.turn rt).sent.map fun e => (⟨rt.name, f, e, s.live⟩ : Enqueued)).toList) := by
  obtain ⟨haligned, hready⟩ := h.fans f (List.mem_of_getElem? hf)
  have hdid := f.did_turn hready rt
  have hnames : (s.after i f.idx (f.turn rt)).hub.names = s.hub.names := names_set hrt hdid.name
  have hlen : f.idx < s.hub.sinks.length := (List.getElem?_eq_some_iff.mp hrt).1
  refine ⟨hnames ▸ h.live, hnames ▸ h.held, ?_, ?_, ?_, ?_⟩
  · intro g hg
    rw [hnames]
    rcases List.mem_or_eq_of_mem_set hg with hg | rfl
    · exact h.fans g hg
    · exact ⟨hdid.compiled ▸ haligned, hdid.ready⟩
  · intro c hc
    rw [hnames]
    refine h.covers c (mem_inUse.mpr ?_)
    rcases mem_inUse.mp hc with hc | ⟨g, hg, hidx, rfl⟩
    · exact .inl hc
    · have hidx : g.idx < s.hub.sinks.length := by simpa [after] using hidx
      rcases List.mem_or_eq_of_mem_set hg with hg | rfl
      · exact .inr ⟨g, hg, hidx, rfl⟩
      · exact .inr ⟨f, List.mem_of_getElem? hf, hlen, hdid.compiled.symm⟩
  · refine QueuesLogged.set h.queues (fun r hr => List.mem_append_left _ hr) hrt hdid.name ?_
    intro e he
    rcases hdid.queue e he with he | he
    · exact .inl he
    · exact .inr ⟨⟨rt.name, f, e, s.live⟩, by simp [he], rfl, rfl⟩
  · intro r hr
    rcases List.mem_append.mp hr with hr | hr
    · exact h.own r hr
    · obtain ⟨e, he, rfl⟩ := Option.map_eq_some_iff.mp (Option.mem_toList.mp hr)
      have hname : s.hub.names[f.idx]? = some rt.name := by
        rw [EventHub.names, List.getElem?_map, hrt, Option.map_some]
      have hown := FanOut.own_offer haligned hname (hdid.sent e he) s.live
      refine ⟨hown, h.covers f.compiled (mem_inUse.mpr (.inr ⟨f, List.mem_of_getElem? hf, hlen, rfl⟩))
        rt.name (List.mem_of_getElem? hname) ?_⟩
      obtain ⟨sink, hsink, -⟩ := hown
      exact Option.isSome_of_eq_some hsink

theorem Inv.receive (h : s.Inv log) (hrt : s.hub.sinks[idx]? = some rt) :
    Inv
      { s with
        hub := { s.hub with sinks := s.hub.sinks.set idx { rt with queue := rt.queue.pop } } }
      log := by
  have hnames : (s.hub.sinks.set idx { rt with queue := rt.queue.pop }).map (·.name) =
      s.hub.names := names_set hrt rfl
  refine ⟨?_, ?_, ?_, ?_, ?_, h.own⟩
  · simpa only [EventHub.names, hnames] using h.live
  · simpa only [EventHub.names, hnames] using h.held
  · simpa only [EventHub.names, hnames] using h.fans
  · simpa only [EventHub.names, hnames, inUse, List.length_set] using h.covers
  · exact QueuesLogged.set h.queues (fun r hr => hr) hrt rfl
      fun e he => .inl (List.mem_of_mem_tail he)

theorem Inv.step {s' : EventSystem} (h : s.Inv log) {a : EventAct} (hc : KeepsPositions (s, log) a)
    (he : s.step a = some s') :
    s'.Inv (log ++ (s.enqueued a).toList) := by
  cases a with
  | swap new =>
    cases he
    rw [enqueued, Option.toList_none, List.append_nil]
    exact { h with live := hc.1, covers := hc.2 }
  | load =>
    cases he
    rw [enqueued, Option.toList_none, List.append_nil]
    refine { h with held := fun c hc => ?_, covers := fun c hc => ?_ }
    · rcases List.mem_append.mp hc with hc | hc
      · exact h.held c hc
      · rw [List.mem_singleton.mp hc]
        exact h.live
    · rcases mem_inUse.mp hc with hc | hc
      · rcases List.mem_append.mp hc with hc | hc
        · exact h.covers c (mem_inUse.mpr (.inl hc))
        · rw [List.mem_singleton.mp hc]
          exact fun _ _ h => h
      · exact h.covers c (mem_inUse.mpr (.inr hc))
  | finish t =>
    cases he
    rw [enqueued, Option.toList_none, List.append_nil]
    have hheld : ∀ c ∈ s.held.eraseIdx t, c ∈ s.held := fun c hc => List.mem_of_mem_eraseIdx hc
    refine { h with held := fun c hc => h.held c (hheld c hc), covers := fun c hc => ?_ }
    exact h.covers c (mem_inUse.mpr ((mem_inUse.mp hc).imp_left (hheld c)))
  | emit t kind view tagHas =>
    obtain ⟨c, hheld, rfl⟩ := Option.map_eq_some_iff.mp he
    rw [enqueued, Option.toList_none, List.append_nil]
    exact h.emit (List.mem_of_getElem? hheld) kind view tagHas
  | visit i =>
    obtain ⟨⟨f, rt⟩, hturn, rfl⟩ := Option.map_eq_some_iff.mp he
    obtain ⟨f', hf, hmap⟩ := Option.bind_eq_some_iff.mp hturn
    obtain ⟨rt', hrt, heq⟩ := Option.map_eq_some_iff.mp hmap
    cases heq
    simp only [enqueued, hturn, Option.bind_some]
    exact h.visit hf hrt
  | receive idx =>
    obtain ⟨rt, hrt, rfl⟩ := Option.map_eq_some_iff.mp he
    rw [enqueued, Option.toList_none, List.append_nil]
    exact h.receive hrt

end EventSystem

/-- In every run whose swaps keep every sink at the position of its runtime, and the sinks that are
in use, every event put in a queue is the sink's own, the installed snapshot has a sink of that name,
and the queues have no other events. -/
theorem sink_identity {x : eventLog.St} (h : eventLog.Reach KeepsPositions x) :
    x.1.QueuesLogged x.2 ∧ ∀ r ∈ x.2, r.Own ∧ (r.live.sinkByName r.name).isSome = true := by
  have hinv : EventSystem.Inv x.1 x.2 := by
    refine Lts.Reach.inv (P := fun x : eventLog.St => EventSystem.Inv x.1 x.2) ?_ ?_ h
    · rintro ⟨s, log⟩ ⟨⟨c, rfl⟩, rfl⟩
      exact EventSystem.inv_boot c
    · rintro ⟨s, log⟩ a x' _ hi hc he
      obtain ⟨s', hs, rfl⟩ := Option.map_eq_some_iff.mp he
      exact hi.step hc hs
  exact ⟨hinv.queues, hinv.own⟩

/-- Two sinks; only `b` exports the queries. -/
def bootSinks : CompiledEvents where
  sinks := [{ name := "a", emitQuery := false }, { name := "b" }]
  distinct := by decide

/-- The operator takes `a` out, which leaves `b` at the position of `a`. -/
def sinksWithoutA : CompiledEvents where
  sinks := [{ name := "b" }]
  distinct := by decide

def exportedQuery : TxnView := { txnId := 7, qname := some "example.", queryWire := [0] }

def sinksWithoutB : CompiledEvents where
  sinks := [{ name := "a", emitQuery := false }]
  distinct := by decide

/-- After the sink `a` is taken out, its runtime gets the events of `b`. If `b` is taken out while a
transaction holds the snapshot that has it, `b` gets an event when no such sink is installed. -/
theorem sink_events_misrouted :
    (∃ x : eventLog.St, eventLog.Reach Lts.Any x ∧
      ∃ r ∈ x.2, r.name = "a" ∧ r.fan.compiled.sinkByName "a" = none ∧ ¬ r.Own) ∧
    ∃ x : eventLog.St, eventLog.Reach Lts.Any x ∧
      ∃ r ∈ x.2, r.name = "b" ∧ r.live.sinkByName "b" = none := by
  constructor
  · obtain ⟨x, hr, hx⟩ := Lts.exists_exec (L := eventLog) Lts.Any
      [.swap sinksWithoutA, .load, .emit 0 .query exportedQuery (fun _ => false), .visit 0]
      (fun x => ∃ r ∈ x.2, r.name = "a" ∧ (r.fan.compiled.sinkByName "a").isNone = true)
      (s := (.boot bootSinks, [])) ⟨⟨_, rfl⟩, rfl⟩ (by decide +kernel)
    obtain ⟨r, hmem, hname, hnone⟩ := hx
    rw [Option.isNone_iff_eq_none] at hnone
    refine ⟨x, hr, r, hmem, hname, hnone, ?_⟩
    rintro ⟨sink, hsink, -⟩
    rw [hname, hnone] at hsink
    cases hsink
  · obtain ⟨x, hr, r, hmem, hname, hnone⟩ := Lts.exists_exec (L := eventLog) Lts.Any
      [.load, .swap sinksWithoutB, .emit 0 .query exportedQuery (fun _ => false), .visit 0, .visit 0]
      (fun x => ∃ r ∈ x.2, r.name = "b" ∧ (r.live.sinkByName "b").isNone = true)
      (s := (.boot bootSinks, [])) ⟨⟨_, rfl⟩, rfl⟩ (by decide +kernel)
    exact ⟨x, hr, r, hmem, hname, Option.isNone_iff_eq_none.mp hnone⟩

/-- The sink `b` gets a filter and an extra field. -/
def sinksRedefined : CompiledEvents where
  sinks :=
    [{ name := "a", emitQuery := false },
      { name := "b", extraFields := [.txnId], filters := { tagRequired := some "vip" } }]
  distinct := by decide

/-- The sink `b` is redefined, and dropped when no transaction needs it. -/
theorem sink_identity_sample : ∃ x : eventLog.St, eventLog.Reach KeepsPositions x ∧
    x.2.map (fun r => (r.name, r.event.txnId)) = [("b", 7)] ∧
    x.1.QueuesLogged x.2 ∧ ∀ r ∈ x.2, r.Own ∧ (r.live.sinkByName r.name).isSome = true := by
  obtain ⟨x, hr, hx⟩ := Lts.exists_exec (L := eventLog) KeepsPositions
    (s := (.boot bootSinks, []))
    [.swap sinksRedefined, .load, .emit 0 .query exportedQuery (fun _ => true), .visit 0, .visit 0,
      .finish 0, .swap sinksWithoutB]
    (fun x => x.2.map (fun r => (r.name, r.event.txnId)) = [("b", 7)]) ⟨⟨_, rfl⟩, rfl⟩
    (by decide +kernel)
  exact ⟨x, hr, hx, sink_identity hr⟩

end Conduit
