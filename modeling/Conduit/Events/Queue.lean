import Conduit.Events.Hub

/-!
# The accounting of dropped events

The queue of a sink between the calls of `try_enqueue` and the consumer
(`conduit-events/src/queue.rs`). With `drop_oldest`, a call that finds the queue full takes one
event out and sends its own once more; other calls and the consumer may use the queue in between.
The call is counted as one dropped event, whether it lost none, one or two.

A channel of capacity 0 has no buffer: an event is handed over if the consumer waits for one.

- `sinkQueue`: the calls and the consumer at one queue.
- `Evictions`, `sinkQueueLog`: a history of what the calls found when they evicted and sent again.
- `dropAccounting_iff`: when the calls, the events and the drops add up.
-/

namespace Conduit

inductive EnqueueCall where
  | sending (event : ExportEvent)
  /-- The queue was full: one event has to go. -/
  | evicting (event : ExportEvent)
  /-- The event is sent once more. -/
  | resending (event : ExportEvent)
  | returned (dropped : Bool)
  deriving DecidableEq

def EnqueueCall.isReturned : EnqueueCall → Bool
  | .returned _ => true
  | _ => false

structure QueueState where
  queue : SinkQueue
  /-- The consumer waits at a channel without a buffer. -/
  waiting : Bool := false
  calls : List EnqueueCall := []
  /-- History: what the consumer received. -/
  received : List ExportEvent := []

inductive QueueAct where
  | call (event : ExportEvent)
  /-- The next operation of the call `i`. -/
  | run (i : Nat)
  | receive
  /-- The consumer starts or stops waiting. -/
  | wait (waits : Bool)

namespace QueueState

/-- `try_send`; `none`: full. -/
def trySend (s : QueueState) (event : ExportEvent) : Option QueueState :=
  if s.queue.capacity = 0 then
    if s.waiting then some { s with waiting := false, received := s.received ++ [event] } else none
  else (s.queue.trySend event).map fun q => { s with queue := q }

/-- The next operation of a call: the queue, the consumer and the call after it. -/
def turn (s : QueueState) : EnqueueCall → Option (QueueState × EnqueueCall)
  | .sending event =>
    match s.trySend event with
    | some s => some (s, .returned false)
    | none =>
      match s.queue.policy with
      | .dropNewest => some (s, .returned true)
      | .dropOldest => some (s, .evicting event)
  | .evicting event => some ({ s with queue := s.queue.pop }, .resending event)
  | .resending event => some ((s.trySend event).getD s, .returned true)
  | .returned _ => none

def step (s : QueueState) : QueueAct → Option QueueState
  | .call event => some { s with calls := s.calls ++ [.sending event] }
  | .run i =>
    (s.calls[i]?.bind s.turn).map fun (s', c) => { s' with calls := s.calls.set i c }
  | .receive =>
    match s.queue.events with
    | [] => none
    | event :: _ => some { s with queue := s.queue.pop, received := s.received ++ [event] }
  | .wait waits => some { s with waiting := waits }

end QueueState

abbrev sinkQueue (capacity : Nat) (policy : DropPolicy) : Lts where
  St := QueueState
  Act := QueueAct
  init s := s = { queue := { capacity, policy } }
  step := QueueState.step

/-! ## What the calls find -/

/-- The evictions that found an event in the queue, and the second sends that found room in it. -/
structure Evictions where
  taken : Nat := 0
  placed : Nat := 0
  deriving DecidableEq

def Evictions.next (n : Evictions) (s : QueueState) : EnqueueCall → Evictions
  | .evicting _ => { n with taken := n.taken + (!s.queue.events.isEmpty).toNat }
  | .resending event => { n with placed := n.placed + (s.trySend event).isSome.toNat }
  | .sending _ | .returned _ => n

/-- The queue with a history of what its calls found. -/
abbrev sinkQueueLog (capacity : Nat) (policy : DropPolicy) : Lts :=
  (sinkQueue capacity policy).record ({} : Evictions) fun s a n =>
    match a with
    | .run i => s.calls[i]?.elim n (n.next s)
    | .call _ | .receive | .wait _ => n

/-! ## The ledger -/

/-- Every event that was put in the queue, by a first or a second send, was received, is still there
or was taken out by an eviction. -/
def QueueLedger (s : QueueState) (n : Evictions) : Prop :=
  s.received.length + s.queue.events.length + n.taken =
    s.calls.count (.returned false) + n.placed

namespace QueueLedger

variable {s s' : QueueState} {n : Evictions}

theorem trySend_total {event : ExportEvent} (h : s.trySend event = some s') :
    s'.received.length + s'.queue.events.length =
      s.received.length + s.queue.events.length + 1 := by
  unfold QueueState.trySend at h
  split at h
  · split at h <;> cases h
    simp only [List.length_append, List.length_singleton]
    omega
  · obtain ⟨q, hq, rfl⟩ := Option.map_eq_some_iff.mp h
    rw [SinkQueue.trySend_events hq]
    simp only [List.length_append, List.length_singleton]
    omega

/-- The calls that returned false, after an operation of the call `i`. -/
theorem count_set {calls : List EnqueueCall} {i : Nat} {c : EnqueueCall} (h : calls[i]? = some c)
    (hc : c ≠ .returned false) (c' : EnqueueCall) :
    (calls.set i c').count (.returned false) =
      calls.count (.returned false) + if c' = .returned false then 1 else 0 := by
  obtain ⟨hi, hget⟩ := List.getElem?_eq_some_iff.mp h
  rw [List.count_set hi, hget, beq_eq_false_iff_ne.mpr hc]
  simp

/-- An operation of a call moves events between the queue, the consumer and the call. -/
theorem turn {c c' : EnqueueCall} (h : s.turn c = some (s', c')) :
    c ≠ .returned false ∧
      s'.received.length + s'.queue.events.length + (n.next s c).taken + n.placed =
        s.received.length + s.queue.events.length + n.taken + (n.next s c).placed +
          if c' = .returned false then 1 else 0 := by
  cases c with
  | sending event =>
    refine ⟨nofun, ?_⟩
    simp only [QueueState.turn] at h
    split at h
    next hsend =>
      cases h
      have := trySend_total hsend
      simp only [Evictions.next, if_true]
      omega
    next =>
      split at h <;> cases h <;> simp only [Evictions.next, reduceCtorEq, if_false,
        EnqueueCall.returned.injEq, Bool.true_eq_false] <;> omega
  | evicting event =>
    cases h
    refine ⟨nofun, ?_⟩
    simp only [SinkQueue.pop, Evictions.next, reduceCtorEq, if_false]
    cases s.queue.events with
    | nil => simp
    | cons e es =>
      simp only [List.tail_cons, List.length_cons, List.isEmpty_cons, Bool.not_false, Bool.toNat_true]
      omega
  | resending event =>
    cases h
    refine ⟨nofun, ?_⟩
    simp only [Evictions.next, EnqueueCall.returned.injEq, Bool.true_eq_false, if_false]
    cases hsend : s.trySend event with
    | none => simp
    | some s₁ =>
      have := trySend_total hsend
      simp only [Option.getD_some, Option.isSome_some, Bool.toNat_true]
      omega
  | returned dropped => cases h

end QueueLedger

variable {capacity : Nat} {policy : DropPolicy}

theorem queueLedger_of_reach {x : (sinkQueueLog capacity policy).St}
    (h : (sinkQueueLog capacity policy).Reach Lts.Any x) : QueueLedger x.1 x.2 := by
  refine Lts.Reach.inv (L := sinkQueueLog capacity policy)
    (P := fun x : (sinkQueueLog capacity policy).St => QueueLedger x.1 x.2) ?_ ?_ h
  · rintro ⟨s, n⟩ ⟨rfl, rfl⟩
    rfl
  · rintro ⟨s, n⟩ a x' _ hl - he
    obtain ⟨s', hs, rfl⟩ := Option.map_eq_some_iff.mp he
    unfold QueueLedger at hl ⊢
    dsimp only at hl hs ⊢
    cases a with
    | call event =>
      cases hs
      rw [List.count_append, List.count_singleton]
      exact hl
    | run i =>
      obtain ⟨⟨s₁, c'⟩, hturn, rfl⟩ := Option.map_eq_some_iff.mp hs
      obtain ⟨c, hc, hturn⟩ := Option.bind_eq_some_iff.mp hturn
      obtain ⟨hne, hmoved⟩ := QueueLedger.turn (n := n) hturn
      have hcount := QueueLedger.count_set hc hne c'
      simp only [hc, Option.elim_some]
      omega
    | receive =>
      simp only [QueueState.step] at hs
      split at hs <;> cases hs
      next e es hq =>
        simp only [SinkQueue.pop, hq, List.tail_cons, List.length_append, List.length_cons,
          List.length_nil] at hl ⊢
        omega
    | wait waits =>
      cases hs
      exact hl

/-- All calls have returned: with true or with false. -/
theorem length_of_returned {calls : List EnqueueCall} (hr : ∀ c ∈ calls, c.isReturned = true) :
    calls.length = calls.count (.returned false) + calls.count (.returned true) := by
  induction calls with
  | nil => rfl
  | cons c calls ih =>
    obtain ⟨hr, hrs⟩ := List.forall_mem_cons.mp hr
    have hone : 1 = (if c == .returned false then 1 else 0) +
        if c == .returned true then 1 else 0 := by
      match c, hr with
      | .returned false, _ | .returned true, _ => rfl
    have := ih hrs
    simp only [List.length_cons, List.count_cons]
    omega

/-- **Drop accounting.** When all calls have returned, their number is that of the events received,
the events in the queue and the calls that returned true, exactly if as many evictions found an event
as second sends found room. -/
theorem dropAccounting_iff {x : (sinkQueueLog capacity policy).St}
    (h : (sinkQueueLog capacity policy).Reach Lts.Any x)
    (hr : ∀ c ∈ x.1.calls, c.isReturned = true) :
    x.1.calls.length =
        x.1.received.length + x.1.queue.events.length + x.1.calls.count (.returned true) ↔
      x.2.taken = x.2.placed := by
  have hledger : _ = _ := queueLedger_of_reach h
  have hlen := length_of_returned hr
  omega

def sampleEvent (id : Nat) : ExportEvent := ⟨.query, id, "192.0.2.1", true, [], 1, none⟩

/-- The second event takes the place of the first one. -/
theorem dropAccounting_iff_one : ∃ x, (sinkQueueLog 1 .dropOldest).Reach Lts.Any x ∧
    x.1.calls.length =
      x.1.received.length + x.1.queue.events.length + x.1.calls.count (.returned true) := by
  obtain ⟨x, hr, hcalls, hn⟩ := Lts.exists_exec (L := sinkQueueLog 1 .dropOldest) Lts.Any
    [.call (sampleEvent 1), .run 0, .call (sampleEvent 2), .run 1, .run 1, .run 1]
    (fun x => x.1.calls = [.returned false, .returned true] ∧ x.2 = ⟨1, 1⟩)
    (s := (_, {})) ⟨rfl, rfl⟩ (by decide)
  exact ⟨x, hr, (dropAccounting_iff hr (by rw [hcalls]; decide)).mpr (by rw [hn])⟩

/-- Another call takes the place of the event that was evicted: three calls, one event in the queue,
and one counted as dropped. -/
theorem dropAccounting_broken : ∃ x, (sinkQueueLog 1 .dropOldest).Reach Lts.Any x ∧
    x.1.calls = [.returned false, .returned true, .returned false] ∧
    x.1.received.length + x.1.queue.events.length + x.1.calls.count (.returned true) = 2 :=
  Lts.exists_exec (L := sinkQueueLog 1 .dropOldest) Lts.Any
    [.call (sampleEvent 1), .run 0, .call (sampleEvent 2), .run 1, .run 1,
      .call (sampleEvent 3), .run 2, .run 1]
    (fun x => x.1.calls = [.returned false, .returned true, .returned false] ∧
      x.1.received.length + x.1.queue.events.length + x.1.calls.count (.returned true) = 2)
    (s := (_, {})) ⟨rfl, rfl⟩ (by decide)

end Conduit
