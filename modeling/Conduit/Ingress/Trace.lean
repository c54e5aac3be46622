import Conduit.Ingress.Ids

/-!
# Traces by transaction id

The store of pipeline traces (`conduit-metrics/src/trace.rs`): a queue of the traces of finished
transactions, keyed by the text of the transaction's id and searched from the oldest entry. The ids
are those that the workers give (`Conduit/Ingress/Ids.lean`), so two transactions of one process may
share one.

`get` also drops the expired entries. The next `insert` or `get` drops them anyway, so a lookup is
not an action of the system.

- `TraceStore.insert`, `get`.
- `traceWorld`: the workers with the trace store; a transaction that ends inserts its trace.
- `trace_found`: a trace that no older one under the same id hides is found.
-/

namespace Conduit

structure StoredTrace where
  events : List TraceEvent
  insertedAt : Nat
  deriving DecidableEq, Repr

/-- Both limits are positive constants (1000 entries, 300 s). -/
structure TraceStore where
  maxEntries : Nat
  ttl : Nat
  entries : List (String × StoredTrace) := []
  maxEntries_pos : 0 < maxEntries
  ttl_pos : 0 < ttl

namespace TraceStore

variable (s : TraceStore)

/-- The entries that have not expired. -/
def live (now : Nat) : List (String × StoredTrace) :=
  s.entries.filter fun e => now - e.2.insertedAt < s.ttl

/-- The loop of `pop_front`. -/
def popWhileFull (maxEntries : Nat) : List (String × StoredTrace) → List (String × StoredTrace)
  | [] => []
  | e :: q => if (e :: q).length ≥ maxEntries then popWhileFull maxEntries q else e :: q

/-- What an insert keeps of the earlier traces. -/
def kept (now : Nat) : List (String × StoredTrace) := popWhileFull s.maxEntries (s.live now)

def insert (now txnId : Nat) (events : List TraceEvent) : TraceStore :=
  if events.isEmpty then s
  else { s with entries := s.kept now ++ [(toString txnId, ⟨events, now⟩)] }

/-- The store without the expired entries, and the trace. -/
def get (now : Nat) (txnId : String) : TraceStore × Option (List TraceEvent) :=
  let s := { s with entries := s.live now }
  (s, (s.entries.find? (·.1 == txnId)).map (·.2.events))

/-- An insert is found if nothing that it keeps has its key. -/
theorem get_insert {now txnId : Nat} {events : List TraceEvent} (hne : events ≠ [])
    (hfree : ∀ e ∈ s.kept now, e.1 ≠ toString txnId) :
    ((s.insert now txnId events).get now (toString txnId)).2 = some events := by
  have hempty : events.isEmpty = false := by simpa using hne
  have hold : ((s.kept now).filter fun e => now - e.2.insertedAt < s.ttl).find?
      (·.1 == toString txnId) = none := by
    refine List.find?_eq_none.mpr fun e he => ?_
    simpa using hfree e (List.mem_filter.mp he).1
  simp only [insert, hempty, get, live]
  rw [if_neg Bool.false_ne_true, List.filter_append, List.find?_append, hold,
    List.filter_cons_of_pos (by simpa using s.ttl_pos), Option.none_or, List.filter_nil,
    List.find?_cons_of_pos (by simp), Option.map_some]

end TraceStore

/-! ## The system -/

/-- The store, and what the last step has inserted. -/
structure TraceHistory where
  store : TraceStore
  last : Option (Nat × List TraceEvent) := none

/-- A transaction that ends inserts its trace (`finalize_trace`). -/
def traceAfter (s : IngressWorld) (a : IngressAct) (h : TraceHistory) : TraceHistory :=
  match a with
  | .finish k events =>
    match s.active[k]? with
    | some t =>
      { store := h.store.insert s.now t.id events
        last := if events.isEmpty then none else some (t.id, events) }
    | none => { h with last := none }
  | _ => { h with last := none }

/-- The workers and the trace store. -/
abbrev traceWorld (start : TraceStore) : Lts := ingressWorld.record ⟨start, none⟩ traceAfter

/-- No trace that the insert keeps has the id of the transaction that ends. -/
def Unshadowed (x : IngressWorld × TraceHistory) : IngressAct → Prop
  | .finish k _ => ∀ t ∈ x.1.active[k]?, ∀ e ∈ x.2.store.kept x.1.now, e.1 ≠ toString t.id
  | _ => True

instance (x : IngressWorld × TraceHistory) : ∀ a, Decidable (Unshadowed x a)
  | .finish k _ => inferInstanceAs
      (Decidable (∀ t ∈ x.1.active[k]?, ∀ e ∈ x.2.store.kept x.1.now, e.1 ≠ toString t.id))
  | .reject _ | .query _ | .tick _ => .isTrue trivial

/-- Right after a transaction has ended, its trace is found under its id. -/
def TraceFound (x : IngressWorld × TraceHistory) : Prop :=
  ∀ id events, x.2.last = some (id, events) →
    (x.2.store.get x.1.now (toString id)).2 = some events

theorem traceFound_step {start : TraceStore} {x x' : (traceWorld start).St} {a : IngressAct}
    (hc : Unshadowed x a) (he : (traceWorld start).step x a = some x') : TraceFound x' := by
  obtain ⟨s, hs, rfl⟩ := Option.map_eq_some_iff.mp he
  intro id events hlast
  cases a with
  | finish k new =>
    simp only [IngressWorld.step] at hs
    cases ht : x.1.active[k]? with
    | none => simp [ht] at hs
    | some t =>
      simp only [ht, Option.some.injEq] at hs
      simp only [traceAfter, ht] at hlast ⊢
      split at hlast
      · cases hlast
      · rename_i hne
        cases hlast
        rw [← hs]
        exact x.2.store.get_insert (by simpa using hne) (hc t ht)
  | reject | query | tick => cases hlast

def defaultTraces : TraceStore := ⟨1000, 300, [], by decide, by decide⟩

def sampleTrace (elapsedUs : Nat) : List TraceEvent := [⟨"send", elapsedUs, none, none, none, none⟩]

end Conduit
