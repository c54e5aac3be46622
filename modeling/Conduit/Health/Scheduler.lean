import Conduit.Lib.Tickets
import Conduit.Core.Wire
import Conduit.Health.Probe
import Conduit.Health.Recovery

/-!
# Probes, one by one

The schedule of the probes (`conduit-dataplane/src/probe/scheduler.rs`) and the loop that drives it
(`run.rs`): which probe a reply, a worker's result, a failed send and a timeout count for.

The clock may read anything whenever it is read. Times are in nanoseconds. Probes have a number of
their own here, and every result has the number of the probe that it comes from; both are history.
State objects are as in `Conduit/Health/Probe.lean`; other threads may write to them at any time.

A UDP reply is matched by its message id, but the error of a TCP worker only by its backend. A
worker may end after its probe has timed out, and then its error counts for the next probe
(`stray_failure`).

- `ProbeScheduler.dueProbes`, `onReply`, `onFailure`, `expireTimeouts`: the schedule.
- `ProbeLoop`, `probeLoop`: the loop, its workers and their channel.
- `Counted`: every probe counts once, and only for itself.
- `NoStray`: results of other probes are not taken for the outstanding one.
- `ProbeLoop.Ends`: an action answers the outstanding probe, or times it out.
- `probes_counted`: then all runs are counted, and a probe that is ended has been recorded once.
-/

namespace Conduit.Scheduler

open Function (update update_eq_self update_of_ne update_self)

/-! ## Probes -/

/-- The message codec, and the equality of names, which ignores case. -/
structure ProbeWiring where
  codec : Codec
  sameName : String → String → Bool

structure ProbeSpec where
  name : String
  qtype : Nat
  /-- `none`: any response code is acceptable. -/
  acceptableRcodes : Option (List Nat) := none

inductive ProbeOutcome where
  | success | failure | unmatched
  deriving DecidableEq, Repr

namespace ProbeSpec

variable (w : ProbeWiring) (spec : ProbeSpec)

def buildQuery (qid : UInt16) : Option Wire :=
  emitMessage w.codec
    { id := qid.toNat, queries := [{ name := spec.name, qtype := spec.qtype, qclass := 1 }] }

def classifyResponse (qid : UInt16) (wire : Wire) : ProbeOutcome :=
  match w.codec.fromVec wire with
  | none => .unmatched
  | some m =>
    if m.id ≠ qid.toNat then .unmatched
    else match m.queries with
      | [] => .unmatched
      | query :: _ =>
        if query.qtype ≠ spec.qtype || !w.sameName query.name spec.name then .unmatched
        else match spec.acceptableRcodes with
          | none => .success
          | some allowed => if m.responseCode ∈ allowed then .success else .failure

end ProbeSpec

/-- `SplitMix64::next_u64`: the number, and the next state. -/
def nextU64 (state : UInt64) : UInt64 × UInt64 :=
  let state := state + 0x9E3779B97F4A7C15
  let z := state
  let z := (z ^^^ (z >>> 30)) * 0xBF58476D1CE4E5B9
  let z := (z ^^^ (z >>> 27)) * 0x94D049BB133111EB
  (z ^^^ (z >>> 31), state)

def nanosPerMilli : Nat := 10 ^ 6

def jitterPercent : Nat := 20

/-- The jitter for an interval, and the next state of the generator. -/
def jitter (rng : UInt64) (interval : Nat) : Nat × UInt64 :=
  let maxMs := interval / nanosPerMilli * jitterPercent / 100
  if maxMs = 0 then (0, rng)
  else ((nextU64 rng).1.toNat % (maxMs + 1) * nanosPerMilli, (nextU64 rng).2)

/-! ## The schedule -/

structure Outstanding where
  qid : UInt16
  sentAt : Nat
  deadline : Nat
  /-- The number of the probe. -/
  serial : Nat
  deriving DecidableEq, Repr

structure BackendProbe where
  state : ObjId
  spec : ProbeSpec
  interval : Nat
  timeout : Nat
  rise : UInt32 := 3
  fall : UInt32 := 2
  /-- The transport binding of the backend. -/
  useTcp : Bool := false
  nextDue : Nat := 0
  outstanding : Option Outstanding := none

structure IssuedProbe where
  serial : Nat
  backendIdx : Nat
  sentAt : Nat
  deriving DecidableEq, Repr

/-- What was recorded as the outcome of a probe. -/
structure ProbeRecord where
  serial : Nat
  backendIdx : Nat
  state : ObjId
  /-- The probe that the result comes from; `none`: it is not an answer to a probe. -/
  cause : Option Nat
  rise : UInt32
  outcome : HealthOutcome

/-- A write to a state object: the outcome of a probe, or one of another thread. -/
inductive HealthWrite where
  | probe (r : ProbeRecord)
  | other (id : ObjId) (f : BackendHealthState → BackendHealthState)

def HealthWrite.target : HealthWrite → ObjId
  | .probe r => r.state
  | .other id _ => id

def HealthWrite.apply : HealthWrite → BackendHealthState → BackendHealthState
  | .probe r, s => s.record r.rise r.outcome
  | .other _ f, s => f s

structure ProbeScheduler where
  rng : UInt64
  backends : List BackendProbe
  objs : ObjId → BackendHealthState
  serial : Nat := 0
  /-- The probes so far, the newest first. -/
  issued : List IssuedProbe := []
  /-- The writes so far, the newest first. -/
  log : List HealthWrite := []

/-- A probe that the loop should send now. -/
structure DueProbe where
  backendIdx : Nat
  qid : UInt16
  wire : Wire
  serial : Nat
  deriving DecidableEq, Repr

/-- The round trip in milliseconds. -/
def rttMs (nanos : Nat) : Float :=
  (Float.ofNat (nanos / 10 ^ 9) + Float.ofNat (nanos % 10 ^ 9) / 1000000000) * 1000

namespace ProbeScheduler

/-- The backends with one of them changed. -/
def setBackend (s : ProbeScheduler) (idx : Nat) (b : BackendProbe) : ProbeScheduler :=
  { s with backends := s.backends.set idx b }

def write (s : ProbeScheduler) (u : HealthWrite) : ProbeScheduler :=
  { s with
    objs := update s.objs u.target (u.apply (s.objs u.target))
    log := u :: s.log }

/-- The outstanding probe of a backend is over, with this outcome. -/
def settle (s : ProbeScheduler) (idx : Nat) (b : BackendProbe) (o : Outstanding)
    (cause : Option Nat) (outcome : HealthOutcome) : ProbeScheduler :=
  (s.write (.probe ⟨o.serial, idx, b.state, cause, b.rise, outcome⟩)).setBackend idx
    { b with outstanding := none }

/-- One turn of the loop of `due_probes`. -/
def issue (w : ProbeWiring) (now : Nat) (s : ProbeScheduler) (idx : Nat) :
    ProbeScheduler × Option DueProbe :=
  match s.backends[idx]? with
  | none => (s, none)
  | some b =>
    if b.outstanding.isSome || b.nextDue > now then (s, none)
    else
      let drawn := nextU64 s.rng
      let qid := drawn.1.toUInt16
      let jit := jitter drawn.2 b.interval
      let s := { s with rng := jit.2 }
      match b.spec.buildQuery w qid with
      | none => (s.setBackend idx { b with nextDue := now + b.interval }, none)
      | some wire =>
        let o : Outstanding := ⟨qid, now, now + b.timeout, s.serial⟩
        ({ s.setBackend idx
            { b with outstanding := some o, nextDue := now + b.interval + jit.1 } with
           serial := s.serial + 1
           issued := ⟨s.serial, idx, now⟩ :: s.issued },
          some ⟨idx, qid, wire, s.serial⟩)

def dueProbes (w : ProbeWiring) (now : Nat) (s : ProbeScheduler) : ProbeScheduler × List DueProbe :=
  (List.range s.backends.length).foldl
    (fun r idx => ((r.1.issue w now idx).1, r.2 ++ (r.1.issue w now idx).2.toList)) (s, [])

/-- `on_reply`, with the probe that the reply comes from. -/
def onReply (w : ProbeWiring) (now : Nat) (s : ProbeScheduler) (idx : Nat) (wire : Wire)
    (cause : Option Nat) : ProbeScheduler × Option ProbeOutcome :=
  match s.backends[idx]? with
  | none => (s, none)
  | some b =>
    match b.outstanding with
    | none => (s, none)
    | some o =>
      match b.spec.classifyResponse w o.qid wire with
      | .success =>
        (s.settle idx b o cause (.probeSuccess latencyEwmaAlpha (rttMs (now - o.sentAt))),
          some .success)
      | .failure => (s.settle idx b o cause (.probeFailure b.fall), some .failure)
      | .unmatched => (s, some .unmatched)

/-- `on_failure`, with the probe that the failure comes from. -/
def onFailure (s : ProbeScheduler) (idx : Nat) (cause : Option Nat) : ProbeScheduler × Bool :=
  match s.backends[idx]? with
  | none => (s, false)
  | some b =>
    match b.outstanding with
    | none => (s, false)
    | some o => (s.settle idx b o cause (.probeFailure b.fall), true)

/-- One turn of the loop of `expire_timeouts`. -/
def expire (now : Nat) (s : ProbeScheduler) (idx : Nat) : ProbeScheduler × Option Nat :=
  match s.backends[idx]? with
  | none => (s, none)
  | some b =>
    match b.outstanding with
    | none => (s, none)
    | some o =>
      if o.deadline ≤ now then
        (s.settle idx b o (some o.serial) (.probeFailure b.fall), some idx)
      else (s, none)

def expireTimeouts (now : Nat) (s : ProbeScheduler) : ProbeScheduler × List Nat :=
  (List.range s.backends.length).foldl
    (fun r idx => ((r.1.expire now idx).1, r.2 ++ (r.1.expire now idx).2.toList)) (s, [])

end ProbeScheduler

/-! ## The loop -/

/-- The parts of a turn of `run_loop`. -/
inductive LoopPhase where
  | issuing
  | sending (due : List DueProbe)
  | draining
  | expiring
  | reading
  deriving DecidableEq, Repr

/-- A thread with a TCP probe. -/
structure TcpWorker where
  backendIdx : Nat
  serial : Nat
  deriving DecidableEq, Repr

structure TcpOutcome where
  backendIdx : Nat
  /-- `none`: connect, timeout or another error. -/
  wire : Option Wire
  serial : Nat
  deriving DecidableEq, Repr

structure ProbeLoop where
  scheduler : ProbeScheduler
  phase : LoopPhase := .issuing
  workers : List TcpWorker := []
  channel : List TcpOutcome := []

inductive LoopAct where
  | due (now : Nat)
  /-- The next probe goes out; a datagram may fail to. -/
  | send (ok : Bool)
  | sent
  /-- A worker ends. -/
  | finish (k : Nat) (result : Option Wire)
  | recvTcp (now : Nat)
  | drained
  | expire (now : Nat)
  /-- A datagram of a backend is read: an answer to one of its probes, or not. -/
  | readUdp (idx : Nat) (wire : Wire) (cause : Option Nat) (now : Nat)
  | again
  | write (id : ObjId) (f : BackendHealthState → BackendHealthState)

namespace ProbeLoop

/-- What the loop does with the result of a worker. -/
def takeOutcome (w : ProbeWiring) (now : Nat) (s : ProbeScheduler) (out : TcpOutcome) :
    ProbeScheduler :=
  match out.wire with
  | some wire => (s.onReply w now out.backendIdx wire (some out.serial)).1
  | none => (s.onFailure out.backendIdx (some out.serial)).1

/-- A probe to a backend. -/
def Issued (l : ProbeLoop) (idx k : Nat) : Prop :=
  ∃ p ∈ l.scheduler.issued, p.serial = k ∧ p.backendIdx = idx

instance (l : ProbeLoop) (idx k : Nat) : Decidable (l.Issued idx k) :=
  inferInstanceAs (Decidable (∃ p ∈ _, _))

def step (w : ProbeWiring) (l : ProbeLoop) : LoopAct → Option ProbeLoop
  | .due now =>
    match l.phase with
    | .issuing =>
      let r := l.scheduler.dueProbes w now
      some { l with scheduler := r.1, phase := .sending r.2 }
    | _ => none
  | .send ok =>
    match l.phase with
    | .sending (d :: due) =>
      match l.scheduler.backends[d.backendIdx]? with
      | none => none
      | some b =>
        if b.useTcp then
          some { l with workers := l.workers ++ [⟨d.backendIdx, d.serial⟩], phase := .sending due }
        else if ok then some { l with phase := .sending due }
        else
          some
            { l with
              scheduler := (l.scheduler.onFailure d.backendIdx (some d.serial)).1
              phase := .sending due }
    | _ => none
  | .sent => if l.phase = .sending [] then some { l with phase := .draining } else none
  | .finish k result =>
    match l.workers[k]? with
    | none => none
    | some worker =>
      some
        { l with
          workers := l.workers.eraseIdx k
          channel := l.channel ++ [⟨worker.backendIdx, result, worker.serial⟩] }
  | .recvTcp now =>
    match l.phase, l.channel with
    | .draining, out :: channel =>
      some { l with scheduler := takeOutcome w now l.scheduler out, channel }
    | _, _ => none
  | .drained =>
    if l.phase = .draining ∧ l.channel = [] then some { l with phase := .expiring } else none
  | .expire now =>
    if l.phase = .expiring then
      some { l with scheduler := (l.scheduler.expireTimeouts now).1, phase := .reading }
    else none
  | .readUdp idx wire cause now =>
    match l.scheduler.backends[idx]? with
    | none => none
    | some b =>
      if l.phase = .reading ∧ b.useTcp = false ∧ ∀ k ∈ cause, l.Issued idx k then
        some { l with scheduler := (l.scheduler.onReply w now idx wire cause).1 }
      else none
  | .again => if l.phase = .reading then some { l with phase := .issuing } else none
  | .write id f => some { l with scheduler := l.scheduler.write (.other id f) }

end ProbeLoop

abbrev probeLoop (w : ProbeWiring) (objs : ObjId → BackendHealthState) : Lts where
  St := ProbeLoop
  Act := LoopAct
  init l := l.phase = .issuing ∧ l.workers = [] ∧ l.channel = [] ∧ l.scheduler.objs = objs ∧
    l.scheduler.issued = [] ∧ l.scheduler.log = [] ∧ ∀ b ∈ l.scheduler.backends, b.outstanding = none
  step := ProbeLoop.step w

/-! ## Counting -/

def HealthWrite.record? : HealthWrite → Option ProbeRecord
  | .probe r => some r
  | .other _ _ => none

/-- The state objects after some writes, the newest first. -/
def replay (objs : ObjId → BackendHealthState) : List HealthWrite → ObjId → BackendHealthState
  | [] => objs
  | u :: us => update (replay objs us) u.target (u.apply (replay objs us u.target))

namespace ProbeScheduler

/-- The outcomes that were recorded, the newest first. -/
def records (s : ProbeScheduler) : List ProbeRecord := s.log.filterMap HealthWrite.record?

/-- The number of the outstanding probe of a backend. -/
def held (s : ProbeScheduler) (idx : Nat) : Option Nat :=
  (s.backends[idx]?.bind (·.outstanding)).map (·.serial)

/-- The instants of the probes to a backend, the newest first. -/
def sendsTo (s : ProbeScheduler) (idx : Nat) : List Nat :=
  (s.issued.filter (·.backendIdx == idx)).map (·.sentAt)

/-- Every probe counts once, and only for itself. -/
structure Counted (objs : ObjId → BackendHealthState) (s : ProbeScheduler) : Prop where
  /-- A probe has one record once it is no longer outstanding. -/
  once : ∀ p ∈ s.issued, (s.records.map (·.serial)).count p.serial =
    if s.held p.backendIdx = some p.serial then 0 else 1
  /-- A record is for a probe to its backend, in the state object of the backend. -/
  backend : ∀ r ∈ s.records, (∃ p ∈ s.issued, p.serial = r.serial ∧ p.backendIdx = r.backendIdx) ∧
    ∃ b, s.backends[r.backendIdx]? = some b ∧ b.state = r.state
  /-- The result of a probe is recorded for no other one. -/
  own : ∀ r ∈ s.records, ∀ k ∈ r.cause, k = r.serial
  /-- A backend has at most one probe without a record. -/
  single : ∀ p ∈ s.issued, ∀ q ∈ s.issued, p.backendIdx = q.backendIdx →
    p.serial ∉ s.records.map (·.serial) → q.serial ∉ s.records.map (·.serial) → p = q
  /-- Two probes to a backend are an interval apart. -/
  spaced : ∀ idx b, s.backends[idx]? = some b →
    (s.sendsTo idx).Pairwise fun later earlier => earlier + b.interval ≤ later
  /-- The state objects are what the records and the other threads have made of them. -/
  state : s.objs = replay objs s.log

end ProbeScheduler

/-- A result that is taken while another probe of the backend is outstanding is a reply, and it does
not have the message id of that probe. -/
def NoStray (w : ProbeWiring) (l : ProbeLoop) : LoopAct → Prop
  | .recvTcp _ => ∀ out ∈ l.channel.head?, ∀ b ∈ l.scheduler.backends[out.backendIdx]?,
      ∀ o ∈ b.outstanding, out.serial ≠ o.serial → out.wire.isSome ∧
        ∀ wire ∈ out.wire, ∀ m ∈ w.codec.fromVec wire, m.id ≠ o.qid.toNat
  | .readUdp idx wire cause _ => ∀ b ∈ l.scheduler.backends[idx]?, ∀ o ∈ b.outstanding,
      ∀ k ∈ cause, k ≠ o.serial → ∀ m ∈ w.codec.fromVec wire, m.id ≠ o.qid.toNat
  | _ => True

instance (w : ProbeWiring) (l : ProbeLoop) : (a : LoopAct) → Decidable (NoStray w l a)
  | .recvTcp _ => inferInstanceAs (Decidable (∀ out ∈ _, _))
  | .readUdp _ _ _ _ => inferInstanceAs (Decidable (∀ b ∈ _, _))
  | .due _ | .send _ | .sent | .finish _ _ | .drained | .expire _ | .again | .write _ _ =>
    .isTrue trivial

/-! ## The invariant of the schedule -/

namespace ProbeScheduler

variable {s s' : ProbeScheduler} {idx : Nat} {b b' : BackendProbe}

theorem held_eq (hb : s.backends[idx]? = some b) : s.held idx = b.outstanding.map (·.serial) := by
  rw [held, hb]
  rfl

/-- Of the backends only one changes, and it keeps its state object and its interval. -/
structure Alters (s s' : ProbeScheduler) (idx : Nat) (b b' : BackendProbe) : Prop where
  before : s.backends[idx]? = some b
  after : s'.backends = s.backends.set idx b'
  state : b'.state = b.state
  interval : b'.interval = b.interval

namespace Alters

theorem getElem? (ha : Alters s s' idx b b') (j : Nat) :
    s'.backends[j]? = if j = idx then some b' else s.backends[j]? := by
  obtain ⟨hlt, -⟩ := List.getElem?_eq_some_iff.mp ha.before
  rw [ha.after, List.getElem?_set]
  by_cases hj : idx = j
  · subst hj
    simp [hlt]
  · simp [hj, Ne.symm hj]

theorem held (ha : Alters s s' idx b b') :
    s'.held = update s.held idx (b'.outstanding.map (·.serial)) := by
  funext j
  rw [ProbeScheduler.held, ha.getElem?]
  by_cases hj : j = idx
  · subst hj
    rw [if_pos rfl, update_self]
    rfl
  · rw [if_neg hj, update_of_ne hj]
    rfl

theorem state_object (ha : Alters s s' idx b b') {j : Nat} {id : ObjId}
    (h : ∃ b, s.backends[j]? = some b ∧ b.state = id) :
    ∃ b, s'.backends[j]? = some b ∧ b.state = id := by
  obtain ⟨b₀, hb₀, hstate⟩ := h
  rw [ha.getElem?]
  by_cases hj : j = idx
  · rw [hj] at hb₀
    cases ha.before.symm.trans hb₀
    exact ⟨b', by rw [if_pos hj], ha.state.trans hstate⟩
  · exact ⟨b₀, by rw [if_neg hj, hb₀], hstate⟩

end Alters

/-- The probes to a backend so far are an interval apart, and the next one will be. -/
def Spaced (s : ProbeScheduler) (idx : Nat) (b : BackendProbe) : Prop :=
  ((s.sendsTo idx).Pairwise fun later earlier => earlier + b.interval ≤ later) ∧
    ∀ t ∈ s.sendsTo idx, t + b.interval ≤ b.nextDue

/-- The invariant. -/
structure Inv (objs : ObjId → BackendHealthState) (s : ProbeScheduler) : Prop where
  tickets : Tickets.Sound (s.issued.map fun p => (p.serial, p.backendIdx))
    (s.records.map (·.serial)) s.held
  fresh : ∀ p ∈ s.issued, p.serial < s.serial
  backend : ∀ r ∈ s.records, (∃ p ∈ s.issued, p.serial = r.serial ∧ p.backendIdx = r.backendIdx) ∧
    ∃ b, s.backends[r.backendIdx]? = some b ∧ b.state = r.state
  own : ∀ r ∈ s.records, ∀ k ∈ r.cause, k = r.serial
  spaced : ∀ idx b, s.backends[idx]? = some b → s.Spaced idx b
  state : s.objs = replay objs s.log

namespace Inv

variable {objs : ObjId → BackendHealthState}

theorem counted (h : s.Inv objs) : s.Counted objs where
  once p hp := h.tickets.count_settled (List.mem_map_of_mem hp)
  backend := h.backend
  own := h.own
  single p hp q hq hidx hopen hopen' := by
    have hq' : (q.serial, p.backendIdx) ∈ s.issued.map fun p => (p.serial, p.backendIdx) :=
      hidx ▸ List.mem_map_of_mem hq
    have hserial := h.tickets.open_unique (List.mem_map_of_mem hp) hq' hopen hopen'
    have hnodup := h.tickets.drawn_nodup
    rw [List.map_map] at hnodup
    exact List.inj_on_of_nodup_map hnodup hp hq hserial
  spaced idx b hb := (h.spaced idx b hb).1
  state := h.state

theorem write_other (h : s.Inv objs) (id : ObjId) (f : BackendHealthState → BackendHealthState) :
    (s.write (.other id f)).Inv objs where
  tickets := h.tickets
  fresh := h.fresh
  backend := h.backend
  own := h.own
  spaced := h.spaced
  state := by
    rw [write, replay, h.state]

theorem spaced_of_alters (h : s.Inv objs) (ha : Alters s s' idx b b')
    (hsends : ∀ j ≠ idx, s'.sendsTo j = s.sendsTo j) (hspaced : s'.Spaced idx b') :
    ∀ j b, s'.backends[j]? = some b → s'.Spaced j b := by
  intro j b₁ hb₁
  rw [ha.getElem?] at hb₁
  split at hb₁
  next hj =>
    cases hb₁
    exact hj ▸ hspaced
  next hj =>
    rw [Spaced, hsends j hj]
    exact h.spaced j b₁ hb₁

theorem settle (h : s.Inv objs) (hb : s.backends[idx]? = some b) {o : Outstanding}
    (ho : b.outstanding = some o) {cause : Option Nat} (hown : ∀ k ∈ cause, k = o.serial)
    (outcome : HealthOutcome) : (s.settle idx b o cause outcome).Inv objs := by
  have hheld : s.held idx = some o.serial := by
    rw [held_eq hb, ho]
    rfl
  have ha : Alters s (s.settle idx b o cause outcome) idx b { b with outstanding := none } :=
    ⟨hb, rfl, rfl, rfl⟩
  refine ⟨?_, h.fresh, ?_, ?_, ?_, ?_⟩
  · rw [ha.held]
    exact h.tickets.settle hheld
  · intro r hr
    rcases List.mem_cons.mp hr with rfl | hr
    · obtain ⟨p, hp, heq⟩ := List.mem_map.mp (h.tickets.held_drawn idx _ hheld).1
      exact ⟨⟨p, hp, congrArg Prod.fst heq, congrArg Prod.snd heq⟩, ha.state_object ⟨b, hb, rfl⟩⟩
    · obtain ⟨hissued, hstate⟩ := h.backend r hr
      exact ⟨hissued, ha.state_object hstate⟩
  · intro r hr
    rcases List.mem_cons.mp hr with rfl | hr
    · exact hown
    · exact h.own r hr
  · exact h.spaced_of_alters ha (fun _ _ => rfl) (h.spaced idx b hb)
  · change update s.objs _ _ = replay objs (_ :: s.log)
    rw [replay, h.state]

variable {now : Nat}

theorem reschedule (h : s.Inv objs) (hb : s.backends[idx]? = some b) (hdue : b.nextDue ≤ now)
    (rng : UInt64) :
    ({ s with rng }.setBackend idx { b with nextDue := now + b.interval }).Inv objs := by
  have ha : Alters s ({ s with rng }.setBackend idx { b with nextDue := now + b.interval }) idx b
      { b with nextDue := now + b.interval } := ⟨hb, rfl, rfl, rfl⟩
  refine ⟨?_, h.fresh, ?_, h.own, ?_, h.state⟩
  · rw [ha.held, ← held_eq hb, update_eq_self]
    exact h.tickets
  · intro r hr
    obtain ⟨hissued, hstate⟩ := h.backend r hr
    exact ⟨hissued, ha.state_object hstate⟩
  · obtain ⟨hapart, hbefore⟩ := h.spaced idx b hb
    refine h.spaced_of_alters ha (fun _ _ => rfl) ⟨hapart, fun t ht => ?_⟩
    have hnext : t + b.interval ≤ b.nextDue := hbefore t ht
    change t + b.interval ≤ now + b.interval
    omega

/-- A probe goes out to a backend without an outstanding one, when it is due. -/
theorem send (h : s.Inv objs) (ha : Alters s s' idx b b') (ho : b.outstanding = none)
    (hdue : b.nextDue ≤ now) (hserial : b'.outstanding.map (·.serial) = some s.serial)
    (hnext : now + b.interval ≤ b'.nextDue) (hnew : s'.serial = s.serial + 1)
    (hissued : s'.issued = ⟨s.serial, idx, now⟩ :: s.issued) (hlog : s'.log = s.log)
    (hobjs : s'.objs = s.objs) : s'.Inv objs := by
  have hrecords : s'.records = s.records := congrArg (List.filterMap HealthWrite.record?) hlog
  have hheld : s.held idx = none := by
    rw [held_eq ha.before, ho]
    rfl
  have hfresh : s.serial ∉ (s.issued.map fun p => (p.serial, p.backendIdx)).map Prod.fst := by
    rw [List.map_map]
    intro hmem
    obtain ⟨p, hp, heq⟩ := List.mem_map.mp hmem
    exact absurd heq (Nat.ne_of_lt (h.fresh p hp))
  have hsends : ∀ j, s'.sendsTo j = if j = idx then now :: s.sendsTo j else s.sendsTo j := by
    intro j
    by_cases hj : j = idx
    · simp [sendsTo, hissued, hj]
    · simp [sendsTo, hissued, hj, Ne.symm hj]
  refine ⟨?_, ?_, ?_, ?_, ?_, ?_⟩
  · rw [ha.held, hserial, hissued, hrecords]
    exact h.tickets.draw hfresh hheld
  · intro p hp
    rw [hnew]
    rcases List.mem_cons.mp (hissued ▸ hp) with rfl | hp
    · exact Nat.lt_succ_self s.serial
    · exact Nat.lt_succ_of_lt (h.fresh p hp)
  · intro r hr
    obtain ⟨⟨p, hp, heq⟩, hstate⟩ := h.backend r (hrecords ▸ hr)
    exact ⟨⟨p, hissued ▸ List.mem_cons_of_mem _ hp, heq⟩, ha.state_object hstate⟩
  · rw [hrecords]
    exact h.own
  · obtain ⟨hapart, hbefore⟩ := h.spaced idx b ha.before
    refine h.spaced_of_alters ha (fun j hj => by rw [hsends, if_neg hj]) ?_
    -- all earlier probes are an interval before the instant this one was due
    have hearlier : ∀ t ∈ s.sendsTo idx, t + b.interval ≤ now := fun t ht =>
      (hbefore t ht).trans hdue
    rw [Spaced, hsends, if_pos rfl, ha.interval]
    refine ⟨List.pairwise_cons.mpr ⟨hearlier, hapart⟩, fun t ht => ?_⟩
    rcases List.mem_cons.mp ht with rfl | ht
    · exact hnext
    · have := hearlier t ht
      omega
  · rw [hobjs, hlog]
    exact h.state

end Inv

/-! ## The operations -/

theorem issue_cases (w : ProbeWiring) (now : Nat) (s : ProbeScheduler) (idx : Nat) :
    s.issue w now idx = (s, none) ∨
      ∃ b, s.backends[idx]? = some b ∧ b.outstanding = none ∧ b.nextDue ≤ now ∧
        ((∃ rng, s.issue w now idx =
          ({ s with rng }.setBackend idx { b with nextDue := now + b.interval }, none)) ∨
        ∃ rng qid jit wire, s.issue w now idx =
          ({ { s with rng }.setBackend idx
              { b with
                outstanding := some ⟨qid, now, now + b.timeout, s.serial⟩
                nextDue := now + b.interval + jit } with
             serial := s.serial + 1
             issued := ⟨s.serial, idx, now⟩ :: s.issued },
            some ⟨idx, qid, wire, s.serial⟩)) := by
  rw [issue]
  split
  next => exact .inl rfl
  next b hb =>
    split
    next => exact .inl rfl
    next hdue =>
      simp only [Bool.or_eq_true, decide_eq_true_eq, not_or, Bool.not_eq_true,
        Option.isSome_eq_false_iff, Option.isNone_iff_eq_none, Nat.not_lt] at hdue
      refine .inr ⟨b, hb, hdue.1, hdue.2, ?_⟩
      dsimp only
      split
      next => exact .inl ⟨_, rfl⟩
      next wire _ => exact .inr ⟨_, _, _, wire, rfl⟩

/-- The probes that are still to be sent: they are outstanding, each at its own backend. -/
structure Sending (s : ProbeScheduler) (due : List DueProbe) : Prop where
  nodup : (due.map (·.backendIdx)).Nodup
  held : ∀ d ∈ due, s.held d.backendIdx = some d.serial

variable {due : List DueProbe}

theorem Sending.of_held (h : s.Sending due) (hheld : s'.held = s.held) :
    s'.Sending due := ⟨h.nodup, hheld ▸ h.held⟩

variable {objs : ObjId → BackendHealthState}

variable {now : Nat} {w : ProbeWiring}

theorem issue_step (hi : s.Inv objs) (hs : s.Sending due) (idx : Nat) :
    (s.issue w now idx).1.Inv objs ∧
      (s.issue w now idx).1.Sending (due ++ (s.issue w now idx).2.toList) := by
  obtain heq | ⟨b, hb, ho, hdue, ⟨rng, heq⟩ | ⟨rng, qid, jit, wire, heq⟩⟩ := issue_cases w now s idx
  · rw [heq, Option.toList_none, List.append_nil]
    exact ⟨hi, hs⟩
  · have ha : Alters s (s.issue w now idx).1 idx b { b with nextDue := now + b.interval } :=
      ⟨hb, by rw [heq, setBackend], rfl, rfl⟩
    have hheld : (s.issue w now idx).1.held = s.held := by
      rw [ha.held, ← held_eq hb, update_eq_self]
    rw [heq, Option.toList_none, List.append_nil]
    rw [heq] at hheld
    exact ⟨hi.reschedule hb hdue rng, hs.of_held hheld⟩
  · have ha : Alters s (s.issue w now idx).1 idx b
        { b with
          outstanding := some ⟨qid, now, now + b.timeout, s.serial⟩
          nextDue := now + b.interval + jit } :=
      ⟨hb, by rw [heq, setBackend], rfl, rfl⟩
    have hnone : s.held idx = none := by
      rw [held_eq hb, ho]
      rfl
    -- a backend with a probe still to be sent has an outstanding one
    have hnew : ∀ d ∈ due, d.backendIdx ≠ idx := by
      rintro d hd rfl
      cases hnone.symm.trans (hs.held d hd)
    constructor
    · refine hi.send ha ho hdue rfl (Nat.le_add_right ..) ?_ ?_ ?_ ?_ <;> rw [heq] <;> rfl
    · rw [heq] at ha ⊢
      constructor
      · rw [List.map_append, List.nodup_append]
        refine ⟨hs.nodup, List.nodup_singleton _, ?_⟩
        intro i hi' j hj
        obtain ⟨d, hd, rfl⟩ := List.mem_map.mp hi'
        rw [List.mem_singleton.mp hj]
        exact hnew d hd
      · intro d hd
        rw [ha.held]
        rcases List.mem_append.mp hd with hd | hd
        · rw [update_of_ne (hnew d hd)]
          exact hs.held d hd
        · rw [List.mem_singleton.mp hd, update_self]
          rfl

theorem dueProbes_step (w : ProbeWiring) (now : Nat) (hi : s.Inv objs) :
    (s.dueProbes w now).1.Inv objs ∧ (s.dueProbes w now).1.Sending (s.dueProbes w now).2 := by
  let P (r : ProbeScheduler × List DueProbe) : Prop := r.1.Inv objs ∧ r.1.Sending r.2
  refine List.foldlRecOn (motive := P) _ _ ?_ ?_
  · exact ⟨hi, List.nodup_nil, nofun⟩
  · intro r h idx _
    exact issue_step h.1 h.2 idx

theorem onFailure_cases (s : ProbeScheduler) (idx : Nat) (cause : Option Nat) :
    s.onFailure idx cause = (s, false) ∧ s.held idx = none ∨
      ∃ b o, s.backends[idx]? = some b ∧ b.outstanding = some o ∧
        s.onFailure idx cause = (s.settle idx b o cause (.probeFailure b.fall), true) := by
  rw [onFailure, held]
  split
  next hb =>
    rw [hb]
    exact .inl ⟨rfl, rfl⟩
  next b hb =>
    split
    next ho =>
      rw [hb, Option.bind_some, ho]
      exact .inl ⟨rfl, rfl⟩
    next o ho => exact .inr ⟨b, o, hb, ho, rfl⟩

theorem onReply_cases (w : ProbeWiring) (now : Nat) (s : ProbeScheduler) (idx : Nat) (wire : Wire)
    (cause : Option Nat) :
    (s.onReply w now idx wire cause).1 = s ∧ (∀ b ∈ s.backends[idx]?, ∀ o ∈ b.outstanding,
        b.spec.classifyResponse w o.qid wire = .unmatched) ∨
      ∃ b o outcome, s.backends[idx]? = some b ∧ b.outstanding = some o ∧
        b.spec.classifyResponse w o.qid wire ≠ .unmatched ∧
        (s.onReply w now idx wire cause).1 = s.settle idx b o cause outcome := by
  rw [onReply]
  split
  next hb => exact .inl ⟨rfl, by simp [hb]⟩
  next b hb =>
    split
    next ho => exact .inl ⟨rfl, by simp [hb, ho]⟩
    next o ho =>
      split
      next hc => exact .inr ⟨b, o, _, hb, ho, by simp [hc], rfl⟩
      next hc => exact .inr ⟨b, o, _, hb, ho, by simp [hc], rfl⟩
      next hc => exact .inl ⟨rfl, by simp [hb, ho, hc]⟩

variable {cause : Option Nat}

theorem onFailure_step (hi : s.Inv objs)
    (hown : ∀ b ∈ s.backends[idx]?, ∀ o ∈ b.outstanding, ∀ k ∈ cause, k = o.serial) :
    (s.onFailure idx cause).1.Inv objs := by
  obtain ⟨heq, -⟩ | ⟨b, o, hb, ho, heq⟩ := onFailure_cases s idx cause
  · rw [heq]
    exact hi
  · rw [heq]
    exact hi.settle hb ho (hown b hb o ho) _

variable {wire : Wire}

theorem onReply_step (hi : s.Inv objs)
    (hown : ∀ b ∈ s.backends[idx]?, ∀ o ∈ b.outstanding,
      b.spec.classifyResponse w o.qid wire ≠ .unmatched → ∀ k ∈ cause, k = o.serial) :
    (s.onReply w now idx wire cause).1.Inv objs := by
  obtain ⟨heq, -⟩ | ⟨b, o, outcome, hb, ho, hmatch, heq⟩ := onReply_cases w now s idx wire cause
  · rw [heq]
    exact hi
  · rw [heq]
    exact hi.settle hb ho (hown b hb o ho hmatch) outcome

theorem expire_cases (now : Nat) (s : ProbeScheduler) (idx : Nat) :
    s.expire now idx = (s, none) ∧
        (∀ b ∈ s.backends[idx]?, ∀ o ∈ b.outstanding, now < o.deadline) ∨
      ∃ b o, s.backends[idx]? = some b ∧ b.outstanding = some o ∧ o.deadline ≤ now ∧
        s.expire now idx = (s.settle idx b o (some o.serial) (.probeFailure b.fall), some idx) := by
  rw [expire]
  split
  next hb => exact .inl ⟨rfl, by simp [hb]⟩
  next b hb =>
    split
    next ho => exact .inl ⟨rfl, by simp [hb, ho]⟩
    next o ho =>
      split
      next hlate => exact .inr ⟨b, o, hb, ho, hlate, rfl⟩
      next hlate => exact .inl ⟨rfl, by simpa [hb, ho] using hlate⟩

theorem expire_step (hi : s.Inv objs) : (s.expire now idx).1.Inv objs := by
  obtain ⟨heq, -⟩ | ⟨b, o, hb, ho, -, heq⟩ := expire_cases now s idx
  · rw [heq]
    exact hi
  · rw [heq]
    exact hi.settle hb ho (fun k hk => (Option.some.inj hk).symm) _

theorem expireTimeouts_step (hi : s.Inv objs) : (s.expireTimeouts now).1.Inv objs := by
  let P (r : ProbeScheduler × List Nat) : Prop := r.1.Inv objs
  refine List.foldlRecOn (motive := P) _ _ hi ?_
  intro r h idx _
  exact expire_step h

theorem expire_keeps {k : Nat} (h : k ∈ s.records.map (·.serial)) (idx : Nat) :
    k ∈ (s.expire now idx).1.records.map (·.serial) := by
  obtain ⟨heq, -⟩ | ⟨b, o, -, -, -, heq⟩ := expire_cases now s idx
  · rwa [heq]
  · rw [heq]
    exact List.mem_cons_of_mem _ h

theorem expire_other {i : Nat} (hne : idx ≠ i) :
    (s.expire now i).1.backends[idx]? = s.backends[idx]? := by
  obtain ⟨heq, -⟩ | ⟨b, o, hb, -, -, heq⟩ := expire_cases now s i
  · rw [heq]
  · have ha : Alters s (s.expire now i).1 i b { b with outstanding := none } :=
      ⟨hb, by rw [heq, settle, setBackend, write], rfl, rfl⟩
    rw [ha.getElem?, if_neg hne]

variable {o : Outstanding}

/-- A probe that is not on time is recorded by the turn for its backend. -/
theorem expire_fold (hlate : o.deadline ≤ now) (is : List Nat) (r : ProbeScheduler × List Nat)
    (h : o.serial ∈ r.1.records.map (·.serial) ∨
      idx ∈ is ∧ ∃ b, r.1.backends[idx]? = some b ∧ b.outstanding = some o) :
    o.serial ∈ (is.foldl (fun r idx =>
      ((r.1.expire now idx).1, r.2 ++ (r.1.expire now idx).2.toList)) r).1.records.map (·.serial) := by
  induction is generalizing r with
  | nil => exact h.resolve_right fun h => nomatch h.1
  | cons i is ih =>
    refine ih _ ?_
    rcases h with hdone | ⟨hmem, b, hb, ho⟩
    · exact .inl (expire_keeps hdone i)
    · by_cases hi : idx = i
      · subst hi
        obtain ⟨-, htime⟩ | ⟨b₁, o₁, hb₁, ho₁, -, heq⟩ := expire_cases now r.1 idx
        · exact absurd (htime b hb o ho) (Nat.not_lt.mpr hlate)
        · cases hb.symm.trans hb₁
          cases ho.symm.trans ho₁
          refine .inl ?_
          dsimp only
          rw [heq]
          exact List.mem_cons_self ..
      · refine .inr ⟨(List.mem_cons.mp hmem).resolve_left hi, b, ?_, ho⟩
        rw [expire_other hi, hb]

theorem expireTimeouts_ends (hb : s.backends[idx]? = some b) (ho : b.outstanding = some o)
    (hlate : o.deadline ≤ now) :
    o.serial ∈ (s.expireTimeouts now).1.records.map (·.serial) := by
  obtain ⟨hlt, -⟩ := List.getElem?_eq_some_iff.mp hb
  exact expire_fold hlate _ _ (.inr ⟨List.mem_range.mpr hlt, b, hb, ho⟩)

theorem onFailure_ends (hb : s.backends[idx]? = some b) (ho : b.outstanding = some o)
    (cause : Option Nat) :
    o.serial ∈ (s.onFailure idx cause).1.records.map (·.serial) := by
  obtain ⟨-, hnone⟩ | ⟨b₁, o₁, hb₁, ho₁, heq⟩ := onFailure_cases s idx cause
  · rw [held_eq hb, ho] at hnone
    cases hnone
  · cases hb.symm.trans hb₁
    cases ho.symm.trans ho₁
    rw [heq]
    exact List.mem_cons_self ..

theorem onReply_ends (hb : s.backends[idx]? = some b) (ho : b.outstanding = some o)
    (hmatch : b.spec.classifyResponse w o.qid wire ≠ .unmatched) (cause : Option Nat) :
    o.serial ∈ (s.onReply w now idx wire cause).1.records.map (·.serial) := by
  obtain ⟨-, hnone⟩ | ⟨b₁, o₁, _, hb₁, ho₁, -, heq⟩ := onReply_cases w now s idx wire cause
  · exact absurd (hnone b hb o ho) hmatch
  · cases hb.symm.trans hb₁
    cases ho.symm.trans ho₁
    rw [heq]
    exact List.mem_cons_self ..

end ProbeScheduler

/-- Only a message with the id of the query counts. -/
theorem ProbeSpec.id_of_classifyResponse {w : ProbeWiring} {spec : ProbeSpec} {qid : UInt16}
    {wire : Wire} (h : spec.classifyResponse w qid wire ≠ .unmatched) :
    ∃ m, w.codec.fromVec wire = some m ∧ m.id = qid.toNat := by
  rw [classifyResponse] at h
  split at h
  next => exact absurd rfl h
  next m hm =>
    refine ⟨m, hm, ?_⟩
    by_contra hid
    rw [if_pos hid] at h
    exact h rfl

/-! ## Runs -/

namespace ProbeLoop

/-- The action answers the outstanding probe of a backend, or times it out. -/
def Ends (w : ProbeWiring) (l : ProbeLoop) (idx : Nat) (b : BackendProbe) (o : Outstanding) :
    LoopAct → Prop
  | .send ok => ∃ d due, l.phase = .sending (d :: due) ∧ d.backendIdx = idx ∧ b.useTcp = false ∧
      ok = false
  | .recvTcp _ => ∃ out ∈ l.channel.head?, out.backendIdx = idx ∧
      ∀ wire ∈ out.wire, b.spec.classifyResponse w o.qid wire ≠ .unmatched
  | .expire now => o.deadline ≤ now
  | .readUdp j wire _ _ => j = idx ∧ b.spec.classifyResponse w o.qid wire ≠ .unmatched
  | _ => False

structure Inv (objs : ObjId → BackendHealthState) (l : ProbeLoop) : Prop where
  scheduler : l.scheduler.Inv objs
  sending : ∀ due, l.phase = .sending due → l.scheduler.Sending due

variable {w : ProbeWiring} {objs : ObjId → BackendHealthState} {l l' : ProbeLoop}

variable {s : ProbeScheduler}

theorem takeOutcome_step {now : Nat} {out : TcpOutcome} (hi : s.Inv objs)
    (hstray : ∀ b ∈ s.backends[out.backendIdx]?, ∀ o ∈ b.outstanding, out.serial ≠ o.serial →
      out.wire.isSome ∧ ∀ wire ∈ out.wire, ∀ m ∈ w.codec.fromVec wire, m.id ≠ o.qid.toNat) :
    (takeOutcome w now s out).Inv objs := by
  -- a result that counts comes from the outstanding probe
  rw [takeOutcome]
  split
  next wire hwire =>
    refine ProbeScheduler.onReply_step hi fun b hb o ho hmatch k hk => ?_
    cases hk
    by_contra hne
    obtain ⟨m, hm, hid⟩ := ProbeSpec.id_of_classifyResponse hmatch
    exact (hstray b hb o ho hne).2 wire hwire m hm hid
  next hwire =>
    refine ProbeScheduler.onFailure_step hi fun b hb o ho k hk => ?_
    cases hk
    by_contra hne
    have hsome := (hstray b hb o ho hne).1
    rw [hwire] at hsome
    cases hsome

theorem sendFailed_step {d : DueProbe} {due : List DueProbe} (hi : s.Inv objs)
    (hs : s.Sending (d :: due)) :
    (s.onFailure d.backendIdx (some d.serial)).1.Inv objs ∧
      (s.onFailure d.backendIdx (some d.serial)).1.Sending due := by
  have hd : s.held d.backendIdx = some d.serial := hs.held d (List.mem_cons_self ..)
  obtain ⟨hnotin, hnodup⟩ := List.nodup_cons.mp hs.nodup
  constructor
  · refine ProbeScheduler.onFailure_step hi fun b hb o ho k hk => ?_
    cases hk
    rw [ProbeScheduler.held_eq hb, ho] at hd
    exact (Option.some.inj hd).symm
  · obtain ⟨-, hnone⟩ | ⟨b, o, hb, -, heq⟩ :=
      ProbeScheduler.onFailure_cases s d.backendIdx (some d.serial)
    · cases hnone.symm.trans hd
    · have ha : ProbeScheduler.Alters s (s.onFailure d.backendIdx (some d.serial)).1 d.backendIdx b
          { b with outstanding := none } :=
        ⟨hb, by rw [heq, ProbeScheduler.settle, ProbeScheduler.setBackend, ProbeScheduler.write],
          rfl, rfl⟩
      refine ⟨hnodup, fun d' hd' => ?_⟩
      have hne : d'.backendIdx ≠ d.backendIdx := fun h => hnotin (List.mem_map.mpr ⟨d', hd', h⟩)
      rw [ha.held, update_of_ne hne]
      exact hs.held d' (List.mem_cons_of_mem _ hd')

variable {a : LoopAct}

theorem Inv.step (h : l.Inv objs) (hc : NoStray w l a) (he : l.step w a = some l') :
    l'.Inv objs := by
  cases a with
  | due now =>
    simp only [ProbeLoop.step] at he
    split at he
    next =>
      cases he
      obtain ⟨hi, hs⟩ := ProbeScheduler.dueProbes_step w now h.scheduler
      refine ⟨hi, fun due hdue => ?_⟩
      cases hdue
      exact hs
    next => cases he
  | send ok =>
    simp only [ProbeLoop.step] at he
    split at he
    next d due hphase =>
      have hs := h.sending _ hphase
      have hrest : l.scheduler.Sending due :=
        ⟨(List.nodup_cons.mp hs.nodup).2, fun d' hd' => hs.held d' (List.mem_cons_of_mem _ hd')⟩
      split at he
      next => cases he
      next b hb =>
        split at he
        next =>
          cases he
          exact ⟨h.scheduler, fun _ hdue => by cases hdue; exact hrest⟩
        next =>
          split at he
          next =>
            cases he
            exact ⟨h.scheduler, fun _ hdue => by cases hdue; exact hrest⟩
          next =>
            cases he
            obtain ⟨hi, hs'⟩ := sendFailed_step h.scheduler hs
            exact ⟨hi, fun _ hdue => by cases hdue; exact hs'⟩
    next => cases he
  | sent | drained | again =>
    simp only [ProbeLoop.step] at he
    split at he
    next =>
      cases he
      exact ⟨h.scheduler, nofun⟩
    next => cases he
  | finish k result =>
    simp only [ProbeLoop.step] at he
    split at he
    next => cases he
    next =>
      cases he
      exact ⟨h.scheduler, h.sending⟩
  | recvTcp now =>
    simp only [ProbeLoop.step] at he
    split at he
    next out channel hphase hchannel =>
      cases he
      refine ⟨takeOutcome_step h.scheduler ?_, ?_⟩
      · exact hc out (by rw [hchannel, List.head?_cons, Option.mem_def])
      · intro due hdue
        cases hphase.symm.trans hdue
    next => cases he
  | expire now =>
    simp only [ProbeLoop.step] at he
    split at he
    next =>
      cases he
      exact ⟨ProbeScheduler.expireTimeouts_step h.scheduler, nofun⟩
    next => cases he
  | readUdp idx wire cause now =>
    simp only [ProbeLoop.step] at he
    split at he
    next => cases he
    next =>
      split at he
      next hread =>
        cases he
        refine ⟨ProbeScheduler.onReply_step h.scheduler fun b hb o ho hmatch k hk => ?_, ?_⟩
        · by_contra hne
          obtain ⟨m, hm, hid⟩ := ProbeSpec.id_of_classifyResponse hmatch
          exact hc b hb o ho k hk hne m hm hid
        · intro due hdue
          cases hread.1.symm.trans hdue
      next => cases he
  | write id f =>
    cases he
    exact ⟨h.scheduler.write_other id f, fun due hdue => (h.sending due hdue).of_held rfl⟩

theorem recorded_of_ends {idx : Nat} {b : BackendProbe} {o : Outstanding}
    (hb : l.scheduler.backends[idx]? = some b) (ho : b.outstanding = some o)
    (hends : l.Ends w idx b o a) (he : l.step w a = some l') :
    o.serial ∈ l'.scheduler.records.map (·.serial) := by
  cases a with
  | send ok =>
    obtain ⟨d, due, hphase, rfl, htcp, rfl⟩ := hends
    simp only [ProbeLoop.step, hphase, hb, htcp, Bool.false_eq_true, if_false] at he
    cases he
    exact ProbeScheduler.onFailure_ends hb ho _
  | recvTcp now =>
    obtain ⟨out, hout, rfl, hmatch⟩ := hends
    simp only [ProbeLoop.step] at he
    split at he
    next out' channel hphase hchannel =>
      cases he
      rw [hchannel, List.head?_cons] at hout
      cases hout
      simp only [takeOutcome]
      split
      next wire hwire => exact ProbeScheduler.onReply_ends hb ho (hmatch wire hwire) _
      next => exact ProbeScheduler.onFailure_ends hb ho _
    next => cases he
  | expire now =>
    simp only [ProbeLoop.step] at he
    split at he
    next =>
      cases he
      exact ProbeScheduler.expireTimeouts_ends hb ho hends
    next => cases he
  | readUdp j wire cause now =>
    obtain ⟨rfl, hmatch⟩ := hends
    simp only [ProbeLoop.step, hb] at he
    split at he
    next =>
      cases he
      exact ProbeScheduler.onReply_ends hb ho hmatch _
    next => cases he
  | due | sent | finish | drained | again | write => exact hends.elim

theorem inv_init (hi : (probeLoop w objs).init l) : l.Inv objs := by
  obtain ⟨hphase, -, -, hobjs, hissued, hlog, hnone⟩ := hi
  have hheld : l.scheduler.held = fun _ => none := by
    funext idx
    cases hb : l.scheduler.backends[idx]? with
    | none => rw [ProbeScheduler.held, hb]; rfl
    | some b => rw [ProbeScheduler.held_eq hb, hnone b (List.mem_of_getElem? hb)]; rfl
  have hrecords : l.scheduler.records = [] := by
    rw [ProbeScheduler.records, hlog, List.filterMap_nil]
  have hsends (idx : Nat) : l.scheduler.sendsTo idx = [] := by
    rw [ProbeScheduler.sendsTo, hissued]
    rfl
  refine ⟨⟨?_, ?_, ?_, ?_, ?_, ?_⟩, ?_⟩
  · rw [hissued, hrecords, hheld]
    exact .nil
  · simp [hissued]
  · simp [hrecords]
  · simp [hrecords]
  · simp [ProbeScheduler.Spaced, hsends]
  · rw [hobjs, hlog]
    rfl
  · intro due hdue
    cases hphase.symm.trans hdue

end ProbeLoop

/-- Messages of two octets, with the id. -/
def idCodec : Codec where
  fromVec
    | [high, low] => some
        { id := high.toNat * 256 + low.toNat
          queries := [{ name := "health.", qtype := 1, qclass := 1 }] }
    | _ => none
  emit m := ([UInt8.ofNat (m.id / 256), UInt8.ofNat m.id], true)

def idWiring : ProbeWiring where
  codec := idCodec
  sameName a b := a == b

def optimisticObjs (_ : ObjId) : BackendHealthState := .fromInitialPolicy .optimistic

/-- A backend that is probed over TCP every second, with a timeout of two seconds. -/
def tcpLoop : ProbeLoop where
  scheduler := {
    rng := 0
    backends := [{
      state := 0
      spec := { name := "health.", qtype := 1 }
      interval := 1000 * nanosPerMilli
      timeout := 2000 * nanosPerMilli
      useTcp := true }]
    objs := optimisticObjs }

/-- The first probe times out, and the second one goes out. -/
def timedOut : List LoopAct :=
  [.due 0, .send true, .sent, .drained, .expire (2000 * nanosPerMilli), .again,
    .due (2000 * nanosPerMilli), .send true, .sent]

/-- What is recorded for which probe, and the probe that it comes from. -/
def ProbeLoop.causes (l : ProbeLoop) : List (Nat × Option Nat) :=
  l.scheduler.records.map fun r => (r.serial, r.cause)

end Conduit.Scheduler
