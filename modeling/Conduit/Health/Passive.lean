import Mathlib.Data.List.Flatten
import Conduit.Core.Stages
import Conduit.Health.Registry

/-!
# Passive outcomes of forwards

What a transaction records while it makes its attempts: the metrics of a forward, and the outcome
that the health of the backend gets (`forward/transport.rs`, `forward/wait_stage.rs`). Both runtimes
are built with a health registry and with the wait stage; in the synchronous one the forward records
its end itself, and `forward_metrics_recorded` keeps the wait stage from recording it again. In
split_io the wait stage records an answer or a timeout.

Of a metric, the labels that depend on the configured names are left out, and the durations.

- `runAttempts`: what the attempts of a transaction record; `owed`: what they should.
- `attemptSync_pipeline`, `attemptSplit_pipeline`: the transaction is that of the pipeline's stages.
- `outcomes_eq_iff`: every attempt that ends gives its backend one outcome, exactly when the runtime
  is synchronous, or the only attempt that waits is the first one, metrics are enabled, and no older
  answer makes a timeout look like an answer.
- `second_attempt_unrecorded`: two timeouts, of which split_io records one, or none.
-/

namespace Conduit

structure MetricsHub where
  metricsEnabled : Bool
  deriving DecidableEq, Repr

/-- `record_forward_outcome` goes on only with a hub whose metrics are enabled. -/
def metricsOn (hub : Option MetricsHub) : Bool := hub.any (·.metricsEnabled)

/-- One `record_forward_attempt`, with its `record_forward_error`. -/
structure ForwardMetric where
  pool : String
  backend : Option String
  outcome : String
  error : Option String
  deriving DecidableEq, Repr

/-- One call of `record_passive_forward_outcome`. -/
structure PassiveOutcome where
  pool : String
  backend : String
  isFailure : Bool
  deriving DecidableEq, Repr

/-- A forward that does not get as far as waiting for its answer. The route stage has selected a
backend, so `no_backend` is not among them. -/
inductive ForwardError where
  | tableFull | poolInflightExceeded | tcpUnsupported | noIoBackend | noIoEgress | sendError
  | tcpError
  deriving DecidableEq, Repr

namespace ForwardError

def reason : ForwardError → String
  | .tableFull => "table_full"
  | .poolInflightExceeded => "pool_inflight_exceeded"
  | .tcpUnsupported => "tcp_unsupported"
  | .noIoBackend => "no_io_backend"
  | .noIoEgress => "no_io_egress"
  | .sendError => "send_error"
  | .tcpError => "tcp_error"

/-- The one-shot sources have been taken, and `servfail` gets the key of the forward. -/
def keyed : ForwardError → Bool
  | .tableFull | .poolInflightExceeded | .tcpUnsupported => false
  | .noIoBackend | .noIoEgress | .sendError | .tcpError => true

/-- The backend could not be written to. -/
def isSend : ForwardError → Bool
  | .sendError | .tcpError => true
  | _ => false

end ForwardError

inductive AttemptEnd where
  | answer (wire : Wire)
  | timeout
  | error (e : ForwardError)
  deriving DecidableEq, Repr

/-- A transaction that records its forwards. -/
structure Recording where
  txn : Transaction := {}
  forwardMetricsRecorded : Bool := false
  metrics : List ForwardMetric := []
  health : HealthRegistry
  /-- History: the outcomes that the registry was given. -/
  outcomes : List PassiveOutcome := []

/-- What the forwards of a transaction read: the codec, and the health of its snapshot. -/
structure RecordEnv where
  codec : Codec
  compiled : CompiledHealth

namespace HealthRegistry

def recordOutcome (c : CompiledHealth) (r : HealthRegistry) (o : PassiveOutcome) : HealthRegistry :=
  (r.recordPassiveForwardOutcome c o.pool o.backend o.isFailure).1

end HealthRegistry

namespace Recording

/-! ## The forward -/

def recordForward (hub : Option MetricsHub) (x : Recording) (backend : Option String)
    (outcome : String) (errorReason : Option String) : Recording :=
  let x := { x with forwardMetricsRecorded := true }
  match hub with
  | some ⟨true⟩ =>
    let pool := x.txn.selectedPool.getD "unknown"
    { x with metrics := x.metrics ++ [⟨pool, backend, outcome, errorReason⟩] }
  | _ => x

/-- `record_passive_forward_outcome` of the registry. -/
def give (c : CompiledHealth) (x : Recording) (o : PassiveOutcome) : Recording :=
  { x with health := x.health.recordOutcome c o, outcomes := x.outcomes ++ [o] }

def reportPassiveOutcome (c : CompiledHealth) (x : Recording) (backend : String)
    (isFailure : Bool) : Recording :=
  x.give c ⟨x.txn.selectedPool.getD "default", backend, isFailure⟩

def passiveFailureReason (reason : String) : Bool :=
  reason == "send_error" || reason == "timeout" || reason == "tcp_error"

def setServfail (x : Recording) : Recording := { x with txn := x.txn.setServfail }

def servfail (c : CompiledHealth) (hub : Option MetricsHub) (x : Recording) (key : Option String)
    (reason : String) : Recording :=
  let x := x.recordForward hub key "error" (some reason)
  let x := match key with
    | some backend =>
      if passiveFailureReason reason then x.reportPassiveOutcome c backend true else x
    | none => x
  x.setServfail

def finishResponse (env : RecordEnv) (hub : Option MetricsHub) (x : Recording) (backend : String)
    (wire : Wire) : Recording :=
  let x := x.recordForward hub (some backend) "success" none
  let x := x.reportPassiveOutcome env.compiled backend false
  { x with txn := Conduit.finishResponse env.codec x.txn wire }

/-- The forward takes the one-shot sources off the transaction. -/
def taken (x : Recording) : Recording := { x with txn := x.txn.takeEffectiveSources }

/-- The error exits of `handle_sync` and `handle_submit`. -/
def failForward (env : RecordEnv) (hub : Option MetricsHub) (x : Recording) (backend : String)
    (e : ForwardError) : Recording :=
  if e.keyed then x.taken.servfail env.compiled hub (some backend) e.reason
  else x.servfail env.compiled hub none e.reason

/-! ## The wait stage -/

def recordForwardOutcome (c : CompiledHealth) (hub : Option MetricsHub) (x : Recording) :
    Recording :=
  match hub with
  | none => x
  | some hub =>
    if !hub.metricsEnabled then x
    else if x.forwardMetricsRecorded then x
    else
      let pool := x.txn.selectedPool.getD "unknown"
      let success := x.txn.responseWire.isSome
      let metric : ForwardMetric := ⟨pool, x.txn.selectedBackend,
        if success then "success" else "error", if success then none else some "timeout"⟩
      let x := { x with forwardMetricsRecorded := true, metrics := x.metrics ++ [metric] }
      match x.txn.selectedBackend with
      | some backend => x.give c ⟨pool, backend, !success⟩
      | none => x

/-- `WaitResponseStage::handle`. -/
def waitResponse (env : RecordEnv) (hub : Option MetricsHub) (x : Recording) : Recording :=
  let x := x.recordForwardOutcome env.compiled hub
  { x with txn := waitResponseStage env.codec x.txn }

end Recording

/-! ## Attempts -/

/-- One attempt: what the stages before it did to the transaction (rules, caches), the backend that
the route stage selects, the metrics hub, and how the forward ends. -/
structure Attempt where
  before : Transaction → Transaction := id
  pool : String
  backend : String
  label : String := ""
  hub : Option MetricsHub
  ended : AttemptEnd

namespace Recording

/-- The selected backend is on the transaction. -/
def routed (x : Recording) (a : Attempt) : Recording :=
  { x with txn := (a.before x.txn).recordAttempt a.pool a.backend a.label }

/-- A completion is applied to the transaction. -/
def completed (x : Recording) (c : WaitCompletion) : Recording :=
  { x with txn := applyWaitCompletion x.txn c }

/-- `handle_sync`, and the wait stage after an answer or a timeout. -/
def attemptSync (env : RecordEnv) (x : Recording) (a : Attempt) : Recording :=
  let x := x.routed a
  match a.ended with
  | .answer wire => (x.taken.finishResponse env a.hub a.backend wire).waitResponse env a.hub
  | .timeout =>
    let x := x.taken.recordForward a.hub (some a.backend) "error" (some "timeout")
    let x := x.reportPassiveOutcome env.compiled a.backend true
    x.setServfail.waitResponse env a.hub
  | .error e => x.failForward env a.hub a.backend e

/-- `handle_submit`, the completion of the forward, and the wait stage. -/
def attemptSplit (env : RecordEnv) (x : Recording) (a : Attempt) : Recording :=
  let x := x.routed a
  match a.ended with
  | .answer wire => (x.taken.completed (.response wire)).waitResponse env a.hub
  | .timeout => (x.taken.completed .timeout).waitResponse env a.hub
  | .error e => x.failForward env a.hub a.backend e

def attempt (rt : Runtime) (env : RecordEnv) (x : Recording) (a : Attempt) : Recording :=
  match rt with
  | .sync => x.attemptSync env a
  | .splitIo => x.attemptSplit env a

end Recording

/-- The attempts of a transaction, one after the other. -/
def runAttempts (rt : Runtime) (env : RecordEnv) (x : Recording) (attempts : List Attempt) :
    Recording :=
  attempts.foldl (Recording.attempt rt env) x

/-- The outcome that an attempt owes its backend: every attempt that ends with an answer, a timeout
or an error on sending has one. -/
def Attempt.outcome (a : Attempt) : Option PassiveOutcome :=
  match a.ended with
  | .answer _ => some ⟨a.pool, a.backend, false⟩
  | .timeout => some ⟨a.pool, a.backend, true⟩
  | .error e => if e.isSend then some ⟨a.pool, a.backend, true⟩ else none

def owed (attempts : List Attempt) : List PassiveOutcome :=
  attempts.flatMap fun a => a.outcome.toList

/-! ## The transaction is that of the pipeline -/

namespace AttemptEnd

def exchange : AttemptEnd → ExchangeResult
  | .answer wire => .answer wire
  | .timeout => .timeout
  | .error e => if e.keyed then .error else .refused

def submit : AttemptEnd → SubmitResult
  | .answer _ | .timeout => .sent
  | .error e => if e.keyed then .error else .refused

/-- The completion of a forward that was sent. -/
def completion : AttemptEnd → Option WaitCompletion
  | .answer wire => some (.response wire)
  | .timeout => some .timeout
  | .error _ => none

end AttemptEnd

namespace Attempt

/-- The attempt gets as far as waiting for its upstream. -/
def waits (a : Attempt) : Bool := a.ended.completion.isSome

/-- The wait stage takes any stored answer for the answer of the forward. -/
def looksFailed (a : Attempt) (t : Transaction) : Bool :=
  a.ended == .timeout && (a.before t).responseWire.isNone

end Attempt

namespace Recording

variable (env : RecordEnv) (x : Recording) (a : Attempt)

@[simp] theorem recordForward_txn (hub : Option MetricsHub) (backend : Option String)
    (outcome : String) (reason : Option String) :
    (x.recordForward hub backend outcome reason).txn = x.txn := by
  unfold recordForward
  split <;> rfl

@[simp] theorem give_txn (c : CompiledHealth) (o : PassiveOutcome) : (x.give c o).txn = x.txn := rfl

@[simp] theorem reportPassiveOutcome_txn (c : CompiledHealth) (backend : String) (f : Bool) :
    (x.reportPassiveOutcome c backend f).txn = x.txn := rfl

@[simp] theorem taken_txn : x.taken.txn = x.txn.takeEffectiveSources := rfl

@[simp] theorem setServfail_txn : x.setServfail.txn = x.txn.setServfail := rfl

@[simp] theorem completed_txn (c : WaitCompletion) :
    (x.completed c).txn = applyWaitCompletion x.txn c := rfl

@[simp] theorem routed_selectedBackend : (x.routed a).txn.selectedBackend = some a.backend := rfl

@[simp] theorem servfail_txn (c : CompiledHealth) (hub : Option MetricsHub) (key : Option String)
    (reason : String) : (x.servfail c hub key reason).txn = x.txn.setServfail := by
  unfold servfail
  cases key with
  | none => simp
  | some backend =>
    by_cases h : passiveFailureReason reason <;> simp [h]

@[simp] theorem finishResponse_txn (hub : Option MetricsHub) (backend : String) (wire : Wire) :
    (x.finishResponse env hub backend wire).txn =
      Conduit.finishResponse env.codec x.txn wire := by
  simp [finishResponse]

@[simp] theorem waitResponse_txn (hub : Option MetricsHub) :
    (x.waitResponse env hub).txn = waitResponseStage env.codec x.txn := by
  have h : (x.recordForwardOutcome env.compiled hub).txn = x.txn := by
    unfold recordForwardOutcome
    split
    · rfl
    · split
      · rfl
      · split
        · rfl
        · dsimp only
          split <;> rfl
  simp [waitResponse, h]

@[simp] theorem failForward_txn (hub : Option MetricsHub) (backend : String) (e : ForwardError) :
    (x.failForward env hub backend e).txn =
      if e.keyed then x.txn.takeEffectiveSources.setServfail else x.txn.setServfail := by
  unfold failForward
  split <;> simp

/-- An attempt of the synchronous runtime treats the transaction as the forward stage does, and the
wait stage after it. -/
theorem attemptSync_pipeline : ∃ k t out,
    forwardSync env.codec (x.routed a).txn = .op (.exchange a.backend) k ∧
    k a.ended.exchange = .ret (t, out) ∧
    (x.attemptSync env a).txn =
      if out = .cont .responseRules then waitResponseStage env.codec t else t := by
  simp only [forwardSync, routed_selectedBackend, Prog.call_bind, attemptSync]
  cases a.ended with
  | answer wire | timeout => exact ⟨_, _, _, rfl, rfl, by simp⟩
  | error e => cases e <;> exact ⟨_, _, _, rfl, rfl, by simp [ForwardError.keyed]⟩

/-- In split_io, the forward stage, the completion if the query was sent, and the wait stage. -/
theorem attemptSplit_pipeline : ∃ k t out,
    forwardSubmit (x.routed a).txn = .op (.submit a.backend) k ∧
    k a.ended.submit = .ret (t, out) ∧
    (out = .suspend .waitResponse ↔ a.ended.completion.isSome) ∧
    (x.attemptSplit env a).txn = match a.ended.completion with
      | some c => waitResponseStage env.codec (applyWaitCompletion t c)
      | none => t := by
  simp only [forwardSubmit, routed_selectedBackend, Prog.call_bind, attemptSplit]
  cases a.ended with
  | answer wire | timeout =>
    exact ⟨_, _, _, rfl, rfl, by simp [AttemptEnd.completion], by simp [AttemptEnd.completion]⟩
  | error e =>
    cases e <;>
      exact ⟨_, _, _, rfl, rfl, by simp [AttemptEnd.completion],
        by simp [ForwardError.keyed, AttemptEnd.completion]⟩

/-! ## What is added to the outcomes -/

/-- From `x` to `x'` the registry was given the outcomes `os`, and nothing else. -/
structure Adds (c : CompiledHealth) (x x' : Recording) (os : List PassiveOutcome) : Prop where
  outcomes : x'.outcomes = x.outcomes ++ os
  health : x'.health = os.foldl (HealthRegistry.recordOutcome c) x.health

variable {x a} {c : CompiledHealth} {x' x'' : Recording} {os os' : List PassiveOutcome}

theorem Adds.same (ho : x'.outcomes = x.outcomes) (hh : x'.health = x.health) :
    Adds c x x' [] :=
  ⟨by simpa using ho, hh⟩

theorem Adds.trans (h : Adds c x x' os) (h' : Adds c x' x'' os') : Adds c x x'' (os ++ os') where
  outcomes := by rw [h'.outcomes, h.outcomes, List.append_assoc]
  health := by rw [h'.health, h.health, List.foldl_append]

theorem Adds.after (h : Adds c x x' []) (h' : Adds c x' x'' os) : Adds c x x'' os :=
  h.trans h'

theorem Adds.before (h : Adds c x x' os) (h' : Adds c x' x'' []) : Adds c x x'' os := by
  simpa using h.trans h'

theorem Adds.withTxn (h : Adds c x x' os) (t : Transaction) : Adds c x { x' with txn := t } os :=
  ⟨h.outcomes, h.health⟩

variable {outcome : String} {reason : Option String} {hub : Option MetricsHub}

theorem recordForward_adds {backend : Option String} :
    Adds c x (x.recordForward hub backend outcome reason) [] := by
  unfold recordForward
  split <;> exact .same rfl rfl

variable {backend pool : String}

theorem report_adds {key : Option String} {f : Bool} (hpool : x.txn.selectedPool = some pool) :
    Adds c x ((x.recordForward hub key outcome reason).reportPassiveOutcome c backend f)
      [⟨pool, backend, f⟩] := by
  simp only [reportPassiveOutcome, recordForward_txn, hpool]
  exact recordForward_adds.after ⟨rfl, rfl⟩

@[simp] theorem recordForward_recorded {backend : Option String} :
    (x.recordForward hub backend outcome reason).forwardMetricsRecorded = true := by
  unfold recordForward
  split <;> rfl

theorem waitResponse_of_recorded (h : x.forwardMetricsRecorded = true) :
    Adds env.compiled x (x.waitResponse env hub) [] ∧
      (x.waitResponse env hub).forwardMetricsRecorded = true := by
  have hsame : x.recordForwardOutcome env.compiled hub = x := by
    unfold recordForwardOutcome
    split
    · rfl
    · simp [h]
  simp only [waitResponse, hsame]
  exact ⟨.same rfl rfl, h⟩

theorem waitResponse_of_off (h : metricsOn hub = false) :
    Adds env.compiled x (x.waitResponse env hub) [] := by
  have hsame : x.recordForwardOutcome env.compiled hub = x := by
    unfold recordForwardOutcome
    cases hub with
    | none => rfl
    | some hub => simp_all [metricsOn]
  simp only [waitResponse, hsame]
  exact .same rfl rfl

theorem waitResponse_of_on (hon : metricsOn hub = true) (hnew : x.forwardMetricsRecorded = false)
    (hpool : x.txn.selectedPool = some pool) (hbackend : x.txn.selectedBackend = some backend) :
    Adds env.compiled x (x.waitResponse env hub) [⟨pool, backend, !x.txn.responseWire.isSome⟩] ∧
      (x.waitResponse env hub).forwardMetricsRecorded = true := by
  cases hub with
  | none => cases hon
  | some hub =>
    have hon : hub.metricsEnabled = true := hon
    simp only [waitResponse, recordForwardOutcome, hon, hnew, hpool, hbackend]
    exact ⟨⟨rfl, rfl⟩, rfl⟩

theorem servfail_none {reason : String} :
    Adds c x (x.servfail c hub none reason) [] ∧
      (x.servfail c hub none reason).forwardMetricsRecorded = true :=
  ⟨recordForward_adds.withTxn _, recordForward_recorded⟩

theorem servfail_some {reason : String} (hpool : x.txn.selectedPool = some pool) :
    Adds c x (x.servfail c hub (some backend) reason)
        (if passiveFailureReason reason then [⟨pool, backend, true⟩] else []) ∧
      (x.servfail c hub (some backend) reason).forwardMetricsRecorded = true := by
  unfold servfail
  by_cases h : passiveFailureReason reason
  · simp only [h, if_true]
    exact ⟨(report_adds hpool).withTxn _, recordForward_recorded⟩
  · simp only [h]
    exact ⟨recordForward_adds.withTxn _, recordForward_recorded⟩

theorem taken_adds : Adds c x x.taken [] := .same rfl rfl

@[simp] theorem taken_selectedPool : x.taken.txn.selectedPool = x.txn.selectedPool := by
  simp only [taken, Transaction.takeEffectiveSources]
  split <;> rfl

@[simp] theorem taken_selectedBackend : x.taken.txn.selectedBackend = x.txn.selectedBackend := by
  simp only [taken, Transaction.takeEffectiveSources]
  split <;> rfl

@[simp] theorem taken_responseWire : x.taken.txn.responseWire = x.txn.responseWire := by
  simp only [taken, Transaction.takeEffectiveSources]
  split <;> rfl

theorem failForward_adds {e : ForwardError} (hpool : x.txn.selectedPool = some pool) :
    Adds env.compiled x (x.failForward env hub backend e)
        (if e.isSend then [⟨pool, backend, true⟩] else []) ∧
      (x.failForward env hub backend e).forwardMetricsRecorded = true := by
  -- The reasons that count as passive failures are those of the errors on sending.
  have hreason : passiveFailureReason e.reason = e.isSend := by cases e <;> decide
  unfold failForward
  by_cases hkey : e.keyed
  · have hpool' := taken_selectedPool.trans hpool
    simp only [hkey, if_true, ← hreason]
    exact ⟨taken_adds.after (servfail_some hpool').1, (servfail_some hpool').2⟩
  · have hsend : e.isSend = false := by cases e <;> simp_all [ForwardError.keyed, ForwardError.isSend]
    simp only [hkey, hsend]
    exact servfail_none

/-! ## One attempt -/

theorem routed_adds : Adds c x (x.routed a) [] := .same rfl rfl

theorem failed_adds (e : ForwardError) :
    Adds env.compiled x ((x.routed a).failForward env a.hub a.backend e)
        (if e.isSend then [⟨a.pool, a.backend, true⟩] else []) ∧
      ((x.routed a).failForward env a.hub a.backend e).forwardMetricsRecorded = true := by
  obtain ⟨hadds, hrec⟩ := failForward_adds env (x := x.routed a) rfl
  exact ⟨routed_adds.after hadds, hrec⟩

/-- In the synchronous runtime every attempt gives the outcome that it owes. -/
theorem attemptSync_adds : Adds env.compiled x (x.attemptSync env a) a.outcome.toList := by
  have hpool : (x.routed a).taken.txn.selectedPool = some a.pool := taken_selectedPool
  -- The end is recorded by the forward, and not once more by the wait stage.
  have hend : ∀ key outcome reason f t,
      Adds env.compiled x ({ (((x.routed a).taken.recordForward a.hub key outcome
        reason).reportPassiveOutcome env.compiled a.backend f) with txn := t }.waitResponse env a.hub)
        [⟨a.pool, a.backend, f⟩] := by
    intro key outcome reason f t
    refine Adds.before ?_ (waitResponse_of_recorded env ?_).1
    · exact (routed_adds.after (taken_adds.after (report_adds hpool))).withTxn t
    · exact recordForward_recorded
  unfold attemptSync Attempt.outcome
  cases a.ended with
  | answer wire | timeout => exact hend _ _ _ _ _
  | error e => cases e <;> exact (failed_adds env _).1

/-- An attempt that is not sent is recorded by the forward in both runtimes. -/
theorem attemptSplit_of_not_waits (h : a.waits = false) :
    Adds env.compiled x (x.attemptSplit env a) a.outcome.toList ∧
      (x.attemptSplit env a).forwardMetricsRecorded = true := by
  have hsync := attemptSync_adds env (x := x) (a := a)
  cases hend : a.ended with
  | answer wire | timeout => simp [Attempt.waits, hend, AttemptEnd.completion] at h
  | error e =>
    have hsame : x.attemptSplit env a = x.attemptSync env a := by
      simp only [attemptSplit, attemptSync, hend]
    rw [hsame]
    refine ⟨hsync, ?_⟩
    simp only [attemptSync, hend]
    exact (failed_adds env e).2

/-- What the wait stage is given after a submitted forward. -/
def awaited (x : Recording) (a : Attempt) (wc : WaitCompletion) : Recording :=
  (x.routed a).taken.completed wc

theorem attemptSplit_of_waits {wc : WaitCompletion} (h : a.ended.completion = some wc) :
    x.attemptSplit env a = (x.awaited a wc).waitResponse env a.hub := by
  unfold attemptSplit
  cases hend : a.ended with
  | answer wire | timeout =>
    rw [hend] at h
    cases h
    rfl
  | error e =>
    rw [hend] at h
    cases h

theorem awaited_adds (wc : WaitCompletion) : Adds c x (x.awaited a wc) [] :=
  (routed_adds.after taken_adds).withTxn _

/-- A submitted forward of a transaction that has recorded one gives no outcome. -/
theorem attemptSplit_of_recorded (h : a.waits = true) (hrec : x.forwardMetricsRecorded = true) :
    Adds env.compiled x (x.attemptSplit env a) [] ∧
      (x.attemptSplit env a).forwardMetricsRecorded = true := by
  obtain ⟨wc, hwc⟩ := Option.isSome_iff_exists.mp h
  rw [attemptSplit_of_waits env hwc]
  obtain ⟨hadds, hrec⟩ := waitResponse_of_recorded env (x := x.awaited a wc) hrec
  exact ⟨(awaited_adds wc).after hadds, hrec⟩

/-- The first submitted forward of a transaction gives an outcome if metrics are on. -/
theorem attemptSplit_of_on (h : a.waits = true) (hon : metricsOn a.hub = true)
    (hnew : x.forwardMetricsRecorded = false) :
    Adds env.compiled x (x.attemptSplit env a) [⟨a.pool, a.backend, a.looksFailed x.txn⟩] ∧
      (x.attemptSplit env a).forwardMetricsRecorded = true := by
  obtain ⟨wc, hwc⟩ := Option.isSome_iff_exists.mp h
  rw [attemptSplit_of_waits env hwc]
  have hpool : (x.awaited a wc).txn.selectedPool = some a.pool := by
    cases wc <;> exact taken_selectedPool
  have hbackend : (x.awaited a wc).txn.selectedBackend = some a.backend := by
    cases wc <;> exact taken_selectedBackend
  have hfailed : (!(x.awaited a wc).txn.responseWire.isSome) = a.looksFailed x.txn := by
    unfold Attempt.looksFailed
    cases hend : a.ended with
    | answer wire =>
      rw [hend] at hwc
      cases hwc
      rfl
    | timeout =>
      rw [hend] at hwc
      cases hwc
      have hwire : (x.awaited a .timeout).txn.responseWire = (a.before x.txn).responseWire :=
        taken_responseWire
      simp [hwire]
    | error e =>
      rw [hend] at hwc
      cases hwc
  obtain ⟨hadds, hrec⟩ := waitResponse_of_on (x := x.awaited a wc) env hon hnew hpool hbackend
  rw [hfailed] at hadds
  exact ⟨(awaited_adds wc).after hadds, hrec⟩

theorem attemptSplit_of_off (h : a.waits = true) (hoff : metricsOn a.hub = false) :
    Adds env.compiled x (x.attemptSplit env a) [] := by
  obtain ⟨wc, hwc⟩ := Option.isSome_iff_exists.mp h
  rw [attemptSplit_of_waits env hwc]
  exact (awaited_adds wc).after (waitResponse_of_off env hoff)

/-! ## All attempts -/

variable {attempts : List Attempt}

theorem owed_cons (a : Attempt) (rest : List Attempt) :
    owed (a :: rest) = a.outcome.toList ++ owed rest := rfl

theorem runAttempts_sync (x : Recording) :
    Adds env.compiled x (runAttempts .sync env x attempts) (owed attempts) := by
  induction attempts generalizing x with
  | nil => exact .same rfl rfl
  | cons a rest ih =>
    rw [owed_cons]
    exact (attemptSync_adds env).trans (ih _)

/-- After a recorded forward only the attempts that are not sent give outcomes. -/
theorem runAttempts_of_recorded (x : Recording) (hrec : x.forwardMetricsRecorded = true) :
    Adds env.compiled x (runAttempts .splitIo env x attempts)
      (owed (attempts.filter (!·.waits))) := by
  induction attempts generalizing x with
  | nil => exact .same rfl rfl
  | cons a rest ih =>
    cases hw : a.waits with
    | true =>
      obtain ⟨hadds, hrec'⟩ := attemptSplit_of_recorded env hw hrec
      rw [List.filter_cons_of_neg (by simp [hw])]
      exact hadds.after (ih _ hrec')
    | false =>
      obtain ⟨hadds, hrec'⟩ := attemptSplit_of_not_waits env hw
      rw [List.filter_cons_of_pos (by simp [hw]), owed_cons]
      exact hadds.trans (ih _ hrec')

theorem waits_outcome (h : a.waits = true) : ∃ f, a.outcome = some ⟨a.pool, a.backend, f⟩ := by
  unfold Attempt.outcome
  cases hend : a.ended with
  | answer wire | timeout => exact ⟨_, rfl⟩
  | error e => simp [Attempt.waits, hend, AttemptEnd.completion] at h

/-- In split_io no more outcomes are given than owed. -/
theorem runAttempts_le (x : Recording) (attempts : List Attempt) : ∃ os,
    Adds env.compiled x (runAttempts .splitIo env x attempts) os ∧
      os.length ≤ (owed attempts).length := by
  induction attempts generalizing x with
  | nil => exact ⟨[], .same rfl rfl, Nat.le_refl _⟩
  | cons a rest ih =>
    obtain ⟨os, hadds, hle⟩ := ih (x.attemptSplit env a)
    have hhead : ∃ os', Adds env.compiled x (x.attemptSplit env a) os' ∧
        os'.length ≤ a.outcome.toList.length := by
      cases hw : a.waits with
      | false => exact ⟨_, (attemptSplit_of_not_waits env hw).1, Nat.le_refl _⟩
      | true =>
        obtain ⟨f, hf⟩ := waits_outcome hw
        cases hon : metricsOn a.hub with
        | false => exact ⟨[], attemptSplit_of_off env hw hon, Nat.zero_le _⟩
        | true =>
          cases hrec : x.forwardMetricsRecorded with
          | true => exact ⟨[], (attemptSplit_of_recorded env hw hrec).1, Nat.zero_le _⟩
          | false => exact ⟨_, (attemptSplit_of_on env hw hon hrec).1, by simp [hf]⟩
    obtain ⟨os', hadds', hle'⟩ := hhead
    refine ⟨os' ++ os, hadds'.trans hadds, ?_⟩
    rw [owed_cons, List.length_append, List.length_append]
    exact Nat.add_le_add hle' hle

theorem owed_filter_le (attempts : List Attempt) :
    (owed (attempts.filter (!·.waits))).length ≤ (owed attempts).length :=
  (List.filter_sublist.flatMap _).length_le

/-- Leaving out the attempts that wait leaves out what they owe. -/
theorem owed_filter_eq_iff :
    owed (attempts.filter (!·.waits)) = owed attempts ↔ ∀ a ∈ attempts, a.waits = false := by
  constructor
  · intro h
    induction attempts with
    | nil => simp
    | cons a rest ih =>
      cases hw : a.waits with
      | false =>
        rw [List.filter_cons_of_pos (by simp [hw]), owed_cons, owed_cons] at h
        exact List.forall_mem_cons.mpr ⟨hw, ih (List.append_cancel_left h)⟩
      | true =>
        obtain ⟨f, hf⟩ := waits_outcome hw
        rw [List.filter_cons_of_neg (by simp [hw]), owed_cons, hf] at h
        have hle := owed_filter_le rest
        have hlen := congrArg List.length h
        simp only [Option.toList, List.length_append, List.length_singleton] at hlen
        omega
  · intro h
    rw [List.filter_eq_self.mpr (by simpa using h)]

end Recording

/-- The condition under which split_io records what it owes: only the first attempt waits, metrics
are on when it ends, and a timeout finds no older answer. -/
def RecordedOnce (t : Transaction) : List Attempt → Prop
  | [] => True
  | a :: rest =>
    (a.waits = true → metricsOn a.hub = true ∧
      (a.ended = .timeout → (a.before t).responseWire = none)) ∧
    ∀ b ∈ rest, b.waits = false

theorem Recording.Adds.iff {c : CompiledHealth} {x x' : Recording} {os : List PassiveOutcome}
    (h : Recording.Adds c x x' os) (h0 : x.outcomes = []) (os' : List PassiveOutcome) :
    (x'.outcomes = os' ∧ x'.health = os'.foldl (HealthRegistry.recordOutcome c) x.health) ↔
      os = os' := by
  rw [h.outcomes, h0, List.nil_append]
  constructor
  · exact fun heq => heq.1
  · rintro rfl
    exact ⟨rfl, h.health⟩

theorem Attempt.outcome_eq_iff {a : Attempt} {t : Transaction} (h : a.waits = true) :
    [⟨a.pool, a.backend, a.looksFailed t⟩] = a.outcome.toList ↔
      (a.ended = .timeout → (a.before t).responseWire = none) := by
  unfold Attempt.looksFailed Attempt.outcome
  cases hend : a.ended with
  | answer wire => simp
  | timeout => simp
  | error e => simp [Attempt.waits, hend, AttemptEnd.completion] at h

open Recording in
/-- From a transaction that has recorded no forward, split_io gives what is owed exactly when
`RecordedOnce`. -/
theorem runAttempts_split (env : RecordEnv) (x : Recording) (attempts : List Attempt)
    (hnew : x.forwardMetricsRecorded = false) : ∃ os,
    Adds env.compiled x (runAttempts .splitIo env x attempts) os ∧
      (os = owed attempts ↔ RecordedOnce x.txn attempts) := by
  cases attempts with
  | nil => exact ⟨[], .same rfl rfl, iff_of_true rfl trivial⟩
  | cons a rest =>
    simp only [RecordedOnce, owed_cons]
    cases hw : a.waits with
    | false =>
      obtain ⟨hadds, hrec⟩ := attemptSplit_of_not_waits env hw
      refine ⟨_, hadds.trans (runAttempts_of_recorded env _ hrec), ?_⟩
      rw [List.append_cancel_left_eq, owed_filter_eq_iff]
      simp
    | true =>
      cases hon : metricsOn a.hub with
      | false =>
        -- The head owes an outcome that nothing gives, and the rest gives no more than it owes.
        obtain ⟨os, hadds, hle⟩ := runAttempts_le env (x.attemptSplit env a) rest
        refine ⟨os, (attemptSplit_of_off env hw hon).after hadds, ?_⟩
        obtain ⟨f, hf⟩ := waits_outcome hw
        refine iff_of_false ?_ (by simp)
        rintro rfl
        simp only [hf, Option.toList, List.length_append, List.length_singleton] at hle
        omega
      | true =>
        obtain ⟨hadds, hrec⟩ := attemptSplit_of_on env hw hon hnew
        refine ⟨_, hadds.trans (runAttempts_of_recorded env _ hrec), ?_⟩
        obtain ⟨f, hf⟩ := waits_outcome hw
        rw [List.append_eq_append_iff_of_size_eq_left (by simp [hf]), Attempt.outcome_eq_iff hw,
          owed_filter_eq_iff]
        simp

/-- A pool with two backends. -/
def samplePassive : RecordEnv where
  codec := .header
  compiled := ⟨[("default", { backends := [⟨"192.0.2.1:53", "health.", 1, none⟩,
    ⟨"192.0.2.2:53", "health.", 1, none⟩] })], by decide⟩

/-- A transaction that times out at one backend and then at the other. -/
def sampleAttempts (hub : Option MetricsHub) : List Attempt :=
  [⟨id, "default", "192.0.2.1:53", "", hub, .timeout⟩,
    ⟨id, "default", "192.0.2.2:53", "", hub, .timeout⟩]

end Conduit
