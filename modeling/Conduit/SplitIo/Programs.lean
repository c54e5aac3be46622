import Conduit.SplitIo.Ops

/-!
# The threads of the split_io runtime

The work of an ingress thread (`runtime/split_io/ingress.rs`), of a policy worker (`policy.rs`), of
an I/O thread (`forward/io_backend.rs`) and of the thread that moves resumes to the policy queue
(`mod.rs`), as programs over the operations.

The orchestrator runs `handleSubmit` here; what its other stages do to the transaction is left to
the environment.

- `handleSubmit`: the forward of a transaction; `handleSubmit_refines`: it is the forward of the
  pipeline model.
- `runPolicyLoop`, `releaseSlot`, `complete`, `acquireIngressSlot`.
- `Job`: what a thread does in one turn of its loop.
-/

namespace Conduit

/-- The startup choices that the threads read. -/
structure SplitWiring extends SyncWiring where
  /-- The number of shards of the `IoBackend`; `from_egresses` refuses 0. -/
  ioShards : Nat
  ioShards_pos : 0 < ioShards

namespace SplitWiring

def shardIndex (w : SplitWiring) (id : SlotId) : Nat := id % w.ioShards

end SplitWiring

/-! ## Forwards -/

/-- `IoBackend::cancel_pending`, from the shard `i` on: the first of the next `n` shards that has
the key drops it. -/
def cancelPending (key : ForwardKey) : Nat → Nat → IoProg Unit
  | 0, _ => return ()
  | n + 1, i => do
    if ← ioOp (.cancelPending i key) then return ()
    else cancelPending key n (i + 1)

/-- Take a failed forward out of the table and out of its shard. -/
def dropForward (w : SplitWiring) : Option ForwardKey → IoProg Unit
  | none => return ()
  | some key => do
    ioOp (.tableRemove key)
    cancelPending key w.ioShards 0

/-- `servfail`. -/
def servfailSubmit (w : SplitWiring) (t : Transaction) (key : Option ForwardKey) :
    IoProg (Transaction × StageOutcome) := do
  dropForward w key
  return (t.setServfail, .cont .send)

/-- Release the permit of a pool that was read off a transaction. -/
def releasePermit : Option String → IoProg Unit
  | none => return ()
  | some pool => ioOp (.releasePool pool)

def releasePoolInflight (t : Transaction) : IoProg Unit := releasePermit t.selectedPool

/-- The end of `handle_submit`: track the forward and send it. -/
def submitUdp (w : SplitWiring) (t : Transaction) (key : ForwardKey) :
    IoProg (Transaction × StageOutcome) := do
  let upstreamWire := rewriteDnsId t.queryWire key.dnsId.toNat
  ioOp (.trackPending (w.shardIndex t.id) key t.id)
  if ← ioOp (.sendTo key.backend upstreamWire) then
    return (t, .suspend .waitResponse)
  else
    releasePoolInflight t
    servfailSubmit w t (some key)

def handleSubmit (w : SplitWiring) (t : Transaction) : IoProg (Transaction × StageOutcome) := do
  let some backend := t.selectedBackend | servfailSubmit w t none
  let some key ← ioOp (.registerUnique backend t.id) | servfailSubmit w t none
  if ← ioOp (.tryAcquire (t.selectedPool.getD "default")) then
    if useTcpForAttempt w.toSyncWiring t then
      ioOp (.tableRemove key)
      releasePoolInflight t
      servfailSubmit w t none
    else
      submitUdp w t.takeEffectiveSources key
  else
    ioOp (.tableRemove key)
    servfailSubmit w t none

/-- What the forward stage of the pipeline returns if its submission ends with `x`. -/
def submitted (x : SubmitResult) : StageProg (Transaction × StageOutcome) →
    Option (Transaction × StageOutcome)
  | .ret v => some v
  | .op (.submit _) k =>
    match k x with
    | .ret v => some v
    | .op _ _ => none
  | .op _ _ => none

section

variable {Q : Transaction × StageOutcome → Prop} {w : SplitWiring} {t : Transaction}

theorem servfailSubmit_ensures {key : Option ForwardKey} (h : Q (t.setServfail, .cont .send)) :
    Prog.Ensures (fun _ _ => True) Q (servfailSubmit w t key) :=
  Prog.Ensures.seq (Prog.ensures_true (dropForward w key)) fun _ _ => h

theorem submitUdp_ensures {key : ForwardKey} (hsent : Q (t, .suspend .waitResponse))
    (herror : Q (t.setServfail, .cont .send)) :
    Prog.Ensures (fun _ _ => True) Q (submitUdp w t key) := by
  intro _ _ sent _
  cases sent with
  | true => exact hsent
  | false =>
    change Prog.Ensures _ _ (releasePoolInflight t >>= fun _ => servfailSubmit w t (some key))
    exact Prog.Ensures.seq (Prog.ensures_true _) fun _ _ => servfailSubmit_ensures herror

end

/-- The pipeline model has this forward as one operation: whatever it returns, `forwardSubmit`
returns for some end of the submission. -/
theorem handleSubmit_refines (w : SplitWiring) (t : Transaction) :
    Prog.Ensures (fun _ _ => True) (fun v => ∃ x, submitted x (forwardSubmit t) = some v)
      (handleSubmit w t) := by
  cases hb : t.selectedBackend with
  | none =>
    simp only [handleSubmit, forwardSubmit, hb]
    exact servfailSubmit_ensures ⟨.refused, rfl⟩
  | some backend =>
    have hx : submitted .refused (forwardSubmit t) = some (t.setServfail, .cont .send) ∧
        submitted .error (forwardSubmit t) =
          some (t.takeEffectiveSources.setServfail, .cont .send) ∧
        submitted .sent (forwardSubmit t) =
          some (t.takeEffectiveSources, .suspend .waitResponse) := by
      simp only [forwardSubmit, hb]
      exact ⟨rfl, rfl, rfl⟩
    obtain ⟨hrefused, herror, hsent⟩ := hx
    simp only [handleSubmit, hb]
    intro key _
    cases key with
    | none => exact servfailSubmit_ensures ⟨.refused, hrefused⟩
    | some key =>
      intro acquired _
      cases acquired with
      | false => exact fun _ _ => servfailSubmit_ensures ⟨.refused, hrefused⟩
      | true =>
        change Prog.Ensures _ _ (if useTcpForAttempt w.toSyncWiring t then _ else _)
        split
        · intro _ _
          change Prog.Ensures _ _ (releasePoolInflight t >>= fun _ => servfailSubmit w t none)
          exact Prog.Ensures.seq (Prog.ensures_true _) fun _ _ =>
            servfailSubmit_ensures ⟨.refused, hrefused⟩
        · exact submitUdp_ensures ⟨.sent, hsent⟩ ⟨.error, herror⟩

/-! ## Policy workers -/

/-- `run_until_suspend`, `resume_after_suspend`: the pipeline takes the turns, and finishes with
`out` if it is not suspended before. No stage changes the id of a transaction. -/
def runOrchestrator (w : SplitWiring) (out : RunOutcome) :
    List PipelineTurn → Transaction → IoProg (Transaction × OrchestratorRun)
  | [], t => return (t, .finished out)
  | .stage t' :: rest, t => runOrchestrator w out rest { t' with id := t.id }
  | .forward :: rest, t => do
    match ← handleSubmit w t with
    | (t, .suspend _) => return (t, .suspended)
    | (t, _) => runOrchestrator w out rest t
  | .coalesce :: _, t => do
    ioOp (.registerWaiter t.id)
    return (t, .suspended)

def releaseActive (id : SlotId) : IoProg Unit := do
  if ← ioOp (.clearActive id) then
    ioOp (.returnToFree id)

def releaseSlot (id : SlotId) : IoProg Unit := do
  let pool ← ioOp (.poolOf id)
  releaseActive id
  releasePermit pool

def deliverReply (id : SlotId) (wire : Wire) : IoProg Unit := do
  let some target ← ioOp (.takeRoute id) | return ()
  ioOp (.sendReply target wire)

/-- The end of `run_policy_loop`. -/
def finishRun (id : SlotId) : OrchestratorRun → IoProg Unit
  | .finished .dropped => releaseSlot id
  | .finished (.response wire) => do
    deliverReply id wire
    releaseSlot id
  | .suspended => return ()

def runPolicyLoop (w : SplitWiring) (id : SlotId) : IoProg Unit := do
  match ← ioOp (.lockPolicy id) with
  | none => releaseSlot id
  | some t =>
    let (turns, out) ← ioOp .pipeline
    let (t, run) ← runOrchestrator w out turns t
    ioOp (.unlock id t run)
    finishRun id run

def processNew (w : SplitWiring) (id : SlotId) : IoProg Unit := do
  if ← ioOp (.transition id .ingress .policy) then runPolicyLoop w id
  else releaseActive id

def processResume (w : SplitWiring) (r : IoResume) : IoProg Unit := do
  if ← ioOp (.beginResume r) then runPolicyLoop w r.slotId
  else return ()

def processLookupResume (w : SplitWiring) (id : SlotId) : IoProg Unit := do
  if ← ioOp (.transition id .ioWait .policy) then runPolicyLoop w id
  else return ()

/-- One turn of `run_policy_worker`. -/
def policyTurn (w : SplitWiring) : IoProg Unit := do
  match ← ioOp .pop with
  | .new id => processNew w id
  | .resume r => processResume w r
  | .lookupResume id _ => processLookupResume w id

/-! ## I/O threads -/

def complete (shard : Nat) (key : ForwardKey) (completion : WaitCompletion) : IoProg Unit := do
  let some pending ← ioOp (.removePending shard key) | return ()
  ioOp (.tableRemove key)
  ioOp (.sendResume ⟨pending.slotId, completion, pending.token⟩)

def handleReply (shard : Nat) (d : Datagram) : IoProg Unit := do
  if d.wire.length < 12 then return ()
  else
    let key := ⟨d.sender, UInt16.ofNat ((wireId d.wire).getD 0)⟩
    if ← ioOp (.hasPending shard key) then complete shard key (.response d.wire)
    else return ()

/-- The loop of `poll_timeouts`. -/
def completeLate (shard : Nat) : List ForwardKey → IoProg Unit
  | [] => return ()
  | key :: rest => do
    complete shard key .timeout
    completeLate shard rest

def pollTimeouts (shard : Nat) : IoProg Unit := do
  let keys ← ioOp (.expired shard)
  completeLate shard keys

/-- One turn of the thread that moves the resumes to the policy queue. -/
def moveResume : IoProg Unit := do
  let r ← ioOp .recvResume
  ioOp (.push (.resume r))

/-! ## Ingress threads -/

def acquireIngressSlot (t : Transaction) : IoProg (Option SlotId) := do
  match ← ioOp .takeFree with
  | .error _ => return none
  | .ok id =>
    ioOp (.markIngress id)
    if ← ioOp (.setup id t) then return some id
    else
      releaseActive id
      return none

/-- What `run_udp_ingress` and `run_tcp_ingress` do with a query that is admitted. -/
def admitQuery (t : Transaction) (target : ReplyTarget) : IoProg Unit := do
  let some id ← acquireIngressSlot t | return ()
  ioOp (.insertRoute id target)
  ioOp (.push (.new id))

/-- What a thread does in one turn of its loop. -/
inductive Job where
  | query (t : Transaction) (target : ReplyTarget)
  | policy
  | reply (shard : Nat) (d : Datagram)
  | timeouts (shard : Nat)
  | moveResume

def Job.prog (w : SplitWiring) : Job → IoProg Unit
  | .query t target => admitQuery t target
  | .policy => policyTurn w
  | .reply shard d => handleReply shard d
  | .timeouts shard => pollTimeouts shard
  | .moveResume => Conduit.moveResume

end Conduit
