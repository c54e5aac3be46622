import Conduit.SplitIo.Machine

/-!
# The order of a thread's operations

Every program of the runtime performs its operations in the order of `Loc`: `job_obeys`. What is
proved about all interleavings afterwards looks at one operation at a time, and at where its thread
is.

The answers of `ioProto` leave out the error exits that no run takes: a slot that a thread has made
its own is in the state it was left in (shown in `SplitIo.Control`).
-/

namespace Conduit

namespace Loc

/-- The thread has nothing left to do. -/
def Done : Loc → Prop
  | .idle | .ended | .freed none => True
  | _ => False

end Loc

/-- The operation may be performed by a thread that is at `l`. -/
def ioOk (w : SplitWiring) (l : Loc) : IoOp → Prop
  | .takeFree | .pop | .removePending _ _ | .hasPending _ _ | .expired _ | .recvResume => l = .idle
  | .markIngress id => l = .taken id
  | .setup id _ => l = .marked id
  | .insertRoute id _ => l = .ready id
  | .push work => match work with
    | .new id => l = .routed id
    | .resume r => l = .moving r
    | .lookupResume _ _ => False
  | .transition id expected next =>
    next = .policy ∧ ((expected = .ingress ∧ l = .popped (.new id)) ∨
      (expected = .ioWait ∧ ∃ n, l = .popped (.lookupResume id n)))
  | .beginResume r => l = .popped (.resume r)
  | .lockPolicy id => l = .entered id
  | .pipeline => ∃ id debt, l = .running id debt
  | .registerUnique _ id | .registerWaiter id => ∃ debt, l = .running id debt
  | .tryAcquire _ => ∃ id key, l = .registered id key
  | .tableRemove key =>
    (∃ id, l = .registered id key) ∨ (∃ id pool, l = .permitted id key pool) ∨
      (∃ id debt, l = .failed id key debt) ∨ ∃ p, l = .completing key p
  | .releasePool pool =>
    (∃ id, l = .running id (some pool)) ∨ (∃ id key, l = .failed id key (some pool)) ∨
      l = .freed (some pool)
  | .trackPending i key id => i = w.shardIndex id ∧ ∃ pool, l = .permitted id key pool
  | .sendTo _ _ => ∃ id key pool, l = .tracked id key pool
  | .cancelPending i key => ∃ id, l = .cancelling id key i
  | .unlock id t run => t.id = id ∧ match run with
    | .suspended => l = .parked id
    | .finished _ => ∃ debt, l = .running id debt
  | .takeRoute id => ∃ wire, l = .finished id (.response wire)
  | .sendReply target wire => ∃ id, l = .delivering id target wire
  | .poolOf id => l = .finished id .dropped ∨ l = .delivered id
  | .clearActive id => ∃ pool, l = .releasing id pool
  | .returnToFree id => ∃ pool, l = .cleared id pool
  | .sendResume r => ∃ p c, l = .resuming p ∧ r = ⟨p.slotId, c, p.token⟩

/-- The answers that come. -/
def ioMay (l : Loc) : (o : IoOp) → o.Resp → Prop
  | .setup _ _, r | .clearActive _, r => r = true
  | .transition id _ _, r => l = .popped (.new id) → r = true
  | .lockPolicy id, r => ∃ t : Transaction, r = some t ∧ t.id = id
  | _, _ => True

/-- The moves of a thread: where it performs an operation, with which answer, and where that takes
it. -/
inductive Loc.Move (w : SplitWiring) : Loc → (o : IoOp) → o.Resp → Loc → Prop
  | takeFree {id} : Move w .idle .takeFree (.ok id) (.taken id)
  | noneFree {e} : Move w .idle .takeFree (.error e) .ended
  | markIngress {id} : Move w (.taken id) (.markIngress id) () (.marked id)
  | setup {id t} : Move w (.marked id) (.setup id t) true (.ready id)
  | insertRoute {id target} : Move w (.ready id) (.insertRoute id target) () (.routed id)
  | pushNew {id} : Move w (.routed id) (.push (.new id)) () .ended
  | pushResume {r} : Move w (.moving r) (.push (.resume r)) () .ended
  | popNew {id} : Move w .idle .pop (.new id) (.popped (.new id))
  | popResume {r} : Move w .idle .pop (.resume r) (.popped (.resume r))
  | popLookup {id n} : Move w .idle .pop (.lookupResume id n) (.popped (.lookupResume id n))
  | enter {id} : Move w (.popped (.new id)) (.transition id .ingress .policy) true (.entered id)
  | wake {id n} :
      Move w (.popped (.lookupResume id n)) (.transition id .ioWait .policy) true (.entered id)
  | wakeLate {id n} :
      Move w (.popped (.lookupResume id n)) (.transition id .ioWait .policy) false .ended
  | resume {r} : Move w (.popped (.resume r)) (.beginResume r) true (.entered r.slotId)
  | resumeLate {r} : Move w (.popped (.resume r)) (.beginResume r) false .ended
  | lockPolicy {id t} (hid : t.id = id) :
      Move w (.entered id) (.lockPolicy id) (some t) (.running id none)
  | pipeline {id debt plan} : Move w (.running id debt) .pipeline plan (.running id debt)
  | register {id debt backend key} :
      Move w (.running id debt) (.registerUnique backend id) (some key) (.registered id key)
  | registerFull {id debt backend} :
      Move w (.running id debt) (.registerUnique backend id) none (.running id debt)
  | registerWaiter {id debt} : Move w (.running id debt) (.registerWaiter id) () (.parked id)
  | acquire {id key pool} :
      Move w (.registered id key) (.tryAcquire pool) true (.permitted id key pool)
  | refuse {id key pool} : Move w (.registered id key) (.tryAcquire pool) false (.registered id key)
  | removeRegistered {id key} : Move w (.registered id key) (.tableRemove key) () (.running id none)
  | removePermitted {id key pool} :
      Move w (.permitted id key pool) (.tableRemove key) () (.running id (some pool))
  | removeFailed {id key debt} :
      Move w (.failed id key debt) (.tableRemove key) () (.cancelling id key 0)
  | removeCompleted {key p} : Move w (.completing key p) (.tableRemove key) () (.resuming p)
  | releaseRunning {id pool} :
      Move w (.running id (some pool)) (.releasePool pool) () (.running id none)
  | releaseFailed {id key pool} :
      Move w (.failed id key (some pool)) (.releasePool pool) () (.failed id key none)
  | releaseFreed {pool} : Move w (.freed (some pool)) (.releasePool pool) () .ended
  | track {id key pool} : Move w (.permitted id key pool)
      (.trackPending (w.shardIndex id) key id) () (.tracked id key pool)
  | sent {id key pool backend wire} :
      Move w (.tracked id key pool) (.sendTo backend wire) true (.parked id)
  | sendFailed {id key pool backend wire} :
      Move w (.tracked id key pool) (.sendTo backend wire) false (.failed id key (some pool))
  | cancel {id key i found} (hend : (found || i + 1 ≥ w.ioShards) = true) :
      Move w (.cancelling id key i) (.cancelPending i key) found (.running id none)
  | searchOn {id key i} (hmore : i + 1 < w.ioShards) :
      Move w (.cancelling id key i) (.cancelPending i key) false (.cancelling id key (i + 1))
  | suspend {id t} (hid : t.id = id) : Move w (.parked id) (.unlock id t .suspended) () .ended
  | finish {id debt t out} (hid : t.id = id) :
      Move w (.running id debt) (.unlock id t (.finished out)) () (.finished id out)
  | takeRoute {id wire target} :
      Move w (.finished id (.response wire)) (.takeRoute id) (some target) (.delivering id target wire)
  | noRoute {id wire} : Move w (.finished id (.response wire)) (.takeRoute id) none (.delivered id)
  | sendReply {id target wire} :
      Move w (.delivering id target wire) (.sendReply target wire) () (.delivered id)
  | poolOfDropped {id pool} : Move w (.finished id .dropped) (.poolOf id) pool (.releasing id pool)
  | poolOf {id pool} : Move w (.delivered id) (.poolOf id) pool (.releasing id pool)
  | clearActive {id pool} : Move w (.releasing id pool) (.clearActive id) true (.cleared id pool)
  | returnToFree {id pool} : Move w (.cleared id pool) (.returnToFree id) () (.freed pool)
  | removePending {i key p} : Move w .idle (.removePending i key) (some p) (.completing key p)
  | nonePending {i key} : Move w .idle (.removePending i key) none .idle
  | hasPending {i key found} : Move w .idle (.hasPending i key) found .idle
  | expired {i keys} : Move w .idle (.expired i) keys .idle
  | sendResume {p c} : Move w (.resuming p) (.sendResume ⟨p.slotId, c, p.token⟩) () .idle
  | recvResume {r} : Move w .idle .recvResume r (.moving r)

theorem Loc.move {w : SplitWiring} {l : Loc} {o : IoOp} {r : o.Resp} (hok : ioOk w l o)
    (hmay : ioMay l o r) : Loc.Move w l o r (l.next w o r) := by
  cases o with
  | takeFree | pop | removePending _ _ | hasPending _ _ | expired _ | recvResume | markIngress _
  | insertRoute _ _ | setup _ _ | beginResume _ =>
    cases hok
    first | constructor | (cases hmay; constructor) | (cases r <;> constructor)
  | registerUnique _ _ | registerWaiter _ | takeRoute _ | sendReply _ _ | clearActive _
  | returnToFree _ =>
    obtain ⟨_, rfl⟩ := hok
    first | constructor | (cases hmay; constructor) | (cases r <;> constructor)
  | pipeline | tryAcquire _ =>
    obtain ⟨_, _, rfl⟩ := hok
    first | constructor | (cases r <;> constructor)
  | lockPolicy _ =>
    cases hok
    obtain ⟨_, rfl, hid⟩ := hmay
    exact .lockPolicy hid
  | push work => cases work <;> cases hok <;> constructor
  | transition _ _ _ =>
    obtain ⟨rfl, ⟨rfl, rfl⟩ | ⟨rfl, _, rfl⟩⟩ := hok
    · cases hmay rfl
      constructor
    · cases r <;> constructor
  | tableRemove _ =>
    obtain ⟨_, rfl⟩ | ⟨_, _, rfl⟩ | ⟨_, _, rfl⟩ | ⟨_, rfl⟩ := hok <;> constructor
  | releasePool _ => obtain ⟨_, rfl⟩ | ⟨_, _, rfl⟩ | rfl := hok <;> constructor
  | trackPending _ _ _ =>
    obtain ⟨rfl, _, rfl⟩ := hok
    constructor
  | sendTo _ _ =>
    obtain ⟨_, _, _, rfl⟩ := hok
    cases r <;> constructor
  | cancelPending _ _ =>
    obtain ⟨_, rfl⟩ := hok
    simp only [Loc.next]
    split
    · exact .cancel ‹_›
    · cases r with
      | true => simp_all
      | false => exact .searchOn (by simp_all)
  | unlock _ _ run =>
    obtain ⟨hid, hl⟩ := hok
    cases run with
    | suspended => cases hl; exact .suspend hid
    | finished _ => obtain ⟨_, rfl⟩ := hl; exact .finish hid
  | poolOf _ => obtain rfl | rfl := hok <;> constructor
  | sendResume _ =>
    obtain ⟨_, _, rfl, rfl⟩ := hok
    constructor

/-- The thread `t` performs the operation `o`, and goes from `l` to `l'`. -/
structure IoMove (w : SplitWiring) (s : IoState) (t : Tid) (o : IoOp) (r : o.Resp)
    (shared : IoShared) (l l' : Loc) : Prop where
  agree : AgreeBut o.part s.shared shared
  before : s.hist.loc t = l
  after : (s.hist.next w t o r).loc t = l'

theorem IoMove.of_sem {w : SplitWiring} {s : IoState} {t : Tid} {o : IoOp} {r : o.Resp}
    {shared : IoShared} {env : IoEnv} (hok : ioOk w (s.hist.loc t) o)
    (hmay : ioMay (s.hist.loc t) o r) (hs : o.sem env s.shared = some (r, shared)) :
    ∃ l l', Loc.Move w l o r l' ∧ IoMove w s t o r shared l l' :=
  ⟨_, _, Loc.move hok hmay, IoOp.agreeBut hs, rfl, by simp [IoHist.next]⟩

def ioProto (w : SplitWiring) : Proto IoOp IoOp.Resp Loc where
  ok := ioOk w
  may := ioMay
  next l := l.next w

section

variable {w : SplitWiring} {id : SlotId} {key : ForwardKey} {t : Transaction} {l : Loc}

/-! ## Forwards -/

theorem cancelPending_obeys {n i : Nat} (h : i + (n + 1) = w.ioShards) :
    Prog.Obeys (ioProto w) (fun l _ => l = .running id none) (.cancelling id key i)
      (cancelPending key (n + 1) i) := by
  induction n generalizing i with
  | zero =>
    have hend : (ioProto w).next (.cancelling id key i) (.cancelPending i key) false =
        .running id none := by
      simp [ioProto, Loc.next, ← h]
    refine ⟨⟨id, rfl⟩, fun found _ => ?_⟩
    cases found with
    | true => exact rfl
    | false => exact hend
  | succ n ih =>
    have hmore : (ioProto w).next (.cancelling id key i) (.cancelPending i key) false =
        .cancelling id key (i + 1) := by
      have hlt : ¬ i + 1 ≥ w.ioShards := by omega
      simp [ioProto, Loc.next, hlt]
    refine ⟨⟨id, rfl⟩, fun found _ => ?_⟩
    cases found with
    | true => exact rfl
    | false =>
      rw [hmore]
      exact ih (by omega)

/-- What the forward stage leaves: the worker is parked if the forward was sent. -/
def AfterSubmit (id : SlotId) (l : Loc) (v : Transaction × StageOutcome) : Prop :=
  v.1.id = id ∧ match v.2 with
    | .suspend _ => l = .parked id
    | _ => ∃ debt, l = .running id debt

theorem servfailSubmit_none_obeys (h : ∃ debt, l = .running t.id debt) :
    Prog.Obeys (ioProto w) (AfterSubmit t.id) l (servfailSubmit w t none) :=
  ⟨rfl, h⟩

theorem servfailSubmit_some_obeys {debt : Option String} :
    Prog.Obeys (ioProto w) (AfterSubmit t.id) (.failed t.id key debt)
      (servfailSubmit w t (some key)) := by
  refine ⟨.inr (.inr (.inl ⟨t.id, debt, rfl⟩)), fun _ _ => ?_⟩
  obtain ⟨n, hn⟩ := Nat.exists_eq_succ_of_ne_zero (Nat.ne_of_gt w.ioShards_pos)
  change Prog.Obeys (ioProto w) _ (.cancelling t.id key 0)
    (cancelPending key w.ioShards 0 >>= fun _ => .ret (t.setServfail, StageOutcome.cont .send))
  rw [hn]
  refine (cancelPending_obeys (by omega)).seq fun l _ hl => ?_
  exact ⟨rfl, none, hl⟩

theorem submitUdp_obeys {pool : String} (hpool : ∀ p, t.selectedPool = some p → p = pool) :
    Prog.Obeys (ioProto w) (AfterSubmit t.id) (.permitted t.id key pool) (submitUdp w t key) := by
  refine ⟨⟨rfl, pool, rfl⟩, fun _ _ => ⟨⟨t.id, key, pool, rfl⟩, fun sent _ => ?_⟩⟩
  cases sent with
  | true => exact ⟨rfl, rfl⟩
  | false =>
    change Prog.Obeys (ioProto w) _ (.failed t.id key (some pool))
      (releasePermit t.selectedPool >>= fun _ => servfailSubmit w t (some key))
    cases hsel : t.selectedPool with
    | none => exact servfailSubmit_some_obeys
    | some p =>
      cases hpool p hsel
      exact ⟨.inr (.inl ⟨t.id, key, rfl⟩), fun _ _ => servfailSubmit_some_obeys⟩

theorem handleSubmit_obeys (h : ∃ debt, l = .running t.id debt) :
    Prog.Obeys (ioProto w) (AfterSubmit t.id) l (handleSubmit w t) := by
  unfold handleSubmit
  cases t.selectedBackend with
  | none => exact servfailSubmit_none_obeys h
  | some backend =>
    refine ⟨h, fun key _ => ?_⟩
    cases key with
    | none => exact servfailSubmit_none_obeys h
    | some key =>
      refine ⟨⟨t.id, key, rfl⟩, fun acquired _ => ?_⟩
      cases acquired with
      | false => exact ⟨.inl ⟨t.id, rfl⟩, fun _ _ => servfailSubmit_none_obeys ⟨none, rfl⟩⟩
      | true =>
        change Prog.Obeys (ioProto w) _ (.permitted t.id key (t.selectedPool.getD "default"))
          (if useTcpForAttempt w.toSyncWiring t then _ else _)
        split
        · refine ⟨.inr (.inl ⟨t.id, _, rfl⟩), fun _ _ => ?_⟩
          change Prog.Obeys (ioProto w) _ (.running t.id (some (t.selectedPool.getD "default")))
            (releasePermit t.selectedPool >>= fun _ => servfailSubmit w t none)
          cases t.selectedPool with
          | none => exact servfailSubmit_none_obeys ⟨_, rfl⟩
          | some pool => exact ⟨.inl ⟨t.id, rfl⟩, fun _ _ => servfailSubmit_none_obeys ⟨none, rfl⟩⟩
        · have hid : t.takeEffectiveSources.id = t.id := by
            unfold Transaction.takeEffectiveSources
            split <;> rfl
          have hsel : t.takeEffectiveSources.selectedPool = t.selectedPool := by
            unfold Transaction.takeEffectiveSources
            split <;> rfl
          have hpool : ∀ p, t.takeEffectiveSources.selectedPool = some p →
              p = t.selectedPool.getD "default" := by
            intro p hp
            rw [← hsel, hp]
            rfl
          rw [← hid]
          exact submitUdp_obeys hpool

/-! ## Policy workers -/

def AfterRun (id : SlotId) (l : Loc) (v : Transaction × OrchestratorRun) : Prop :=
  v.1.id = id ∧ match v.2 with
    | .suspended => l = .parked id
    | .finished _ => ∃ debt, l = .running id debt

theorem runOrchestrator_obeys {out : RunOutcome} {turns : List PipelineTurn}
    (h : ∃ debt, l = .running id debt) (hid : t.id = id) :
    Prog.Obeys (ioProto w) (AfterRun id) l (runOrchestrator w out turns t) := by
  induction turns generalizing t l with
  | nil => exact ⟨hid, h⟩
  | cons turn rest ih =>
    cases turn with
    | stage t' => exact ih h hid
    | coalesce =>
      subst hid
      exact ⟨h, fun _ _ => ⟨rfl, rfl⟩⟩
    | forward =>
      subst hid
      refine (handleSubmit_obeys h).seq fun l v hv => ?_
      obtain ⟨t', o⟩ := v
      obtain ⟨hid, hl⟩ := hv
      cases o with
      | suspend _ => exact ⟨hid, hl⟩
      | cont _ => exact ih hl hid
      | drop => exact ih hl hid

theorem releaseSlot_obeys (h : l = .finished id .dropped ∨ l = .delivered id) :
    Prog.Obeys (ioProto w) (fun l _ => l.Done) l (releaseSlot id) := by
  refine ⟨h, fun pool _ => ⟨⟨pool, rfl⟩, fun ret hret => ?_⟩⟩
  cases hret
  refine ⟨⟨pool, rfl⟩, fun _ _ => ?_⟩
  cases pool with
  | none => trivial
  | some pool => exact ⟨.inr (.inr rfl), fun _ _ => trivial⟩

theorem finishRun_obeys {run : OrchestratorRun} (h : match run with
      | .suspended => l = .ended
      | .finished out => l = .finished id out) :
    Prog.Obeys (ioProto w) (fun l _ => l.Done) l (finishRun id run) := by
  match run with
  | .suspended =>
    cases h
    trivial
  | .finished .dropped => exact releaseSlot_obeys (.inl h)
  | .finished (.response wire) =>
    cases h
    refine ⟨⟨wire, rfl⟩, fun target _ => ?_⟩
    cases target with
    | none => exact releaseSlot_obeys (.inr rfl)
    | some target => exact ⟨⟨id, rfl⟩, fun _ _ => releaseSlot_obeys (.inr rfl)⟩

theorem runPolicyLoop_obeys :
    Prog.Obeys (ioProto w) (fun l _ => l.Done) (.entered id) (runPolicyLoop w id) := by
  refine ⟨rfl, fun r hr => ?_⟩
  obtain ⟨t, rfl, hid⟩ := hr
  refine ⟨⟨id, none, rfl⟩, fun plan _ => ?_⟩
  change Prog.Obeys (ioProto w) _ (.running id none) (runOrchestrator w plan.2 plan.1 t >>=
    fun v => ioOp (.unlock id v.1 v.2) >>= fun _ => finishRun id v.2)
  refine (runOrchestrator_obeys ⟨none, rfl⟩ hid).seq fun l v hv => ?_
  obtain ⟨t', run⟩ := v
  obtain ⟨hid', hl⟩ := hv
  cases run with
  | suspended =>
    exact ⟨⟨hid', hl⟩, fun _ _ => @finishRun_obeys w id .ended .suspended rfl⟩
  | finished out =>
    refine ⟨⟨hid', hl⟩, fun _ _ => ?_⟩
    exact @finishRun_obeys w id (.finished id out) (.finished out) rfl

theorem policyTurn_obeys : Prog.Obeys (ioProto w) (fun l _ => l.Done) .idle (policyTurn w) := by
  refine ⟨rfl, fun work _ => ?_⟩
  cases work with
  | new id =>
    refine ⟨⟨rfl, .inl ⟨rfl, rfl⟩⟩, fun ok hok => ?_⟩
    cases hok rfl
    exact runPolicyLoop_obeys
  | resume r =>
    refine ⟨rfl, fun ok _ => ?_⟩
    cases ok with
    | true => exact runPolicyLoop_obeys
    | false => trivial
  | lookupResume id n =>
    refine ⟨⟨rfl, .inr ⟨rfl, n, rfl⟩⟩, fun ok _ => ?_⟩
    cases ok with
    | true => exact runPolicyLoop_obeys
    | false => trivial

/-! ## I/O and ingress threads -/

theorem complete_obeys {shard : Nat} {completion : WaitCompletion} :
    Prog.Obeys (ioProto w) (fun l _ => l = .idle) .idle (complete shard key completion) := by
  refine ⟨rfl, fun pending _ => ?_⟩
  cases pending with
  | none => exact rfl
  | some p =>
    exact ⟨.inr (.inr (.inr ⟨p, rfl⟩)), fun _ _ => ⟨⟨p, completion, rfl, rfl⟩, fun _ _ => rfl⟩⟩

theorem handleReply_obeys {shard : Nat} {d : Datagram} :
    Prog.Obeys (ioProto w) (fun l _ => l.Done) .idle (handleReply shard d) := by
  unfold handleReply
  split
  · trivial
  · refine ⟨rfl, fun has _ => ?_⟩
    cases has with
    | true => exact complete_obeys.mono fun _ _ h => by rw [h]; trivial
    | false => trivial

theorem completeLate_obeys {shard : Nat} {keys : List ForwardKey} :
    Prog.Obeys (ioProto w) (fun l _ => l.Done) .idle (completeLate shard keys) := by
  induction keys with
  | nil => trivial
  | cons key rest ih =>
    refine complete_obeys.seq fun l _ hl => ?_
    rw [hl]
    exact ih

theorem admitQuery_obeys {target : ReplyTarget} :
    Prog.Obeys (ioProto w) (fun l _ => l.Done) .idle (admitQuery t target) := by
  refine ⟨rfl, fun r _ => ?_⟩
  cases r with
  | error _ => trivial
  | ok id =>
    refine ⟨rfl, fun _ _ => ⟨rfl, fun ok hok => ?_⟩⟩
    cases hok
    exact ⟨rfl, fun _ _ => ⟨rfl, fun _ _ => trivial⟩⟩

end

/-- Every thread keeps to the order, and ends with nothing left to do. -/
theorem job_obeys (w : SplitWiring) (job : Job) :
    Prog.Obeys (ioProto w) (fun l _ => l.Done) .idle (job.prog w) := by
  cases job with
  | query t target => exact admitQuery_obeys
  | policy => exact policyTurn_obeys
  | reply shard d => exact handleReply_obeys
  | timeouts shard => exact ⟨rfl, fun _ _ => completeLate_obeys⟩
  | moveResume => exact ⟨rfl, fun _ _ => ⟨rfl, fun _ _ => trivial⟩⟩

end Conduit
