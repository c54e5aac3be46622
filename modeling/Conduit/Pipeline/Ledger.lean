import Conduit.Core.Routing
import Conduit.Pipeline.Specs

/-!
# The attempts of a transaction

The ledger of the route stage: the recorded attempts, their count, and the stashed retry pool
(`stages/route.rs`, `Transaction::record_attempt`).

A run of the machine is one of the code if backends are selected by `select_backend`
(`Selects`). The history variable of `ledger` keeps, for each transaction, the snapshots that its
attempts were made with.

- `LedgerEnd`: what the lookup stage does to the ledger.
- `stash`: the retry pool as a mailbox: the rules fill it, and the next retry takes it out.
- `KeepsLimit`: no transaction is resumed with a snapshot that allows fewer attempts than it has made.
- `attempt_ledger`: the invariants of the ledger on every run.
-/

namespace Conduit

open Prog

structure SameLedger (t t' : Transaction) : Prop where
  attempts : t'.attempts = t.attempts
  attemptCount : t'.attemptCount = t.attemptCount
  retryPool : t'.retryPool = t.retryPool
  selectedPool : t'.selectedPool = t.selectedPool

variable {t t' : Transaction}

theorem SameLedger.trans {t'' : Transaction} (h : SameLedger t t') (h' : SameLedger t' t'') :
    SameLedger t t'' :=
  ⟨h'.attempts.trans h.attempts, h'.attemptCount.trans h.attemptCount,
    h'.retryPool.trans h.retryPool, h'.selectedPool.trans h.selectedPool⟩

/-- The pool that route asks for: a retry looks into the stash first. -/
def routePool (t : Transaction) (stash : Option String) : Option String :=
  (if t.attemptCount = 0 then none else stash).or t.selectedPool

def triedIn (t : Transaction) (pool : String) : List String :=
  (t.attempts.filter (·.pool == pool)).map (·.backend)

structure Attempted (snap : RuntimeSnapshot) (t t' : Transaction) (a : AttemptRecord) : Prop where
  attempts : t'.attempts = t.attempts ++ [a]
  attemptCount : t'.attemptCount = t.attemptCount + 1
  within : t.attemptCount < snap.maxAttempts
  pool : (routePool t t.retryPool).or snap.defaultPoolName = some a.pool
  fresh : t.attemptCount > 0 → a.backend ∉ triedIn t a.pool
  retryPool : t'.retryPool = if t.attemptCount = 0 then t.retryPool else none

/-- What the lookup stage does to the ledger. -/
inductive LedgerEnd (snap : RuntimeSnapshot) (t t' : Transaction) (out : StageOutcome) : Prop
  | kept (h : SameLedger t t')
  /-- No pool or no backend: the stash may be gone, but the transaction only goes on to send. -/
  | failed (ha : t'.attempts = t.attempts) (hc : t'.attemptCount = t.attemptCount)
      (ho : out = .cont .send)
  | attempted (a : AttemptRecord) (h : Attempted snap t t' a)

/-! ## The stages -/

def selectAnswers (parse : String → Option String) (snap : RuntimeSnapshot) (t : Transaction) :
    (o : Op) → o.Resp → Prop
  | .selectBackend pool attempt tried, r =>
    ∃ health label, r = (selectBackend parse snap.config.pools pool t.id snap.generation attempt tried
      health).map fun b => (⟨b.1, b.2, label⟩ : SelectedBackend)
  | _, _ => True

section stages

variable {w : Wiring} {parse : String → Option String} {snap : RuntimeSnapshot}
  {t₀ t t₁ : Transaction}

theorem takePoolName_ledger (t : Transaction) (snap : RuntimeSnapshot) :
    ∃ t', takePoolName t snap = (t', (routePool t t.retryPool).or snap.defaultPoolName) ∧
      t'.attempts = t.attempts ∧ t'.attemptCount = t.attemptCount ∧
      t'.retryPool = if t.attemptCount = 0 then t.retryPool else none := by
  unfold takePoolName routePool
  by_cases h0 : t.attemptCount = 0
  · exact ⟨t, by simp [h0], rfl, rfl, by simp [h0]⟩
  · exact ⟨{ t with retryPool := none }, by simp [h0, Nat.pos_of_ne_zero h0], rfl, rfl, by simp [h0]⟩

theorem routeStage_ledger (hmax : t.attemptCount < snap.maxAttempts) :
    Ensures (selectAnswers parse snap t₀)
      (fun r => (∃ a, r.2 = .cont .forward ∧ Attempted snap t r.1 a) ∨
        r.2 = .cont .send ∧ r.1.attempts = t.attempts ∧ r.1.attemptCount = t.attemptCount)
      (routeStage t snap) := by
  obtain ⟨t', htake, ha, hc, hretry⟩ := takePoolName_ledger t snap
  unfold routeStage
  rw [htake]
  cases hp : (routePool t t.retryPool).or snap.defaultPoolName with
  | none => exact .inr ⟨rfl, ha, hc⟩
  | some pool =>
    simp only [call_bind]
    rintro r ⟨health, label, hr⟩
    rw [ha, hc] at hr
    cases r with
    | none => exact .inr ⟨rfl, ha, hc⟩
    | some b =>
      obtain ⟨sel, hsel, rfl⟩ := Option.map_eq_some_iff.mp hr.symm
      obtain ⟨hb, hfresh, -⟩ := selectBackend_spec hsel
      refine .inl ⟨⟨sel.1, sel.2, t'.attemptCount + 1⟩, rfl, ⟨?_, ?_, hmax, ?_, ?_, hretry⟩⟩
      · exact congrArg (· ++ _) ha
      · exact congrArg (· + 1) hc
      · rw [hp, hb]
      · rw [triedIn, hb]
        exact hfresh

theorem forwardStage_ledger (t : Transaction) :
    Ensures (selectAnswers parse snap t₀) (fun r => SameLedger t r.1) (forwardStage w t) := by
  obtain ⟨r4, r6, ht⟩ := takeEffectiveSources_eq t
  unfold forwardStage
  split
  · unfold forwardSync
    simp only [call_bind, ht]
    split
    · intro r _
      cases r with
      | refused | error | timeout => exact ⟨rfl, rfl, rfl, rfl⟩
      | answer wire =>
        simp only [finishResponse, recordUpstreamResponse_eq]
        exact ⟨rfl, rfl, rfl, rfl⟩
    · exact ⟨rfl, rfl, rfl, rfl⟩
  · unfold forwardSubmit
    simp only [call_bind, ht]
    split
    · intro r _
      cases r with
      | refused | error | sent => exact ⟨rfl, rfl, rfl, rfl⟩
    · exact ⟨rfl, rfl, rfl, rfl⟩

theorem finishForwardAnswer_ledger (t : Transaction) :
    Ensures (selectAnswers parse snap t₀) (fun r => SameLedger t r.1) (finishForwardAnswer w t) := by
  obtain ⟨rcode, ht, -, -⟩ := waitResponseStage_eq w.fns.codec t
  unfold finishForwardAnswer
  simp only [ht]
  exact (ensures_true _).seq fun _ _ => ⟨rfl, rfl, rfl, rfl⟩

theorem forwardThenFinish_ledger (t : Transaction) :
    Ensures (selectAnswers parse snap t₀) (fun r => SameLedger t r.1) (forwardThenFinish w t) := by
  unfold forwardThenFinish
  refine (forwardStage_ledger t).seq ?_
  rintro ⟨t₁, out⟩ h
  have hfinish : Ensures (selectAnswers parse snap t₀) (fun r => SameLedger t r.1)
      (finishForwardAnswer w t₁) := (finishForwardAnswer_ledger t₁).mono fun _ => h.trans
  split
  · rename_i heq
    cases heq
    exact ⟨h.attempts, h.attemptCount, h.retryPool, h.selectedPool⟩
  · rename_i heq
    cases heq
    exact hfinish
  · rename_i heq
    cases heq
    exact hfinish
  · rename_i heq
    cases heq
    exact h
  · rename_i heq
    cases heq
    exact h

variable {t' : Transaction} {a : AttemptRecord}

theorem Attempted.of_same (hs : SameLedger t t₁) (h : Attempted snap t₁ t' a) :
    Attempted snap t t' a where
  attempts := hs.attempts ▸ h.attempts
  attemptCount := hs.attemptCount ▸ h.attemptCount
  within := hs.attemptCount ▸ h.within
  pool := by
    rw [← h.pool, routePool, routePool, hs.attemptCount, hs.retryPool, hs.selectedPool]
  fresh := by
    have hf := h.fresh
    rw [triedIn, hs.attempts, hs.attemptCount] at hf
    exact hf
  retryPool := by
    rw [h.retryPool, hs.attemptCount, hs.retryPool]

theorem Attempted.then_same (h : Attempted snap t t₁ a) (hs : SameLedger t₁ t') :
    Attempted snap t t' a where
  attempts := hs.attempts.trans h.attempts
  attemptCount := hs.attemptCount.trans h.attemptCount
  within := h.within
  pool := h.pool
  fresh := h.fresh
  retryPool := hs.retryPool.trans h.retryPool

theorem runForwardChain_ledger (hs : SameLedger t t₁) :
    Ensures (selectAnswers parse snap t₀) (fun r => LedgerEnd snap t r.1 r.2)
      (runForwardChain w t₁ snap) := by
  have hs : SameLedger t { t₁ with cacheLookupEligible := false } :=
    ⟨hs.attempts, hs.attemptCount, hs.retryPool, hs.selectedPool⟩
  unfold runForwardChain
  simp only
  split
  · exact .kept ⟨hs.attempts, hs.attemptCount, hs.retryPool, hs.selectedPool⟩
  · rename_i hmax
    refine (routeStage_ledger (t := { t₁ with cacheLookupEligible := false })
      (Nat.lt_of_not_le hmax)).seq ?_
    rintro ⟨t₂, out⟩ (⟨a, hout, h⟩ | ⟨hout, ha, hc⟩)
    · cases hout
      exact (forwardThenFinish_ledger t₂).mono fun _ h' =>
        .attempted a ((h.of_same hs).then_same h')
    · cases hout
      exact .failed (ha.trans hs.attempts) (hc.trans hs.attemptCount) rfl

theorem applyCacheHit_ledger (c : Codec) (t : Transaction) (wire : Wire) (name : String)
    (skip : Bool) : SameLedger t (applyCacheHit c t wire name skip).1 := by
  simp only [applyCacheHit, recordUpstreamResponse_eq]
  exact ⟨rfl, rfl, rfl, rfl⟩

theorem runProviders_ledger (providers : List CompiledLookupProvider) (hs : SameLedger t t₁) :
    Ensures (selectAnswers parse snap t₀) (fun r => LedgerEnd snap t r.1 r.2)
      (runProviders w snap providers t₁) := by
  induction providers generalizing t₁ with
  | nil => exact .kept ⟨hs.attempts, hs.attemptCount, hs.retryPool, hs.selectedPool⟩
  | cons provider rest ih =>
    cases provider with
    | forward => exact runForwardChain_ledger hs
    | cache cacheName =>
      unfold runProviders
      split
      · unfold tryCacheProvider
        split
        · refine Ensures.bind ((ensures_true _).seq fun out _ => ?_)
          show Ensures _ _ _
          cases out with
          | hit wire name skip => exact .kept (hs.trans (applyCacheHit_ledger _ _ _ _ _))
          | miss key gate =>
            exact ih ⟨hs.attempts, hs.attemptCount, hs.retryPool, hs.selectedPool⟩
          | waitAsync key =>
            exact .kept ⟨hs.attempts, hs.attemptCount, hs.retryPool, hs.selectedPool⟩
          | bypass => exact ih hs
        · exact ih hs
      · exact ih hs

theorem lookupStage_ledger :
    Ensures (selectAnswers parse snap t₀) (fun r => LedgerEnd snap t r.1 r.2)
      (lookupStage w t snap) := by
  unfold lookupStage
  split
  · have hs : SameLedger t { t with lookupCacheWait := none } := ⟨rfl, rfl, rfl, rfl⟩
    unfold resumeCacheWait
    split
    · refine (ensures_true _).seq fun out _ => ?_
      split
      · exact .kept (hs.trans (applyCacheHit_ledger _ _ _ _ _))
      · exact runForwardChain_ledger ⟨rfl, rfl, rfl, rfl⟩
    · exact runForwardChain_ledger ⟨rfl, rfl, rfl, rfl⟩
  · split
    · exact (finishForwardAnswer_ledger _).mono fun _ h =>
        .kept ⟨h.attempts, h.attemptCount, h.retryPool, h.selectedPool⟩
    · split
      · exact .kept ⟨rfl, rfl, rfl, rfl⟩
      · exact runProviders_ledger _ ⟨rfl, rfl, rfl, rfl⟩

end stages

/-- What the stage of a phase does to the ledger. -/
inductive StageLedger (snap : RuntimeSnapshot) (t t' : Transaction) : Phase → StageOutcome → Prop
  | other {phase : Phase} {out : StageOutcome} (h : SameLedger t t') (hp : phase = .parse) :
      StageLedger snap t t' phase out
  | rules {phase : Phase} {out : StageOutcome} (ha : t'.attempts = t.attempts)
      (hc : t'.attemptCount = t.attemptCount)
      (hp : phase = .requestRules ∨ phase = .responseRules) : StageLedger snap t t' phase out
  | lookup {out : StageOutcome} (h : LedgerEnd snap t t' out) : StageLedger snap t t' .lookup out
  | send (h : SameLedger t t') : StageLedger snap t t' .send (.cont .send)

theorem PolicyEq.ledger {hook : RuleHook} (h : PolicyEq hook t t') :
    t'.attempts = t.attempts ∧ t'.attemptCount = t.attemptCount := by
  obtain ⟨_, _, _, _, _, _, _, _, _, _, _, _, rfl⟩ := h
  exact ⟨rfl, rfl⟩

theorem parseStage_ledger (c : Codec) (t : Transaction) : SameLedger t (parseStage c t).1 := by
  unfold parseStage
  split <;> split <;> exact ⟨rfl, rfl, rfl, rfl⟩

variable {w : Wiring} {parse : String → Option String}

theorem runStage_ledger {snap : RuntimeSnapshot} {phase : Phase}
    {p : StageProg (Transaction × StageOutcome)} (h : runStage w t snap phase = some p) :
    Ensures (selectAnswers parse snap t) (fun r => StageLedger snap t r.1 phase r.2) p := by
  cases phase with
  | parse =>
    cases h
    exact .other (parseStage_ledger _ t) rfl
  | requestRules =>
    cases h
    refine (requestRulesStage_ensures (w := w) t snap).mono fun r hr => ?_
    cases hr with
    | requestRules hp _ => exact .rules hp.ledger.1 hp.ledger.2 (.inl rfl)
  | lookup =>
    cases h
    exact lookupStage_ledger.mono fun _ h => .lookup h
  | responseRules =>
    cases h
    refine (responseRulesStage_ensures (w := w) t snap).mono fun r hr => ?_
    cases hr with
    | responseRules hp _ => exact .rules hp.ledger.1 hp.ledger.2 (.inr rfl)
  | send =>
    cases h
    obtain ⟨flag, hs⟩ := sendStage_eq w.fns.codec t
    refine .send ?_
    rw [hs]
    exact ⟨rfl, rfl, rfl, rfl⟩
  | receive | route | forward | waitResponse => cases h

/-! ## Runs -/

/-- Backends are selected by `select_backend`, for any health of the pools. -/
def Selects (parse : String → Option String) (s : State) : Act → Prop
  | .op t env => ∀ th ∈ s.threads t, ∀ pool attempt tried,
    th.nextOp = some (.selectBackend pool attempt tried) →
      selectAnswers parse th.snap th.txn (.selectBackend pool attempt tried) env.backend
  | _ => True

/-- In a stage, every return is one that `StageLedger` allows. -/
def Thread.Accounted (parse : String → Option String) (th : Thread) : Prop :=
  ∀ phase late before p, th.pos = .running phase late before p →
    th.txn = before ∧ before.currentPhase = phase ∧
      Ensures (selectAnswers parse th.snap before)
        (fun r => StageLedger th.snap before r.1 phase r.2) p

variable {th : Thread}

theorem Thread.accounted_of (h : ∀ ph l b p, th.pos ≠ .running ph l b p) : th.Accounted parse :=
  fun _ _ _ _ hp => absurd hp (h _ _ _ _)

theorem Thread.enter_accounted (hp : th.pos = .top) (late : Bool) :
    (th.enter w late).Accounted parse := by
  unfold Thread.enter
  simp only
  split
  · rename_i p hrun
    intro phase l before q hpos
    cases hpos
    exact ⟨rfl, rfl, runStage_ledger hrun⟩
  · refine accounted_of fun ph l b p h => ?_
    simp [hp] at h

variable {s : State}

/-- **All stages account for their attempts**, on every run that selects by `select_backend`. -/
theorem accounted_reach (h : (machine w).Reach (Selects parse) s) :
    ∀ t th, s.threads t = some th → th.Accounted parse := by
  refine Lts.Reach.inv (L := machine w)
    (P := fun s : State => ∀ t th, s.threads t = some th → th.Accounted parse) ?_ ?_ h
  · rintro s ⟨snap, instances, nextInst, rfl⟩ t th ht
    cases ht
  · intro (s : State) a s' _ ih hc hs
    have only {t : Tid} {th' : Thread} {s' : State}
        (ht : s'.threads = (s.setThread t th').threads) (hth : th'.Accounted parse) :=
      forall_threads_set ht hth fun u thu _ => ih u thu
    cases step_cases hs with
    | start hq => exact only rfl (Thread.accounted_of (by simp [Thread.start]))
    | enter late ht hp => exact only rfl (Thread.enter_accounted hp late)
    | @op t th env phase late before o k r shared ht hp hsem =>
      refine only rfl ?_
      obtain ⟨htxn, hphase, hens⟩ := ih _ _ ht _ _ _ _ hp
      intro ph l b p hpos
      cases hpos
      refine ⟨htxn, hphase, hens r ?_⟩
      -- only the selection of a backend is asked for its answer
      cases o <;> try trivial
      case selectBackend pool attempt tried =>
        have hsel := hc th ht pool attempt tried (by rw [Thread.nextOp, hp])
        rw [htxn] at hsel
        cases hsem
        exact hsel
    | ret ht hp => exact only rfl (Thread.accounted_of (Thread.leave_pos _ _ _ _ _ _))
    | resumeIo | resumeLookup => exact only rfl (Thread.accounted_of (by simp [Thread.resume]))
    | install | dropInstance | addInstance => exact ih

/-! ## The retry pool -/

/-- A rule run leaves the retry pool of its transaction in the mailbox; a retry that records an
attempt takes it out; nothing else touches it. -/
def stashNext (st : Option String) (r : StageRun) : Option String :=
  if r.phase = .requestRules ∨ r.phase = .responseRules then r.after.retryPool
  else if 0 < r.before.attemptCount ∧ r.before.attemptCount < r.after.attemptCount then none
  else st

def stash (log : List StageRun) : Option String := log.foldl stashNext none

/-- The stage run `r`, after the runs `pre`, finds in the retry pool what is in the mailbox, and
records at most one attempt, with the snapshot that `made` has for it. The first attempt goes to the
selected pool, a retry goes to the pool in the mailbox if there is one, and without any of these the
attempt goes to the default pool. -/
def Uses (made : List RuntimeSnapshot) (pre : List StageRun) (r : StageRun) : Prop :=
  (r.phase = .send ∨ r.before.retryPool = stash pre) ∧
    (r.after.attempts = r.before.attempts ∨
      ∃ a snap, r.after.attempts = r.before.attempts ++ [a] ∧
        made[r.before.attempts.length]? = some snap ∧
        (routePool r.before (stash pre)).or snap.defaultPoolName = some a.pool)

/-- The snapshots after a stage run that may have recorded an attempt. -/
def madeNext (snap : RuntimeSnapshot) (before after : Transaction) (made : List RuntimeSnapshot) :
    List RuntimeSnapshot :=
  if before.attemptCount < after.attemptCount then made ++ [snap] else made

/-- The snapshots that the attempts of each transaction were made with. -/
def nextMade (s : State) (a : Act) (made : Tid → List RuntimeSnapshot) :
    Tid → List RuntimeSnapshot :=
  match a with
  | .ret t =>
    match s.threads t with
    | some th =>
      match th.ended with
      | some r => Function.update made t (madeNext th.snap r.before r.after (made t))
      | none => made
    | none => made
  | _ => made

/-- The machine with the snapshots of the attempts as a history variable. -/
abbrev ledger (w : Wiring) : Lts := (machine w).record (fun _ => []) nextMade

/-- The transaction only goes on to send. -/
def Thread.AtSend (th : Thread) : Prop := th.pos ≠ .suspended ∧ th.txn.currentPhase = .send

structure AttemptLedger (w : Wiring) (made : List RuntimeSnapshot) (th : Thread) : Prop where
  length : th.txn.attempts.length = th.txn.attemptCount
  made_length : made.length = th.txn.attemptCount
  within : ∀ k snap, made[k]? = some snap → k + 1 ≤ snap.maxAttempts
  /-- The synchronous runtime keeps the snapshot of a transaction. -/
  own : w.runtime = .sync → ∀ snap ∈ made, snap = th.snap
  distinct : (th.txn.attempts.map fun a => (a.pool, a.backend)).Nodup
  mail : (∃ out, th.pos = .finished out) ∨ th.AtSend ∨ th.txn.retryPool = stash th.log
  uses : ∀ pre r post, th.log = pre ++ r :: post → Uses made pre r

namespace AttemptLedger

variable {w : Wiring} {made : List RuntimeSnapshot} {th : Thread} {phase : Phase} {late : Bool}
  {before after : Transaction} {out : StageOutcome}

theorem leave_same (th : Thread) (phase : Phase) (late : Bool) (before after : Transaction)
    (out : StageOutcome) : SameLedger after (th.leave phase late before after out).txn ∧
      (th.leave phase late before after out).snap = th.snap ∧
      (th.leave phase late before after out).log =
        th.log ++ [⟨phase, th.snap.generation, late, before, after, out⟩] := by
  cases out with
  | drop | suspend _ => exact ⟨⟨rfl, rfl, rfl, rfl⟩, rfl, rfl⟩
  | cont next =>
    simp only [Thread.leave]
    split <;> exact ⟨⟨rfl, rfl, rfl, rfl⟩, rfl, rfl⟩

theorem mail_leave (hs : StageLedger th.snap before after phase out)
    (hmail : phase = .send ∨ before.retryPool = stash th.log) :
    (∃ o, (th.leave phase late before after out).pos = .finished o) ∨
      (th.leave phase late before after out).AtSend ∨
      after.retryPool = stash (th.log ++ [⟨phase, th.snap.generation, late, before, after, out⟩]) := by
  rw [stash, List.foldl_append]
  simp only [List.foldl_cons, List.foldl_nil, stashNext]
  cases hs with
  | other h hp =>
    subst hp
    rcases hmail with hmail | hmail
    · cases hmail
    · simp [h.attemptCount, h.retryPool, hmail, stash]
  | rules ha hc hp => simp [hp]
  | send h => exact .inl ⟨_, rfl⟩
  | lookup h =>
    rcases hmail with hmail | hmail
    · cases hmail
    cases h with
    | kept h => simp [h.attemptCount, h.retryPool, hmail, stash]
    | failed ha hc ho =>
      subst ho
      exact .inr (.inl (by simp [Thread.leave, Thread.AtSend]))
    | attempted a h =>
      rw [h.retryPool, h.attemptCount]
      by_cases h0 : before.attemptCount = 0
      · simp [h0, hmail, stash]
      · simp [h0, Nat.pos_of_ne_zero h0]

theorem uses_leave (hlen : made.length = before.attempts.length)
    (hs : StageLedger th.snap before after phase out)
    (hmail : phase = .send ∨ before.retryPool = stash th.log) :
    Uses (madeNext th.snap before after made) th.log
      ⟨phase, th.snap.generation, late, before, after, out⟩ := by
  refine ⟨hmail, ?_⟩
  cases hs with
  | other h hp => exact .inl h.attempts
  | rules ha hc hp => exact .inl ha
  | send h => exact .inl h.attempts
  | lookup h =>
    cases h with
    | kept h => exact .inl h.attempts
    | failed ha hc ho => exact .inl ha
    | attempted a h =>
      refine .inr ⟨a, th.snap, h.attempts, ?_, ?_⟩
      · rw [madeNext, if_pos (by rw [h.attemptCount]; omega), ← hlen]
        simp
      · rw [← hmail.resolve_left (by simp)]
        exact h.pool

/-- What was used stays used when more attempts are made. -/
theorem uses_madeNext {pre : List StageRun} {r : StageRun} (h : Uses made pre r)
    (snap : RuntimeSnapshot) : Uses (madeNext snap before after made) pre r := by
  obtain ⟨hmail, h | ⟨a, snap', ha, hmade, hpool⟩⟩ := h
  · exact ⟨hmail, .inl h⟩
  · refine ⟨hmail, .inr ⟨a, snap', ha, ?_, hpool⟩⟩
    unfold madeNext
    split
    · rw [List.getElem?_append_left (List.getElem?_eq_some_iff.mp hmade).1]
      exact hmade
    · exact hmade

/-- A stage counts at most one attempt, within the limit. -/
theorem count_leave {snap : RuntimeSnapshot} (hs : StageLedger snap before after phase out) :
    after.attemptCount = before.attemptCount ∨
      after.attemptCount = before.attemptCount + 1 ∧ before.attemptCount < snap.maxAttempts := by
  cases hs with
  | other h hp | send h => exact .inl h.attemptCount
  | rules ha hc hp => exact .inl hc
  | lookup h =>
    cases h with
    | kept h => exact .inl h.attemptCount
    | failed ha hc ho => exact .inl hc
    | attempted a h => exact .inr ⟨h.attemptCount, h.within⟩

theorem attempts_leave (h : AttemptLedger w made th) (htxn : th.txn = before)
    (hs : StageLedger th.snap before after phase out) :
    after.attempts.length = after.attemptCount ∧
      (after.attempts.map fun a => (a.pool, a.backend)).Nodup := by
  have hlen := htxn ▸ h.length
  have hdist := htxn ▸ h.distinct
  have same : after.attempts = before.attempts → after.attemptCount = before.attemptCount →
      after.attempts.length = after.attemptCount ∧
        (after.attempts.map fun a => (a.pool, a.backend)).Nodup := by
    intro ha hc
    rw [ha, hc]
    exact ⟨hlen, hdist⟩
  cases hs with
  | other h hp | send h => exact same h.attempts h.attemptCount
  | rules ha hc hp => exact same ha hc
  | lookup h =>
    cases h with
    | kept h => exact same h.attempts h.attemptCount
    | failed ha hc ho => exact same ha hc
    | attempted a h =>
      rw [h.attempts, h.attemptCount]
      refine ⟨by simp [hlen], ?_⟩
      rw [List.map_append, List.nodup_append]
      refine ⟨hdist, by simp, ?_⟩
      -- the first attempt has no other before it, and a retry skips what was tried
      rintro _ hmem _ hnew rfl
      obtain ⟨x, hx, hkey⟩ := List.mem_map.mp hmem
      have hnew : x.pool = a.pool ∧ x.backend = a.backend := by
        rw [List.map_cons, List.map_nil, List.mem_singleton, ← hkey] at hnew
        exact Prod.mk.inj hnew
      have hpos : before.attemptCount > 0 := hlen ▸ List.length_pos_of_mem hx
      refine h.fresh hpos (List.mem_map.mpr ⟨x, List.mem_filter.mpr ⟨hx, ?_⟩, hnew.2⟩)
      simpa using hnew.1

theorem leave (h : AttemptLedger w made th)
    (hpos : th.pos = .running phase late before (.ret (after, out)))
    (htxn : th.txn = before) (hphase : before.currentPhase = phase)
    (hs : StageLedger th.snap before after phase out) :
    AttemptLedger w (madeNext th.snap before after made) (th.leave phase late before after out) := by
  obtain ⟨hsame, hsnap, hlog⟩ := leave_same th phase late before after out
  obtain ⟨hlen, hdist⟩ := h.attempts_leave htxn hs
  have hcount := count_leave hs
  have hmade : made.length = before.attemptCount := htxn ▸ h.made_length
  have hmail : phase = .send ∨ before.retryPool = stash th.log := by
    rcases h.mail with ⟨o, ho⟩ | hsend | hmail
    · rw [hpos] at ho
      cases ho
    · exact .inl (hphase.symm.trans (htxn ▸ hsend.2))
    · exact .inr (htxn ▸ hmail)
  constructor
  · rw [hsame.attempts, hsame.attemptCount, hlen]
  · rw [hsame.attemptCount, madeNext]
    rcases hcount with hcount | ⟨hcount, -⟩
    · simp [hcount, hmade]
    · simp [hcount, hmade]
  · intro k snap hk
    rcases hcount with hcount | ⟨hcount, hmax⟩
    · rw [madeNext, if_neg (by omega)] at hk
      exact h.within k snap hk
    · rw [madeNext, if_pos (by omega)] at hk
      rcases Nat.lt_trichotomy k made.length with hlt | heq | hgt
      · rw [List.getElem?_append_left hlt] at hk
        exact h.within k snap hk
      · rw [heq, List.getElem?_concat_length] at hk
        cases hk
        omega
      · rw [List.getElem?_eq_none (by simp; omega)] at hk
        cases hk
  · intro hsync snap hmem
    rw [hsnap]
    unfold madeNext at hmem
    split at hmem
    · rcases List.mem_append.mp hmem with hmem | hmem
      · exact h.own hsync snap hmem
      · exact List.mem_singleton.mp hmem
    · exact h.own hsync snap hmem
  · rw [hsame.attempts]
    exact hdist
  · rw [hsame.retryPool, hlog]
    exact mail_leave hs hmail
  · intro pre r post hsplit
    rw [hlog] at hsplit
    -- the new stage run is the last of the log
    rcases List.eq_nil_or_concat post with rfl | ⟨post', x, rfl⟩
    · obtain ⟨rfl, hr⟩ := List.append_inj' hsplit rfl
      cases hr
      exact uses_leave (hmade.trans (htxn ▸ h.length).symm) hs hmail
    · rw [List.concat_eq_append, ← List.cons_append, ← List.append_assoc] at hsplit
      exact uses_madeNext (h.uses pre r post' (List.append_inj' hsplit rfl).1) th.snap

theorem start (t : Transaction) (snap : RuntimeSnapshot) (ha : t.attempts = [])
    (hc : t.attemptCount = 0) (hr : t.retryPool = none) : AttemptLedger w [] (Thread.start t snap) where
  length := by simp [Thread.start, ha, hc]
  made_length := by simp [Thread.start, hc]
  within := by simp
  own := by simp
  distinct := by simp [Thread.start, ha]
  mail := .inr (.inr hr)
  uses pre r post h := by simp [Thread.start] at h

/-- Between two stages, the ledger and the log stay. -/
theorem between {th' : Thread} (h : AttemptLedger w made th) (hfin : ∀ out, th.pos ≠ .finished out)
    (hsame : SameLedger th.txn th'.txn) (hlog : th'.log = th.log)
    (hsnap : w.runtime = .sync → th'.snap = th.snap)
    (hsend : th.AtSend → th'.AtSend) : AttemptLedger w made th' where
  length := by rw [hsame.attempts, hsame.attemptCount, h.length]
  made_length := h.made_length.trans hsame.attemptCount.symm
  within := h.within
  own hsync := by
    rw [hsnap hsync]
    exact h.own hsync
  distinct := hsame.attempts ▸ h.distinct
  mail := by
    rw [hsame.retryPool, hlog]
    rcases h.mail with ⟨out, ho⟩ | hat | hmail
    · exact absurd ho (hfin out)
    · exact .inr (.inl (hsend hat))
    · exact .inr (.inr hmail)
  uses := hlog ▸ h.uses

theorem enter (h : AttemptLedger w made th) (hpos : th.pos = .top) (late : Bool) :
    AttemptLedger w made (th.enter w late) := by
  have hdead : SameLedger th.txn (Thread.checkDeadline th.txn late) ∧
      (th.txn.currentPhase = .send → (Thread.checkDeadline th.txn late).currentPhase = .send) := by
    cases late with
    | true => exact ⟨⟨rfl, rfl, rfl, rfl⟩, fun _ => rfl⟩
    | false => exact ⟨⟨rfl, rfl, rfl, rfl⟩, id⟩
  obtain ⟨hsame, hsend⟩ := hdead
  have hfin : ∀ out, th.pos ≠ .finished out := by simp [hpos]
  unfold Thread.enter
  simp only
  split
  · exact h.between hfin hsame rfl (fun _ => rfl) fun hat => ⟨by simp, hsend hat.2⟩
  · refine h.between hfin ⟨hsame.attempts, hsame.attemptCount, hsame.retryPool, hsame.selectedPool⟩
      rfl (fun _ => rfl) fun hat => ⟨by simp [hpos], ?_⟩
    simp only [hsend hat.2, nextPhase]

theorem resume (h : AttemptLedger w made th) (hpos : th.pos = .suspended) (hsplit : w.runtime = .splitIo)
    {t : Transaction} (hsame : SameLedger th.txn t) (snap : RuntimeSnapshot) :
    AttemptLedger w made (th.resume t snap) := by
  refine h.between (by simp [hpos]) ?_ rfl (fun hsync => ?_) fun hat => absurd hpos hat.1
  · exact ⟨hsame.attempts, hsame.attemptCount, hsame.retryPool, hsame.selectedPool⟩
  · rw [hsplit] at hsync
    cases hsync

end AttemptLedger

theorem applyWaitCompletion_ledger (t : Transaction) (c : WaitCompletion) :
    SameLedger t (applyWaitCompletion t c) := by
  cases c <;> exact ⟨rfl, rfl, rfl, rfl⟩

theorem ingress_ledger {q : Ingress} (h : q.transaction w = some t) :
    t.attempts = [] ∧ t.attemptCount = 0 ∧ t.retryPool = none := by
  unfold Ingress.transaction at h
  cases hr : w.runtime with
  | sync =>
    simp only [hr, Option.some.injEq] at h
    subst h
    split <;> exact ⟨rfl, rfl, rfl⟩
  | splitIo =>
    simp only [hr] at h
    split at h
    · cases h
      split <;> exact ⟨rfl, rfl, rfl⟩
    · cases h

/-- The ledgers of all transactions; a transaction that has not started has made no attempt. -/
structure AttemptLedgers (w : Wiring) (s : State) (made : Tid → List RuntimeSnapshot) : Prop where
  fresh : ∀ t, s.nextTid ≤ t → s.threads t = none ∧ made t = []
  ledger : ∀ t th, s.threads t = some th → AttemptLedger w (made t) th

variable {s' : State} {made : Tid → List RuntimeSnapshot}

theorem AttemptLedgers.set {made' : Tid → List RuntimeSnapshot} {t : Tid} {th' : Thread}
    (h : AttemptLedgers w s made) (ht : s.threads t = some th)
    (hthreads : s'.threads = (s.setThread t th').threads) (hnext : s'.nextTid = s.nextTid)
    (hmade : ∀ u, u ≠ t → made' u = made u) (hth : AttemptLedger w (made' t) th') :
    AttemptLedgers w s' made' := by
  constructor
  · intro u hu
    rw [hnext] at hu
    obtain ⟨hnone, hnil⟩ := h.fresh u hu
    have hne : u ≠ t := by
      rintro rfl
      rw [hnone] at ht
      cases ht
    rw [hthreads, threads_setThread, if_neg hne, hmade u hne]
    exact ⟨hnone, hnil⟩
  · refine forall_threads_set hthreads hth fun u thu hne hu => ?_
    rw [hmade u hne]
    exact h.ledger u thu hu

theorem AttemptLedgers.start {w : Wiring} {s : State} {made : Tid → List RuntimeSnapshot} {q : Ingress}
    {t : Transaction} (h : AttemptLedgers w s made) (hq : q.transaction w = some t) :
    AttemptLedgers w { s.setThread s.nextTid (Thread.start t s.current) with nextTid := s.nextTid + 1 }
      made := by
  obtain ⟨ha, hc, hr⟩ := ingress_ledger hq
  constructor
  · intro u hu
    have hu : s.nextTid + 1 ≤ u := hu
    obtain ⟨hnone, hnil⟩ := h.fresh u (Nat.le_of_succ_le hu)
    refine ⟨?_, hnil⟩
    show (s.setThread s.nextTid _).threads u = none
    rw [threads_setThread, if_neg (Nat.ne_of_gt hu)]
    exact hnone
  · refine forall_threads_set rfl ?_ fun u thu _ => h.ledger u thu
    rw [(h.fresh _ (Nat.le_refl _)).2]
    exact .start _ _ ha hc hr

/-- A step of the machine keeps the ledgers. -/
theorem ledgers_step {a : Act} (hacc : ∀ t th, s.threads t = some th → th.Accounted parse)
    (h : AttemptLedgers w s made) (he : step w s a = some s') :
    AttemptLedgers w s' (nextMade s a made) := by
  cases step_cases he with
  | start hq => exact h.start hq
  | enter late ht hp =>
    exact h.set ht rfl rfl (fun _ _ => rfl) ((h.ledger _ _ ht).enter hp late)
  | op ht hp hsem =>
    refine h.set ht rfl rfl (fun _ _ => rfl) ?_
    exact (h.ledger _ _ ht).between (by simp [hp]) ⟨rfl, rfl, rfl, rfl⟩ rfl (fun _ => rfl)
      fun hat => ⟨by simp, hat.2⟩
  | @ret t th phase late before after out ht hp =>
    obtain ⟨htxn, hphase, hs⟩ := hacc _ _ ht _ _ _ _ hp
    have hended : th.ended = some ⟨phase, th.snap.generation, late, before, after, out⟩ := by
      rw [Thread.ended, hp]
    have hmade : nextMade s (.ret t) made =
        Function.update made t (madeNext th.snap before after (made t)) := by
      simp only [nextMade, ht, hended]
    rw [hmade]
    refine h.set ht rfl rfl (fun u hu => Function.update_of_ne hu _ _) ?_
    rw [Function.update_self]
    exact (h.ledger _ _ ht).leave hp htxn hphase hs
  | resumeIo c ht hp hsplit =>
    exact h.set ht rfl rfl (fun _ _ => rfl)
      ((h.ledger _ _ ht).resume hp hsplit (applyWaitCompletion_ledger _ c) _)
  | resumeLookup ht hp hsplit hq =>
    exact h.set ht rfl rfl (fun _ _ => rfl)
      ((h.ledger _ _ ht).resume hp hsplit ⟨rfl, rfl, rfl, rfl⟩ _)
  | install | dropInstance | addInstance => exact ⟨h.fresh, h.ledger⟩

/-! ## The limit -/

/-- A transaction is resumed with a snapshot whose `max_attempts` is not below the attempts that the
transaction has made. -/
def KeepsLimit (s : State) : Act → Prop
  | .resumeIo t _ | .resumeLookup t => ∀ th ∈ s.threads t, th.txn.attemptCount ≤ s.current.maxAttempts
  | _ => True

instance (s : State) : (a : Act) → Decidable (KeepsLimit s a)
  | .resumeIo _ _ | .resumeLookup _ => inferInstanceAs (Decidable (∀ th ∈ _, _))
  | .start _ | .enter _ _ | .op _ _ | .ret _ | .install _ | .dropInstance _ | .addInstance _ =>
    .isTrue trivial

def Thread.WithinLimit (th : Thread) : Prop := th.txn.attemptCount ≤ th.snap.maxAttempts

theorem Thread.WithinLimit.enter (h : th.WithinLimit) (late : Bool) :
    (th.enter w late).WithinLimit := by
  have hcount : (Thread.checkDeadline th.txn late).attemptCount = th.txn.attemptCount := by
    cases late <;> rfl
  have hle : (Thread.checkDeadline th.txn late).attemptCount ≤ th.snap.maxAttempts := hcount ▸ h
  unfold Thread.enter
  simp only
  split <;> exact hle

theorem withinLimit_reach
    (h : (machine w).Reach (fun s a => Selects parse s a ∧ KeepsLimit s a) s) :
    ∀ t th, s.threads t = some th → th.WithinLimit := by
  refine Lts.Reach.inv (L := machine w) (C := fun s a => Selects parse s a ∧ KeepsLimit s a)
    (P := fun s : State => ∀ t th, s.threads t = some th → th.WithinLimit) ?_ ?_ h
  · rintro s ⟨snap, instances, nextInst, rfl⟩ t th ht
    cases ht
  · intro (s : State) a s' hreach ih hc hs
    have hacc := accounted_reach (hreach.mono fun _ _ hc => hc.1)
    have only {t : Tid} {th' : Thread} {s' : State}
        (ht : s'.threads = (s.setThread t th').threads) (hth : th'.WithinLimit) :=
      forall_threads_set ht hth fun u thu _ => ih u thu
    cases step_cases hs with
    | start hq =>
      refine only rfl ?_
      show _ ≤ _
      rw [Thread.start, (ingress_ledger hq).2.1]
      exact Nat.zero_le _
    | enter late ht hp => exact only rfl ((ih _ _ ht).enter late)
    | op ht hp hsem =>
      have hle := ih _ _ ht
      exact only rfl hle
    | @ret t th phase late before after out ht hp =>
      obtain ⟨htxn, -, hstage⟩ := hacc _ _ ht _ _ _ _ hp
      obtain ⟨hsame, hsnap, -⟩ := AttemptLedger.leave_same th phase late before after out
      have hle : before.attemptCount ≤ th.snap.maxAttempts := htxn ▸ ih _ _ ht
      refine only rfl ?_
      rw [Thread.WithinLimit, hsame.attemptCount, hsnap]
      have hcount : after.attemptCount = before.attemptCount ∨
        after.attemptCount = before.attemptCount + 1 ∧ _ := AttemptLedger.count_leave hstage
      omega
    | resumeIo c ht hp hsplit =>
      refine only rfl ?_
      have hle := hc.2 _ ht
      rw [← (applyWaitCompletion_ledger _ c).attemptCount] at hle
      exact hle
    | resumeLookup ht hp hsplit hq =>
      have hle := hc.2 _ ht
      exact only rfl hle
    | install | dropInstance | addInstance => exact ih

def sampleRetryPool : RuntimeSnapshot where
  config := { pools := [
    { name := "default", backends := [{ address := "192.0.2.1:53" }] },
    { name := "backup", backends := [{ address := "192.0.2.2:53" }] }] }
  rules := [{ hook := .response, actions := [.setRetryPool "backup", .retry] }]
  profiles := fun _ => some ⟨"default", [.forward]⟩

/-- The selection of a pool without health, as a test. -/
def selectsPlain (s : State) : Act → Bool
  | .op t env =>
    match s.threads t with
    | some th =>
      match th.nextOp with
      | some (.selectBackend pool attempt tried) =>
        env.backend == (selectBackend some th.snap.config.pools pool th.txn.id th.snap.generation
          attempt tried none).map fun b => ⟨b.1, b.2, "b"⟩
      | _ => true
    | none => true
  | _ => true

theorem selects_of_plain {a : Act} (h : selectsPlain s a = true) : Selects some s a := by
  cases a with
  | op t env =>
    intro th ht pool attempt tried hop
    rw [Option.mem_def] at ht
    simp only [selectsPlain, ht, hop, beq_iff_eq] at h
    exact ⟨none, "b", h⟩
  | _ => trivial

/-- Two attempts of one query, each of them submitted; the second one waits. -/
def sampleTwoAttempts : List Act :=
  [Act.start (sampleQuery 7)] ++ toLookup 0 ++
    [Act.op 0 { backend := some ⟨"default", "192.0.2.1:53", "b"⟩ },
      Act.op 0 { submitted := .sent }, Act.ret 0,
      Act.resumeIo 0 (.response [0, 0, 128, 0]), Act.enter 0 false, Act.ret 0] ++
    sampleRules ++
    [Act.op 0 { backend := some ⟨"backup", "192.0.2.2:53", "b"⟩ },
      Act.op 0 { submitted := .sent }, Act.ret 0]

end Conduit
