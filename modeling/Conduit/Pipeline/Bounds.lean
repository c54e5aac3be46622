import Conduit.Pipeline.Specs

/-!
# How often a transaction looks up

The retry loop of the synchronous runtime. Only a forward counts an attempt, so the retry of an
answer of a cache instance is not counted (`bounded_broken`). If retries are asked for answers of
the forward provider only, one call of `Orchestrator::run` runs the lookup stage at most
`max_attempts + 1` times and comes to an end (`bounded_of_counted`).

- `Budget`: the invariant, by phase: the lookups so far against the attempts, and the stage runs
  against the lookups.
- `Turn`: the steps of one transaction, with anything the other transactions do in between.
-/

namespace Conduit

open Prog

def lookupsIn (log : List StageRun) : Nat := log.countP (·.phase == .lookup)

/-- The number of times that the transaction has entered the lookup stage. -/
def Thread.lookups (th : Thread) : Nat :=
  lookupsIn th.log + match th.pos with
    | .running .lookup _ _ _ => 1
    | _ => 0

/-- A retry is asked for an answer of the forward provider. -/
def Counted (r : StageRun) : Prop :=
  r.retry → r.before.lookupOutcome = some .answered ∧ r.before.answerSource = some .forward

instance : DecidablePred Counted := fun r => by dsimp only [Counted]; infer_instance

/-- The lookups so far and the attempts, at each point of the loop. -/
def Budget (th : Thread) : Prop :=
  let max := th.snap.maxAttempts
  match th.pos with
  | .top =>
    match th.txn.currentPhase with
    | .parse => th.log = [] ∧ th.txn.lookupForwardStep ≠ some .wait
    | .requestRules =>
      lookupsIn th.log = 0 ∧ th.log.length ≤ 1 ∧ th.txn.lookupForwardStep ≠ some .wait
    | .lookup =>
      -- every lookup before this one has counted an attempt
      lookupsIn th.log ≤ th.txn.attemptCount ∧ lookupsIn th.log ≤ max ∧
        th.log.length ≤ 2 + 2 * lookupsIn th.log ∧ th.txn.lookupForwardStep ≠ some .wait
    | .responseRules =>
      lookupsIn th.log ≤ max + 1 ∧ th.log.length ≤ 1 + 2 * lookupsIn th.log ∧
        (th.txn.lookupOutcome = some .answered ∧ th.txn.answerSource = some .forward →
          lookupsIn th.log ≤ th.txn.attemptCount ∧ th.txn.attemptCount ≤ max ∧
            th.txn.lookupForwardStep ≠ some .wait)
    | .send => lookupsIn th.log ≤ max + 1 ∧ th.log.length ≤ 2 + 2 * lookupsIn th.log
    | _ => False
  | .finished _ => lookupsIn th.log ≤ max + 1 ∧ th.log.length ≤ 3 + 2 * lookupsIn th.log
  | _ => False

variable {th : Thread}

/-- At the head of the loop, a jump to send is within the bounds. -/
theorem Budget.top (h : Budget th) (hp : th.pos = .top) :
    lookupsIn th.log ≤ th.snap.maxAttempts + 1 ∧ th.log.length ≤ 2 + 2 * lookupsIn th.log := by
  unfold Budget at h
  simp only [hp] at h
  split at h
  · simp [h.1, lookupsIn]
  · omega
  · omega
  · omega
  · exact h
  · exact h.elim

theorem lookupsIn_snoc (log : List StageRun) (r : StageRun) :
    lookupsIn (log ++ [r]) = lookupsIn log + if r.phase = .lookup then 1 else 0 := by
  simp [lookupsIn, List.countP_append, List.countP_singleton]

theorem Budget.leave_of_le {th : Thread} {phase : Phase} {late : Bool} {before after : Transaction}
    {out : StageOutcome} (hL : lookupsIn th.log + (if phase = .lookup then 1 else 0) ≤
      th.snap.maxAttempts + 1)
    (hk : th.log.length ≤ 1 + 2 * (lookupsIn th.log + if phase = .lookup then 1 else 0) ∨
      phase = .send ∧ th.log.length ≤ 2 + 2 * lookupsIn th.log)
    (ho : out = .drop ∨ out = .cont .send) :
    Budget (th.leave phase late before after out) := by
  rcases ho with rfl | rfl
  · simp only [Thread.leave, Budget, lookupsIn_snoc, List.length_append, List.length_singleton]
    refine ⟨hL, ?_⟩
    rcases hk with hk | ⟨rfl, hk⟩ <;> omega
  · simp only [Thread.leave]
    by_cases hph : phase = .send
    · subst hph
      simp only [Budget, lookupsIn_snoc, List.length_append, List.length_singleton, if_true]
      simp only [reduceCtorEq, if_false] at hL hk ⊢
      omega
    · simp only [if_neg hph, Budget, lookupsIn_snoc, List.length_append, List.length_singleton]
      refine ⟨hL, ?_⟩
      rcases hk with hk | ⟨hs, -⟩
      · omega
      · exact absurd hs hph

variable {w : Wiring} {after : Transaction} {out : StageOutcome}

theorem Budget.leave_lookup (hw : w.runtime = .sync) {late : Bool} {before : Transaction}
    (h : lookupsIn th.log ≤ before.attemptCount ∧ lookupsIn th.log ≤ th.snap.maxAttempts ∧
      th.log.length ≤ 2 + 2 * lookupsIn th.log ∧ before.lookupForwardStep ≠ some .wait)
    (hend : LookupEnd w th.snap before after out) :
    Budget (th.leave .lookup late before after out) := by
  obtain ⟨hA, hN, hk, hstep⟩ := h
  have toSend : ∀ {out}, out = .drop ∨ out = .cont .send →
      Budget (th.leave .lookup late before after out) := by
    intro out ho
    refine leave_of_le ?_ (.inl ?_) ho <;> simp only [if_true] <;> omega
  cases hend with
  | failed => exact toSend (.inr rfl)
  | waiting hs =>
    rw [hw] at hs
    cases hs
  | forwarded _ _ _ _ _ _ ha hs =>
    have ha : after.attemptCount = before.attemptCount + 1 ∧
        before.attemptCount < th.snap.maxAttempts := ha.resolve_right fun h => hstep h.2
    simp only [Thread.leave, reduceCtorEq, if_false, Budget, lookupsIn_snoc, List.length_append,
      List.length_singleton, if_true]
    exact ⟨by omega, by omega, fun _ => ⟨by omega, by omega, fun h => hstep (hs h)⟩⟩
  | @hit next _ _ _ _ hsrc _ hn =>
    rcases hn with rfl | rfl
    · exact toSend (.inr rfl)
    · simp only [Thread.leave, reduceCtorEq, if_false, Budget, lookupsIn_snoc, List.length_append,
        List.length_singleton, if_true]
      refine ⟨by omega, by omega, fun h => ?_⟩
      rw [hsrc] at h
      cases h.2
  | missed _ _ _ ho _ _ =>
    simp only [Thread.leave, reduceCtorEq, if_false, Budget, lookupsIn_snoc, List.length_append,
      List.length_singleton, if_true]
    refine ⟨by omega, by omega, fun h => ?_⟩
    rw [ho] at h
    cases h.1

theorem Budget.leave_stage (hw : w.runtime = .sync) {phase : Phase} (h : Budget th)
    (hp : th.pos = .top) (hph : th.txn.currentPhase = phase)
    (hend : StageEnd w th.snap th.txn phase after out)
    (hgood : Counted ⟨phase, th.snap.generation, false, th.txn, after, out⟩) :
    Budget (th.leave phase false th.txn after out) := by
  unfold Budget at h
  simp only [hp, hph] at h
  cases hend with
  | parse =>
    obtain ⟨hlog, hstep⟩ := h
    have hs := (parseStage_same w.fns.codec th.txn).2.2.1
    rcases parseStage_out w.fns.codec th.txn with ho | ho
    · refine leave_of_le ?_ (.inl ?_) (.inl ho) <;> simp [hlog, lookupsIn]
    · rw [ho]
      simp only [Thread.leave, reduceCtorEq, if_false, Budget]
      rw [hlog, hs]
      exact ⟨rfl, Nat.le_refl 1, hstep⟩
  | requestRules hpol ho =>
    obtain ⟨hL, hk, hstep⟩ := h
    obtain ⟨_, _, _, _, _, _, _, _, _, _, _, _, rfl⟩ := hpol
    rcases ho with rfl | rfl
    · refine leave_of_le ?_ (.inl ?_) (.inl rfl) <;> simp only [reduceCtorEq, if_false] <;> omega
    · simp only [Thread.leave, reduceCtorEq, if_false, Budget, lookupsIn_snoc, List.length_append,
        List.length_singleton]
      exact ⟨by omega, by omega, by omega, hstep⟩
  | lookup hl => exact leave_lookup hw h hl
  | responseRules hpol ho =>
    obtain ⟨hL, hk, hfwd⟩ := h
    have toSend : ∀ {out}, out = .drop ∨ out = .cont .send →
        Budget (th.leave .responseRules false th.txn after out) := by
      intro out ho
      refine leave_of_le ?_ (.inl ?_) ho <;> simp only [reduceCtorEq, if_false] <;> omega
    rcases ho with rfl | rfl | rfl
    · exact toSend (.inl rfl)
    · -- a retry: the answer has counted an attempt
      obtain ⟨hA, hmax, hstep⟩ := hfwd (hgood rfl)
      obtain ⟨_, _, _, _, _, _, _, _, _, _, _, _, rfl⟩ := hpol
      simp only [Thread.leave, reduceCtorEq, if_false, Budget, lookupsIn_snoc, List.length_append,
        List.length_singleton]
      exact ⟨by omega, by omega, by omega, hstep⟩
    · exact toSend (.inr rfl)
  | send =>
    refine leave_of_le ?_ (.inr ⟨rfl, h.2⟩) (.inr rfl)
    simp only [reduceCtorEq, if_false]
    exact h.1

theorem budget_rule (hw : w.runtime = .sync) :
    Thread.Rule w (Ends Counted) Counted Budget where
  start := by
    intro s q t _ hq
    refine ⟨rfl, ?_⟩
    unfold Ingress.transaction at hq
    simp only [hw] at hq
    cases hq
    show Transaction.lookupForwardStep _ ≠ _
    split <;> exact fun h => by cases h
  enter := by
    rintro s t th late _ p _ _ hp hB rfl hrun
    refine (runStage_ensures hrun).mono ?_
    rintro ⟨after, out⟩ hr hgood
    cases late with
    | true =>
      obtain ⟨hL, hk⟩ := hB.top hp
      have hend : StageEnd w th.snap (Thread.checkDeadline th.txn true) .send after out := hr
      cases hend
      refine @Budget.leave_of_le th .send _ _ _ _ ?_ (.inr ⟨rfl, hk⟩) (.inr rfl)
      simp only [reduceCtorEq, if_false]
      exact hL
    | false => exact hB.leave_stage hw hp rfl hr hgood
  pass := by
    intro s t th late _ _ hp hB hrun
    have hnone := runStage_none hrun
    cases late with
    | true => rcases hnone with h | h | h | h <;> cases h
    | false =>
      unfold Budget at hB
      simp only [hp] at hB
      have hph : (Thread.checkDeadline th.txn false).currentPhase = th.txn.currentPhase := rfl
      rw [hph] at hnone
      rcases hnone with h | h | h | h <;> simp only [h] at hB
  ret hc ht hp := hc.ret ht hp
  resumeIo := by
    intro s t th c _ _ _ hsplit
    rw [hw] at hsplit
    cases hsplit
  resumeLookup := by
    intro s t th _ _ _ hsplit
    rw [hw] at hsplit
    cases hsplit

/-! ## Bounds and termination -/

/-- The transaction that takes the step. -/
def Act.tid : Act → Option Tid
  | .enter t _ | .op t _ | .ret t | .resumeIo t _ | .resumeLookup t => some t
  | _ => none

/-- `th'` comes after `th`: a step of the transaction itself, in some run whose steps meet `C`. -/
inductive Turn (w : Wiring) (C : State → Act → Prop) : Thread → Thread → Prop
  | mk {s s' : State} {t : Tid} {a : Act} {th th' : Thread} (hr : (machine w).Reach C s)
      (hc : C s a) (hs : step w s a = some s') (hown : a.tid = some t)
      (ht : s.threads t = some th) (ht' : s'.threads t = some th') : Turn w C th' th

/-- The steps of a transaction in the synchronous runtime. -/
inductive SyncTurn (w : Wiring) (th : Thread) : Thread → Prop
  | enter (late : Bool) (hp : th.pos = .top) : SyncTurn w th (th.enter w late)
  | op {phase : Phase} {late : Bool} {before : Transaction} {o : Op}
      {k : o.Resp → StageProg (Transaction × StageOutcome)} (r : o.Resp)
      (hp : th.pos = .running phase late before (.op o k)) :
      SyncTurn w th { th with pos := .running phase late before (k r) }
  | ret {phase : Phase} {late : Bool} {before after : Transaction} {out : StageOutcome}
      (hp : th.pos = .running phase late before (.ret (after, out))) :
      SyncTurn w th (th.leave phase late before after out)

theorem Turn.sync {C : State → Act → Prop} (hw : w.runtime = .sync) {th' : Thread}
    (h : Turn w C th' th) : SyncTurn w th th' := by
  obtain ⟨hr, hc, hs, hown, ht, ht'⟩ := h
  cases step_cases hs with
  | enter late htt hp =>
    cases hown
    cases htt.symm.trans ht
    simp only [threads_setThread, if_true] at ht'
    cases ht'
    exact .enter late hp
  | op htt hp hsem =>
    cases hown
    cases htt.symm.trans ht
    simp only [threads_setThread, if_true] at ht'
    cases ht'
    exact .op _ hp
  | ret htt hp =>
    cases hown
    cases htt.symm.trans ht
    simp only [threads_setThread, if_true] at ht'
    cases ht'
    exact .ret hp
  | resumeIo c htt hp hsplit | resumeLookup htt hp hsplit =>
    rw [hw] at hsplit
    cases hsplit
  | start | install | dropInstance | addInstance => cases hown

theorem leave_log (th : Thread) (phase : Phase) (late : Bool) (before after : Transaction)
    (out : StageOutcome) :
    (th.leave phase late before after out).log.length = th.log.length + 1 ∧
      (th.leave phase late before after out).snap = th.snap := by
  unfold Thread.leave
  cases out with
  | drop | suspend => simp
  | cont next =>
    simp only
    split <;> simp

section

variable {w : Wiring} (hw : w.runtime = .sync)

include hw

variable {th : Thread}

/-- In a run whose retries are counted, the lookups and the stage runs are bounded. -/
theorem lookups_le {s : State} (h : (machine w).Reach (Ends Counted) s) {t : Tid}
    (ht : s.threads t = some th) :
    th.lookups ≤ th.snap.maxAttempts + 1 ∧ th.log.length ≤ 2 * th.snap.maxAttempts + 5 := by
  have hth := (budget_rule hw).holds h t th ht
  unfold Thread.Holds at hth
  split at hth
  · rename_i phase late before p hpos
    obtain ⟨⟨t₀, hB, rfl, rfl, -⟩, -⟩ := hth
    obtain ⟨hL, hk⟩ := hB.top rfl
    simp only at hL hk
    refine ⟨?_, by omega⟩
    simp only [Thread.lookups, hpos]
    split
    · rename_i hph
      -- the stage is the lookup, so the deadline check did not jump
      cases late with
      | true => cases hph
      | false =>
        have hph : t₀.currentPhase = .lookup := by injection hph
        unfold Budget at hB
        simp only [hph] at hB
        exact Nat.succ_le_succ hB.2.1
    · exact hL
  · rename_i hpos
    simp only [Thread.lookups]
    unfold Budget at hth
    split at hth
    · rename_i hp
      have hbudget : Budget th := by
        unfold Budget
        rw [hp]
        exact hth
      obtain ⟨hL, hk⟩ := hbudget.top hp
      simp only [hp]
      omega
    · rename_i hp
      simp only [hp]
      omega
    · exact hth.elim

theorem Turn.length_le {th' : Thread} (h : Turn w (Ends Counted) th' th) :
    th'.log.length ≤ 2 * th'.snap.maxAttempts + 5 := by
  obtain ⟨hr, hc, hs, -, -, ht'⟩ := h
  exact (lookups_le hw (.step hr hc hs) ht').2

theorem Turn.enters {late : Bool} (hp : th.pos = .top)
    (h : Turn w (Ends Counted) (th.enter w late) th) :
    ∃ before p, th.enter w late =
      { th with txn := before, pos := .running before.currentPhase late before p } := by
  obtain ⟨hr, -, -, -, ht, -⟩ := h
  have hB := (budget_rule hw).holds hr _ _ ht
  unfold Thread.Holds at hB
  simp only [hp] at hB
  unfold Thread.enter
  cases hrun : runStage w (Thread.checkDeadline th.txn late) th.snap
      (Thread.checkDeadline th.txn late).currentPhase with
  | some p =>
    refine ⟨Thread.checkDeadline th.txn late, p, ?_⟩
    simp only [hrun]
  | none =>
    have hnone := runStage_none hrun
    cases late with
    | true => rcases hnone with h | h | h | h <;> cases h
    | false =>
      have hph : (Thread.checkDeadline th.txn false).currentPhase = th.txn.currentPhase := rfl
      rw [hph] at hnone
      unfold Budget at hB
      simp only [hp] at hB
      rcases hnone with h | h | h | h <;> simp only [h] at hB

/-- A stage comes to an end, and then the number of stage runs is larger. -/
theorem acc_running {th : Thread} {phase : Phase} {late : Bool} {before : Transaction}
    {p : StageProg (Transaction × StageOutcome)} (hp : th.pos = .running phase late before p)
    (hnext : ∀ th' : Thread, th'.snap = th.snap → th'.log.length = th.log.length + 1 →
      th'.log.length ≤ 2 * th'.snap.maxAttempts + 5 → Acc (Turn w (Ends Counted)) th') :
    Acc (Turn w (Ends Counted)) th := by
  induction p generalizing th with
  | ret r =>
    refine ⟨_, fun th' h => ?_⟩
    have hle := h.length_le hw
    cases h.sync hw with
    | enter _ hp' | op _ hp' => rw [hp] at hp'; cases hp'
    | ret hp' =>
      obtain ⟨hlog, hsnap⟩ := leave_log th _ _ _ _ _
      exact hnext _ hsnap hlog hle
  | op o k ih =>
    refine ⟨_, fun th' h => ?_⟩
    cases h.sync hw with
    | enter _ hp' | ret hp' => rw [hp] at hp'; cases hp'
    | op r hp' =>
      rw [hp] at hp'
      cases hp'
      exact ih r rfl hnext

/-- There is no endless sequence of turns. The induction is on the stage runs that are left. -/
theorem acc_turn (th : Thread) : Acc (Turn w (Ends Counted)) th := by
  obtain ⟨n, hn⟩ : ∃ n, 2 * th.snap.maxAttempts + 5 - th.log.length = n := ⟨_, rfl⟩
  induction n using Nat.strongRecOn generalizing th with
  | _ n ih =>
    have hnext : ∀ th' : Thread, th'.snap = th.snap → th'.log.length = th.log.length + 1 →
        th'.log.length ≤ 2 * th'.snap.maxAttempts + 5 → Acc (Turn w (Ends Counted)) th' := by
      intro th' hsnap hlog hle
      rw [hsnap] at hle
      refine ih _ ?_ th' rfl
      rw [hsnap]
      omega
    refine ⟨_, fun th' h => ?_⟩
    cases h.sync hw with
    | enter late hp =>
      obtain ⟨before, p, he⟩ := h.enters hw hp
      rw [he]
      exact @acc_running w hw { th with
        txn := before, pos := .running before.currentPhase late before p } _ _ _ _ rfl hnext
    | op r hp => exact @acc_running w hw { th with pos := .running _ _ _ _ } _ _ _ _ rfl hnext
    | ret hp =>
      obtain ⟨hlog, hsnap⟩ := leave_log th _ _ _ _ _
      exact hnext _ hsnap hlog (h.length_le hw)

end

/-- An operation does not block for ever: a wait can time out. -/
theorem exists_sem (o : Op) (s : Shared) :
    ∃ (env : Env) (r : o.Resp) (s' : Shared), o.sem env s = some (r, s') := by
  refine ⟨{ timedOut := true }, ?_⟩
  cases o with
  | gateFor i key =>
    simp only [Op.sem]
    split <;> exact ⟨_, _, rfl⟩
  | _ => exact ⟨_, _, rfl⟩

/-- A transaction that is neither finished nor suspended can take a step. -/
theorem exists_step (w : Wiring) {s : State} {t : Tid} (ht : s.threads t = some th)
    (hs : th.pos ≠ .suspended) :
    (∃ out, th.pos = .finished out) ∨ ∃ a, a.tid = some t ∧ (step w s a).isSome := by
  cases hp : th.pos with
  | top => exact .inr ⟨.enter t false, rfl, by simp only [step, ht, hp, Option.isSome_some]⟩
  | running phase late before p =>
    cases p with
    | ret r => exact .inr ⟨.ret t, rfl, by simp only [step, ht, hp, Option.isSome_some]⟩
    | op o k =>
      obtain ⟨env, r, sh, hsem⟩ := exists_sem o s.shared
      refine .inr ⟨.op t env, rfl, ?_⟩
      simp only [step, ht, hp, hsem, Option.map_some, Option.isSome_some]
  | suspended => exact absurd hp hs
  | finished out => exact .inl ⟨out, rfl⟩

/-- **Bounded pipeline.** If retries are asked only for answers of the forward provider, a
transaction of the synchronous runtime runs the lookup stage at most `max_attempts + 1` times and
ends: it can take a step until it is finished, and it cannot take endlessly many, whatever the
caches, the upstreams and the clock do. -/
theorem bounded_of_counted (w : Wiring) (hw : w.runtime = .sync) (s : State)
    (h : (machine w).Reach (Ends Counted) s) (t : Tid) (th : Thread) (ht : s.threads t = some th) :
    th.lookups ≤ th.snap.maxAttempts + 1 ∧ Acc (Turn w (Ends Counted)) th ∧
      ((∃ out, th.pos = .finished out) ∨ ∃ a, a.tid = some t ∧ (step w s a).isSome) := by
  refine ⟨(lookups_le hw h ht).1, acc_turn hw th, exists_step w ht ?_⟩
  intro hp
  have hth := (budget_rule hw).holds h t th ht
  unfold Thread.Holds at hth
  simp only [hp, Budget] at hth

/-- The retry of a forwarded answer: the second lookup is the last one. -/
theorem bounded_of_counted_sample :
    ∃ s th, (machine (sampleWiring .sync)).Reach (Ends Counted) s ∧ s.threads 0 = some th ∧
      (th.lookups = 2 ∧ th.snap.maxAttempts = 1) ∧
      (th.lookups ≤ th.snap.maxAttempts + 1 ∧ Acc (Turn (sampleWiring .sync) (Ends Counted)) th ∧
        ((∃ out, th.pos = .finished out) ∨
          ∃ a, a.tid = some 0 ∧ (step (sampleWiring .sync) s a).isSome)) := by
  obtain ⟨s, hr, th, ht, hth⟩ := Lts.exists_exec (Ends Counted)
    ([Act.start (sampleQuery 11)] ++ toLookup 0 ++ ops 0 8 ++ sampleForward [0, 0, 128, 0] ++
      sampleRules ++ [Act.ret 0])
    (fun s : State => ∃ th ∈ s.threads 0, th.lookups = 2 ∧ th.snap.maxAttempts = 1)
    (sampleInit_init .sync sampleRetrying) (by decide +kernel)
  exact ⟨s, th, hr, ht, hth, bounded_of_counted _ rfl s hr 0 th ht⟩

/-- Cached answers that are retried: a third lookup where two are the limit, and so on. -/
theorem bounded_broken :
    ∃ s th, (machine (sampleWiring .sync)).Reach Lts.Any s ∧ s.threads 0 = some th ∧
      th.lookups = 3 ∧ th.snap.maxAttempts = 1 := by
  obtain ⟨s, hr, th, ht, hth⟩ := Lts.exists_exec Lts.Any
    ([Act.start (sampleQuery 11)] ++ toLookup 0 ++ sampleHit [0, 0, 128, 0] ++ sampleRules ++
      sampleHit [0, 0, 128, 0] ++ sampleRules)
    (fun s : State => ∃ th ∈ s.threads 0, th.lookups = 3 ∧ th.snap.maxAttempts = 1)
    (sampleInit_init .sync sampleRetrying) (by decide +kernel)
  exact ⟨s, th, hr, ht, hth⟩

end Conduit
