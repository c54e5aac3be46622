import Conduit.Flight.Discipline

/-!
# Invariants of one transaction

A stage only touches its own transaction, so an invariant of the orchestrator loop can be proved for
one transaction, with any answers to the operations of its stages: those of `Wiring.answers`, which
every run of the machine gives.

- `Thread.Rule`: the loop keeps an invariant. It is stated at the head of the loop, at a suspend
  and at the end; in a stage it holds of what every result of the stage leads to.
- `Thread.Rule.holds`: then it holds of all transactions in every run.
-/

namespace Conduit

open Prog

/-- The answers that the runs of the wiring give: the registry coalesces asynchronously in the
split_io runtime only. -/
def Wiring.answers (w : Wiring) : (o : Op) → o.Resp → Prop
  | .asyncCoalesce, r => r = (w.runtime == .splitIo)
  | _, _ => True

theorem asyncCoalesce_reach {w : Wiring} {C : State → Act → Prop} {s : State}
    (h : (machine w).Reach C s) : s.shared.asyncCoalesce = (w.runtime == .splitIo) := by
  refine Lts.Reach.inv (L := machine w) (C := C)
    (P := fun s : State => s.shared.asyncCoalesce = (w.runtime == .splitIo)) ?_ ?_ h
  · rintro s ⟨snap, instances, nextInst, rfl⟩
    rfl
  · intro (s : State) a s' _ ih _ hs
    cases step_cases hs with
    | op ht hp hsem => exact (Op.sem_switches hsem).1.trans ih
    | _ => exact ih

theorem answers_sem {w : Wiring} {C : State → Act → Prop} {s : State}
    (h : (machine w).Reach C s) {o : Op} {env : Env} {r : o.Resp} {sh : Shared}
    (hs : o.sem env s.shared = some (r, sh)) : w.answers o r := by
  cases o <;> try trivial
  case asyncCoalesce =>
    cases hs
    exact asyncCoalesce_reach h

namespace Thread

/-- The loop keeps `P`, where every finished stage run is `good`. -/
structure Rule (w : Wiring) (C : State → Act → Prop) (good : StageRun → Prop)
    (P : Thread → Prop) : Prop where
  start : ∀ {s q t}, C s (.start q) → q.transaction w = some t → P (Thread.start t s.current)
  enter : ∀ {s t th late before p}, C s (.enter t late) → s.threads t = some th → th.pos = .top →
    P th → before = checkDeadline th.txn late →
    runStage w before th.snap before.currentPhase = some p →
    Ensures w.answers (fun r =>
      good ⟨before.currentPhase, th.snap.generation, late, before, r.1, r.2⟩ →
        P (th.leave before.currentPhase late before r.1 r.2)) p
  pass : ∀ {s t th late}, C s (.enter t late) → s.threads t = some th → th.pos = .top → P th →
    runStage w (checkDeadline th.txn late) th.snap (checkDeadline th.txn late).currentPhase = none →
    P (th.enter w late)
  ret : ∀ {s t th phase late before after out}, C s (.ret t) → s.threads t = some th →
    th.pos = .running phase late before (.ret (after, out)) →
    good ⟨phase, th.snap.generation, late, before, after, out⟩
  resumeIo : ∀ {s t th c}, C s (.resumeIo t c) → s.threads t = some th → th.pos = .suspended →
    w.runtime = .splitIo → P th → P (th.resume (applyWaitCompletion th.txn c) s.current)
  resumeLookup : ∀ {s t th}, C s (.resumeLookup t) → s.threads t = some th → th.pos = .suspended →
    w.runtime = .splitIo → P th → P (th.resume th.txn s.current)

/-- `P` holds of the transaction, or, in a stage, held when the stage was entered and holds of what
the results of the stage lead to. -/
def Holds (w : Wiring) (good : StageRun → Prop) (P : Thread → Prop) (th : Thread) : Prop :=
  match th.pos with
  | .running phase late before p =>
    (∃ t, P { th with txn := t, pos := .top } ∧ before = checkDeadline t late ∧
      phase = before.currentPhase ∧ th.txn = before) ∧
    Ensures w.answers (fun r =>
      good ⟨phase, th.snap.generation, late, before, r.1, r.2⟩ →
        P (th.leave phase late before r.1 r.2)) p
  | _ => P th

variable {w : Wiring} {C : State → Act → Prop} {good : StageRun → Prop} {P : Thread → Prop}

theorem leave_pos (th : Thread) (phase : Phase) (late : Bool) (before after : Transaction)
    (out : StageOutcome) :
    ∀ ph l b p, (th.leave phase late before after out).pos ≠ .running ph l b p := by
  intro ph l b p
  cases out with
  | drop => simp [leave]
  | suspend _ => simp [leave]
  | cont next =>
    simp only [leave]
    split <;> simp

theorem holds_of {th : Thread} (hp : ∀ ph l b p, th.pos ≠ .running ph l b p) (h : P th) :
    Holds w good P th := by
  unfold Holds
  split
  · exact absurd ‹_› (hp _ _ _ _)
  · exact h

theorem Rule.enter_holds (hr : Rule w C good P) {s : State} {t : Tid} {th : Thread} {late : Bool}
    (hc : C s (.enter t late)) (ht : s.threads t = some th) (hp : th.pos = .top) (h : P th) :
    Holds w good P (th.enter w late) := by
  cases hrun : runStage w (checkDeadline th.txn late) th.snap
      (checkDeadline th.txn late).currentPhase with
  | none =>
    have hpass := hr.pass hc ht hp h hrun
    refine holds_of ?_ hpass
    intro ph l b p
    rw [Thread.enter]
    simp only [hrun, hp]
    exact fun h => by cases h
  | some p =>
    have hens := hr.enter hc ht hp h rfl hrun
    rw [Thread.enter]
    simp only [hrun]
    refine ⟨⟨th.txn, ?_, rfl, rfl, rfl⟩, hens⟩
    have hself : { th with txn := th.txn, pos := .top } = th := by rw [← hp]
    rw [hself]
    exact h

/-- **All transactions keep the invariant**, in every state of the runs. -/
theorem Rule.holds (hr : Rule w C good P) {s : State} (h : (machine w).Reach C s) :
    ∀ t th, s.threads t = some th → Holds w good P th := by
  refine Lts.Reach.inv (L := machine w) (C := C)
    (P := fun s : State => ∀ t th, s.threads t = some th → Holds w good P th) ?_ ?_ h
  · rintro s ⟨snap, instances, nextInst, rfl⟩ t th ht
    cases ht
  · intro (s : State) a s' hreach ih hc hs
    have only {t : Tid} {th' : Thread} {s' : State}
        (ht : s'.threads = (s.setThread t th').threads) (hth : Holds w good P th') :=
      forall_threads_set ht hth fun u thu _ => ih u thu
    cases step_cases hs with
    | start hq => exact only rfl (holds_of (by simp [Thread.start]) (hr.start hc hq))
    | enter late ht hp =>
      refine only rfl (hr.enter_holds hc ht hp ?_)
      have := ih _ _ ht
      rw [Holds, hp] at this
      exact this
    | op ht hp hsem =>
      refine only rfl ?_
      have := ih _ _ ht
      rw [Holds, hp] at this
      exact ⟨this.1, this.2 _ (answers_sem hreach hsem)⟩
    | ret ht hp =>
      refine only rfl (holds_of (leave_pos _ _ _ _ _ _) ?_)
      have := ih _ _ ht
      rw [Holds, hp] at this
      exact this.2 (hr.ret hc ht hp)
    | resumeIo c ht hp hsplit =>
      refine only rfl (holds_of (by simp [Thread.resume]) (hr.resumeIo hc ht hp hsplit ?_))
      have := ih _ _ ht
      rw [Holds, hp] at this
      exact this
    | resumeLookup ht hp hsplit hq =>
      refine only rfl (holds_of (by simp [Thread.resume]) (hr.resumeLookup hc ht hp hsplit ?_))
      have := ih _ _ ht
      rw [Holds, hp] at this
      exact this
    | install | dropInstance | addInstance => exact ih

end Thread

/-! ## Conditions on the stage runs -/

/-- The stage run that the transaction's stage is about to return from. -/
def Thread.ended (th : Thread) : Option StageRun :=
  match th.pos with
  | .running phase late before (.ret (after, out)) =>
    some ⟨phase, th.snap.generation, late, before, after, out⟩
  | _ => none

/-- The condition on the steps that every finished stage run is `good`. -/
def Ends (good : StageRun → Prop) (s : State) : Act → Prop
  | .ret t => ∀ th ∈ s.threads t, ∀ r ∈ th.ended, good r
  | _ => True

instance (good : StageRun → Prop) [DecidablePred good] (s : State) (a : Act) :
    Decidable (Ends good s a) := by
  apply Act.casesOn (motive := fun a => Decidable (Ends good s a)) a <;> intros <;>
    dsimp only [Ends] <;> infer_instance

theorem Ends.ret {good : StageRun → Prop} {s : State} {t : Tid} {th : Thread} {phase : Phase}
    {late : Bool} {before after : Transaction} {out : StageOutcome} (h : Ends good s (.ret t))
    (ht : s.threads t = some th) (hp : th.pos = .running phase late before (.ret (after, out))) :
    good ⟨phase, th.snap.generation, late, before, after, out⟩ := by
  refine h th ht _ ?_
  rw [Thread.ended, hp]
  exact rfl

/-- The response rules asked for a retry. -/
def StageRun.retry (r : StageRun) : Bool :=
  r.phase == .responseRules && r.outcome == .cont .lookup

/-! ## Sample runs -/

/-- One attempt, and response rules that retry every answer. -/
def sampleRetrying : RuntimeSnapshot :=
  { sampleSnapshot with
    config := { pools := [{ name := "default" }], orchestrator := some { maxAttempts := 1 } }
    rules := [{ hook := .response, actions := [.retry] }] }

/-- A forward of the first transaction that is answered, with the fill. -/
def sampleForward (wire : Wire) : List Act :=
  [Act.op 0 { backend := some sampleBackend }, Act.op 0 { exchange := .answer wire }] ++ ops 0 9 ++
    [Act.ret 0]

/-- A forward of the first transaction that times out. -/
def sampleTimeout : List Act :=
  [Act.op 0 { backend := some sampleBackend }, Act.op 0 { exchange := .timeout }] ++ ops 0 6 ++
    [Act.ret 0]

/-- A lookup of the first transaction that hits the cache. -/
def sampleHit (wire : Wire) : List Act :=
  ops 0 2 ++
    [Act.op 0 { entry := some wire }, Act.op 0 {}, Act.op 0 { served := some wire }, Act.ret 0]

/-- The response rules of the first transaction, and into the next stage. -/
def sampleRules : List Act := [.enter 0 false, .op 0 {}, .ret 0, .enter 0 false]

end Conduit
