import Conduit.Core.Machine

/-!
# Disciplines of the transactions

A discipline says what a transaction may do with the shared state, in terms of its own history
(`Local`): a protocol for the operations of its stages, and what holds between the stages. Other
transactions cannot touch that history, so a discipline that every stage keeps to holds of all
transactions in every run (`Discipline.Valid.holds`).
-/

namespace Conduit

open Prog

theorem Hist.next_locals (h : Hist) (t : Tid) (o : Op) (r : o.Resp) :
    (h.next t o r).locals = Function.update h.locals t ((h.locals t).next o r) := by
  cases o with
  | inst name =>
    simp only [Hist.next]
    split <;> rfl
  | register g txnId asyncWait =>
    simp only [Hist.next]
    split
    · rfl
    · split <;> rfl
  | _ => rfl

variable {s : State} {th : Thread}

theorem nextOp_eq {t : Tid} {phase : Phase} {late : Bool} {before : Transaction} {o : Op}
    {k : o.Resp → StageProg (Transaction × StageOutcome)} (ht : s.threads t = some th)
    (hp : th.pos = .running phase late before (.op o k)) :
    s.nextOp t = some o := by
  rw [State.nextOp, ht, Option.bind_some, Thread.nextOp, hp]

/-- The history of a transaction that has not started is empty. -/
structure WellFormed (s : State) : Prop where
  threads : ∀ t, s.nextTid ≤ t → s.threads t = none
  locals : ∀ t, s.threads t = none → s.hist.locals t = {}

theorem threads_setThread (s : State) (t u : Tid) (th : Thread) :
    (s.setThread t th).threads u = if u = t then some th else s.threads u := by
  simp only [State.setThread, Function.update_apply]

variable {s' : State}

/-- What holds of the transaction that is set, and of the others before, holds of all. -/
theorem forall_threads_set {Q : Tid → Thread → Prop} {t : Tid} {th' : Thread}
    (ht : s'.threads = (s.setThread t th').threads) (hth : Q t th')
    (hother : ∀ u thu, u ≠ t → s.threads u = some thu → Q u thu) :
    ∀ u thu, s'.threads u = some thu → Q u thu := by
  intro u thu hu
  rw [ht, threads_setThread] at hu
  split at hu
  · subst_vars
    cases hu
    exact hth
  · exact hother u thu ‹_› hu

theorem WellFormed.set (h : WellFormed s) {t : Tid} {th' : Thread} (ht : s.threads t = some th)
    (hth : s'.threads = (s.setThread t th').threads) (hn : s'.nextTid = s.nextTid)
    (hl : ∀ u, u ≠ t → s'.hist.locals u = s.hist.locals u) : WellFormed s' := by
  constructor
  · intro u hu
    have hne : u ≠ t := by
      rintro rfl
      rw [h.threads u (hn ▸ hu)] at ht
      cases ht
    rw [hth, threads_setThread, if_neg hne]
    exact h.threads u (hn ▸ hu)
  · intro u hu
    by_cases hne : u = t
    · rw [hth, threads_setThread, if_pos hne] at hu
      cases hu
    · rw [hth, threads_setThread, if_neg hne] at hu
      rw [hl u hne]
      exact h.locals u hu

variable {w : Wiring}

theorem WellFormed.step {a : Act} (h : WellFormed s) (hs : Step w s a s') : WellFormed s' := by
  cases hs with
  | start hq =>
    constructor
    · intro u hu
      have hne : u ≠ s.nextTid := by
        rintro rfl
        exact absurd hu (Nat.not_succ_le_self _)
      simp only [threads_setThread, if_neg hne]
      exact h.threads u (Nat.le_of_succ_le hu)
    · intro u hu
      simp only [threads_setThread] at hu
      split at hu
      · cases hu
      · exact h.locals u hu
  | enter late ht hp | ret ht hp | resumeIo c ht hp hr | resumeLookup ht hp hr hq =>
    exact h.set ht rfl rfl fun _ _ => rfl
  | op ht hp hs =>
    refine h.set ht rfl rfl fun u hu => ?_
    show (Hist.next _ _ _ _).locals u = _
    rw [Hist.next_locals, Function.update_of_ne hu]
  | install | dropInstance | addInstance => exact ⟨h.threads, h.locals⟩

theorem wellFormed_init (h : (machine w).init s) : WellFormed s := by
  obtain ⟨snap, instances, nextInst, rfl⟩ := h
  exact ⟨fun _ _ => rfl, fun _ _ => rfl⟩

theorem wellFormed_reach {C : State → Act → Prop} (h : (machine w).Reach C s) : WellFormed s :=
  Lts.Reach.inv (fun _ hi => wellFormed_init hi) (fun _ _ _ _ hw _ hs => hw.step (step_cases hs)) h

/-- What a transaction may do: the operations of its stages (`ok`), under assumptions on the
answers (`may`, which also sees the transaction and the snapshot that the stage got), and what holds
of its history at the head of the orchestrator loop (`rest`), while it is suspended (`susp`) and
when it has finished (`done`). -/
structure Discipline where
  ok : Local → Op → Prop
  may : Transaction → RuntimeSnapshot → Local → (o : Op) → o.Resp → Prop
  rest : Local → Transaction → Prop
  susp : Local → Transaction → Prop
  done : Local → Prop

namespace Discipline

variable (d : Discipline)

def proto (t : Transaction) (snap : RuntimeSnapshot) : Proto Op Op.Resp Local where
  ok := d.ok
  may := d.may t snap
  next := Local.next

def post (phase : Phase) (l : Local) : Transaction × StageOutcome → Prop
  | (_, .drop) => d.done l
  | (after, .suspend _) => d.susp l after
  | (after, .cont next) =>
    if phase = .send then d.done l else d.rest l { after with currentPhase := next }

/-- The transaction with history `l` keeps to the discipline. -/
def Holds (l : Local) (th : Thread) : Prop :=
  match th.pos with
  | .top => d.rest l th.txn
  | .running phase _ _ p => Obeys (d.proto th.txn th.snap) (d.post phase) l p
  | .suspended => d.susp l th.txn
  | .finished _ => d.done l

/-- The stages keep to the discipline in the runs whose steps meet `C` and whose states meet `I`. -/
structure Valid (w : Wiring) (C : State → Act → Prop) (I : State → Prop) : Prop where
  start : ∀ t snap, d.rest {} (Thread.start t snap).txn
  enter : ∀ {s t th late}, I s → C s (.enter t late) → s.threads t = some th → th.pos = .top →
    d.rest (s.hist.locals t) th.txn → d.Holds (s.hist.locals t) (th.enter w late)
  may : ∀ {s t th env phase late before o k r sh}, I s → C s (.op t env) →
    s.threads t = some th → th.pos = .running phase late before (.op o k) →
    o.sem env s.shared = some (r, sh) → d.ok (s.hist.locals t) o →
    d.may th.txn th.snap (s.hist.locals t) o r
  resumeIo : ∀ {s t th c}, I s → C s (.resumeIo t c) → s.threads t = some th →
    d.susp (s.hist.locals t) th.txn →
    d.rest (s.hist.locals t) { applyWaitCompletion th.txn c with currentPhase := .lookup }
  resumeLookup : ∀ {s t th}, I s → C s (.resumeLookup t) → s.threads t = some th →
    d.susp (s.hist.locals t) th.txn →
    d.rest (s.hist.locals t) { th.txn with currentPhase := .lookup }

variable {d} {w : Wiring} {C : State → Act → Prop} {I : State → Prop}

variable {late : Bool} {phase : Phase} {l : Local} {th : Thread} {before : Transaction}

/-- The end of a stage leads to where its post-condition says. -/
theorem holds_leave {after : Transaction} {out : StageOutcome} (h : d.post phase l (after, out)) :
    d.Holds l (th.leave phase late before after out) := by
  cases out with
  | drop => exact h
  | suspend _ => exact h
  | cont next =>
    by_cases hp : phase = .send
    · simp only [post, if_pos hp] at h
      simp only [Thread.leave, if_pos hp]
      exact h
    · simp only [post, if_neg hp] at h
      simp only [Thread.leave, if_neg hp]
      exact h

/-- **All transactions keep to a valid discipline**, in every state of the runs. The state
invariant `I` and the discipline are proved together: a step may use both. -/
theorem Valid.holds (hv : d.Valid w C I) (h0 : ∀ s, (machine w).init s → I s)
    (hI : ∀ s a s', I s → (∀ t th, s.threads t = some th → d.Holds (s.hist.locals t) th) →
      C s a → Step w s a s' → I s') {s : State} (hr : (machine w).Reach C s) :
    I s ∧ ∀ t th, s.threads t = some th → d.Holds (s.hist.locals t) th := by
  refine Lts.Reach.inv (L := machine w) (C := C)
    (P := fun s => I s ∧ ∀ t th, s.threads t = some th → d.Holds (s.hist.locals t) th) ?_ ?_ hr
  · intro s hs
    refine ⟨h0 s hs, ?_⟩
    obtain ⟨snap, instances, nextInst, rfl⟩ := hs
    intro t th h
    cases h
  · intro (s : State) a s' hr ⟨hi, ih⟩ hc hs
    refine ⟨hI s a s' hi ih hc (step_cases hs), ?_⟩
    have hw := wellFormed_reach hr
    -- a step of `t` that leaves the history alone: only `t` has to be checked
    have only : ∀ {t : Tid} {th' : Thread} {s' : State}, s'.hist = s.hist →
        s'.threads = (s.setThread t th').threads → d.Holds (s.hist.locals t) th' →
        ∀ u thu, s'.threads u = some thu → d.Holds (s'.hist.locals u) thu := by
      intro t th' s' hh ht hth
      rw [hh]
      exact forall_threads_set ht hth fun u thu _ => ih u thu
    cases step_cases hs with
    | start hq =>
      refine only rfl rfl ?_
      rw [hw.locals _ (hw.threads _ (Nat.le_refl _))]
      exact hv.start _ _
    | enter late ht hp =>
      refine only rfl rfl (hv.enter hi hc ht hp ?_)
      have := ih _ _ ht
      rw [Holds, hp] at this
      exact this
    | op ht hp hsem =>
      have hrun := ih _ _ ht
      rw [Holds, hp] at hrun
      dsimp only
      rw [Hist.next_locals]
      refine forall_threads_set rfl ?_ fun u thu hne hu => ?_
      · rw [Function.update_self]
        exact hrun.2 _ (hv.may hi hc ht hp hsem hrun.1)
      · rw [Function.update_of_ne hne]
        exact ih u thu hu
    | ret ht hp =>
      refine only rfl rfl (holds_leave ?_)
      have := ih _ _ ht
      rw [Holds, hp] at this
      exact this
    | resumeIo c ht hp hr =>
      refine only rfl rfl (hv.resumeIo hi hc ht ?_)
      have := ih _ _ ht
      rw [Holds, hp] at this
      exact this
    | resumeLookup ht hp hr hq =>
      refine only rfl rfl (hv.resumeLookup hi hc ht ?_)
      have := ih _ _ ht
      rw [Holds, hp] at this
      exact this
    | install | dropInstance | addInstance => exact ih

theorem Holds.ok {o : Op} {k : o.Resp → StageProg (Transaction × StageOutcome)} (h : d.Holds l th)
    (hp : th.pos = .running phase late before (.op o k)) : d.ok l o := by
  rw [Holds, hp] at h
  exact h.1

end Discipline

end Conduit
