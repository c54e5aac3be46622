import Conduit.Flight.Discipline

/-!
# The base discipline

What the code of the cache registry does with the gates, in any run: a transaction registers on
and completes only the gate that it has just fetched from the table (its section is open), it wakes
the waiters that a completion gave it one after another, and between two stages its section is
closed and it owes no wake-up.

- `base`: the discipline.
- `base_holds`: all transactions keep to it, in every run.
-/

namespace Conduit

open Prog

/-- The section is open, on gate `g`, and the gate is not completed yet. -/
def Local.Open (l : Local) (g : GateId) : Prop :=
  ∃ s, l.sect = some s ∧ s.gate = g ∧ s.completed = false

/-- No open section and no wake-up owed. -/
def Local.Neutral (l : Local) : Prop := l.sect = none ∧ l.owed = []

def base : Discipline where
  ok l
    | .register g _ asyncWait => l.Open g ∧ asyncWait = l.async
    | .complete g _ _ => l.Open g ∧ l.owed = []
    | .wake id => l.owed.head? = some id
    | _ => True
  may _ _ l
    | .wakeHandler, r => (r : Bool) = true ∨ l.owed = []
    | _, _ => True
  rest l _ := l.Neutral
  susp l _ := l.Neutral
  done l := l.Neutral

/-- The protocol of the stages: the transaction does not matter. -/
abbrev baseProto : Proto Op Op.Resp Local := base.proto {} {}

/-- A program that starts and ends neutral. -/
def BaseOk {α : Type} (p : StageProg α) : Prop :=
  ∀ l : Local, l.Neutral → Obeys baseProto (fun l' _ => l'.Neutral) l p

namespace BaseOk

variable {α β : Type}

theorem ret (a : α) : BaseOk (.ret a) := fun _ hl => hl

theorem bind {p : StageProg α} {f : α → StageProg β} (hp : BaseOk p) (hf : ∀ a, BaseOk (f a)) :
    BaseOk (p >>= f) :=
  fun l hl => (hp l hl).seq fun l' a hl' => hf a l' hl'

/-- An operation that is always allowed and leaves a neutral history neutral. -/
theorem op {o : Op} {k : o.Resp → StageProg α} (hok : ∀ l, base.ok l o)
    (hnext : ∀ (l : Local) r, l.Neutral → (l.next o r).Neutral) (hk : ∀ r, BaseOk (k r)) :
    BaseOk (.op o k) :=
  fun l hl => ⟨hok l, fun r _ => hk r _ (hnext l r hl)⟩

/-- An operation that the history does not record. -/
theorem silent {o : Op} {k : o.Resp → StageProg α} (hok : ∀ l, base.ok l o)
    (hnext : ∀ (l : Local) r, l.next o r = l) (hk : ∀ r, BaseOk (k r)) : BaseOk (.op o k) :=
  op hok (fun l r hl => (hnext l r).symm ▸ hl) hk

theorem inst {name : String} {k : Option InstId → StageProg α} (hk : ∀ r, BaseOk (k r)) :
    BaseOk (.op (.inst name) k) := by
  refine op (fun _ => trivial) (fun l r hl => ?_) hk
  cases r with
  | none => exact ⟨rfl, hl.2⟩
  | some i => exact ⟨hl.1, hl.2⟩

theorem hitFrom (i : InstId) (wire : Wire) : BaseOk (hitFrom i wire) := by
  unfold Conduit.hitFrom
  refine silent (fun _ => trivial) (fun _ _ => rfl) fun cfg => ?_
  refine silent (fun _ => trivial) (fun _ _ => rfl) fun r => ?_
  cases r with
  | none => exact ret _
  | some w => exact ret _

theorem tryReadHit (i : InstId) (key : CacheKey) : BaseOk (tryReadHit i key) := by
  unfold Conduit.tryReadHit
  refine silent (fun _ => trivial) (fun _ _ => rfl) fun r => ?_
  cases r with
  | none => exact ret _
  | some wire => exact (hitFrom i wire).bind fun _ => ret _

theorem tryAncestorNxdomainHit (fns : CacheFns) (i : InstId) (t : Transaction) :
    BaseOk (tryAncestorNxdomainHit fns i t) := by
  intro l hl
  have hreads : ReadsFreely baseProto l i :=
    ⟨trivial, fun _ => rfl, fun _ => trivial, fun _ _ => rfl⟩
  refine (tryAncestorNxdomainHit_obeys hreads fns t).mono ?_
  rintro _ _ ⟨rfl, -⟩
  exact hl

theorem lookupReads (fns : CacheFns) (i : InstId) (key : CacheKey) (t : Transaction) :
    BaseOk (lookupReads fns i key t) := by
  unfold Conduit.lookupReads
  simp only [call_bind]
  refine (tryReadHit i key).bind fun out => ?_
  cases out with
  | some out => exact ret _
  | none =>
    refine (tryAncestorNxdomainHit fns i t).bind fun r => ?_
    cases r with
    | some wire => exact (hitFrom i wire).bind fun _ => ret _
    | none =>
      refine silent (fun _ => trivial) (fun _ _ => rfl) fun cfg => ?_
      split
      · split
        · refine (tryReadHit i _).bind fun out => ?_
          cases out with
          | some out => exact ret _
          | none => exact ret _
        · exact ret _
      · exact ret _

variable {key : CacheKey}

theorem removeFlight {i : InstId} {k : Unit → StageProg α} (hk : BaseOk (k ())) :
    BaseOk (.op (.removeFlight i key) k) :=
  op (fun _ => trivial) (fun _ _ hl => ⟨rfl, hl.2⟩) fun _ => hk

theorem followSync (i : InstId) (key : CacheKey) (gate : GateId) :
    BaseOk (followSync i key gate) := by
  unfold Conduit.followSync
  refine silent (fun _ => trivial) (fun _ _ => rfl) fun wire => ?_
  refine removeFlight ?_
  refine silent (fun _ => trivial) (fun _ _ => rfl) fun r => ?_
  cases r with
  | some entry => exact hitFrom i entry
  | none =>
    cases wire with
    | some w => exact hitFrom i w
    | none => exact ret _

/-- A lookup registers in the section that it opens. -/
theorem joinFlight (i : InstId) (key : CacheKey) (t : Transaction) :
    BaseOk (joinFlight i key t) := by
  intro l hl
  unfold Conduit.joinFlight
  simp only [call_bind]
  refine ⟨trivial, fun g _ => ⟨trivial, fun a _ =>
    ⟨⟨⟨_, rfl, rfl, rfl⟩, rfl⟩, fun role _ => ?_⟩⟩⟩
  have hn : (Local.next (Local.next (Local.next l (.gateFor i key) g) .asyncCoalesce a)
      (.register g t.id a) role).Neutral := by
    cases role <;> exact ⟨rfl, hl.2⟩
  cases role with
  | leader => exact hn
  | follower =>
    show Obeys _ _ _ (if a = true then _ else _)
    split
    · exact hn
    · exact followSync i key g _ hn

theorem lookup (fns : CacheFns) (cacheName : String) (t : Transaction) :
    BaseOk (lookup fns cacheName t) := by
  unfold Conduit.lookup
  simp only [call_bind]
  refine inst fun r => ?_
  cases r with
  | none => exact ret _
  | some i =>
    refine silent (fun _ => trivial) (fun _ _ => rfl) fun rebuilding => ?_
    split
    · exact ret _
    · split
      · exact ret _
      · split
        · refine (lookupReads fns i _ t).bind fun out => ?_
          cases out with
          | some out => exact ret _
          | none => exact joinFlight i _ t
        · exact ret _

/-! ## Fills -/

/-- The wake loop wakes what is owed. -/
theorem wakeAll_obeys (ws : List Nat) (l : Local) (hs : l.sect = none) (ho : l.owed = ws) :
    Obeys baseProto (fun l' _ => l'.Neutral) l (wakeAll ws) := by
  induction ws generalizing l with
  | nil => exact ⟨hs, ho⟩
  | cons id ws ih =>
    refine ⟨by show l.owed.head? = _; rw [ho]; rfl, fun _ _ => ih _ hs ?_⟩
    show l.owed.tail = ws
    rw [ho]; rfl

theorem wakeWaiters_obeys (ws : List Nat) (l : Local) (hs : l.sect = none) (ho : l.owed = ws) :
    Obeys baseProto (fun l' _ => l'.Neutral) l (wakeWaiters ws) := by
  refine ⟨trivial, fun r hr => ?_⟩
  cases r with
  | true => exact wakeAll_obeys ws l hs ho
  | false => exact ⟨hs, hr.resolve_left (by simp)⟩

/-- In the open section on `gate`, with no wake-up owed. -/
def InSection (l : Local) (gate : GateId) : Prop := l.Open gate ∧ l.owed = []

variable {l : Local} {gate : GateId}

theorem fillSkipped_obeys (hl : InSection l gate) (i : InstId) (key : CacheKey)
    (site : CompleteSite) (hd : site.discards = true) :
    Obeys baseProto (fun l' _ => l'.Neutral) l (fillSkipped i key gate site) := by
  refine ⟨⟨hl.1, hl.2⟩, fun ws _ => ⟨trivial, fun _ _ => ⟨rfl, ?_⟩⟩⟩
  show (if site.discards then [] else ws) = []
  rw [if_pos hd]

theorem fillStore_obeys (hl : InSection l gate) (fns : CacheFns) (i : InstId) (key : CacheKey)
    (wire : Wire) (storeKey : Option CacheKey) (t : Transaction) :
    Obeys baseProto (fun l' _ => l'.Neutral) l (fillStore fns i key gate wire storeKey t) := by
  unfold fillStore
  simp only [call_bind]
  refine ⟨trivial, fun stored _ => ?_⟩
  -- the insertion and the eviction do not change the history
  have tail : Obeys baseProto (fun l' _ => l'.Neutral) l (do
      let waiters ← perform (.complete gate (some wire) .stored)
      perform (.removeFlight i key)
      wakeWaiters waiters) :=
    ⟨⟨hl.1, hl.2⟩, fun ws _ => ⟨trivial, fun _ _ => wakeWaiters_obeys ws _ rfl rfl⟩⟩
  simp only
  split
  · split
    · exact ⟨trivial, fun _ _ => tail⟩
    · exact tail
  · exact tail

theorem fillFromForward_obeys (hl : InSection l gate) (fns : CacheFns) (cacheName : String)
    (key : CacheKey) (wire : Wire) (t : Transaction) :
    Obeys baseProto (fun l' _ => l'.Neutral) l
      (fillFromForward fns cacheName key gate wire t) := by
  unfold fillFromForward
  simp only [call_bind]
  refine ⟨trivial, fun r _ => ?_⟩
  cases r with
  | none => exact ⟨rfl, hl.2⟩
  | some i =>
    refine ⟨trivial, fun cfg _ => ⟨trivial, fun rebuilding _ => ?_⟩⟩
    have hl' : InSection (l.next (.inst cacheName) (some i)) gate := ⟨hl.1, hl.2⟩
    beta_reduce
    split
    · exact fillSkipped_obeys hl' i key .rebuilding rfl
    · split
      · exact fillSkipped_obeys hl' i key .truncated rfl
      · split
        · exact fillSkipped_obeys hl' i key .notCacheable rfl
        · exact fillStore_obeys hl' fns i key wire _ t

theorem completeInflightMiss_obeys (hl : InSection l gate) (cacheName : String) (key : CacheKey) :
    Obeys baseProto (fun l' _ => l'.Neutral) l (completeInflightMiss cacheName key gate) := by
  unfold completeInflightMiss
  refine ⟨⟨hl.1, hl.2⟩, fun ws _ => ⟨trivial, fun r _ => ?_⟩⟩
  cases r with
  | none => exact wakeWaiters_obeys ws _ rfl rfl
  | some i => exact ⟨trivial, fun _ _ => wakeWaiters_obeys ws _ rfl rfl⟩

/-- `instance_gate` opens the section of the gate that it returns. -/
theorem instanceGate_seq {cacheName : String} {f : Option GateId → StageProg α}
    (hnone : BaseOk (f none))
    (hsome : ∀ l g, InSection l g → Obeys baseProto (fun l' _ => l'.Neutral) l (f (some g))) :
    BaseOk (instanceGate cacheName key >>= f) := by
  intro l hl
  refine ⟨trivial, fun r _ => ?_⟩
  cases r with
  | none => exact hnone _ ⟨rfl, hl.2⟩
  | some i => exact ⟨trivial, fun g _ => hsome _ g ⟨⟨_, rfl, rfl, rfl⟩, hl.2⟩⟩

theorem finishFill (w : Wiring) (t : Transaction) : BaseOk (finishFill w t) := by
  unfold Conduit.finishFill
  split
  · split
    · simp only
      split
      · exact instanceGate_seq (ret _) fun l g hl => fillFromForward_obeys hl _ _ _ _ _
      · exact instanceGate_seq (ret _) fun l g hl => completeInflightMiss_obeys hl _ _
    · exact ret _
  · exact ret _

theorem resumeAfterWait (cacheName : String) (key : CacheKey) :
    BaseOk (resumeAfterWait cacheName key) := by
  intro l hl
  unfold Conduit.resumeAfterWait
  refine ⟨trivial, fun r _ => ?_⟩
  cases r with
  | none => exact ⟨rfl, hl.2⟩
  | some i =>
    refine ⟨trivial, fun g _ => ⟨trivial, fun r _ => ?_⟩⟩
    cases r with
    | some entry => exact ⟨trivial, fun _ _ => hitFrom i entry _ ⟨rfl, hl.2⟩⟩
    | none =>
      refine ⟨trivial, fun r _ => ?_⟩
      cases r with
      | some wire => exact ⟨trivial, fun _ _ => hitFrom i wire _ ⟨rfl, hl.2⟩⟩
      | none => exact ⟨rfl, hl.2⟩

/-! ## Stages -/

theorem requestRulesStage (t : Transaction) (snap : RuntimeSnapshot) :
    BaseOk (requestRulesStage t snap) := by
  unfold Conduit.requestRulesStage
  simp only [call_bind]
  refine silent (fun _ => trivial) (fun _ _ => rfl) fun world => ?_
  split <;> exact ret _

theorem responseRulesStage (t : Transaction) (snap : RuntimeSnapshot) :
    BaseOk (responseRulesStage t snap) := by
  unfold Conduit.responseRulesStage
  simp only [call_bind]
  refine silent (fun _ => trivial) (fun _ _ => rfl) fun world => ?_
  split <;> exact ret _

theorem routeStage (t : Transaction) (snap : RuntimeSnapshot) : BaseOk (routeStage t snap) := by
  unfold Conduit.routeStage
  simp only
  split
  · refine silent (fun _ => trivial) (fun _ _ => rfl) fun r => ?_
    cases r <;> exact ret _
  · exact ret _

theorem forwardStage (w : Wiring) (t : Transaction) : BaseOk (forwardStage w t) := by
  unfold Conduit.forwardStage
  split
  · unfold forwardSync
    split
    · refine silent (fun _ => trivial) (fun _ _ => rfl) fun r => ?_
      cases r <;> exact ret _
    · exact ret _
  · unfold forwardSubmit
    split
    · refine silent (fun _ => trivial) (fun _ _ => rfl) fun r => ?_
      cases r <;> exact ret _
    · exact ret _

theorem finishForwardAnswer (w : Wiring) (t : Transaction) : BaseOk (finishForwardAnswer w t) :=
  (finishFill w _).bind fun _ => ret _

theorem runForwardChain (w : Wiring) (t : Transaction) (snap : RuntimeSnapshot) :
    BaseOk (runForwardChain w t snap) := by
  unfold Conduit.runForwardChain
  simp only
  split
  · exact ret _
  · refine (routeStage _ snap).bind fun r => ?_
    split
    · refine (forwardStage w _).bind fun r => ?_
      split
      · exact ret _
      · exact finishForwardAnswer w _
      · exact finishForwardAnswer w _
      · exact ret _
      · exact ret _
    · exact ret _
    · exact ret _

theorem tryCacheProvider (w : Wiring) (cacheName : String) (t : Transaction)
    (snap : RuntimeSnapshot) : BaseOk (tryCacheProvider w cacheName t snap) := by
  unfold Conduit.tryCacheProvider
  split
  · exact (lookup _ _ _).bind fun _ => ret _
  · exact ret _

theorem runProviders (w : Wiring) (snap : RuntimeSnapshot) (ps : List CompiledLookupProvider)
    (t : Transaction) : BaseOk (runProviders w snap ps t) := by
  induction ps generalizing t with
  | nil => exact ret _
  | cons p ps ih =>
    cases p with
    | cache cacheName =>
      unfold Conduit.runProviders
      split
      · refine (tryCacheProvider w cacheName t snap).bind fun r => ?_
        split
        · exact ret _
        · exact ih _
      · exact ih _
    | forward => exact runForwardChain w t snap

theorem lookupStage (w : Wiring) (t : Transaction) (snap : RuntimeSnapshot) :
    BaseOk (lookupStage w t snap) := by
  unfold Conduit.lookupStage
  split
  · unfold resumeCacheWait
    split
    · refine (resumeAfterWait _ _).bind fun out => ?_
      split
      · exact ret _
      · exact runForwardChain w _ snap
    · exact runForwardChain w _ snap
  · split
    · exact finishForwardAnswer w _
    · split
      · exact ret _
      · exact runProviders w snap _ _

theorem runStage {w : Wiring} {t : Transaction} {snap : RuntimeSnapshot} {phase : Phase}
    {p : StageProg (Transaction × StageOutcome)} (h : runStage w t snap phase = some p) :
    BaseOk p := by
  cases phase <;> cases h
  · exact ret _
  · exact requestRulesStage t snap
  · exact lookupStage w t snap
  · exact responseRulesStage t snap
  · exact ret _

end BaseOk

/-! ## All transactions keep to the base discipline -/

/-- Where followers leave their slot ids, the wake handler is set; where they do not, no gate has
waiters and nothing is owed. -/
structure Wired (s : State) : Prop where
  handler : s.shared.asyncCoalesce = true → s.shared.wakeHandler = true
  reads : ∀ t, (s.hist.locals t).async = true → s.shared.asyncCoalesce = true
  waiters : s.shared.asyncCoalesce = false → ∀ g, (s.shared.gates g).waiters = []
  owed : s.shared.asyncCoalesce = false → ∀ t, (s.hist.locals t).owed = []

variable {s : State} {w : Wiring}

theorem wired_init (h : (machine w).init s) : Wired s := by
  obtain ⟨snap, instances, nextInst, rfl⟩ := h
  exact ⟨fun h => h, fun _ h => (by cases h), fun _ _ => rfl, fun _ _ => rfl⟩

/-- The value of `async_coalesce` that a transaction has read is the switch. -/
theorem Wired.op {s : State} {t : Tid} {o : Op} {env : Env} {r : o.Resp} {shared : Shared}
    (h : Wired s)
    (hs : o.sem env s.shared = some (r, shared)) :
    ((s.hist.locals t).next o r).async = true → shared.asyncCoalesce = true := by
  intro ha
  rw [(Op.sem_switches hs).1]
  cases o with
  | asyncCoalesce => cases hs; exact ha
  | inst name => exact h.reads t ha
  | register | gateResult => cases r <;> exact h.reads t ha
  | _ => exact h.reads t ha

/-- Without asynchronous followers, no operation leaves a waiter or takes one. -/
theorem Wired.op_sync {t : Tid} {o : Op} {env : Env} {r : o.Resp} {shared : Shared} (h : Wired s)
    (hok : base.ok (s.hist.locals t) o) (hs : o.sem env s.shared = some (r, shared))
    (ha : s.shared.asyncCoalesce = false) :
    (∀ g, (shared.gates g).waiters = []) ∧ ((s.hist.locals t).next o r).owed = [] := by
  have hw := h.waiters ha
  have ho := h.owed ha t
  cases o <;> simp only [Op.sem] at hs
  case gateFor i key =>
    split at hs <;> cases hs
    · exact ⟨hw, ho⟩
    · refine ⟨fun g => ?_, ho⟩
      show (Function.update s.shared.gates s.shared.nextGate {} g).waiters = []
      rw [Function.update_apply]
      split
      · rfl
      · exact hw g
  case register g txnId asyncWait =>
    cases hs
    have hasync : asyncWait = false := by
      rw [hok.2]
      cases hl : (s.hist.locals t).async with
      | false => rfl
      | true => rw [h.reads t hl] at ha; cases ha
    refine ⟨fun g' => ?_, ?_⟩
    · show (Function.update s.shared.gates g _ g').waiters = []
      rw [Function.update_apply]
      split
      · simp only [InFlightGate.register, hasync]
        split
        · exact hw g
        · rfl
      · exact hw g'
    · cases hrole : ((s.shared.gates g).register txnId asyncWait).2 <;> exact ho
  case complete g wire site =>
    cases hs
    refine ⟨fun g' => ?_, ?_⟩
    · show (Function.update s.shared.gates g _ g').waiters = []
      rw [Function.update_apply]
      split
      · rfl
      · exact hw g'
    · show (if site.discards then [] else (s.shared.gates g).waiters) = []
      rw [hw g, ite_self]
  case waitForResult g =>
    split at hs
    · cases hs; exact ⟨hw, ho⟩
    · split at hs
      · cases hs
      · cases hs; exact ⟨hw, ho⟩
  case wake id =>
    cases hs
    refine ⟨hw, ?_⟩
    show (s.hist.locals t).owed.tail = []
    rw [ho]; rfl
  case inst name => cases hs; exact ⟨hw, ho⟩
  case gateResult g =>
    cases hs
    refine ⟨hw, ?_⟩
    cases hres : (s.shared.gates g).result <;> exact ho
  all_goals cases hs; exact ⟨hw, ho⟩

theorem Wired.step {s' : State} {a : Act} (h : Wired s)
    (hb : ∀ t th, s.threads t = some th → base.Holds (s.hist.locals t) th) (hs : Step w s a s') :
    Wired s' := by
  cases hs with
  | op ht hp hsem =>
    rename_i t th env phase late before o k r shared
    have hok := (hb _ _ ht).ok hp
    have hsw := Op.sem_switches hsem
    have hloc : ∀ u, (s.hist.next t o r).locals u =
        if u = t then (s.hist.locals t).next o r else s.hist.locals u := fun u => by
      rw [Hist.next_locals, Function.update_apply]
    constructor
    · intro ha
      exact hsw.2.trans (h.handler (hsw.1.symm.trans ha))
    · intro u hu
      simp only [hloc] at hu
      split at hu
      · exact h.op hsem hu
      · exact hsw.1.trans (h.reads u hu)
    · intro ha
      exact (h.op_sync hok hsem (hsw.1.symm.trans ha)).1
    · intro ha u
      simp only [hloc]
      split
      · exact (h.op_sync hok hsem (hsw.1.symm.trans ha)).2
      · exact h.owed (hsw.1.symm.trans ha) u
  | start | enter | ret | resumeIo | resumeLookup | install | dropInstance | addInstance =>
    exact ⟨h.handler, h.reads, h.waiters, h.owed⟩

theorem base_enter {l : Local} {th : Thread} {late : Bool} (hl : l.Neutral) (hp : th.pos = .top) :
    base.Holds l (th.enter w late) := by
  unfold Thread.enter
  simp only
  split
  · rename_i p hp
    refine (BaseOk.runStage hp l hl).mono fun l' a hl' => ?_
    obtain ⟨after, out⟩ := a
    cases out with
    | drop => exact hl'
    | suspend _ => exact hl'
    | cont next =>
      simp only [Discipline.post]
      split <;> exact hl'
  · simp only [Discipline.Holds, hp]
    exact hl

theorem base_valid (w : Wiring) (C : State → Act → Prop) : base.Valid w C Wired where
  start _ _ := ⟨rfl, rfl⟩
  enter _ _ _ hp hl := base_enter hl hp
  may := by
    intro s t th env phase late before o k r sh hi _ _ _ hs _
    cases o <;> try trivial
    case wakeHandler =>
      cases hs
      cases ha : s.shared.asyncCoalesce with
      | true => exact .inl (hi.handler ha)
      | false => exact .inr (hi.owed ha t)
  resumeIo _ _ _ hl := hl
  resumeLookup _ _ _ hl := hl

/-- In every run, the registry is wired and all transactions keep to the base discipline. -/
theorem base_holds {C : State → Act → Prop} (hr : (machine w).Reach C s) :
    Wired s ∧ ∀ t th, s.threads t = some th → base.Holds (s.hist.locals t) th :=
  (base_valid w C).holds (fun _ => wired_init) (fun _ _ _ h hb _ hs => h.step hb hs) hr

end Conduit
