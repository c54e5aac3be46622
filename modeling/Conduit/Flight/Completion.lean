import Conduit.Flight.Base

/-!
# Completion of the flights

Every flight is completed by the time its leader has finished: no gate stays active after its leader
(`LeadersDone`).

`finish_forward_answer` is the only place that completes a gate, and a leader has other ways out:
the deadline check after a suspend, a hit of a second cache, the attempt limit, a profile without a
forward provider, no pool or no backend, a forward that is refused, and a fill that finds another
instance or another gate under its names. In the runs where no leader takes one of these
(`KeepsFlight`) every flight is completed.

- `keeper`: the discipline of a leader on its way from the registration to its completion.
- `Led`: the leader of the current flight of a gate still leads it.
-/

namespace Conduit

open Function (update update_apply update_of_ne update_self)

open Prog

/-- The rest of the lookup stage gets to a forward: an attempt is left, there is a pool, and the
profile has a forward provider. -/
def ForwardAhead (t : Transaction) (snap : RuntimeSnapshot) : Prop :=
  t.attemptCount < snap.maxAttempts ∧ (takePoolName t snap).2.isSome = true ∧
    ∃ p ∈ snap.profiles (t.lookupProfile.getD "default"), .forward ∈ p.providers

instance (t : Transaction) (snap : RuntimeSnapshot) : Decidable (ForwardAhead t snap) :=
  inferInstanceAs (Decidable (_ ∧ _ ∧ _))

/-- A registration that starts a flight is made where a forward follows. -/
def LeadsAhead (s : State) (th : Thread) : Op → Prop
  | .register g _ _ => (s.shared.gates g).leaderActive = false → ForwardAhead th.txn th.snap
  | _ => True

/-- An operation of the leader of `f` does not turn it away from its completion. -/
def KeepsOp (s : State) (env : Env) (f : Flight) : Op → Prop
  | .inst name => name = f.name → s.shared.instances name = some f.inst
  | .gateFor i key => i = f.inst → key = f.key → s.shared.flights i key = some f.gate
  | .register g _ asyncWait => (s.shared.gates g).leaderActive = true ∧ asyncWait = false
  | .prepareServed _ _ => env.served = none
  | .selectBackend _ _ _ => env.backend.isSome = true
  | .exchange _ => env.exchange ≠ .refused ∧ env.exchange ≠ .error
  | .submit _ => env.submitted = .sent
  | _ => True

/-- The condition on the steps. -/
def KeepsFlight (s : State) : Act → Prop
  | .enter t late => (s.hist.locals t).lead.isSome = true → late = false
  | .op t env => ∀ th ∈ s.threads t, ∀ o ∈ th.nextOp,
    ((s.hist.locals t).lead = none → LeadsAhead s th o) ∧
    ∀ f ∈ (s.hist.locals t).lead, KeepsOp s env f o
  | _ => True

instance (s : State) (th : Thread) (o : Op) : Decidable (LeadsAhead s th o) := by
  cases o <;> dsimp only [LeadsAhead] <;> infer_instance

instance (s : State) (env : Env) (f : Flight) (o : Op) : Decidable (KeepsOp s env f o) := by
  cases o <;> dsimp only [KeepsOp] <;> infer_instance

instance (s : State) (a : Act) : Decidable (KeepsFlight s a) := by
  cases a <;> dsimp only [KeepsFlight] <;> infer_instance

/-- The flights of a finished leader have been completed, and an active gate has a leader that has
not finished. -/
def LeadersDone (s : State) : Prop :=
  (∀ t th out g n, s.threads t = some th → th.pos = .finished out →
    s.hist.leader g n = some t → n < s.hist.flight g) ∧
  ∀ g, (s.shared.gates g).leaderActive = true →
    ∃ t th, s.hist.leader g (s.hist.flight g) = some t ∧ s.threads t = some th ∧
      ∀ out, th.pos ≠ .finished out

/-! ## The discipline of a leader -/

/-- The leader is on its way: its submitted forward is out, and the fill is the one of its flight.
-/
def Pending (w : Wiring) (l : Local) (t : Transaction) : Prop :=
  ∃ f, l.lead = some f ∧ w.cache = true ∧ t.lookupForwardStep = some .wait ∧
    t.lookupCacheWait = none ∧ t.lookupCacheFill = some ⟨f.name, f.key⟩

def keeper (w : Wiring) : Discipline where
  ok l
    | .complete g _ _ => ∀ f, l.lead = some f → f.gate = g
    | _ => True
  may t snap l
    | .inst name, r => ∀ f, l.lead = some f → name = f.name → r = some f.inst
    | .gateFor i key, r => ∀ f, l.lead = some f → i = f.inst → key = f.key → r = f.gate
    | .register _ _ asyncWait, r =>
      (l.lead = none → r = .leader → ForwardAhead t snap) ∧
      (l.lead ≠ none → r = .follower ∧ asyncWait = false)
    | .prepareServed _ _, r => l.lead ≠ none → r = none
    | .selectBackend _ _ _, r => l.lead ≠ none → r ≠ none
    | .exchange _, r => l.lead ≠ none → r ≠ .refused ∧ r ≠ .error
    | .submit _, r => l.lead ≠ none → r = .sent
    | _, _ => True
  rest l t := l.lead = none ∨ (t.currentPhase = .lookup ∧ Pending w l t)
  susp l t := l.lead = none ∨ Pending w l t
  done l := l.lead = none

namespace keeper

variable {w : Wiring} {tx : Transaction} {sn : RuntimeSnapshot} {l : Local}

/-- A leader gets no hit. -/
def Served (l : Local) (out : CacheLookupOutcome) : Prop :=
  out = .bypass ∨ (l.lead = none ∧ ∃ wire name skip, out = .hit wire name skip)

theorem hitFrom (i : InstId) (wire : Wire) :
    Obeys ((keeper w).proto tx sn) (fun l' out => l' = l ∧ Served l out) l (hitFrom i wire) := by
  unfold Conduit.hitFrom
  refine ⟨trivial, fun cfg _ => ⟨trivial, fun r hr => ?_⟩⟩
  cases r with
  | none => exact ⟨rfl, .inl rfl⟩
  | some wire' =>
    have hlead : l.lead = none := by
      by_contra hne
      cases hr hne
    exact ⟨rfl, .inr ⟨hlead, _, _, _, rfl⟩⟩

theorem tryReadHit (i : InstId) (key : CacheKey) :
    Obeys ((keeper w).proto tx sn) (fun l' out => l' = l ∧ ∀ o, out = some o → Served l o) l
      (tryReadHit i key) := by
  unfold Conduit.tryReadHit
  refine ⟨trivial, fun r _ => ?_⟩
  cases r with
  | none => exact ⟨rfl, fun o ho => by cases ho⟩
  | some wire =>
    refine (hitFrom i wire).seq fun l' out ⟨hl, hs⟩ => ⟨hl, fun o ho => ?_⟩
    cases ho
    exact hs

theorem lookupReads (fns : CacheFns) (i : InstId) (key : CacheKey) (t : Transaction) :
    Obeys ((keeper w).proto tx sn) (fun l' out => l' = l ∧ ∀ o, out = some o → Served l o) l
      (lookupReads fns i key t) := by
  have none_ok : ∀ o, (none : Option CacheLookupOutcome) = some o → Served l o := by
    intro o ho
    cases ho
  have some_ok : ∀ {out}, Served l out → ∀ o, some out = some o → Served l o := by
    intro out hs o ho
    cases ho
    exact hs
  unfold Conduit.lookupReads
  simp only [call_bind]
  refine (tryReadHit i key).seq fun l₁ out ⟨hl, hs⟩ => ?_
  subst hl
  cases out with
  | some out => exact ⟨rfl, hs⟩
  | none =>
    have hreads : ReadsFreely ((keeper w).proto tx sn) l₁ i :=
      ⟨trivial, fun _ => rfl, fun _ => trivial, fun _ _ => rfl⟩
    refine (tryAncestorNxdomainHit_obeys hreads fns t).seq fun l₂ r ⟨hl, _⟩ => ?_
    subst hl
    cases r with
    | some wire =>
      exact (hitFrom i wire).seq fun l₂ out ⟨hl, hs⟩ => ⟨hl, some_ok hs⟩
    | none =>
      refine ⟨trivial, fun cfg _ => ?_⟩
      beta_reduce
      split
      · split
        · refine (tryReadHit i _).seq fun l₂ out ⟨hl, hs⟩ => ?_
          cases out with
          | some out => exact ⟨hl, hs⟩
          | none => exact ⟨hl, none_ok⟩
        · exact ⟨rfl, none_ok⟩
      · exact ⟨rfl, none_ok⟩

theorem followSync (i : InstId) (key : CacheKey) (gate : GateId) :
    Obeys ((keeper w).proto tx sn) (fun l' out => l'.lead = l.lead ∧ Served l out) l
      (followSync i key gate) := by
  unfold Conduit.followSync
  refine ⟨trivial, fun wire _ => ⟨trivial, fun _ _ => ⟨trivial, fun r _ => ?_⟩⟩⟩
  -- the removal closes the section and keeps the lead
  have serve : ∀ wire, Obeys ((keeper w).proto tx sn) (fun l' out => l'.lead = l.lead ∧ Served l out)
      { l with sect := none } (Conduit.hitFrom i wire) := by
    intro wire
    refine (hitFrom i wire).mono ?_
    rintro l' out ⟨rfl, hs⟩
    exact ⟨rfl, hs⟩
  cases r with
  | some entry => exact serve entry
  | none =>
    cases wire with
    | some wire => exact serve wire
    | none => exact ⟨rfl, .inl rfl⟩

/-- The history after a lookup in the instance `cacheName`: a miss leads, and only a bypass leaves
a leader on its way. -/
def LookupPost (tx : Transaction) (sn : RuntimeSnapshot) (cacheName : String) (l l' : Local) :
    CacheLookupOutcome → Prop
  | .miss key g =>
    l.lead = none ∧ ForwardAhead tx sn ∧ ∃ i, l'.lead = some ⟨cacheName, i, key, g⟩
  | .waitAsync _ => l.lead = none ∧ l'.lead = none
  | .hit _ _ _ => l.lead = none ∧ l'.lead = none
  | .bypass => l'.lead = l.lead

theorem Served.post {l' : Local} {out : CacheLookupOutcome} {cacheName : String} (hs : Served l out)
    (hl : l'.lead = l.lead) : LookupPost tx sn cacheName l l' out := by
  rcases hs with rfl | ⟨hn, _, _, _, rfl⟩
  · exact hl
  · exact ⟨hn, hl.trans hn⟩

theorem joinFlight (i : InstId) (key : CacheKey) (t : Transaction) :
    Obeys ((keeper w).proto tx sn) (LookupPost tx sn l.name l) l (joinFlight i key t) := by
  unfold Conduit.joinFlight
  simp only [call_bind]
  refine ⟨trivial, fun g _ => ⟨trivial, fun a _ => ⟨trivial, fun role hrole => ?_⟩⟩⟩
  cases role with
  | leader =>
    have hlead : l.lead = none := by
      by_contra hne
      cases (hrole.2 hne).1
    exact ⟨hlead, hrole.1 hlead rfl, i, rfl⟩
  | follower =>
    show Obeys _ _ _ (if a = true then _ else _)
    split
    · rename_i ha
      have hlead : l.lead = none := by
        by_contra hne
        have := (hrole.2 hne).2
        rw [ha] at this
        cases this
      exact ⟨hlead, hlead⟩
    · exact (followSync i key g).mono fun l' out ⟨hl, hs⟩ => Served.post (l := l) hs hl

theorem lookup (fns : CacheFns) (cacheName : String) (t : Transaction) :
    Obeys ((keeper w).proto tx sn) (LookupPost tx sn cacheName l) l (lookup fns cacheName t) := by
  unfold Conduit.lookup
  simp only [call_bind]
  refine ⟨trivial, fun r _ => ?_⟩
  cases r with
  | none => exact rfl
  | some i =>
    refine ⟨trivial, fun rebuilding _ => ?_⟩
    beta_reduce
    split
    · exact rfl
    · split
      · exact rfl
      · split
        · refine (lookupReads fns i _ t).seq fun l₁ out ⟨hl, hs⟩ => ?_
          subst hl
          cases out with
          | some out => exact Served.post (l := l) (hs out rfl) rfl
          | none => exact joinFlight i _ t
        · exact rfl

/-! ### Fills -/

theorem wakeAll (ws : List Nat) (hl : l.lead = none) :
    Obeys ((keeper w).proto tx sn) (fun l' _ => l'.lead = none) l (wakeAll ws) := by
  induction ws generalizing l with
  | nil => exact hl
  | cons id ws ih => exact ⟨trivial, fun _ _ => ih (l := l.next (.wake id) ()) hl⟩

theorem wakeWaiters (ws : List Nat) (hl : l.lead = none) :
    Obeys ((keeper w).proto tx sn) (fun l' _ => l'.lead = none) l (wakeWaiters ws) := by
  refine ⟨trivial, fun r _ => ?_⟩
  cases r with
  | false => exact hl
  | true => exact wakeAll ws hl

/-- If the transaction leads a flight, the gate is the one of the flight, and the name is the one
it registered under. -/
def InFill (l : Local) (g : GateId) (name : String) : Prop :=
  ∀ f, l.lead = some f → f.gate = g ∧ f.name = name

variable {name : String} {g : GateId}

theorem complete_then (hf : InFill l g name) {wire : Option Wire} {site : CompleteSite}
    {k : List Nat → StageProg Unit}
    (hk : ∀ ws l', l'.lead = none → Obeys ((keeper w).proto tx sn) (fun l' _ => l'.lead = none) l'
      (k ws)) :
    Obeys ((keeper w).proto tx sn) (fun l' _ => l'.lead = none) l (.op (.complete g wire site) k) :=
  ⟨fun f hlead => (hf f hlead).1, fun ws _ => hk ws _ rfl⟩

theorem fillSkipped (hf : InFill l g name) (i : InstId) (key : CacheKey) (site : CompleteSite) :
    Obeys ((keeper w).proto tx sn) (fun l' _ => l'.lead = none) l (fillSkipped i key g site) :=
  complete_then hf fun _ _ hl => ⟨trivial, fun _ _ => hl⟩

theorem fillStore (hf : InFill l g name) (fns : CacheFns) (i : InstId) (key : CacheKey)
    (wire : Wire) (storeKey : Option CacheKey) (t : Transaction) :
    Obeys ((keeper w).proto tx sn) (fun l' _ => l'.lead = none) l
      (fillStore fns i key g wire storeKey t) := by
  have tail : Obeys ((keeper w).proto tx sn) (fun l' _ => l'.lead = none) l (do
      let waiters ← perform (.complete g (some wire) .stored)
      perform (.removeFlight i key)
      Conduit.wakeWaiters waiters) :=
    complete_then hf fun ws l' hl => ⟨trivial, fun _ _ => wakeWaiters ws hl⟩
  unfold Conduit.fillStore
  simp only [call_bind]
  refine ⟨trivial, fun stored _ => ?_⟩
  beta_reduce
  split
  · split
    · exact ⟨trivial, fun _ _ => tail⟩
    · exact tail
  · exact tail

theorem fillFromForward (hf : InFill l g name) (fns : CacheFns) (key : CacheKey) (wire : Wire)
    (t : Transaction) :
    Obeys ((keeper w).proto tx sn) (fun l' _ => l'.lead = none) l
      (fillFromForward fns name key g wire t) := by
  unfold Conduit.fillFromForward
  simp only [call_bind]
  refine ⟨trivial, fun r hr => ?_⟩
  cases r with
  | none =>
    -- an unknown instance: then the transaction leads nothing
    show l.lead = none
    cases hlead : l.lead with
    | none => rfl
    | some f => cases hr f hlead (hf f hlead).2.symm
  | some i =>
    refine ⟨trivial, fun cfg _ => ⟨trivial, fun rebuilding _ => ?_⟩⟩
    have hf' : InFill (l.next (.inst name) (some i)) g name := hf
    beta_reduce
    split
    · exact fillSkipped hf' i key .rebuilding
    · split
      · exact fillSkipped hf' i key .truncated
      · split
        · exact fillSkipped hf' i key .notCacheable
        · exact fillStore hf' fns i key wire _ t

theorem completeInflightMiss (hf : InFill l g name) (key : CacheKey) :
    Obeys ((keeper w).proto tx sn) (fun l' _ => l'.lead = none) l
      (completeInflightMiss name key g) := by
  unfold Conduit.completeInflightMiss
  refine complete_then hf fun ws l' hl => ⟨trivial, fun r _ => ?_⟩
  cases r with
  | none => exact wakeWaiters ws hl
  | some i => exact ⟨trivial, fun _ _ => wakeWaiters ws hl⟩

/-- The fill that the transaction has to do is the one of the flight it leads. -/
def OnFill (w : Wiring) (l : Local) (t : Transaction) : Prop :=
  ∀ f, l.lead = some f → w.cache = true ∧ t.lookupCacheFill = some ⟨f.name, f.key⟩

theorem instanceGate_seq {key : CacheKey} {f : Option GateId → StageProg Unit}
    (hl : ∀ f, l.lead = some f → f.name = name ∧ f.key = key) (hnone : f none = .ret ())
    (hsome : ∀ l g, InFill l g name →
      Obeys ((keeper w).proto tx sn) (fun l' _ => l'.lead = none) l (f (some g))) :
    Obeys ((keeper w).proto tx sn) (fun l' _ => l'.lead = none) l
      (instanceGate name key >>= f) := by
  refine ⟨trivial, fun r hr => ?_⟩
  cases r with
  | none =>
    show Obeys _ _ _ (f none)
    rw [hnone]
    show l.lead = none
    cases hlead : l.lead with
    | none => rfl
    | some a => cases hr a hlead (hl a hlead).1.symm
  | some i =>
    refine ⟨trivial, fun g hg => hsome _ g fun a hlead => ⟨?_, (hl a hlead).1⟩⟩
    -- the instance and the key are the flight's, so the gate is
    have hi : some i = some a.inst := hr a hlead (hl a hlead).1.symm
    exact (hg a hlead (Option.some.inj hi) (hl a hlead).2.symm).symm

variable {t : Transaction}

theorem finishFill (hl : OnFill w l t) :
    Obeys ((keeper w).proto tx sn) (fun l' _ => l'.lead = none) l (finishFill w t) := by
  unfold Conduit.finishFill
  split
  · split
    · rename_i fill hfill
      have hnames : ∀ f, l.lead = some f → f.name = fill.cacheName ∧ f.key = fill.key := by
        intro f hlead
        have h := (hl f hlead).2
        rw [hfill] at h
        cases h
        exact ⟨rfl, rfl⟩
      simp only
      split
      · exact instanceGate_seq hnames rfl fun l' g hf => fillFromForward hf _ _ _ _
      · exact instanceGate_seq hnames rfl fun l' g hf => completeInflightMiss hf _
    · rename_i hfill
      show l.lead = none
      cases hlead : l.lead with
      | none => rfl
      | some f => exact (hfill _ (hl f hlead).2).elim
  · rename_i hcache
    show l.lead = none
    cases hlead : l.lead with
    | none => rfl
    | some f => exact absurd (hl f hlead).1 hcache

/-! ### Stages -/

theorem post_of_none {phase : Phase} (hl : l.lead = none) (r : Transaction × StageOutcome) :
    (keeper w).post phase l r := by
  obtain ⟨after, out⟩ := r
  cases out with
  | drop => exact hl
  | suspend _ => exact .inl hl
  | cont next =>
    simp only [Discipline.post]
    split
    · exact hl
    · exact .inl hl

theorem finishForwardAnswer (hl : OnFill w l t) :
    Obeys ((keeper w).proto tx sn) ((keeper w).post .lookup) l (finishForwardAnswer w t) := by
  have hl' : OnFill w l (waitResponseStage w.fns.codec t) := by
    unfold waitResponseStage recordUpstreamResponse
    split
    · split <;> exact hl
    · exact hl
  exact (finishFill hl').seq fun l' _ hn => post_of_none hn _

/-- The stage did not touch the wait and the fill of the transaction. -/
def SameTargets (t t' : Transaction) : Prop :=
  t'.lookupCacheFill = t.lookupCacheFill ∧ t'.lookupCacheWait = t.lookupCacheWait

theorem SameTargets.takeEffectiveSources (t : Transaction) :
    SameTargets t t.takeEffectiveSources := by
  unfold Transaction.takeEffectiveSources
  split <;> exact ⟨rfl, rfl⟩

theorem SameTargets.finishResponse (c : Codec) (t : Transaction) (wire : Wire) :
    SameTargets t (finishResponse c t.takeEffectiveSources wire) := by
  have h := SameTargets.takeEffectiveSources t
  unfold Conduit.finishResponse recordUpstreamResponse
  simp only
  split <;> exact h

theorem SameTargets.takePoolName (t : Transaction) (snap : RuntimeSnapshot) :
    SameTargets t (takePoolName t snap).1 := by
  unfold Conduit.takePoolName
  split <;> exact ⟨rfl, rfl⟩

theorem takePoolName_snd (t : Transaction) (snap : RuntimeSnapshot) :
    (Conduit.takePoolName t snap).2 =
      (if t.attemptCount > 0 then t.retryPool.or t.selectedPool else t.selectedPool).or
        snap.defaultPoolName := by
  unfold Conduit.takePoolName
  split <;> rfl

/-- A leader that has a pool is routed to a backend. -/
theorem routeStage (t : Transaction) (snap : RuntimeSnapshot) :
    Obeys ((keeper w).proto tx sn) (fun l' r => l' = l ∧ SameTargets t r.1 ∧
      (l.lead ≠ none → (takePoolName t snap).2.isSome = true →
        r.2 = .cont .forward ∧ r.1.selectedBackend.isSome = true)) l (routeStage t snap) := by
  have hsame := SameTargets.takePoolName t snap
  unfold Conduit.routeStage
  simp only [call_bind]
  split
  · refine ⟨trivial, fun r hr => ?_⟩
    cases r with
    | none => exact ⟨rfl, hsame, fun hne => absurd rfl (hr hne)⟩
    | some b => exact ⟨rfl, hsame, fun _ _ => ⟨rfl, rfl⟩⟩
  · rename_i hpool
    refine ⟨rfl, hsame, fun _ hsome => ?_⟩
    obtain ⟨pool, hp⟩ := Option.isSome_iff_exists.mp hsome
    exact (hpool pool hp).elim

/-- The forward of a leader is sent or answered. -/
theorem forwardStage (t : Transaction) :
    Obeys ((keeper w).proto tx sn) (fun l' r => l' = l ∧ SameTargets t r.1 ∧
      (l.lead ≠ none → t.selectedBackend.isSome = true →
        r.2 = .cont .responseRules ∨ r.2 = .suspend .waitResponse)) l (forwardStage w t) := by
  have hsources := SameTargets.takeEffectiveSources t
  unfold Conduit.forwardStage
  split
  · unfold forwardSync
    simp only [call_bind]
    split
    · refine ⟨trivial, fun r hr => ?_⟩
      cases r with
      | refused => exact ⟨rfl, ⟨rfl, rfl⟩, fun hne => absurd rfl (hr hne).1⟩
      | error => exact ⟨rfl, hsources, fun hne => absurd rfl (hr hne).2⟩
      | answer wire => exact ⟨rfl, SameTargets.finishResponse _ t wire, fun _ _ => .inl rfl⟩
      | timeout => exact ⟨rfl, hsources, fun _ _ => .inl rfl⟩
    · rename_i hnone
      refine ⟨rfl, ⟨rfl, rfl⟩, fun _ hsome => ?_⟩
      obtain ⟨b, hb⟩ := Option.isSome_iff_exists.mp hsome
      exact (hnone b hb).elim
  · unfold forwardSubmit
    simp only [call_bind]
    split
    · refine ⟨trivial, fun r hr => ?_⟩
      cases r with
      | refused => exact ⟨rfl, ⟨rfl, rfl⟩, fun hne => by cases hr hne⟩
      | error => exact ⟨rfl, hsources, fun hne => by cases hr hne⟩
      | sent => exact ⟨rfl, hsources, fun _ _ => .inr rfl⟩
    · rename_i hnone
      refine ⟨rfl, ⟨rfl, rfl⟩, fun _ hsome => ?_⟩
      obtain ⟨b, hb⟩ := Option.isSome_iff_exists.mp hsome
      exact (hnone b hb).elim

/-- A transaction that leads a flight is set up for its fill. -/
def Ready (w : Wiring) (l : Local) (t : Transaction) : Prop :=
  OnFill w l t ∧ (l.lead ≠ none → t.lookupCacheWait = none)

theorem Ready.same {t t' : Transaction} (h : Ready w l t) (hs : SameTargets t t') :
    Ready w l t' :=
  ⟨fun f hf => ⟨(h.1 f hf).1, hs.1.trans (h.1 f hf).2⟩, fun hne => hs.2.trans (h.2 hne)⟩

theorem forwardThenFinish (hl : Ready w l t) (hb : l.lead ≠ none → t.selectedBackend.isSome = true) :
    Obeys ((keeper w).proto tx sn) ((keeper w).post .lookup) l (forwardThenFinish w t) := by
  unfold Conduit.forwardThenFinish
  refine (forwardStage t).seq ?_
  rintro l' ⟨t', out⟩ ⟨rfl, hsame, hout⟩
  have hr := hl.same hsame
  -- a leader gets here only with an answer or a sent query
  have away : out ≠ .cont .responseRules → out ≠ .suspend .waitResponse → l'.lead = none := by
    intro h1 h2
    by_contra hne
    rcases hout hne (hb hne) with h | h
    · exact h1 h
    · exact h2 h
  split
  · rename_i heq
    cases heq
    cases hlead : l'.lead with
    | none => exact .inl hlead
    | some f =>
      have hne : l'.lead ≠ none := by rw [hlead]; exact Option.some_ne_none f
      exact .inr ⟨f, hlead, (hr.1 f hlead).1, rfl, hr.2 hne, (hr.1 f hlead).2⟩
  · rename_i heq
    cases heq
    exact finishForwardAnswer hr.1
  · rename_i heq
    cases heq
    exact finishForwardAnswer hr.1
  · rename_i heq
    cases heq
    exact away (by simp) (by simp)
  · rename_i h1 h2 h3 h4 heq
    cases heq
    refine post_of_none (away ?_ ?_) _
    · rintro rfl; exact h3 rfl
    · rintro rfl; exact h1 rfl

/-- The forward chain of a leader with an attempt left and a pool. -/
theorem runForwardChain {snap : RuntimeSnapshot} (hl : Ready w l t)
    (hahead : l.lead ≠ none →
      t.attemptCount < snap.maxAttempts ∧ (takePoolName t snap).2.isSome = true) :
    Obeys ((keeper w).proto tx sn) ((keeper w).post .lookup) l (runForwardChain w t snap) := by
  unfold Conduit.runForwardChain
  simp only
  split
  · rename_i hmax
    refine post_of_none ?_ _
    by_contra hne
    exact absurd (hahead hne).1 (Nat.not_lt.mpr hmax)
  · refine (routeStage _ snap).seq ?_
    rintro l' ⟨t', out⟩ ⟨rfl, hsame, hout⟩
    have hr : Ready w l' t' := Ready.same (t := { t with cacheLookupEligible := false }) hl hsame
    have hpool : l'.lead ≠ none → (takePoolName
        { t with cacheLookupEligible := false } snap).2.isSome = true := by
      intro hne
      have h := (hahead hne).2
      rw [takePoolName_snd] at h ⊢
      exact h
    have away : out ≠ .cont .forward → l'.lead = none := by
      intro h
      by_contra hne
      exact h (hout hne (hpool hne)).1
    split
    · rename_i heq
      cases heq
      exact forwardThenFinish hr fun hne => (hout hne (hpool hne)).2
    · rename_i heq
      cases heq
      exact away (by simp)
    · rename_i h1 h2 heq
      cases heq
      exact post_of_none (away (by rintro rfl; exact h1 rfl)) _

/-- The provider loop: a leader has a forward ahead. -/
theorem runProviders (ps : List CompiledLookupProvider) (hl : Ready w l t)
    (hw : t.lookupCacheWait = none)
    (hahead : ForwardAhead tx sn →
      (t.attemptCount < sn.maxAttempts ∧ (takePoolName t sn).2.isSome = true) ∧ .forward ∈ ps)
    (hlead : l.lead ≠ none → ForwardAhead tx sn) :
    Obeys ((keeper w).proto tx sn) ((keeper w).post .lookup) l (runProviders w sn ps t) := by
  induction ps generalizing t l with
  | nil =>
    refine post_of_none ?_ _
    by_contra hne
    cases (hahead (hlead hne)).2
  | cons p ps ih =>
    cases p with
    | forward => exact runForwardChain hl fun hne => (hahead (hlead hne)).1
    | cache cacheName =>
      -- the forward provider is behind this one
      have hrest : ∀ {t' : Transaction}, t'.attemptCount = t.attemptCount →
          (takePoolName t' sn).2 = (takePoolName t sn).2 → ForwardAhead tx sn →
          (t'.attemptCount < sn.maxAttempts ∧ (takePoolName t' sn).2.isSome = true) ∧
            .forward ∈ ps := by
        intro t' h1 h2 ha
        obtain ⟨h3, h4⟩ := hahead ha
        rw [h1, h2]
        refine ⟨h3, ?_⟩
        rcases List.mem_cons.mp h4 with h | h
        · cases h
        · exact h
      unfold Conduit.runProviders
      split
      · unfold tryCacheProvider
        split
        · rename_i hcache
          have hcache : w.cache = true := by simp_all
          refine ((lookup w.fns cacheName t).seq fun l₁ out hout => ?_).bind
          cases out with
          | hit wire name skip => exact post_of_none hout.2 _
          | waitAsync key => exact .inl hout.2
          | miss key g =>
            obtain ⟨-, ha, i, hi⟩ := hout
            refine ih ⟨fun f hf => ?_, fun _ => hw⟩ hw
              (hrest rfl (by rw [takePoolName_snd, takePoolName_snd])) fun _ => ha
            rw [hi] at hf
            cases hf
            exact ⟨hcache, rfl⟩
          | bypass =>
            have hl₁ : l₁.lead = l.lead := hout
            refine ih ⟨fun f hf => hl.1 f (hl₁ ▸ hf), fun _ => hw⟩ hw (hrest rfl rfl) ?_
            rw [hl₁]
            exact hlead
        · exact ih hl hw (hrest rfl rfl) hlead
      · exact ih hl hw (hrest rfl rfl) hlead

/-- A waiter that is resumed leads nothing, and gets to the forward chain in any case. -/
theorem resumeAfterWait (cacheName : String) (key : CacheKey) (hl : l.lead = none) :
    Obeys ((keeper w).proto tx sn) (fun l' _ => l'.lead = none) l
      (resumeAfterWait cacheName key) := by
  have serve : ∀ (l₁ : Local), l₁.lead = none → ∀ i wire,
      Obeys ((keeper w).proto tx sn) (fun l' _ => l'.lead = none) l₁ (Conduit.hitFrom i wire) :=
    fun l₁ h₁ i wire => (hitFrom i wire).mono fun l' out hp => hp.1 ▸ h₁
  unfold Conduit.resumeAfterWait
  refine ⟨trivial, fun r _ => ?_⟩
  cases r with
  | none => exact hl
  | some i =>
    refine ⟨trivial, fun g _ => ⟨trivial, fun r _ => ?_⟩⟩
    cases r with
    | some entry =>
      refine ⟨trivial, fun _ _ => ?_⟩
      apply serve
      exact hl
    | none =>
      refine ⟨trivial, fun r _ => ?_⟩
      cases r with
      | some wire =>
        refine ⟨trivial, fun _ _ => ?_⟩
        apply serve
        exact hl
      | none => exact hl

theorem ready_of_none (hl : l.lead = none) : Ready w l t := by
  constructor
  · intro f hf
    rw [hl] at hf
    cases hf
  · intro hne
    exact absurd hl hne

theorem resumeCacheWait {wait : CacheTarget} (hl : l.lead = none) :
    Obeys ((keeper w).proto tx sn) ((keeper w).post .lookup) l (resumeCacheWait w t wait sn) := by
  unfold Conduit.resumeCacheWait
  split
  · refine (resumeAfterWait wait.cacheName wait.key hl).seq fun l₁ out h₁ => ?_
    split
    · exact post_of_none h₁ _
    · exact runForwardChain (ready_of_none h₁) fun hne => absurd h₁ hne
  · exact runForwardChain (ready_of_none hl) fun hne => absurd hl hne

/-- The lookup stage, of a transaction that leads nothing or comes back from its forward. -/
theorem lookupStage (hl : l.lead = none ∨ Pending w l tx) :
    Obeys ((keeper w).proto tx sn) ((keeper w).post .lookup) l (lookupStage w tx sn) := by
  unfold Conduit.lookupStage
  split
  · rename_i wait hwait
    rcases hl with hl | ⟨f, hlead, hc, hstep, hnowait, hfill⟩
    · exact resumeCacheWait hl
    · rw [hnowait] at hwait
      cases hwait
  · rename_i hnowait
    split
    · rename_i hstep
      refine finishForwardAnswer fun f hf => ?_
      rcases hl with hl | ⟨f', hlead, hc, -, -, hfill⟩
      · rw [hl] at hf
        cases hf
      · rw [hlead] at hf
        cases hf
        exact ⟨hc, hfill⟩
    · rename_i hstep
      have hnone : l.lead = none := by
        rcases hl with hl | ⟨f, -, -, h, -⟩
        · exact hl
        · exact absurd h hstep
      split
      · exact post_of_none hnone _
      · rename_i profile hprofile
        refine runProviders profile.providers (ready_of_none hnone) hnowait ?_
          fun hne => absurd hnone hne
        rintro ⟨hatt, hpool, p, hp, hforward⟩
        rw [hprofile] at hp
        cases hp
        rw [takePoolName_snd] at hpool ⊢
        exact ⟨⟨hatt, hpool⟩, hforward⟩

theorem runStage {p : StageProg (Transaction × StageOutcome)}
    (h : runStage w tx sn tx.currentPhase = some p)
    (hl : l.lead = none ∨ (tx.currentPhase = .lookup ∧ Pending w l tx)) :
    Obeys ((keeper w).proto tx sn) ((keeper w).post tx.currentPhase) l p := by
  have other : tx.currentPhase ≠ .lookup → l.lead = none := by
    intro hne
    rcases hl with hl | ⟨hphase, -⟩
    · exact hl
    · exact absurd hphase hne
  cases hphase : tx.currentPhase <;> rw [hphase] at h other <;> cases h
  case lookup =>
    refine lookupStage ?_
    rcases hl with hl | ⟨-, hl⟩
    · exact .inl hl
    · exact .inr hl
  case parse => exact post_of_none (other (by simp)) _
  case send => exact post_of_none (other (by simp)) _
  case requestRules | responseRules =>
    simp only [requestRulesStage, responseRulesStage, call_bind]
    refine ⟨trivial, fun world _ => ?_⟩
    beta_reduce
    split <;> exact post_of_none (other (by simp)) _

/-- Between a registration and the completion the deadline does not fire, so the stage of the phase
is entered. -/
theorem enter {th : Thread} {late : Bool} (hp : th.pos = .top)
    (hlate : l.lead.isSome = true → late = false)
    (hl : (keeper w).rest l th.txn) : (keeper w).Holds l (th.enter w late) := by
  have hl' : (keeper w).rest l (Thread.checkDeadline th.txn late) := by
    rcases hl with hl | ⟨hphase, hpend⟩
    · exact .inl hl
    · obtain ⟨f, hlead, -⟩ := id hpend
      rw [hlate (by rw [hlead]; rfl)]
      exact .inr ⟨hphase, hpend⟩
  unfold Thread.enter
  simp only
  split
  · rename_i p hp
    exact runStage hp hl'
  · rename_i hnone
    simp only [Discipline.Holds, hp]
    rcases hl' with hl' | ⟨hphase, -⟩
    · exact .inl hl'
    · rw [hphase] at hnone
      cases hnone

end keeper

variable {s : State} {w : Wiring}

theorem keeper_may {t : Tid} {th : Thread} {env : Env} {o : Op} {r : o.Resp} {sh : Shared}
    (hnone : (s.hist.locals t).lead = none → LeadsAhead s th o)
    (hsome : ∀ f, (s.hist.locals t).lead = some f → KeepsOp s env f o)
    (hs : o.sem env s.shared = some (r, sh)) :
    (keeper w).may th.txn th.snap (s.hist.locals t) o r := by
  have leading : (s.hist.locals t).lead ≠ none → ∃ f, KeepsOp s env f o := by
    intro hne
    obtain ⟨f, hf⟩ := Option.ne_none_iff_exists'.mp hne
    exact ⟨f, hsome f hf⟩
  cases o <;> simp only [Op.sem] at hs
  case inst name => cases hs; exact fun f hf hname => hsome f hf hname
  case gateFor i key =>
    intro f hf hi hk
    have hfl := hsome f hf hi hk
    rw [hfl] at hs
    cases hs
    rfl
  case register g txnId asyncWait =>
    cases hs
    constructor
    · intro hn hrole
      refine hnone hn ?_
      cases hact : (s.shared.gates g).leaderActive with
      | false => rfl
      | true => simp [InFlightGate.register, hact] at hrole
    · intro hne
      obtain ⟨f, hact, hasync⟩ := leading hne
      exact ⟨by simp [InFlightGate.register, hact], hasync⟩
  case prepareServed i wire => cases hs; exact fun hne => (leading hne).choose_spec
  case selectBackend pool attempt tried =>
    cases hs
    intro hne hb
    have h : env.backend.isSome = true := (leading hne).choose_spec
    rw [hb] at h
    cases h
  case exchange b => cases hs; exact fun hne => (leading hne).choose_spec
  case submit b => cases hs; exact fun hne => (leading hne).choose_spec
  all_goals trivial

theorem keeper_valid (w : Wiring) : (keeper w).Valid w KeepsFlight fun _ => True where
  start _ _ := .inl rfl
  enter _ hc _ hp hl := keeper.enter hp hc hl
  may := by
    intro s t th env phase late before o k r sh _ hc ht hp hs _
    have hc := hc th ht o (by rw [Thread.nextOp, hp]; rfl)
    exact keeper_may hc.1 hc.2 hs
  resumeIo := by
    intro s t th c _ _ _ hl
    rcases hl with hl | hl
    · exact .inl hl
    · cases c <;> exact .inr ⟨rfl, hl⟩
  resumeLookup := by
    intro s t th _ _ _ hl
    rcases hl with hl | hl
    · exact .inl hl
    · exact .inr ⟨rfl, hl⟩

theorem keeper_holds (hr : (machine w).Reach KeepsFlight s) :
    ∀ t th, s.threads t = some th → (keeper w).Holds (s.hist.locals t) th :=
  ((keeper_valid w).holds (fun _ _ => trivial) (fun _ _ _ _ _ _ _ => trivial) hr).2

/-! ## The flights and their leaders -/

/-- The leader of the current flight of a gate still leads it, and an active gate has one. -/
structure Led (sh : Shared) (h : Hist) : Prop where
  current : ∀ g t, h.leader g (h.flight g) = some t →
    ∃ f, (h.locals t).lead = some f ∧ f.gate = g
  later : ∀ g n, h.flight g < n → h.leader g n = none
  active : ∀ g, (sh.gates g).leaderActive = true → h.leader g (h.flight g) ≠ none

namespace Led

variable {s : State} {t : Tid}

/-- Nothing changes for the flights. -/
theorem frame {sh sh' : Shared} {h h' : Hist} (hl : Led sh h) (h1 : h'.leader = h.leader)
    (h2 : h'.flight = h.flight) (h3 : ∀ u, (h'.locals u).lead = (h.locals u).lead)
    (h4 : ∀ g, (sh'.gates g).leaderActive = true → (sh.gates g).leaderActive = true) :
    Led sh' h' := by
  refine { current := ?_, later := ?_, active := ?_ }
  · intro g u hu
    rw [h1, h2] at hu
    rw [h3]
    exact hl.current g u hu
  · rw [h1, h2]
    exact hl.later
  · intro g hg
    rw [h1, h2]
    exact hl.active g (h4 g hg)

theorem lead_next {h : Hist} {o : Op} {r : o.Resp}
    (hl : ((h.locals t).next o r).lead = (h.locals t).lead) (u : Tid) :
    ((h.next t o r).locals u).lead = (h.locals u).lead := by
  rw [Hist.next_locals, update_apply]
  split
  · subst_vars; exact hl
  · rfl

variable {txnId : Nat} {asyncWait : Bool} {g : GateId}

/-- A registration that follows changes no flight. -/
theorem follow (hl : Led s.shared s.hist) (hact : (s.shared.gates g).leaderActive = true) :
    Led (s.shared.setGate g ((s.shared.gates g).register txnId asyncWait).1)
      (s.hist.next t (.register g txnId asyncWait) .follower) := by
  have hnext : s.hist.next t (.register g txnId asyncWait) .follower =
      { s.hist.next t (.register g txnId asyncWait) .follower with
        leader := s.hist.leader, flight := s.hist.flight } := by
    simp only [Hist.next]
    split <;> rfl
  refine hl.frame (by rw [hnext]) (by rw [hnext]) (lead_next rfl) fun g' hg' => ?_
  by_cases hg : g' = g
  · subst hg; exact hact
  · rw [Shared.setGate] at hg'
    simp only [update_of_ne hg] at hg'
    exact hg'

/-- A registration that starts a flight, of a transaction that led none. -/
theorem lead (hl : Led s.shared s.hist) {v : InFlightGate}
    (hok : base.ok (s.hist.locals t) (.register g txnId asyncWait))
    (hnone : (s.hist.locals t).lead = none) :
    Led (s.shared.setGate g v) (s.hist.next t (.register g txnId asyncWait) .leader) := by
  obtain ⟨⟨c, hsect, -, -⟩, -⟩ := hok
  have hleader : ∀ g' n, (s.hist.next t (.register g txnId asyncWait) .leader).leader g' n =
      update2 s.hist.leader g (s.hist.flight g) (some t) g' n := fun _ _ => rfl
  have hflight : (s.hist.next t (.register g txnId asyncWait) .leader).flight = s.hist.flight := rfl
  have hlead : ((s.hist.next t (.register g txnId asyncWait) .leader).locals t).lead =
      some ⟨(s.hist.locals t).name, c.inst, c.key, g⟩ := by
    rw [Hist.next_locals, update_self]
    show (s.hist.locals t).sect.map _ = _
    rw [hsect]
    rfl
  refine { current := ?_, later := ?_, active := ?_ }
  · intro g' u hu
    rw [hleader, hflight] at hu
    by_cases hg : g' = g
    · subst hg
      rw [update2_self] at hu
      cases hu
      exact ⟨_, hlead, rfl⟩
    · rw [update2_of_ne _ fun h => hg h.1] at hu
      obtain ⟨f, hf, hfg⟩ := hl.current g' u hu
      have hut : u ≠ t := by
        rintro rfl
        rw [hnone] at hf
        cases hf
      rw [Hist.next_locals, update_of_ne hut]
      exact ⟨f, hf, hfg⟩
  · intro g' n hn
    rw [hleader, update2_of_ne]
    · exact hl.later g' n hn
    · rintro ⟨rfl, rfl⟩
      exact Nat.lt_irrefl _ hn
  · intro g' hg'
    rw [hleader, hflight]
    by_cases hg : g' = g
    · subst hg
      rw [update2_self]
      exact Option.some_ne_none t
    · rw [update2_of_ne _ fun h => hg h.1]
      simp only [Shared.setGate, update_of_ne hg] at hg'
      exact hl.active g' hg'

/-- A completion ends the current flight of its gate. The transaction led no other one. -/
theorem complete (hl : Led s.shared s.hist) {wire : Option Wire} {site : CompleteSite}
    {ws : List Nat} (hok : ∀ f, (s.hist.locals t).lead = some f → f.gate = g) :
    Led (s.shared.setGate g ((s.shared.gates g).complete wire).1)
      (s.hist.next t (.complete g wire site) ws) := by
  have hflight : ∀ g', (s.hist.next t (.complete g wire site) ws).flight g' =
      update s.hist.flight g (s.hist.flight g + 1) g' := fun _ => rfl
  refine { current := ?_, later := ?_, active := ?_ }
  · intro g' u hu
    rw [hflight] at hu
    by_cases hg : g' = g
    · subst hg
      rw [update_self] at hu
      rw [show (s.hist.next t (.complete g' wire site) ws).leader = s.hist.leader from rfl,
        hl.later g' _ (Nat.lt_succ_self _)] at hu
      cases hu
    · rw [update_of_ne hg] at hu
      obtain ⟨f, hf, hfg⟩ := hl.current g' u hu
      have hut : u ≠ t := by
        rintro rfl
        exact hg (hfg ▸ hok f hf)
      rw [Hist.next_locals, update_of_ne hut]
      exact ⟨f, hf, hfg⟩
  · intro g' n hn
    refine hl.later g' n (Nat.lt_of_le_of_lt ?_ hn)
    rw [hflight, update_apply]
    split
    · subst_vars; exact Nat.le_succ _
    · exact Nat.le_refl _
  · intro g' hg'
    have hg : g' ≠ g := by
      rintro rfl
      simp only [Shared.setGate, update_self, InFlightGate.complete] at hg'
      cases hg'
    simp only [Shared.setGate, update_of_ne hg] at hg'
    rw [hflight, update_of_ne hg]
    exact hl.active g' hg'

theorem op {w : Wiring} {th : Thread} (hl : Led s.shared s.hist) {o : Op} {env : Env} {r : o.Resp}
    {sh : Shared} (hb : base.ok (s.hist.locals t) o) (hk : (keeper w).ok (s.hist.locals t) o)
    (hm : (keeper w).may th.txn th.snap (s.hist.locals t) o r)
    (hs : o.sem env s.shared = some (r, sh)) : Led sh (s.hist.next t o r) := by
  cases o <;> simp only [Op.sem] at hs
  case inst name =>
    cases hs
    have hnext : s.hist.next t (.inst name) (s.shared.instances name) =
        { s.hist.next t (.inst name) (s.shared.instances name) with
          leader := s.hist.leader, flight := s.hist.flight } := by
      simp only [Hist.next]
      split <;> rfl
    exact hl.frame (by rw [hnext]) (by rw [hnext]) (lead_next rfl) fun _ h => h
  case gateFor i key =>
    split at hs <;> cases hs
    · exact hl.frame rfl rfl (lead_next rfl) fun _ h => h
    · refine hl.frame rfl rfl (lead_next rfl) fun g hg => ?_
      by_cases hgn : g = s.shared.nextGate
      · subst hgn
        simp only [Shared.setFlight, Shared.setGate, update_self] at hg
        cases hg
      · simp only [Shared.setFlight, Shared.setGate, update_of_ne hgn] at hg
        exact hg
  case register g txnId asyncWait =>
    cases hs
    cases hact : (s.shared.gates g).leaderActive with
    | true =>
      have hrole : ((s.shared.gates g).register txnId asyncWait).2 = .follower := by
        simp [InFlightGate.register, hact]
      rw [hrole]
      exact hl.follow hact
    | false =>
      have hrole : ((s.shared.gates g).register txnId asyncWait).2 = .leader := by
        simp [InFlightGate.register, hact]
      rw [hrole] at hm ⊢
      refine hl.lead hb ?_
      by_contra hne
      cases (hm.2 hne).1
  case complete g wire site => cases hs; exact hl.complete hk
  case gateResult g =>
    cases hs
    refine hl.frame rfl rfl (lead_next ?_) fun _ h => h
    cases (s.shared.gates g).result <;> rfl
  case waitForResult g =>
    split at hs
    · cases hs; exact hl.frame rfl rfl (lead_next rfl) fun _ h => h
    · split at hs
      · cases hs
      · cases hs; exact hl.frame rfl rfl (lead_next rfl) fun _ h => h
  all_goals cases hs; exact hl.frame rfl rfl (lead_next rfl) fun _ h => h

variable {w : Wiring}

theorem step {s' : State} {a : Act} (hl : Led s.shared s.hist)
    (hb : ∀ t th, s.threads t = some th → base.Holds (s.hist.locals t) th)
    (hk : ∀ t th, s.threads t = some th → (keeper w).Holds (s.hist.locals t) th)
    (hc : KeepsFlight s a) (hs : Step w s a s') : Led s'.shared s'.hist := by
  cases hs with
  | op ht hp hsem =>
    have hc := hc _ ht _ (by rw [Thread.nextOp, hp]; rfl)
    have hm := keeper_may (w := w) hc.1 hc.2 hsem
    exact hl.op ((hb _ _ ht).ok hp) ((hk _ _ ht).ok hp) hm hsem
  | start | enter | ret | resumeIo | install => exact hl
  | resumeLookup | dropInstance | addInstance => exact hl.frame rfl rfl (fun _ => rfl) fun _ h => h

theorem init (h : (machine w).init s) : Led s.shared s.hist := by
  obtain ⟨snap, instances, nextInst, rfl⟩ := h
  exact
    { current := fun _ _ h => by cases h
      later := fun _ _ _ => rfl
      active := fun _ h => by cases h }

end Led

/-- **Completion.** In the runs whose leaders take no other way out, every flight of a finished
leader has been completed, and no gate stays active after its leader. -/
theorem leadersDone_of_keepsFlight (w : Wiring) {s : State}
    (h : (machine w).Reach KeepsFlight s) : LeadersDone s := by
  have hl : Led s.shared s.hist :=
    Lts.Reach.inv (L := machine w) (P := fun s => Led s.shared s.hist) (fun _ hi => Led.init hi)
      (fun _ _ _ hr hl hc hs => hl.step (base_holds hr).2 (keeper_holds hr) hc (step_cases hs)) h
  -- a finished transaction leads nothing
  have finished : ∀ t th out, s.threads t = some th → th.pos = .finished out →
      (s.hist.locals t).lead = none := by
    intro t th out ht hp
    have hk := keeper_holds h t th ht
    rw [Discipline.Holds, hp] at hk
    exact hk
  constructor
  · intro t th out g n ht hp hleader
    have hn : n ≤ s.hist.flight g := by
      by_contra hlt
      rw [hl.later g n (Nat.lt_of_not_le hlt)] at hleader
      cases hleader
    refine Nat.lt_of_le_of_ne hn ?_
    rintro rfl
    obtain ⟨f, hf, -⟩ := hl.current g t hleader
    rw [finished t th out ht hp] at hf
    cases hf
  · intro g hg
    obtain ⟨t, ht⟩ := Option.ne_none_iff_exists'.mp (hl.active g hg)
    obtain ⟨f, hf, -⟩ := hl.current g t ht
    cases hth : s.threads t with
    | none =>
      rw [(wellFormed_reach h).locals t hth] at hf
      cases hf
    | some th =>
      refine ⟨t, th, ht, hth, fun out hp => ?_⟩
      rw [finished t th out hth hp] at hf
      cases hf

/-- A leader that forwards, fills and finishes: its flight has been completed. -/
theorem leadersDone_of_keepsFlight_sample :
    ∃ s, (machine (sampleWiring .sync)).Reach KeepsFlight s ∧
      (s.result 0 = some (.response [0, 7, 128, 0]) ∧ s.hist.leader 0 0 = some 0 ∧
        s.hist.flight 0 = 1) ∧ LeadersDone s := by
  obtain ⟨s, hr, hs⟩ := Lts.exists_exec KeepsFlight
    ([Act.start (sampleQuery 1)] ++ toLookup 0 ++ ops 0 8 ++
      [Act.op 0 { backend := some sampleBackend },
        Act.op 0 { exchange := .answer [0, 7, 128, 0] }] ++
      ops 0 9 ++
      [Act.ret 0, Act.enter 0 false, Act.op 0 {}, Act.ret 0, Act.enter 0 false, Act.ret 0])
    (fun s : State => s.result 0 = some (.response [0, 7, 128, 0]) ∧ s.hist.leader 0 0 = some 0 ∧
      s.hist.flight 0 = 1) (sampleInit_init .sync sampleSnapshot) (by decide +kernel)
  exact ⟨s, hr, hs, leadersDone_of_keepsFlight _ hr⟩

/-- The deadline check after a suspend jumps to Send: the leader finishes and its gate stays
active. -/
theorem leadersDone_broken :
    ∃ s, (machine (sampleWiring .splitIo)).Reach Lts.Any s ∧
      (s.result 0 = some (.response [0, 7, 128, 0]) ∧ s.hist.leader 0 0 = some 0 ∧
        (s.shared.gates 0).leaderActive = true) ∧ ¬ LeadersDone s := by
  obtain ⟨s, hr, hobs, hflight⟩ := Lts.exists_exec Lts.Any
    ([Act.start (sampleQuery 1)] ++ toLookup 0 ++ ops 0 8 ++
      [Act.op 0 { backend := some sampleBackend }, Act.op 0 { submitted := .sent }, Act.ret 0,
        Act.resumeIo 0 (.response [0, 0, 128, 0]), Act.enter 0 true, Act.ret 0])
    (fun s : State => (s.result 0 = some (.response [0, 7, 128, 0]) ∧ s.hist.leader 0 0 = some 0 ∧
      (s.shared.gates 0).leaderActive = true) ∧ s.hist.flight 0 = 0)
    (sampleInit_init .splitIo sampleSnapshot) (by decide +kernel)
  refine ⟨s, hr, hobs, fun hd => ?_⟩
  obtain ⟨th, ht, hp⟩ := State.result_eq hobs.1
  have hlt := hd.1 0 th _ 0 0 ht hp hobs.2.1
  rw [hflight] at hlt
  exact Nat.lt_irrefl 0 hlt

end Conduit
