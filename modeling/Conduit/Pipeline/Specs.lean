import Conduit.Pipeline.Threads

/-!
# What a stage does to its transaction

For each stage, what its results say about the stored answer, the recorded rcode, the attempts and
the outcome of the lookup: `LookupEnd` lists the ends of the lookup stage, `runStage_ensures` the
ends of all stages.
-/

namespace Conduit

open Prog

/-- The client's side of the transaction, and the generation it started with. -/
structure SameClient (t t' : Transaction) : Prop where
  id : t'.id = t.id
  queryWire : t'.queryWire = t.queryWire
  dnsId : t'.dnsId = t.dnsId
  protocol : t'.protocol = t.protocol
  payload : t'.clientUdpPayloadSize = t.clientUdpPayloadSize
  generation : t'.snapshotGeneration = t.snapshotGeneration

variable {t t'' t' : Transaction}

theorem SameClient.trans (h : SameClient t t') (h' : SameClient t' t'') :
    SameClient t t'' :=
  ⟨h'.id.trans h.id, h'.queryWire.trans h.queryWire, h'.dnsId.trans h.dnsId,
    h'.protocol.trans h.protocol, h'.payload.trans h.payload, h'.generation.trans h.generation⟩

/-- No answer was stored. -/
structure SameWire (t t' : Transaction) : Prop where
  wire : t'.responseWire = t.responseWire
  answers : t'.answers = t.answers

theorem SameWire.trans (h : SameWire t t') (h' : SameWire t' t'') :
    SameWire t t'' :=
  ⟨h'.wire.trans h.wire, h'.answers.trans h.answers⟩

def Stored (t t' : Transaction) : Prop :=
  ∃ wire, t'.responseWire = some wire ∧ t'.answers = wire :: t.answers

/-- The forward provider is not left waiting for its upstream. -/
def NoNewWait (t t' : Transaction) : Prop :=
  t'.lookupForwardStep = some .wait → t.lookupForwardStep = some .wait

/-- The recorded rcode is the one of the stored answer, if the answer parses. -/
def Recorded (c : Codec) (t : Transaction) : Prop :=
  ∀ wire m, t.responseWire = some wire → c.fromVec wire = some m → t.rcode = some m.rcode

/-! ## Small steps -/

theorem recordUpstreamResponse_eq (c : Codec) (t : Transaction) (wire : Wire) :
    recordUpstreamResponse c t wire =
      { t with rcode := ((c.fromVec wire).map (·.rcode)).or t.rcode } := by
  unfold recordUpstreamResponse
  split
  · rename_i m hm; rw [hm]; rfl
  · rename_i hm; rw [hm]; rfl

theorem waitResponseStage_eq (c : Codec) (t : Transaction) :
    ∃ rcode, waitResponseStage c t = { t with rcode := rcode } ∧
      (t.responseWire = none → rcode = t.rcode) ∧
      ∀ wire m, t.responseWire = some wire → c.fromVec wire = some m → rcode = some m.rcode := by
  unfold waitResponseStage
  split
  · rename_i wire hw
    refine ⟨_, recordUpstreamResponse_eq c t wire, ?_, ?_⟩
    · intro hn; rw [hn] at hw; cases hw
    · intro wire' m hw' hm
      rw [hw] at hw'
      cases hw'
      rw [hm]; rfl
  · rename_i hn
    refine ⟨t.rcode, rfl, fun _ => rfl, ?_⟩
    intro wire m hw
    rw [hn] at hw
    cases hw

theorem takeEffectiveSources_eq (t : Transaction) :
    ∃ r4 r6, t.takeEffectiveSources =
      { t with retrySourceOverrideV4 := r4, retrySourceOverrideV6 := r6 } := by
  unfold Transaction.takeEffectiveSources
  split
  · exact ⟨none, none, rfl⟩
  · exact ⟨_, _, rfl⟩

theorem takePoolName_eq (t : Transaction) (snap : RuntimeSnapshot) :
    ∃ retryPool, (takePoolName t snap).1 = { t with retryPool := retryPool } := by
  unfold takePoolName
  split
  · exact ⟨none, rfl⟩
  · exact ⟨t.retryPool, rfl⟩

/-! ## Route, forward, finish -/

/-- The ends of route: no backend, or one more attempt. -/
inductive RouteEnd (t t' : Transaction) : StageOutcome → Prop
  | failed (hc : SameClient t t') (hw : SameWire t t') (hr : t'.rcode = some servfail) :
      RouteEnd t t' (.cont .send)
  | routed (hc : SameClient t t') (hw : SameWire t t') (hr : t'.rcode = t.rcode)
      (ha : t'.attemptCount = t.attemptCount + 1) (hs : NoNewWait t t') :
      RouteEnd t t' (.cont .forward)

variable {w : Wiring} {may : (o : Op) → o.Resp → Prop}

theorem routeStage_ensures (t : Transaction) (snap : RuntimeSnapshot) :
    Ensures may (fun r => RouteEnd t r.1 r.2) (routeStage t snap) := by
  obtain ⟨retryPool, ht⟩ := takePoolName_eq t snap
  unfold routeStage
  simp only [call_bind, ht]
  split
  · intro r _
    cases r with
    | none => exact .failed ⟨rfl, rfl, rfl, rfl, rfl, rfl⟩ ⟨rfl, rfl⟩ rfl
    | some b => exact .routed ⟨rfl, rfl, rfl, rfl, rfl, rfl⟩ ⟨rfl, rfl⟩ rfl rfl id
  · exact .failed ⟨rfl, rfl, rfl, rfl, rfl, rfl⟩ ⟨rfl, rfl⟩ rfl

/-- The ends of forward: an error, a sent query (split_io), a stored answer, or a timeout. -/
inductive ForwardEnd (w : Wiring) (t t' : Transaction) : StageOutcome → Prop
  | failed (hc : SameClient t t') (hw : SameWire t t') (hr : t'.rcode = some servfail) :
      ForwardEnd w t t' (.cont .send)
  | sent (hs : w.runtime = .splitIo) (hc : SameClient t t') (hw : SameWire t t')
      (hr : t'.rcode = t.rcode) (ha : t'.attemptCount = t.attemptCount) :
      ForwardEnd w t t' (.suspend .waitResponse)
  | answered (hc : SameClient t t') (hw : Stored t t') (ha : t'.attemptCount = t.attemptCount)
      (hs : NoNewWait t t') : ForwardEnd w t t' (.cont .responseRules)
  | timeout (hc : SameClient t t') (hw : SameWire t t') (hr : t'.rcode = some servfail)
      (ha : t'.attemptCount = t.attemptCount) (hs : NoNewWait t t') :
      ForwardEnd w t t' (.cont .responseRules)

theorem forwardStage_ensures (t : Transaction) :
    Ensures may (fun r => ForwardEnd w t r.1 r.2) (forwardStage w t) := by
  obtain ⟨r4, r6, ht⟩ := takeEffectiveSources_eq t
  unfold forwardStage
  split
  · unfold forwardSync
    simp only [call_bind, ht]
    split
    · intro r _
      cases r with
      | refused | error => exact .failed ⟨rfl, rfl, rfl, rfl, rfl, rfl⟩ ⟨rfl, rfl⟩ rfl
      | answer wire =>
        simp only [finishResponse, recordUpstreamResponse_eq]
        exact .answered ⟨rfl, rfl, rfl, rfl, rfl, rfl⟩ ⟨_, rfl, rfl⟩ rfl id
      | timeout => exact .timeout ⟨rfl, rfl, rfl, rfl, rfl, rfl⟩ ⟨rfl, rfl⟩ rfl rfl id
    · exact .failed ⟨rfl, rfl, rfl, rfl, rfl, rfl⟩ ⟨rfl, rfl⟩ rfl
  · rename_i hs
    unfold forwardSubmit
    simp only [call_bind, ht]
    split
    · intro r _
      cases r with
      | refused | error => exact .failed ⟨rfl, rfl, rfl, rfl, rfl, rfl⟩ ⟨rfl, rfl⟩ rfl
      | sent => exact .sent hs ⟨rfl, rfl, rfl, rfl, rfl, rfl⟩ ⟨rfl, rfl⟩ rfl rfl
    · exact .failed ⟨rfl, rfl, rfl, rfl, rfl, rfl⟩ ⟨rfl, rfl⟩ rfl

/-- The end of the forward provider: the answer, if there is one, is recorded. -/
structure FinishEnd (c : Codec) (t t' : Transaction) (out : StageOutcome) : Prop where
  out : out = .cont .responseRules
  client : SameClient t t'
  wire : SameWire t t'
  recorded : Recorded c t'
  unanswered : t'.responseWire = none → t'.rcode = t.rcode
  outcome : t'.lookupOutcome = some .answered
  source : t'.answerSource = some .forward
  attempts : t'.attemptCount = t.attemptCount
  step : NoNewWait t t'

theorem finishForwardAnswer_ensures (t : Transaction) :
    Ensures may (fun r => FinishEnd w.fns.codec t r.1 r.2) (finishForwardAnswer w t) := by
  obtain ⟨rcode, ht, hnone, hsome⟩ := waitResponseStage_eq w.fns.codec t
  unfold finishForwardAnswer
  simp only [ht]
  refine (ensures_true _).seq fun _ _ => ?_
  exact
    { out := rfl, client := ⟨rfl, rfl, rfl, rfl, rfl, rfl⟩, wire := ⟨rfl, rfl⟩, recorded := hsome
      unanswered := hnone, outcome := rfl, source := rfl, attempts := rfl
      step := id }

/-! ## Lookup -/

inductive LookupEnd (w : Wiring) (snap : RuntimeSnapshot) (t t' : Transaction) :
    StageOutcome → Prop
  /-- A failing exit: SERVFAIL, and on to send. -/
  | failed (hc : SameClient t t') (hw : SameWire t t') (hr : t'.rcode = some servfail) :
      LookupEnd w snap t t' (.cont .send)
  /-- Suspended, on a submitted forward or on another transaction's flight. -/
  | waiting (hs : w.runtime = .splitIo) (hc : SameClient t t') (hw : SameWire t t')
      (hr : t'.rcode = t.rcode)
      (hwait : t'.lookupForwardStep = some .wait ∨ t'.lookupCacheWait.isSome) :
      LookupEnd w snap t t' (.suspend .lookup)
  /-- The forward provider ended: with a new answer, or without one. -/
  | forwarded (hc : SameClient t t') (hw : SameWire t t' ∨ Stored t t')
      (hrec : Recorded w.fns.codec t')
      (hnone : t'.responseWire = none → t'.rcode = some servfail ∨ t'.rcode = t.rcode)
      (ho : t'.lookupOutcome = some .answered) (hsrc : t'.answerSource = some .forward)
      (ha : t'.attemptCount = t.attemptCount + 1 ∧ t.attemptCount < snap.maxAttempts ∨
        t'.attemptCount = t.attemptCount ∧ t.lookupForwardStep = some .wait)
      (hs : NoNewWait t t') : LookupEnd w snap t t' (.cont .responseRules)
  /-- An answer of a cache instance. -/
  | hit {next : Phase} (hc : SameClient t t') (hw : Stored t t') (hrec : Recorded w.fns.codec t')
      (ho : t'.lookupOutcome = some .answered) (hsrc : t'.answerSource = some .cache)
      (ha : t'.attemptCount = t.attemptCount) (hn : next = .send ∨ next = .responseRules) :
      LookupEnd w snap t t' (.cont next)
  /-- No provider of the profile answered. -/
  | missed (hc : SameClient t t') (hw : SameWire t t') (hr : t'.rcode = t.rcode)
      (ho : t'.lookupOutcome = some .miss) (ha : t'.attemptCount = t.attemptCount)
      (hfresh : t.lookupForwardStep ≠ some .wait ∧ t.lookupCacheWait = none) :
      LookupEnd w snap t t' (.cont .responseRules)

/-- `t'` differs from `t` in the bookkeeping of the lookup only. -/
structure Prepared (t t' : Transaction) : Prop where
  client : SameClient t t'
  wire : SameWire t t'
  rcode : t'.rcode = t.rcode
  attempts : t'.attemptCount = t.attemptCount
  step : NoNewWait t t'

theorem SameWire.stored (h : SameWire t t') (h' : Stored t' t'') :
    Stored t t'' := by
  obtain ⟨wire, hw, ha⟩ := h'
  exact ⟨wire, hw, h.answers ▸ ha⟩

theorem Stored.same {t t' t'' : Transaction} (h : Stored t t') (h' : SameWire t' t'') :
    Stored t t'' := by
  obtain ⟨wire, hw, ha⟩ := h
  exact ⟨wire, h'.wire.trans hw, h'.answers.trans ha⟩

variable {t₁ : Transaction} {out : StageOutcome} {snap : RuntimeSnapshot}

/-- The forward provider is finished after an answer or a timeout of an attempt. -/
theorem FinishEnd.forwarded (h : FinishEnd w.fns.codec t₁ t' out) (hc : SameClient t t₁)
    (hw : SameWire t t₁ ∨ Stored t t₁)
    (hr : t₁.responseWire = none → t₁.rcode = some servfail ∨ t₁.rcode = t.rcode)
    (ha : t₁.attemptCount = t.attemptCount + 1 ∧ t.attemptCount < snap.maxAttempts ∨
      t₁.attemptCount = t.attemptCount ∧ t.lookupForwardStep = some .wait) (hs : NoNewWait t t₁) :
    LookupEnd w snap t t' out := by
  rw [h.out]
  refine .forwarded (hc.trans h.client) ?_ h.recorded ?_ h.outcome h.source (h.attempts ▸ ha)
    (hs ∘ h.step)
  · exact hw.imp (·.trans h.wire) (·.same h.wire)
  · intro hn
    rw [h.unanswered hn]
    exact hr (h.wire.wire.symm.trans hn)

theorem forwardThenFinish_ensures (hp : SameClient t t₁) (hw : SameWire t t₁)
    (hr : t₁.rcode = t.rcode) (ha : t₁.attemptCount = t.attemptCount + 1)
    (hmax : t.attemptCount < snap.maxAttempts) (hs : NoNewWait t t₁) :
    Ensures may (fun r => LookupEnd w snap t r.1 r.2) (forwardThenFinish w t₁) := by
  unfold forwardThenFinish
  refine (forwardStage_ensures t₁).seq ?_
  rintro ⟨t₂, out⟩ h
  cases h with
  | failed hc₂ hw₂ hr₂ => exact .failed (hp.trans hc₂) (hw.trans hw₂) hr₂
  | sent hio hc₂ hw₂ hr₂ ha₂ =>
    exact .waiting hio
      (hp.trans ⟨hc₂.id, hc₂.queryWire, hc₂.dnsId, hc₂.protocol, hc₂.payload, hc₂.generation⟩)
      (hw.trans ⟨hw₂.wire, hw₂.answers⟩) (hr₂.trans hr) (.inl rfl)
  | answered hc₂ hw₂ ha₂ hs₂ =>
    refine (finishForwardAnswer_ensures t₂).mono fun r h => ?_
    refine h.forwarded (hp.trans hc₂) (.inr (hw.stored hw₂)) ?_ (.inl ⟨ha₂.trans ha, hmax⟩)
      (hs ∘ hs₂)
    obtain ⟨wire, hw₂, -⟩ := hw₂
    intro hn
    rw [hn] at hw₂
    cases hw₂
  | timeout hc₂ hw₂ hr₂ ha₂ hs₂ =>
    refine (finishForwardAnswer_ensures t₂).mono fun r h => ?_
    exact h.forwarded (hp.trans hc₂) (.inl (hw.trans hw₂)) (fun _ => .inl hr₂)
      (.inl ⟨ha₂.trans ha, hmax⟩) (hs ∘ hs₂)

theorem runForwardChain_ensures (hp : Prepared t t₁) :
    Ensures may (fun r => LookupEnd w snap t r.1 r.2) (runForwardChain w t₁ snap) := by
  unfold runForwardChain
  simp only
  have hc : SameClient t { t₁ with cacheLookupEligible := false } :=
    hp.client.trans ⟨rfl, rfl, rfl, rfl, rfl, rfl⟩
  have hw : SameWire t { t₁ with cacheLookupEligible := false } := hp.wire.trans ⟨rfl, rfl⟩
  split
  · exact .failed (hc.trans ⟨rfl, rfl, rfl, rfl, rfl, rfl⟩) (hw.trans ⟨rfl, rfl⟩) rfl
  · rename_i hmax
    refine (routeStage_ensures _ snap).seq ?_
    rintro ⟨t₂, out⟩ h
    cases h with
    | failed hc₂ hw₂ hr₂ => exact .failed (hc.trans hc₂) (hw.trans hw₂) hr₂
    | routed hc₂ hw₂ hr₂ ha₂ hs₂ =>
      refine forwardThenFinish_ensures (hc.trans hc₂) (hw.trans hw₂) (hr₂.trans hp.rcode) ?_ ?_
        (hp.step ∘ hs₂)
      · exact ha₂.trans (congrArg (· + 1) hp.attempts)
      · rw [← hp.attempts]
        exact Nat.lt_of_not_le hmax

/-- The outcome is a wait only in the split_io runtime. -/
def WaitsInSplitIo (w : Wiring) (out : CacheLookupOutcome) : Prop :=
  ∀ key, out = .waitAsync key → w.runtime = .splitIo

theorem hitFrom_ensures (i : InstId) (wire : Wire) :
    Ensures may (WaitsInSplitIo w) (hitFrom i wire) := by
  unfold hitFrom
  simp only [call_bind]
  intro cfg _ r _
  cases r <;> exact fun _ h => by cases h

theorem tryReadHit_ensures (i : InstId) (key : CacheKey) :
    Ensures may (fun r => ∀ out ∈ r, WaitsInSplitIo w out) (tryReadHit i key) := by
  unfold tryReadHit
  simp only [call_bind]
  intro r _
  cases r with
  | none => exact fun _ h => by cases h
  | some wire =>
    refine (hitFrom_ensures (w := w) i wire).seq fun out h => ?_
    rintro _ ⟨⟩
    exact h

theorem lookupReads_ensures (i : InstId) (key : CacheKey) (t : Transaction) :
    Ensures may (fun r => ∀ out ∈ r, WaitsInSplitIo w out) (lookupReads w.fns i key t) := by
  unfold lookupReads
  simp only [call_bind]
  refine (tryReadHit_ensures (w := w) i key).seq fun r h => ?_
  split
  · exact h
  refine (ensures_true (tryAncestorNxdomainHit w.fns i t)).seq fun r _ => ?_
  split
  · refine (hitFrom_ensures (w := w) i _).seq fun out h => ?_
    rintro _ ⟨⟩
    exact h
  intro cfg _
  beta_reduce
  split
  · split
    · refine (tryReadHit_ensures (w := w) i _).seq fun r h => ?_
      split
      · exact h
      · exact fun _ h => by cases h
    · exact fun _ h => by cases h
  · exact fun _ h => by cases h

theorem followSync_ensures (i : InstId) (key : CacheKey) (gate : GateId) :
    Ensures may (WaitsInSplitIo w) (followSync i key gate) := by
  unfold followSync
  simp only [call_bind]
  intro wire _ _ _ r _
  beta_reduce
  split
  · exact hitFrom_ensures i _
  · split
    · exact hitFrom_ensures i _
    · exact fun _ h => by cases h

/-- A lookup waits asynchronously in the split_io runtime only. -/
theorem lookup_ensures (cacheName : String) (t : Transaction) :
    Ensures w.answers (WaitsInSplitIo w) (lookup w.fns cacheName t) := by
  unfold lookup
  simp only [call_bind]
  intro r _
  beta_reduce
  split
  · intro rebuilding _
    beta_reduce
    split
    · exact fun _ h => by cases h
    split
    · exact fun _ h => by cases h
    split
    · refine (lookupReads_ensures (w := w) _ _ t).seq fun r h => ?_
      split
      · exact h _ rfl
      unfold joinFlight
      simp only [call_bind]
      intro gate _ async hasync role _
      cases role with
      | leader => exact fun _ h => by cases h
      | follower =>
        show Ensures _ _ (if async then _ else _)
        split
        · rename_i hon
          intro _ _
          have hasync : async = (w.runtime == .splitIo) := hasync
          rw [hon] at hasync
          exact beq_iff_eq.mp hasync.symm
        · exact followSync_ensures _ _ gate
    · exact fun _ h => by cases h
  · exact fun _ h => by cases h

theorem applyCacheHit_end (hp : Prepared t t₁) (wire : Wire) (cacheName : String) (skip : Bool) :
    LookupEnd w snap t (applyCacheHit w.fns.codec t₁ wire cacheName skip).1
      (applyCacheHit w.fns.codec t₁ wire cacheName skip).2 := by
  have hnext : ∃ next, (if skip then StageOutcome.cont .send else .cont .responseRules) = .cont next ∧
      (next = .send ∨ next = .responseRules) := by
    cases skip
    · exact ⟨_, rfl, .inr rfl⟩
    · exact ⟨_, rfl, .inl rfl⟩
  obtain ⟨next, hout, hnext⟩ := hnext
  simp only [applyCacheHit, recordUpstreamResponse_eq, Transaction.storeAnswer, hout]
  refine .hit (hp.client.trans ⟨rfl, rfl, rfl, rfl, rfl, rfl⟩) (hp.wire.stored ⟨wire, rfl, rfl⟩)
    ?_ rfl rfl hp.attempts hnext
  rintro _ m ⟨⟩ hm
  simp only [hm]
  rfl

theorem runProviders_ensures (hfresh : t.lookupForwardStep ≠ some .wait ∧ t.lookupCacheWait = none)
    (providers : List CompiledLookupProvider) (hp : Prepared t t₁) :
    Ensures w.answers (fun r => LookupEnd w snap t r.1 r.2)
      (runProviders w snap providers t₁) := by
  induction providers generalizing t₁ with
  | nil =>
    exact .missed (hp.client.trans ⟨rfl, rfl, rfl, rfl, rfl, rfl⟩) (hp.wire.trans ⟨rfl, rfl⟩)
      hp.rcode rfl hp.attempts hfresh
  | cons provider rest ih =>
    cases provider with
    | forward => exact runForwardChain_ensures hp
    | cache cacheName =>
      unfold runProviders
      split
      · unfold tryCacheProvider
        split
        · refine Ensures.bind ((lookup_ensures cacheName t₁).seq fun out hout => ?_)
          show Ensures _ _ _
          cases out with
          | hit wire name skip => exact applyCacheHit_end hp wire name skip
          | miss key gate =>
            exact ih ⟨hp.client.trans ⟨rfl, rfl, rfl, rfl, rfl, rfl⟩, hp.wire.trans ⟨rfl, rfl⟩,
              hp.rcode, hp.attempts, hp.step⟩
          | waitAsync key =>
            exact .waiting (hout key rfl) (hp.client.trans ⟨rfl, rfl, rfl, rfl, rfl, rfl⟩)
              (hp.wire.trans ⟨rfl, rfl⟩) hp.rcode (.inr rfl)
          | bypass => exact ih hp
        · exact ih hp
      · exact ih hp

theorem resumeCacheWait_ensures (hp : Prepared t t₁) (wait : CacheTarget) :
    Ensures w.answers (fun r => LookupEnd w snap t r.1 r.2) (resumeCacheWait w t₁ wait snap) := by
  unfold resumeCacheWait
  split
  · refine (ensures_true _).seq fun out _ => ?_
    split
    · exact applyCacheHit_end hp _ _ _
    · exact runForwardChain_ensures ⟨hp.client.trans ⟨rfl, rfl, rfl, rfl, rfl, rfl⟩,
        hp.wire.trans ⟨rfl, rfl⟩, hp.rcode, hp.attempts, hp.step⟩
  · exact runForwardChain_ensures hp

theorem lookupStage_ensures (t : Transaction) (snap : RuntimeSnapshot) :
    Ensures w.answers (fun r => LookupEnd w snap t r.1 r.2) (lookupStage w t snap) := by
  unfold lookupStage
  split
  · have hp : Prepared t { t with lookupCacheWait := none } :=
      ⟨⟨rfl, rfl, rfl, rfl, rfl, rfl⟩, ⟨rfl, rfl⟩, rfl, rfl, id⟩
    exact resumeCacheWait_ensures hp _
  · rename_i hnone
    split
    · rename_i hstep
      refine (finishForwardAnswer_ensures _).mono fun r h => ?_
      exact h.forwarded ⟨rfl, rfl, rfl, rfl, rfl, rfl⟩ (.inl ⟨rfl, rfl⟩) (fun _ => .inr rfl)
        (.inr ⟨rfl, hstep⟩) (fun h => by cases h)
    · rename_i hstep
      split
      · exact .failed ⟨rfl, rfl, rfl, rfl, rfl, rfl⟩ ⟨rfl, rfl⟩ rfl
      · exact runProviders_ensures ⟨hstep, hnone⟩ _
          ⟨⟨rfl, rfl, rfl, rfl, rfl, rfl⟩, ⟨rfl, rfl⟩, rfl, rfl, id⟩

/-! ## Parse, rules, send -/

theorem parseStage_same (c : Codec) (t : Transaction) :
    SameWire t (parseStage c t).1 ∧ (parseStage c t).1.rcode = t.rcode ∧
      (parseStage c t).1.lookupForwardStep = t.lookupForwardStep ∧
      (parseStage c t).1.snapshotGeneration = t.snapshotGeneration := by
  unfold parseStage
  split
  · split <;> exact ⟨⟨rfl, rfl⟩, rfl, rfl, rfl⟩
  · split <;> exact ⟨⟨rfl, rfl⟩, rfl, rfl, rfl⟩

theorem parseStage_out (c : Codec) (t : Transaction) :
    (parseStage c t).2 = .drop ∨ (parseStage c t).2 = .cont .requestRules := by
  unfold parseStage
  split
  · split
    · exact .inl rfl
    · exact .inr rfl
  · split
    · exact .inr rfl
    · exact .inl rfl

variable {hook : RuleHook}

theorem PolicyEq.sameWire (h : PolicyEq hook t t') :
    SameWire t t' := by
  obtain ⟨_, _, _, _, _, _, _, _, _, _, _, _, rfl⟩ := h
  exact ⟨rfl, rfl⟩

theorem PolicyEq.sameClient (h : PolicyEq hook t t') :
    SameClient t t' := by
  obtain ⟨_, _, _, _, _, _, _, _, _, _, _, _, rfl⟩ := h
  exact ⟨rfl, rfl, rfl, rfl, rfl, rfl⟩

/-- The bytes of a stored wire for the client's protocol. -/
def delivered (c : Codec) (t : Transaction) (wire : Wire) : Wire :=
  match t.protocol with
  | .udp => (truncateUdp c wire t.clientUdpPayloadSize).1
  | .tcp => wire

/-- The bytes of a synthesized error. -/
def synthesized (c : Codec) (t : Transaction) (rcode : Nat) : Wire :=
  (buildErrorResponse c t.dnsId rcode t.queryWire t.clientUdpPayloadSize).1

/-- What send hands to the client: a stored wire, else a synthesized error. -/
def sentBytes (c : Codec) (t : Transaction) : Wire :=
  match t.responseWire with
  | some wire => delivered c t wire
  | none => synthesized c t (t.rcode.getD servfail)

theorem sendStage_eq (c : Codec) (t : Transaction) : ∃ flag, sendStage c t =
    { t with responseWire := some (sentBytes c t), udpResponseTruncatedOnSend := flag } := by
  unfold sendStage sentBytes
  cases hw : t.responseWire with
  | some wire =>
    cases hp : t.protocol with
    | udp =>
      refine ⟨t.udpResponseTruncatedOnSend || (truncateUdp c wire t.clientUdpPayloadSize).2, ?_⟩
      simp only [delivered, hp]
    | tcp =>
      refine ⟨t.udpResponseTruncatedOnSend, ?_⟩
      simp only [delivered, hp]
      rw [← hw, ← hp]
  | none => exact ⟨_, rfl⟩

/-! ## All stages -/

inductive StageEnd (w : Wiring) (snap : RuntimeSnapshot) (t : Transaction) :
    Phase → Transaction → StageOutcome → Prop
  | parse : StageEnd w snap t .parse (parseStage w.fns.codec t).1 (parseStage w.fns.codec t).2
  | requestRules {t' : Transaction} {out : StageOutcome} (h : PolicyEq .request t t')
      (ho : out = .drop ∨ out = .cont .lookup) : StageEnd w snap t .requestRules t' out
  | lookup {t' : Transaction} {out : StageOutcome} (h : LookupEnd w snap t t' out) :
      StageEnd w snap t .lookup t' out
  | responseRules {t' : Transaction} {out : StageOutcome} (h : PolicyEq .response t t')
      (ho : out = .drop ∨ out = .cont .lookup ∨ out = .cont .send) :
      StageEnd w snap t .responseRules t' out
  | send : StageEnd w snap t .send (sendStage w.fns.codec t) (.cont .send)

theorem requestRulesStage_ensures (t : Transaction) (snap : RuntimeSnapshot) :
    Ensures may (fun r => StageEnd w snap t .requestRules r.1 r.2) (requestRulesStage t snap) := by
  unfold requestRulesStage
  simp only [call_bind]
  intro world _
  have h := @PolicyEq.eval .request snap.rules snap.scripting world t
  beta_reduce
  split <;> rename_i heq <;> rw [heq] at h
  · exact .requestRules h (.inl rfl)
  · exact .requestRules h (.inr rfl)
  · exact .requestRules h (.inr rfl)

theorem responseRulesStage_ensures (t : Transaction) (snap : RuntimeSnapshot) :
    Ensures may (fun r => StageEnd w snap t .responseRules r.1 r.2)
      (responseRulesStage t snap) := by
  unfold responseRulesStage
  simp only [call_bind]
  intro world _
  have h := @PolicyEq.eval .response snap.rules snap.scripting world t
  beta_reduce
  split <;> rename_i heq <;> rw [heq] at h
  · exact .responseRules h (.inr (.inl rfl))
  · exact .responseRules h (.inl rfl)
  · exact .responseRules h (.inr (.inr rfl))

variable {phase : Phase}

/-- **The result of a stage is one of its ends.** -/
theorem runStage_ensures {p : StageProg (Transaction × StageOutcome)}
    (h : runStage w t snap phase = some p) :
    Ensures w.answers (fun r => StageEnd w snap t phase r.1 r.2) p := by
  cases phase with
  | parse => cases h; exact .parse
  | requestRules => cases h; exact requestRulesStage_ensures t snap
  | lookup => cases h; exact (lookupStage_ensures t snap).mono fun _ h => .lookup h
  | responseRules => cases h; exact responseRulesStage_ensures t snap
  | send => cases h; exact .send
  | receive | route | forward | waitResponse => cases h

theorem StageEnd.generation (h : StageEnd w snap t phase t' out) :
    t'.snapshotGeneration = t.snapshotGeneration := by
  cases h with
  | parse => exact (parseStage_same _ t).2.2.2
  | requestRules h _ | responseRules h _ => exact h.sameClient.generation
  | lookup h =>
    cases h with
    | failed hc | waiting _ hc | forwarded hc | hit hc | missed hc => exact hc.generation
  | send =>
    obtain ⟨flag, h⟩ := sendStage_eq w.fns.codec t
    rw [h]

theorem runStage_none (h : runStage w t snap phase = none) :
    phase = .receive ∨ phase = .route ∨ phase = .forward ∨ phase = .waitResponse := by
  cases phase with
  | receive => exact .inl rfl
  | route => exact .inr (.inl rfl)
  | forward => exact .inr (.inr (.inl rfl))
  | waitResponse => exact .inr (.inr (.inr rfl))
  | parse | requestRules | lookup | responseRules | send => cases h

end Conduit
