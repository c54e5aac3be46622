import Conduit.Pipeline.Specs

/-!
# The recorded rcode and the bytes sent

The rcode of a transaction (for metrics and events) and the rcode in the header of the bytes that
the client gets are two records of one outcome. They part where a stored wire is left in place
while the rcode is set (`rcode_broken`): at a deadline jump, at a failing exit of lookup after a
retry, and when rules set an rcode for an answer. In the runs without these steps the deadline check
leads to a synthesized SERVFAIL, and the two records agree (`rcode_sent`).

- `StageRun.Faithful`, `Faithful`: the condition on the steps.
- `Agrees`: the rcode is the one of the stored wire.
- `Thread.Truthful`: the invariant of the loop.
-/

namespace Conduit

open Prog

/-- There is an rcode for the header of an error response, which can be encoded. -/
def Transaction.CanFail (c : Codec) (t : Transaction) : Prop :=
  ∃ rcode ∈ t.rcode, rcode < 16 ∧ emitsError c t.dnsId rcode t.queryWire = true

instance (c : Codec) (t : Transaction) : Decidable (t.CanFail c) :=
  inferInstanceAs (Decidable (∃ rcode ∈ _, _))

/-- A stage run that leaves no stored wire behind with another rcode. -/
def StageRun.Faithful (c : Codec) (r : StageRun) : Prop :=
  match r.phase with
  | .requestRules | .responseRules =>
    -- the rules do not set the rcode of an answer
    r.before.responseWire.isSome → r.after.rcode = r.before.rcode
  | .lookup =>
    -- new answers parse, and a failing exit does not leave an older answer
    (r.after.answers ≠ r.before.answers → ∀ wire ∈ r.after.responseWire, (c.fromVec wire).isSome) ∧
      (r.outcome = .cont .send → r.before.responseWire.isSome → r.after.answers ≠ r.before.answers)
  | .send =>
    -- a synthesized error can be encoded, and has an rcode that fits the header
    r.before.responseWire = none → r.before.CanFail c
  | _ => True

instance (c : Codec) (r : StageRun) : Decidable (r.Faithful c) := by
  unfold StageRun.Faithful
  split <;> infer_instance

/-- The steps that keep the recorded rcode with the stored wire: the deadline check fires only when
there is no stored wire, and upstream answers parse. -/
def Faithful (c : Codec) (s : State) : Act → Prop
  | .enter t late => late → ∀ th ∈ s.threads t, th.txn.responseWire = none
  | .ret t => ∀ th ∈ s.threads t, ∀ r ∈ th.ended, r.Faithful c
  | .resumeIo t (.response wire) =>
    ∀ th ∈ s.threads t, (c.fromVec (rewriteDnsId wire th.txn.dnsId)).isSome
  | _ => True

instance (c : Codec) (s : State) : (a : Act) → Decidable (Faithful c s a)
  | .enter _ _ => inferInstanceAs (Decidable (_ → ∀ th ∈ _, _))
  | .ret _ | .resumeIo _ (.response _) => inferInstanceAs (Decidable (∀ th ∈ _, _))
  | .resumeIo _ .timeout | .start _ | .op _ _ | .resumeLookup _ | .install _ | .dropInstance _
  | .addInstance _ => .isTrue trivial

/-- A stored wire parses, and its rcode is the recorded one. -/
def Agrees (c : Codec) (t : Transaction) : Prop :=
  ∀ wire ∈ t.responseWire, ∃ m, c.fromVec wire = some m ∧ t.rcode = some m.rcode

/-- A stored wire parses. -/
def Parses (c : Codec) (t : Transaction) : Prop :=
  ∀ wire ∈ t.responseWire, (c.fromVec wire).isSome

/-- The lookup goes on where it was suspended: it records the rcode again. -/
def Resuming (t : Transaction) : Prop :=
  t.lookupForwardStep = some .wait ∨ t.lookupCacheWait.isSome

/-- The client's UDP size is not too small for a header. -/
def PayloadOk (t : Transaction) : Prop := ∀ n ∈ t.clientUdpPayloadSize, 512 ≤ n

variable {t : Transaction}

theorem PayloadOk.header (h : PayloadOk t) :
    4 ≤ t.clientUdpPayloadSize.getD 512 := by
  cases hp : t.clientUdpPayloadSize with
  | none => simp
  | some n =>
    have := h n hp
    simp only [Option.getD_some]
    omega

variable {c : Codec}

theorem Agrees.parses (h : Agrees c t) : Parses c t := by
  intro wire hw
  obtain ⟨m, hm, -⟩ := h wire hw
  rw [hm]
  rfl

theorem agrees_of_none (h : t.responseWire = none) : Agrees c t := by
  intro wire hw
  rw [h] at hw
  cases hw

theorem Parses.agrees (h : Parses c t) (hr : Recorded c t) :
    Agrees c t := by
  intro wire hw
  obtain ⟨m, hm⟩ := Option.isSome_iff_exists.mp (h wire hw)
  exact ⟨m, hm, hr wire m hw hm⟩

variable {t' : Transaction}

theorem SameWire.parses (hw : SameWire t t') (h : Parses c t) :
    Parses c t' := by
  intro wire hmem
  rw [hw.wire] at hmem
  exact h wire hmem

theorem SameWire.agrees (hw : SameWire t t') (hr : t.responseWire.isSome → t'.rcode = t.rcode)
    (h : Agrees c t) : Agrees c t' := by
  intro wire hmem
  rw [hw.wire] at hmem
  obtain ⟨m, hm, hrc⟩ := h wire hmem
  exact ⟨m, hm, (hr (by rw [hmem]; rfl)).trans hrc⟩

theorem Stored.answers_ne (h : Stored t t') : t'.answers ≠ t.answers := by
  obtain ⟨wire, -, ha⟩ := h
  rw [ha]
  exact List.cons_ne_self wire t.answers

/-! ## The header of the bytes sent -/

section

variable {c : Codec} (hc : c.Lawful)

include hc

variable {t : Transaction}

theorem headerRcode_delivered (hp : PayloadOk t) (wire : Wire) :
    headerRcode (delivered c t wire) = headerRcode wire := by
  unfold delivered
  split
  · exact hc.headerRcode_truncateUdp hp.header
  · rfl

/-- The bytes sent for a transaction whose records agree have the recorded rcode. -/
theorem headerRcode_sentBytes (hp : PayloadOk t) (h : Agrees c t)
    (hr : t.responseWire = none → t.CanFail c) : headerRcode (sentBytes c t) = t.rcode := by
  unfold sentBytes
  split
  · rename_i wire hw
    obtain ⟨m, hm, hrc⟩ := h wire hw
    rw [headerRcode_delivered hc hp, hc.fromVec_rcode wire m hm, hrc]
  · rename_i hw
    obtain ⟨rcode, hrc, hlt, hemit⟩ := hr hw
    unfold synthesized
    rw [Option.mem_def.mp hrc, Option.getD_some,
      hc.headerRcode_buildErrorResponse hp.header hemit, Nat.mod_eq_of_lt hlt]

theorem structuralParse_payload {wire : Wire} {p : ParsedQuery}
    (h : structuralParse c wire = .ok p) : ∀ n ∈ p.clientUdpPayloadSize, 512 ≤ n := by
  unfold structuralParse at h
  split at h
  · cases h
  split at h
  · cases h
  rename_i m hm
  split at h
  · cases h
  split at h
  · cases h
  · cases h
    intro n hn
    obtain ⟨e, he, rfl⟩ := Option.map_eq_some_iff.mp hn
    exact hc.fromVec_payload wire m hm e he
  · cases h

theorem PayloadOk.parse (h : PayloadOk t) : PayloadOk (parseStage c t).1 := by
  unfold parseStage
  split
  · split <;> exact h
  · split
    · rename_i p hp
      exact structuralParse_payload hc hp
    · exact h

end

theorem SameClient.payloadOk (h : SameClient t t') (hp : PayloadOk t) :
    PayloadOk t' := by
  unfold PayloadOk
  rw [h.payload]
  exact hp

theorem PayloadOk.stage {w : Wiring} (hc : w.fns.codec.Lawful) {snap : RuntimeSnapshot}
    {t t' : Transaction} {phase : Phase} {out : StageOutcome} (h : PayloadOk t)
    (hend : StageEnd w snap t phase t' out) : PayloadOk t' := by
  cases hend with
  | parse => exact h.parse hc
  | requestRules hpol _ | responseRules hpol _ => exact hpol.sameClient.payloadOk h
  | lookup hl =>
    cases hl with
    | failed hcl | waiting _ hcl | forwarded hcl | hit hcl | missed hcl => exact hcl.payloadOk h
  | send =>
    obtain ⟨flag, hsend⟩ := sendStage_eq w.fns.codec t
    rw [hsend]
    exact h

/-! ## The invariant -/

/-- A transaction at the head of the loop: its records agree, or the lookup will record again. -/
def Ready (c : Codec) (t : Transaction) : Prop :=
  Parses c t ∧ (Agrees c t ∨ t.currentPhase = .lookup ∧ Resuming t)

/-- What the result of a stage says of the two records. -/
def Settled (c : Codec) (t : Transaction) : StageOutcome → Prop
  | .drop => True
  | .suspend _ => Parses c t ∧ Resuming t
  | .cont _ => Agrees c t

variable {out : StageOutcome}

theorem Agrees.settled (h : Agrees c t) (ho : ∀ phase, out ≠ .suspend phase) : Settled c t out := by
  cases out with
  | drop => trivial
  | suspend phase => exact absurd rfl (ho phase)
  | cont next => exact h

variable {w : Wiring}

theorem LookupEnd.settled {snap : RuntimeSnapshot} (hend : LookupEnd w snap t t' out)
    (hp : Parses w.fns.codec t) (ha : Agrees w.fns.codec t ∨ Resuming t)
    (hnew : t'.answers ≠ t.answers → Parses w.fns.codec t')
    (hexit : out = .cont .send → t.responseWire.isSome → t'.answers ≠ t.answers) :
    Settled w.fns.codec t' out := by
  cases hend with
  | failed _ hw _ =>
    -- a failing exit: there is no stored wire
    refine agrees_of_none ?_
    rw [hw.wire]
    by_contra hsome
    exact hexit rfl (Option.isSome_iff_ne_none.mpr hsome) hw.answers
  | waiting _ _ hw _ hwait => exact ⟨hw.parses hp, hwait⟩
  | forwarded _ hw hrec =>
    have hp' : Parses w.fns.codec t' := by
      rcases hw with hw | hw
      · exact hw.parses hp
      · exact hnew hw.answers_ne
    exact hp'.agrees hrec
  | hit _ hw hrec => exact (hnew hw.answers_ne).agrees hrec
  | missed _ hw hr _ _ hfresh =>
    have ha : Agrees w.fns.codec t := by
      rcases ha with ha | hres | hres
      · exact ha
      · exact absurd hres hfresh.1
      · rw [hfresh.2] at hres
        cases hres
    exact hw.agrees (fun _ => hr) ha

theorem Ready.stage {w : Wiring} {snap : RuntimeSnapshot} {r : StageRun}
    (h : Ready w.fns.codec r.before) (hphase : r.phase = r.before.currentPhase)
    (hend : StageEnd w snap r.before r.phase r.after r.outcome) (hf : r.Faithful w.fns.codec)
    (hne : r.phase ≠ .send) : Settled w.fns.codec r.after r.outcome := by
  obtain ⟨phase, generation, late, before, after, out⟩ := r
  simp only at h hphase hend hne ⊢
  -- outside the lookup the records agree
  have hagree : phase ≠ .lookup → Agrees w.fns.codec before := by
    intro hl
    rcases h.2 with ha | ⟨hl', -⟩
    · exact ha
    · exact absurd (hphase.trans hl') hl
  cases hend with
  | parse =>
    obtain ⟨hw, hr, -⟩ := parseStage_same w.fns.codec before
    refine (hw.agrees (fun _ => hr) (hagree (by decide))).settled ?_
    rcases parseStage_out w.fns.codec before with ho | ho <;> rw [ho] <;> intro _ h <;> cases h
  | requestRules hpol ho =>
    refine (hpol.sameWire.agrees hf (hagree (by decide))).settled ?_
    rcases ho with rfl | rfl <;> intro _ h <;> cases h
  | lookup hl =>
    obtain ⟨hnew, hexit⟩ := hf
    exact hl.settled h.1 (h.2.imp_right And.right) hnew hexit
  | responseRules hpol ho =>
    refine (hpol.sameWire.agrees hf (hagree (by decide))).settled ?_
    rcases ho with rfl | rfl | rfl <;> intro _ h <;> cases h
  | send => exact absurd rfl hne

/-- The invariant of the loop. -/
structure Thread.Truthful (c : Codec) (th : Thread) : Prop where
  payload : PayloadOk th.txn
  top : th.pos = .top → Ready c th.txn
  suspended : th.pos = .suspended → Parses c th.txn ∧ Resuming th.txn
  onTime : (∀ out, th.pos ≠ .finished out) → ∀ r ∈ th.log, r.late = false
  sent : ∀ b, th.pos = .finished (.response b) →
    headerRcode b = th.txn.rcode ∧ ∀ r ∈ th.log, r.late → b = synthesized c th.txn servfail

variable {th : Thread} {before : Transaction}

theorem Thread.Truthful.leave (hc : w.fns.codec.Lawful) {phase : Phase} {after : Transaction}
    (h : th.Truthful w.fns.codec) (hp : th.pos = .top)
    (hend : StageEnd w th.snap before phase after out) (hpay : PayloadOk before)
    (hset : Settled w.fns.codec after out) (hne : phase ≠ .send) :
    (th.leave phase false before after out).Truthful w.fns.codec := by
  have hpay' : PayloadOk after := hpay.stage hc hend
  have hlog : ∀ r ∈ th.log ++ [⟨phase, th.snap.generation, false, before, after, out⟩],
      r.late = false := by
    intro r hr
    rcases List.mem_append.mp hr with hr | hr
    · exact h.onTime (fun out hf => by rw [hp] at hf; cases hf) r hr
    · rw [List.mem_singleton.mp hr]
  cases out with
  | drop =>
    exact ⟨hpay', fun h => (by cases h), fun h => (by cases h), fun h => absurd rfl (h _),
      fun b h => (by cases h)⟩
  | suspend _ =>
    exact ⟨hpay', fun h => (by cases h), fun _ => hset, fun _ => hlog, fun b h => (by cases h)⟩
  | cont next =>
    rw [Thread.leave]
    simp only [if_neg hne]
    have hset : Agrees w.fns.codec after := hset
    exact ⟨hpay', fun _ => ⟨hset.parses, .inl hset⟩, fun h => (by cases h), fun _ => hlog,
      fun b h => (by cases h)⟩

theorem Thread.Truthful.leave_send (hc : w.fns.codec.Lawful) {late : Bool}
    (h : th.Truthful w.fns.codec) (hp : th.pos = .top) (hpay : PayloadOk before)
    (hag : Agrees w.fns.codec before)
    (hany : before.responseWire = none → before.CanFail w.fns.codec)
    (hlate : late → before.responseWire = none ∧ before.rcode = some servfail) :
    (th.leave .send late before (sendStage w.fns.codec before) (.cont .send)).Truthful
      w.fns.codec := by
  obtain ⟨flag, hsend⟩ := sendStage_eq w.fns.codec before
  rw [hsend, Thread.leave]
  simp only [if_true]
  refine ⟨hpay, fun h => (by cases h), fun h => (by cases h), fun h => absurd rfl (h _), ?_⟩
  intro b hb
  cases hb
  refine ⟨headerRcode_sentBytes hc hpay hag hany, ?_⟩
  intro r hr hrl
  rcases List.mem_append.mp hr with hr | hr
  · -- the runs before it were on time
    rw [h.onTime (fun out hf => by rw [hp] at hf; cases hf) r hr] at hrl
    cases hrl
  · rw [List.mem_singleton.mp hr] at hrl
    obtain ⟨hw, hrc⟩ := hlate hrl
    show sentBytes w.fns.codec before = synthesized w.fns.codec before servfail
    unfold sentBytes
    rw [hw, hrc, Option.getD_some]

theorem truthful_start (hc : w.fns.codec.Lawful) {q : Ingress} (hq : q.transaction w = some t)
    (snap : RuntimeSnapshot) :
    (Thread.start t snap).Truthful w.fns.codec := by
  have ht : PayloadOk t ∧ t.responseWire = none := by
    unfold Ingress.transaction at hq
    cases hrt : w.runtime <;> cases htag : q.tag <;> simp only [hrt, htag] at hq
    · cases hq; exact ⟨fun _ h => (by cases h), rfl⟩
    · cases hq; exact ⟨fun _ h => (by cases h), rfl⟩
    all_goals
      split at hq
      · rename_i p hp
        cases hq
        exact ⟨structuralParse_payload hc hp, rfl⟩
      · cases hq
  have hag : Agrees w.fns.codec t := agrees_of_none ht.2
  exact ⟨ht.1, fun _ => ⟨hag.parses, .inl hag⟩, fun h => (by cases h), fun _ _ h => (by cases h),
    fun _ h => (by cases h)⟩

theorem truthful_rule (hc : w.fns.codec.Lawful) :
    Thread.Rule w (Faithful w.fns.codec) (StageRun.Faithful w.fns.codec)
      (Thread.Truthful w.fns.codec) where
  start _ hq := truthful_start hc hq _
  enter := by
    rintro s t th late _ p hC ht hp hT rfl hrun
    refine (runStage_ensures hrun).mono ?_
    rintro ⟨after, out⟩ hend hgood
    cases late with
    | true =>
      -- the deadline check jumps to send: there is no stored wire
      have hnone : th.txn.responseWire = none := hC rfl th ht
      have hend : StageEnd w th.snap (Thread.checkDeadline th.txn true) .send after out := hend
      cases hend
      have hf : StageRun.Faithful w.fns.codec
        ⟨.send, th.snap.generation, true, Thread.checkDeadline th.txn true, _, _⟩ := hgood
      exact hT.leave_send hc hp hT.payload (agrees_of_none hnone) hf fun _ => ⟨hnone, rfl⟩
    | false =>
      have hready := hT.top hp
      have hend : StageEnd w th.snap th.txn th.txn.currentPhase after out := hend
      by_cases hph : th.txn.currentPhase = .send
      · have hag : Agrees w.fns.codec th.txn := by
          rcases hready.2 with ha | ⟨hl, -⟩
          · exact ha
          · rw [hph] at hl
            cases hl
        have hf : StageRun.Faithful w.fns.codec
            ⟨th.txn.currentPhase, th.snap.generation, false, th.txn, after, out⟩ := hgood
        rw [hph] at hend hf
        show (th.leave th.txn.currentPhase false th.txn after out).Truthful w.fns.codec
        rw [hph]
        cases hend
        exact hT.leave_send hc hp hT.payload hag hf fun h => by cases h
      · have hset := @Ready.stage w th.snap
          ⟨th.txn.currentPhase, th.snap.generation, false, th.txn, after, out⟩
          hready rfl hend hgood hph
        exact hT.leave hc hp hend hT.payload hset hph
  pass := by
    intro s t th late hC ht hp hT hrun
    have hnone := runStage_none hrun
    cases late with
    | true => rcases hnone with h | h | h | h <;> cases h
    | false =>
      have hag : Agrees w.fns.codec th.txn := by
        rcases (hT.top hp).2 with ha | ⟨hl, -⟩
        · exact ha
        · have hph : (Thread.checkDeadline th.txn false).currentPhase = .lookup := hl
          rw [hph] at hnone
          rcases hnone with h | h | h | h <;> cases h
      rw [Thread.enter]
      simp only [hrun]
      exact ⟨hT.payload, fun _ => ⟨hag.parses, .inl hag⟩, fun h => (by rw [hp] at h; cases h),
        fun _ => hT.onTime fun out h => (by rw [hp] at h; cases h),
        fun b h => (by rw [hp] at h; cases h)⟩
  ret hC ht hp := by
    refine hC _ ht _ ?_
    rw [Thread.ended, hp]
    exact rfl
  resumeIo := by
    intro s t th c hC ht hp _ hT
    obtain ⟨hpar, hres⟩ := hT.suspended hp
    have hlog := hT.onTime fun out h => (by rw [hp] at h; cases h)
    cases c with
    | response wire =>
      have hwire : (w.fns.codec.fromVec (rewriteDnsId wire th.txn.dnsId)).isSome := hC th ht
      refine ⟨hT.payload, fun _ => ⟨?_, .inr ⟨rfl, hres⟩⟩, fun h => (by cases h), fun _ => hlog,
        fun b h => (by cases h)⟩
      intro wire' hw'
      cases hw'
      exact hwire
    | timeout =>
      exact ⟨hT.payload, fun _ => ⟨hpar, .inr ⟨rfl, hres⟩⟩, fun h => (by cases h), fun _ => hlog,
        fun b h => (by cases h)⟩
  resumeLookup := by
    intro s t th hC ht hp _ hT
    obtain ⟨hpar, hres⟩ := hT.suspended hp
    have hlog := hT.onTime fun out h => (by rw [hp] at h; cases h)
    exact ⟨hT.payload, fun _ => ⟨hpar, .inr ⟨rfl, hres⟩⟩, fun h => (by cases h), fun _ => hlog,
      fun b h => (by cases h)⟩

/-- **The deadline and the rcode.** In the faithful runs, a transaction on which the deadline check
fired and that sends something sends a synthesized SERVFAIL, and the rcode recorded for a finished
transaction is the one in the header of the bytes sent. -/
theorem rcode_sent (w : Wiring) (hc : w.fns.codec.Lawful) (s : State)
    (h : (machine w).Reach (Faithful w.fns.codec) s) (t : Tid) (th : Thread)
    (ht : s.threads t = some th) (b : Wire) (hb : th.pos = .finished (.response b)) :
    (∀ r ∈ th.log, r.late → b = synthesized w.fns.codec th.txn servfail) ∧
      headerRcode b = th.txn.rcode := by
  have hth := (truthful_rule hc).holds h t th ht
  unfold Thread.Holds at hth
  simp only [hb] at hth
  exact (hth.sent b hb).symm

/-- The deadline check has fired after the lookup of the first transaction, which has got the
response. -/
abbrev LateTo (b : Wire) (s : State) : Prop :=
  ∃ th ∈ s.threads 0, th.pos = .finished (.response b) ∧
    th.log.map (fun r => (r.phase, r.late)) =
      [(.parse, false), (.requestRules, false), (.lookup, false), (.send, true)] ∧
    th.txn.rcode = some servfail

/-- The deadline check fires after a timeout of the upstream: a SERVFAIL is recorded and sent. -/
theorem rcode_sent_sample :
    ∃ s th, (sampleWiring .sync).fns.codec.Lawful ∧
      (machine (sampleWiring .sync)).Reach (Faithful Codec.header) s ∧
      s.threads 0 = some th ∧ th.pos = .finished (.response [0, 7, 128, 2]) ∧
      th.log.map (fun r => (r.phase, r.late)) =
        [(.parse, false), (.requestRules, false), (.lookup, false), (.send, true)] ∧
      (∀ r ∈ th.log, r.late → [0, 7, 128, 2] = synthesized Codec.header th.txn servfail) ∧
      headerRcode [0, 7, 128, 2] = th.txn.rcode := by
  obtain ⟨s, hr, th, ht, hpos, hlog, -⟩ := Lts.exists_exec (Faithful Codec.header)
    ([Act.start (sampleQuery 11)] ++ toLookup 0 ++ ops 0 8 ++ sampleTimeout ++
      [Act.enter 0 true, Act.ret 0])
    (LateTo [0, 7, 128, 2]) (sampleInit_init .sync sampleSnapshot) (by decide +kernel)
  exact ⟨s, th, Codec.header_lawful, hr, ht, hpos, hlog,
    rcode_sent (sampleWiring .sync) Codec.header_lawful s hr 0 th ht _ hpos⟩

/-- The deadline check fires between the lookup and the response rules: the stored NOERROR answer is
sent, and SERVFAIL is recorded for it. -/
theorem rcode_broken :
    ∃ s th, (machine (sampleWiring .sync)).Reach Lts.Any s ∧
      s.threads 0 = some th ∧ th.pos = .finished (.response [0, 7, 128, 0]) ∧
      th.log.map (fun r => (r.phase, r.late)) =
        [(.parse, false), (.requestRules, false), (.lookup, false), (.send, true)] ∧
      th.txn.rcode = some servfail ∧ headerRcode [0, 7, 128, 0] = some 0 := by
  obtain ⟨s, hr, th, ht, hpos, hlog, hrc⟩ := Lts.exists_exec Lts.Any
    ([Act.start (sampleQuery 11)] ++ toLookup 0 ++ ops 0 8 ++ sampleForward [0, 0, 128, 0] ++
      [Act.enter 0 true, Act.ret 0])
    (LateTo [0, 7, 128, 0]) (sampleInit_init .sync sampleSnapshot) (by decide +kernel)
  exact ⟨s, th, hr, ht, hpos, hlog, hrc, rfl⟩

end Conduit
