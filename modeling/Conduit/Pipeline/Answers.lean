import Conduit.Pipeline.Specs

/-!
# What is sent after a retry

A transaction keeps the wire of its last answer, and send prefers it to a synthesized error. A retry
does not clear it. So if no later attempt is answered, the client gets the rejected answer
(`rejected_sent`), unless there is no stored wire at all: then it gets a synthesized error, SERVFAIL
if no rule set another rcode. Both are `sent_after_retry`, for every exit of the loop.
-/

namespace Conduit

open Prog

/-- A stored wire is the newest answer. -/
def Newest (t : Transaction) : Prop := t.responseWire = t.answers.head?

variable {t t' : Transaction}

theorem SameWire.newest (h : SameWire t t') (hn : Newest t) : Newest t' := by
  unfold Newest
  rw [h.wire, h.answers]
  exact hn

theorem Stored.newest (h : Stored t t') : Newest t' := by
  obtain ⟨wire, hw, ha⟩ := h
  unfold Newest
  rw [hw, ha, List.head?_cons]

/-- The rules of the run set the rcode of a transaction without an answer. -/
def StageRun.Sets (r : StageRun) (rcode : Nat) : Prop :=
  (r.phase = .requestRules ∨ r.phase = .responseRules) ∧ r.before.responseWire = none ∧
    r.before.rcode ≠ some rcode ∧ r.after.rcode = some rcode

/-- Without an answer, the rcode is SERVFAIL or was set by rules. -/
def RcodeFrom (log : List StageRun) (t : Transaction) : Prop :=
  t.responseWire = none → ∀ rcode, t.rcode = some rcode →
    rcode = servfail ∨ ∃ r ∈ log, r.Sets rcode

variable {log : List StageRun}

theorem RcodeFrom.mono (h : RcodeFrom log t) (r : StageRun) : RcodeFrom (log ++ [r]) t := by
  intro hw rcode hr
  rcases h hw rcode hr with h | ⟨r', hmem, hs⟩
  · exact .inl h
  · exact .inr ⟨r', List.mem_append_left _ hmem, hs⟩

theorem RcodeFrom.same {log : List StageRun} {t t' : Transaction} (h : RcodeFrom log t)
    (hw : t'.responseWire = none → t.responseWire = none)
    (hr : t'.responseWire = none → t'.rcode = t.rcode ∨ t'.rcode = some servfail) :
    RcodeFrom log t' := by
  intro hnone rcode hrc
  rcases hr hnone with h' | h'
  · exact h (hw hnone) rcode (h'.symm.trans hrc)
  · rw [h'] at hrc
    cases hrc
    exact .inl rfl

theorem Stored.rcodeFrom (h : Stored t t') :
    RcodeFrom log t' := by
  obtain ⟨wire, hw, -⟩ := h
  intro hnone
  rw [hw] at hnone
  cases hnone

theorem RcodeFrom.rules {r : StageRun} (h : RcodeFrom log r.before)
    (hphase : r.phase = .requestRules ∨ r.phase = .responseRules) (hw : SameWire r.before r.after) :
    RcodeFrom (log ++ [r]) r.after := by
  intro hnone rcode hrc
  have hnone : r.before.responseWire = none := hw.wire.symm.trans hnone
  by_cases hold : r.before.rcode = some rcode
  · exact h.mono r hnone rcode hold
  · exact .inr ⟨r, List.mem_append_right _ (List.mem_singleton.mpr rfl), hphase, hnone, hold, hrc⟩

/-- The stored wire and the rcode of a transaction that is not finished. -/
structure Consistent (log : List StageRun) (t : Transaction) : Prop where
  newest : Newest t
  rcode : RcodeFrom log t

theorem Consistent.stage {w : Wiring} {snap : RuntimeSnapshot} {log : List StageRun}
    {r : StageRun} (h : Consistent log r.before)
    (hend : StageEnd w snap r.before r.phase r.after r.outcome) (hphase : r.phase ≠ .send) :
    Consistent (log ++ [r]) r.after := by
  obtain ⟨phase, generation, late, before, after, out⟩ := r
  simp only at h hend hphase
  have hmono := h.rcode.mono ⟨phase, generation, late, before, after, out⟩
  cases hend with
  | parse =>
    obtain ⟨hw, hr, -⟩ := parseStage_same w.fns.codec before
    exact ⟨hw.newest h.newest, hmono.same (fun hn => hw.wire.symm.trans hn) fun _ => .inl hr⟩
  | requestRules hpol _ =>
    exact ⟨hpol.sameWire.newest h.newest,
      RcodeFrom.rules (r := ⟨.requestRules, generation, late, before, after, out⟩) h.rcode
        (.inl rfl) hpol.sameWire⟩
  | lookup hl =>
    cases hl with
    | failed _ hw hr =>
      exact ⟨hw.newest h.newest, hmono.same (fun hn => hw.wire.symm.trans hn) fun _ => .inr hr⟩
    | waiting _ _ hw hr | missed _ hw hr =>
      exact ⟨hw.newest h.newest, hmono.same (fun hn => hw.wire.symm.trans hn) fun _ => .inl hr⟩
    | forwarded _ hw _ hnone =>
      rcases hw with hw | hw
      · exact ⟨hw.newest h.newest,
          hmono.same (fun hn => hw.wire.symm.trans hn) fun hn => (hnone hn).symm⟩
      · exact ⟨hw.newest, hw.rcodeFrom⟩
    | hit _ hw => exact ⟨hw.newest, hw.rcodeFrom⟩
  | responseRules hpol _ =>
    exact ⟨hpol.sameWire.newest h.newest,
      RcodeFrom.rules (r := ⟨.responseRules, generation, late, before, after, out⟩) h.rcode
        (.inr rfl) hpol.sameWire⟩
  | send => exact absurd rfl hphase

theorem Consistent.checkDeadline (h : Consistent log t) (late : Bool) :
    Consistent log (Thread.checkDeadline t late) := by
  cases late with
  | true => exact ⟨h.newest, h.rcode.same (fun hn => hn) fun _ => .inr rfl⟩
  | false => exact h

theorem Consistent.waitCompletion (h : Consistent log t) (c : WaitCompletion) :
    Consistent log (applyWaitCompletion t c) := by
  cases c with
  | response wire =>
    have hs : Stored t (applyWaitCompletion t (.response wire)) := ⟨_, rfl, rfl⟩
    exact ⟨hs.newest, hs.rcodeFrom⟩
  | timeout => exact ⟨h.newest, h.rcode.same (fun hn => hn) fun _ => .inr rfl⟩

/-- The invariant of the loop. A retry leaves the stored wire as it was; what a finished transaction
returned is what send made of a consistent transaction. -/
structure Thread.Kept (c : Codec) (th : Thread) : Prop where
  retries : ∀ r ∈ th.log, r.retry → r.before.responseWire = r.after.answers.head?
  unfinished : (∀ out, th.pos ≠ .finished out) → Consistent th.log th.txn
  sent : ∀ b, th.pos = .finished (.response b) → ∃ t, Consistent th.log t ∧ b = sentBytes c t ∧
    th.txn.answers = t.answers ∧ SameClient t th.txn

theorem StageEnd.retry {w : Wiring} {snap : RuntimeSnapshot} {r : StageRun}
    (hend : StageEnd w snap r.before r.phase r.after r.outcome) (hr : r.retry)
    (hn : Newest r.before) : r.before.responseWire = r.after.answers.head? := by
  obtain ⟨phase, generation, late, before, after, out⟩ := r
  have hphase : phase = .responseRules := by
    simp only [StageRun.retry, Bool.and_eq_true, beq_iff_eq] at hr
    exact hr.1
  subst hphase
  simp only at hend hn ⊢
  cases hend with
  | responseRules hpol _ =>
    rw [hpol.sameWire.answers]
    exact hn

theorem Thread.Kept.leave {w : Wiring} {th : Thread} {phase : Phase} {late : Bool}
    {before after : Transaction} {out : StageOutcome} (h : th.Kept w.fns.codec)
    (hb : Consistent th.log before) (hend : StageEnd w th.snap before phase after out) :
    (th.leave phase late before after out).Kept w.fns.codec := by
  have hretries : ∀ r ∈ th.log ++ [⟨phase, th.snap.generation, late, before, after, out⟩],
      r.retry → r.before.responseWire = r.after.answers.head? := by
    intro r hr hretry
    rcases List.mem_append.mp hr with hr | hr
    · exact h.retries r hr hretry
    · cases List.mem_singleton.mp hr
      exact @StageEnd.retry w th.snap _ hend hretry hb.newest
  by_cases hph : phase = .send
  · subst hph
    cases hend
    obtain ⟨flag, hsend⟩ := sendStage_eq w.fns.codec before
    refine ⟨hretries, ?_, ?_⟩
    · intro hopen
      exact absurd rfl (hopen _)
    · intro b hpos
      simp only [Thread.leave, if_true, hsend, Pos.finished.injEq, RunOutcome.response.injEq] at hpos
      refine ⟨before, ⟨hb.newest, hb.rcode.mono _⟩, hpos.symm, ?_, ?_⟩
      · simp only [Thread.leave, if_true, hsend]
      · simp only [Thread.leave, if_true, hsend]
        exact ⟨rfl, rfl, rfl, rfl, rfl, rfl⟩
  · have hafter := @Consistent.stage w th.snap th.log
      ⟨phase, th.snap.generation, late, before, after, out⟩ hb hend hph
    cases out with
    | drop => exact ⟨hretries, fun hopen => absurd rfl (hopen _), fun b hpos => by cases hpos⟩
    | suspend _ =>
      exact ⟨hretries, fun _ => ⟨hafter.newest, hafter.rcode⟩, fun b hpos => by cases hpos⟩
    | cont next =>
      rw [Thread.leave]
      simp only [if_neg hph]
      exact ⟨hretries, fun _ => ⟨hafter.newest, hafter.rcode⟩, fun b hpos => by cases hpos⟩

theorem kept_rule (w : Wiring) (C : State → Act → Prop) :
    Thread.Rule w C (fun _ => True) (Thread.Kept w.fns.codec) where
  start := by
    intro s q t _ hq
    have ht : t.responseWire = none ∧ t.answers = [] ∧ t.rcode = none := by
      unfold Ingress.transaction at hq
      cases hrt : w.runtime <;> cases htag : q.tag <;> simp only [hrt, htag] at hq
      · cases hq; exact ⟨rfl, rfl, rfl⟩
      · cases hq; exact ⟨rfl, rfl, rfl⟩
      all_goals
        split at hq
        · cases hq; exact ⟨rfl, rfl, rfl⟩
        · cases hq
    refine ⟨fun _ h => (by cases h), fun _ => ⟨?_, ?_⟩, fun _ h => (by cases h)⟩
    · show t.responseWire = t.answers.head?
      rw [ht.1, ht.2.1, List.head?_nil]
    · intro _ rcode (hr : t.rcode = some rcode)
      rw [ht.2.2] at hr
      cases hr
  enter := by
    rintro s t th late _ p _ _ hp hK rfl hrun
    have hopen : Consistent th.log th.txn := hK.unfinished fun out h => by rw [hp] at h; cases h
    refine (runStage_ensures hrun).mono fun r hr _ => ?_
    exact hK.leave (hopen.checkDeadline late) hr
  pass := by
    intro s t th late _ _ hp hK hrun
    have hopen : Consistent th.log th.txn := hK.unfinished fun out h => by rw [hp] at h; cases h
    have hlate := hopen.checkDeadline late
    rw [Thread.enter]
    simp only [hrun]
    exact ⟨hK.retries, fun _ => ⟨hlate.newest, hlate.rcode⟩, fun b h => by rw [hp] at h; cases h⟩
  ret _ _ _ := trivial
  resumeIo := by
    intro s t th c _ _ hp _ hK
    have hopen : Consistent th.log th.txn := hK.unfinished fun out h => by rw [hp] at h; cases h
    have hres := hopen.waitCompletion c
    exact ⟨hK.retries, fun _ => ⟨hres.newest, hres.rcode⟩, fun b h => by cases h⟩
  resumeLookup := by
    intro s t th _ _ hp _ hK
    have hopen : Consistent th.log th.txn := hK.unfinished fun out h => by rw [hp] at h; cases h
    exact ⟨hK.retries, fun _ => ⟨hopen.newest, hopen.rcode⟩, fun b h => by cases h⟩

/-- **After a retry without a new answer.** Of a transaction that was finished with bytes `b` and
stored no answer after the retry `r`: if it had a stored wire at the retry, `b` is that wire, the
rejected one; if it had none, `b` is a synthesized error, and its rcode is SERVFAIL or was set by
rules while there was no answer. -/
theorem sent_after_retry (w : Wiring) (s : State) (h : (machine w).Reach Lts.Any s) (t : Tid)
    (th : Thread) (ht : s.threads t = some th) (b : Wire) (hb : th.pos = .finished (.response b))
    (r : StageRun) (hr : r ∈ th.log) (hretry : r.retry) (hnone : th.txn.answers = r.after.answers) :
    (r.before.responseWire = none → ∃ rcode, b = synthesized w.fns.codec th.txn rcode ∧
      (rcode = servfail ∨ ∃ r' ∈ th.log, r'.Sets rcode)) ∧
    ∀ wire, r.before.responseWire = some wire → b = delivered w.fns.codec th.txn wire := by
  have hth := (kept_rule w (Lts.Any (L := machine w))).holds h t th ht
  unfold Thread.Holds at hth
  simp only [hb] at hth
  obtain ⟨t₀, hc, hsent, hans, hcl⟩ := hth.sent b hb
  -- the wire at send is the wire at the retry
  have hwire : t₀.responseWire = r.before.responseWire := by
    rw [hc.newest, ← hans, hnone]
    exact (hth.retries r hr hretry).symm
  unfold sentBytes at hsent
  constructor
  · intro hno
    rw [hwire, hno] at hsent
    refine ⟨t₀.rcode.getD servfail, ?_, ?_⟩
    · unfold synthesized at hsent ⊢
      rw [hcl.dnsId, hcl.queryWire, hcl.payload]
      exact hsent
    · cases hrc : t₀.rcode with
      | none => exact .inl rfl
      | some rcode => exact hc.rcode (hwire.trans hno) rcode hrc
  · intro wire hw
    rw [hwire, hw] at hsent
    unfold delivered at hsent ⊢
    rw [hcl.protocol, hcl.payload]
    exact hsent

/-- The first transaction has got the response, after a retry of the stored wire with no new answer
since. -/
abbrev RetriedTo (b : Wire) (wire : Option Wire) (s : State) : Prop :=
  ∃ th ∈ s.threads 0, th.pos = .finished (.response b) ∧
    ∃ r ∈ th.log, r.retry ∧ th.txn.answers = r.after.answers ∧ r.before.responseWire = wire

/-- The retry of a timeout at the limit of the attempts: a synthesized SERVFAIL is sent. -/
theorem sent_after_retry_sample :
    ∃ s th r, (machine (sampleWiring .sync)).Reach Lts.Any s ∧ s.threads 0 = some th ∧
      th.pos = .finished (.response [0, 7, 128, 2]) ∧ r ∈ th.log ∧ r.retry ∧
      th.txn.answers = r.after.answers ∧ r.before.responseWire = none ∧
      ∃ rcode, [0, 7, 128, 2] = synthesized Codec.header th.txn rcode ∧
        (rcode = servfail ∨ ∃ r' ∈ th.log, r'.Sets rcode) := by
  obtain ⟨s, hr, th, ht, hpos, r, hmem, hretry, hans, hwire⟩ := Lts.exists_exec Lts.Any
    ([Act.start (sampleQuery 11)] ++ toLookup 0 ++ ops 0 8 ++ sampleTimeout ++
      sampleRules ++ [Act.ret 0, Act.enter 0 false, Act.ret 0])
    (RetriedTo [0, 7, 128, 2] none) (sampleInit_init .sync sampleRetrying) (by decide +kernel)
  exact ⟨s, th, r, hr, ht, hpos, hmem, hretry, hans, hwire,
    (sent_after_retry _ s hr 0 th ht _ hpos r hmem hretry hans).1 hwire⟩

/-- The retry of an NXDOMAIN at the limit of the attempts: the rejected answer is sent, not a
SERVFAIL. -/
theorem rejected_sent :
    ∃ s th r, (machine (sampleWiring .sync)).Reach Lts.Any s ∧ s.threads 0 = some th ∧
      th.pos = .finished (.response [0, 7, 128, 3]) ∧ r ∈ th.log ∧ r.retry ∧
      th.txn.answers = r.after.answers ∧ r.before.responseWire = some [0, 7, 128, 3] ∧
      headerRcode [0, 7, 128, 3] ≠ some servfail := by
  obtain ⟨s, hr, th, ht, hpos, r, hmem, hretry, hans, hwire⟩ := Lts.exists_exec Lts.Any
    ([Act.start (sampleQuery 11)] ++ toLookup 0 ++ ops 0 8 ++ sampleForward [0, 0, 128, 3] ++
      sampleRules ++ [Act.ret 0, Act.enter 0 false, Act.ret 0])
    (RetriedTo [0, 7, 128, 3] (some [0, 7, 128, 3])) (sampleInit_init .sync sampleRetrying)
    (by decide +kernel)
  exact ⟨s, th, r, hr, ht, hpos, hmem, hretry, hans, hwire, by decide⟩

end Conduit
