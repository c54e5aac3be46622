import Conduit.Health.State

/-!
# Recovery from a trip

A backend that has been put down, by probes or by live forwards, comes up again after `rise` probe
successes in a row. They should all be recorded after the trip. A failed probe starts a new run of
successes; a live forward that fails does not, so a backend that live forwards put down counts the
successes from before (`stale_recovery`).

- `HealthOutcome`, `record`, `recordAll`: the outcomes of a backend, in any order.
- `RecoversFresh`: every recovery from a trip has its own run of successes.
- `Rested`: a live forward does not put the backend down in the middle of a run of successes.
- `recovery_fresh`: recoveries are fresh where all outcomes find the backend rested, and any other
  outcome leads to a recovery that is not.
-/

namespace Conduit

inductive HealthOutcome where
  | probeSuccess (alpha rttMs : Float)
  | probeFailure (fall : UInt32)
  | passiveFailure (passiveFall : UInt32)
  | passiveSuccess

/-- The probes among the outcomes; `true`: a success. -/
def probesOf (os : List HealthOutcome) : List Bool :=
  os.filterMap fun
    | .probeSuccess _ _ => some true
    | .probeFailure _ => some false
    | .passiveFailure _ | .passiveSuccess => none

namespace BackendHealthState

def record (rise : UInt32) (s : BackendHealthState) : HealthOutcome → BackendHealthState
  | .probeSuccess alpha rttMs => s.recordSuccess rise alpha rttMs
  | .probeFailure fall => s.recordFailure fall
  | .passiveFailure passiveFall => (s.recordPassiveFailure passiveFall).1
  | .passiveSuccess => s.recordPassiveSuccess

def recordAll (rise : UInt32) (s : BackendHealthState) (os : List HealthOutcome) :
    BackendHealthState :=
  os.foldl (record rise) s

/-- The outcome puts the backend down. -/
def Trips (rise : UInt32) (s : BackendHealthState) (o : HealthOutcome) : Prop :=
  s.observed ≠ .down ∧ (s.record rise o).observed = .down

instance (rise : UInt32) (s : BackendHealthState) (o : HealthOutcome) :
    Decidable (s.Trips rise o) :=
  inferInstanceAs (Decidable (_ ∧ _))

/-- After an outcome that puts the backend down, it is up again only once `rise` probes in a row
have succeeded. -/
def RecoversFresh (rise : UInt32) (s : BackendHealthState) (os : List HealthOutcome) : Prop :=
  ∀ before o after, os = before ++ o :: after → (s.recordAll rise before).Trips rise o →
    (s.recordAll rise os).observed = .up ∨ (s.recordAll rise os).applied = .up →
      List.replicate rise.toNat true <:+: probesOf after

/-- A live forward does not put the backend down in the middle of a run of probe successes, unless
one success is enough to come up. -/
def Rested (rise : UInt32) (s : BackendHealthState) (o : HealthOutcome) : Prop :=
  match o with
  | .passiveFailure passiveFall =>
    s.observed ≠ .down → saturatingSucc s.passiveConsecutiveFailures ≥ max passiveFall 1 →
      s.consecutiveSuccesses = 0 ∨ rise = 1
  | _ => True

instance (rise : UInt32) (s : BackendHealthState) :
    (o : HealthOutcome) → Decidable (s.Rested rise o)
  | .passiveFailure _ => inferInstanceAs (Decidable (_ → _ → _))
  | .probeSuccess _ _ | .probeFailure _ | .passiveSuccess => .isTrue trivial

/-- Every outcome of the run finds the backend rested. -/
def AllRested (rise : UInt32) (s : BackendHealthState) (os : List HealthOutcome) : Prop :=
  ∀ before o after, os = before ++ o :: after → (s.recordAll rise before).Rested rise o

theorem allRested_nil (rise : UInt32) (s : BackendHealthState) : s.AllRested rise [] := by
  intro before o after h
  cases before <;> cases h

variable {o : HealthOutcome} {os : List HealthOutcome}

theorem allRested_cons {rise : UInt32} {s : BackendHealthState} (ho : s.Rested rise o)
    (h : (s.record rise o).AllRested rise os) :
    s.AllRested rise (o :: os) := by
  intro before o' after heq
  cases before with
  | nil =>
    cases heq
    exact ho
  | cons b before =>
    cases heq
    exact h before o' after rfl

/-! ## One outcome -/

section

variable {rise : UInt32} {s : BackendHealthState}

@[simp] theorem setApplied_consecutiveSuccesses (v : Health) :
    (s.setApplied v).consecutiveSuccesses = s.consecutiveSuccesses := by
  unfold setApplied
  split <;> rfl

@[simp] theorem observe_consecutiveSuccesses (v : Health) :
    (s.observe v).consecutiveSuccesses = s.consecutiveSuccesses := by
  unfold observe
  by_cases hv : s.observed = v <;> cases s.frozen <;> simp [noteTransition, hv]

theorem saturatingSucc_toNat (n : UInt32) :
    (saturatingSucc n).toNat = min (n.toNat + 1) (2 ^ 32 - 1) := by
  have hlt := n.toNat_lt
  unfold saturatingSucc
  split
  · rename_i h
    have hz : (n.toNat + 1) % 2 ^ 32 = 0 := by simpa using congrArg UInt32.toNat h
    omega
  · rename_i h
    have hz : (n.toNat + 1) % 2 ^ 32 ≠ 0 := fun hz => h (UInt32.toNat_inj.mp (by simpa using hz))
    rw [UInt32.toNat_add, UInt32.toNat_one]
    omega

theorem max_one (h : 1 ≤ rise) : max rise 1 = rise := by
  show (if rise ≤ 1 then 1 else rise) = rise
  split
  · exact UInt32.le_antisymm h ‹_›
  · rfl

theorem record_frozen (rise : UInt32) (o : HealthOutcome) : (s.record rise o).frozen = s.frozen := by
  cases o with
  | probeSuccess alpha rttMs => exact (s.verdict_recordSuccess rise alpha rttMs).1
  | probeFailure fall => exact (s.verdict_recordFailure fall).1
  | passiveFailure passiveFall => exact (s.verdict_recordPassiveFailure passiveFall).1
  | passiveSuccess => rfl

theorem recordSuccess_spec (s : BackendHealthState) (rise : UInt32) (alpha rttMs : Float) :
    (s.recordSuccess rise alpha rttMs).consecutiveSuccesses =
        saturatingSucc s.consecutiveSuccesses ∧
      (if saturatingSucc s.consecutiveSuccesses ≥ max rise 1 then
        (s.recordSuccess rise alpha rttMs).observed = .up
      else (s.recordSuccess rise alpha rttMs).observed = s.observed ∧
        (s.recordSuccess rise alpha rttMs).applied = s.applied) := by
  by_cases h : saturatingSucc s.consecutiveSuccesses ≥ max rise 1
  · rw [if_pos h, recordSuccess]
    simp only [updateEwma, h, if_true]
    exact ⟨observe_consecutiveSuccesses _, (observe_spec _ .up).2.1⟩
  · rw [if_neg h, recordSuccess]
    simp only [updateEwma, h, if_false, and_self]

/-- What an outcome other than a success does: it does not make the run longer, and nothing comes
up. -/
theorem record_spec (s : BackendHealthState) (rise : UInt32) {o : HealthOutcome}
    (h : probesOf [o] ≠ [true]) :
    ((s.record rise o).consecutiveSuccesses = 0 ∨
        probesOf [o] = [] ∧
          (s.record rise o).consecutiveSuccesses = s.consecutiveSuccesses) ∧
      ((s.record rise o).observed = s.observed ∧ (s.record rise o).applied = s.applied ∨
        (s.record rise o).observed = .down ∧
          (s.frozen = false → (s.record rise o).applied = .down)) := by
  -- a verdict `down` of a state that has the liveness of `s`
  have hdown : ∀ t : BackendHealthState, t.frozen = s.frozen →
      (t.observe .down).observed = .down ∧ (s.frozen = false → (t.observe .down).applied = .down) := by
    intro t hf
    obtain ⟨-, ho, ha⟩ := t.observe_spec .down
    refine ⟨ho, fun hs => ?_⟩
    rw [ha, hf, hs]
    rfl
  cases o with
  | probeSuccess alpha rttMs => exact absurd rfl h
  | probeFailure fall =>
    simp only [record, recordFailure]
    split
    · exact ⟨.inl (observe_consecutiveSuccesses _), .inr (hdown _ rfl)⟩
    · exact ⟨.inl rfl, .inl ⟨rfl, rfl⟩⟩
  | passiveFailure passiveFall =>
    simp only [record, recordPassiveFailure]
    split
    · exact ⟨.inr ⟨rfl, observe_consecutiveSuccesses _⟩, .inr (hdown _ rfl)⟩
    · exact ⟨.inr ⟨rfl, rfl⟩, .inl ⟨rfl, rfl⟩⟩
  | passiveSuccess => exact ⟨.inr ⟨rfl, rfl⟩, .inl ⟨rfl, rfl⟩⟩

end

/-! ## From a trip on -/

/-- The backend is down since a trip; `ps` are the probes since then. The run of successes is one of
them. -/
structure Waiting (rise : UInt32) (s : BackendHealthState) (ps : List Bool) : Prop where
  frozen : s.frozen = false
  observed : s.observed = .down
  applied : s.applied = .down
  run : rise = 1 ∨ s.consecutiveSuccesses.toNat < rise.toNat ∧
    List.replicate s.consecutiveSuccesses.toNat true <:+ ps

variable {rise : UInt32} {s : BackendHealthState}

theorem run_of_trips (htrip : s.Trips rise o) (hrested : s.Rested rise o) :
    probesOf [o] ≠ [true] ∧ ((s.record rise o).consecutiveSuccesses = 0 ∨ rise = 1) := by
  obtain ⟨hup, hdown⟩ := htrip
  cases o with
  | probeSuccess alpha rttMs =>
    have hspec := (s.recordSuccess_spec rise alpha rttMs).2
    split at hspec
    · exact absurd (hspec.symm.trans hdown) (by simp)
    · exact absurd (hspec.1.symm.trans hdown) hup
  | probeFailure fall =>
    refine ⟨by simp [probesOf], .inl ?_⟩
    simp only [record, recordFailure]
    split
    · exact observe_consecutiveSuccesses _
    · rfl
  | passiveFailure passiveFall =>
    refine ⟨by simp [probesOf], ?_⟩
    simp only [record, recordPassiveFailure, decide_eq_true_eq] at hdown ⊢
    split at hdown
    · rename_i hfall
      rw [if_pos hfall, observe_consecutiveSuccesses]
      exact hrested hup hfall
    · exact absurd hdown hup
  | passiveSuccess => exact absurd hdown hup

theorem Waiting.of_trips (hs : s.frozen = false) (htrip : s.Trips rise o)
    (hrested : s.Rested rise o) (hr : 1 ≤ rise) : (s.record rise o).Waiting rise [] := by
  obtain ⟨hsuccess, hrun⟩ := run_of_trips htrip hrested
  have happlied : (s.record rise o).applied = .down := by
    rcases (s.record_spec rise hsuccess).2 with ⟨ho, -⟩ | ⟨-, ha⟩
    · exact absurd (ho.symm.trans htrip.2) htrip.1
    · exact ha hs
  refine ⟨(record_frozen rise o).trans hs, htrip.2, happlied, ?_⟩
  rcases hrun with hzero | hone
  · refine .inr ⟨?_, ?_⟩
    · rw [hzero]
      exact UInt32.le_iff_toNat_le.mp hr
    · rw [hzero]
      exact List.nil_suffix
  · exact .inl hone

variable {ps : List Bool}

/-- **One outcome after a trip.** -/
theorem Waiting.record (h : s.Waiting rise ps) (hr : 1 ≤ rise) (o : HealthOutcome) :
    List.replicate rise.toNat true <:+: ps ++ probesOf [o] ∨
      (s.record rise o).Waiting rise (ps ++ probesOf [o]) := by
  have hfrozen := (record_frozen rise o).trans h.frozen
  by_cases hsuccess : probesOf [o] = [true]
  · obtain ⟨alpha, rttMs, rfl⟩ : ∃ alpha rttMs, o = .probeSuccess alpha rttMs := by
      cases o <;> first | exact ⟨_, _, rfl⟩ | simp [probesOf] at hsuccess
    rw [hsuccess]
    obtain ⟨hcount, hlive⟩ := s.recordSuccess_spec rise alpha rttMs
    rcases h.run with hone | ⟨hlt, hrun⟩
    · left
      rw [hone]
      exact (List.suffix_append ps [true]).isInfix
    · have hnat : (saturatingSucc s.consecutiveSuccesses).toNat =
          s.consecutiveSuccesses.toNat + 1 := by
        have hbound := rise.toNat_lt
        rw [saturatingSucc_toNat]
        omega
      -- the run with this success
      have hrun' : List.replicate (s.consecutiveSuccesses.toNat + 1) true <:+ ps ++ [true] := by
        rw [List.replicate_succ']
        exact List.suffix_append_self_iff.mpr hrun
      by_cases hrise : s.consecutiveSuccesses.toNat + 1 = rise.toNat
      · exact .inl (hrise ▸ hrun'.isInfix)
      · right
        have hnot : ¬ saturatingSucc s.consecutiveSuccesses ≥ max rise 1 := by
          rw [max_one hr, ge_iff_le, UInt32.le_iff_toNat_le, hnat]
          omega
        rw [if_neg hnot] at hlive
        refine ⟨hfrozen, hlive.1.trans h.observed, hlive.2.trans h.applied, .inr ?_⟩
        show (s.recordSuccess rise alpha rttMs).consecutiveSuccesses.toNat < _ ∧ _
        rw [BackendHealthState.record, hcount, hnat]
        exact ⟨by omega, hrun'⟩
  · right
    obtain ⟨hcount, hlive⟩ := s.record_spec rise hsuccess
    refine ⟨hfrozen, ?_, ?_, ?_⟩
    · rcases hlive with hsame | hdown
      · exact hsame.1.trans h.observed
      · exact hdown.1
    · rcases hlive with hsame | hdown
      · exact hsame.2.trans h.applied
      · exact hdown.2 h.frozen
    · refine h.run.imp_right fun ⟨hlt, hrun⟩ => ?_
      rcases hcount with hzero | ⟨hnone, hsame⟩
      · rw [hzero]
        exact ⟨UInt32.le_iff_toNat_le.mp hr, List.nil_suffix⟩
      · rw [hsame, hnone, List.append_nil]
        exact ⟨hlt, hrun⟩

/-- **The outcomes after a trip.** -/
theorem Waiting.recordAll (h : s.Waiting rise ps) (hr : 1 ≤ rise) (os : List HealthOutcome) :
    List.replicate rise.toNat true <:+: ps ++ probesOf os ∨
      (s.recordAll rise os).Waiting rise (ps ++ probesOf os) := by
  induction os generalizing s ps with
  | nil => exact .inr (by simpa [probesOf, BackendHealthState.recordAll] using h)
  | cons o os ih =>
    have hprobes : ps ++ probesOf (o :: os) = ps ++ probesOf [o] ++ probesOf os := by
      rw [List.append_assoc, probesOf, probesOf, probesOf, ← List.filterMap_append]
      rfl
    rw [hprobes]
    rcases h.record hr o with hfresh | hwait
    · exact .inl (hfresh.trans (List.prefix_append _ _).isInfix)
    · exact ih hwait

theorem recordAll_frozen (rise : UInt32) (os : List HealthOutcome) :
    (s.recordAll rise os).frozen = s.frozen := by
  induction os generalizing s with
  | nil => rfl
  | cons o os ih => exact ih.trans (record_frozen rise o)

theorem recordAll_append (os os' : List HealthOutcome) :
    s.recordAll rise (os ++ os') = (s.recordAll rise os).recordAll rise os' :=
  List.foldl_append

theorem recoversFresh_of_rested (hr : 1 ≤ rise) (hs : s.frozen = false) (h : s.AllRested rise os) :
    s.RecoversFresh rise os := by
  intro before o after hos htrip hup
  have hs' := (recordAll_frozen rise before).trans hs
  have hwait := Waiting.of_trips hs' htrip (h before o after hos) hr
  rw [hos, recordAll_append] at hup
  rcases hwait.recordAll hr after with hfresh | hwait'
  · exact hfresh
  · rcases hup with hup | hup
    · exact absurd (hwait'.observed.symm.trans hup) (by simp)
    · exact absurd (hwait'.applied.symm.trans hup) (by simp)

/-! ## Successes from before the trip -/

theorem consecutiveSuccesses_replicate (n : Nat) (alpha rttMs : Float) :
    (s.recordAll rise (.replicate n (.probeSuccess alpha rttMs))).consecutiveSuccesses.toNat =
      min (s.consecutiveSuccesses.toNat + n) (2 ^ 32 - 1) := by
  induction n generalizing s with
  | zero =>
    have hlt := s.consecutiveSuccesses.toNat_lt
    simp only [List.replicate_zero, recordAll, List.foldl_nil]
    omega
  | succ n ih =>
    have hone : (s.record rise (.probeSuccess alpha rttMs)).consecutiveSuccesses.toNat =
        min (s.consecutiveSuccesses.toNat + 1) (2 ^ 32 - 1) := by
      rw [record, (recordSuccess_spec _ rise alpha rttMs).1, saturatingSucc_toNat]
    refine ih.trans ?_
    rw [hone]
    omega

theorem observed_replicate (hr : 1 ≤ rise) {n : Nat} (alpha rttMs : Float)
    (hn : rise.toNat ≤ s.consecutiveSuccesses.toNat + (n + 1)) :
    (s.recordAll rise (.replicate (n + 1) (.probeSuccess alpha rttMs))).observed = .up := by
  rw [List.replicate_succ', recordAll_append]
  have hspec := ((s.recordAll rise (.replicate n (.probeSuccess alpha rttMs))).recordSuccess_spec
    rise alpha rttMs).2
  have hrise : saturatingSucc (s.recordAll rise
      (.replicate n (.probeSuccess alpha rttMs))).consecutiveSuccesses ≥ max rise 1 := by
    have hlt := rise.toNat_lt
    rw [max_one hr, ge_iff_le, UInt32.le_iff_toNat_le, saturatingSucc_toNat,
      consecutiveSuccesses_replicate]
    omega
  rw [if_pos hrise] at hspec
  exact hspec

theorem probesOf_replicate (n : Nat) (alpha rttMs : Float) :
    probesOf (.replicate n (.probeSuccess alpha rttMs)) = .replicate n true := by
  rw [probesOf, List.filterMap_replicate]

/-- A backend that is put down in the middle of a run of successes comes up too early. -/
theorem not_recoversFresh (hr : 1 ≤ rise) (h : ¬ s.Rested rise o) :
    ∃ n, ¬ s.RecoversFresh rise (o :: .replicate n (.probeSuccess 0 0)) := by
  cases o with
  | probeSuccess | probeFailure | passiveSuccess => exact absurd trivial h
  | passiveFailure passiveFall =>
    simp only [Rested, Classical.not_imp, not_or] at h
    obtain ⟨hup, hfall, hrun, hone⟩ := h
    have hrecord : (s.record rise (.passiveFailure passiveFall)).observed = .down ∧
        (s.record rise (.passiveFailure passiveFall)).consecutiveSuccesses =
          s.consecutiveSuccesses := by
      simp only [record, recordPassiveFailure, decide_eq_true_eq, hfall, if_true]
      exact ⟨(observe_spec _ .down).2.1, observe_consecutiveSuccesses _⟩
    have hpos : s.consecutiveSuccesses.toNat ≠ 0 := fun hz => hrun (UInt32.toNat_inj.mp hz)
    have hrise : rise.toNat ≠ 1 := fun h1 => hone (UInt32.toNat_inj.mp h1)
    have hle := UInt32.le_iff_toNat_le.mp hr
    rw [UInt32.toNat_one] at hle
    -- as many successes as the run of before leaves open, and at least one
    refine ⟨rise.toNat - 1 - s.consecutiveSuccesses.toNat + 1, fun hfresh => ?_⟩
    have hinfix := hfresh [] _ _ rfl ⟨hup, hrecord.1⟩ (.inl (observed_replicate hr 0 0 (by
      show rise.toNat ≤ (s.record rise (.passiveFailure passiveFall)).consecutiveSuccesses.toNat + _
      rw [hrecord.2]
      omega)))
    rw [probesOf_replicate] at hinfix
    have hlen := hinfix.length_le
    simp only [List.length_replicate] at hlen
    omega

end BackendHealthState

open BackendHealthState

/-- **Recoveries are fresh where all outcomes find the backend rested; any other outcome can be
followed by probe successes that bring the backend up too early.** -/
theorem recovery_fresh {rise : UInt32} (hr : 1 ≤ rise) {s : BackendHealthState}
    (hs : s.frozen = false) :
    (∀ os, s.AllRested rise os → s.RecoversFresh rise os) ∧
      ∀ o, ¬ s.Rested rise o → ∃ n, ¬ s.RecoversFresh rise (o :: .replicate n (.probeSuccess 0 0)) :=
  ⟨fun _ => recoversFresh_of_rested hr hs, fun _ => not_recoversFresh hr⟩

/-- A probe puts the backend down, and three new ones bring it up. -/
theorem recovery_fresh_sample :
    RecoversFresh 3 (fromInitialPolicy .optimistic) [.passiveFailure 2, .probeFailure 1,
      .probeSuccess 0 0, .probeSuccess 0 0, .probeSuccess 0 0] ∧
    (recordAll 3 (fromInitialPolicy .optimistic) [.passiveFailure 2, .probeFailure 1,
      .probeSuccess 0 0, .probeSuccess 0 0, .probeSuccess 0 0]).observed = .up := by
  refine ⟨(recovery_fresh (by decide) rfl).1 _ ?_, by decide⟩
  refine allRested_cons (by decide) (allRested_cons trivial (allRested_cons trivial ?_))
  exact allRested_cons trivial (allRested_cons trivial (allRested_nil _ _))

/-- Three probe successes, two live forwards that put the backend down, and one probe success. -/
theorem stale_recovery :
    ¬ RecoversFresh 3 (fromInitialPolicy .optimistic) [.probeSuccess 0 0, .probeSuccess 0 0,
      .probeSuccess 0 0, .passiveFailure 2, .passiveFailure 2, .probeSuccess 0 0] := by
  intro h
  have hinfix := h [.probeSuccess 0 0, .probeSuccess 0 0, .probeSuccess 0 0, .passiveFailure 2]
    (.passiveFailure 2) [.probeSuccess 0 0] rfl (by decide) (.inl (by decide))
  exact absurd hinfix (by decide)

end Conduit
