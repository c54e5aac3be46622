import Conduit.Pipeline.Specs

/-!
# The snapshot of a transaction

A transaction records the generation of the snapshot it started with. In the synchronous runtime
all its stages get that snapshot. In the split_io runtime `run_policy_loop` loads the current
snapshot again at every resume, so the stages after a resume get another one if a configuration was
installed in between (`pinned_broken`); a transaction is pinned in the runs without such an install
(`pinned_of_noSwap`).
-/

namespace Conduit

open Prog

/-- Every stage run of every transaction got a snapshot of the generation that the transaction
recorded at its start. -/
def Pinned (s : State) : Prop :=
  ∀ t th, s.threads t = some th →
    (∀ r ∈ th.log, r.generation = th.txn.snapshotGeneration) ∧
    ∀ phase late before p, th.pos = .running phase late before p →
      th.snap.generation = th.txn.snapshotGeneration

/-- A transaction that is resumed started with the last installed configuration: none was installed
while it was in progress. -/
def NoSwap (s : State) : Act → Prop
  | .resumeIo t _ | .resumeLookup t =>
    ∀ th ∈ s.threads t, th.txn.snapshotGeneration = s.generation
  | _ => True

instance (s : State) (a : Act) : Decidable (NoSwap s a) := by
  apply Act.casesOn (motive := fun a => Decidable (NoSwap s a)) a <;> intros <;> dsimp only [NoSwap] <;>
    infer_instance

variable {s : State} {w : Wiring} {C : State → Act → Prop}

theorem current_generation (h : (machine w).Reach C s) : s.current.generation = s.generation := by
  refine Lts.Reach.inv (L := machine w) (C := C)
    (P := fun s : State => s.current.generation = s.generation) ?_ ?_ h
  · rintro s ⟨snap, instances, nextInst, rfl⟩
    rfl
  · intro (s : State) a s' _ ih _ hs
    cases step_cases hs with
    | install snap => rfl
    | _ => exact ih

/-- The snapshot at hand and the finished stage runs are of the recorded generation. -/
def Thread.Pinned (th : Thread) : Prop :=
  th.snap.generation = th.txn.snapshotGeneration ∧
    ∀ r ∈ th.log, r.generation = th.txn.snapshotGeneration

theorem checkDeadline_generation (t : Transaction) (late : Bool) :
    (Thread.checkDeadline t late).snapshotGeneration = t.snapshotGeneration := by
  cases late <;> rfl

theorem Thread.Pinned.leave {th : Thread} (h : th.Pinned) {phase : Phase} {late : Bool}
    {before after : Transaction} {out : StageOutcome}
    (ha : after.snapshotGeneration = th.txn.snapshotGeneration) :
    (th.leave phase late before after out).Pinned := by
  have hlog : ∀ r ∈ th.log ++ [⟨phase, th.snap.generation, late, before, after, out⟩],
      r.generation = after.snapshotGeneration := by
    intro r hr
    rw [ha]
    rcases List.mem_append.mp hr with hr | hr
    · exact h.2 r hr
    · rw [List.mem_singleton.mp hr]
      exact h.1
  have hsnap : th.snap.generation = after.snapshotGeneration := h.1.trans ha.symm
  cases out with
  | drop | suspend => exact ⟨hsnap, hlog⟩
  | cont next =>
    rw [Thread.leave]
    simp only
    split <;> exact ⟨hsnap, hlog⟩

/-- The orchestrator loop keeps a transaction pinned, if the resumes do. -/
theorem pinned_rule
    (hresume : ∀ s t th, w.runtime = .splitIo → s.threads t = some th →
      (∃ c, C s (.resumeIo t c)) ∨ C s (.resumeLookup t) →
      s.current.generation = th.txn.snapshotGeneration) :
    Thread.Rule w C (fun _ => True) Thread.Pinned where
  start _ _ := ⟨rfl, fun _ h => by cases h⟩
  enter := by
    rintro s t th late _ p _ _ _ hP rfl hrun
    refine (runStage_ensures hrun).mono fun r hr _ => ?_
    exact hP.leave (hr.generation.trans (checkDeadline_generation _ _))
  pass := by
    intro s t th late _ _ _ hP hrun
    have hg := checkDeadline_generation th.txn late
    rw [Thread.enter]
    simp only [hrun]
    exact ⟨hP.1.trans hg.symm, fun r hr => (hP.2 r hr).trans hg.symm⟩
  ret _ _ _ := trivial
  resumeIo := by
    intro s t th c hc ht _ hw hP
    have hg : (applyWaitCompletion th.txn c).snapshotGeneration = th.txn.snapshotGeneration := by
      cases c <;> rfl
    have hcur := hresume s t th hw ht (.inl ⟨c, hc⟩)
    exact ⟨hcur.trans hg.symm, fun r hr => (hP.2 r hr).trans hg.symm⟩
  resumeLookup := by
    intro s t th hc ht _ hw hP
    exact ⟨hresume s t th hw ht (.inr hc), hP.2⟩

/-- A rule for pinned transactions pins all stage runs. -/
theorem pinned_of_rule (hr : Thread.Rule w C (fun _ => True) Thread.Pinned)
    (h : (machine w).Reach C s) : Pinned s := by
  intro t th ht
  have hth := hr.holds h t th ht
  unfold Thread.Holds at hth
  split at hth
  · rename_i phase late before p hpos
    obtain ⟨⟨t₀, hP, rfl, -, htxn⟩, -⟩ := hth
    have hg : th.txn.snapshotGeneration = t₀.snapshotGeneration := by
      rw [htxn, checkDeadline_generation]
    rw [hg]
    exact ⟨hP.2, fun _ _ _ _ _ => hP.1⟩
  · rename_i hpos
    exact ⟨hth.2, fun _ _ _ _ h => absurd h (hpos _ _ _ _)⟩

/-- **Snapshot pinning.** The stage runs of a transaction all get a snapshot of the generation it
started with: in the runs where no configuration is installed between the start and a resume of a
transaction, and in every run of the synchronous runtime. -/
theorem pinned_of_noSwap (w : Wiring) (s : State) :
    ((machine w).Reach NoSwap s → Pinned s) ∧
      (w.runtime = .sync → (machine w).Reach Lts.Any s → Pinned s) := by
  constructor
  · intro h
    have h' := Lts.Reach.and (L := machine w) (I := fun s : State => s.current.generation = s.generation)
      (fun s hs => current_generation hs) h
    refine pinned_of_rule (pinned_rule ?_) h'
    intro s t th _ ht hc
    rcases hc with ⟨c, hc, hg⟩ | ⟨hc, hg⟩
    · exact hg.trans (hc th ht).symm
    · exact hg.trans (hc th ht).symm
  · intro hw h
    refine pinned_of_rule (pinned_rule ?_) h
    intro s t th hsplit
    rw [hw] at hsplit
    cases hsplit

/-- The recorded generation of the first transaction, and the generations of its stage runs. -/
def sampleGenerations (s : State) : Option (Nat × List Nat) :=
  (s.threads 0).map fun th => (th.txn.snapshotGeneration, th.log.map (·.generation))

/-- A query up to the suspend on its upstream. -/
def sampleSubmit : List Act :=
  [Act.start (sampleQuery 11)] ++ toLookup 0 ++ ops 0 8 ++
    [Act.op 0 { backend := some sampleBackend }, Act.op 0 { submitted := .sent }, Act.ret 0]

/-- The answer of the upstream, through the rest of the lookup. -/
def sampleAnswer : List Act :=
  [Act.resumeIo 0 (.response [0, 0, 128, 0]), Act.enter 0 false] ++ ops 0 9 ++ [Act.ret 0]

/-- An install before the query and one after the answer do not break the pinning, in either
runtime. -/
theorem pinned_of_noSwap_sample :
    (∃ s, (machine (sampleWiring .splitIo)).Reach NoSwap s ∧
      sampleGenerations s = some (1, [1, 1, 1, 1]) ∧ s.generation = 2 ∧ Pinned s) ∧
    ∃ s, (machine (sampleWiring .sync)).Reach Lts.Any s ∧
      sampleGenerations s = some (0, [0, 0]) ∧ s.generation = 1 ∧ Pinned s := by
  constructor
  · obtain ⟨s, hr, hgens, hgen⟩ := Lts.exists_exec NoSwap
      ([Act.install sampleSnapshot] ++ sampleSubmit ++ sampleAnswer ++ [Act.install sampleSnapshot])
      (fun s : State => sampleGenerations s = some (1, [1, 1, 1, 1]) ∧ s.generation = 2)
      (sampleInit_init .splitIo sampleSnapshot) (by decide +kernel)
    exact ⟨s, hr, hgens, hgen, (pinned_of_noSwap _ s).1 hr⟩
  · obtain ⟨s, hr, hgens, hgen⟩ := Lts.exists_exec Lts.Any
      ([Act.start (sampleQuery 11), Act.install sampleSnapshot] ++ toLookup 0)
      (fun s : State => sampleGenerations s = some (0, [0, 0]) ∧ s.generation = 1)
      (sampleInit_init .sync sampleSnapshot) (by decide +kernel)
    exact ⟨s, hr, hgens, hgen, (pinned_of_noSwap _ s).2 rfl hr⟩

/-- A configuration is installed while a transaction waits for its upstream: the resumed lookup gets
the new snapshot. -/
theorem pinned_broken :
    ∃ s, (machine (sampleWiring .splitIo)).Reach Lts.Any s ∧
      sampleGenerations s = some (0, [0, 0, 0, 1]) ∧ ¬ Pinned s := by
  obtain ⟨s, hr, hs⟩ := Lts.exists_exec Lts.Any
    (sampleSubmit ++ [Act.install sampleSnapshot] ++ sampleAnswer)
    (fun s : State => sampleGenerations s = some (0, [0, 0, 0, 1]))
    (sampleInit_init .splitIo sampleSnapshot) (by decide +kernel)
  refine ⟨s, hr, hs, fun hp => ?_⟩
  obtain ⟨th, ht, hth⟩ := Option.map_eq_some_iff.mp hs
  have hlog := (hp 0 th ht).1
  obtain ⟨hgen, hgens⟩ := Prod.mk.inj hth
  -- the last stage run has generation 1
  have hmem : 1 ∈ th.log.map (·.generation) := by
    rw [hgens]
    decide
  obtain ⟨r, hr, hr1⟩ := List.mem_map.mp hmem
  have h := hlog r hr
  rw [hr1, hgen] at h
  cases h

end Conduit
