import Conduit.Cache.Count

/-!
# Syncing an LMDB backend

With the sync modes `periodic` and `none`, a commit is not on the disk before the next `force_sync`
of its environment (`lookup/cache/lmdb.rs`). Every shard has a dirty flag: a call sets it after each
of its commits, and a round of `force_sync_iter` clears it, syncs the shard, and sets it again if
the sync fails. The flusher runs a round every interval; the end of the periodic mode runs one too.

Calls and rounds are programs. The transactions are those of `LmdbOp`; a sync is two operations, so
that others run during it. Any number of rounds may overlap.

- `marking`: a call with its stores to the flags.
- `forceSyncIter`: a round.
- `lmdbLog`: calls and rounds, interleaved, with a log of what they did (the newest event first).
- `commit_accounted`: no commit of a call that has returned is forgotten.
-/

namespace Conduit

/-! ## Programs -/

/-- The shard that a transaction has committed a write to. -/
def LmdbOp.commits : (o : LmdbOp) → o.Resp → Option Nat
  | .put i _ _ _, .stored => some i
  | .remove i _, true => some i
  | .deleteVictim i _, true => some i
  | .evictOneArbitrary i, some true => some i
  | .clear i, true => some i
  | _, _ => none

inductive FlagOp where
  | transact (o : LmdbOp)
  /-- Store `true`. -/
  | setDirty (i : Nat)
  /-- Swap with `false`; the answer is the old value. -/
  | swapDirty (i : Nat)
  /-- `force_sync` starts. -/
  | beginSync (i : Nat)
  /-- `force_sync` returns; the answer is whether it succeeded. -/
  | endSync (i : Nat)

abbrev FlagOp.Resp : FlagOp → Type
  | .transact o => o.Resp
  | .setDirty _ | .beginSync _ => Unit
  | .swapDirty _ | .endSync _ => Bool

abbrev FlagProg := Prog FlagOp FlagOp.Resp

/-- A call: each commit is followed by a store to the flag of its shard. -/
def marking {α : Type} : LmdbProg α → FlagProg α
  | .ret a => .ret a
  | .op o k => .op (.transact o) fun r =>
    match o.commits r with
    | some i => .op (.setDirty i) fun _ => marking (k r)
    | none => marking (k r)

/-- `force_sync_iter`; the answer is the first shard that could not be synced. -/
def forceSyncIter : List Nat → FlagProg (Option Nat)
  | [] => .ret none
  | i :: shards => .op (.swapDirty i) fun
    | false => forceSyncIter shards
    | true => .op (.beginSync i) fun _ => .op (.endSync i) fun
      | true => forceSyncIter shards
      | false => .op (.setDirty i) fun _ => do
        let _ ← forceSyncIter shards
        return some i

/-! ## The system -/

structure LmdbThreads where
  backend : LmdbCacheBackend
  envs : LmdbEnvs := fun _ => {}
  dirty : Nat → Bool := fun _ => false
  threads : List (FlagProg Unit) := []

inductive FlagAct where
  | start (c : LmdbCall)
  /-- A tick of the flusher, or `force_sync_dirty_shards`. -/
  | startRound
  /-- The next operation of the thread `w`. -/
  | run (w : Nat) (io : LmdbIo) (nowUnix : Nat)
  | setMaxEntries (n : Nat)
  | applyPolicy (whenFull : LmdbWhenFull) (sampleSize : Nat)

namespace LmdbThreads

/-- The state after an operation, and its answer. -/
def perform (io : LmdbIo) (nowUnix : Nat) (s : LmdbThreads) : (o : FlagOp) → LmdbThreads × o.Resp
  | .transact o =>
    let r := s.envs.perform s.backend io nowUnix o
    ({ s with envs := r.1 }, r.2)
  | .setDirty i => ({ s with dirty := Function.update s.dirty i true }, ())
  | .swapDirty i => ({ s with dirty := Function.update s.dirty i false }, s.dirty i)
  | .beginSync _ => (s, ())
  | .endSync _ => (s, io = .ok)

def spawn (s : LmdbThreads) (p : FlagProg Unit) : LmdbThreads :=
  { s with threads := s.threads ++ [p] }

def step (hash : CacheKey → Nat) (s : LmdbThreads) : FlagAct → Option LmdbThreads
  | .start c => some (s.spawn (marking (c.prog hash s.backend.shardCount)))
  | .startRound =>
    some (s.spawn (do let _ ← forceSyncIter (List.range s.backend.shardCount)))
  | .run w io nowUnix =>
    match s.threads[w]? with
    | some (.op o k) =>
      let r := s.perform io nowUnix o
      some { r.1 with threads := r.1.threads.set w (k r.2) }
    | some (.ret _) | none => none
  | .setMaxEntries n => some { s with backend := s.backend.setMaxEntries n }
  | .applyPolicy whenFull size => some { s with backend := s.backend.applyPolicy whenFull size }

/-- The thread has not returned. -/
def Running (s : LmdbThreads) (w : Nat) : Prop := ∃ o k, s.threads[w]? = some (.op o k)

end LmdbThreads

/-- What a thread did. -/
inductive FlagEvent where
  | committed (i : Nat)
  | marked (i : Nat)
  | cleared (i : Nat)
  | began (i : Nat)
  | ended (i : Nat) (ok : Bool)
  deriving DecidableEq, Repr

/-- What is logged of an operation. -/
def FlagOp.event : (o : FlagOp) → o.Resp → Option FlagEvent
  | .transact o, r => (o.commits r).map .committed
  | .setDirty i, _ => some (.marked i)
  | .swapDirty i, true => some (.cleared i)
  | .swapDirty _, false => none
  | .beginSync i, _ => some (.began i)
  | .endSync i, r => some (.ended i r)

/-- Threads and what they did, the newest first. -/
abbrev FlagLog := List (Nat × FlagEvent)

def LmdbThreads.event (s : LmdbThreads) : FlagAct → Option (Nat × FlagEvent)
  | .run w io nowUnix =>
    match s.threads[w]? with
    | some (.op o _) => (o.event (s.perform io nowUnix o).2).map (w, ·)
    | some (.ret _) | none => none
  | _ => none

/-- Calls and rounds on one backend. -/
abbrev lmdbThreads (hash : CacheKey → Nat) : Lts where
  St := LmdbThreads
  Act := FlagAct
  init s := s.threads = []
  step := LmdbThreads.step hash

abbrev lmdbLog (hash : CacheKey → Nat) : Lts :=
  (lmdbThreads hash).record ([] : FlagLog) fun s a log => (s.event a).toList ++ log

/-- In these events a sync of the shard has started and then succeeded: its end is the next event of
its thread. -/
def ShardSynced (i : Nat) (log : FlagLog) : Prop :=
  ∃ r x y z, log = x ++ (r, .ended i true) :: (y ++ (r, .began i) :: z) ∧ ∀ e ∈ y, e.1 ≠ r

/-! ## Phases -/

/-- What a thread does next. -/
inductive FlagPhase where
  | idle
  /-- Store `true` to the flag of the shard. -/
  | mark (i : Nat)
  /-- The flag has been cleared; sync the shard. -/
  | cleared (i : Nat)
  | syncing (i : Nat)
  deriving DecidableEq

def FlagEvent.phase : FlagEvent → FlagPhase
  | .committed i | .ended i false => .mark i
  | .marked _ | .ended _ true => .idle
  | .cleared i => .cleared i
  | .began i => .syncing i

/-- A thread's last event decides its phase. -/
def phaseOf (w : Nat) : FlagLog → FlagPhase
  | [] => .idle
  | (w', e) :: log => if w' = w then e.phase else phaseOf w log

/-- The phase in which an operation is allowed. -/
def FlagOp.phase : FlagOp → FlagPhase
  | .transact _ | .swapDirty _ => .idle
  | .setDirty i => .mark i
  | .beginSync i => .cleared i
  | .endSync i => .syncing i

/-- The operations of a thread, and the phases after them. -/
def flagProto : Proto FlagOp FlagOp.Resp FlagPhase where
  ok h o := h = o.phase
  may _ _ _ := True
  next _ o r := ((o.event r).map FlagEvent.phase).getD .idle

/-- From this phase the program keeps to the protocol and returns idle. -/
abbrev InPhase {α : Type} (h : FlagPhase) (p : FlagProg α) : Prop :=
  p.Obeys flagProto (fun h _ => h = .idle) h

theorem inPhase_marking {α : Type} (p : LmdbProg α) : InPhase .idle (marking p) := by
  induction p with
  | ret a => exact rfl
  | op o k ih =>
    refine ⟨rfl, fun r _ => ?_⟩
    simp only [flagProto, FlagOp.event]
    cases o.commits r with
    | none => exact ih r
    | some i => exact ⟨rfl, fun _ _ => ih r⟩

theorem inPhase_forceSyncIter (shards : List Nat) : InPhase .idle (forceSyncIter shards) := by
  induction shards with
  | nil => exact rfl
  | cons i shards ih =>
    refine ⟨rfl, fun r _ => ?_⟩
    cases r with
    | false => exact ih
    | true =>
      refine ⟨rfl, fun _ _ => ⟨rfl, fun r _ => ?_⟩⟩
      cases r with
      | true => exact ih
      | false => exact ⟨rfl, fun _ _ => ih.seq fun _ _ hidle => hidle⟩

/-! ## Logs -/

variable {log after before : FlagLog} {w r i : Nat} {e : FlagEvent}

@[simp] theorem phaseOf_cons_self : phaseOf w ((w, e) :: log) = e.phase := if_pos rfl

theorem phaseOf_cons_of_ne (h : r ≠ w) : phaseOf w ((r, e) :: log) = phaseOf w log := if_neg h

/-- The last event of a thread is among the newer ones if one of its events is. -/
theorem phaseOf_append (h : (w, e) ∈ after) : phaseOf w (after ++ before) = phaseOf w after := by
  induction after with
  | nil => cases h
  | cons x after ih =>
    obtain ⟨r, e'⟩ := x
    by_cases hr : r = w
    · subst hr
      rw [List.cons_append, phaseOf_cons_self, phaseOf_cons_self]
    · have hmem : (w, e) ∈ after := by
        refine (List.mem_cons.mp h).resolve_left fun heq => hr ?_
        exact (congrArg Prod.fst heq).symm
      rw [List.cons_append, phaseOf_cons_of_ne hr, phaseOf_cons_of_ne hr, ih hmem]

/-- A thread that is syncing has started the sync, and done nothing since. -/
theorem began_of_phaseOf (h : phaseOf w log = .syncing i) :
    ∃ y z, log = y ++ (w, .began i) :: z ∧ ∀ e ∈ y, e.1 ≠ w := by
  induction log with
  | nil => cases h
  | cons x log ih =>
    obtain ⟨r, e⟩ := x
    by_cases hr : r = w
    · subst hr
      rw [phaseOf_cons_self] at h
      obtain rfl : e = .began i := by
        cases e with
        | ended j ok => cases ok <;> cases h
        | began j => cases h; rfl
        | _ => cases h
      exact ⟨[], log, rfl, nofun⟩
    · rw [phaseOf_cons_of_ne hr] at h
      obtain ⟨y, z, rfl, hy⟩ := ih h
      exact ⟨(r, e) :: y, z, rfl, List.forall_mem_cons.mpr ⟨hr, hy⟩⟩

theorem ShardSynced.cons {x : Nat × FlagEvent} (h : ShardSynced i log) :
    ShardSynced i (x :: log) := by
  obtain ⟨r, x', y, z, rfl, hy⟩ := h
  exact ⟨r, x :: x', y, z, rfl, hy⟩

/-! ## What is owed to a commit -/

/-- Why a commit of the thread `w` is not forgotten: the flag is set, a sync that started after it
has succeeded, the thread is about to set the flag, or a round that cleared the flag after it is not
yet done with the shard. -/
inductive Owed (dirty : Nat → Bool) (before after : FlagLog) (w i : Nat) : Prop
  | flag (h : dirty i = true)
  | synced (h : ShardSynced i after)
  | own (h : phaseOf w (after ++ before) = .mark i)
  | busy (r : Nat) (hmem : (r, .cleared i) ∈ after)
      (h : phaseOf r after = .cleared i ∨ phaseOf r after = .syncing i ∨ phaseOf r after = .mark i)

/-- A step of the thread `t` whose event the phase of `t` allows, and what it does to the flags. -/
inductive FlagStep (dirty : Nat → Bool) (t : Nat) (log : FlagLog) :
    FlagEvent → (Nat → Bool) → Prop
  | committed (i : Nat) (h : phaseOf t log = .idle) : FlagStep dirty t log (.committed i) dirty
  | marked (i : Nat) (h : phaseOf t log = .mark i) :
      FlagStep dirty t log (.marked i) (Function.update dirty i true)
  | cleared (i : Nat) (h : phaseOf t log = .idle) :
      FlagStep dirty t log (.cleared i) (Function.update dirty i false)
  | began (i : Nat) (h : phaseOf t log = .cleared i) : FlagStep dirty t log (.began i) dirty
  | ended (i : Nat) (ok : Bool) (h : phaseOf t log = .syncing i) :
      FlagStep dirty t log (.ended i ok) dirty

variable {dirty dirty' : Nat → Bool} {t : Nat}

theorem FlagStep.flag (h : FlagStep dirty t log e dirty') (hi : dirty i = true) :
    dirty' i = true ∨ e = .cleared i := by
  cases h with
  | committed j _ | began j _ | ended j _ _ => exact .inl hi
  | marked j _ =>
    left
    by_cases hij : i = j
    · subst hij
      exact Function.update_self ..
    · rw [Function.update_of_ne hij]
      exact hi
  | cleared j _ =>
    by_cases hij : i = j
    · exact .inr (by rw [hij])
    · rw [Function.update_of_ne hij]
      exact .inl hi

/-- A thread that is about to set a flag sets it. -/
theorem FlagStep.mark (h : FlagStep dirty t log e dirty') (ht : phaseOf t log = .mark i) :
    dirty' i = true := by
  cases h with
  | marked j hj =>
    rw [ht] at hj
    cases hj
    exact Function.update_self ..
  | committed j hj | cleared j hj | began j hj | ended j _ hj => rw [ht] at hj; cases hj

theorem Owed.step (h : Owed dirty before after w i)
    (hs : FlagStep dirty t (after ++ before) e dirty') :
    Owed dirty' before ((t, e) :: after) w i := by
  cases h with
  | flag h =>
    obtain hflag | rfl := hs.flag h
    · exact .flag hflag
    · exact .busy t List.mem_cons_self (.inl phaseOf_cons_self)
  | synced h => exact .synced h.cons
  | own h =>
    by_cases ht : t = w
    · subst ht
      exact .flag (hs.mark h)
    · exact .own (by rw [List.cons_append, phaseOf_cons_of_ne ht, h])
  | busy r hmem h =>
    by_cases ht : t = r
    · subst ht
      have hphase : phaseOf t (after ++ before) = phaseOf t after := phaseOf_append hmem
      -- The round goes on with the shard.
      obtain h | h | h := h
      · cases hs with
        | began j hj =>
          rw [hphase, h] at hj
          cases hj
          exact .busy t (List.mem_cons_of_mem _ hmem) (.inr (.inl phaseOf_cons_self))
        | committed j hj | cleared j hj | marked j hj | ended j _ hj =>
          rw [hphase, h] at hj
          cases hj
      · cases hs with
        | ended j ok hj =>
          rw [hphase, h] at hj
          cases hj
          cases ok with
          | true =>
            obtain ⟨y, z, rfl, hy⟩ := began_of_phaseOf h
            exact .synced ⟨t, [], y, z, rfl, hy⟩
          | false =>
            exact .busy t (List.mem_cons_of_mem _ hmem) (.inr (.inr phaseOf_cons_self))
        | committed j hj | cleared j hj | marked j hj | began j hj =>
          rw [hphase, h] at hj
          cases hj
      · exact .flag (hs.mark (hphase.trans h))
    · refine .busy r (List.mem_cons_of_mem _ hmem) ?_
      rwa [phaseOf_cons_of_ne ht]

/-! ## The invariant -/

structure CommitsAccounted (s : LmdbThreads) (log : FlagLog) : Prop where
  threads : ∀ w p, s.threads[w]? = some p → InPhase (phaseOf w log) p
  others : ∀ w, s.threads.length ≤ w → phaseOf w log = .idle
  owed : ∀ after w i before, log = after ++ (w, .committed i) :: before →
    Owed s.dirty ((w, .committed i) :: before) after w i

variable {s s' : LmdbThreads}

theorem CommitsAccounted.spawn (h : CommitsAccounted s log) {p : FlagProg Unit} (hp : InPhase .idle p) :
    CommitsAccounted (s.spawn p) log := by
  refine ⟨fun w q hq => ?_, fun w hw => h.others w ?_, h.owed⟩
  · obtain hlt | heq | hgt := Nat.lt_trichotomy w s.threads.length
    · exact h.threads w q (by rwa [LmdbThreads.spawn, List.getElem?_append_left hlt] at hq)
    · subst heq
      rw [h.others _ (Nat.le_refl _)]
      obtain rfl : p = q := by simpa [LmdbThreads.spawn] using hq
      exact hp
    · rw [LmdbThreads.spawn, List.getElem?_eq_none (by simp; omega)] at hq
      cases hq
  · simp only [LmdbThreads.spawn, List.length_append, List.length_singleton] at hw
    omega

theorem flagStep_perform (io : LmdbIo) (nowUnix : Nat) {o : FlagOp}
    (h : phaseOf t log = o.phase) :
    (∀ e, o.event (s.perform io nowUnix o).2 = some e →
      FlagStep s.dirty t log e (s.perform io nowUnix o).1.dirty) ∧
    (o.event (s.perform io nowUnix o).2 = none →
      phaseOf t log = .idle ∧ (s.perform io nowUnix o).1.dirty = s.dirty) := by
  cases o with
  | transact o =>
    refine ⟨fun e he => ?_, fun _ => ⟨h, rfl⟩⟩
    obtain ⟨i, -, rfl⟩ := Option.map_eq_some_iff.mp he
    exact .committed i h
  | setDirty i =>
    refine ⟨fun e he => ?_, nofun⟩
    cases he
    exact .marked i h
  | swapDirty i =>
    change (∀ e, FlagOp.event (.swapDirty i) (s.dirty i) = some e → FlagStep s.dirty t log e _) ∧
      (FlagOp.event (.swapDirty i) (s.dirty i) = none → _ ∧ Function.update s.dirty i false = _)
    cases hdirty : s.dirty i with
    | false => exact ⟨nofun, fun _ => ⟨h, Function.update_eq_self_iff.mpr hdirty.symm⟩⟩
    | true =>
      refine ⟨fun e he => ?_, nofun⟩
      cases he
      exact .cleared i h
  | beginSync i =>
    refine ⟨fun e he => ?_, nofun⟩
    cases he
    exact .began i h
  | endSync i =>
    refine ⟨fun e he => ?_, nofun⟩
    cases he
    exact .ended i _ h

theorem threads_perform {io : LmdbIo} {nowUnix : Nat} {o : FlagOp} :
    (s.perform io nowUnix o).1.threads = s.threads := by
  cases o <;> rfl

/-- The threads are in their phases after one of them has gone on. -/
theorem inPhase_set {threads : List (FlagProg Unit)} {log' : FlagLog} {p : FlagProg Unit}
    (h : ∀ w q, threads[w]? = some q → InPhase (phaseOf w log) q)
    (hp : InPhase (phaseOf t log') p) (hlog : ∀ w, t ≠ w → phaseOf w log' = phaseOf w log) :
    ∀ w q, (threads.set t p)[w]? = some q → InPhase (phaseOf w log') q := by
  intro w q hq
  by_cases hw : t = w
  · subst hw
    obtain ⟨hlt, hget⟩ := List.getElem?_eq_some_iff.mp hq
    rw [List.getElem_set_self] at hget
    exact hget ▸ hp
  · rw [List.getElem?_set_ne hw] at hq
    rw [hlog w hw]
    exact h w q hq

theorem CommitsAccounted.perform (h : CommitsAccounted s log) {io : LmdbIo} {nowUnix : Nat} {o : FlagOp}
    {k : o.Resp → FlagProg Unit} (ht : s.threads[t]? = some (.op o k)) :
    CommitsAccounted
      { (s.perform io nowUnix o).1 with
        threads := (s.perform io nowUnix o).1.threads.set t (k (s.perform io nowUnix o).2) }
      (((o.event (s.perform io nowUnix o).2).map (t, ·)).toList ++ log) := by
  obtain ⟨hphase, hrest⟩ := h.threads t _ ht
  obtain ⟨hsome, hnone⟩ := flagStep_perform (s := s) io nowUnix hphase
  have hnext := hrest (s.perform io nowUnix o).2 trivial
  have hlt : t < s.threads.length := (List.getElem?_eq_some_iff.mp ht).1
  rw [threads_perform]
  simp only [flagProto] at hnext
  cases hev : o.event (s.perform io nowUnix o).2 with
  | none =>
    -- Nothing is logged, and no flag changes.
    obtain ⟨hidle, hdirty⟩ := hnone hev
    rw [hev] at hnext
    refine ⟨inPhase_set h.threads (hidle ▸ hnext) fun _ _ => rfl, fun w hw => ?_, ?_⟩
    · exact h.others w (by simpa using hw)
    · rw [hdirty]
      exact h.owed
  | some e =>
    have hstep := hsome e hev
    rw [hev] at hnext
    refine ⟨inPhase_set h.threads ?_ fun w hw => phaseOf_cons_of_ne hw, fun w hw => ?_, ?_⟩
    · change InPhase (phaseOf t ((t, e) :: log)) _
      rw [phaseOf_cons_self]
      exact hnext
    · have hw : s.threads.length ≤ w := by simpa using hw
      exact (phaseOf_cons_of_ne (by omega)).trans (h.others w hw)
    · intro after w i before hlog
      cases after with
      | nil =>
        -- The commit is that of this step.
        obtain ⟨heq, rfl⟩ := List.cons.inj hlog
        obtain ⟨rfl, rfl⟩ := Prod.mk.inj heq
        exact .own phaseOf_cons_self
      | cons x after =>
        obtain ⟨rfl, rfl⟩ := List.cons.inj hlog
        exact (h.owed after w i before rfl).step hstep

theorem commitsAccounted_of_reach {hash : CacheKey → Nat} {x : LmdbThreads × FlagLog}
    (h : (lmdbLog hash).Reach Lts.Any x) : CommitsAccounted x.1 x.2 := by
  refine Lts.Reach.inv (L := lmdbLog hash) (P := fun x => CommitsAccounted x.1 x.2) ?_ ?_ h
  · rintro ⟨s, log⟩ ⟨hthreads, rfl⟩
    have hthreads : s.threads = [] := hthreads
    exact ⟨fun w p hp => by simp [hthreads] at hp, fun w _ => rfl, fun after w i before hlog =>
      absurd hlog (by simp)⟩
  · rintro ⟨s, log⟩ a ⟨s', log'⟩ _ ih _ hs
    obtain ⟨s₁, hs₁, heq⟩ := Option.map_eq_some_iff.mp hs
    cases heq
    have hs₁ : LmdbThreads.step hash s a = some s' := hs₁
    cases a with
    | start c =>
      cases hs₁
      exact ih.spawn (inPhase_marking _)
    | startRound =>
      cases hs₁
      exact ih.spawn ((inPhase_forceSyncIter _).seq fun _ _ hidle => hidle)
    | run t io nowUnix =>
      simp only [LmdbThreads.step, LmdbThreads.event] at hs₁ ⊢
      cases ht : s.threads[t]? with
      | none => simp [ht] at hs₁
      | some p =>
        cases p with
        | ret a => simp [ht] at hs₁
        | op o k =>
          rw [ht] at hs₁
          cases hs₁
          exact ih.perform ht
    | setMaxEntries | applyPolicy =>
      cases hs₁
      exact ⟨ih.threads, ih.others, ih.owed⟩

theorem CommitsAccounted.running (h : CommitsAccounted s log) (hr : phaseOf r log ≠ .idle) :
    s.Running r := by
  cases hp : s.threads[r]? with
  | none => exact absurd (h.others r (List.getElem?_eq_none_iff.mp hp)) hr
  | some p =>
    cases p with
    | ret a => exact absurd (h.threads r _ hp) hr
    | op o k => exact ⟨o, k, hp⟩

/-- **No commit is forgotten.** At every point after a thread that committed a write to a shard has
returned, a sync of the shard that started after the commit has succeeded, or a round that cleared
the flag after it is still running, or the flag is set. -/
theorem commit_accounted (hash : CacheKey → Nat) {s : LmdbThreads} {after before : FlagLog}
    {w i : Nat} (h : (lmdbLog hash).Reach Lts.Any (s, after ++ (w, .committed i) :: before))
    (hret : s.threads[w]? = some (.ret ())) :
    ShardSynced i after ∨ (∃ r, (r, .cleared i) ∈ after ∧ s.Running r) ∨ s.dirty i = true := by
  have hacc := commitsAccounted_of_reach h
  cases hacc.owed after w i before rfl with
  | flag hflag => exact .inr (.inr hflag)
  | synced hsynced => exact .inl hsynced
  | own hown =>
    have hidle : phaseOf w _ = .idle := hacc.threads w _ hret
    rw [hown] at hidle
    cases hidle
  | busy r hmem hbusy =>
    refine .inr (.inl ⟨r, hmem, hacc.running fun hidle => ?_⟩)
    rw [phaseOf_append hmem] at hidle
    simp [hidle] at hbusy

/-- Whether the thread has returned. -/
def LmdbThreads.returned (s : LmdbThreads) (w : Nat) : Bool :=
  match s.threads[w]? with
  | some (.ret _) => true
  | _ => false

theorem returned_iff : s.returned w = true ↔ s.threads[w]? = some (.ret ()) := by
  unfold LmdbThreads.returned
  split
  · next a h => simp [h]
  · next h =>
    simp only [Bool.false_eq_true, false_iff]
    exact h ()

/-- An insert has returned, and a round has cleared the flag. -/
theorem commit_accounted_sample : ∃ s : LmdbThreads,
    (lmdbLog (fun _ => 0)).Reach Lts.Any
      (s, [(1, .cleared 0), (0, .marked 0)] ++ (0, .committed 0) :: []) ∧
    s.threads[0]? = some (.ret ()) ∧
    (ShardSynced 0 [(1, .cleared 0), (0, .marked 0)] ∨
      (∃ r, (r, .cleared 0) ∈ ([(1, .cleared 0), (0, .marked 0)] : FlagLog) ∧ s.Running r) ∨
      s.dirty 0 = true) := by
  obtain ⟨⟨s, log⟩, hr, rfl, hret⟩ := Lts.exists_exec (L := lmdbLog (fun _ => 0)) Lts.Any
    (s := ({ backend := oneShard }, []))
    ([FlagAct.start sampleInsert] ++ List.replicate 6 (FlagAct.run 0 .ok 0) ++
      [FlagAct.startRound, FlagAct.run 1 .ok 0])
    (fun x => x.2 = [(1, .cleared 0), (0, .marked 0), (0, .committed 0)] ∧ x.1.returned 0 = true)
    ⟨rfl, rfl⟩ (by decide +kernel)
  exact ⟨s, hr, returned_iff.mp hret, commit_accounted _ hr (returned_iff.mp hret)⟩

end Conduit
