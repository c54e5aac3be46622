import Conduit.Cache.Count
import Conduit.Lib.Wp

/-!
# The calls on an LMDB backend, one after the other

What the calls of `Conduit.Cache.Count` do when no other call comes between their transactions, and
one thread that makes such calls, closes the backend and opens it again, while time passes.

- `LmdbEnvs.Shrunk`: entries were deleted.
- `Inserted`: an insert evicts entries and puts its own, where there is room.
- `insertEntry_wp`, `removeEntry_wp`, `getEntry_wp`, `clearAllEntries_wp`,
  `evictOneArbitraryAnyShard_wp`: one specification per call.
- `LmdbAlone`, `lmdbAlone`: the thread and the two clocks.
-/

namespace Conduit

/-! ## Deleted entries -/

/-- Entries were deleted, and counted. -/
structure LmdbEnvs.Shrunk (envs envs' : LmdbEnvs) : Prop where
  rows : ∀ i, (envs' i).entries.rows.Sublist (envs i).entries.rows
  counts : ∀ i, (envs i).Exact → (envs' i).Exact

namespace LmdbEnvs.Shrunk

variable {envs envs' envs'' : LmdbEnvs} {i : Nat} {key : CacheKey}

protected theorem refl (envs : LmdbEnvs) : envs.Shrunk envs := ⟨fun _ => .refl _, fun _ h => h⟩

protected theorem trans (h : envs.Shrunk envs') (h' : envs'.Shrunk envs'') : envs.Shrunk envs'' :=
  ⟨fun i => (h'.rows i).trans (h.rows i), fun i hi => h'.counts i (h.counts i hi)⟩

theorem update {e : LmdbEnv} (hrows : e.entries.rows.Sublist (envs i).entries.rows)
    (hcount : (envs i).Exact → e.Exact) : envs.Shrunk (Function.update envs i e) := by
  refine ⟨fun j => ?_, fun j hj => ?_⟩
  · by_cases hji : j = i
    · subst hji
      rwa [Function.update_self]
    · rw [Function.update_of_ne hji]
  · by_cases hji : j = i
    · subst hji
      rw [Function.update_self]
      exact hcount hj
    · rwa [Function.update_of_ne hji]

theorem delete (hk : envs.has i key = true) :
    envs.Shrunk (Function.update envs i ((envs i).delete key)) :=
  update List.filter_sublist fun h => h.delete hk

theorem size_le (h : envs.Shrunk envs') (i : Nat) :
    (envs' i).entries.size ≤ (envs i).entries.size := (h.rows i).length_le

theorem has_eq_false (h : envs.Shrunk envs') (hno : envs.has i key = false) :
    envs'.has i key = false := by
  rw [LmdbEnvs.has, Db.has, decide_eq_false_iff_not] at hno ⊢
  exact fun hmem => hno (((h.rows i).map _).subset hmem)

theorem size_delete_lt (hk : envs.has i key = true) :
    (Function.update envs i ((envs i).delete key) i).entries.size < (envs i).entries.size := by
  have hpos := Db.size_pos hk
  rw [LmdbEnvs.has] at hk
  rw [Function.update_self, LmdbEnv.delete, Db.size_delete, if_pos hk]
  omega

end LmdbEnvs.Shrunk

/-! ## One specification per call -/

section Specs

variable (backend : LmdbCacheBackend) (nowUnix : Nat) (ok : LmdbIo → LmdbOp → Prop)

/-- Run alone at the time `nowUnix`, the program ends in a value and environments of `Q`. -/
abbrev EndsIn {α : Type} (Q : α → LmdbEnvs → Prop) (p : LmdbProg α) (envs : LmdbEnvs) : Prop :=
  Prog.Wp (fun io envs o => LmdbEnvs.perform backend io nowUnix envs o) ok Q p envs

/-- There is room for one more entry in the shard, if the number of its entries is read. -/
def Room (i cap : Nat) (envs envs' : LmdbEnvs) : Prop :=
  (∀ io, ok io (.entryCount i) → io = .ok) → (envs i).Exact → (envs i).entries.size ≤ cap →
    (envs' i).entries.size < cap

/-- What an insert does, with whether it stored the entry. -/
inductive Inserted (i : Nat) (key : CacheKey) (value : LmdbValue) (envs : LmdbEnvs) :
    Bool → LmdbEnvs → Prop
  | stored {envs₁ : LmdbEnvs} (hshrunk : envs.Shrunk envs₁)
      (hput : ok .ok (.put i key value (envs₁.has i key)))
      (hroom : 0 < backend.shardMaxEntries[i]?.getD 0 → envs₁.has i key = false →
        Room ok i (backend.shardMaxEntries[i]?.getD 0) envs envs₁) :
      Inserted i key value envs true
        (Function.update envs₁ i ((envs₁ i).put key value (envs₁.has i key)))
  | refused {envs' : LmdbEnvs} (hshrunk : envs.Shrunk envs') : Inserted i key value envs false envs'

end Specs

section Specs

variable {backend : LmdbCacheBackend} {nowUnix : Nat} {ok : LmdbIo → LmdbOp → Prop}
variable {envs : LmdbEnvs} (i : Nat) (policy : LmdbPolicy)

theorem transact_wp {α : Type} {o : LmdbOp} {Q : α → LmdbEnvs → Prop} {k : o.Resp → LmdbProg α}
    (h : ∀ io, ok io o → EndsIn backend nowUnix ok Q (k (envs.perform backend io nowUnix o).2)
      (envs.perform backend io nowUnix o).1) :
    EndsIn backend nowUnix ok Q (transact o >>= k) envs := h

theorem evictOneArbitrary_wp :
    EndsIn backend nowUnix ok (fun r envs' => envs.Shrunk envs' ∧
        (r = some true → (envs' i).entries.size < (envs i).entries.size))
      (transact (.evictOneArbitrary i)) envs := by
  intro io _
  simp only [LmdbEnvs.perform]
  split
  · split
    · exact ⟨.refl _, by rintro ⟨⟩⟩
    · rename_i row hrow
      have hk : envs.has i row.1 = true := Db.has_first hrow
      exact ⟨.delete hk, fun _ => LmdbEnvs.Shrunk.size_delete_lt hk⟩
  · exact ⟨.refl _, by rintro ⟨⟩⟩

theorem evictVictim_wp :
    EndsIn backend nowUnix ok (fun r envs' => envs.Shrunk envs' ∧
        (r = some true → (envs' i).entries.size < (envs i).entries.size))
      (evictVictim i policy) envs := by
  unfold evictVictim
  split
  · exact ⟨.refl _, by rintro ⟨⟩⟩
  · exact evictOneArbitrary_wp i
  · refine transact_wp fun _ _ => transact_wp fun io _ => ?_
    simp only [LmdbEnvs.perform]
    split
    · exact ⟨.refl _, by rintro ⟨⟩⟩
    · exact ⟨.refl _, by rintro ⟨⟩⟩
    · rename_i victim hv
      refine transact_wp fun io' _ => ?_
      -- the victim is a row of the sample
      have hk : envs.has i victim = true := by
        split at hv
        · rcases LmdbEnvs.sampleVictim_mem (Option.some.inj hv) with hs | hr
          · cases hs
          · exact Db.has_of_mem_keys hr
        · cases hv
      simp only [LmdbEnvs.perform]
      split
      · exact ⟨.delete hk, fun _ => LmdbEnvs.Shrunk.size_delete_lt hk⟩
      · exact ⟨.refl _, by rintro ⟨⟩⟩

/-- A call of `insert_inner` that replaces an entry evicts none before its put. -/
theorem makeRoom_wp (cap : Nat) (replacing : Bool) :
    EndsIn backend nowUnix ok (fun r envs' => envs.Shrunk envs' ∧
        (replacing = true → envs' = envs) ∧
        (r.1 = some true → 0 < cap → replacing = false → Room ok i cap envs envs'))
      (makeRoom i cap policy replacing) envs := by
  unfold makeRoom
  split
  · rename_i hc
    obtain ⟨hcap, hrep⟩ : 0 < cap ∧ replacing = false := by simpa using hc
    subst hrep
    refine transact_wp fun io hio => ?_
    split
    · split
      · exact ⟨.refl _, nofun, nofun⟩
      all_goals
        refine (evictVictim_wp i policy).seq fun r envs' h => ?_
        split
        · exact ⟨h.1, nofun, fun _ _ _ _ _ hle => (h.2 rfl).trans_le hle⟩
        · rename_i r hr
          exact ⟨h.1, nofun, fun h => (hr h).elim⟩
    · rename_i hlt
      refine ⟨.refl _, nofun, fun _ _ _ hcount hexact _ => ?_⟩
      -- the count that was read is the number of entries
      simp only [LmdbEnvs.perform, if_pos (hcount io hio)] at hlt
      calc (envs i).entries.size = (envs i).count := hexact.symm
        _ < cap := Nat.lt_of_not_le hlt
  · rename_i hc
    refine ⟨.refl _, fun _ => rfl, fun _ hcap hrep => (hc ?_).elim⟩
    simp [hcap, hrep]

variable (key : CacheKey) (entry : CacheEntry) (now : Nat)

theorem Inserted.of_shrunk {value : LmdbValue} {envs' envs'' : LmdbEnvs} {stored : Bool}
    (h : envs.Shrunk envs') (hi : Inserted backend ok i key value envs' stored envs'') :
    Inserted backend ok i key value envs stored envs'' := by
  cases hi with
  | stored hshrunk hput hroom =>
    refine .stored (h.trans hshrunk) hput fun hcap hno hcount hexact hle => ?_
    exact hroom hcap hno hcount (h.counts i hexact) ((h.size_le i).trans hle)
  | refused hshrunk => exact .refused (h.trans hshrunk)

theorem Inserted.of_ne {value : LmdbValue} {envs' : LmdbEnvs} {r : Option Bool}
    (h : envs.Shrunk envs') (hr : r ≠ some true) :
    Inserted backend ok i key value envs (r.getD false) envs' := by
  match r, hr with
  | none, _ | some false, _ => exact .refused h

theorem insertOnce_wp {again : Option (Nat → LmdbProg (Option Bool × Nat))}
    (hagain : ∀ p ∈ again, ∀ n envs, EndsIn backend nowUnix ok
      (fun r envs' => Inserted backend ok i key (encodeEntry entry now nowUnix) envs
        (r.1.getD false) envs') (p n) envs) (evictions : Nat) (envs : LmdbEnvs) :
    EndsIn backend nowUnix ok
      (fun r envs' => Inserted backend ok i key (encodeEntry entry now nowUnix) envs
        (r.1.getD false) envs') (insertOnce i key entry now again evictions) envs := by
  unfold insertOnce
  refine transact_wp fun _ _ => transact_wp fun _ _ => transact_wp fun _ _ => ?_
  simp only [LmdbEnvs.perform]
  split
  · exact .refused (.refl _)
  rename_i replacing hreplacing
  have hrep : envs.has i key = replacing := by
    split at hreplacing
    · exact Option.some.inj hreplacing
    · cases hreplacing
  refine (makeRoom_wp i _ _ replacing).seq fun r envs₁ h => ?_
  obtain ⟨hshrunk, hkeep, hroom⟩ := h
  -- an eviction does not bring the key in
  have hrep₁ : envs₁.has i key = replacing := by
    cases replacing with
    | true => rw [hkeep rfl, hrep]
    | false => exact hshrunk.has_eq_false hrep
  split
  · refine transact_wp fun _ _ => transact_wp fun io hput => ?_
    simp only [LmdbEnvs.perform] at hput ⊢
    cases io with
    | ok =>
      rw [← hrep₁] at hput ⊢
      exact .stored hshrunk hput fun hcap hno => hroom rfl hcap (hrep₁.symm.trans hno)
    | failed => exact .refused hshrunk
    | mapFull =>
      dsimp only
      split
      · exact .refused hshrunk
      · exact .refused hshrunk
      · rename_i again _ _
        refine (evictVictim_wp i _).seq fun r envs₂ h => ?_
        have hshrunk₂ := hshrunk.trans h.1
        split
        · refine (hagain _ rfl _ envs₂).mono fun _ _ hi => ?_
          exact hi.of_shrunk i key hshrunk₂
        · rename_i hr
          exact .of_ne i key hshrunk₂ hr
  · rename_i hr
    exact .of_ne i key hshrunk hr

theorem insertEntry_wp :
    EndsIn backend nowUnix ok
      (fun o envs' => Inserted backend ok i key (encodeEntry entry now nowUnix) envs o.stored envs')
      (insertEntry i key entry now) envs := by
  have hinner : EndsIn backend nowUnix ok
      (fun r envs' => Inserted backend ok i key (encodeEntry entry now nowUnix) envs
        (r.1.getD false) envs') (insertInner i key entry now 1 0) envs := by
    refine insertOnce_wp i key entry now (fun p hp => ?_) 0 envs
    -- the second call has no third
    cases hp
    exact insertOnce_wp i key entry now nofun
  exact hinner.seq fun _ _ h => h

theorem removeEntry_wp :
    EndsIn backend nowUnix ok (fun _ envs' => envs.Shrunk envs') (removeEntry i key) envs := by
  intro io _
  simp only [LmdbEnvs.perform]
  split
  · rename_i h
    exact .delete (Bool.and_eq_true_iff.mp h).2
  · exact .refl _

/-- The entry under the key, as a lookup reads it. -/
def LmdbEnvs.stored (envs : LmdbEnvs) (i : Nat) (key : CacheKey) : Option StoredEntry :=
  ((envs i).entries.get key).bind (decodeValue · |>.toOption)

theorem getFresh_wp :
    EndsIn backend nowUnix ok (fun r envs' => envs.Shrunk envs' ∧ ∀ stored ∈ r,
        envs' = envs ∧ envs.stored i key = some stored ∧ nowUnix < stored.expiresAtUnix)
      (getFresh i key) envs := by
  unfold getFresh
  refine transact_wp fun io _ => ?_
  simp only [LmdbEnvs.perform]
  split
  · exact ⟨.refl _, by rintro _ ⟨⟩⟩
  · rename_i stored hread
    refine transact_wp fun _ _ => ?_
    split
    · exact (removeEntry_wp i key).seq fun _ _ h => ⟨h, by rintro _ ⟨⟩⟩
    · rename_i hfresh
      refine ⟨.refl _, fun _ hs => ?_⟩
      cases hs
      split at hread
      · exact ⟨rfl, hread, Nat.lt_of_not_le hfresh⟩
      · cases hread

theorem getEntry_wp :
    EndsIn backend nowUnix ok (fun r envs' => envs.Shrunk envs' ∧ ∀ stored ∈ r,
        envs.stored i key = some stored ∧ nowUnix < stored.expiresAtUnix)
      (getEntry i key) envs := by
  refine (getFresh_wp i key).seq fun r envs' h => ?_
  cases r with
  | none => exact ⟨h.1, nofun⟩
  | some stored =>
    obtain ⟨rfl, -⟩ := h.2 stored rfl
    exact (getFresh_wp i key).mono fun r _ h => ⟨h.1, fun s hs => (h.2 s hs).2⟩

theorem clearAllEntries_wp (shards : List Nat) : ∀ envs : LmdbEnvs,
    EndsIn backend nowUnix ok (fun _ envs' => envs.Shrunk envs') (clearAllEntries shards) envs := by
  induction shards with
  | nil => exact fun envs => .refl envs
  | cons i shards ih =>
    intro envs
    refine transact_wp fun io _ => ?_
    have hclear : envs.Shrunk (Function.update envs i {}) :=
      .update (List.nil_sublist _) fun _ => rfl
    simp only [LmdbEnvs.perform]
    by_cases hio : io = .ok
    · simp only [if_pos hio]
      exact (ih _).mono fun _ _ h => hclear.trans h
    · simp only [if_neg hio]
      exact .refl envs

theorem evictOneArbitraryAnyShard_wp (shards : List Nat) : ∀ envs : LmdbEnvs,
    EndsIn backend nowUnix ok (fun _ envs' => envs.Shrunk envs')
      (evictOneArbitraryAnyShard shards) envs := by
  induction shards with
  | nil => exact fun envs => .refl envs
  | cons i shards ih =>
    intro envs
    refine (evictOneArbitrary_wp i).seq fun r envs' h => ?_
    split
    · exact (ih _).mono fun _ _ h' => h.1.trans h'
    · exact h.1

end Specs

/-! ## One thread -/

def LmdbCacheBackend.layout (l : LmdbCacheBackend) : OnDiskLayout :=
  if l.layoutIsLegacy then .legacy else .sharded l.shardCount

structure LmdbAlone where
  /-- The instant now, in nanoseconds. -/
  now : Nat
  /-- The wall clock at the instant 0, in nanoseconds. -/
  epoch : Nat
  backend : LmdbCacheBackend
  opened : Bool := true
  disk : OnDiskLayout
  envs : LmdbEnvs := fun _ => {}

inductive AloneAct where
  | tick (nanos : Nat)
  | insert (key : CacheKey) (entry : CacheEntry) (ios : List LmdbIo)
  | remove (key : CacheKey) (ios : List LmdbIo)
  | get (key : CacheKey) (ios : List LmdbIo)
  | clear (ios : List LmdbIo)
  | evict (ios : List LmdbIo)
  | setMaxEntries (n : Nat)
  | applyPolicy (whenFull : LmdbWhenFull) (sampleSize : Nat)
  /-- Close the backend and open it again; if that fails, the old files may be gone already. -/
  | reopen (io : CacheIo) (maxEntries : Nat) (lmdb : CompiledLmdbCache) (abandoned : Bool)

namespace LmdbAlone

/-- `unix_now` at the instant now. -/
def unixNow (s : LmdbAlone) : Nat := asSecs (s.epoch + s.now)

def shard (hash : CacheKey → Nat) (s : LmdbAlone) (key : CacheKey) : Nat :=
  hash key % s.backend.shardCount

/-- A transaction of the thread. -/
def perform (s : LmdbAlone) (io : LmdbIo) (envs : LmdbEnvs) (o : LmdbOp) : LmdbEnvs × o.Resp :=
  envs.perform s.backend io s.unixNow o

/-- A call on the open backend. -/
def run {α : Type} (s : LmdbAlone) (ios : List LmdbIo) (p : LmdbProg α) : Option (LmdbEnvs × α) :=
  if s.opened then p.exec s.perform ios s.envs else none

def after {α : Type} (s : LmdbAlone) (r : LmdbEnvs × α) : LmdbAlone := { s with envs := r.1 }

/-- The state with the files of an abandoned layout removed. -/
def abandon (s : LmdbAlone) : LmdbAlone := { s with disk := .empty, envs := fun _ => {} }

def reopen (s : LmdbAlone) (io : CacheIo) (maxEntries : Nat) (lmdb : CompiledLmdbCache)
    (abandoned : Bool) : LmdbAlone :=
  let requires := explicitRequiresAbandon lmdb.shardCount s.disk
  let found := { io with onDisk := s.disk }
  match LmdbCacheBackend.openAt found s.backend.cacheName maxEntries lmdb with
  | .ok backend =>
    { if requires then s.abandon else s with
      backend := backend, opened := true, disk := backend.layout }
  | .error _ => { if requires && abandoned then s.abandon else s with opened := false }

def step (hash : CacheKey → Nat) (s : LmdbAlone) : AloneAct → Option LmdbAlone
  | .tick nanos =>
    -- the seconds of the wall clock are a `u64`
    if asSecs (s.epoch + (s.now + nanos)) < 2 ^ 64 then some { s with now := s.now + nanos }
    else none
  | .insert key entry ios =>
    (s.run ios (insertEntry (s.shard hash key) key entry s.now)).map s.after
  | .remove key ios => (s.run ios (removeEntry (s.shard hash key) key)).map s.after
  | .get key ios => (s.run ios (getEntry (s.shard hash key) key)).map s.after
  | .clear ios => (s.run ios (clearAllEntries (List.range s.backend.shardCount))).map s.after
  | .evict ios =>
    (s.run ios (evictOneArbitraryAnyShard (List.range s.backend.shardCount))).map s.after
  | .setMaxEntries n => some { s with backend := s.backend.setMaxEntries n }
  | .applyPolicy whenFull size => some { s with backend := s.backend.applyPolicy whenFull size }
  | .reopen io maxEntries lmdb abandoned => some (s.reopen io maxEntries lmdb abandoned)

theorem run_spec {α : Type} {s : LmdbAlone} {ok : LmdbIo → LmdbOp → Prop}
    {Q : α → LmdbEnvs → Prop} {p : LmdbProg α} {ios : List LmdbIo} {r : LmdbEnvs × α}
    (hp : EndsIn s.backend s.unixNow ok Q p s.envs) (hin : Prog.Admits s.perform ok ios s.envs p)
    (h : s.run ios p = some r) : Q r.2 r.1 := by
  unfold run at h
  split at h
  · exact hp.exec hin h
  · cases h

/-- What an action does; `ok` are the answers of LMDB that an insert gets. -/
inductive Step (hash : CacheKey → Nat) (ok : LmdbIo → LmdbOp → Prop) (s : LmdbAlone) :
    AloneAct → LmdbAlone → Prop
  | tick (nanos : Nat) (h : asSecs (s.epoch + (s.now + nanos)) < 2 ^ 64) :
      Step hash ok s (.tick nanos) { s with now := s.now + nanos }
  | insert {key : CacheKey} {entry : CacheEntry} {ios : List LmdbIo} {r : LmdbEnvs × InsertOutcome}
      (hrun : s.run ios (insertEntry (s.shard hash key) key entry s.now) = some r)
      (hins : Inserted s.backend ok (s.shard hash key) key (encodeEntry entry s.now s.unixNow)
        s.envs r.2.stored r.1) : Step hash ok s (.insert key entry ios) { s with envs := r.1 }
  | remove {key : CacheKey} {ios : List LmdbIo} {envs' : LmdbEnvs} (h : s.envs.Shrunk envs') :
      Step hash ok s (.remove key ios) { s with envs := envs' }
  | get {key : CacheKey} {ios : List LmdbIo} {envs' : LmdbEnvs} (h : s.envs.Shrunk envs') :
      Step hash ok s (.get key ios) { s with envs := envs' }
  | clear {ios : List LmdbIo} {envs' : LmdbEnvs} (h : s.envs.Shrunk envs') :
      Step hash ok s (.clear ios) { s with envs := envs' }
  | evict {ios : List LmdbIo} {envs' : LmdbEnvs} (h : s.envs.Shrunk envs') :
      Step hash ok s (.evict ios) { s with envs := envs' }
  | setMaxEntries (n : Nat) :
      Step hash ok s (.setMaxEntries n) { s with backend := s.backend.setMaxEntries n }
  | applyPolicy (whenFull : LmdbWhenFull) (size : Nat) :
      Step hash ok s (.applyPolicy whenFull size)
        { s with backend := s.backend.applyPolicy whenFull size }
  | reopen (io : CacheIo) (maxEntries : Nat) (lmdb : CompiledLmdbCache) (abandoned : Bool) :
      Step hash ok s (.reopen io maxEntries lmdb abandoned) (s.reopen io maxEntries lmdb abandoned)

def InsertAdmits (hash : CacheKey → Nat) (ok : LmdbIo → LmdbOp → Prop) (s : LmdbAlone) :
    AloneAct → Prop
  | .insert key entry ios =>
    Prog.Admits s.perform ok ios s.envs (insertEntry (s.shard hash key) key entry s.now)
  | _ => True

instance {hash : CacheKey → Nat} {ok : LmdbIo → LmdbOp → Prop} [∀ io o, Decidable (ok io o)]
    (s : LmdbAlone) : ∀ a, Decidable (s.InsertAdmits hash ok a)
  | .insert key entry ios =>
    inferInstanceAs (Decidable (Prog.Admits s.perform ok ios s.envs
      (insertEntry (s.shard hash key) key entry s.now)))
  | .tick _ | .remove _ _ | .get _ _ | .clear _ | .evict _ | .setMaxEntries _ | .applyPolicy _ _
  | .reopen _ _ _ _ => .isTrue trivial

theorem step_spec {hash : CacheKey → Nat} {ok : LmdbIo → LmdbOp → Prop} {s s' : LmdbAlone}
    {a : AloneAct} (hin : s.InsertAdmits hash ok a) (h : s.step hash a = some s') :
    Step hash ok s a s' := by
  -- the calls that only delete take any answer
  have hany {α : Type} (ios : List LmdbIo) (p : LmdbProg α) :
      Prog.Admits s.perform (fun _ _ => True) ios s.envs p :=
    Prog.admits_of_forall (fun _ _ => trivial) _ _ _
  cases a with
  | tick nanos =>
    simp only [step] at h
    split at h
    · cases h
      exact .tick nanos ‹_›
    · cases h
  | insert key entry ios =>
    obtain ⟨r, hrun, rfl⟩ := Option.map_eq_some_iff.mp h
    exact .insert hrun (run_spec (insertEntry_wp _ key entry s.now) hin hrun)
  | remove key ios =>
    obtain ⟨r, hrun, rfl⟩ := Option.map_eq_some_iff.mp h
    exact .remove (run_spec (removeEntry_wp _ key) (hany ..) hrun)
  | get key ios =>
    obtain ⟨r, hrun, rfl⟩ := Option.map_eq_some_iff.mp h
    exact .get (run_spec (getEntry_wp _ key) (hany ..) hrun).1
  | clear ios =>
    obtain ⟨r, hrun, rfl⟩ := Option.map_eq_some_iff.mp h
    exact .clear (run_spec (clearAllEntries_wp _ _) (hany ..) hrun)
  | evict ios =>
    obtain ⟨r, hrun, rfl⟩ := Option.map_eq_some_iff.mp h
    exact .evict (run_spec (evictOneArbitraryAnyShard_wp _ _) (hany ..) hrun)
  | setMaxEntries n => cases h; exact .setMaxEntries n
  | applyPolicy whenFull size => cases h; exact .applyPolicy whenFull size
  | reopen io maxEntries lmdb abandoned => cases h; exact .reopen io maxEntries lmdb abandoned

end LmdbAlone

/-- A backend that was opened, with no entries, as `start` says. The instant 0 is at least a second
before that, so instants somewhat before the start can be represented. -/
abbrev lmdbAlone (hash : CacheKey → Nat) (start : LmdbCacheBackend → Prop) : Lts where
  St := LmdbAlone
  Act := AloneAct
  init s := start s.backend ∧ s.opened = true ∧ s.disk = s.backend.layout ∧
    (∀ i, s.envs i = {}) ∧ nanosPerSec ≤ s.now ∧ s.unixNow < 2 ^ 64
  step := LmdbAlone.step hash

end Conduit
