import Mathlib.Algebra.Order.BigOperators.Group.List
import Mathlib.Algebra.Order.Group.Nat
import Conduit.Cache.Alone

/-!
# The cap of an LMDB backend

`max_entries` is split over the shards (`per_shard_max_entries`), and an insert keeps its shard
within the shard's part. A part of 0 stands for no cap, so the cap is exceeded when there are fewer
entries allowed than shards (`cap_exceeded`). It is also not kept when `shard_entry_count` fails,
since an error is taken for 0 entries.

- `sum_perShardMaxEntries`: the parts add up to the cap.
- `WithinCap`: every count is right, and every shard is within its part.
- `entries_within_cap`: the cap holds for a backend with at most as many shards as entries allowed.
-/

namespace Conduit

/-! ## The parts of the cap -/

theorem sum_parts (base rem n : Nat) :
    ((List.range n).map fun i => if i < rem then base + 1 else base).sum =
      base * n + min rem n := by
  induction n with
  | zero => simp
  | succ n ih =>
    rw [List.range_succ, List.map_append, List.sum_append, ih, Nat.mul_succ]
    by_cases hrem : n < rem
    · simp only [List.map_cons, List.map_nil, List.sum_singleton, if_pos hrem]
      omega
    · simp only [List.map_cons, List.map_nil, List.sum_singleton, if_neg hrem]
      omega

theorem sum_perShardMaxEntries {n : Nat} (hn : 0 < n) (maxEntries : Nat) :
    (perShardMaxEntries maxEntries n).sum = maxEntries := by
  have hrem : min (maxEntries % n) n = maxEntries % n := min_eq_left (Nat.mod_lt _ hn).le
  rw [perShardMaxEntries, sum_parts, hrem, Nat.mul_comm]
  exact Nat.div_add_mod maxEntries n

theorem pos_of_mem_perShardMaxEntries {maxEntries n cap : Nat} (hn : 0 < n) (h : n ≤ maxEntries)
    (hcap : cap ∈ perShardMaxEntries maxEntries n) : 0 < cap := by
  have hbase : 0 < maxEntries / n := Nat.div_pos h hn
  obtain ⟨i, -, rfl⟩ := List.mem_map.mp hcap
  split <;> omega

/-! ## Within the cap -/

/-- The number of entries of all shards. -/
def LmdbAlone.entryTotal (s : LmdbAlone) : Nat :=
  ((List.range s.backend.shardCount).map fun i => (s.envs i).entries.size).sum

/-- `shard_entry_count` does not fail. -/
def countsRead (io : LmdbIo) : LmdbOp → Prop
  | .entryCount _ => io = .ok
  | _ => True

instance (io : LmdbIo) : ∀ o, Decidable (countsRead io o)
  | .entryCount _ => inferInstanceAs (Decidable (io = .ok))
  | .loadCap _ | .loadPolicy | .unixNow | .keyExists _ _ | .read _ _ | .sample _ _ _
  | .deleteVictim _ _ | .evictOneArbitrary _ | .put _ _ _ _ | .remove _ _ | .clear _ =>
    .isTrue trivial

def AloneAct.keepsCap : AloneAct → Bool
  | .setMaxEntries _ | .reopen _ _ _ _ => false
  | _ => true

/-- The cap stays in force, and an insert can read the number of entries. -/
def CapInForce (hash : CacheKey → Nat) (s : LmdbAlone) (a : AloneAct) : Prop :=
  a.keepsCap = true ∧ s.InsertAdmits hash countsRead a

instance (hash : CacheKey → Nat) (s : LmdbAlone) (a : AloneAct) :
    Decidable (CapInForce hash s a) := inferInstanceAs (Decidable (_ ∧ _))

/-- Every count is right, and every shard is within its part of the cap. -/
structure WithinCap (caps : List Nat) (s : LmdbAlone) : Prop where
  split : s.backend.shardMaxEntries = caps
  counts : ∀ i, (s.envs i).Exact
  sizes : ∀ i cap, caps[i]? = some cap → (s.envs i).entries.size ≤ cap

namespace WithinCap

variable {caps : List Nat} {s : LmdbAlone}

theorem shrunk (h : WithinCap caps s) {envs' : LmdbEnvs} (hs : s.envs.Shrunk envs') :
    WithinCap caps { s with envs := envs' } where
  split := h.split
  counts i := hs.counts i (h.counts i)
  sizes i cap hcap := (hs.size_le i).trans (h.sizes i cap hcap)

theorem put (h : WithinCap caps s) (i : Nat) (key : CacheKey) (value : LmdbValue)
    (hroom : s.envs.has i key = false → ∀ cap, caps[i]? = some cap →
      (s.envs i).entries.size < cap) :
    WithinCap caps { s with
      envs := Function.update s.envs i ((s.envs i).put key value (s.envs.has i key)) } where
  split := h.split
  counts j := LmdbEnvs.exact_update h.counts ((h.counts i).put key value) j
  sizes j cap hcap := by
    by_cases hji : j = i
    · subst hji
      have hle := h.sizes j cap hcap
      simp only [Function.update_self, LmdbEnv.put, Db.size_put]
      split
      · exact hle
      · rename_i hno
        exact hroom (Bool.eq_false_iff.mpr hno) cap hcap
    · simp only [Function.update_of_ne hji]
      exact h.sizes j cap hcap

theorem inserted (h : WithinCap caps s) (hpos : ∀ cap ∈ caps, 0 < cap) {i : Nat} {key : CacheKey}
    {value : LmdbValue} {stored : Bool} {envs' : LmdbEnvs}
    (hi : Inserted s.backend countsRead i key value s.envs stored envs') :
    WithinCap caps { s with envs := envs' } := by
  cases hi with
  | refused hshrunk => exact h.shrunk hshrunk
  | stored hshrunk _ hroom =>
    refine (h.shrunk hshrunk).put i key value fun hno cap hcap => ?_
    rw [h.split, hcap] at hroom
    exact hroom (hpos cap (List.mem_of_getElem? hcap)) hno (fun _ h => h) (h.counts i)
      (h.sizes i cap hcap)

theorem step (h : WithinCap caps s) (hpos : ∀ cap ∈ caps, 0 < cap) {hash : CacheKey → Nat}
    {a : AloneAct} {s' : LmdbAlone} (hc : CapInForce hash s a) (hs : s.step hash a = some s') :
    WithinCap caps s' := by
  cases LmdbAlone.step_spec hc.2 hs with
  | tick | applyPolicy => exact ⟨h.split, h.counts, h.sizes⟩
  | insert _ hins => exact h.inserted hpos hins
  | remove hshrunk | get hshrunk | clear hshrunk | evict hshrunk => exact h.shrunk hshrunk
  | setMaxEntries n => cases hc.1
  | reopen io maxEntries lmdb abandoned => cases hc.1

end WithinCap

def OpenedWithCap (maxEntries n : Nat) (b : LmdbCacheBackend) : Prop :=
  b.shardMaxEntries = perShardMaxEntries maxEntries n

instance (maxEntries n : Nat) (b : LmdbCacheBackend) : Decidable (OpenedWithCap maxEntries n b) :=
  inferInstanceAs (Decidable (_ = _))

/-- A backend with no more shards than entries allowed has never more entries than that. -/
theorem entries_within_cap {hash : CacheKey → Nat} {maxEntries n : Nat} (hn : 0 < n)
    (hcap : n ≤ maxEntries) {s : LmdbAlone}
    (h : (lmdbAlone hash (OpenedWithCap maxEntries n)).Reach (CapInForce hash) s) :
    s.entryTotal ≤ maxEntries := by
  have hpos : ∀ cap ∈ perShardMaxEntries maxEntries n, 0 < cap := fun _ =>
    pos_of_mem_perShardMaxEntries hn hcap
  have hinv : WithinCap (perShardMaxEntries maxEntries n) s := by
    refine h.inv (P := WithinCap _) ?_ fun s a s' _ hw hc hs => hw.step hpos hc hs
    intro s hs
    obtain ⟨hcaps, -, -, hempty, -⟩ := hs
    refine ⟨hcaps, fun i => ?_, fun i cap _ => ?_⟩
    · rw [hempty i]
      rfl
    · rw [hempty i]
      exact Nat.zero_le cap
  have hshards : s.backend.shardCount = n := by
    rw [LmdbCacheBackend.shardCount, hinv.split, perShardMaxEntries, List.length_map,
      List.length_range]
  -- shard by shard within the parts
  calc s.entryTotal ≤ (perShardMaxEntries maxEntries n).sum := by
        rw [LmdbAlone.entryTotal, hshards]
        refine List.sum_le_sum fun i hi => hinv.sizes i _ ?_
        rw [perShardMaxEntries, List.getElem?_map, List.getElem?_range (List.mem_range.mp hi)]
        exact rfl
    _ = maxEntries := sum_perShardMaxEntries hn maxEntries

/-- A backend of `n` shards with a cap, just opened, a second after the instant 0. -/
def openedWithCap (maxEntries n : Nat) : LmdbAlone where
  now := nanosPerSec
  epoch := 0
  backend := { oneShard with shardMaxEntries := perShardMaxEntries maxEntries n }
  disk := .sharded n

/-- The inserts of two entries under different keys, with no failures. -/
def twoInserts : List AloneAct :=
  [[1], [2]].map fun key =>
    .insert key { wire := [0], expiresAt := 60 * nanosPerSec } (List.replicate 10 .ok)

/-- One entry is allowed, and two are in the second of two shards: its part of the cap is 0. -/
theorem cap_exceeded : ∃ s, (lmdbAlone (fun _ => 1) (OpenedWithCap 1 2)).Reach
    (CapInForce fun _ => 1) s ∧ s.entryTotal = 2 :=
  Lts.exists_exec (L := lmdbAlone (fun _ => 1) (OpenedWithCap 1 2)) (CapInForce fun _ => 1)
    twoInserts _ (s := openedWithCap 1 2) ⟨by decide, rfl, rfl, fun _ => rfl, le_rfl, by decide⟩
    (by decide +kernel)

/-- With two shards and two entries allowed, the second insert into a shard evicts the first. -/
theorem entries_within_cap_sample : ∃ s, (lmdbAlone (fun _ => 1) (OpenedWithCap 2 2)).Reach
    (CapInForce fun _ => 1) s ∧ s.entryTotal = 1 ∧ s.entryTotal ≤ 2 := by
  obtain ⟨s, hreach, htotal⟩ :=
    Lts.exists_exec (L := lmdbAlone (fun _ => 1) (OpenedWithCap 2 2)) (CapInForce fun _ => 1)
      twoInserts (·.entryTotal = 1) (s := openedWithCap 2 2)
      ⟨by decide, rfl, rfl, fun _ => rfl, le_rfl, by decide⟩ (by decide +kernel)
  exact ⟨s, hreach, htotal, entries_within_cap (by decide) (by decide) hreach⟩

end Conduit
