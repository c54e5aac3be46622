import Mathlib.Data.List.AList
import Conduit.Core.Inflight
import Conduit.Lib.Loop
import Conduit.Lib.Lts
import Conduit.Lib.Shards

/-!
# The memory cache backend

`MemoryCacheBackend` of `lookup/cache/memory.rs`: entries in shards by the hash of their key, a cap
on their number, and a counter that is kept beside the shards. An insert at the cap makes room in
its own shard, else in another one, and tries again.

A hash map's iteration order is not specified, so every operation is given one (`IterOrder`), as it
is given the time and what the clock says while it holds a lock. The counter is an integer without
bounds: it never goes below zero (`memory_correct`), and 2^64 entries do not fit into memory. The
seconds spent on evictions are left out.

- `MemoryCacheBackend`: the shards, as many as the shard count says.
- `memoryCache`: the operations, one after the other, with the entry last inserted under each key.
- `memory_correct`: the counter is the number of entries, the cap holds, every insert returns, and a
  lookup finds the last entry inserted under its key, if it is fresh, or nothing.
-/

namespace Conduit

open Function (update update_of_ne update_self)

inductive EntryKind where
  | positive | nxDomain | noData | servFail
  deriving DecidableEq, Repr

structure CacheEntry where
  kind : EntryKind := .positive
  wire : Wire
  filledAt : Nat := 0
  expiresAt : Nat
  deriving DecidableEq, Repr

def CacheEntry.isFresh (e : CacheEntry) (now : Nat) : Bool := now < e.expiresAt

abbrev Shard := AList fun _ : CacheKey => CacheEntry

/-- The order in which a map is iterated. -/
structure IterOrder where
  order : List (Σ _ : CacheKey, CacheEntry) → List (Σ _ : CacheKey, CacheEntry)
  perm : ∀ l, (order l).Perm l

/-- The order of the entries themselves. -/
def IterOrder.same : IterOrder := ⟨id, fun _ => .refl _⟩

structure InsertOutcome where
  stored : Bool
  evictions : Nat
  deriving DecidableEq, Repr

structure ReapCursor where
  nextShard : Nat := 0
  deriving DecidableEq, Repr

structure ReapOutcome where
  removed : Nat
  incomplete : Bool
  deriving DecidableEq, Repr

structure MemoryCacheBackend where
  shardCount : Nat
  maxEntries : Nat
  liveEntries : Int
  shards : List Shard
  shardCount_pos : 0 < shardCount
  length_shards : shards.length = shardCount

namespace MemoryCacheBackend

def fromConfig (shardCount maxEntries : Nat) : MemoryCacheBackend where
  shardCount := max shardCount 1
  maxEntries := maxEntries
  liveEntries := 0
  shards := List.replicate (max shardCount 1) ∅
  shardCount_pos := by omega
  length_shards := by simp

variable (hash : CacheKey → Nat) (o : IterOrder) (now : Nat) (b : MemoryCacheBackend)

def shard (i : Nat) : Shard := b.shards[i]?.getD ∅

/-- The map of one shard and the counter are changed. -/
def setShard (i : Nat) (s : Shard) (live : Int) : MemoryCacheBackend :=
  { b with
    shards := b.shards.set i s, liveEntries := live
    length_shards := by simp [b.length_shards] }

def total : Nat := Shards.total (fun s : Shard => s.entries.length) b.shards

def shardIndex (key : CacheKey) : Nat := hash key % b.shardCount

def get (key : CacheKey) : Option CacheEntry :=
  ((b.shard (b.shardIndex hash key)).lookup key).filter (·.isFresh now)

/-! ## Eviction -/

/-- `evict_one_in_shard`: a stale entry, else any. -/
def evictOneInShard (s : Shard) : Option Shard :=
  let entries := o.order s.entries
  ((entries.find? fun x => !x.2.isFresh now).or entries.head?).map fun x => s.erase x.1

/-- The first shard of the list that has an entry loses one. -/
def evictFirst (idxs : List Nat) : Option MemoryCacheBackend :=
  idxs.findSome? fun i =>
    (evictOneInShard o now (b.shard i)).map fun s => b.setShard i s (b.liveEntries - 1)

def evictOne : Option MemoryCacheBackend := b.evictFirst o now (List.range b.shardCount)

def evictOneExcluding (excludeIdx : Nat) : Option MemoryCacheBackend :=
  b.evictFirst o now ((List.range b.shardCount).filter (· != excludeIdx) ++ [excludeIdx])

/-- `while live_entries > max`: evict one, or stop. Every round takes one off the counter, so the
loop has at most `live_entries - max` rounds. -/
def trimLoop : Nat → MemoryCacheBackend → MemoryCacheBackend × Nat
  | 0, b => (b, 0)
  | rounds + 1, b =>
    if b.liveEntries > b.maxEntries then
      match b.evictOne o now with
      | none => (b, 0)
      | some b' => ((trimLoop rounds b').1, (trimLoop rounds b').2 + 1)
    else (b, 0)

/-- The loop, with its number of evictions. -/
def trim : MemoryCacheBackend × Nat :=
  if b.maxEntries = 0 then (b, 0)
  else trimLoop o now (b.liveEntries - b.maxEntries).toNat b

def trimToMax : MemoryCacheBackend := (b.trim o now).1

def setMaxEntries (maxEntries : Nat) : MemoryCacheBackend :=
  let prev := b.maxEntries
  let b := { b with maxEntries := maxEntries }
  if maxEntries > 0 ∧ (prev > maxEntries ∨ prev = 0) ∧ b.liveEntries > (maxEntries : Int) then
    b.trimToMax o now
  else b

/-! ## Insert and remove -/

def retain (p : CacheEntry → Bool) (s : Shard) : Shard :=
  ⟨s.entries.filter fun x => p x.2, s.nodupKeys.sublist List.filter_sublist⟩

def retainFresh (i : Nat) : MemoryCacheBackend :=
  let s := retain (·.isFresh now) (b.shard i)
  b.setShard i s (b.liveEntries - ((b.shard i).entries.length - s.entries.length : Nat))

/-- `remove`: an entry is removed by its key, if present. -/
def remove (key : CacheKey) : MemoryCacheBackend × Bool :=
  let i := b.shardIndex hash key
  if ((b.shard i).lookup key).isSome then
    (b.setShard i ((b.shard i).erase key) (b.liveEntries - 1), true)
  else (b, false)

/-- `guard.entries.insert`, with the counter after it. -/
def put (key : CacheKey) (entry : CacheEntry) (live : Int) : MemoryCacheBackend :=
  let i := b.shardIndex hash key
  b.setShard i ((b.shard i).insert key entry) live

/-- The end of an insert: the entry is stored, and what is over the cap is evicted. -/
def store (key : CacheKey) (entry : CacheEntry) (evictions : Nat) :
    MemoryCacheBackend × InsertOutcome :=
  let r := (b.put hash key entry (b.liveEntries + 1)).trim o now
  (r.1, ⟨true, evictions + r.2⟩)

/-- One round of the loop of `insert`: the backend and the evictions so far. -/
def insertRound (key : CacheKey) (entry : CacheEntry) :
    MemoryCacheBackend × Nat →
      Loop.Next (MemoryCacheBackend × Nat) (MemoryCacheBackend × InsertOutcome)
  | (b, evictions) =>
    let i := b.shardIndex hash key
    if ((b.shard i).lookup key).any (·.isFresh now) then
      .done (b.put hash key entry b.liveEntries, ⟨true, evictions⟩)
    else
      -- A stale entry under the key goes first.
      let b := (b.remove hash key).1
      if b.maxEntries = 0 then .done (b.store hash o now key entry evictions)
      else
        let b := b.retainFresh now i
        if b.liveEntries ≥ b.maxEntries then
          match evictOneInShard o now (b.shard i) with
          | some s =>
            .done ((b.setShard i s (b.liveEntries - 1)).store hash o now key entry (evictions + 1))
          | none =>
            match b.evictOneExcluding o now i with
            | none => .again (b, evictions)
            | some b' => .again (b', evictions + 1)
        else .done (b.store hash o now key entry evictions)

/-- `insert`, if its loop is done within the number of rounds. -/
def insert (key : CacheKey) (entry : CacheEntry) (rounds : Nat) :
    Option (MemoryCacheBackend × InsertOutcome) :=
  Loop.run (insertRound hash o now key entry) rounds (b, 0)

/-! ## The reaper -/

/-- The scan of `reap_shard_budgeted`: the keys to remove, and whether the shard is finished. The
clock is sampled at every 64th entry. -/
def reapScan (maxKeys : Nat) (late : Nat → Bool) :
    Nat → List (Σ _ : CacheKey, CacheEntry) → List CacheKey → List CacheKey × Bool
  | _, [], toRemove => (toRemove, true)
  | examined, x :: rest, toRemove =>
    if examined % 64 = 0 && late examined then (toRemove, false)
    else if x.2.isFresh now then reapScan maxKeys late (examined + 1) rest toRemove
    else
      let toRemove := toRemove ++ [x.1]
      if toRemove.length ≥ maxKeys then (toRemove, false)
      else reapScan maxKeys late (examined + 1) rest toRemove

def reapShardBudgeted (maxKeys : Nat) (late : Nat → Bool) (i : Nat) :
    MemoryCacheBackend × Nat × Bool :=
  let r := reapScan now maxKeys late 0 (o.order (b.shard i).entries) []
  let s := r.1.foldl (fun s key => s.erase key) (b.shard i)
  (b.setShard i s (b.liveEntries - r.1.length), r.1.length, r.2)

/-- The loop of `reap_expired_budgeted` over the shards that are left. -/
def reapLoop (maxKeys : Nat) (late : Nat → Nat → Bool) :
    List Nat → MemoryCacheBackend → ReapCursor → Nat →
      MemoryCacheBackend × ReapCursor × ReapOutcome
  | [], b, cursor, removed => (b, cursor, ⟨removed, false⟩)
  | i :: rest, b, _, removed =>
    match b.reapShardBudgeted o now maxKeys (late i) i with
    | (b', n, false) => (b', ⟨i⟩, ⟨removed + n, true⟩)
    | (b', n, true) => reapLoop maxKeys late rest b' ⟨(i + 1) % b.shardCount⟩ (removed + n)

/-- `reap_expired_budgeted`: round robin from the cursor. -/
def reapExpiredBudgeted (maxKeys : Nat) (late : Nat → Nat → Bool) (cursor : ReapCursor) :
    MemoryCacheBackend × ReapCursor × ReapOutcome :=
  let start := cursor.nextShard % b.shardCount
  let idxs := (List.range b.shardCount).map fun offset => (start + offset) % b.shardCount
  reapLoop o now maxKeys late idxs b cursor 0

/-! ## One shard is changed -/

section Shards

variable {b b' b'' : MemoryCacheBackend} {i : Nat} {s : Shard} {live : Int}

theorem getElem?_shards (hi : i < b.shardCount) : b.shards[i]? = some (b.shard i) := by
  have hlt : i < b.shards.length := b.length_shards ▸ hi
  simp [shard, hlt]

theorem shard_setShard (hi : i < b.shardCount) (j : Nat) :
    (b.setShard i s live).shard j = if j = i then s else b.shard j := by
  have hlt : i < b.shards.length := b.length_shards ▸ hi
  by_cases hj : j = i
  · subst hj
    simp [shard, setShard, hlt]
  · simp [shard, setShard, hj, List.getElem?_set_ne (Ne.symm hj)]

theorem total_setShard (hi : i < b.shardCount) (s : Shard) (live : Int) :
    (b.setShard i s live).total + (b.shard i).entries.length = b.total + s.entries.length :=
  Shards.total_set (getElem?_shards hi) s

theorem shardIndex_lt (hash : CacheKey → Nat) (b : MemoryCacheBackend) (key : CacheKey) :
    b.shardIndex hash key < b.shardCount :=
  Nat.mod_lt _ b.shardCount_pos

theorem total_pos (h : 0 < b.total) : ∃ i, i < b.shardCount ∧ (b.shard i).entries ≠ [] := by
  obtain ⟨i, s, hi, hs⟩ := Shards.exists_of_total_pos h
  have hlt : i < b.shards.length := (List.getElem?_eq_some_iff.mp hi).1
  refine ⟨i, b.length_shards ▸ hlt, ?_⟩
  simpa [shard, hi] using List.ne_nil_of_length_pos hs

/-! ## Shedding entries -/

/-- From `b` to `b'` entries were only taken away, and the counter was kept up. -/
structure Sheds (b b' : MemoryCacheBackend) : Prop where
  shardCount : b'.shardCount = b.shardCount
  maxEntries : b'.maxEntries = b.maxEntries
  subset : ∀ i, (b'.shard i).entries ⊆ (b.shard i).entries
  total_le : b'.total ≤ b.total
  live : b'.liveEntries - b'.total = b.liveEntries - b.total

theorem Sheds.refl (b : MemoryCacheBackend) : Sheds b b :=
  ⟨rfl, rfl, fun _ => List.Subset.refl _, Nat.le_refl _, rfl⟩

theorem Sheds.trans (h : Sheds b b') (h' : Sheds b' b'') : Sheds b b'' where
  shardCount := h'.shardCount.trans h.shardCount
  maxEntries := h'.maxEntries.trans h.maxEntries
  subset i := List.Subset.trans (h'.subset i) (h.subset i)
  total_le := h'.total_le.trans h.total_le
  live := h'.live.trans h.live

/-- A shard loses `d` entries, and the counter goes down by `d`. -/
theorem sheds_setShard (hi : i < b.shardCount) {d : Nat} (hsub : s.entries ⊆ (b.shard i).entries)
    (hlen : s.entries.length + d = (b.shard i).entries.length) :
    Sheds b (b.setShard i s (b.liveEntries - d)) := by
  have htotal := total_setShard hi s (b.liveEntries - d)
  refine ⟨rfl, rfl, fun j => ?_, by omega, ?_⟩
  · rw [shard_setShard hi]
    split
    · rename_i hj
      exact hj ▸ hsub
    · exact List.Subset.refl _
  · have hlive : (b.setShard i s (b.liveEntries - d)).liveEntries = b.liveEntries - d := rfl
    rw [hlive]
    omega

variable {key : CacheKey}

theorem length_erase (h : key ∈ s) :
    (s.erase key).entries.length + 1 = s.entries.length := by
  obtain ⟨e, l₁, l₂, -, hl, herase⟩ := List.exists_of_kerase (AList.mem_keys.mp h)
  have hentries : (s.erase key).entries = l₁ ++ l₂ := herase
  rw [hentries, hl]
  simp only [List.length_append, List.length_cons]
  omega

theorem erase_subset (key : CacheKey) : (s.erase key).entries ⊆ s.entries :=
  (List.kerase_sublist key s.entries).subset

theorem sheds_erase (hi : i < b.shardCount) (h : key ∈ b.shard i) :
    Sheds b (b.setShard i ((b.shard i).erase key) (b.liveEntries - 1)) :=
  sheds_setShard (d := 1) hi (erase_subset key) (length_erase h)

/-! ## Eviction sheds entries -/

variable {hash o now}

variable {s' : Shard}

theorem evictOneInShard_some (h : evictOneInShard o now s = some s') :
    ∃ key, key ∈ s ∧ s' = s.erase key := by
  obtain ⟨x, hx, rfl⟩ := Option.map_eq_some_iff.mp h
  refine ⟨x.1, ?_, rfl⟩
  have hmem : x ∈ o.order s.entries := by
    rcases Option.or_eq_some_iff.mp hx with hfind | ⟨-, hhead⟩
    · exact List.mem_of_find?_eq_some hfind
    · exact List.mem_of_head? hhead
  exact AList.mem_keys.mpr (List.mem_keys_of_mem ((o.perm _).mem_iff.mp hmem))

theorem evictOneInShard_none (h : evictOneInShard o now s = none) : s.entries = [] := by
  have hhead := (Option.or_eq_none_iff.mp (Option.map_eq_none_iff.mp h)).2
  have hlen := (o.perm s.entries).length_eq
  rw [List.head?_eq_none_iff.mp hhead] at hlen
  exact List.eq_nil_of_length_eq_zero hlen.symm

theorem evictOneInShard_sheds (hi : i < b.shardCount)
    (h : evictOneInShard o now (b.shard i) = some s') :
    Sheds b (b.setShard i s' (b.liveEntries - 1)) ∧
      (b.setShard i s' (b.liveEntries - 1)).total + 1 = b.total := by
  obtain ⟨key, hkey, rfl⟩ := evictOneInShard_some h
  refine ⟨sheds_erase hi hkey, ?_⟩
  have htotal := total_setShard hi ((b.shard i).erase key) (b.liveEntries - 1)
  have hlen := length_erase hkey
  omega

variable {idxs : List Nat}

theorem evictFirst_sheds (hidxs : ∀ i ∈ idxs, i < b.shardCount)
    (h : b.evictFirst o now idxs = some b') : Sheds b b' ∧ b'.total + 1 = b.total := by
  obtain ⟨i, hi, hb⟩ := List.exists_of_findSome?_eq_some h
  obtain ⟨s', hs', rfl⟩ := Option.map_eq_some_iff.mp hb
  exact evictOneInShard_sheds (hidxs i hi) hs'

theorem evictFirst_none (hidxs : ∀ i, i < b.shardCount → i ∈ idxs)
    (h : b.evictFirst o now idxs = none) : b.total = 0 := by
  by_contra hne
  obtain ⟨i, hi, hs⟩ := total_pos (Nat.pos_of_ne_zero hne)
  have hnone := List.findSome?_eq_none_iff.mp h i (hidxs i hi)
  exact hs (evictOneInShard_none (Option.map_eq_none_iff.mp hnone))

theorem evictOne_sheds (h : b.evictOne o now = some b') : Sheds b b' ∧ b'.total + 1 = b.total :=
  evictFirst_sheds (by simp) h

theorem evictOne_none (h : b.evictOne o now = none) : b.total = 0 :=
  evictFirst_none (by simp) h

theorem evictOneExcluding_sheds (hi : i < b.shardCount)
    (h : b.evictOneExcluding o now i = some b') : Sheds b b' ∧ b'.total + 1 = b.total := by
  refine evictFirst_sheds (fun j hj => ?_) h
  rcases List.mem_append.mp hj with hj | hj
  · exact List.mem_range.mp (List.mem_filter.mp hj).1
  · exact List.mem_singleton.mp hj ▸ hi

theorem evictOneExcluding_none (h : b.evictOneExcluding o now i = none) : b.total = 0 := by
  refine evictFirst_none (fun j hj => ?_) h
  by_cases heq : j = i
  · simp [heq]
  · simp [hj, heq]

theorem trimLoop_sheds (rounds : Nat) (b : MemoryCacheBackend) :
    Sheds b (trimLoop o now rounds b).1 := by
  induction rounds generalizing b with
  | zero => exact .refl b
  | succ rounds ih =>
    unfold trimLoop
    split
    · split
      · exact .refl b
      · rename_i hevict
        exact (evictOne_sheds hevict).1.trans (ih _)
    · exact .refl b

/-- As many rounds as there are entries over the cap leave none over it. -/
theorem trimLoop_total {rounds : Nat} (hlive : b.liveEntries = b.total)
    (hrounds : b.total ≤ b.maxEntries + rounds) :
    (trimLoop o now rounds b).1.total ≤ b.maxEntries := by
  induction rounds generalizing b with
  | zero => exact hrounds
  | succ rounds ih =>
    unfold trimLoop
    split
    · split
      · rename_i hevict
        rw [evictOne_none hevict]
        exact Nat.zero_le _
      · rename_i b' hevict
        obtain ⟨hsheds, htotal⟩ := evictOne_sheds hevict
        have hlive' := hsheds.live
        have hrest := ih (b := b') (by omega) (by rw [hsheds.maxEntries]; omega)
        rw [hsheds.maxEntries] at hrest
        exact hrest
    · dsimp only
      omega

theorem trim_sheds (b : MemoryCacheBackend) : Sheds b (b.trim o now).1 := by
  unfold trim
  split
  · exact .refl b
  · exact trimLoop_sheds _ _

theorem trim_total (hlive : b.liveEntries = b.total) (hmax : 0 < b.maxEntries) :
    (b.trim o now).1.total ≤ b.maxEntries := by
  unfold trim
  rw [if_neg (Nat.ne_of_gt hmax)]
  exact trimLoop_total hlive (by omega)

theorem retainFresh_sheds (hi : i < b.shardCount) : Sheds b (b.retainFresh now i) := by
  have hle := List.length_filter_le (fun x => x.2.isFresh now) (b.shard i).entries
  refine sheds_setShard hi (List.filter_subset_self _) ?_
  simp only [retain]
  omega

theorem remove_sheds (hash : CacheKey → Nat) (b : MemoryCacheBackend) (key : CacheKey) :
    Sheds b (b.remove hash key).1 := by
  unfold remove
  dsimp only
  split
  · rename_i hkey
    exact sheds_erase (shardIndex_lt hash _ key) (AList.lookup_isSome.mp hkey)
  · exact .refl b

theorem remove_not_mem (hash : CacheKey → Nat) (b : MemoryCacheBackend) (key : CacheKey) :
    key ∉ (b.remove hash key).1.shard (b.shardIndex hash key) := by
  unfold remove
  dsimp only
  split
  · rw [shard_setShard (shardIndex_lt hash _ key), if_pos rfl, AList.mem_erase]
    simp
  · rename_i hkey
    exact fun hm => hkey (AList.lookup_isSome.mpr hm)

theorem Sheds.not_mem (h : Sheds b b') (hkey : key ∉ b.shard i) :
    key ∉ b'.shard i :=
  fun hm => hkey (AList.keys_subset_keys_of_entries_subset_entries (h.subset i) hm)

end Shards

/-! ## What holds between operations -/

section Sound

variable {hash o now} {last : CacheKey → Option CacheEntry} {b b' : MemoryCacheBackend}

/-- The counter is the number of entries, and every entry is in the shard of its key and is the last
one inserted under it. -/
structure Kept (hash : CacheKey → Nat) (last : CacheKey → Option CacheEntry)
    (b : MemoryCacheBackend) : Prop where
  live : b.liveEntries = b.total
  held : ∀ i, ∀ x ∈ (b.shard i).entries, b.shardIndex hash x.1 = i ∧ last x.1 = some x.2

/-- Moreover the cap holds. -/
structure Sound (hash : CacheKey → Nat) (last : CacheKey → Option CacheEntry)
    (b : MemoryCacheBackend) : Prop extends Kept hash last b where
  cap : 0 < b.maxEntries → b.total ≤ b.maxEntries

theorem Sheds.kept (h : Sheds b b') (hb : Kept hash last b) : Kept hash last b' where
  live := by
    have hlive := h.live
    have hb := hb.live
    omega
  held i x hx := by
    obtain ⟨hi, hlast⟩ := hb.held i x (h.subset i hx)
    refine ⟨?_, hlast⟩
    rw [shardIndex, h.shardCount]
    exact hi

theorem Sheds.sound (h : Sheds b b') (hb : Sound hash last b) : Sound hash last b' where
  toKept := h.kept hb.toKept
  cap hmax := by
    rw [h.maxEntries] at hmax ⊢
    exact h.total_le.trans (hb.cap hmax)

variable {s : Shard} {key : CacheKey} {entry : CacheEntry}

theorem mem_insert_entries {x : Σ _ : CacheKey, CacheEntry} (h : x ∈ (s.insert key entry).entries) :
    x = ⟨key, entry⟩ ∨ x.1 ≠ key ∧ x ∈ s.entries := by
  rw [AList.entries_insert] at h
  rcases List.mem_cons.mp h with rfl | h
  · exact .inl rfl
  · refine .inr ⟨fun hkey => ?_, (List.kerase_sublist key s.entries).subset h⟩
    have hmem := List.mem_keys_of_mem h
    rw [hkey] at hmem
    exact List.notMem_keys_kerase key s.nodupKeys hmem

theorem held_put (hb : Kept hash last b) (key : CacheKey) (entry : CacheEntry) (live : Int) :
    ∀ j, ∀ x ∈ ((b.put hash key entry live).shard j).entries,
      (b.put hash key entry live).shardIndex hash x.1 = j ∧
        update last key (some entry) x.1 = some x.2 := by
  intro j x hx
  rw [put, shard_setShard (shardIndex_lt hash _ key)] at hx
  split at hx
  · rename_i hj
    rcases mem_insert_entries hx with rfl | ⟨hne, hx⟩
    · exact ⟨hj.symm, update_self ..⟩
    · rw [update_of_ne hne]
      exact hj ▸ hb.held _ x hx
  · rename_i hj
    obtain ⟨hidx, hlast⟩ := hb.held j x hx
    -- The key itself belongs to another shard.
    have hne : x.1 ≠ key := by
      rintro rfl
      exact hj hidx.symm
    rw [update_of_ne hne]
    exact ⟨hidx, hlast⟩

theorem length_insert_of_mem (entry : CacheEntry) (h : key ∈ s) :
    (s.insert key entry).entries.length = s.entries.length := by
  rw [AList.entries_insert]
  exact length_erase h

theorem length_insert_of_notMem (entry : CacheEntry) (h : key ∉ s) :
    (s.insert key entry).entries.length = s.entries.length + 1 := by
  rw [AList.entries_insert_of_notMem h, List.length_cons]

variable {evictions : Nat}

theorem store_sound (hb : Kept hash last b) (hkey : key ∉ b.shard (b.shardIndex hash key)) :
    Sound hash (update last key (some entry))
      (b.store hash o now key entry evictions).1 := by
  have hput : Kept hash (update last key (some entry))
      (b.put hash key entry (b.liveEntries + 1)) := by
    refine ⟨?_, held_put hb key entry _⟩
    have htotal := total_setShard (shardIndex_lt hash b key)
      ((b.shard (b.shardIndex hash key)).insert key entry) (b.liveEntries + 1)
    rw [length_insert_of_notMem entry hkey] at htotal
    have hlive := hb.live
    change b.liveEntries + 1 = ((b.setShard _ _ _).total : Int)
    omega
  have hsheds : Sheds _ (b.store hash o now key entry evictions).1 := trim_sheds _
  refine ⟨hsheds.kept hput, fun hmax => ?_⟩
  rw [hsheds.maxEntries] at hmax ⊢
  exact trim_total hput.live hmax

theorem put_sound (hb : Sound hash last b) (hkey : key ∈ b.shard (b.shardIndex hash key)) :
    Sound hash (update last key (some entry)) (b.put hash key entry b.liveEntries) := by
  have hsame : (b.put hash key entry b.liveEntries).total = b.total := by
    have htotal := total_setShard (shardIndex_lt hash b key)
      ((b.shard (b.shardIndex hash key)).insert key entry) b.liveEntries
    rw [length_insert_of_mem entry hkey] at htotal
    exact Nat.add_right_cancel htotal
  refine ⟨⟨?_, held_put hb.toKept key entry _⟩, fun hmax => ?_⟩
  · rw [hsame]
    exact hb.live
  · rw [hsame]
    exact hb.cap hmax

/-- A new key is stored after entries were shed, its own among them. -/
theorem Sheds.store_sound (h : Sheds b b') (hb : Kept hash last b)
    (hkey : key ∉ b'.shard (b.shardIndex hash key)) :
    Sound hash (update last key (some entry))
      (b'.store hash o now key entry evictions).1 := by
  refine MemoryCacheBackend.store_sound (h.kept hb) ?_
  rw [shardIndex, h.shardCount]
  exact hkey

/-- What a round of an insert leads to: the insert is done and its entry is the last one under the
key, or there is an entry less. -/
def RoundSound (hash : CacheKey → Nat) (last : CacheKey → Option CacheEntry) (key : CacheKey)
    (entry : CacheEntry) (b : MemoryCacheBackend) :
    Loop.Next (MemoryCacheBackend × Nat) (MemoryCacheBackend × InsertOutcome) → Prop
  | .again s => Sound hash last s.1 ∧ s.1.total < b.total
  | .done r => Sound hash (update last key (some entry)) r.1

theorem insertRound_sound (hb : Sound hash last b) (key : CacheKey) (entry : CacheEntry)
    (evictions : Nat) :
    RoundSound hash last key entry b (insertRound hash o now key entry (b, evictions)) := by
  have hi := shardIndex_lt hash b key
  simp only [insertRound]
  split
  · -- a fresh entry is replaced
    rename_i hfresh
    exact put_sound hb (AList.lookup_isSome.mp (Option.isSome_of_any hfresh))
  have hremove := remove_sheds hash b key
  have hnew := remove_not_mem hash b key
  split
  · -- no cap
    exact hremove.store_sound hb.toKept hnew
  rename_i hcap
  have hi' : b.shardIndex hash key < (b.remove hash key).1.shardCount := hremove.shardCount ▸ hi
  have hfresh : Sheds _ ((b.remove hash key).1.retainFresh now (b.shardIndex hash key)) :=
    retainFresh_sheds hi'
  have hretain := hremove.trans hfresh
  split
  · rename_i hfull
    split
    · -- room in the shard of the key
      rename_i hevict
      have hsheds := (evictOneInShard_sheds (hfresh.shardCount ▸ hi') hevict).1
      exact (hretain.trans hsheds).store_sound hb.toKept (hsheds.not_mem (hfresh.not_mem hnew))
    · split
      · -- at the cap the cache is not empty
        rename_i hnone
        have hlive := (hretain.kept hb.toKept).live
        have hzero := evictOneExcluding_none hnone
        have hmax := hfresh.maxEntries
        omega
      · rename_i hevict
        obtain ⟨hsheds, htotal⟩ := evictOneExcluding_sheds (hfresh.shardCount ▸ hi') hevict
        have hle := hretain.total_le
        exact ⟨(hretain.trans hsheds).sound hb, Nat.lt_of_lt_of_le (Nat.lt_of_succ_le htotal.le) hle⟩
  · exact hretain.store_sound hb.toKept (hfresh.not_mem hnew)

theorem insert_keeps (hash : CacheKey → Nat) (o : IterOrder) (now : Nat)
    (last : CacheKey → Option CacheEntry) (key : CacheKey) (entry : CacheEntry) :
    Loop.Keeps (insertRound hash o now key entry) (fun s => Sound hash last s.1) (·.1.total)
      (fun r => Sound hash (update last key (some entry)) r.1) where
  again s s' hs h := by
    have hround : RoundSound hash last key entry s.1 (insertRound hash o now key entry s) :=
      insertRound_sound hs key entry s.2
    rw [h] at hround
    exact hround
  done s r hs h := by
    have hround : RoundSound hash last key entry s.1 (insertRound hash o now key entry s) :=
      insertRound_sound hs key entry s.2
    rw [h] at hround
    exact hround

theorem setMaxEntries_sound (hb : Sound hash last b) (maxEntries : Nat) :
    Sound hash last (b.setMaxEntries o now maxEntries) := by
  have hkept : Kept hash last { b with maxEntries := maxEntries } := ⟨hb.live, hb.held⟩
  unfold setMaxEntries
  dsimp only
  split
  · rename_i hlower
    have hsheds : Sheds _ (trimToMax o now { b with maxEntries := maxEntries }) := trim_sheds _
    refine ⟨hsheds.kept hkept, fun _ => ?_⟩
    rw [hsheds.maxEntries]
    exact trim_total hkept.live hlower.1
  · rename_i hkeep
    refine ⟨hkept, fun hmax => ?_⟩
    have hlive := hb.live
    change b.total ≤ maxEntries
    change 0 < maxEntries at hmax
    -- A cap that is not lowered holds because the one before did.
    by_contra hover
    have hprev : ¬(b.maxEntries > maxEntries ∨ b.maxEntries = 0) := fun h =>
      hkeep ⟨hmax, h, by rw [hlive]; omega⟩
    have hcap := hb.cap (by omega)
    omega

/-! ## The reaper -/

/-- The scan takes keys of the entries that it has not yet examined, each once. -/
theorem reapScan_sublist (now maxKeys : Nat) (late : Nat → Bool) (examined : Nat)
    (entries : List (Σ _ : CacheKey, CacheEntry)) (toRemove : List CacheKey) :
    ∃ keys, (reapScan now maxKeys late examined entries toRemove).1 = toRemove ++ keys ∧
      keys.Sublist entries.keys := by
  induction entries generalizing examined toRemove with
  | nil => exact ⟨[], by simp [reapScan], List.nil_sublist _⟩
  | cons x rest ih =>
    unfold reapScan
    split
    · exact ⟨[], by simp, List.nil_sublist _⟩
    · split
      · obtain ⟨keys, hkeys, hsub⟩ := ih (examined + 1) toRemove
        exact ⟨keys, hkeys, hsub.cons _⟩
      · dsimp only
        split
        · exact ⟨[x.1], rfl, (List.nil_sublist _).cons_cons _⟩
        · obtain ⟨keys, hkeys, hsub⟩ := ih (examined + 1) (toRemove ++ [x.1])
          exact ⟨x.1 :: keys, by rw [hkeys]; simp, hsub.cons_cons _⟩

theorem eraseAll_spec {keys : List CacheKey} (hnodup : keys.Nodup) (hkeys : ∀ key ∈ keys, key ∈ s) :
    (keys.foldl (fun s key => s.erase key) s).entries ⊆ s.entries ∧
      (keys.foldl (fun s key => s.erase key) s).entries.length + keys.length =
        s.entries.length := by
  induction keys generalizing s with
  | nil => exact ⟨List.Subset.refl _, rfl⟩
  | cons key keys ih =>
    obtain ⟨hnot, hnodup⟩ := List.nodup_cons.mp hnodup
    obtain ⟨hkey, hkeys⟩ := List.forall_mem_cons.mp hkeys
    have hrest : ∀ k ∈ keys, k ∈ s.erase key := fun k hk =>
      AList.mem_erase.mpr ⟨fun heq => hnot (heq ▸ hk), hkeys k hk⟩
    obtain ⟨hsub, hlen⟩ := ih hnodup hrest
    have herase := length_erase hkey
    refine ⟨List.Subset.trans hsub (erase_subset key), ?_⟩
    simp only [List.foldl_cons, List.length_cons]
    omega

theorem reapShardBudgeted_sheds (maxKeys : Nat) (late : Nat → Bool) {i : Nat}
    (hi : i < b.shardCount) : Sheds b (b.reapShardBudgeted o now maxKeys late i).1 := by
  obtain ⟨keys, hkeys, hsub⟩ :=
    reapScan_sublist now maxKeys late 0 (o.order (b.shard i).entries) []
  have hperm : (o.order (b.shard i).entries).keys.Perm (b.shard i).keys :=
    (o.perm (b.shard i).entries).map _
  have hnodup : keys.Nodup := hsub.nodup (hperm.nodup_iff.mpr (b.shard i).keys_nodup)
  have hmem : ∀ key ∈ keys, key ∈ b.shard i := fun key hkey =>
    AList.mem_keys.mpr (hperm.mem_iff.mp (hsub.subset hkey))
  obtain ⟨hentries, hlen⟩ := eraseAll_spec hnodup hmem
  rw [List.nil_append] at hkeys
  simp only [reapShardBudgeted, hkeys]
  exact sheds_setShard hi hentries hlen

theorem reapLoop_sheds (maxKeys : Nat) (late : Nat → Nat → Bool) {idxs : List Nat}
    (hidxs : ∀ i ∈ idxs, i < b.shardCount) (cursor : ReapCursor) (removed : Nat) :
    Sheds b (reapLoop o now maxKeys late idxs b cursor removed).1 := by
  induction idxs generalizing b cursor removed with
  | nil => exact .refl b
  | cons i rest ih =>
    obtain ⟨hi, hrest⟩ := List.forall_mem_cons.mp hidxs
    have hsheds : Sheds b (b.reapShardBudgeted o now maxKeys (late i) i).1 :=
      reapShardBudgeted_sheds maxKeys (late i) hi
    unfold reapLoop
    split
    · rename_i hreap
      rw [hreap] at hsheds
      exact hsheds
    · rename_i hreap
      rw [hreap] at hsheds
      exact hsheds.trans (ih (fun j hj => hsheds.shardCount ▸ hrest j hj) _ _)

theorem reapExpiredBudgeted_sheds (maxKeys : Nat) (late : Nat → Nat → Bool) (cursor : ReapCursor) :
    Sheds b (b.reapExpiredBudgeted o now maxKeys late cursor).1 := by
  refine reapLoop_sheds maxKeys late (fun i hi => ?_) cursor 0
  obtain ⟨offset, -, rfl⟩ := List.mem_map.mp hi
  exact Nat.mod_lt _ b.shardCount_pos

theorem fromConfig_sound (hash : CacheKey → Nat) (shardCount maxEntries : Nat) :
    Sound hash (fun _ => none) (fromConfig shardCount maxEntries) := by
  have htotal : (fromConfig shardCount maxEntries).total = 0 := by
    simp [total, Shards.total, fromConfig]
  have hshard : ∀ i, (fromConfig shardCount maxEntries).shard i = ∅ := by
    intro i
    unfold shard fromConfig
    rw [List.getElem?_replicate]
    split <;> rfl
  refine ⟨⟨by rw [htotal]; rfl, fun i x hx => ?_⟩, fun _ => by rw [htotal]; exact Nat.zero_le _⟩
  rw [hshard] at hx
  cases hx

/-- A lookup finds the last entry inserted under its key, if it is fresh. -/
theorem get_sound (hb : Kept hash last b) {e : CacheEntry} (h : b.get hash now key = some e) :
    last key = some e ∧ e.isFresh now = true := by
  obtain ⟨hlookup, hfresh⟩ := Option.filter_eq_some_iff.mp h
  have hmem := AList.mem_lookup_iff.mp hlookup
  exact ⟨(hb.held _ _ hmem).2, hfresh⟩

end Sound

end MemoryCacheBackend

/-! ## The operations, one after the other -/

/-- A backend, and the entry last inserted under each key. -/
structure MemoryState where
  backend : MemoryCacheBackend
  last : CacheKey → Option CacheEntry := fun _ => none

inductive MemoryAct where
  /-- An insert that returns within the number of rounds. -/
  | insert (o : IterOrder) (now : Nat) (key : CacheKey) (entry : CacheEntry) (rounds : Nat)
  | get (now : Nat) (key : CacheKey)
  | remove (key : CacheKey)
  | setMaxEntries (o : IterOrder) (now maxEntries : Nat)
  | trimToMax (o : IterOrder) (now : Nat)
  | reapExpiredBudgeted (o : IterOrder) (now maxKeys : Nat) (late : Nat → Nat → Bool)
      (cursor : ReapCursor)

def memoryStep (hash : CacheKey → Nat) (s : MemoryState) : MemoryAct → Option MemoryState
  | .insert o now key entry rounds =>
    (s.backend.insert hash o now key entry rounds).map fun r =>
      ⟨r.1, update s.last key (some entry)⟩
  | .get _ _ => some s
  | .remove key => some { s with backend := (s.backend.remove hash key).1 }
  | .setMaxEntries o now maxEntries =>
    some { s with backend := s.backend.setMaxEntries o now maxEntries }
  | .trimToMax o now => some { s with backend := s.backend.trimToMax o now }
  | .reapExpiredBudgeted o now maxKeys late cursor =>
    some { s with backend := (s.backend.reapExpiredBudgeted o now maxKeys late cursor).1 }

/-- A backend from any configuration, and the operations on it. -/
def memoryCache (hash : CacheKey → Nat) : Lts where
  St := MemoryState
  Act := MemoryAct
  init s := ∃ shardCount maxEntries,
    s = { backend := .fromConfig shardCount maxEntries }
  step := memoryStep hash

open MemoryCacheBackend in
theorem memoryStep_sound {hash : CacheKey → Nat} {s s' : MemoryState} {a : MemoryAct}
    (hs : Sound hash s.last s.backend) (h : memoryStep hash s a = some s') :
    Sound hash s'.last s'.backend := by
  cases a with
  | insert o now key entry rounds =>
    obtain ⟨r, hr, rfl⟩ := Option.map_eq_some_iff.mp h
    exact (insert_keeps hash o now s.last key entry).post hs hr
  | get now key =>
    cases h
    exact hs
  | remove key =>
    cases h
    exact (remove_sheds hash s.backend key).sound hs
  | setMaxEntries o now maxEntries =>
    cases h
    exact setMaxEntries_sound hs maxEntries
  | trimToMax o now =>
    cases h
    exact (trim_sheds s.backend).sound hs
  | reapExpiredBudgeted o now maxKeys late cursor =>
    cases h
    exact (reapExpiredBudgeted_sheds maxKeys late cursor).sound hs

open MemoryCacheBackend in
theorem memory_sound {hash : CacheKey → Nat} {s : MemoryState}
    (h : (memoryCache hash).Reach Lts.Any s) : Sound hash s.last s.backend := by
  refine Lts.Reach.inv (P := fun s : (memoryCache hash).St => Sound hash s.last s.backend) ?_ ?_ h
  · rintro s ⟨shardCount, maxEntries, rfl⟩
    exact fromConfig_sound hash shardCount maxEntries
  · intro s a s' _ hs _ hstep
    exact memoryStep_sound hs hstep

open MemoryCacheBackend in
/-- After every sequence of operations the counter is the number of entries; with a cap there are no
more entries than it says; every insert comes to an end; and a lookup finds nothing, or the entry
last inserted under its key, which is fresh. -/
theorem memory_correct (hash : CacheKey → Nat) {s : MemoryState}
    (h : (memoryCache hash).Reach Lts.Any s) :
    s.backend.liveEntries = s.backend.total ∧
    (0 < s.backend.maxEntries → s.backend.total ≤ s.backend.maxEntries) ∧
    (∀ o now key entry, ∃ r n, ∀ rounds, n < rounds →
      s.backend.insert hash o now key entry rounds = some r) ∧
    ∀ now key e, s.backend.get hash now key = some e → s.last key = some e ∧ e.isFresh now = true := by
  have hs := memory_sound h
  refine ⟨hs.live, hs.cap, fun o now key entry => ?_, fun now key e hget => get_sound hs.toKept hget⟩
  obtain ⟨r, hr⟩ := (insert_keeps hash o now s.last key entry).returns (s := (s.backend, 0)) hs
  exact ⟨r, _, hr⟩

/-- A hash for the examples: the first byte. -/
def sampleHash (key : CacheKey) : Nat := (key.headD 0).toNat

/-- Two shards and a cap of one: the second insert evicts the entry of the other shard. -/
def sampleInserts : List MemoryAct :=
  [.insert .same 0 [0] ⟨.positive, [7], 0, 9⟩ 1, .insert .same 1 [1] ⟨.positive, [8], 1, 9⟩ 2]

theorem memory_correct_sample : ∃ s : MemoryState,
    s.backend.shardCount = 2 ∧ s.backend.total = 1 ∧ s.backend.liveEntries = s.backend.total ∧
    s.backend.get sampleHash 2 [1] = some ⟨.positive, [8], 1, 9⟩ ∧
    s.last [1] = some ⟨.positive, [8], 1, 9⟩ := by
  obtain ⟨s, hreach, hcount, htotal, hget⟩ := Lts.exists_exec (L := memoryCache sampleHash) Lts.Any
    (s := { backend := .fromConfig 2 1 }) sampleInserts
    (fun s => s.backend.shardCount = 2 ∧ s.backend.total = 1 ∧
      s.backend.get sampleHash 2 [1] = some ⟨.positive, [8], 1, 9⟩) ⟨2, 1, rfl⟩ (by decide +kernel)
  have h := memory_correct sampleHash hreach
  exact ⟨s, hcount, htotal, h.1, hget, (h.2.2.2 _ _ _ hget).1⟩

end Conduit
