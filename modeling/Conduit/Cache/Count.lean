import Conduit.Cache.Lmdb
import Conduit.Cache.Value
import Conduit.Lib.Db

/-!
# The entry counts of an LMDB backend

The entries of an LMDB backend (`lookup/cache/lmdb.rs`): each shard is an environment with a
database of entries and, beside it, their number under `META_COUNT_KEY`. A call is a program whose
operations are the transactions of one environment; a read transaction sees one state of it, a write
transaction is atomic, and between two of them other calls run.

An environment may answer a transaction with an error (`LmdbIo`), which leaves it as it was. A count
is a number without bounds: 2^64 entries do not fit into a map.

- `LmdbEnv`: the entries and the count of a shard.
- `LmdbOp`, `LmdbEnvs.perform`: the transactions.
- `insertInner`, `removeEntry`, `getResult`, `clearAllEntries`: the calls.
- `LmdbStore`, `lmdbCalls`: the calls on a backend, interleaved.
- `entry_counts_exact`: every count is the number of entries, when no other call comes between an
  insert's or an eviction's decision about a key and its write.
-/

namespace Conduit

open Function (update update_of_ne update_self)

/-- A shard's environment: its entries in the order of their keys, and `META_COUNT_KEY`. -/
structure LmdbEnv where
  entries : Db CacheKey LmdbValue := .empty
  count : Nat := 0

namespace LmdbEnv

/-- Put an entry and, if it is counted as new, bump the count. -/
def put (e : LmdbEnv) (key : CacheKey) (value : LmdbValue) (replacing : Bool) : LmdbEnv where
  entries := e.entries.put (fun a b => a < b) key value
  count := if replacing then e.count else e.count + 1

/-- Delete an entry and bump the count down. -/
def delete (e : LmdbEnv) (key : CacheKey) : LmdbEnv where
  entries := e.entries.delete key
  count := e.count - 1

def Exact (e : LmdbEnv) : Prop := e.count = e.entries.size

end LmdbEnv

/-! ## Victims -/

/-- The entry that expires first of those seen, with the time it does. -/
def sooner (best : Option (Nat × CacheKey)) (expires : Nat) (key : CacheKey) :
    Option (Nat × CacheKey) :=
  match best with
  | none => some (expires, key)
  | some (e, k) => if expires < e then some (expires, key) else some (e, k)

/-- The loop of `evict_from_sample` over the rows of the cursor, with `left` more to see. -/
def sampleVictim (nowUnix : Nat) :
    Nat → Option (Nat × CacheKey) → List (CacheKey × LmdbValue) → Option CacheKey
  | 0, soon, _ | _, soon, [] => soon.map (·.2)
  | left + 1, soon, (key, value) :: rows =>
    match decodeValue value with
    | .error _ => sampleVictim nowUnix left soon rows
    | .ok stored =>
      if nowUnix ≥ stored.expiresAtUnix then some key
      else sampleVictim nowUnix left (sooner soon stored.expiresAtUnix key) rows

/-! ## Transactions -/

/-- The result of the put of an insert's write transaction. -/
inductive PutResult where
  | stored | mapFull | failed
  deriving DecidableEq, Repr

inductive LmdbOp where
  | loadCap (i : Nat)
  | loadPolicy
  | unixNow
  /-- `shard_key_exists`. -/
  | keyExists (i : Nat) (key : CacheKey)
  /-- `shard_entry_count`. -/
  | entryCount (i : Nat)
  /-- The read transaction of a lookup. -/
  | read (i : Nat) (key : CacheKey)
  /-- The read transaction of `evict_from_sample`. -/
  | sample (i sampleSize nowUnix : Nat)
  /-- The write transaction of `evict_from_sample`. -/
  | deleteVictim (i : Nat) (key : CacheKey)
  /-- `evict_one_arbitrary`, a write transaction. -/
  | evictOneArbitrary (i : Nat)
  /-- The write transaction of `insert_inner`. -/
  | put (i : Nat) (key : CacheKey) (value : LmdbValue) (replacing : Bool)
  /-- The write transaction of `remove`. -/
  | remove (i : Nat) (key : CacheKey)
  /-- `clear_shard_entries`, a write transaction. -/
  | clear (i : Nat)

/-- What the operations answer; `none` and `false` also stand for an error. -/
abbrev LmdbOp.Resp : LmdbOp → Type
  | .loadCap _ | .unixNow | .entryCount _ => Nat
  | .loadPolicy => LmdbPolicy
  | .keyExists _ _ | .evictOneArbitrary _ => Option Bool
  | .read _ _ => Option StoredEntry
  | .sample _ _ _ => Option (Option CacheKey)
  | .deleteVictim _ _ | .remove _ _ | .clear _ => Bool
  | .put _ _ _ _ => PutResult

/-- What LMDB answers a transaction. -/
inductive LmdbIo where
  | ok | mapFull | failed
  deriving DecidableEq, Repr

/-- The environments of the shards. -/
abbrev LmdbEnvs := Nat → LmdbEnv

namespace LmdbEnvs

def has (envs : LmdbEnvs) (i : Nat) (key : CacheKey) : Bool := (envs i).entries.has key

/-- The environments after an operation, and its answer. -/
def perform (backend : LmdbCacheBackend) (io : LmdbIo) (nowUnix : Nat) (envs : LmdbEnvs) :
    (o : LmdbOp) → LmdbEnvs × o.Resp
  | .loadCap i => (envs, backend.shardMaxEntries[i]?.getD 0)
  | .loadPolicy => (envs, backend.policy)
  | .unixNow => (envs, nowUnix)
  | .keyExists i key => (envs, if io = .ok then some (envs.has i key) else none)
  | .entryCount i => (envs, if io = .ok then (envs i).count else 0)
  | .read i key =>
    (envs, if io = .ok then ((envs i).entries.get key).bind (decodeValue · |>.toOption) else none)
  | .sample i size now =>
    (envs, if io = .ok then some (sampleVictim now size none (envs i).entries.rows) else none)
  | .deleteVictim i key =>
    -- the victim is deleted if it is still there, and counted in any case
    if io = .ok then (update envs i ((envs i).delete key), true) else (envs, false)
  | .evictOneArbitrary i =>
    if io = .ok then
      match (envs i).entries.first with
      | none => (envs, some false)
      | some row => (update envs i ((envs i).delete row.1), some true)
    else (envs, none)
  | .put i key value replacing =>
    match io with
    | .ok => (update envs i ((envs i).put key value replacing), .stored)
    | .mapFull => (envs, .mapFull)
    | .failed => (envs, .failed)
  | .remove i key =>
    if io = .ok && envs.has i key then (update envs i ((envs i).delete key), true)
    else (envs, false)
  | .clear i => if io = .ok then (update envs i {}, true) else (envs, false)

end LmdbEnvs

/-! ## Calls -/

abbrev LmdbProg := Prog LmdbOp LmdbOp.Resp

/-- One operation. -/
def transact (o : LmdbOp) : LmdbProg o.Resp := .call o

/-- `evict_victim`; `none` is an error. -/
def evictVictim (i : Nat) (policy : LmdbPolicy) : LmdbProg (Option Bool) :=
  match policy.whenFull with
  | .refuse => return some false
  | .evictOne => transact (.evictOneArbitrary i)
  | .sample => do
    let nowUnix ← transact .unixNow
    match ← transact (.sample i (max policy.sampleSize 1) nowUnix) with
    | none => return none
    | some none => return some false
    | some (some victim) =>
      let deleted ← transact (.deleteVictim i victim)
      return if deleted then some true else none

/-- The part of `insert_inner` before the write: is there room, and what was evicted for it. -/
def makeRoom (i max : Nat) (policy : LmdbPolicy) (replacing : Bool) :
    LmdbProg (Option Bool × Nat) :=
  if max > 0 && !replacing then do
    let count ← transact (.entryCount i)
    if count ≥ max then
      match policy.whenFull with
      | .refuse => return (some false, 0)
      | .evictOne | .sample =>
        match ← evictVictim i policy with
        | some true => return (some true, 1)
        | r => return (r, 0)
    else return (some true, 0)
  else return (some true, 0)

/-- `insert_inner`, which is called `again` once when the map is full. -/
def insertOnce (i : Nat) (key : CacheKey) (entry : CacheEntry) (now : Nat)
    (again : Option (Nat → LmdbProg (Option Bool × Nat))) (evictions : Nat) :
    LmdbProg (Option Bool × Nat) := do
  let max ← transact (.loadCap i)
  let policy ← transact .loadPolicy
  match ← transact (.keyExists i key) with
  | none => return (none, evictions)
  | some replacing =>
    match ← makeRoom i max policy replacing with
    | (some true, n) =>
      let nowUnix ← transact .unixNow
      match ← transact (.put i key (encodeEntry entry now nowUnix) replacing) with
      | .stored => return (some true, evictions + n)
      | .failed => return (none, evictions + n)
      | .mapFull =>
        match policy.whenFull, again with
        | .refuse, _ | _, none => return (some false, evictions + n)
        | _, some again =>
          match ← evictVictim i policy with
          | some true => again (evictions + n + 1)
          | r => return (r, evictions + n)
    | (r, n) => return (r, evictions + n)

def insertInner (i : Nat) (key : CacheKey) (entry : CacheEntry) (now : Nat) :
    Nat → Nat → LmdbProg (Option Bool × Nat)
  | 0 => insertOnce i key entry now none
  | retries + 1 => insertOnce i key entry now (some (insertInner i key entry now retries))

/-- `insert`: an error is reported as not stored. -/
def insertEntry (i : Nat) (key : CacheKey) (entry : CacheEntry) (now : Nat) :
    LmdbProg InsertOutcome := do
  let (stored, evictions) ← insertInner i key entry now 1 0
  return ⟨stored.getD false, evictions⟩

def removeEntry (i : Nat) (key : CacheKey) : LmdbProg Bool := transact (.remove i key)

/-- `get_fresh`: an expired entry is removed. -/
def getFresh (i : Nat) (key : CacheKey) : LmdbProg (Option StoredEntry) := do
  match ← transact (.read i key) with
  | none => return none
  | some stored =>
    let nowUnix ← transact .unixNow
    if nowUnix ≥ stored.expiresAtUnix then
      let _ ← removeEntry i key
      return none
    else return some stored

/-- `get`: `get_result`, which removes an expired entry, and on a hit `get_fresh`. -/
def getEntry (i : Nat) (key : CacheKey) : LmdbProg (Option StoredEntry) := do
  match ← getFresh i key with
  | none => return none
  | some _ => getFresh i key

/-- `clear_all_entries`, up to the first error. -/
def clearAllEntries : List Nat → LmdbProg Bool
  | [] => return true
  | i :: shards => do
    if ← transact (.clear i) then clearAllEntries shards else return false

/-- `evict_one_arbitrary_any_shard`; `none` is an error. -/
def evictOneArbitraryAnyShard : List Nat → LmdbProg (Option Bool)
  | [] => return some false
  | i :: shards => do
    match ← transact (.evictOneArbitrary i) with
    | some false => evictOneArbitraryAnyShard shards
    | r => return r

inductive LmdbCall where
  | insert (key : CacheKey) (entry : CacheEntry) (now : Nat)
  | remove (key : CacheKey)
  | get (key : CacheKey)
  | clear
  /-- An eviction of `shrink_map_size`. -/
  | evict

/-- The program of a call, on a backend of `n` shards. -/
def LmdbCall.prog (hash : CacheKey → Nat) (n : Nat) : LmdbCall → LmdbProg Unit
  | .insert key entry now => do let _ ← insertEntry (hash key % n) key entry now
  | .remove key => do let _ ← removeEntry (hash key % n) key
  | .get key => do let _ ← getEntry (hash key % n) key
  | .clear => do let _ ← clearAllEntries (List.range n)
  | .evict => do let _ ← evictOneArbitraryAnyShard (List.range n)

/-! ## The system -/

structure LmdbStore where
  backend : LmdbCacheBackend
  envs : LmdbEnvs := fun _ => {}
  calls : List (LmdbProg Unit) := []

inductive LmdbAct where
  | start (c : LmdbCall)
  /-- The next operation of the call `w`. -/
  | run (w : Nat) (io : LmdbIo) (nowUnix : Nat)
  | setMaxEntries (n : Nat)
  | applyPolicy (whenFull : LmdbWhenFull) (sampleSize : Nat)

namespace LmdbStore

/-- The state after the next operation of the call `w`. -/
def ran (s : LmdbStore) (w : Nat) (x : LmdbEnvs × LmdbProg Unit) : LmdbStore :=
  { s with envs := x.1, calls := s.calls.set w x.2 }

def step (hash : CacheKey → Nat) (s : LmdbStore) : LmdbAct → Option LmdbStore
  | .start c => some { s with calls := s.calls ++ [c.prog hash s.backend.shardCount] }
  | .run w io nowUnix =>
    match s.calls[w]? with
    | some (.op o k) =>
      let r := s.envs.perform s.backend io nowUnix o
      some (s.ran w (r.1, k r.2))
    | some (.ret _) | none => none
  | .setMaxEntries n => some { s with backend := s.backend.setMaxEntries n }
  | .applyPolicy whenFull size => some { s with backend := s.backend.applyPolicy whenFull size }

end LmdbStore

/-- The calls on one backend; at the start the counts are exact. -/
abbrev lmdbCalls (hash : CacheKey → Nat) : Lts where
  St := LmdbStore
  Act := LmdbAct
  init s := s.calls = [] ∧ ∀ i, (s.envs i).Exact
  step := LmdbStore.step hash

/-! ## Decisions -/

/-- What a call has decided about keys and not yet written: whether a put replaces an entry, and the
victim of a sample. -/
structure Decisions where
  /-- The shard, the key and whether it was there. -/
  replacing : Option (Nat × CacheKey × Bool) := none
  victim : Option (Nat × CacheKey) := none

namespace Decisions

def keys (h : Decisions) : List (Nat × CacheKey) :=
  (h.replacing.map fun d => (d.1, d.2.1)).toList ++ h.victim.toList

/-- The decisions after an operation. -/
def next (h : Decisions) : (o : LmdbOp) → o.Resp → Decisions
  | .keyExists i key, r => { h with replacing := r.map fun b => (i, key, b) }
  | .sample i _ _, r => { h with victim := r.join.map fun key => (i, key) }
  | .deleteVictim _ _, _ => { h with victim := none }
  | .put _ _ _ _, _ => { h with replacing := none }
  | .loadCap _, _ | .loadPolicy, _ | .unixNow, _ | .entryCount _, _ | .read _ _, _
  | .evictOneArbitrary _, _ | .remove _ _, _ | .clear _, _ => h

end Decisions

/-- The operation adds or removes the entry of the key. -/
def LmdbOp.changes (envs : LmdbEnvs) (io : LmdbIo) (o : LmdbOp) (i : Nat) (key : CacheKey) : Bool :=
  io = .ok && match o with
    | .put j k _ _ => j = i && k = key && !envs.has i key
    | .remove j k | .deleteVictim j k => j = i && k = key && envs.has i key
    | .evictOneArbitrary j => j = i && (envs i).entries.first.map (·.1) = some key
    | .clear j => j = i && envs.has i key
    | .loadCap _ | .loadPolicy | .unixNow | .entryCount _ | .read _ _ | .sample _ _ _
    | .keyExists _ _ => false

/-- The calls, with the decisions of each. -/
abbrev lmdbDecisions (hash : CacheKey → Nat) : Lts :=
  (lmdbCalls hash).record (fun _ => {} : Nat → Decisions) fun s a h =>
    match a with
    | .run w io nowUnix =>
      match s.calls[w]? with
      | some (.op o k) =>
        let r := (s.envs.perform s.backend io nowUnix o).2
        -- a call that returns has no decisions any more
        update h w (match k r with | .ret _ => {} | .op _ _ => (h w).next o r)
      | some (.ret _) | none => h
    | .start _ | .setMaxEntries _ | .applyPolicy _ _ => h

def LmdbStore.nextOp (s : LmdbStore) (w : Nat) : Option LmdbOp :=
  match s.calls[w]? with
  | some (.op o _) => some o
  | some (.ret _) | none => none

/-- No other call adds or removes an entry between the decision of a call about its key and the
write. -/
def KeysUndisturbed {hash : CacheKey → Nat} (x : (lmdbDecisions hash).St) : LmdbAct → Prop
  | .run w io _ => ∀ o ∈ x.1.nextOp w, ∀ w' < x.1.calls.length, w' ≠ w → ∀ p ∈ (x.2 w').keys,
      o.changes x.1.envs io p.1 p.2 = false
  | .start _ | .setMaxEntries _ | .applyPolicy _ _ => True

instance {hash : CacheKey → Nat} (x : (lmdbDecisions hash).St) :
    (a : LmdbAct) → Decidable (KeysUndisturbed x a)
  | .run w _ _ =>
    match h : x.1.nextOp w with
    | none => .isTrue fun o ho => by rw [h] at ho; cases ho
    | some _ => decidable_of_iff (∀ w' < x.1.calls.length, w' ≠ w → ∀ p ∈ (x.2 w').keys, _)
        ⟨fun hall o ho => by rw [h] at ho; cases ho; exact hall, fun hall => hall _ h⟩
  | .start _ | .setMaxEntries _ | .applyPolicy _ _ => .isTrue trivial

/-! ## One operation -/

namespace Decisions

structure Hold (envs : LmdbEnvs) (h : Decisions) : Prop where
  replacing : ∀ i key b, h.replacing = some (i, key, b) → envs.has i key = b
  victim : ∀ i key, h.victim = some (i, key) → envs.has i key = true

/-- A put that was decided adds an entry. -/
def Adds (h : Decisions) : Prop := ∀ i key b, h.replacing = some (i, key, b) → b = false

variable {envs : LmdbEnvs} {h : Decisions}

theorem Hold.absent (hh : h.Hold envs) (hadds : h.Adds) {i : Nat} {key : CacheKey} {b : Bool}
    (hr : h.replacing = some (i, key, b)) :
    envs.has i key = false := by
  rw [hh.replacing i key b hr]
  exact hadds i key b hr

theorem hold_empty (envs : LmdbEnvs) : Hold envs {} := ⟨nofun, nofun⟩

theorem Hold.of_keys {envs' : LmdbEnvs} (hh : h.Hold envs)
    (hk : ∀ p ∈ h.keys, envs'.has p.1 p.2 = envs.has p.1 p.2) : h.Hold envs' := by
  refine ⟨fun i key b hr => ?_, fun i key hv => ?_⟩
  · rw [hk (i, key) (by simp [keys, hr])]
    exact hh.replacing i key b hr
  · rw [hk (i, key) (by simp [keys, hv])]
    exact hh.victim i key hv

end Decisions

/-- The operations that a call performs, by its decisions. -/
def countProto : Proto LmdbOp LmdbOp.Resp Decisions where
  ok h
    | .put i key _ b => h.replacing = some (i, key, b)
    | .deleteVictim i key => h.victim = some (i, key) ∧ h.Adds
    | .evictOneArbitrary _ => h.victim = none ∧ h.Adds
    | .remove _ _ | .clear _ => h = {}
    | .loadCap _ | .loadPolicy | .unixNow | .entryCount _ | .read _ _ | .sample _ _ _
    | .keyExists _ _ => True
  may _ _ _ := True
  next := Decisions.next

namespace LmdbEnv

variable {e : LmdbEnv}

theorem Exact.put (h : e.Exact) (key : CacheKey) (value : LmdbValue) :
    (e.put key value (e.entries.has key)).Exact := by
  simp only [Exact, LmdbEnv.put, Db.size_put]
  rw [h]

theorem Exact.delete (h : e.Exact) {key : CacheKey} (hk : e.entries.has key = true) :
    (e.delete key).Exact := by
  simp only [Exact, LmdbEnv.delete, Db.size_delete, if_pos hk]
  rw [h]

end LmdbEnv

namespace LmdbEnvs

variable {envs : LmdbEnvs} {backend : LmdbCacheBackend} {io : LmdbIo} {nowUnix : Nat}

variable {i : Nat}

theorem exact_update (h : ∀ i, (envs i).Exact) {e : LmdbEnv} (he : e.Exact) (j : Nat) :
    (update envs i e j).Exact := by
  by_cases hj : j = i
  · subst hj
    rwa [update_self]
  · rw [update_of_ne hj]
    exact h j

variable {o : LmdbOp} {h : Decisions}

theorem exact_perform (hh : h.Hold envs) (hexact : ∀ i, (envs i).Exact) (hok : countProto.ok h o)
    (j : Nat) :
    ((envs.perform backend io nowUnix o).1 j).Exact := by
  cases o with
  | loadCap | loadPolicy | unixNow | keyExists | entryCount | read | sample => exact hexact j
  | deleteVictim i key =>
    simp only [perform]
    split
    · exact exact_update hexact ((hexact i).delete (hh.victim i key hok.1)) j
    · exact hexact j
  | evictOneArbitrary i =>
    simp only [perform]
    split
    · split
      · exact hexact j
      · rename_i row hfirst
        exact exact_update hexact ((hexact i).delete (Db.has_first hfirst)) j
    · exact hexact j
  | put i key value replacing =>
    simp only [perform]
    split
    · rw [← hh.replacing i key replacing hok]
      exact exact_update hexact ((hexact i).put key value) j
    · exact hexact j
    · exact hexact j
  | remove i key =>
    simp only [perform]
    split
    · rename_i hc
      exact exact_update hexact ((hexact i).delete (Bool.and_eq_true_iff.mp hc).2) j
    · exact hexact j
  | clear i =>
    simp only [perform]
    split
    · exact exact_update hexact (show LmdbEnv.Exact {} from rfl) j
    · exact hexact j

variable {j : Nat}

theorem has_update_of_ne (hj : j ≠ i) (e : LmdbEnv) (key : CacheKey) :
    has (update envs i e) j key = envs.has j key := by
  rw [has, update_of_ne hj, has]

variable {k key : CacheKey}

theorem has_update_delete (h : i = j → k = key → envs.has j key = false) :
    has (update envs i ((envs i).delete k)) j key = envs.has j key := by
  by_cases hj : i = j
  · subst hj
    rw [has, update_self, LmdbEnv.delete, Db.has_delete]
    by_cases hk : key = k
    · rw [h rfl hk.symm, decide_eq_false (not_not_intro hk), Bool.false_and]
    · rw [decide_eq_true hk, Bool.true_and, has]
  · exact has_update_of_ne (Ne.symm hj) _ key

theorem has_update_put {value : LmdbValue} {replacing : Bool}
    (h : i = j → k = key → envs.has j key = true) :
    has (update envs i ((envs i).put k value replacing)) j key = envs.has j key := by
  by_cases hj : i = j
  · subst hj
    rw [has, update_self, LmdbEnv.put, Db.has_put]
    by_cases hk : key = k
    · rw [h rfl hk.symm, decide_eq_true hk, Bool.true_or]
    · rw [decide_eq_false hk, Bool.false_or, has]
  · exact has_update_of_ne (Ne.symm hj) _ key

/-- A key is as it was after an operation that does not change it. -/
theorem has_perform (h : o.changes envs io j key = false) :
    (envs.perform backend io nowUnix o).1.has j key = envs.has j key := by
  cases o with
  | loadCap | loadPolicy | unixNow | keyExists | entryCount | read | sample => rfl
  | deleteVictim i k =>
    simp only [perform]
    split
    · rename_i hio
      refine has_update_delete fun hi hk => ?_
      simpa [LmdbOp.changes, hio, hi, hk] using h
    · rfl
  | evictOneArbitrary i =>
    simp only [perform]
    split
    · rename_i hio
      split
      · rfl
      · rename_i row hfirst
        refine has_update_delete fun hi hk => ?_
        subst hi hk
        simp [LmdbOp.changes, hio, hfirst] at h
    · rfl
  | put i k value replacing =>
    simp only [perform]
    split
    · refine has_update_put fun hi hk => ?_
      simpa [LmdbOp.changes, hi, hk] using h
    · rfl
    · rfl
  | remove i k =>
    simp only [perform]
    split
    · rename_i hc
      obtain ⟨hio, -⟩ := Bool.and_eq_true_iff.mp hc
      refine has_update_delete fun hi hk => ?_
      simpa [LmdbOp.changes, of_decide_eq_true hio, hi, hk] using h
    · rfl
  | clear i =>
    simp only [perform]
    split
    · rename_i hio
      by_cases hi : j = i
      · have hno : envs.has j key = false := by simpa [LmdbOp.changes, hio, hi] using h
        rw [hno, hi]
        simp only [has, update_self]
        rfl
      · exact has_update_of_ne hi _ key
    · rfl

theorem sampleVictim_mem {now left : Nat} {soon : Option (Nat × CacheKey)}
    {rows : List (CacheKey × LmdbValue)} (h : sampleVictim now left soon rows = some key) :
    soon.map (·.2) = some key ∨ key ∈ rows.map (·.1) := by
  induction left, soon, rows using sampleVictim.induct now with
  | case1 soon rows => exact .inl h
  | case2 left soon =>
    cases left <;> exact .inl h
  | case3 left soon k value rows err hdecode ih =>
    simp only [sampleVictim, hdecode] at h
    rcases ih h with hs | hr
    · exact .inl hs
    · exact .inr (List.mem_cons_of_mem _ hr)
  | case4 left soon k value rows stored hdecode hexp =>
    simp only [sampleVictim, hdecode, if_pos hexp] at h
    cases h
    exact .inr List.mem_cons_self
  | case5 left soon k value rows stored hdecode hexp ih =>
    simp only [sampleVictim, hdecode, if_neg hexp] at h
    rcases ih h with hs | hr
    · unfold sooner at hs
      split at hs
      · cases hs
        exact .inr List.mem_cons_self
      · split at hs
        · cases hs
          exact .inr List.mem_cons_self
        · exact .inl hs
    · exact .inr (List.mem_cons_of_mem _ hr)

/-- The decisions of a call are right after its own operations. -/
theorem hold_next (hh : h.Hold envs) (hok : countProto.ok h o) :
    (h.next o (envs.perform backend io nowUnix o).2).Hold
      (envs.perform backend io nowUnix o).1 := by
  cases o with
  | loadCap | loadPolicy | unixNow | entryCount | read => exact hh
  | keyExists i key =>
    refine ⟨fun i' key' b hr => ?_, hh.victim⟩
    simp only [perform, Decisions.next] at hr
    split at hr
    · cases hr
      rfl
    · cases hr
  | sample i size now =>
    refine ⟨hh.replacing, fun i' key hv => ?_⟩
    simp only [perform, Decisions.next] at hv
    split at hv
    · obtain ⟨k, hk, heq⟩ := Option.map_eq_some_iff.mp hv
      cases heq
      rcases sampleVictim_mem hk with hs | hr
      · cases hs
      · exact Db.has_of_mem_keys hr
    · cases hv
  | deleteVictim i key =>
    obtain ⟨hvictim, hadds⟩ := hok
    refine ⟨fun i' key' b hr => ?_, nofun⟩
    have hno := hh.absent hadds hr
    rw [has_perform (by simp [LmdbOp.changes, hno]), hh.replacing i' key' b hr]
  | evictOneArbitrary i =>
    obtain ⟨hvictim, hadds⟩ := hok
    refine ⟨fun i' key' b hr => ?_, fun i' key' hv => ?_⟩
    · -- the first entry is there, and the key is not
      have hno := hh.absent hadds hr
      have hfirst : (envs i').entries.first.map (·.1) ≠ some key' := by
        intro heq
        obtain ⟨row, hrow, rfl⟩ := Option.map_eq_some_iff.mp heq
        rw [has, Db.has_first hrow] at hno
        cases hno
      rw [has_perform (by simp [LmdbOp.changes, hfirst]), hh.replacing i' key' b hr]
    · rw [show h.victim = some (i', key') from hv] at hvictim
      cases hvictim
  | put i key value replacing =>
    refine ⟨nofun, fun i' key' hv => ?_⟩
    have hyes := hh.victim i' key' hv
    rw [has_perform (by simp [LmdbOp.changes, hyes]), hyes]
  | remove | clear =>
    rw [show h = {} from hok]
    exact Decisions.hold_empty _

end LmdbEnvs

/-! ## The calls keep to their decisions -/

section Calls

open Prog

variable {h : Decisions} (i : Nat) (policy : LmdbPolicy)

variable {o : LmdbOp}

theorem transact_obeys (hok : countProto.ok h o) {Q : Decisions → o.Resp → Prop}
    (hq : ∀ r, Q (h.next o r) r) : Obeys countProto Q h (transact o) :=
  ⟨hok, fun r _ => hq r⟩

theorem transact_seq {α : Type} {Q : Decisions → α → Prop} {k : o.Resp → LmdbProg α}
    (hok : countProto.ok h o) (hk : ∀ r, Obeys countProto Q (h.next o r) (k r)) :
    Obeys countProto Q h (transact o >>= k) :=
  ⟨hok, fun r _ => hk r⟩

theorem evictVictim_obeys (hv : h.victim = none) (hadds : h.Adds) :
    Obeys countProto (fun h' _ => h' = h) h (evictVictim i policy) := by
  -- the victim is the only decision that it makes, and it is carried out
  have hnone : { h with victim := none } = h := by
    rw [← hv]
  unfold evictVictim
  split
  · rfl
  · exact transact_obeys (o := .evictOneArbitrary i) ⟨hv, hadds⟩ fun _ => rfl
  · refine transact_seq (by trivial) fun nowUnix => transact_seq (by trivial) fun r => ?_
    match r with
    | none => exact hnone
    | some none => exact hnone
    | some (some victim) =>
      exact transact_seq ⟨rfl, hadds⟩ fun deleted => hnone

theorem makeRoom_obeys {key : CacheKey} {replacing : Bool} (max : Nat) (hv : h.victim = none)
    (hr : h.replacing = some (i, key, replacing)) :
    Obeys countProto (fun h' _ => h' = h) h (makeRoom i max policy replacing) := by
  unfold makeRoom
  split
  · rename_i hc
    have hadds : h.Adds := by
      intro i' key' b hb
      rw [hr] at hb
      cases hb
      simpa using (Bool.and_eq_true_iff.mp hc).2
    refine transact_seq (by trivial) fun count => ?_
    split
    · split
      · rfl
      all_goals
        refine (evictVictim_obeys i policy hv hadds).seq fun h' r hh' => ?_
        subst hh'
        split <;> rfl
    · rfl
  · rfl

variable (key : CacheKey) (entry : CacheEntry) (now : Nat)

theorem insertOnce_obeys {again : Option (Nat → LmdbProg (Option Bool × Nat))}
    (hagain : ∀ p ∈ again, ∀ n h, h.victim = none →
      Obeys countProto (fun _ _ => True) h (p n)) (evictions : Nat) (hv : h.victim = none) :
    Obeys countProto (fun _ _ => True) h (insertOnce i key entry now again evictions) := by
  unfold insertOnce
  refine transact_seq (by trivial) fun max => transact_seq (by trivial) fun policy => ?_
  refine transact_seq (by trivial) fun r => ?_
  split
  · trivial
  rename_i replacing
  refine Obeys.seq (makeRoom_obeys i policy max hv rfl) fun h' room hh' => ?_
  subst hh'
  split
  · refine transact_seq (by trivial) fun nowUnix => ?_
    refine transact_seq rfl fun put => ?_
    split
    · trivial
    · trivial
    · -- the put failed, and with it the decision about it is gone
      split
      · trivial
      · trivial
      · have hadds : Decisions.Adds { replacing := none, victim := h.victim } :=
          fun _ _ _ hr => by cases hr
        refine Obeys.seq (evictVictim_obeys i policy hv hadds) fun h' r hh' => ?_
        subst hh'
        split
        · exact hagain _ rfl _ _ hv
        · trivial
  · trivial

theorem insertInner_obeys (retries : Nat) :
    ∀ (evictions : Nat) (h : Decisions), h.victim = none →
      Obeys countProto (fun _ _ => True) h (insertInner i key entry now retries evictions) := by
  induction retries with
  | zero =>
    refine fun evictions h hv => insertOnce_obeys i key entry now (fun p hp => ?_) evictions hv
    cases hp
  | succ retries ih =>
    refine fun evictions h hv =>
      insertOnce_obeys i key entry now (fun p hp n h hv => ?_) evictions hv
    cases hp
    exact ih n h hv

theorem getFresh_obeys : Obeys countProto (fun h _ => h = {}) {} (getFresh i key) := by
  refine transact_seq (by trivial) fun r => ?_
  split
  · rfl
  · refine transact_seq (by trivial) fun nowUnix => ?_
    split
    · exact transact_seq rfl fun _ => rfl
    · rfl

theorem clearAllEntries_obeys (shards : List Nat) :
    Obeys countProto (fun _ _ => True) {} (clearAllEntries shards) := by
  induction shards with
  | nil => trivial
  | cons i shards ih =>
    refine transact_seq rfl fun r => ?_
    split
    · exact ih
    · trivial

theorem evictOneArbitraryAnyShard_obeys (shards : List Nat) :
    Obeys countProto (fun _ _ => True) {} (evictOneArbitraryAnyShard shards) := by
  induction shards with
  | nil => trivial
  | cons i shards ih =>
    refine transact_seq ⟨rfl, fun _ _ _ hr => by cases hr⟩ fun r => ?_
    split
    · exact ih
    · trivial

theorem prog_obeys (hash : CacheKey → Nat) (n : Nat) (c : LmdbCall) :
    Obeys countProto (fun _ _ => True) {} (c.prog hash n) := by
  cases c with
  | insert key entry now =>
    have hinner := insertInner_obeys (hash key % n) key entry now 1 0 {} rfl
    have hinsert :
        Obeys countProto (fun _ _ => True) {} (insertEntry (hash key % n) key entry now) :=
      hinner.seq fun _ _ _ => trivial
    exact hinsert.seq fun _ _ _ => trivial
  | remove key => exact transact_seq rfl fun _ => trivial
  | get key =>
    have hget : Obeys countProto (fun _ _ => True) {} (getEntry (hash key % n) key) := by
      refine (getFresh_obeys _ key).seq fun h r hh => ?_
      subst hh
      split
      · trivial
      · exact (getFresh_obeys _ key).mono fun _ _ _ => trivial
    exact hget.seq fun _ _ _ => trivial
  | clear => exact (clearAllEntries_obeys _).seq fun _ _ _ => trivial
  | evict => exact (evictOneArbitraryAnyShard_obeys _).seq fun _ _ _ => trivial

end Calls

/-! ## Runs -/

/-- The invariant: the counts are exact, and every call keeps to its decisions, which are right. -/
structure LmdbStore.CountInv (s : LmdbStore) (h : Nat → Decisions) : Prop where
  exact : ∀ i, (s.envs i).Exact
  calls : ∀ w p, s.calls[w]? = some p → Prog.Obeys countProto (fun _ _ => True) (h w) p
  hold : ∀ w, (h w).Hold s.envs
  fresh : ∀ w, s.calls.length ≤ w → h w = {}

namespace LmdbStore

variable {hash : CacheKey → Nat} {s : LmdbStore} {h : Nat → Decisions}

theorem CountInv.start (hi : s.CountInv h) (c : LmdbCall) :
    CountInv { s with calls := s.calls ++ [c.prog hash s.backend.shardCount] } h := by
  refine { hi with calls := fun w p hp => ?_, fresh := fun w hw => ?_ }
  · rcases Nat.lt_trichotomy w s.calls.length with hlt | rfl | hgt
    · rw [List.getElem?_append_left hlt] at hp
      exact hi.calls w p hp
    · rw [List.getElem?_append_right (Nat.le_refl _), Nat.sub_self] at hp
      cases hp
      rw [hi.fresh _ (Nat.le_refl _)]
      exact prog_obeys hash _ c
    · rw [List.getElem?_eq_none (by simp; omega)] at hp
      cases hp
  · rw [List.length_append] at hw
    exact hi.fresh w (by omega)

/-- One operation of the call `w`: it keeps to its decisions, and leaves the keys of the others. -/
theorem CountInv.run (hi : s.CountInv h) {w : Nat} {o : LmdbOp} {k : o.Resp → LmdbProg Unit}
    (hw : s.calls[w]? = some (.op o k)) {io : LmdbIo} {nowUnix : Nat}
    (hothers : ∀ w' < s.calls.length, w' ≠ w → ∀ p ∈ (h w').keys,
      o.changes s.envs io p.1 p.2 = false) :
    let r := s.envs.perform s.backend io nowUnix o
    CountInv (s.ran w (r.1, k r.2))
      (update h w (match k r.2 with | .ret _ => {} | .op _ _ => (h w).next o r.2)) := by
  intro r
  obtain ⟨hok, hrest⟩ := Prog.obeys_op.mp (hi.calls w _ hw)
  have hlt : w < s.calls.length := (List.getElem?_eq_some_iff.mp hw).1
  refine ⟨LmdbEnvs.exact_perform (hi.hold w) hi.exact hok, fun w' p hp => ?_, fun w' => ?_,
    fun w' hw' => ?_⟩
  · by_cases heq : w' = w
    · subst heq
      rw [ran, List.getElem?_set_self hlt] at hp
      cases hp
      rw [update_self]
      have hobeys := hrest r.2 trivial
      split
      · rename_i u hret
        rw [hret]
        trivial
      · exact hobeys
    · rw [ran, List.getElem?_set_ne (Ne.symm heq)] at hp
      rw [update_of_ne heq]
      exact hi.calls w' p hp
  · by_cases heq : w' = w
    · subst heq
      rw [update_self]
      split
      · exact Decisions.hold_empty _
      · exact LmdbEnvs.hold_next (hi.hold w') hok
    · rw [update_of_ne heq]
      by_cases hlt' : w' < s.calls.length
      · exact (hi.hold w').of_keys fun p hp => LmdbEnvs.has_perform (hothers w' hlt' heq p hp)
      · rw [hi.fresh w' (by omega)]
        exact Decisions.hold_empty _
  · simp only [ran, List.length_set] at hw'
    have heq : w' ≠ w := by omega
    rw [update_of_ne heq]
    exact hi.fresh w' hw'

end LmdbStore

/-- In every interleaving of the calls in which no other call adds or removes an entry between a
call's decision about its key and the write, the count of every shard is the number of its entries
after every transaction. -/
theorem entry_counts_exact (hash : CacheKey → Nat) {x : (lmdbDecisions hash).St}
    (h : (lmdbDecisions hash).Reach KeysUndisturbed x) (i : Nat) :
    (x.1.envs i).count = (x.1.envs i).entries.size := by
  have hinv : LmdbStore.CountInv x.1 x.2 := by
    refine Lts.Reach.inv (P := fun x : (lmdbDecisions hash).St => LmdbStore.CountInv x.1 x.2)
      ?_ ?_ h
    · rintro ⟨s, d⟩ ⟨⟨hcalls, hexact⟩, rfl⟩
      refine ⟨hexact, fun w p hp => ?_, fun w => Decisions.hold_empty _, fun _ _ => rfl⟩
      rw [hcalls] at hp
      cases hp
    · rintro ⟨s, d⟩ a x' _ hi hc he
      obtain ⟨s', hs, rfl⟩ := Option.map_eq_some_iff.mp he
      cases a with
      | start c =>
        cases hs
        exact hi.start c
      | run w io nowUnix =>
        simp only [LmdbStore.step] at hs
        split at hs
        · rename_i o k hw
          cases hs
          simp only [hw]
          refine hi.run hw fun w' hlt hne => hc o ?_ w' hlt hne
          simp only [LmdbStore.nextOp, hw, Option.mem_def]
        · cases hs
        · cases hs
      | setMaxEntries | applyPolicy =>
        cases hs
        exact { hi with }
  exact hinv.exact i

def oneShard : LmdbCacheBackend where
  cacheName := "answers"
  layoutIsLegacy := false
  shardMaxEntries := [0]
  totalMapSizeBytes := 4096
  totalMaxEntries := 0
  policy := ⟨.evictOne, 16, .full, none⟩

def sampleInsert : LmdbCall := .insert [1] { wire := [0], expiresAt := 60 } 0

/-- Two inserts of one key, each of which finds it absent before the other's write: there is one
entry, and the count is two. -/
theorem entry_counted_twice : ∃ s, (lmdbCalls (fun _ => 0)).Reach Lts.Any s ∧
    (s.envs 0).count = 2 ∧ (s.envs 0).entries.size = 1 :=
  Lts.exists_exec (L := lmdbCalls (fun _ => 0)) Lts.Any (s := { backend := oneShard })
    ([LmdbAct.start sampleInsert, LmdbAct.start sampleInsert] ++
      List.replicate 3 (LmdbAct.run 0 .ok 0) ++
      List.replicate 5 (LmdbAct.run 1 .ok 0) ++ List.replicate 2 (LmdbAct.run 0 .ok 0))
    _ ⟨rfl, fun _ => rfl⟩ (by decide +kernel)

theorem entry_counts_exact_sample : ∃ x : (lmdbDecisions (fun _ => 0)).St,
    (lmdbDecisions (fun _ => 0)).Reach KeysUndisturbed x ∧ (x.1.envs 0).entries.size = 1 ∧
    (x.1.envs 0).count = (x.1.envs 0).entries.size := by
  obtain ⟨x, hr, hx⟩ := Lts.exists_exec (L := lmdbDecisions (fun _ => 0)) KeysUndisturbed
    (s := ({ backend := oneShard }, fun _ => {}))
    ([LmdbAct.start sampleInsert, LmdbAct.start sampleInsert] ++
      List.replicate 5 (LmdbAct.run 0 .ok 0) ++
      List.replicate 5 (LmdbAct.run 1 .ok 0))
    (fun x => (x.1.envs 0).entries.size = 1) ⟨⟨rfl, fun _ => rfl⟩, rfl⟩ (by decide +kernel)
  exact ⟨x, hr, hx, entry_counts_exact _ hr 0⟩

end Conduit
