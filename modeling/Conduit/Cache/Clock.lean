import Conduit.Cache.Alone
import Conduit.Cache.Key

/-!
# An LMDB backend against an ideal cache

An ideal cache keeps, for each key, the last entry that was stored under it, and serves it until
its `expires_at`. An LMDB backend loses entries to evictions, and it keeps its times in whole
seconds of the wall clock. A hit of it is one of the ideal cache, with an age at most a second too
high.

The two clocks advance equally, and a call reads the wall clock at the instant it is given. The hash
of a key is the same in every process.

- `entryFromWire`, `FillInput.entry`: the entry of a fill.
- `IdealCache`, `IdealCache.get`: the ideal cache.
- `HitOf`: what a hit has in common with the entry of the ideal cache.
- `Refines`: every row of the backend is the last entry under its key, in the shard of the key.
- `hit_refines_ideal`: a hit of the backend is a hit of the ideal cache.
-/

namespace Conduit

open Function (update update_of_ne update_self)

/-! ## The entry of a fill -/

section Fill

variable (c : Codec) (recordTtl : Record → UInt32)

def minimumTtlFromMessage (m : Message) : Option UInt32 :=
  (m.answers ++ m.nameServers).foldl
    (fun least r => some (least.elim (recordTtl r) (min · (recordTtl r)))) none

/-- A TTL of 0 means that the answer must not be cached. -/
def cacheableTtlFromRrset (minTtl : Option UInt32) (defaultIfAbsent : UInt32) : Option UInt32 :=
  match minTtl with
  | none => some defaultIfAbsent
  | some t => if t = 0 then none else some t

/-- The kind of an answer; the number of its records is taken as a `u16`. -/
def Message.entryKind (m : Message) : EntryKind :=
  EntryKind.fromRcode m.rcode (min m.answers.length 65535)

def ttlForWire (wire : Wire) (negativeEnabled : Bool) (servfailTtlSecs : UInt32) :
    Option UInt32 := do
  let m ← c.fromVec wire
  match m.entryKind with
  | .servFail => if servfailTtlSecs = 0 then none else some servfailTtlSecs
  | .nxDomain | .noData =>
    if negativeEnabled then cacheableTtlFromRrset (minimumTtlFromMessage recordTtl m) 300 else none
  | .positive => cacheableTtlFromRrset (minimumTtlFromMessage recordTtl m) 60

def entryFromWire (wire : Wire) (negativeEnabled : Bool) (servfailTtlSecs : UInt32) (now : Nat) :
    Option CacheEntry := do
  let m ← c.fromVec wire
  let ttl ← ttlForWire c recordTtl wire negativeEnabled servfailTtlSecs
  return { kind := m.entryKind, wire, filledAt := now, expiresAt := expiresAtFromTtl now ttl.toNat }

/-- What `fill_from_forward` makes an entry of. -/
structure FillInput where
  wire : Wire
  negativeEnabled : Bool := true
  servfailTtlSecs : UInt32 := 10
  /-- The TTL of an answer that is stored truncated. -/
  overrideTtl : Option UInt32 := none

def FillInput.entry (f : FillInput) (now : Nat) : Option CacheEntry :=
  (entryFromWire c recordTtl f.wire f.negativeEnabled f.servfailTtlSecs now).map fun e =>
    match f.overrideTtl with
    | none => e
    | some ttl => { e with expiresAt := expiresAtFromTtl now ttl.toNat }

/-- A fresh entry of a fill: filled now, for a `u32` of seconds. -/
structure CacheEntry.FilledFor (e : CacheEntry) (now ttl : Nat) : Prop where
  filledAt : e.filledAt = now
  expiresAt : e.expiresAt = expiresAtFromTtl now ttl
  ttl_lt : ttl < 2 ^ 32

end Fill

variable {c : Codec} {recordTtl : Record → UInt32}

variable {now : Nat} {e : CacheEntry}

theorem entryFromWire_filled {wire : Wire} {negativeEnabled : Bool} {servfailTtlSecs : UInt32}
    (h : entryFromWire c recordTtl wire negativeEnabled servfailTtlSecs now = some e) :
    ∃ ttl, e.FilledFor now ttl := by
  unfold entryFromWire at h
  obtain ⟨m, -, h⟩ := Option.bind_eq_some_iff.mp h
  obtain ⟨ttl, -, h⟩ := Option.bind_eq_some_iff.mp h
  cases h
  exact ⟨ttl.toNat, rfl, rfl, ttl.toNat_lt⟩

theorem FillInput.entry_filled {f : FillInput} (h : f.entry c recordTtl now = some e) :
    ∃ ttl, e.FilledFor now ttl := by
  obtain ⟨e₀, he₀, rfl⟩ := Option.map_eq_some_iff.mp h
  have hfilled := entryFromWire_filled he₀
  split
  · exact hfilled
  · rename_i ttl _
    exact ⟨ttl.toNat, hfilled.choose_spec.filledAt, rfl, ttl.toNat_lt⟩

/-! ## The ideal cache -/

/-- The last entry that was stored under each key. -/
abbrev IdealCache := CacheKey → Option CacheEntry

def IdealCache.get (ideal : IdealCache) (key : CacheKey) (now : Nat) : Option CacheEntry :=
  (ideal key).filter (·.isFresh now)

/-- What a hit has of the entry that an ideal cache would return. -/
structure HitOf (entry hit : CacheEntry) (now : Nat) : Prop where
  kind : hit.kind = entry.kind
  wire : hit.wire = entry.wire
  age_ge : asSecs (now - entry.filledAt) ≤ cacheAgeSecs hit.filledAt now
  age_le : cacheAgeSecs hit.filledAt now ≤ asSecs (now - entry.filledAt) + 1
  /-- No TTL that is served is larger than the one of the ideal cache. -/
  ttl_le : ∀ ttl, ttl - cacheAgeSecs hit.filledAt now ≤ ttl - cacheAgeSecs entry.filledAt now

/-! ## The clocks -/

theorem asSecs_mul (secs : Nat) : asSecs (secs * nanosPerSec) = secs :=
  Nat.mul_div_cancel secs (show 0 < 10 ^ 9 by omega)

variable {filled ttl : Nat} {entry : CacheEntry}

theorem toStored_of_filled (h : entry.FilledFor filled ttl) (nowUnix : Nat) :
    (toStored entry filled nowUnix).filledAtUnix = nowUnix ∧
      (toStored entry filled nowUnix).expiresAtUnix ≤ nowUnix + ttl := by
  have hremaining : entry.ttlRemainingSecs filled ≤ ttl := by
    unfold CacheEntry.ttlRemainingSecs
    split
    · exact Nat.zero_le ttl
    · refine (Nat.min_le_left _ _).trans ?_
      rw [h.expiresAt, expiresAtFromTtl, Nat.add_sub_cancel_left, asSecs_mul]
  refine ⟨?_, (Nat.min_le_left _ _).trans (Nat.add_le_add_left hremaining _)⟩
  simp [toStored, h.filledAt, asSecs]

/-- The whole seconds of the wall clock since an instant are those of the monotonic clock, or one
more. -/
theorem wall_age (epoch : Nat) (h : filled ≤ now) :
    asSecs (now - filled) ≤ asSecs (epoch + now) - asSecs (epoch + filled) ∧
      asSecs (epoch + now) - asSecs (epoch + filled) ≤ asSecs (now - filled) + 1 := by
  unfold asSecs nanosPerSec
  omega

variable {epoch : Nat}

/-- An entry that has not expired by the wall clock has not expired. -/
theorem lt_expires (h : asSecs (epoch + now) < asSecs (epoch + filled) + ttl) :
    now < expiresAtFromTtl filled ttl := by
  unfold asSecs nanosPerSec at h
  unfold expiresAtFromTtl nanosPerSec
  omega

theorem age_lt_ttl (h : now < expiresAtFromTtl filled ttl) (hle : filled ≤ now) :
    asSecs (now - filled) < ttl := by
  unfold expiresAtFromTtl nanosPerSec at h
  unfold asSecs nanosPerSec
  omega

/-- The instant of the fill that is reported is less than a second before the fill. -/
theorem wall_age_le_now (epoch : Nat) (h : filled ≤ now) (horigin : nanosPerSec ≤ filled) :
    (asSecs (epoch + now) - asSecs (epoch + filled)) * nanosPerSec ≤ now := by
  unfold nanosPerSec at horigin
  unfold asSecs nanosPerSec
  omega

/-- The age that is reported, where the instant of the fill can be represented. -/
theorem cacheAgeSecs_sub {age : Nat} (hage : age * nanosPerSec ≤ now) (hfit : age < 2 ^ 32) :
    cacheAgeSecs (now - age * nanosPerSec) now = age := by
  rw [cacheAgeSecs, Nat.sub_sub_self hage, asSecs_mul]
  exact Nat.min_eq_left (by omega)

/-- A value read back before it has expired gives a hit of the ideal cache. -/
theorem hitOf_stored {stored : StoredEntry} (hentry : entry.FilledFor filled ttl)
    (hle : filled ≤ now) (horigin : nanosPerSec ≤ filled)
    (hstored : stored = toStored entry filled (asSecs (epoch + filled)))
    (hfresh : asSecs (epoch + now) < stored.expiresAtUnix) :
    entry.isFresh now = true ∧
      HitOf entry (storedToEntry stored now (asSecs (epoch + now))) now := by
  obtain ⟨hfilled, hexpires⟩ := toStored_of_filled hentry (asSecs (epoch + filled))
  rw [← hstored] at hfilled hexpires
  have hlt : now < expiresAtFromTtl filled ttl := lt_expires (hfresh.trans_le hexpires)
  obtain ⟨hge, hle'⟩ := wall_age epoch hle
  have hreported : cacheAgeSecs (storedToEntry stored now (asSecs (epoch + now))).filledAt now =
      asSecs (epoch + now) - asSecs (epoch + filled) := by
    have hage := age_lt_ttl hlt hle
    have hfit := hentry.ttl_lt
    rw [storedToEntry, hfilled]
    exact cacheAgeSecs_sub (wall_age_le_now epoch hle horigin) (by omega)
  refine ⟨?_, ?_⟩
  · rw [CacheEntry.isFresh, hentry.expiresAt]
    exact decide_eq_true hlt
  · refine ⟨by rw [storedToEntry, hstored, toStored], by rw [storedToEntry, hstored, toStored],
      ?_, ?_, fun t => ?_⟩
    · rwa [hreported, hentry.filledAt]
    · rwa [hreported, hentry.filledAt]
    · rw [hreported]
      refine Nat.sub_le_sub_left ((Nat.min_le_left _ _).trans ?_) t
      rwa [hentry.filledAt]

/-! ## Layouts -/

def onDiskShardCount : OnDiskLayout → Option Nat
  | .empty => none
  | .legacy => some 1
  | .sharded n => some n

/-- What `detect_on_disk_layout` accepts. -/
def OnDiskLayout.Valid : OnDiskLayout → Prop
  | .empty | .legacy => True
  | .sharded n => 0 < n ∧ n ≤ maxLmdbShardCount

theorem clampShards_pos (n : Nat) : 0 < clampShards n ∧ clampShards n ≤ maxLmdbShardCount := by
  unfold clampShards maxLmdbShardCount
  omega

theorem clampShards_of_valid {n : Nat} (h : (OnDiskLayout.sharded n).Valid) :
    clampShards n = n := by
  obtain ⟨hpos, hle⟩ := h
  unfold clampShards
  omega

theorem explicitRequiresAbandon_eq (explicit : Option Nat) (disk : OnDiskLayout) :
    explicitRequiresAbandon explicit disk = true ↔
      ∃ n ∈ explicit, ∃ m ∈ onDiskShardCount disk, m ≠ clampShards n := by
  cases explicit <;> cases disk <;> simp [explicitRequiresAbandon, onDiskShardCount]

/-- An open backend has the number of shards that it finds, unless the layout was abandoned. -/
theorem resolve_of_found {explicit : Option Nat} {disk : OnDiskLayout} (hv : disk.Valid)
    (hkeep : explicitRequiresAbandon explicit disk = false) {n : Nat}
    (hn : onDiskShardCount disk = some n) (threads : Nat) :
    resolveEffectiveShardCount explicit disk threads = n := by
  cases explicit with
  | some k =>
    by_contra hne
    have habandon := (explicitRequiresAbandon_eq (some k) disk).mpr ⟨k, rfl, n, hn, Ne.symm hne⟩
    rw [hkeep] at habandon
    cases habandon
  | none =>
    cases disk with
    | empty => cases hn
    | legacy => cases hn; rfl
    | sharded m => cases hn; exact clampShards_of_valid hv

theorem resolve_pos (explicit : Option Nat) (disk : OnDiskLayout) (threads : Nat) :
    (OnDiskLayout.sharded (resolveEffectiveShardCount explicit disk threads)).Valid := by
  cases explicit with
  | some k => exact clampShards_pos k
  | none =>
    cases disk with
    | empty => exact clampShards_pos _
    | legacy => exact ⟨Nat.one_pos, show 1 ≤ 64 by decide⟩
    | sharded m => exact clampShards_pos m

/-- The layout of an open backend: the one that was there, unless it was abandoned. -/
theorem openAt_layout {io : CacheIo} {cacheName : String} {maxEntries : Nat}
    {lmdb : CompiledLmdbCache} {b : LmdbCacheBackend}
    (h : LmdbCacheBackend.openAt io cacheName maxEntries lmdb = .ok b) (hv : io.onDisk.Valid) :
    b.layout.Valid ∧ onDiskShardCount b.layout = some b.shardCount ∧
      (explicitRequiresAbandon lmdb.shardCount io.onDisk = false →
        ∀ n, onDiskShardCount io.onDisk = some n → b.shardCount = n) := by
  obtain ⟨-, -, h⟩ := Keyed.bind_eq_ok.mp h
  obtain ⟨-, -, h⟩ := Keyed.bind_eq_ok.mp h
  generalize hdisk : (if explicitRequiresAbandon lmdb.shardCount io.onDisk then OnDiskLayout.empty
    else io.onDisk) = disk at h
  generalize hcount :
    resolveEffectiveShardCount lmdb.shardCount disk lmdb.lookupThreadCount = n at h
  cases h
  have hshards : (perShardMaxEntries maxEntries n).length = n := by simp [perShardMaxEntries]
  simp only [LmdbCacheBackend.layout, LmdbCacheBackend.shardCount, hshards]
  refine ⟨?_, ?_, fun hkeep m hm => ?_⟩
  · split
    · trivial
    · rw [← hcount]
      exact resolve_pos ..
  · split
    · rename_i hlegacy
      simp only [Bool.and_eq_true, decide_eq_true_eq] at hlegacy
      rw [hlegacy.2]
      rfl
    · rfl
  · rw [hkeep] at hdisk
    subst hdisk
    rw [← hcount]
    exact resolve_of_found hv hkeep hm _

/-! ## Refinement -/

/-- The value of an entry that was filled before now. -/
structure Encodes (epoch now : Nat) (entry : CacheEntry) (value : LmdbValue) : Prop where
  filled : ∃ ttl, entry.FilledFor entry.filledAt ttl
  le_now : entry.filledAt ≤ now
  origin : nanosPerSec ≤ entry.filledAt
  encodes : value = encodeEntry entry entry.filledAt (asSecs (epoch + entry.filledAt))
  fits : value.length < 2 ^ 32

/-- Every row is the last entry that was stored under its key, and in the shard of the key. -/
structure Refines (hash : CacheKey → Nat) (s : LmdbAlone) (ideal : IdealCache) : Prop where
  valid : s.disk.Valid
  shards : s.opened = true → onDiskShardCount s.disk = some s.backend.shardCount
  clock : s.unixNow < 2 ^ 64
  origin : nanosPerSec ≤ s.now
  rows : ∀ i, ∀ row ∈ (s.envs i).entries.rows,
    (∃ n, onDiskShardCount s.disk = some n ∧ i = hash row.1 % n) ∧
      ∃ entry, ideal row.1 = some entry ∧ Encodes s.epoch s.now entry row.2

/-- The ideal cache after an action: an insert that reports it stored the entry. -/
def IdealCache.next (hash : CacheKey → Nat) (s : LmdbAlone) (a : AloneAct) (ideal : IdealCache) :
    IdealCache :=
  match a with
  | .insert key entry ios =>
    match s.run ios (insertEntry (s.shard hash key) key entry s.now) with
    | some r => if r.2.stored then update ideal key (some entry) else ideal
    | none => ideal
  | _ => ideal

/-- LMDB refuses a value of 4 GiB. -/
def putsFit (io : LmdbIo) : LmdbOp → Prop
  | .put _ _ value _ => io = .ok → value.length < 2 ^ 32
  | _ => True

instance (io : LmdbIo) : ∀ o, Decidable (putsFit io o)
  | .put _ _ value _ => inferInstanceAs (Decidable (io = .ok → value.length < 2 ^ 32))
  | .loadCap _ | .loadPolicy | .unixNow | .keyExists _ _ | .entryCount _ | .read _ _
  | .sample _ _ _ | .deleteVictim _ _ | .evictOneArbitrary _ | .remove _ _ | .clear _ =>
    .isTrue trivial

def AloneAct.entry? : AloneAct → Option CacheEntry
  | .insert _ entry _ => some entry
  | _ => none

/-- An inserted entry is one of a fill at the instant of the insert. -/
def AloneAct.Fills (c : Codec) (recordTtl : Record → UInt32) (now : Nat) (a : AloneAct) : Prop :=
  ∀ entry ∈ a.entry?, ∃ f : FillInput, f.entry c recordTtl now = some entry

namespace Refines

variable {hash : CacheKey → Nat} {s : LmdbAlone} {ideal : IdealCache}

theorem tick (h : Refines hash s ideal) (nanos : Nat)
    (hclock : asSecs (s.epoch + (s.now + nanos)) < 2 ^ 64) :
    Refines hash { s with now := s.now + nanos } ideal where
  valid := h.valid
  shards := h.shards
  clock := hclock
  origin := h.origin.trans (Nat.le_add_right ..)
  rows i row hrow := by
    obtain ⟨hshard, entry, hideal, henc⟩ := h.rows i row hrow
    exact ⟨hshard, entry, hideal, henc.filled, henc.le_now.trans (Nat.le_add_right ..), henc.origin,
      henc.encodes, henc.fits⟩

variable {envs' : LmdbEnvs}

theorem shrunk (h : Refines hash s ideal) (hs : s.envs.Shrunk envs') :
    Refines hash { s with envs := envs' } ideal where
  valid := h.valid
  shards := h.shards
  clock := h.clock
  origin := h.origin
  rows i row hrow := h.rows i row ((hs.rows i).subset hrow)

variable {ttl : Nat} {key : CacheKey} {entry : CacheEntry}

theorem put (h : Refines hash s ideal) (hopen : s.opened = true)
    (hentry : entry.FilledFor s.now ttl)
    (hfits : (encodeEntry entry s.now s.unixNow).length < 2 ^ 32) (replacing : Bool) :
    Refines hash
      { s with
        envs := update s.envs (s.shard hash key)
          ((s.envs (s.shard hash key)).put key (encodeEntry entry s.now s.unixNow) replacing) }
      (update ideal key (some entry)) where
  valid := h.valid
  shards := h.shards
  clock := h.clock
  origin := h.origin
  rows i row hrow := by
    dsimp only at hrow
    by_cases hi : i = s.shard hash key
    · subst hi
      rw [update_self] at hrow
      rcases Db.mem_put _ _ _ _ hrow with rfl | ⟨hmem, hne⟩
      · refine ⟨⟨_, h.shards hopen, rfl⟩, entry, update_self .., ?_⟩
        have hfilled := hentry.filledAt
        refine ⟨⟨ttl, ?_⟩, hfilled.le, hfilled ▸ h.origin, ?_, hfits⟩
        · rwa [hfilled]
        · rw [hfilled]
          rfl
      · simp only [update_of_ne hne]
        exact h.rows _ row hmem
    · rw [update_of_ne hi] at hrow
      obtain ⟨⟨n, hn, hshard⟩, hrest⟩ := h.rows i row hrow
      -- the rows of the key are in its shard
      have hne : row.1 ≠ key := by
        rintro rfl
        rw [h.shards hopen] at hn
        cases hn
        exact hi hshard
      simp only [update_of_ne hne]
      exact ⟨⟨n, hn, hshard⟩, hrest⟩

theorem inserted (h : Refines hash s ideal) (hopen : s.opened = true)
    (hentry : entry.FilledFor s.now ttl) {stored : Bool}
    (hi : Inserted s.backend putsFit (s.shard hash key) key
      (encodeEntry entry s.now s.unixNow) s.envs stored envs') :
    Refines hash { s with envs := envs' }
      (if stored then update ideal key (some entry) else ideal) := by
  cases hi with
  | refused hshrunk => exact h.shrunk hshrunk
  | stored hshrunk hput _ => exact (h.shrunk hshrunk).put hopen hentry (hput rfl) _

theorem reopen (h : Refines hash s ideal) (io : CacheIo) (maxEntries : Nat)
    (lmdb : CompiledLmdbCache) (abandoned : Bool) :
    Refines hash (s.reopen io maxEntries lmdb abandoned) ideal := by
  unfold LmdbAlone.reopen
  dsimp only
  split
  · rename_i backend hopened
    obtain ⟨hvalid, hshards, hfound⟩ := openAt_layout hopened h.valid
    cases hrequires : explicitRequiresAbandon lmdb.shardCount s.disk with
    | true =>
      exact ⟨hvalid, fun _ => hshards, h.clock, h.origin, fun _ _ hrow => by cases hrow⟩
    | false =>
      refine ⟨hvalid, fun _ => hshards, h.clock, h.origin, fun i row hrow => ?_⟩
      obtain ⟨⟨n, hn, hshard⟩, hrest⟩ := h.rows i row hrow
      refine ⟨⟨n, ?_, hshard⟩, hrest⟩
      rw [← hfound hrequires n hn]
      exact hshards
  · split
    · exact ⟨trivial, nofun, h.clock, h.origin, fun _ _ hrow => by cases hrow⟩
    · exact ⟨h.valid, nofun, h.clock, h.origin, h.rows⟩

theorem setMaxEntries (h : Refines hash s ideal) (n : Nat) :
    Refines hash { s with backend := s.backend.setMaxEntries n } ideal where
  valid := h.valid
  shards hopen := by
    have hcount : (s.backend.setMaxEntries n).shardCount = s.backend.shardCount := by
      simp [LmdbCacheBackend.setMaxEntries, LmdbCacheBackend.shardCount, perShardMaxEntries]
    rw [h.shards hopen, hcount]
  clock := h.clock
  origin := h.origin
  rows := h.rows

theorem step (h : Refines hash s ideal) {a : AloneAct} {s' : LmdbAlone}
    (hfills : a.Fills c recordTtl s.now) (hin : s.InsertAdmits hash putsFit a)
    (hs : s.step hash a = some s') : Refines hash s' (ideal.next hash s a) := by
  cases LmdbAlone.step_spec hin hs with
  | tick nanos hclock => exact h.tick nanos hclock
  | insert hrun hins =>
    obtain ⟨f, hf⟩ := hfills _ rfl
    obtain ⟨ttl, hentry⟩ := FillInput.entry_filled hf
    have hopen : s.opened = true := by
      by_contra hclosed
      rw [LmdbAlone.run, if_neg hclosed] at hrun
      cases hrun
    rw [IdealCache.next, hrun]
    exact h.inserted hopen hentry hins
  | remove hshrunk | get hshrunk | clear hshrunk | evict hshrunk => exact h.shrunk hshrunk
  | setMaxEntries n => exact h.setMaxEntries n
  | applyPolicy whenFull size => exact ⟨h.valid, h.shards, h.clock, h.origin, h.rows⟩
  | reopen io maxEntries lmdb abandoned => exact h.reopen io maxEntries lmdb abandoned

end Refines

/-! ## Hits -/

/-- `get` at the instant now. -/
def LmdbAlone.get (hash : CacheKey → Nat) (s : LmdbAlone) (key : CacheKey) (ios : List LmdbIo) :
    Option CacheEntry :=
  (s.run ios (getEntry (s.shard hash key) key)).bind fun r =>
    r.2.map (storedToEntry · s.now s.unixNow)

def Opened (b : LmdbCacheBackend) : Prop :=
  ∃ io cacheName maxEntries lmdb, io.onDisk.Valid ∧
    LmdbCacheBackend.openAt io cacheName maxEntries lmdb = .ok b

/-- The thread on its backend, with the ideal cache beside it. -/
abbrev lmdbIdeal (hash : CacheKey → Nat) : Lts :=
  (lmdbAlone hash Opened).record (fun _ => none) (fun s a ideal => IdealCache.next hash s a ideal)

/-- Inserts are those of fills, and LMDB keeps to its limit. -/
def FillsOnly (c : Codec) (recordTtl : Record → UInt32) (hash : CacheKey → Nat)
    (x : (lmdbIdeal hash).St) (a : AloneAct) : Prop :=
  a.Fills c recordTtl x.1.now ∧ x.1.InsertAdmits hash putsFit a

theorem refines_of_reach {hash : CacheKey → Nat} {x : (lmdbIdeal hash).St}
    (h : (lmdbIdeal hash).Reach (FillsOnly c recordTtl hash) x) : Refines hash x.1 x.2 := by
  refine h.inv (P := fun x : (lmdbIdeal hash).St => Refines hash x.1 x.2) ?_ ?_
  · rintro ⟨s, ideal⟩ ⟨⟨⟨io, _, _, _, hvalid, hopen⟩, -, hdisk, hempty, horigin, hclock⟩, rfl⟩
    obtain ⟨hlayout, hshards, -⟩ := openAt_layout hopen hvalid
    refine ⟨hdisk ▸ hlayout, fun _ => ?_, hclock, horigin, fun i row hrow => ?_⟩
    · rw [hdisk]
      exact hshards
    · rw [hempty i] at hrow
      cases hrow
  · rintro ⟨s, ideal⟩ a x' - hi hc hs
    obtain ⟨s', hs', rfl⟩ := Option.map_eq_some_iff.mp hs
    exact hi.step hc.1 hc.2 hs'

/-- A hit of the backend is a hit of the ideal cache, and at most a second older. -/
theorem hit_refines_ideal {hash : CacheKey → Nat} {x : (lmdbIdeal hash).St}
    (h : (lmdbIdeal hash).Reach (FillsOnly c recordTtl hash) x) {key : CacheKey}
    {ios : List LmdbIo} {hit : CacheEntry} (hget : x.1.get hash key ios = some hit) :
    ∃ entry, IdealCache.get x.2 key x.1.now = some entry ∧ HitOf entry hit x.1.now := by
  have href := refines_of_reach h
  obtain ⟨r, hrun, hr⟩ := Option.bind_eq_some_iff.mp hget
  obtain ⟨stored, hstored, rfl⟩ := Option.map_eq_some_iff.mp hr
  -- the row that the lookup has read, and the entry that it stands for
  have hadmits : Prog.Admits (LmdbAlone.perform x.1) (fun _ _ => True) ios x.1.envs
      (getEntry (x.1.shard hash key) key) := Prog.admits_of_forall (fun _ _ => trivial) _ _ _
  obtain ⟨hread, hfresh⟩ :=
    (LmdbAlone.run_spec (getEntry_wp _ key) hadmits hrun).2 stored hstored
  obtain ⟨value, hvalue, hdecode⟩ := Option.bind_eq_some_iff.mp hread
  obtain ⟨-, entry, hideal, henc⟩ := href.rows _ _ (Db.mem_of_get hvalue)
  obtain ⟨ttl, hfilled⟩ := henc.filled
  have hparts : stored = toStored entry entry.filledAt (asSecs (x.1.epoch + entry.filledAt)) := by
    have hunix : asSecs (x.1.epoch + entry.filledAt) < 2 ^ 64 :=
      (Nat.div_le_div_right (Nat.add_le_add_left henc.le_now _)).trans_lt href.clock
    have hfits := henc.fits
    have hencodes := henc.encodes
    dsimp only at hfits hencodes
    rw [hencodes] at hdecode hfits
    rw [decodeValue_encodeEntry hunix hfits] at hdecode
    exact (Option.some.inj hdecode).symm
  obtain ⟨hisFresh, hhit⟩ := hitOf_stored hfilled henc.le_now henc.origin hparts hfresh
  exact ⟨entry, Option.filter_eq_some_iff.mpr ⟨hideal, hisFresh⟩, hhit⟩

/-- Every wire is a message with one record. -/
def sampleCodec : Codec where
  fromVec _ := some { isResponse := true, answers := [[0]] }
  emit _ := ([], true)

def sampleLmdb : CompiledLmdbCache where
  path := "/cache"
  mapSizeBytes := 4096

/-- Two shards, just opened, 1.9 seconds after the instant 0. -/
def sampleAlone : LmdbAlone where
  now := 1900000000
  epoch := 0
  backend :=
    { cacheName := "cache"
      layoutIsLegacy := false
      shardMaxEntries := [0, 0]
      totalMapSizeBytes := 8192
      totalMaxEntries := 0
      policy := sampleLmdb.policy }
  disk := .sharded 2

/-- A fill, 1.2 seconds, and the backend closed and opened again. -/
def sampleActs : List AloneAct :=
  [.insert [1]
      { wire := [0], filledAt := 1900000000, expiresAt := 61900000000 } (List.replicate 6 .ok),
    .tick 1200000000, .reopen {} 0 sampleLmdb false]

/-- The inserts are those of one fill. -/
def SampleFills (x : (lmdbIdeal List.length).St) (a : AloneAct) : Prop :=
  (∀ e ∈ a.entry?, FillInput.entry sampleCodec (fun _ => 60) { wire := [0] } x.1.now = some e) ∧
    x.1.InsertAdmits List.length putsFit a

instance (x : (lmdbIdeal List.length).St) (a : AloneAct) : Decidable (SampleFills x a) :=
  inferInstanceAs (Decidable (_ ∧ _))

/-- The wall clock is in its third second and was in its first: the age is 2 seconds, not 1. -/
theorem hit_refines_ideal_sample : ∃ x hit entry,
    (lmdbIdeal List.length).Reach (FillsOnly sampleCodec (fun _ => 60) List.length) x ∧
      x.1.get List.length [1] (List.replicate 4 .ok) = some hit ∧
      cacheAgeSecs hit.filledAt x.1.now = 2 ∧
      IdealCache.get x.2 [1] x.1.now = some entry ∧ HitOf entry hit x.1.now := by
  obtain ⟨x, hreach, hget, hage⟩ := Lts.exists_exec (L := lmdbIdeal List.length) SampleFills
    sampleActs (fun x => x.1.get List.length [1] (List.replicate 4 .ok) =
      some { wire := [0], filledAt := 1100000000, expiresAt := 61100000000 } ∧
      cacheAgeSecs 1100000000 x.1.now = 2)
    (s := (sampleAlone, fun _ => none))
    ⟨⟨⟨{}, "cache", 0, sampleLmdb, trivial, rfl⟩, rfl, rfl, fun _ => rfl, by decide, by decide⟩,
      rfl⟩ (by decide +kernel)
  have hfills := hreach.mono (D := FillsOnly sampleCodec (fun _ => 60) List.length) fun x a h =>
    ⟨fun e he => ⟨_, h.1 e he⟩, h.2⟩
  obtain ⟨entry, hideal, hhit⟩ := hit_refines_ideal hfills hget
  exact ⟨x, _, entry, hfills, hget, hage, hideal, hhit⟩

end Conduit
