import Conduit.Cache.Memory
import Conduit.Lib.Bytes

/-!
# The values of an LMDB backend

An LMDB backend stores an entry as bytes (`encode_entry`, `decode_value`, `stored_to_entry` of
`lookup/cache/lmdb.rs`): the time it was filled and the time it expires in seconds of the wall
clock, its kind, and its wire with its length.

Instants are nanoseconds of the monotonic clock. An entry is encoded with the whole seconds that are
left of it and that it is old, so the fractions of the two clocks are lost.

- `decodeValue_encodeEntry`: what is decoded is what was encoded, for a value of less than 4 GiB.
-/

namespace Conduit

open Bytes

def nanosPerSec : Nat := 10 ^ 9

/-- The whole seconds of a duration. -/
def asSecs (nanos : Nat) : Nat := nanos / nanosPerSec

def u64Max : Nat := 2 ^ 64 - 1

def CacheEntry.ttlRemainingSecs (e : CacheEntry) (now : Nat) : Nat :=
  if now ≥ e.expiresAt then 0 else min (asSecs (e.expiresAt - now)) (2 ^ 32 - 1)

def expiresAtFromTtl (now ttlSecs : Nat) : Nat := now + ttlSecs * nanosPerSec

/-- `cache_age_secs`, which is subtracted from the TTLs of a served answer. -/
def cacheAgeSecs (filledAt now : Nat) : Nat := min (asSecs (now - filledAt)) (2 ^ 32 - 1)

/-- A decoded value. -/
structure StoredEntry where
  filledAtUnix : Nat
  expiresAtUnix : Nat
  kind : EntryKind
  wire : Wire
  deriving DecidableEq, Repr

abbrev LmdbValue := List UInt8

def kindToU8 : EntryKind → UInt8
  | .positive => 0
  | .nxDomain => 1
  | .noData => 2
  | .servFail => 3

def u8ToKind (v : UInt8) : Except String EntryKind :=
  if v = 0 then .ok .positive
  else if v = 1 then .ok .nxDomain
  else if v = 2 then .ok .noData
  else if v = 3 then .ok .servFail
  else .error s!"unknown entry kind {v}"

def valueHeaderLen : Nat := 8 + 8 + 1 + 4

/-- The bytes of a value with these parts. -/
def StoredEntry.encode (stored : StoredEntry) : LmdbValue :=
  toLe 8 stored.filledAtUnix ++ (toLe 8 stored.expiresAtUnix ++
    (kindToU8 stored.kind :: (toLe 4 (stored.wire.length % 2 ^ 32) ++ stored.wire)))

/-- The parts of the value of an entry. -/
def toStored (entry : CacheEntry) (now nowUnix : Nat) : StoredEntry where
  filledAtUnix := nowUnix - asSecs (now - entry.filledAt)
  expiresAtUnix := min (nowUnix + entry.ttlRemainingSecs now) u64Max
  kind := entry.kind
  wire := entry.wire

def encodeEntry (entry : CacheEntry) (now nowUnix : Nat) : LmdbValue :=
  (toStored entry now nowUnix).encode

def decodeValue (raw : LmdbValue) : Except String StoredEntry :=
  if raw.length < valueHeaderLen then
    let length := raw.length
    .error s!"value too short ({length})"
  else
    match u8ToKind (raw.getD 16 0) with
    | .error e => .error e
    | .ok kind =>
      let wireLen := ofLe ((raw.drop 17).take 4)
      if raw.length < valueHeaderLen + wireLen then .error "wire truncated"
      else
        .ok
          { filledAtUnix := ofLe (raw.take 8)
            expiresAtUnix := ofLe ((raw.drop 8).take 8)
            kind
            wire := (raw.drop valueHeaderLen).take wireLen }

/-- `stored_to_entry`, where instants before the start of the process can be represented. -/
def storedToEntry (stored : StoredEntry) (now nowUnix : Nat) : CacheEntry where
  kind := stored.kind
  wire := stored.wire
  filledAt := now - (nowUnix - stored.filledAtUnix) * nanosPerSec
  expiresAt := now + (stored.expiresAtUnix - nowUnix) * nanosPerSec

/-! ## Decoding -/

theorem u8ToKind_kindToU8 (kind : EntryKind) : u8ToKind (kindToU8 kind) = .ok kind := by
  cases kind <;> rfl

theorem decodeValue_encode {stored : StoredEntry} (hf : stored.filledAtUnix < 2 ^ 64)
    (he : stored.expiresAtUnix < 2 ^ 64) (hw : stored.encode.length < 2 ^ 32) :
    decodeValue stored.encode = .ok stored := by
  obtain ⟨filledAt, expiresAt, kind, wire⟩ := stored
  generalize hraw : StoredEntry.encode ⟨filledAt, expiresAt, kind, wire⟩ = raw at hw ⊢
  -- The parts of the value, one behind the other.
  have hfilled : raw.take 8 = toLe 8 filledAt := by
    rw [← hraw]
    exact List.take_left' (length_toLe ..)
  have h8 : raw.drop 8 =
      toLe 8 expiresAt ++ (kindToU8 kind :: (toLe 4 (wire.length % 2 ^ 32) ++ wire)) := by
    rw [← hraw]
    exact List.drop_left' (length_toLe ..)
  have hexpires : (raw.drop 8).take 8 = toLe 8 expiresAt := by
    rw [h8]
    exact List.take_left' (length_toLe ..)
  have h16 : raw.drop 16 = kindToU8 kind :: (toLe 4 (wire.length % 2 ^ 32) ++ wire) := by
    rw [show 16 = 8 + 8 from rfl, ← List.drop_drop, h8]
    exact List.drop_left' (length_toLe ..)
  have hkind : raw.getD 16 0 = kindToU8 kind := by
    have hget : raw[16]? = (raw.drop 16)[0]? := by rw [List.getElem?_drop]
    rw [List.getD_eq_getElem?_getD, hget, h16]
    rfl
  have h17 : raw.drop 17 = toLe 4 (wire.length % 2 ^ 32) ++ wire := by
    rw [show 17 = 16 + 1 from rfl, ← List.drop_drop, h16]
    rfl
  have h21 : raw.drop valueHeaderLen = wire := by
    rw [show valueHeaderLen = 17 + 4 from rfl, ← List.drop_drop, h17]
    exact List.drop_left' (length_toLe ..)
  have hlength : raw.length = valueHeaderLen + wire.length := by
    rw [← hraw]
    simp [StoredEntry.encode, valueHeaderLen]
    omega
  have hlen : ofLe ((raw.drop 17).take 4) = wire.length := by
    rw [h17, List.take_left' (length_toLe ..), Nat.mod_eq_of_lt (by omega),
      ofLe_toLe (show wire.length < 2 ^ 32 by omega)]
  unfold decodeValue
  rw [if_neg (by omega), hkind, u8ToKind_kindToU8, hlen]
  dsimp only
  rw [if_neg (by omega), hfilled, hexpires, h21, List.take_length, ofLe_toLe hf, ofLe_toLe he]

theorem decodeValue_encodeEntry {entry : CacheEntry} {now nowUnix : Nat} (hu : nowUnix < 2 ^ 64)
    (hw : (encodeEntry entry now nowUnix).length < 2 ^ 32) :
    decodeValue (encodeEntry entry now nowUnix) = .ok (toStored entry now nowUnix) :=
  decodeValue_encode (Nat.lt_of_le_of_lt (Nat.sub_le _ _) hu)
    (Nat.lt_of_le_of_lt (Nat.min_le_right _ _) (by decide)) hw

end Conduit
