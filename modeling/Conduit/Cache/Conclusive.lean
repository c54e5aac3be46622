import Conduit.Cache.Clock
import Conduit.Cache.Question

/-!
# The kind of a cached answer

`entry_from_wire` takes the kind of an entry from the low four bits of the response code, and what
it does not know is a positive answer. So an error that is about the query of one client (BADVERS,
REFUSED) is stored, and served to the next one.

- `EntryKind.Says`: the response code that a kind stands for.
- `Message.Conclusive`: the response codes that have a kind.
- `conclusive_iff`: the kind is right for these and for no others, and if all answers are such, so
  is every entry.
-/

namespace Conduit

/-- The response code that a kind stands for. -/
def EntryKind.Says : EntryKind → Nat → Prop
  | .positive, code | .noData, code => code = 0
  | .nxDomain, code => code = 3
  | .servFail, code => code = 2

instance (code : Nat) : (kind : EntryKind) → Decidable (kind.Says code)
  | .positive | .noData => inferInstanceAs (Decidable (code = 0))
  | .nxDomain => inferInstanceAs (Decidable (code = 3))
  | .servFail => inferInstanceAs (Decidable (code = 2))

/-- NOERROR, SERVFAIL or NXDOMAIN. -/
def Message.Conclusive (m : Message) : Prop :=
  m.responseCode = 0 ∨ m.responseCode = 2 ∨ m.responseCode = 3

instance (m : Message) : Decidable m.Conclusive := inferInstanceAs (Decidable (_ ∨ _))

theorem entryKind_says_iff (m : Message) : m.entryKind.Says m.responseCode ↔ m.Conclusive := by
  unfold Message.entryKind EntryKind.fromRcode Message.Conclusive Message.responseCode
  split
  next h0 => split <;> simp only [EntryKind.Says, h0] <;> omega
  next h0 =>
    split
    next h3 => simp only [EntryKind.Says, h3]; omega
    next h3 =>
      split
      next h2 => simp only [EntryKind.Says, h2]; omega
      next h2 => simp only [EntryKind.Says]; omega

/-! ## Runs -/

/-- The answer of every fill is conclusive, or it cannot be parsed. -/
def ConclusiveAnswers (w : CacheWiring) (s : CacheWorld) : CacheAct → Prop
  | .fill c mode u => ∀ call ∈ s.calls[c]?,
      ∀ wire ∈ forwardAnswer w.toSyncWiring call.txn u mode,
        ∀ m ∈ w.codec.fromVec wire, m.Conclusive
  | _ => True

instance (w : CacheWiring) (s : CacheWorld) : (a : CacheAct) → Decidable (ConclusiveAnswers w s a)
  | .fill _ _ _ => inferInstanceAs (Decidable (∀ call ∈ _, _))
  | .lookup _ _ | .resume _ | .op _ _ | .setInstances _ | .setConfig _ _ | .setAsyncCoalesce _
  | .drop _ _ => .isTrue trivial

/-- Every entry is of a kind that says what its response code is. -/
def CacheWorld.StoreConclusive (w : CacheWiring) (s : CacheWorld) : Prop :=
  ∀ i key wire, s.store i key = some wire →
    ∃ m, w.codec.fromVec wire = some m ∧ m.entryKind.Says m.responseCode

theorem ConclusiveAnswers.insertsMeet {w : CacheWiring} {s : CacheWorld} {a : CacheAct}
    (h : ConclusiveAnswers w s a) :
    InsertsMeet w (fun _ => True)
      (fun _ wire => ∃ m, w.codec.fromVec wire = some m ∧ m.entryKind.Says m.responseCode) s a := by
  cases a with
  | fill c mode u =>
    intro call hcall _ wire hwire ⟨cfg, hentry⟩ _ _ _
    obtain ⟨m, hm⟩ := Option.isSome_iff_exists.mp (Bool.and_eq_true_iff.mp hentry).1
    exact ⟨m, hm, (entryKind_says_iff m).mpr (h call hcall wire hwire m hm)⟩
  | _ => trivial

/-- The kind of an entry says what the response code is just for NOERROR, SERVFAIL and NXDOMAIN. If
all answers are such, no other ones get into the cache. -/
theorem conclusive_iff (w : CacheWiring) (recordTtl : Record → UInt32) :
    (∀ wire negativeEnabled servfailTtlSecs now e m,
      entryFromWire w.codec recordTtl wire negativeEnabled servfailTtlSecs now = some e →
        w.codec.fromVec wire = some m → (e.kind.Says m.responseCode ↔ m.Conclusive)) ∧
      ∀ s, (cacheWorld w).Reach (ConclusiveAnswers w) s → s.StoreConclusive w := by
  refine ⟨fun wire _ _ _ e m he hm => ?_, fun s h => ?_⟩
  · obtain ⟨m', hm', he⟩ := Option.bind_eq_some_iff.mp he
    obtain ⟨ttl, -, he⟩ := Option.bind_eq_some_iff.mp he
    cases hm.symm.trans hm'
    cases he
    exact entryKind_says_iff m
  · exact (CacheWorld.InsertInv.of_reach h fun _ _ hc => hc.insertsMeet).store

/-! ## An answer of another client -/

/-- A codec of an id, the QR bit, and the response code, with an OPT record for its high part. -/
def rcodeCodec : Codec where
  fromVec
    | [_, _, flags, high, low] => some
        { isResponse := flags == 128, queries := [{ name := "a.", qtype := 1, qclass := 1 }]
          rcode := low.toNat % 16, rcodeHigh := high.toNat
          edns := if high == 0 then none else some {} }
    | _ => none
  emit m := (toBeBytes m.id ++ [if m.isResponse then 128 else 0, UInt8.ofNat m.rcodeHigh,
    UInt8.ofNat m.rcode], true)

def rcodeWiring : CacheWiring where
  toSyncWiring := { octetWiring.toSyncWiring with codec := rcodeCodec }
  keys := octetWiring.keys
  ttlForWire cfg wire :=
    (ttlForWire rcodeCodec (fun _ => 60) wire cfg.negativeCacheEnabled
      (UInt32.ofNat cfg.servfailTtlSecs)).isSome

/-- An instance that caches negative answers. -/
def negativeInstance : CacheWorld where
  shared := { instances := fun _ => some 0 }
  config _ := { negativeCacheEnabled := true }

/-- A client's query of an unknown EDNS version gets BADVERS. It is stored as an empty answer, and
the second client gets it. -/
theorem badvers_stored :
    (∃ e m, entryFromWire rcodeCodec (fun _ => 60) [0, 0, 128, 1, 0] true 10 0 = some e ∧
      rcodeCodec.fromVec [0, 0, 128, 1, 0] = some m ∧ m.responseCode = 16 ∧ e.kind = .noData ∧
      ¬ e.kind.Says m.responseCode) ∧
    ∃ s, (cacheWorld rcodeWiring).Reach Lts.Any s ∧
      s.store 0 keyOfA = some [0, 0, 128, 1, 0] ∧
      s.calls[2]?.bind (·.served) = some [0, 0, 128, 1, 0] ∧ ¬ s.StoreConclusive rcodeWiring := by
  refine ⟨⟨_, _, rfl, rfl, rfl, rfl, by decide⟩, ?_⟩
  obtain ⟨s, hr, hstore, hserved⟩ := Lts.exists_exec (L := cacheWorld rcodeWiring) Lts.Any
    (s := negativeInstance) (filledWith .sync [9, 9, 128, 1, 0])
    (CacheWorld.CachedForA [0, 0, 128, 1, 0] [0, 0, 128, 1, 0])
    ⟨rfl, fun _ _ => rfl, fun _ => rfl⟩ (by decide +kernel)
  refine ⟨s, hr, hstore, hserved, fun hall => ?_⟩
  obtain ⟨m, hm, hsays⟩ := hall 0 keyOfA _ hstore
  cases hm
  revert hsays
  decide

/-- An NXDOMAIN is stored. -/
theorem conclusive_iff_sample : ∃ s,
    (cacheWorld rcodeWiring).Reach (ConclusiveAnswers rcodeWiring) s ∧
      s.store 0 keyOfA = some [0, 0, 128, 0, 3] ∧ s.StoreConclusive rcodeWiring := by
  obtain ⟨s, hr, hs⟩ := Lts.exists_exec (L := cacheWorld rcodeWiring)
    (ConclusiveAnswers rcodeWiring) (s := negativeInstance) (filledWith .sync [9, 9, 128, 0, 3])
    (·.store 0 keyOfA = some [0, 0, 128, 0, 3]) ⟨rfl, fun _ _ => rfl, fun _ => rfl⟩
    (by decide +kernel)
  exact ⟨s, hr, hs, (conclusive_iff rcodeWiring fun _ => 60).2 s hr⟩

end Conduit
