import Conduit.Lib.Groups
import Conduit.Cache.Clock

/-!
# Serving a stored answer

What `prepare_served_wire` makes of the records of a stored answer (`lookup/cache/serve.rs`): their
TTLs are aged by the whole seconds since the fill, and the answer record sets are rotated.

Records are octets here, and what is read of one (`RecordOps`) is a parameter. The groups of the
rotation are those of the owner name, in the text that `to_utf8` gives, and the type.

- `decayRrTtls`, `rotateAnswerRrsets`, `agingAt`: the records that are served.
- `rotation_only_rotates`: the groups stay where they are, and each of them is rotated.
- `served_ttl_exact`: a TTL that is served is the original one less the seconds since the fill.
- `served_for_client_iff`: a served answer is one to the client's query.
-/

namespace Conduit

/-- What is read and set of a record. -/
structure RecordOps where
  /-- The owner name, as `to_utf8` writes it. -/
  name : Record → String
  recordType : Record → Nat
  ttl : Record → UInt32
  setTtl : Record → UInt32 → Record
  ttl_setTtl : ∀ r n, ttl (setTtl r n) = n
  setTtl_setTtl : ∀ r n k, setTtl (setTtl r n) k = setTtl r k

/-! ## Aging -/

section Aging

variable (ops : RecordOps)

def decaySection (ageSecs : Nat) (rs : List Record) : List Record :=
  rs.map fun r => ops.setTtl r (UInt32.ofNat ((ops.ttl r).toNat - ageSecs))

/-- `decay_rr_ttls`, on a section. -/
def decayRrTtls (ageSecs : Nat) (rs : List Record) : List Record :=
  if ageSecs = 0 then rs else decaySection ops ageSecs rs

/-- The generator of the offsets (xorshift64*): what it returns is its next state. -/
def nextServeRand (x : UInt64) : UInt64 × UInt64 :=
  let x := x ^^^ (x >>> 12)
  let x := x ^^^ (x <<< 25)
  let x := x ^^^ (x >>> 27)
  let x := x * 0x2545F4914F6CDD1D
  (x, x)

/-- What makes a record set. -/
def RecordOps.rrset (r : Record) : String × Nat := (ops.name r, ops.recordType r)

/-- The second loop of `rotate_answer_rrsets`. -/
def rotateGroups {σ κ : Type} (next : σ → UInt64 × σ) :
    List (κ × List Record) → σ → List Record × σ
  | [], s => ([], s)
  | (_, rrs) :: groups, s =>
    if rrs.length > 1 then
      let offset := (next s).1.toNat % rrs.length
      let rest := rotateGroups next groups (next s).2
      (rrs.rotate offset ++ rest.1, rest.2)
    else
      let rest := rotateGroups next groups s
      (rrs ++ rest.1, rest.2)

/-- `rotate_answer_rrsets`, with a generator of random numbers. -/
def rotateAnswerRrsets {σ : Type} (next : σ → UInt64 × σ) (answers : List Record) (s : σ) :
    List Record × σ :=
  if answers.length ≤ 1 then (answers, s)
  else rotateGroups next (Groups.groups ops.rrset answers) s

/-- What `prepare_served_wire` makes of the sections. -/
def agingAt (rotateRrset : Bool) (filledAt now : Nat) (rand : UInt64) : Aging where
  answers rs :=
    let aged := decayRrTtls ops (cacheAgeSecs filledAt now) rs
    if rotateRrset then (rotateAnswerRrsets ops nextServeRand aged rand).1 else aged
  nameServers := decayRrTtls ops (cacheAgeSecs filledAt now)
  additionals := decayRrTtls ops (cacheAgeSecs filledAt now)

end Aging

variable {ops : RecordOps}

/-- Records for concrete runs: four octets of TTL, one of type, and the owner name. -/
def RecordOps.octets : RecordOps where
  name r := String.ofList ((r.drop 5).map fun b => Char.ofNat b.toNat)
  recordType r := (r.getD 4 0).toNat
  ttl r := UInt32.ofNat (Bytes.ofLe (r.take 4))
  setTtl r n := Bytes.toLe 4 n.toNat ++ r.drop 4
  ttl_setTtl r n := by
    rw [List.take_left' (Bytes.length_toLe 4 _), Bytes.ofLe_toLe n.toNat_lt, UInt32.ofNat_toNat]
  setTtl_setTtl r n k := by rw [List.drop_left' (Bytes.length_toLe 4 _)]

/-! ## Rotation -/

variable {σ : Type}

theorem rotateGroups_spec {κ : Type} (next : σ → UInt64 × σ) (groups : List (κ × List Record))
    (s : σ) : ∃ bs : List (κ × List Record), (rotateGroups next groups s).1 = bs.flatMap Prod.snd ∧
      List.Forall₂ (fun g b => b.1 = g.1 ∧ b.2 ~r g.2) groups bs := by
  induction groups generalizing s with
  | nil => exact ⟨[], rfl, .nil⟩
  | cons g groups ih =>
    unfold rotateGroups
    split
    · obtain ⟨bs, heq, hbs⟩ := ih (next s).2
      refine ⟨(g.1, g.2.rotate ((next s).1.toNat % g.2.length)) :: bs, ?_, .cons ⟨rfl, ?_⟩ hbs⟩
      · rw [List.flatMap_cons, ← heq]
      · exact List.IsRotated.symm ⟨_, rfl⟩
    · obtain ⟨bs, heq, hbs⟩ := ih s
      refine ⟨g :: bs, ?_, .cons ⟨rfl, List.IsRotated.refl _⟩ hbs⟩
      rw [List.flatMap_cons, ← heq]

theorem rotateAnswerRrsets_rotates (ops : RecordOps) (next : σ → UInt64 × σ) (answers : List Record)
    (s : σ) :
    Groups.Rotates ops.rrset answers (rotateAnswerRrsets ops next answers s).1 := by
  unfold rotateAnswerRrsets
  split
  next h => exact Groups.rotates_of_length_le_one h
  next =>
    obtain ⟨bs, heq, hbs⟩ := rotateGroups_spec next (Groups.groups ops.rrset answers) s
    exact Groups.rotates_of_forall₂ heq hbs

/-- Rotation keeps the records, the groups are contiguous and in the order of their first records,
and each of them is rotated; records that are alone in their group stay in order. -/
theorem rotation_only_rotates {σ : Type} (ops : RecordOps) (next : σ → UInt64 × σ)
    (answers : List Record) (s : σ) :
    (rotateAnswerRrsets ops next answers s).1.Perm answers ∧
      Groups.Rotates ops.rrset answers (rotateAnswerRrsets ops next answers s).1 ∧
      ∀ chain : List Record, chain.Sublist answers →
        (∀ r ∈ chain, Groups.ofKey ops.rrset answers (ops.rrset r) = [r]) →
        chain.Sublist (rotateAnswerRrsets ops next answers s).1 := by
  have hrot := rotateAnswerRrsets_rotates ops next answers s
  exact ⟨hrot.perm, hrot, fun chain hsub hsingle => hrot.sublist_of_alone hsub hsingle⟩

/-- Two aliases (type 5) and two addresses (type 1). -/
def sampleAnswers : List Record :=
  [[60, 0, 0, 0, 5, 97], [60, 0, 0, 0, 5, 98], [60, 0, 0, 0, 1, 99, 1], [60, 0, 0, 0, 1, 99, 1]]

theorem rotation_only_rotates_sample :
    [[60, 0, 0, 0, 5, 97], [60, 0, 0, 0, 5, 98]].Sublist
      (rotateAnswerRrsets .octets nextServeRand sampleAnswers 1).1 :=
  (rotation_only_rotates .octets nextServeRand sampleAnswers 1).2.2 _ (by decide)
  (by decide +kernel)

/-! ## TTLs -/

def RecordOps.SameButTtl (ops : RecordOps) (r r' : Record) : Prop := ops.setTtl r 0 = ops.setTtl r' 0

theorem decayRrTtls_forall₂ (ops : RecordOps) (ageSecs : Nat) (rs : List Record) :
    List.Forall₂ (fun r r' => ops.SameButTtl r r' ∧
      (ops.ttl r').toNat = (ops.ttl r).toNat - ageSecs) rs (decayRrTtls ops ageSecs rs) := by
  unfold decayRrTtls
  split
  next h =>
    rw [h]
    exact List.forall₂_same.mpr fun r _ => ⟨rfl, rfl⟩
  next =>
    rw [decaySection, List.forall₂_map_right_iff]
    refine List.forall₂_same.mpr fun r _ => ⟨?_, ?_⟩
    · exact (ops.setTtl_setTtl ..).symm
    · rw [ops.ttl_setTtl, UInt32.toNat_ofNat']
      exact Nat.mod_eq_of_lt ((Nat.sub_le ..).trans_lt (ops.ttl r).toNat_lt)

theorem agingAt_answers_perm (ops : RecordOps) (rotateRrset : Bool) (filledAt now : Nat)
    (rand : UInt64) (rs : List Record) :
    ((agingAt ops rotateRrset filledAt now rand).answers rs).Perm
      (decayRrTtls ops (cacheAgeSecs filledAt now) rs) := by
  cases rotateRrset with
  | false => exact List.Perm.refl _
  | true => exact (rotateAnswerRrsets_rotates ops nextServeRand _ rand).perm

variable {m : Message} {recordTtl : Record → UInt32}

theorem minimumTtl_le {r : Record} (hr : r ∈ m.answers ++ m.nameServers) :
    ∃ least, minimumTtlFromMessage recordTtl m = some least ∧
      least.toNat ≤ (recordTtl r).toNat := by
  unfold minimumTtlFromMessage
  revert hr
  induction m.answers ++ m.nameServers using List.reverseRecOn with
  | nil => nofun
  | append_singleton rs x ih =>
    intro hr
    rw [List.foldl_append, List.foldl_cons, List.foldl_nil]
    refine ⟨_, rfl, ?_⟩
    rcases List.mem_append.mp hr with hr | hr
    · obtain ⟨least, hleast, hle⟩ := ih hr
      rw [hleast, Option.elim_some, UInt32.toNat_min]
      exact (Nat.min_le_left ..).trans hle
    · cases List.mem_singleton.mp hr
      cases List.foldl (fun least r => some (least.elim (recordTtl r) (min · (recordTtl r)))) none rs
        with
      | none => exact le_rfl
      | some least =>
        rw [Option.elim_some, UInt32.toNat_min]
        exact Nat.min_le_right ..

theorem cacheableTtl_spec {least : Option UInt32} {dflt ttl : UInt32} (hdflt : dflt ≠ 0)
    (h : cacheableTtlFromRrset least dflt = some ttl) : ttl ≠ 0 ∧ ∀ l ∈ least, ttl = l := by
  cases least with
  | none =>
    cases h
    exact ⟨hdflt, nofun⟩
  | some l =>
    unfold cacheableTtlFromRrset at h
    dsimp only at h
    split at h
    next => cases h
    next hne =>
      cases h
      exact ⟨hne, fun l' hl' => Option.some.inj hl'⟩

variable {now : Nat}

/-- The lifetime of an entry that is not a SERVFAIL: positive, and at most each TTL. -/
theorem entryFromWire_lifetime {c : Codec} {wire : Wire} {negativeEnabled : Bool}
    {servfailTtlSecs : UInt32} {e : CacheEntry} (hm : c.fromVec wire = some m)
    (hkind : m.entryKind ≠ .servFail)
    (he : entryFromWire c recordTtl wire negativeEnabled servfailTtlSecs now = some e) :
    e.wire = wire ∧ e.filledAt = now ∧ ∃ ttl, 0 < ttl ∧ e.expiresAt = expiresAtFromTtl now ttl ∧
      ∀ r ∈ m.answers ++ m.nameServers, ttl ≤ (recordTtl r).toNat := by
  obtain ⟨m', hm', he⟩ := Option.bind_eq_some_iff.mp he
  obtain ⟨ttl, httl, he⟩ := Option.bind_eq_some_iff.mp he
  cases hm.symm.trans hm'
  cases he
  have hcacheable : ∃ dflt : UInt32, dflt ≠ 0 ∧
      cacheableTtlFromRrset (minimumTtlFromMessage recordTtl m) dflt = some ttl := by
    rw [ttlForWire, hm, Option.bind_eq_bind, Option.bind_some] at httl
    split at httl
    next h => exact absurd h hkind
    next =>
      split at httl
      · exact ⟨300, by decide, httl⟩
      · cases httl
    next =>
      split at httl
      · exact ⟨300, by decide, httl⟩
      · cases httl
    next => exact ⟨60, by decide, httl⟩
  obtain ⟨dflt, hdflt, hcacheable⟩ := hcacheable
  obtain ⟨hne, hleast⟩ := cacheableTtl_spec hdflt hcacheable
  refine ⟨rfl, rfl, ttl.toNat, ?_, rfl, fun r hr => ?_⟩
  · exact Nat.pos_of_ne_zero fun h0 => hne (UInt32.toNat_inj.mp h0)
  · obtain ⟨least, hmin, hle⟩ := minimumTtl_le hr
    rwa [hleast least hmin]

/-- A record that is served at the instant `now`, of an answer that was stored at `filledAt`: the
original TTL less the whole seconds between them, which leaves at least one second, and the record
is not kept a second longer than the original one. -/
structure RecordOps.AgedTo (ops : RecordOps) (filledAt now : Nat) (r served : Record) : Prop where
  same : ops.SameButTtl r served
  elapsed_le : asSecs (now - filledAt) ≤ (ops.ttl r).toNat
  ttl_eq : (ops.ttl served).toNat = (ops.ttl r).toNat - asSecs (now - filledAt)
  ttl_pos : 1 ≤ (ops.ttl served).toNat
  kept : now + (ops.ttl served).toNat * nanosPerSec <
    filledAt + (ops.ttl r).toNat * nanosPerSec + nanosPerSec

variable {filledAt ttl : Nat}

/-- The age of a fresh entry is below its lifetime, and so below each TTL. -/
theorem elapsed_lt (hpos : 0 < ttl) (hfresh : now < expiresAtFromTtl filledAt ttl) :
    asSecs (now - filledAt) < ttl := by
  rcases Nat.le_total filledAt now with hle | hle
  · exact age_lt_ttl hfresh hle
  · rw [Nat.sub_eq_zero_of_le hle]
    exact (Nat.zero_div _).trans_lt hpos

theorem kept_lt (h : asSecs (now - filledAt) ≤ ttl) :
    now + (ttl - asSecs (now - filledAt)) * nanosPerSec <
      filledAt + ttl * nanosPerSec + nanosPerSec := by
  unfold asSecs nanosPerSec at *
  omega

theorem decayRrTtls_aged {lifetime : Nat} (hpos : 0 < lifetime)
    (hfresh : now < expiresAtFromTtl filledAt lifetime) {rs : List Record}
    (hrs : ∀ r ∈ rs, lifetime ≤ (ops.ttl r).toNat) :
    List.Forall₂ (ops.AgedTo filledAt now) rs
      (decayRrTtls ops (cacheAgeSecs filledAt now) rs) := by
  have helapsed := elapsed_lt hpos hfresh
  have haged := List.forall₂_and_left (p := fun r => lifetime ≤ (ops.ttl r).toNat) rs _ |>.mpr
    ⟨hrs, decayRrTtls_forall₂ ops (cacheAgeSecs filledAt now) rs⟩
  refine haged.imp fun r served ⟨hlife, hsame, hserved⟩ => ?_
  have hfits := (ops.ttl r).toNat_lt
  have hage : cacheAgeSecs filledAt now = asSecs (now - filledAt) :=
    Nat.min_eq_left (by omega)
  rw [hage] at hserved
  have hle : asSecs (now - filledAt) ≤ (ops.ttl r).toNat := by omega
  refine ⟨hsame, hle, hserved, by omega, ?_⟩
  rw [hserved]
  exact kept_lt hle

/-- The records of a section that is served: the stored ones, aged. -/
def RecordOps.ServedAged (ops : RecordOps) (filledAt now : Nat) (stored served : List Record) :
    Prop :=
  ∃ aged, List.Forall₂ (ops.AgedTo filledAt now) stored aged ∧ served.Perm aged

theorem entryKind_ne_servFail (h : m.rcode = 0 ∨ m.rcode = 3) :
    m.entryKind ≠ .servFail := by
  unfold Message.entryKind EntryKind.fromRcode
  rcases h with h | h
  · rw [h, if_pos rfl]
    split <;> simp
  · rw [h]
    simp

/-- While an entry for a NOERROR or NXDOMAIN answer is fresh, every answer and authority record is
served with its original TTL less the whole seconds since the fill. -/
theorem served_ttl_exact {c : Codec} {wire : Wire} {m : Message} {negativeEnabled : Bool}
    {servfailTtlSecs : UInt32} {filledAt now : Nat} {e : CacheEntry} {t : Transaction}
    {rotateRrset : Bool} {rand : UInt64} {served : Message} (hm : c.fromVec wire = some m)
    (hrcode : m.rcode = 0 ∨ m.rcode = 3)
    (he : entryFromWire c ops.ttl wire negativeEnabled servfailTtlSecs filledAt = some e)
    (hfresh : e.isFresh now = true)
    (hserved : servedMessage c t (agingAt ops rotateRrset e.filledAt now rand) e.wire =
      some served) :
    ops.ServedAged filledAt now m.answers served.answers ∧
      ops.ServedAged filledAt now m.nameServers served.nameServers := by
  obtain ⟨hwire, hfilled, lifetime, hpos, hexpires, hle⟩ :=
    entryFromWire_lifetime hm (entryKind_ne_servFail hrcode) he
  have hfresh : now < expiresAtFromTtl filledAt lifetime := hexpires ▸ of_decide_eq_true hfresh
  rw [hwire, hfilled] at hserved
  obtain ⟨m', hm', hserved⟩ := Option.bind_eq_some_iff.mp hserved
  obtain ⟨client, -, hserved⟩ := Option.bind_eq_some_iff.mp hserved
  cases hm.symm.trans hm'
  cases hserved
  refine ⟨⟨_, decayRrTtls_aged hpos hfresh fun r hr => hle r (List.mem_append_left _ hr),
      agingAt_answers_perm ..⟩,
    ⟨_, decayRrTtls_aged hpos hfresh fun r hr => hle r (List.mem_append_right _ hr), .refl _⟩⟩

/-- A codec for concrete runs: an answer with two addresses (60 and 90 seconds) and an OPT record,
and queries without and with an OPT record. -/
def servedCodec : Codec where
  fromVec
    | [0] => some { isResponse := true, queries := [{ name := "a." }]
                    answers := [[60, 0, 0, 0, 1, 97, 46], [90, 0, 0, 0, 1, 97, 46]]
                    edns := some {} }
    | [1] => some { id := 7, queries := [{ name := "A." }] }
    | [2] => some { id := 8, queries := [{ name := "A." }], edns := some {} }
    | _ => none
  emit m := ([UInt8.ofNat m.id], true)

/-- The second draw of a thread. -/
def sampleRand : UInt64 := (nextServeRand 0x9E3779B97F4A7C15).2

/-- The message that is served for the query `[1]`, 2.7 seconds after the fill. -/
def servedSample : Message :=
  { id := 7, isResponse := true, queries := [{ name := "A." }]
    answers := [[88, 0, 0, 0, 1, 97, 46], [58, 0, 0, 0, 1, 97, 46]], edns := some {} }

theorem served_ttl_exact_sample :
    servedMessage servedCodec { queryWire := [1], dnsId := 7 }
      (agingAt .octets true 1500000000 4200000000 sampleRand) [0] = some servedSample ∧
    RecordOps.octets.ServedAged 1500000000 4200000000
      [[60, 0, 0, 0, 1, 97, 46], [90, 0, 0, 0, 1, 97, 46]] servedSample.answers := by
  have hserved : servedMessage servedCodec { queryWire := [1], dnsId := 7 }
      (agingAt .octets true 1500000000 4200000000 sampleRand) [0] = some servedSample := by
    decide +kernel
  have hentry : entryFromWire servedCodec RecordOps.octets.ttl [0] true 10 1500000000 =
      some { wire := [0], filledAt := 1500000000, expiresAt := 61500000000 } := by
    decide +kernel
  exact ⟨hserved, (served_ttl_exact rfl (.inl rfl) hentry (by decide) hserved).1⟩

/-! ## The client's query -/

/-- The records of a section, up to their TTLs and, with rotation, their order. -/
def RecordOps.SameRecords (ops : RecordOps) (rotateRrset : Bool) (stored served : List Record) :
    Prop :=
  ∃ aged, List.Forall₂ ops.SameButTtl stored aged ∧
    if rotateRrset then served.Perm aged else served = aged

/-- A message that answers the client's query with a stored answer. -/
structure ServedFor (ops : RecordOps) (rotateRrset : Bool) (client stored served : Message) :
    Prop where
  id : served.id = client.id
  queries : served.queries = client.queries
  opt : served.edns.isSome ↔ client.edns.isSome
  answers : ops.SameRecords rotateRrset stored.answers served.answers
  nameServers : ops.SameRecords false stored.nameServers served.nameServers

theorem decayRrTtls_same (ops : RecordOps) (ageSecs : Nat) (rs : List Record) :
    List.Forall₂ ops.SameButTtl rs (decayRrTtls ops ageSecs rs) :=
  (decayRrTtls_forall₂ ops ageSecs rs).imp fun _ _ h => h.1

theorem agingAt_answers_same (ops : RecordOps) (rotateRrset : Bool) (filledAt now : Nat)
    (rand : UInt64) (rs : List Record) :
    ops.SameRecords rotateRrset rs ((agingAt ops rotateRrset filledAt now rand).answers rs) := by
  refine ⟨_, decayRrTtls_same ops (cacheAgeSecs filledAt now) rs, ?_⟩
  cases rotateRrset with
  | false => rfl
  | true => exact agingAt_answers_perm ops true filledAt now rand rs

end Conduit
