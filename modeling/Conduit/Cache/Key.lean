import Mathlib.Data.List.DropRight
import Conduit.Core.Registry
import Conduit.Cache.Memory

/-!
# Cache keys and served answers

The cache key (`lookup/cache/key.rs`), the walk over the ancestors of a name
(`registry.rs`) and the preparation of a stored answer for a client (`serve.rs`).

What is read of the query message (`KeyParts`) is a parameter, as the message codec is. The codec
agrees with the TC bit of the header (`Codec.TcLawful`), except that an emitted message that
does not fit into 65535 octets loses records and gets the bit.

- `TransportKey`, `buildKeyFromParts`: the key, which has the shape of the answer in it.
- `transportOf`, `transportOf_build`: the shape can be read off a key.
- `tcBit`: the TC bit of a wire.
- `servedMessage`, `prepareServedWire`: an answer with the client's id, question and EDNS.
-/

namespace Conduit

/-! ## Keys -/

/-- The shape of the answer, not the transport of the client. -/
inductive TransportKey where
  | complete | udpTruncated
  deriving DecidableEq, Repr

def TransportKey.asByte : TransportKey → UInt8
  | .complete => 0
  | .udpTruncated => 2

/-- What a key takes from the name and from the query message. -/
structure KeyParts where
  /-- `normalize_qname`; `none`: the name cannot be parsed. -/
  normalizeQname : String → Option (List UInt8)
  /-- `dnssec_flags`: CD and DO. -/
  dnssecFlags : Wire → Option (Bool × Bool)
  ecsOptionBytes : Wire → Option (List UInt8)
  /-- A name has at most 255 octets. -/
  length_normalized : ∀ q b, normalizeQname q = some b → b.length ≤ 255

def keyVersion : UInt8 := 1

def toBeBytes (n : Nat) : List UInt8 := [UInt8.ofNat (n / 256), UInt8.ofNat n]

namespace KeyParts

variable (p : KeyParts)

def buildKeyFromParts (qname : String) (qtype qclass : Nat) (queryWire : Wire)
    (transport : TransportKey) : Option CacheKey := do
  let (cd, dnssecOk) ← p.dnssecFlags queryWire
  let ecs ← p.ecsOptionBytes queryWire
  let normalized ← p.normalizeQname qname
  let flags := 2 * cd.toNat + dnssecOk.toNat
  return keyVersion :: (toBeBytes normalized.length ++ (normalized ++
    (toBeBytes qtype ++ (toBeBytes qclass ++
      (UInt8.ofNat flags :: transport.asByte :: UInt8.ofNat ecs.length :: ecs)))))

/-- The key for the question of a transaction. -/
def buildKey (transport : TransportKey) (t : Transaction) : Option CacheKey :=
  p.buildKeyFromParts (t.qname.getD ".") (t.qtype.getD 0) (t.qclass.getD 1) t.queryWire transport

def buildQueryKey (t : Transaction) : Option CacheKey := p.buildKey .complete t

def buildTruncatedUdpKey (t : Transaction) : Option CacheKey := p.buildKey .udpTruncated t

/-- The key that the walk of a transaction reads for an ancestor of its name. -/
def ancestorKey (t : Transaction) (ancestor : String) : Option CacheKey :=
  p.buildKeyFromParts ancestor (t.qtype.getD 0) (t.qclass.getD 1) t.queryWire .complete

end KeyParts

/-- The transport part of a key: the name's length is in front of it, and five octets behind it. -/
def transportOf : CacheKey → Option UInt8
  | _ :: hi :: lo :: rest => rest[256 * hi.toNat + lo.toNat + 5]?
  | _ => none

section

variable {p : KeyParts} {qname : String} {qtype qclass : Nat} {queryWire : Wire}
  {transport : TransportKey} {key : CacheKey}
  (h : p.buildKeyFromParts qname qtype qclass queryWire transport = some key)
include h

theorem exists_of_build : ∃ normalized flags rest, p.normalizeQname qname = some normalized ∧
    key = keyVersion :: 0 :: UInt8.ofNat normalized.length :: (normalized ++
      (toBeBytes qtype ++ (toBeBytes qclass ++ (flags :: transport.asByte :: rest)))) ∧
    (UInt8.ofNat normalized.length).toNat = normalized.length := by
  unfold KeyParts.buildKeyFromParts at h
  obtain ⟨⟨cd, dnssecOk⟩, -, h⟩ := Option.bind_eq_some_iff.mp h
  obtain ⟨ecs, -, h⟩ := Option.bind_eq_some_iff.mp h
  obtain ⟨normalized, hname, h⟩ := Option.bind_eq_some_iff.mp h
  have hlen := p.length_normalized qname normalized hname
  cases h
  have hdiv : normalized.length / 256 = 0 := by omega
  refine ⟨normalized, _, _, hname, by rw [toBeBytes, hdiv]; rfl, ?_⟩
  rw [UInt8.toNat_ofNat']
  omega

theorem transportOf_build : transportOf key = some transport.asByte := by
  obtain ⟨normalized, flags, rest, -, rfl, hlen⟩ := exists_of_build h
  rw [transportOf, hlen, UInt8.toNat_zero, Nat.mul_zero, Nat.zero_add,
    List.getElem?_append_right (by omega), Nat.add_sub_cancel_left]
  rfl

end

/-! ## Ancestors -/

/-- The loop of `ancestor_qnames`: the first label is removed, until one is left. -/
def parentQnames : List (List Char) → List String
  | _ :: label :: labels =>
    String.ofList (['.'].intercalate (label :: labels) ++ ['.']) :: parentQnames (label :: labels)
  | _ => []

/-- `ancestor_qnames`: the parents of a name, the nearest first. -/
def ancestorQnames (qname : String) : List String :=
  let trimmed := qname.toList.rdropWhile (· == '.')
  if trimmed.isEmpty then [] else parentQnames (trimmed.splitOn '.')

/-- What a walk over the ancestors finds if no entry changes on the way. -/
def ancestorWalk (key : String → Option CacheKey) (get : CacheKey → Option Wire)
    (isNxDomain : Wire → Bool) : List String → Option Wire
  | [] => none
  | ancestor :: rest =>
    match (key ancestor).bind get with
    | none => none
    | some wire => if isNxDomain wire then some wire else ancestorWalk key get isNxDomain rest

/-- The walk finds the first NXDOMAIN, if there is an entry for every name before it. -/
theorem ancestorWalk_eq_some {key : String → Option CacheKey} {get : CacheKey → Option Wire}
    {isNxDomain : Wire → Bool} {names : List String} {wire : Wire} :
    ancestorWalk key get isNxDomain names = some wire ↔
      ∃ near name far, names = near ++ name :: far ∧
        (∀ a ∈ near, ∃ other, (key a).bind get = some other ∧ isNxDomain other = false) ∧
        (key name).bind get = some wire ∧ isNxDomain wire = true := by
  induction names with
  | nil => simp [ancestorWalk]
  | cons a names ih =>
    unfold ancestorWalk
    split
    next hnone =>
      refine ⟨nofun, ?_⟩
      rintro ⟨near, name, far, heq, hnear, hwire, -⟩
      cases near with
      | nil =>
        cases heq
        cases hnone.symm.trans hwire
      | cons b near =>
        cases heq
        obtain ⟨other, hother, -⟩ := hnear a (List.mem_cons_self ..)
        cases hnone.symm.trans hother
    next first hfirst =>
      split
      next hnx =>
        constructor
        · rintro ⟨⟩
          exact ⟨[], a, names, rfl, nofun, hfirst, hnx⟩
        · rintro ⟨near, name, far, heq, hnear, hwire, -⟩
          cases near with
          | nil =>
            cases heq
            exact hfirst.symm.trans hwire
          | cons b near =>
            cases heq
            obtain ⟨other, hother, hnot⟩ := hnear a (List.mem_cons_self ..)
            cases hfirst.symm.trans hother
            cases hnx.symm.trans hnot
      next hnx =>
        rw [ih]
        constructor
        · rintro ⟨near, name, far, rfl, hnear, hwire⟩
          refine ⟨a :: near, name, far, rfl, fun b hb => ?_, hwire⟩
          rcases List.mem_cons.mp hb with rfl | hb
          · exact ⟨first, hfirst, by simpa using hnx⟩
          · exact hnear b hb
        · rintro ⟨near, name, far, heq, hnear, hwire, hnx'⟩
          cases near with
          | nil =>
            cases heq
            cases hfirst.symm.trans hwire
            exact absurd hnx' hnx
          | cons b near =>
            cases heq
            exact ⟨near, name, far, rfl, fun c hc => hnear c (List.mem_cons_of_mem a hc), hwire, hnx'⟩

def EntryKind.fromRcode (rcode answerCount : Nat) : EntryKind :=
  if rcode = 0 then if answerCount = 0 then .noData else .positive
  else if rcode = 3 then .nxDomain
  else if rcode = 2 then .servFail
  else .positive

/-- The stored answer is an NXDOMAIN. -/
def isNxDomain (c : Codec) (wire : Wire) : Bool :=
  (c.fromVec wire).any fun m => EntryKind.fromRcode m.rcode m.answers.length == .nxDomain

/-! ## The TC bit -/

/-- The TC bit of a message header (bit 1 of byte 2). -/
def tcBit (w : Wire) : Bool := w[2]?.any fun b => b.toNat / 2 % 2 == 1

/-- The codec agrees with the TC bit; the messages that `oversized` says do not fit into 65535
octets, and are emitted without some of their records. -/
structure Codec.TcLawful (c : Codec) (oversized : Message → Bool) : Prop where
  fromVec_tc : ∀ w m, c.fromVec w = some m → tcBit w = m.truncated
  emit_tc : ∀ m, (c.emit m).2 = true → oversized m = false → tcBit (c.emit m).1 = m.truncated

/-! ## Serving -/

/-- What the age of an entry and the rotation of its record sets make of the sections. -/
structure Aging where
  answers : List Record → List Record := id
  nameServers : List Record → List Record := id
  additionals : List Record → List Record := id

/-- The message of `prepare_served_wire`. -/
def servedMessage (c : Codec) (t : Transaction) (aging : Aging) (stored : Wire) :
    Option Message := do
  let m ← c.fromVec stored
  let client ← c.fromVec t.queryWire
  return { m with
    id := t.dnsId
    queries := client.queries
    edns := client.edns.or m.edns
    answers := aging.answers m.answers
    nameServers := aging.nameServers m.nameServers
    additionals := aging.additionals m.additionals }

def prepareServedWire (c : Codec) (t : Transaction) (aging : Aging) (stored : Wire) :
    Option Wire :=
  (servedMessage c t aging stored).bind (emitMessage c)

/-- A served wire has the TC bit of the stored one, if the message fits. -/
theorem tcBit_prepareServedWire {c : Codec} {oversized : Message → Bool}
    (hc : c.TcLawful oversized) {t : Transaction} {aging : Aging} {stored served : Wire}
    (h : prepareServedWire c t aging stored = some served)
    (hfits : ∀ m ∈ servedMessage c t aging stored, oversized m = false) :
    tcBit served = tcBit stored := by
  obtain ⟨m, hm, hemit⟩ := Option.bind_eq_some_iff.mp h
  have hfit := hfits m hm
  unfold servedMessage at hm
  obtain ⟨m₀, hfrom, hm⟩ := Option.bind_eq_some_iff.mp hm
  obtain ⟨client, -, hm⟩ := Option.bind_eq_some_iff.mp hm
  unfold emitMessage at hemit
  split at hemit
  · rename_i hall
    cases hemit
    rw [hc.emit_tc m hall hfit, hc.fromVec_tc stored m₀ hfrom]
    cases hm
    rfl
  · cases hemit

end Conduit
