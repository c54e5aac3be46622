import Conduit.Core.Name
import Conduit.Cache.Key

/-!
# What a cache key tells

The parts of a key (`lookup/cache/key.rs`) are those of the query: its name in lower case, type,
class, the CD and DO flags and the client subnet option. A key tells all of them, and the shape of
the answer.

- `keyParts`: what a key takes from the name and the message.
- `buildKey_inj`: equal keys have equal parts.
- `key_isolation`: two queries have equal keys if they differ in the case of their names only.
-/

namespace Conduit

/-! ## The parts of a key -/

def Message.dnssecOk (m : Message) : Bool := (m.edns.map (·.dnssecOk)).getD false

def Message.clientSubnet (m : Message) : Option ClientSubnet := m.edns.bind (·.clientSubnet)

/-- `ecs_option_bytes`, of a message. -/
def Codec.ecsBytes (c : Codec) (m : Message) : Option (List UInt8) :=
  match m.clientSubnet with
  | none => some []
  | some subnet => c.subnetBytes subnet

def Codec.ParsesSubnet (c : Codec) (subnet : ClientSubnet) : Prop :=
  ∃ wire m, c.fromVec wire = some m ∧ m.clientSubnet = some subnet

/-- The options of parsed messages can be encoded, and their octets tell them apart. -/
structure Codec.EcsLawful (c : Codec) : Prop where
  succeeds : ∀ subnet, c.ParsesSubnet subnet → ∃ b, c.subnetBytes subnet = some b ∧ b ≠ []
  injective : ∀ subnet subnet', c.ParsesSubnet subnet → c.ParsesSubnet subnet' →
    c.subnetBytes subnet = c.subnetBytes subnet' → subnet = subnet'

theorem NameSyntax.length_normalizeQname (names : NameSyntax) (q : String) (b : List UInt8)
    (h : names.normalizeQname q = some b) : b.length ≤ 255 := by
  obtain ⟨n, -, hn⟩ := Option.bind_eq_some_iff.mp h
  exact names.length_emit n b hn

def keyParts (names : NameSyntax) (c : Codec) : KeyParts where
  normalizeQname := names.normalizeQname
  dnssecFlags wire := (c.fromVec wire).map fun m => (m.checkingDisabled, m.dnssecOk)
  ecsOptionBytes wire := (c.fromVec wire).bind c.ecsBytes
  length_normalized := names.length_normalizeQname

/-! ## Octets -/

theorem toBeBytes_inj {n k : Nat} (hn : n < 65536) (hk : k < 65536) (h : toBeBytes n = toBeBytes k) :
    n = k := by
  obtain ⟨hhi, hlo⟩ := List.cons.inj h
  have hhi := congrArg UInt8.toNat hhi
  have hlo := congrArg UInt8.toNat (List.cons.inj hlo).1
  simp only [UInt8.toNat_ofNat'] at hhi hlo
  omega

theorem flags_inj {cd cd' d d' : Bool}
    (h : UInt8.ofNat (2 * cd.toNat + d.toNat) = UInt8.ofNat (2 * cd'.toNat + d'.toNat)) :
    cd = cd' ∧ d = d' := by
  revert h
  cases cd <;> cases cd' <;> cases d <;> cases d' <;> decide

section

variable {c : Codec} (hc : c.EcsLawful) {m m' : Message}

include hc

theorem Codec.EcsLawful.exists_ecsBytes {wire : Wire} (hm : c.fromVec wire = some m) :
    ∃ b, c.ecsBytes m = some b ∧ (b = [] ↔ m.clientSubnet = none) := by
  unfold Codec.ecsBytes
  cases hs : m.clientSubnet with
  | none => exact ⟨[], rfl, by simp⟩
  | some subnet =>
    obtain ⟨b, hb, hne⟩ := hc.succeeds subnet ⟨wire, m, hm, hs⟩
    exact ⟨b, hb, by simp [hne]⟩

theorem Codec.EcsLawful.ecsBytes_inj {wire wire' : Wire} (hm : c.fromVec wire = some m)
    (hm' : c.fromVec wire' = some m') :
    c.ecsBytes m = c.ecsBytes m' ↔ m.clientSubnet = m'.clientSubnet := by
  refine ⟨fun h => ?_, fun h => by rw [ecsBytes, ecsBytes, h]⟩
  obtain ⟨b, hb, hnone⟩ := hc.exists_ecsBytes hm
  obtain ⟨b', hb', hnone'⟩ := hc.exists_ecsBytes hm'
  obtain rfl : b = b' := Option.some.inj (hb.symm.trans (h.trans hb'))
  cases hs : m.clientSubnet with
  | none => exact (hnone'.mp (hnone.mpr hs)).symm
  | some subnet =>
    cases hs' : m'.clientSubnet with
    | none => exact (hs.symm.trans (hnone.mp (hnone'.mpr hs')))
    | some subnet' =>
      rw [ecsBytes, ecsBytes, hs, hs'] at h
      rw [hc.injective subnet subnet' ⟨wire, m, hm, hs⟩ ⟨wire', m', hm', hs'⟩ h]

end

/-! ## Keys -/

/-- The parts of a key, as they are written. -/
structure KeyLayout where
  name : List UInt8
  qtype : Nat
  qclass : Nat
  cd : Bool
  dnssecOk : Bool
  transport : TransportKey
  ecs : List UInt8
  deriving DecidableEq

def KeyLayout.key (k : KeyLayout) : CacheKey :=
  keyVersion :: (toBeBytes k.name.length ++ (k.name ++ (toBeBytes k.qtype ++ (toBeBytes k.qclass ++
    (UInt8.ofNat (2 * k.cd.toNat + k.dnssecOk.toNat) :: k.transport.asByte ::
      UInt8.ofNat k.ecs.length :: k.ecs)))))

/-- The lengths and numbers that fit into their fields. -/
structure KeyLayout.Fits (k : KeyLayout) : Prop where
  name : k.name.length < 65536
  qtype : k.qtype < 65536
  qclass : k.qclass < 65536

theorem TransportKey.asByte_inj {t t' : TransportKey} (h : t.asByte = t'.asByte) : t = t' := by
  revert h
  cases t <;> cases t' <;> decide

/-- A key can be taken apart again. -/
theorem KeyLayout.key_inj {k k' : KeyLayout} (hk : k.Fits) (hk' : k'.Fits) (h : k.key = k'.key) :
    k = k' := by
  obtain ⟨-, h⟩ := List.cons.inj h
  obtain ⟨hlen, h⟩ := List.append_inj h rfl
  obtain ⟨hname, h⟩ := List.append_inj h (toBeBytes_inj hk.name hk'.name hlen)
  obtain ⟨hqtype, h⟩ := List.append_inj h rfl
  obtain ⟨hqclass, h⟩ := List.append_inj h rfl
  obtain ⟨hflags, h⟩ := List.cons.inj h
  obtain ⟨htransport, h⟩ := List.cons.inj h
  obtain ⟨-, hecs⟩ := List.cons.inj h
  have hqtype := toBeBytes_inj hk.qtype hk'.qtype hqtype
  have hqclass := toBeBytes_inj hk.qclass hk'.qclass hqclass
  obtain ⟨hcd, hdo⟩ := flags_inj hflags
  have htransport := TransportKey.asByte_inj htransport
  cases k
  cases k'
  simp_all only

def queryLayout (name : List UInt8) (ty cl : Nat) (m : Message) (ecs : List UInt8)
    (transport : TransportKey) : KeyLayout where
  name := name
  qtype := ty
  qclass := cl
  cd := m.checkingDisabled
  dnssecOk := m.dnssecOk
  transport := transport
  ecs := ecs

section

variable {names : NameSyntax} (hnames : names.Lawful) {c : Codec}

include hnames

theorem buildKeyFromParts_name {n : Name} (hn : n.isFqdn = true) (ty cl : Nat) {wire : Wire}
    {m : Message} (hm : c.fromVec wire = some m) (transport : TransportKey) :
    ∃ name, names.emit n.lower = some name ∧
      (keyParts names c).buildKeyFromParts (names.toUtf8 n) ty cl wire transport =
        (c.ecsBytes m).map fun ecs => (queryLayout name ty cl m ecs transport).key := by
  obtain ⟨name, hemit⟩ := Option.isSome_iff_exists.mp (hnames.emit_isSome n.lower)
  have hname : (keyParts names c).normalizeQname (names.toUtf8 n) = some name :=
    (NameSyntax.normalizeQname_toUtf8 hnames hn).trans hemit
  have hflags : (keyParts names c).dnssecFlags wire = some (m.checkingDisabled, m.dnssecOk) := by
    simp [keyParts, hm]
  have hecs : (keyParts names c).ecsOptionBytes wire = c.ecsBytes m := by simp [keyParts, hm]
  refine ⟨name, hemit, ?_⟩
  unfold KeyParts.buildKeyFromParts
  rw [hflags, hecs, hname]
  cases c.ecsBytes m <;> rfl

end

variable {cl ty : Nat}

theorem queryLayout_fits {names : NameSyntax} {n : Name} {name : List UInt8}
    (hname : names.emit n = some name) (m : Message) (ecs : List UInt8) (transport : TransportKey)
    (hty : ty < 65536) (hcl : cl < 65536) : (queryLayout name ty cl m ecs transport).Fits := by
  refine ⟨?_, hty, hcl⟩
  have hlen := names.length_emit n name hname
  show name.length < 65536
  omega

variable {n : Name}

/-- The transaction of a parsed query, with one question. -/
structure Transaction.AsksFor (names : NameSyntax) (c : Codec) (t : Transaction) (m : Message)
    (n : Name) (ty cl : Nat) : Prop where
  message : c.fromVec t.queryWire = some m
  qname : t.qname = some (names.toUtf8 n)
  isFqdn : n.isFqdn = true
  qtype : t.qtype = some ty
  qclass : t.qclass = some cl
  ty_lt : ty < 65536
  cl_lt : cl < 65536

variable {c : Codec} {m : Message} {names : NameSyntax} {t : Transaction}

theorem asksFor_parsed {p : ParsedQuery} (hp : structuralParse c t.queryWire = .ok p)
    (hname : p.qname = names.toUtf8 n) (hn : n.isFqdn = true) (hty : p.qtype < 65536)
    (hcl : p.qclass < 65536) :
    ∃ m, (applyParsedQuery t p).AsksFor names c m n p.qtype p.qclass := by
  unfold structuralParse at hp
  split at hp
  · cases hp
  split at hp
  · cases hp
  rename_i m hm
  exact ⟨m, hm, by rw [← hname]; rfl, hn, rfl, rfl, hty, hcl⟩

theorem Transaction.AsksFor.buildKey (hnames : names.Lawful) (h : t.AsksFor names c m n ty cl)
    (transport : TransportKey) :
    ∃ name, names.emit n.lower = some name ∧ (keyParts names c).buildKey transport t =
      (c.ecsBytes m).map fun ecs => (queryLayout name ty cl m ecs transport).key := by
  rw [KeyParts.buildKey, h.qname, h.qtype, h.qclass]
  exact buildKeyFromParts_name hnames h.isFqdn ty cl h.message transport

/-- The keys of two queries are equal if and only if the queries are equal up to the case of their
names, and no key of a complete answer is one of a truncated answer. -/
theorem key_isolation {names : NameSyntax} (hnames : names.Lawful) {c : Codec} (hc : c.EcsLawful)
    {t t' : Transaction} {m m' : Message} {n n' : Name} {ty ty' cl cl' : Nat}
    (h : t.AsksFor names c m n ty cl) (h' : t'.AsksFor names c m' n' ty' cl') :
    ∃ key key', (keyParts names c).buildQueryKey t = some key ∧
      (keyParts names c).buildQueryKey t' = some key' ∧
      (key = key' ↔ n.EqIgnoreCase n' ∧ ty = ty' ∧ cl = cl' ∧
        m.checkingDisabled = m'.checkingDisabled ∧ m.dnssecOk = m'.dnssecOk ∧
        m.clientSubnet = m'.clientSubnet) ∧
      ∀ truncated, (keyParts names c).buildTruncatedUdpKey t' = some truncated → key ≠ truncated := by
  obtain ⟨name, hname, hkey⟩ := h.buildKey hnames .complete
  obtain ⟨name', hname', hkey'⟩ := h'.buildKey hnames .complete
  obtain ⟨ecs, hecs, -⟩ := hc.exists_ecsBytes h.message
  obtain ⟨ecs', hecs', -⟩ := hc.exists_ecsBytes h'.message
  rw [hecs, Option.map_some] at hkey
  rw [hecs', Option.map_some] at hkey'
  refine ⟨_, _, hkey, hkey', ?_, ?_⟩
  · -- the octets of the name and of the option tell them
    have hnameIff : name = name' ↔ n.EqIgnoreCase n' := by
      rw [← Option.some_inj, ← hname, ← hname', hnames.emit_eq_iff]
      exact Iff.rfl
    have hecsIff : ecs = ecs' ↔ m.clientSubnet = m'.clientSubnet := by
      rw [← Option.some_inj, ← hecs, ← hecs', hc.ecsBytes_inj h.message h'.message]
    have hlayout : (queryLayout name ty cl m ecs .complete).key =
        (queryLayout name' ty' cl' m' ecs' .complete).key ↔
        queryLayout name ty cl m ecs .complete = queryLayout name' ty' cl' m' ecs' .complete :=
      ⟨KeyLayout.key_inj (queryLayout_fits hname m ecs _ h.ty_lt h.cl_lt)
        (queryLayout_fits hname' m' ecs' _ h'.ty_lt h'.cl_lt), fun heq => by rw [heq]⟩
    rw [hlayout, ← hnameIff, ← hecsIff]
    simp [queryLayout]
  · rintro truncated htruncated rfl
    have hcomplete := transportOf_build hkey
    rw [transportOf_build htruncated] at hcomplete
    cases hcomplete

/-- Queries for `Ab.` and `aB.`, with a client subnet. -/
def caseCodec : Codec where
  fromVec
    | [0] => some { queries := [{ name := "Ab.", qtype := 1, qclass := 1 }], edns := some ecs }
    | [1] => some { queries := [{ name := "aB.", qtype := 1, qclass := 1 }], edns := some ecs }
    | _ => none
  emit _ := ([], true)
  subnetBytes subnet := some ([0, 1, subnet.sourcePrefix, subnet.scopePrefix] ++ subnet.address.take 3)
where
  ecs : Edns :=
    { clientSubnet := some { address := [192, 0, 2, 0], sourcePrefix := 24, scopePrefix := 0 } }

theorem caseCodec_parsesSubnet {subnet : ClientSubnet} (h : caseCodec.ParsesSubnet subnet) :
    subnet = ⟨[192, 0, 2, 0], 24, 0⟩ := by
  obtain ⟨wire, m, hm, hs⟩ := h
  unfold caseCodec at hm
  dsimp only at hm
  split at hm <;> cases hm <;> exact (Option.some.inj hs).symm

theorem caseCodec_ecsLawful : caseCodec.EcsLawful where
  succeeds _ _ := ⟨_, rfl, by simp⟩
  injective _ _ h h' _ := (caseCodec_parsesSubnet h).trans (caseCodec_parsesSubnet h').symm

theorem labelsWire_one (l : Label) : (labelsWire [l]).length + 1 ≤ 255 := by
  have := l.length_le
  simp [labelsWire]
  omega

def sampleName (l : Label) : Name where
  labels := [l]
  length_le := labelsWire_one l

theorem key_isolation_sample : ∃ p p',
    structuralParse caseCodec [0] = .ok p ∧ structuralParse caseCodec [1] = .ok p' ∧
      p.qname = "Ab." ∧ p'.qname = "aB." ∧
      (keyParts .octets caseCodec).buildQueryKey (applyParsedQuery { queryWire := [0] } p) =
        (keyParts .octets caseCodec).buildQueryKey (applyParsedQuery { queryWire := [1] } p') := by
  have hupper : NameSyntax.octets.toUtf8 (sampleName ⟨[65, 98], nofun, by decide⟩) = "Ab." := rfl
  have hlower : NameSyntax.octets.toUtf8 (sampleName ⟨[97, 66], nofun, by decide⟩) = "aB." := rfl
  have hp : structuralParse caseCodec [0] = .ok ⟨0, 0, "Ab.", 1, 1, some 512, []⟩ := rfl
  have hp' : structuralParse caseCodec [1] = .ok ⟨0, 0, "aB.", 1, 1, some 512, []⟩ := rfl
  refine ⟨_, _, hp, hp', rfl, rfl, ?_⟩
  obtain ⟨m, h⟩ := asksFor_parsed (t := { queryWire := [0] }) hp hupper.symm rfl
    (by decide) (by decide)
  obtain ⟨m', h'⟩ := asksFor_parsed (t := { queryWire := [1] }) hp' hlower.symm rfl
    (by decide) (by decide)
  cases h.message
  cases h'.message
  obtain ⟨key, key', hkey, hkey', hiff, -⟩ := key_isolation NameSyntax.octets_lawful
    caseCodec_ecsLawful h h'
  rw [hkey, hkey', hiff.mpr (by decide)]

end Conduit
