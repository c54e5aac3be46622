import Conduit.Acl.Policy

/-!
# Socket families

A listener that is bound to an IPv6 wildcard address sees an IPv4 client under the IPv4-mapped
address `::ffff:a`, and hands that address on as it is. The CIDR tables have a prefix map for each
family (`conduit-script/src/cidr.rs`), so the access lists and the selector `client_cidr`
(`conduit-events/src/selectors.rs`) look the client up in the other map.

- `CidrTable.lookup_mapped_iff`: the two lookups of a client.
- `CompiledSelector.matchesCtx`, `ruleMatches`: the selectors of a rule.
- `FamilyBlind`: an IPv4 client and its mapped address are treated alike.
- `familyBlind_iff`: when that is so, by the entries of the tables.
-/

namespace Conduit

/-- The address `::ffff:a`. -/
def IpAddr.mapped (a : BitVec 32) : IpAddr := .v6 (0xffff#96 ++ a)

/-! ## Tables -/

namespace IpNet

variable {w : Nat}

theorem same_of_contains {net net' : IpNet w} {addr : BitVec w} (h : net.contains addr = true)
    (h' : net'.contains addr = true) (hlen : net.prefixLen = net'.prefixLen) :
    net.same net' = true := by
  simp only [contains, beq_iff_eq] at h h'
  simp only [same, contains, hlen, beq_self_eq_true, Bool.true_and, beq_iff_eq]
  rw [h', ← hlen, h]

end IpNet

theorem PrefixMap.longest_unique {w : Nat} (m : PrefixMap w) {addr : BitVec w}
    {e e' : IpNet w × String} (he : IpNet.Longest m.entries addr e)
    (he' : IpNet.Longest m.entries addr e') : e = e' :=
  m.distinct e he.mem e' he'.mem (IpNet.same_of_contains he.contains he'.contains
    (Nat.le_antisymm (he'.max e he.mem he.contains) (he.max e' he'.mem he'.contains)))

namespace CidrTable

/-- No prefix contains the client under either address, or the longest prefixes of the two families
have one value. -/
def Agrees (t : CidrTable) (a : BitVec 32) : Prop :=
  ((∀ e ∈ t.v4.entries, e.1.contains a = false) ∧
      ∀ e ∈ t.v6.entries, e.1.contains (0xffff#96 ++ a) = false) ∨
    ∃ e e', IpNet.Longest t.v4.entries a e ∧ IpNet.Longest t.v6.entries (0xffff#96 ++ a) e' ∧
      e.2 = e'.2

theorem lookup_mapped_iff (t : CidrTable) (a : BitVec 32) :
    t.lookup (.mapped a) = t.lookup (.v4 a) ↔ t.Agrees a := by
  change (t.v6.getLpm (0xffff#96 ++ a)).map (·.2) = (t.v4.getLpm a).map (·.2) ↔ _
  rcases t.v4.getLpm_cases a with ⟨hget, hno⟩ | ⟨e, hget, hlong⟩ <;>
    rcases t.v6.getLpm_cases (0xffff#96 ++ a) with ⟨hget', hno'⟩ | ⟨e', hget', hlong'⟩ <;>
    rw [hget, hget']
  · exact iff_of_true rfl (.inl ⟨hno, hno'⟩)
  · refine iff_of_false nofun ?_
    rintro (⟨-, hnone⟩ | ⟨e, e'', hlong, -⟩)
    · exact absurd hlong'.contains (by rw [hnone e' hlong'.mem]; decide)
    · exact absurd hlong.contains (by rw [hno e hlong.mem]; decide)
  · refine iff_of_false nofun ?_
    rintro (⟨hnone, -⟩ | ⟨e'', e', -, hlong', -⟩)
    · exact absurd hlong.contains (by rw [hnone e hlong.mem]; decide)
    · exact absurd hlong'.contains (by rw [hno' e' hlong'.mem]; decide)
  · rw [Option.map_some, Option.map_some, Option.some.injEq]
    constructor
    · exact fun heq => .inr ⟨e, e', hlong, hlong', heq.symm⟩
    · rintro (⟨hnone, -⟩ | ⟨e₁, e₂, h₁, h₂, heq⟩)
      · exact absurd hlong.contains (by rw [hnone e hlong.mem]; decide)
      · rw [t.v4.longest_unique hlong h₁, t.v6.longest_unique hlong' h₂, heq]

end CidrTable

/-! ## Selectors -/

inductive AnswerSourceSelector where
  | cache | forward
  deriving DecidableEq, Repr

/-- The salt of a sampler. -/
inductive SampleKey where
  | global
  | literal (key : String)
  | fromQname
  deriving DecidableEq, Repr

inductive CompiledSelector where
  | qnameSuffix (suffix : String)
  | qnameExact (name : String)
  | qtype (wire : Nat)
  | rcode (wire : Nat)
  | qclass (wire : Nat)
  | opcode (wire : Nat)
  | ednsOption (wire : Nat)
  | tag (key : String)
  | answerSource (expected : AnswerSourceSelector)
  | cacheInstance (name : String)
  /-- The percentage in hundredths. -/
  | samplePercent (percent : Nat) (key : SampleKey)
  | everyNthWorker (nth : Nat)
  | everyNthGlobal (nth : Nat)
  | clientCidr (name : String)
  deriving DecidableEq, Repr

structure SelectorMatchCtx where
  txnId : Nat := 1
  globalQueryIndex : Nat := 1
  qname : Option String := none
  qtype : Option Nat := none
  rcode : Option Nat := none
  qclass : Option Nat := none
  opcode : Option Nat := none
  ednsOptionCodes : List Nat := []
  answerSource : Option AnswerSourceSelector := none
  cacheInstance : Option String := none
  tagHas : String → Bool := fun _ => false
  clientCidrMatch : Option (String → Bool) := none
  /-- `hash_sample_keyed` of the transaction, a percentage and a salt. -/
  hashSampleKeyed : Nat → Nat → Option String → Bool := fun _ _ _ => false

def resolveSampleKey (key : SampleKey) (ctx : SelectorMatchCtx) : Option String :=
  match key with
  | .global => none
  | .literal s => some s
  | .fromQname => ctx.qname

def CompiledSelector.matchesCtx (ctx : SelectorMatchCtx) : CompiledSelector → Bool
  | .qnameSuffix suffix => ctx.qname.any (·.endsWith suffix)
  | .qnameExact name => ctx.qname == some name
  | .qtype wire => ctx.qtype == some wire
  | .rcode wire => ctx.rcode == some wire
  | .qclass wire => ctx.qclass == some wire
  | .opcode wire => ctx.opcode == some wire
  | .ednsOption wire => ctx.ednsOptionCodes.contains wire
  | .tag key => ctx.tagHas key
  | .answerSource expected => ctx.answerSource == some expected
  | .cacheInstance name => ctx.cacheInstance == some name
  | .samplePercent percent key =>
    if key = .fromQname ∧ ctx.qname.isNone then false
    else ctx.hashSampleKeyed ctx.txnId percent (resolveSampleKey key ctx)
  | .everyNthWorker n => n ≥ 1 && ctx.txnId % n == 0
  | .everyNthGlobal n => n ≥ 1 && ctx.globalQueryIndex % n == 0
  | .clientCidr name => ctx.clientCidrMatch.any (· name)

/-- `matches` of a rule: the selectors of a query of the client. -/
def ruleMatches (selectors : List CompiledSelector) (ctx : SelectorMatchCtx) (client : IpAddr)
    (store : DataSourceStore) : Bool :=
  let cidr := fun name => (store.lookupIp name client).isSome
  selectors.all (·.matchesCtx { ctx with clientCidrMatch := some cidr })

/-! ## Families -/

/-- A client is treated alike under its address and under the mapped one: by every lookup, every
access list and every rule. -/
structure FamilyBlind (store : DataSourceStore) (a : BitVec 32) : Prop where
  lookup : ∀ name, store.lookupIp name (.mapped a) = store.lookupIp name (.v4 a)
  preadmission : ∀ policy,
    evaluatePreadmission (.mapped a) store policy = evaluatePreadmission (.v4 a) store policy
  full : ∀ policy, evaluateFull (.mapped a) store policy = evaluateFull (.v4 a) store policy
  rules : ∀ selectors ctx,
    ruleMatches selectors ctx (.mapped a) store = ruleMatches selectors ctx (.v4 a) store

/-- The policies and the rules see a client only through the lookups. -/
theorem familyBlind_of_lookup {store : DataSourceStore} {a : BitVec 32}
    (h : ∀ name, store.lookupIp name (.mapped a) = store.lookupIp name (.v4 a)) :
    FamilyBlind store a := by
  have hfirst : ∀ policy : CompiledAclPolicy,
      policy.firstMatch (.mapped a) store = policy.firstMatch (.v4 a) store := fun policy => by
    simp only [CompiledAclPolicy.firstMatch, h]
  refine ⟨h, fun policy => ?_, fun policy => ?_, fun selectors ctx => ?_⟩
  · rw [evaluatePreadmission_eq, evaluatePreadmission_eq, hfirst]
  · rw [evaluateFull_eq, evaluateFull_eq, hfirst]
  · simp only [ruleMatches, h]

/-- A client is treated alike exactly if every table agrees on its two addresses. -/
theorem familyBlind_iff (store : DataSourceStore) (a : BitVec 32) :
    FamilyBlind store a ↔
      ∀ name t, store.cidrTables.lookup name = some t → t.Agrees a := by
  have hone : ∀ name t, store.cidrTables.lookup name = some t →
      (store.lookupIp name (.mapped a) = store.lookupIp name (.v4 a) ↔ t.Agrees a) := by
    intro name t ht
    rw [← t.lookup_mapped_iff, DataSourceStore.lookupIp, DataSourceStore.lookupIp, ht]
    rfl
  constructor
  · exact fun h name t ht => (hone name t ht).mp (h.lookup name)
  · refine fun h => familyBlind_of_lookup fun name => ?_
    cases ht : store.cidrTables.lookup name with
    | none => rw [DataSourceStore.lookupIp, DataSourceStore.lookupIp, ht]; rfl
    | some t => exact (hone name t ht).mpr (h name t ht)

/-- A table with the networks of both forms of an address. -/
def dualTable : CidrTable where
  v4 := .single ⟨0x0a000000#32, 8⟩ "corp"
  v6 := .single ⟨0xffff0a000000#128, 104⟩ "corp"

theorem familyBlind_sample : FamilyBlind ⟨[("nets", dualTable)]⟩ 0x0a010203#32 := by
  refine (familyBlind_iff _ _).mpr fun name t ht => ?_
  have htable : t = dualTable := by
    simp only [List.lookup_cons] at ht
    split at ht
    · exact (Option.some.inj ht).symm
    · cases ht
  rw [htable]
  refine .inr ⟨(⟨0x0a000000#32, 8⟩, "corp"), (⟨0xffff0a000000#128, 104⟩, "corp"), ?_, ?_, rfl⟩
  · exact ⟨by decide, by decide, by decide⟩
  · exact ⟨by decide, by decide, by decide⟩

def v4Table : CidrTable where
  v4 := .single ⟨0x0a000000#32, 8⟩ "corp"

/-- An access list that drops a network: the client is admitted under its mapped address, the table
has no entry for it, and the rule for the network does not match. -/
theorem mapped_client_differs :
    evaluateFull (.v4 0x0a010203#32) ⟨[("nets", v4Table)]⟩ ⟨.allow, [⟨"nets", .drop⟩]⟩ = .drop ∧
    evaluateFull (.mapped 0x0a010203#32) ⟨[("nets", v4Table)]⟩ ⟨.allow, [⟨"nets", .drop⟩]⟩ =
      .admitted ∧
    v4Table.lookup (.v4 0x0a010203#32) = some "corp" ∧
    v4Table.lookup (.mapped 0x0a010203#32) = none ∧
    ruleMatches [.clientCidr "nets"] {} (.v4 0x0a010203#32) ⟨[("nets", v4Table)]⟩ = true ∧
    ruleMatches [.clientCidr "nets"] {} (.mapped 0x0a010203#32) ⟨[("nets", v4Table)]⟩ = false := by
  decide

end Conduit
