import Mathlib.Data.List.Nodup
import Conduit.Lib.Lts
import Conduit.Acl.Policy

/-!
# The access gate

One gate per ingress worker (`conduit-dataplane/src/acl_gate.rs`): it keeps the compiled policy of
its listener, by bind address, and compiles it again when the generation of the snapshot has
changed. A query is decided in two tiers, before and after it is parsed.

The decision counters and the log lines are left out; no decision depends on them.

- `AclGate.decide`: both tiers. `AclGate.decide_eq`: the full evaluation of the gate's policy.
- `AclSystem`, `aclSystem`: the snapshots that the configurator installs, and one gate.
- `AclSystem.Inv`: the policy of the gate is the one of the snapshot whose generation it has.
- `acl_agrees`: the gate, the full evaluation and the check agree.
-/

namespace Conduit

/-- The parts of a snapshot that the gate reads. -/
structure AclSnapshot where
  config : IngressConfig
  dataSources : DataSourceStore
  generation : Nat

inductive AclGateOutcome where
  | admitted
  | admitTagged (tag : String)
  | drop
  | refuse
  deriving DecidableEq, Repr

structure AclGate where
  listenerAddress : String
  listenerProtocol : String
  generation : Option Nat := none
  /-- `none`: no access list applies to the listener. -/
  compiled : Option CompiledAclPolicy := none
  deriving DecidableEq

/-- `listener_acls_from_snap`: by bind address; a listener that is gone inherits. -/
def listenerAclsFromSnap (snap : AclSnapshot) (address protocol : String) : Option AclsConfig :=
  snap.config.listeners.bind fun block =>
    (block.listeners.find? fun ln => ln.address == address && ln.protocol == protocol).bind (·.acls)

/-- What ingress does with a decision. -/
def AclDecision.outcome : AclDecision → AclGateOutcome
  | .admitted => .admitted
  | .tag name => .admitTagged name
  | .drop => .drop
  | .refuse => .refuse

namespace AclGate

def new (listener : Listener) : AclGate where
  listenerAddress := listener.address
  listenerProtocol := listener.protocol

/-- `refresh`; `none`: the compile panics. -/
def refresh (g : AclGate) (snap : AclSnapshot) : Option AclGate :=
  if g.generation = some snap.generation then some g
  else
    let global := snap.config.acls
    let listener := listenerAclsFromSnap snap g.listenerAddress g.listenerProtocol
    match effectiveAcl global listener with
    | none => some { g with generation := some snap.generation, compiled := none }
    | some _ =>
      (CompiledAclPolicy.compileEffective global listener).map fun policy =>
        { g with generation := some snap.generation, compiled := some policy }

def preadmission (g : AclGate) (addr : IpAddr) (store : DataSourceStore) : AclGateOutcome :=
  match g.compiled with
  | none => .admitted
  | some policy =>
    match evaluatePreadmission addr store policy with
    | .drop => .drop
    | _ => .admitted

def full (g : AclGate) (addr : IpAddr) (store : DataSourceStore) : AclGateOutcome :=
  match g.compiled with
  | none => .admitted
  | some policy => (evaluateFull addr store policy).outcome

def decidePreadmission (g : AclGate) (snap : AclSnapshot) (addr : IpAddr) :
    Option (AclGate × AclGateOutcome) :=
  (g.refresh snap).map fun g => (g, g.preadmission addr snap.dataSources)

def decideFull (g : AclGate) (snap : AclSnapshot) (addr : IpAddr) :
    Option (AclGate × AclGateOutcome) :=
  (g.refresh snap).map fun g => (g, g.full addr snap.dataSources)

/-- Both tiers, as the listeners call them around the parse. -/
def decide (g : AclGate) (snap : AclSnapshot) (addr : IpAddr) :
    Option (AclGate × AclGateOutcome) :=
  match g.decidePreadmission snap addr with
  | some (g, .admitted) => g.decideFull snap addr
  | other => other

end AclGate

/-! ## The two tiers -/

/-- A drop in the first tier is the decision of the full evaluation. -/
theorem preadmission_drop {addr : IpAddr} {store : DataSourceStore} {policy : CompiledAclPolicy}
    (h : evaluatePreadmission addr store policy = .drop) :
    evaluateFull addr store policy = .drop := by
  rw [evaluatePreadmission_eq] at h
  rw [evaluateFull_eq]
  cases hfirst : policy.firstMatch addr store with
  | none => simp [hfirst] at h
  | some rule =>
    obtain ⟨view, action⟩ := rule
    cases action <;> simp [hfirst] at h
    rfl

namespace AclGate

variable {g : AclGate} {snap : AclSnapshot}

theorem refresh_current (h : g.generation = some snap.generation) : g.refresh snap = some g :=
  if_pos h

theorem refresh_generation {g' : AclGate} (h : g.refresh snap = some g') :
    g'.generation = some snap.generation := by
  unfold refresh at h
  split at h
  · cases h
    assumption
  · simp only at h
    split at h
    · cases h
      rfl
    · obtain ⟨policy, -, rfl⟩ := Option.map_eq_some_iff.mp h
      rfl

def policy (g : AclGate) : CompiledAclPolicy := g.compiled.getD .admitAll

/-- The two tiers make the decision of the full evaluation. -/
theorem decide_eq {g' : AclGate} (h : g.refresh snap = some g') (addr : IpAddr) :
    g.decide snap addr =
      some (g', (evaluateFull addr snap.dataSources g'.policy).outcome) := by
  have hsame : g'.refresh snap = some g' := refresh_current (refresh_generation h)
  unfold decide decidePreadmission
  rw [h]
  cases hc : g'.compiled with
  | none => simp [preadmission, decideFull, hsame, full, hc, policy]; rfl
  | some policy =>
    simp only [preadmission, hc, Option.map_some, AclGate.policy, Option.getD_some]
    cases hpre : evaluatePreadmission addr snap.dataSources policy with
    | drop =>
      rw [preadmission_drop hpre]
      rfl
    | admitted | refuse | tag _ => simp [decideFull, hsame, full, hc]

end AclGate

/-! ## Snapshots and a gate -/

/-- The snapshot store, and the gate of one ingress worker. -/
structure AclSystem where
  current : AclSnapshot
  /-- The counter of the store. -/
  generation : Nat
  gate : AclGate

inductive AclAct where
  /-- `install_validated_with_base`. -/
  | install (config : IngressConfig) (dataSources : DataSourceStore)
  /-- The gate sees a query, or refreshes for another reason. -/
  | refresh

namespace AclSystem

/-- The process after its start: `SnapshotStore::new`, then one swap of the same snapshot. -/
def boot (config : IngressConfig) (dataSources : DataSourceStore) (listener : Listener) :
    AclSystem where
  current := ⟨config, dataSources, 0⟩
  generation := 1
  gate := .new listener

def step (s : AclSystem) : AclAct → Option AclSystem
  | .install config dataSources =>
    if validateAcls config = [] then
      some { s with
        current := ⟨config, dataSources, s.generation + 1⟩, generation := s.generation + 1 }
    else none
  | .refresh => (s.gate.refresh s.current).map fun g => { s with gate := g }

end AclSystem

abbrev aclSystem : Lts where
  St := AclSystem
  Act := AclAct
  init s := ∃ config dataSources listener,
    validateAcls config = [] ∧ s = .boot config dataSources listener
  step := AclSystem.step

namespace AclSystem

/-- The access list that the snapshot gives the gate's listener. -/
def effective (s : AclSystem) : Option CompiledAclPolicy :=
  CompiledAclPolicy.compileEffective s.current.config.acls
    (listenerAclsFromSnap s.current s.gate.listenerAddress s.gate.listenerProtocol)

structure Inv (s : AclSystem) : Prop where
  valid : validateAcls s.current.config = []
  current_le : s.current.generation ≤ s.generation
  gate_le : ∀ g ∈ s.gate.generation, g ≤ s.current.generation
  /-- A gate with the generation of the snapshot has its policy. -/
  policy : s.gate.generation = some s.current.generation → s.effective = some s.gate.policy

theorem Inv.compiles {s : AclSystem} (h : s.Inv) : ∃ policy, s.effective = some policy := by
  refine compileEffective_isSome h.valid fun acls hacls => ?_
  obtain ⟨block, hblock, hfind⟩ := Option.bind_eq_some_iff.mp hacls
  obtain ⟨ln, hln, hacls⟩ := Option.bind_eq_some_iff.mp hfind
  exact ⟨block, hblock, ln, List.mem_of_find?_eq_some hln, hacls⟩

/-- A refresh does not panic, and leaves the gate with the policy of the snapshot. -/
theorem Inv.refresh {s : AclSystem} (h : s.Inv) :
    ∃ g, s.gate.refresh s.current = some g ∧ g.listenerAddress = s.gate.listenerAddress ∧
      g.listenerProtocol = s.gate.listenerProtocol ∧ s.effective = some g.policy := by
  by_cases hgen : s.gate.generation = some s.current.generation
  · exact ⟨s.gate, AclGate.refresh_current hgen, rfl, rfl, h.policy hgen⟩
  obtain ⟨policy, hp⟩ := h.compiles
  unfold AclGate.refresh
  rw [if_neg hgen]
  simp only
  split
  · rename_i hnone
    refine ⟨_, rfl, rfl, rfl, ?_⟩
    rw [effective, CompiledAclPolicy.compileEffective, hnone]
    rfl
  · unfold effective at hp ⊢
    rw [hp]
    exact ⟨_, rfl, rfl, rfl, rfl⟩

theorem inv_step {s s' : AclSystem} {a : AclAct} (h : s.Inv) (he : s.step a = some s') : s'.Inv := by
  cases a with
  | install config dataSources =>
    simp only [step] at he
    split at he
    · rename_i hv
      cases he
      refine ⟨hv, Nat.le_refl _, ?_, ?_⟩
      · intro g hg
        have := h.gate_le g hg
        have := h.current_le
        simp only
        omega
      · -- no gate has the new generation yet
        intro hgen
        have hle : s.generation + 1 ≤ s.current.generation := h.gate_le _ hgen
        have := h.current_le
        omega
    · cases he
  | refresh =>
    obtain ⟨g, hg, haddr, hproto, hp⟩ := h.refresh
    simp only [step, hg, Option.map_some, Option.some.injEq] at he
    subst he
    have hgen := AclGate.refresh_generation hg
    refine ⟨h.valid, h.current_le, ?_, ?_⟩
    · intro n hn
      rw [hgen] at hn
      cases hn
      exact Nat.le_refl _
    · intro _
      rw [← hp]
      simp only [effective, haddr, hproto]

theorem inv_of_reach {s : AclSystem} (hr : aclSystem.Reach Lts.Any s) : s.Inv := by
  refine Lts.Reach.inv (P := Inv) ?_ (fun _ _ _ _ h _ he => inv_step h he) hr
  rintro _ ⟨config, dataSources, listener, hv, rfl⟩
  exact ⟨hv, Nat.zero_le _, by simp [boot, AclGate.new], by simp [boot, AclGate.new]⟩

/-- With distinct bind addresses, the gate finds the access list of its own listener. -/
theorem listenerAcls_eq {snap : AclSnapshot} {block : ListenersConfig} {ln : Listener}
    (hblock : snap.config.listeners = some block) (hln : ln ∈ block.listeners)
    (hdistinct : (block.listeners.map fun ln => (ln.address, ln.protocol)).Nodup) :
    listenerAclsFromSnap snap ln.address ln.protocol = ln.acls := by
  have hfound : (block.listeners.find? fun x => x.address == ln.address && x.protocol == ln.protocol) =
      some ln := by
    cases hf : block.listeners.find? fun x => x.address == ln.address && x.protocol == ln.protocol with
    | none => simpa using List.find?_eq_none.mp hf ln hln
    | some x =>
      have hx := List.find?_some hf
      simp only [Bool.and_eq_true, beq_iff_eq] at hx
      refine congrArg some (List.inj_on_of_nodup_map hdistinct (List.mem_of_find?_eq_some hf) hln ?_)
      rw [hx.1, hx.2]
  rw [listenerAclsFromSnap, hblock, Option.bind_some, hfound, Option.bind_some]

end AclSystem

/-- **Access decisions agree.** The two tiers of a gate make the decision of the full evaluation. In
every state that installs and refreshes lead to, the gate makes the decision of the full evaluation
of its listener's policy in the current snapshot, and if no two listeners have the same bind address
and protocol, the check reports that decision for the listener, with the view and the action of the
first rule that matches. -/
theorem acl_agrees {s : AclSystem} (hr : aclSystem.Reach Lts.Any s) (addr : IpAddr) :
    (∀ (g : AclGate) (snap : AclSnapshot) (policy : CompiledAclPolicy),
      g.generation = some snap.generation → g.compiled = some policy →
      g.decide snap addr = some (g, (evaluateFull addr snap.dataSources policy).outcome)) ∧
    ∃ policy gate, s.effective = some policy ∧
      s.gate.decide s.current addr =
        some (gate, (evaluateFull addr s.current.dataSources policy).outcome) ∧
      ∀ (block : ListenersConfig) (i : Nat) (ln : Listener), s.current.config.listeners = some block →
        (block.listeners.map fun ln => (ln.address, ln.protocol)).Nodup →
        block.listeners[i]? = some ln → ln.address = s.gate.listenerAddress →
        ln.protocol = s.gate.listenerProtocol →
        ∃ r : AclCheckResult,
          r.listener = ln.ingressName ∧
          (r.decision, r.tag) = (evaluateFull addr s.current.dataSources policy).report ∧
          (r.matched, r.action) =
            policy.detail (policy.firstMatch addr s.current.dataSources) ∧
          (∃ rs, checkClientAcl s.current.config s.current.dataSources addr none = .ok rs ∧
            rs[i]? = some r) ∧
          ∃ rs, checkClientAcl s.current.config s.current.dataSources addr (some ln.ingressName) =
            .ok rs ∧ r ∈ rs := by
  refine ⟨fun g snap policy hgen hc => ?_, ?_⟩
  · rw [AclGate.decide_eq (AclGate.refresh_current hgen), AclGate.policy, hc]
    rfl
  have hinv := AclSystem.inv_of_reach hr
  obtain ⟨g, hg, -, -, hp⟩ := hinv.refresh
  refine ⟨g.policy, g, hp, AclGate.decide_eq hg addr, ?_⟩
  intro block i ln hblock hdistinct hi haddr hproto
  obtain ⟨r, hone, hall, hnamed⟩ :=
    checkClientAcl_reports hinv.valid hblock hi s.current.dataSources addr
  rw [AclSystem.effective, ← haddr, ← hproto,
    AclSystem.listenerAcls_eq hblock (List.mem_of_getElem? hi) hdistinct] at hp
  rw [checkOneListener, hp] at hone
  cases hone
  exact ⟨_, rfl, rfl, matchDetail_eq, hall, hnamed⟩

/-- Everyone is denied, but the listener `:53` tags the clients of the view `corp`. -/
def sampleAcls : IngressConfig where
  acls := some { defaultAction := "deny" }
  listeners := some { listeners := [
    { address := ":53", protocol := "udp", acls := some { rules := [⟨"corp", "tag", some "vip"⟩] } },
    { address := ":53", protocol := "tcp" }] }
  dataSources := [{ name := "corp", type := "cidr" }]

/-- The view `corp` is `10.0.0.0/8`. -/
def sampleCidr : DataSourceStore where
  cidrTables := [("corp", { v4 := .single ⟨0x0a000000, 8⟩ "1" })]

/-- The UDP listener after a reload that brings the access lists. -/
def sampleAclSystem : AclSystem where
  current := ⟨sampleAcls, sampleCidr, 2⟩
  generation := 2
  gate := { listenerAddress := ":53", listenerProtocol := "udp", generation := some 0 }

theorem sampleAclSystem_reach : aclSystem.Reach Lts.Any sampleAclSystem := by
  have h0 : aclSystem.Reach Lts.Any (.boot {} {} { address := ":53", protocol := "udp" }) :=
    .init ⟨{}, {}, _, rfl, rfl⟩
  have h1 := Lts.Reach.step (a := AclAct.refresh) h0 trivial rfl
  have hvalid : validateAcls sampleAcls = [] := by decide
  exact .step (a := AclAct.install sampleAcls sampleCidr) h1 trivial
    (by simp only [AclSystem.step, hvalid]; rfl)

theorem acl_agrees_sample :
    (∃ gate, sampleAclSystem.gate.decide sampleAclSystem.current (.v4 0x0a010203) =
      some (gate, .admitTagged "vip")) ∧
    ∃ rs, checkClientAcl sampleAcls sampleCidr (.v4 0x0a010203) none = .ok rs ∧
      rs[0]?.map (·.tag) = some (some "vip") := by
  obtain ⟨-, policy, gate, hp, hdecide, hcheck⟩ :=
    acl_agrees sampleAclSystem_reach (.v4 0x0a010203)
  have hpolicy : policy = ⟨.allow, [⟨"corp", .tag "vip"⟩]⟩ := by
    have he : sampleAclSystem.effective = some ⟨.allow, [⟨"corp", .tag "vip"⟩]⟩ := by decide
    exact Option.some.inj (hp.symm.trans he)
  subst hpolicy
  obtain ⟨r, -, hr, -, ⟨rs, hrs, hi⟩, -⟩ := hcheck _ 0 _ rfl (by decide) rfl rfl rfl
  refine ⟨⟨gate, hdecide⟩, rs, hrs, ?_⟩
  rw [hi, Option.map_some, (Prod.mk.inj hr).2]

end Conduit
