import Conduit.Config.Validate

/-!
# Access lists

The rules of an `acls:` block over the CIDR data sources (`conduit-core/src/acl.rs`,
`conduit-script/src/cidr.rs`), their validation (`conduit-config/src/validate.rs`), and the check
that the control plane answers (`check_client_acl`).

Three loops walk a rule list: the preadmission tier, the full evaluation, and the one that names the
matched view. Each is a function of the first rule that matches (`firstMatch`).

- `CompiledAclPolicy.compile`: it panics on what `validateAcls` refuses (`compileEffective_isSome`).
- `evaluatePreadmission_eq`, `evaluateFull_eq`, `matchDetail_eq`: the loops and `firstMatch`.
- `checkClientAcl_reports`: the report covers every listener of a valid configuration.
-/

namespace Conduit

/-! ## CIDR tables -/

/-- A prefix of addresses of `w` bits. -/
structure IpNet (w : Nat) where
  addr : BitVec w
  prefixLen : Nat
  deriving DecidableEq

inductive IpAddr where
  | v4 (addr : BitVec 32)
  | v6 (addr : BitVec 128)
  deriving DecidableEq

def IpNet.contains {w : Nat} (net : IpNet w) (addr : BitVec w) : Bool :=
  net.addr >>> (w - net.prefixLen) == addr >>> (w - net.prefixLen)

/-- The same prefix: of one length, and equal in its leading bits. -/
def IpNet.same {w : Nat} (net net' : IpNet w) : Bool :=
  net.prefixLen == net'.prefixLen && net.contains net'.addr

/-- The entry has the longest prefix that contains the address. -/
structure IpNet.Longest {w : Nat} (entries : List (IpNet w × String)) (addr : BitVec w)
    (e : IpNet w × String) : Prop where
  mem : e ∈ entries
  contains : e.1.contains addr = true
  max : ∀ e' ∈ entries, e'.1.contains addr = true → e'.1.prefixLen ≤ e.1.prefixLen

/-- A `PrefixMap` of `prefix_trie`: it has each prefix once, and `get_lpm` finds the entry with the
longest prefix that contains the address. -/
structure PrefixMap (w : Nat) where
  entries : List (IpNet w × String)
  getLpm : BitVec w → Option (IpNet w × String)
  distinct : ∀ e ∈ entries, ∀ e' ∈ entries, e.1.same e'.1 = true → e = e'
  getLpm_cases : ∀ addr, (getLpm addr = none ∧ ∀ e ∈ entries, e.1.contains addr = false) ∨
    ∃ e, getLpm addr = some e ∧ IpNet.Longest entries addr e

def PrefixMap.empty {w : Nat} : PrefixMap w where
  entries := []
  getLpm _ := none
  distinct := nofun
  getLpm_cases _ := .inl ⟨rfl, nofun⟩

def PrefixMap.single {w : Nat} (net : IpNet w) (value : String) : PrefixMap w where
  entries := [(net, value)]
  getLpm addr := if net.contains addr then some (net, value) else none
  distinct e he e' he' _ := (List.mem_singleton.mp he).trans (List.mem_singleton.mp he').symm
  getLpm_cases addr := by
    cases hc : net.contains addr with
    | false => exact .inl ⟨rfl, fun e he => by rw [List.mem_singleton.mp he, hc]⟩
    | true =>
      refine .inr ⟨_, rfl, List.mem_singleton_self _, hc, fun e' he' _ => ?_⟩
      exact Nat.le_of_eq (congrArg (·.1.prefixLen) (List.mem_singleton.mp he'))

structure CidrTable where
  v4 : PrefixMap 32 := .empty
  v6 : PrefixMap 128 := .empty

def CidrTable.lookup (t : CidrTable) : IpAddr → Option String
  | .v4 a => (t.v4.getLpm a).map (·.2)
  | .v6 a => (t.v6.getLpm a).map (·.2)

structure DataSourceStore where
  cidrTables : List (String × CidrTable) := []

def DataSourceStore.lookupIp (s : DataSourceStore) (name : String) (addr : IpAddr) :
    Option String :=
  (s.cidrTables.lookup name).bind (·.lookup addr)

/-! ## The configuration -/

structure AclRule where
  /-- `match`: the name of a data source of type `cidr`. -/
  view : String := ""
  action : String := ""
  tag : Option String := none
  deriving DecidableEq

structure AclsConfig where
  defaultAction : String := ""
  rules : List AclRule := []
  deriving DecidableEq

structure Listener where
  address : String := ""
  protocol : String := ""
  name : Option String := none
  acls : Option AclsConfig := none
  deriving DecidableEq

structure ListenersConfig where
  listeners : List Listener := []
  deriving DecidableEq

/-- What the access lists read of a configuration. -/
structure IngressConfig where
  listeners : Option ListenersConfig := none
  acls : Option AclsConfig := none
  dataSources : List Config.DataSource := []
  deriving DecidableEq

def Listener.named (ln : Listener) : Option String := ln.name.filter (· != "")

/-- `resolve_listener_ingress(..).name`. -/
def Listener.ingressName (ln : Listener) : String :=
  ln.named.getD s!"{ln.protocol.toLower}:{ln.address}"

/-! ## Validation -/

open Config (check)

def validateAclRule (path : String) (cidrNames : List String) (i : Nat) (rule : AclRule) :
    List String :=
  let view := rule.view
  let action := rule.action
  (if view = "" then [s!"{path}.rules[{i}].match must not be empty"]
    else check (!cidrNames.contains view)
      s!"{path}.rules[{i}].match '{view}' is not a type:cidr data_sources name") ++
  if action = "drop" ∨ action = "refuse" ∨ action = "accept" then
    check rule.tag.isSome s!"{path}.rules[{i}].tag is only valid when action is tag"
  else if action = "tag" then
    check (rule.tag.getD "" == "") s!"{path}.rules[{i}] action tag requires a non-empty tag name"
  else [s!"{path}.rules[{i}].action must be drop|refuse|tag|accept, got '{action}'"]

def validateAclBlock (path : String) (acls : AclsConfig) (cidrNames : List String) : List String :=
  let action := acls.defaultAction
  check (action != "allow" && action != "deny" && action != "")
    s!"{path}.default_action must be allow or deny, got '{action}'" ++
  (acls.rules.mapIdx (validateAclRule path cidrNames)).flatten

def aclPath (i : Nat) (ln : Listener) : String :=
  match ln.named with
  | some n => s!"listeners.listeners[{i}] (name '{n}') acls"
  | none => s!"listeners.listeners[{i}].acls"

def validateListenerAcls (cidrNames : List String) (i : Nat) (ln : Listener) : List String :=
  match ln.acls with
  | some acls => validateAclBlock (aclPath i ln) acls cidrNames
  | none => []

def validateAcls (cfg : IngressConfig) : List String :=
  let cidrNames := (cfg.dataSources.filter (·.type == "cidr")).map (·.name)
  (match cfg.acls with
    | some acls => validateAclBlock "acls" acls cidrNames
    | none => []) ++
  match cfg.listeners with
  | some block => (block.listeners.mapIdx (validateListenerAcls cidrNames)).flatten
  | none => []

/-! ## Policies -/

inductive AclDefaultAction where
  | allow | deny
  deriving DecidableEq, Repr

inductive AclAction where
  | drop | refuse
  | tag (name : String)
  | accept
  deriving DecidableEq, Repr

structure CompiledAclRule where
  view : String
  action : AclAction
  deriving DecidableEq, Repr

structure CompiledAclPolicy where
  defaultAction : AclDefaultAction
  rules : List CompiledAclRule
  deriving DecidableEq, Repr

inductive AclDecision where
  | admitted | drop | refuse
  | tag (name : String)
  deriving DecidableEq, Repr

/-- The action of a rule; `none`: the compile panics. -/
def AclRule.compile (rule : AclRule) : Option CompiledAclRule :=
  let action :=
    if rule.action = "drop" then some .drop
    else if rule.action = "refuse" then some .refuse
    else if rule.action = "accept" then some .accept
    else if rule.action = "tag" then rule.tag.map .tag
    else none
  action.map (⟨rule.view, ·⟩)

namespace CompiledAclPolicy

def admitAll : CompiledAclPolicy := ⟨.allow, []⟩

/-- `compile`; `none`: it panics. -/
def compile (cfg : AclsConfig) : Option CompiledAclPolicy :=
  let defaultAction := if cfg.defaultAction = "deny" then .deny else .allow
  (cfg.rules.mapM AclRule.compile).map (⟨defaultAction, ·⟩)

end CompiledAclPolicy

/-- `effective_acl`: the listener's block replaces the global one. -/
def effectiveAcl (global listener : Option AclsConfig) : Option AclsConfig := listener.or global

def CompiledAclPolicy.compileEffective (global listener : Option AclsConfig) :
    Option CompiledAclPolicy :=
  match effectiveAcl global listener with
  | some cfg => compile cfg
  | none => some admitAll

/-! ## Evaluation -/

section evaluate

variable (addr : IpAddr) (store : DataSourceStore)

/-- The loop of `evaluate_preadmission`. -/
def evaluatePreadmission.go : List CompiledAclRule → AclDecision
  | [] => .admitted
  | rule :: rules =>
    if (store.lookupIp rule.view addr).isSome then
      match rule.action with
      | .drop => .drop
      | _ => .admitted
    else go rules

/-- Tier 0, before the query is parsed: only explicit drops. -/
def evaluatePreadmission (policy : CompiledAclPolicy) : AclDecision :=
  evaluatePreadmission.go addr store policy.rules

/-- The loop of `evaluate_full`, with the decision after it. -/
def evaluateFull.go (default : AclDecision) : List CompiledAclRule → AclDecision
  | [] => default
  | rule :: rules =>
    if (store.lookupIp rule.view addr).isSome then
      match rule.action with
      | .drop => .drop
      | .refuse => .refuse
      | .tag name => .tag name
      | .accept => .admitted
    else go default rules

/-- Tier 1: the first match, or the default action. -/
def evaluateFull (policy : CompiledAclPolicy) : AclDecision :=
  evaluateFull.go addr store (match policy.defaultAction with
    | .allow => .admitted
    | .deny => .drop) policy.rules

/-- The loop of `match_detail`. -/
def matchDetail.go (default : String) : List CompiledAclRule → String × String
  | [] => ("default", default)
  | rule :: rules =>
    if (store.lookupIp rule.view addr).isSome then
      (rule.view, match rule.action with
        | .drop => "drop"
        | .refuse => "refuse"
        | .tag _ => "tag"
        | .accept => "accept")
    else go default rules

/-- The view and the action behind the decision. -/
def matchDetail (policy : CompiledAclPolicy) : String × String :=
  matchDetail.go addr store (match policy.defaultAction with
    | .allow => "allow"
    | .deny => "deny") policy.rules

end evaluate

/-! ## The check of the control plane -/

structure AclCheckResult where
  listener : String
  decision : String
  tag : Option String
  matched : String
  action : String
  deriving DecidableEq, Repr

inductive AclCheckError where
  | unknownListener (name : String)
  | noListeners
  /-- The compile of a policy panics. -/
  | panic
  deriving DecidableEq, Repr

def AclDecision.report : AclDecision → String × Option String
  | .admitted => ("admit", none)
  | .drop => ("drop", none)
  | .refuse => ("refuse", none)
  | .tag name => ("tag", some name)

def checkOneListener (global listener : Option AclsConfig) (name : String) (addr : IpAddr)
    (store : DataSourceStore) : Option AclCheckResult :=
  (CompiledAclPolicy.compileEffective global listener).map fun policy =>
    let detail := matchDetail addr store policy
    let decision := (evaluateFull addr store policy).report
    ⟨name, decision.1, decision.2, detail.1, detail.2⟩

def checkClientAcl (config : IngressConfig) (store : DataSourceStore) (addr : IpAddr)
    (filter : Option String) : Except AclCheckError (List AclCheckResult) :=
  match config.listeners with
  | none => .error .noListeners
  | some block =>
    if block.listeners.isEmpty then .error .noListeners
    else
      let selected := block.listeners.filter fun ln => filter.all (· == ln.ingressName)
      match selected.mapM fun ln =>
        checkOneListener config.acls ln.acls ln.ingressName addr store with
      | none => .error .panic
      | some results =>
        match filter with
        | some name => if selected.isEmpty then .error (.unknownListener name) else .ok results
        | none => .ok results

/-! ## What a valid configuration has -/

theorem exists_mapM_of_forall {α β : Type} {f : α → Option β} {l : List α}
    (h : ∀ a ∈ l, ∃ b, f a = some b) : ∃ bs, l.mapM f = some bs := by
  induction l with
  | nil => exact ⟨[], rfl⟩
  | cons a l ih =>
    obtain ⟨b, hb⟩ := h a List.mem_cons_self
    obtain ⟨bs, hbs⟩ := ih fun x hx => h x (List.mem_cons_of_mem _ hx)
    exact ⟨b :: bs, by rw [List.mapM_cons, hb, hbs]; rfl⟩

theorem getElem?_of_mapM {α β : Type} {f : α → Option β} {l : List α} {bs : List β}
    (h : l.mapM f = some bs) {i : Nat} {a : α} (hi : l[i]? = some a) : bs[i]? = f a := by
  induction l generalizing bs i with
  | nil => cases hi
  | cons x l ih =>
    rw [List.mapM_cons] at h
    obtain ⟨b, hb, h⟩ := Option.bind_eq_some_iff.mp h
    obtain ⟨bs', hbs, h⟩ := Option.bind_eq_some_iff.mp h
    cases h
    cases i with
    | zero =>
      cases hi
      exact hb.symm
    | succ i => exact ih hbs hi

variable {path : String} {names : List String}

theorem compile_isSome_of_validateAclRule {i : Nat} {rule : AclRule}
    (h : validateAclRule path names i rule = []) : ∃ r, rule.compile = some r := by
  obtain ⟨-, haction⟩ := List.append_eq_nil_iff.mp h
  by_cases hdrop : rule.action = "drop"
  · exact ⟨⟨rule.view, .drop⟩, by simp [AclRule.compile, hdrop]⟩
  by_cases hrefuse : rule.action = "refuse"
  · exact ⟨⟨rule.view, .refuse⟩, by simp [AclRule.compile, hrefuse]⟩
  by_cases haccept : rule.action = "accept"
  · exact ⟨⟨rule.view, .accept⟩, by simp [AclRule.compile, haccept]⟩
  by_cases htag : rule.action = "tag"
  · -- the tag is there, since a missing one counts as the empty one
    cases hname : rule.tag with
    | none => simp [htag, hname, Config.check] at haction
    | some name => exact ⟨⟨rule.view, .tag name⟩, by simp [AclRule.compile, htag, hname]⟩
  · simp [hdrop, hrefuse, haccept, htag] at haction

variable {acls : AclsConfig}

theorem compile_isSome_of_validateAclBlock (h : validateAclBlock path acls names = []) :
    ∃ policy, CompiledAclPolicy.compile acls = some policy := by
  obtain ⟨-, hrules⟩ := List.append_eq_nil_iff.mp h
  have hall : ∀ rule ∈ acls.rules, ∃ r, rule.compile = some r := by
    intro rule hrule
    obtain ⟨i, hi, rfl⟩ := List.getElem_of_mem hrule
    exact compile_isSome_of_validateAclRule
      (List.flatten_eq_nil_iff.mp hrules _ (List.mem_mapIdx.mpr ⟨i, hi, rfl⟩))
  obtain ⟨rules, hrules⟩ := exists_mapM_of_forall hall
  exact ⟨_, by rw [CompiledAclPolicy.compile, hrules]; rfl⟩

variable {cfg : IngressConfig}

/-- The access lists of a configuration compile: the global one, and that of every listener. -/
theorem compile_isSome_of_validateAcls (h : validateAcls cfg = [])
    (hacls : cfg.acls = some acls ∨
      ∃ block ∈ cfg.listeners, ∃ ln ∈ block.listeners, ln.acls = some acls) :
    ∃ policy, CompiledAclPolicy.compile acls = some policy := by
  obtain ⟨hglobal, hlisteners⟩ := List.append_eq_nil_iff.mp h
  rcases hacls with hacls | ⟨block, hblock, ln, hln, hacls⟩
  · rw [hacls] at hglobal
    exact compile_isSome_of_validateAclBlock hglobal
  · rw [Option.mem_def.mp hblock] at hlisteners
    obtain ⟨i, hi, rfl⟩ := List.getElem_of_mem hln
    have hone := List.flatten_eq_nil_iff.mp hlisteners _ (List.mem_mapIdx.mpr ⟨i, hi, rfl⟩)
    rw [validateListenerAcls, hacls] at hone
    exact compile_isSome_of_validateAclBlock hone

/-! ## The three loops -/

section firstMatch

variable {addr : IpAddr} {store : DataSourceStore} {policy : CompiledAclPolicy}

/-- The first rule whose view has the address. -/
def CompiledAclPolicy.firstMatch (policy : CompiledAclPolicy) (addr : IpAddr)
    (store : DataSourceStore) : Option CompiledAclRule :=
  policy.rules.find? fun rule => (store.lookupIp rule.view addr).isSome

/-- The decision of the rule that matches first, or of the default action. -/
def CompiledAclPolicy.decision (policy : CompiledAclPolicy) (first : Option CompiledAclRule) :
    AclDecision :=
  match first, policy.defaultAction with
  | some ⟨_, .drop⟩, _ => .drop
  | some ⟨_, .refuse⟩, _ => .refuse
  | some ⟨_, .tag name⟩, _ => .tag name
  | some ⟨_, .accept⟩, _ => .admitted
  | none, .allow => .admitted
  | none, .deny => .drop

/-- A loop that stops at the first rule whose view has the address is a search. -/
theorem loop_eq {β : Type} {go : List CompiledAclRule → β} {hit : CompiledAclRule → β}
    (hcons : ∀ rule rules, go (rule :: rules) =
      if (store.lookupIp rule.view addr).isSome then hit rule else go rules) :
    go policy.rules = (policy.firstMatch addr store).elim (go []) hit := by
  unfold CompiledAclPolicy.firstMatch
  induction policy.rules with
  | nil => rfl
  | cons rule rules ih =>
    rw [hcons, List.find?_cons]
    split
    · simp [*]
    · simp [*]

theorem evaluateFull_eq :
    evaluateFull addr store policy = policy.decision (policy.firstMatch addr store) := by
  refine (loop_eq fun _ _ => rfl).trans ?_
  unfold CompiledAclPolicy.decision
  cases policy.firstMatch addr store with
  | none => cases policy.defaultAction <;> rfl
  | some rule =>
    obtain ⟨view, action⟩ := rule
    cases action <;> rfl

/-- Tier 0 decides only the explicit drops. -/
theorem evaluatePreadmission_eq :
    evaluatePreadmission addr store policy =
      if (policy.firstMatch addr store).map (·.action) = some .drop then .drop else .admitted := by
  refine (loop_eq fun _ _ => rfl).trans ?_
  cases policy.firstMatch addr store with
  | none => rfl
  | some rule =>
    obtain ⟨view, action⟩ := rule
    cases action <;> rfl

/-- What the check names: the view and the action of the rule, or the default. -/
def CompiledAclPolicy.detail (policy : CompiledAclPolicy) (first : Option CompiledAclRule) :
    String × String :=
  match first, policy.defaultAction with
  | some ⟨view, .drop⟩, _ => (view, "drop")
  | some ⟨view, .refuse⟩, _ => (view, "refuse")
  | some ⟨view, .tag _⟩, _ => (view, "tag")
  | some ⟨view, .accept⟩, _ => (view, "accept")
  | none, .allow => ("default", "allow")
  | none, .deny => ("default", "deny")

theorem matchDetail_eq :
    matchDetail addr store policy = policy.detail (policy.firstMatch addr store) := by
  refine (loop_eq fun _ _ => rfl).trans ?_
  unfold CompiledAclPolicy.detail
  cases policy.firstMatch addr store with
  | none => cases policy.defaultAction <;> rfl
  | some rule =>
    obtain ⟨view, action⟩ := rule
    cases action <;> rfl

end firstMatch

/-- The policy of every listener of a valid configuration compiles. -/
theorem compileEffective_isSome (h : validateAcls cfg = []) {listener : Option AclsConfig}
    (hln : ∀ acls, listener = some acls →
      ∃ block ∈ cfg.listeners, ∃ ln ∈ block.listeners, ln.acls = some acls) :
    ∃ policy, CompiledAclPolicy.compileEffective cfg.acls listener = some policy := by
  unfold CompiledAclPolicy.compileEffective effectiveAcl
  cases listener with
  | some acls => exact compile_isSome_of_validateAcls h (.inr (hln acls rfl))
  | none =>
    cases hglobal : cfg.acls with
    | some acls => exact compile_isSome_of_validateAcls h (.inl hglobal)
    | none => exact ⟨_, rfl⟩

/-- The check reports every listener of a valid configuration, in the order of the configuration,
and answers for a listener when it is asked for by name. -/
theorem checkClientAcl_reports (h : validateAcls cfg = []) {block : ListenersConfig}
    (hblock : cfg.listeners = some block) {i : Nat} {ln : Listener}
    (hi : block.listeners[i]? = some ln) (store : DataSourceStore) (addr : IpAddr) :
    ∃ r, checkOneListener cfg.acls ln.acls ln.ingressName addr store = some r ∧
      (∃ rs, checkClientAcl cfg store addr none = .ok rs ∧ rs[i]? = some r) ∧
      ∃ rs, checkClientAcl cfg store addr (some ln.ingressName) = .ok rs ∧ r ∈ rs := by
  have hall : ∀ x ∈ block.listeners,
      ∃ r, checkOneListener cfg.acls x.acls x.ingressName addr store = some r := by
    intro x hx
    obtain ⟨policy, hp⟩ := compileEffective_isSome h
      fun acls (hacls : x.acls = some acls) => ⟨block, hblock, x, hx, hacls⟩
    exact ⟨_, by rw [checkOneListener, hp]; rfl⟩
  have hmem : ln ∈ block.listeners := List.mem_of_getElem? hi
  have hne : block.listeners.isEmpty = false := by
    rw [List.isEmpty_eq_false_iff]
    exact List.ne_nil_of_mem hmem
  obtain ⟨r, hr⟩ := hall ln hmem
  refine ⟨r, hr, ?_, ?_⟩
  · obtain ⟨rs, hrs⟩ := exists_mapM_of_forall hall
    refine ⟨rs, ?_, (getElem?_of_mapM hrs hi).trans hr⟩
    have hselected : (block.listeners.filter fun _ => true) = block.listeners :=
      List.filter_eq_self.mpr fun _ _ => rfl
    simp only [checkClientAcl, hblock, hne, Bool.false_eq_true, if_false, Option.all_none, hselected,
      hrs]
  · have hsel : ln ∈ block.listeners.filter fun x => (some ln.ingressName).all (· == x.ingressName) :=
      List.mem_filter.mpr ⟨hmem, by simp⟩
    obtain ⟨rs, hrs⟩ := exists_mapM_of_forall (l := block.listeners.filter fun x =>
      (some ln.ingressName).all (· == x.ingressName)) fun x hx => hall x (List.mem_filter.mp hx).1
    refine ⟨rs, ?_, ?_⟩
    · have hsel' := List.isEmpty_eq_false_iff.mpr (List.ne_nil_of_mem hsel)
      simp only [checkClientAcl, hblock, hne, Bool.false_eq_true, if_false, hrs, hsel']
    · obtain ⟨j, hj⟩ := List.getElem?_of_mem hsel
      exact List.mem_of_getElem? ((getElem?_of_mapM hrs hj).trans hr)

end Conduit
