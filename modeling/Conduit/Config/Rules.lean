import Conduit.Acl.Family
import Conduit.Core.Rules
import Conduit.Config.Load

/-!
# Validating and compiling the rules

The rules of a configuration are validated with it (`validate.rs`), and compiled when its snapshot
is built: the scripts first (`compile_rule_scripts`), then the rules (`CompiledRule::compile`,
`CompiledSelector::compile`). Compiling a rule cannot fail: it panics (`none`) on what validation
should have refused.

Validation looks at the value of a selector only for the types it lists, and the compiler at more:

- `isSome_compileRules`: valid rules compile exactly if they have no `Blank` selector.
-/

namespace Conduit.Config

structure Selector where
  type : String := ""
  value : String := ""
  key : Option String := none
  keyFrom : Option String := none
  deriving DecidableEq

structure Action where
  type : String := ""
  value : String := ""
  deriving DecidableEq

structure Rule where
  name : String := ""
  hook : String := ""
  selectors : List Selector := []
  actions : List Action := []
  deriving DecidableEq

structure RulesConfig where
  matchMode : String := ""
  rules : List Rule := []
  deriving DecidableEq

/-- The readers of the values of selectors and actions. -/
structure Readers where
  /-- `parse_selector_wire_value` of a selector type. -/
  wire : String → String → Except String Nat
  /-- `parse_percent_key`, in hundredths; `parse_sample_percent` fails if it does. -/
  percent : String → Except String Nat
  /-- `parse::<Ipv4Addr>` and `parse::<Ipv6Addr>`, the address in its canonical form. -/
  v4 : String → Option String
  v6 : String → Option String
  /-- `configured_source_v4_addrs` and `configured_source_v6_addrs`. -/
  sourcesV4 : Config → List String
  sourcesV6 : Config → List String
  rules : Message → RulesConfig

/-! ## Values -/

/-- A value of white space only (`trim().is_empty()`). -/
def isBlank (s : String) : Bool := trim s.toList == []

def parseAnswerSource (value : String) : Except String AnswerSourceSelector :=
  let other := String.ofList ((trim value.toList).map Char.toLower)
  if other = "cache" then .ok .cache
  else if other = "forward" then .ok .forward
  else .error s!"answer_source '{other}' must be cache or forward"

def parseEveryNth (value : String) : Except String Nat :=
  match parseU64 (trim value.toList) with
  | none => .error s!"every_nth selector value '{value}' must be an integer >= 1"
  | some 0 => .error "every_nth selector value must be >= 1"
  | some nth => .ok nth

/-- An empty text is no text. -/
def nonEmpty (s : Option String) : Option String := s.filter (· ≠ "")

/-- `compile_sample_key_from` of a rule. -/
def compileSampleKeyFrom (rule keyFrom : String) : Except String SampleKey :=
  if keyFrom = "qname" then .ok .fromQname
  else if keyFrom = "rule_name" then .ok (.literal rule)
  else if keyFrom = "sink_name" then
    .error "sample_percent key_from 'sink_name' is only valid on event sink filters"
  else .error s!"sample_percent key_from '{keyFrom}' must be qname, rule_name, or sink_name"

/-- `compile_sample_key_fields` of a rule. -/
def compileSampleKeyFields (rule : String) (key keyFrom : Option String) :
    Except String SampleKey :=
  match nonEmpty key, nonEmpty keyFrom with
  | some _, some _ => .error "sample key and key_from are mutually exclusive"
  | some literal, none => .ok (.literal literal)
  | none, some from' => compileSampleKeyFrom rule from'
  | none, none => .ok .global

/-! ## Validation -/

def selectorTypes : List String :=
  ["qname_suffix", "qname_exact", "qtype", "rcode", "qclass", "opcode", "edns_option", "tag",
    "answer_source", "cache_instance", "sample_percent", "every_nth_worker", "every_nth_global",
    "client_cidr"]

def validateSelectorType (ty : String) : Except String Unit :=
  if ty ∈ selectorTypes then .ok () else .error s!"unknown selector type '{ty}'"

def wireTypes : List String := ["qtype", "rcode", "qclass", "opcode", "edns_option"]

def validateWireSelectorValue (r : Readers) (ty value : String) : Except String Unit :=
  if ty ∈ wireTypes then (r.wire ty value).map fun _ => ()
  else if ty = "answer_source" then (parseAnswerSource value).map fun _ => ()
  else .ok ()

/-- `validate_selector_sample_key_fields` of a rule: what compiling the key refuses, and a key of a
selector without one. -/
def validateSelectorSampleKeyFields (sel : Selector) : Except String Unit :=
  let ty := sel.type
  if ty ≠ "sample_percent" then
    if (nonEmpty sel.key).isSome || (nonEmpty sel.keyFrom).isSome then
      .error s!"selector type '{ty}' does not support key or key_from"
    else .ok ()
  else (compileSampleKeyFields "" sel.key sel.keyFrom).map fun _ => ()

def ruleError (rule : String) : Except String Unit → List String
  | .ok () => []
  | .error e => [s!"rule '{rule}': {e}"]

def fails {α : Type} : Except String α → Bool
  | .ok _ => false
  | .error _ => true

def validateSelector (r : Readers) (cidrNames : List String) (rule : String) (sel : Selector) :
    List String :=
  let ty := sel.type
  let value := sel.value
  ruleError rule (validateSelectorType ty) ++
  ruleError rule (validateWireSelectorValue r ty value) ++
  check (ty == "sample_percent" && fails (r.percent value))
    s!"rule '{rule}' selector sample_percent must be a float in [0, 100]" ++
  ruleError rule (validateSelectorSampleKeyFields sel) ++
  check ((ty == "every_nth_worker" || ty == "every_nth_global") && fails (parseEveryNth value))
    s!"rule '{rule}' selector '{ty}' requires integer value >= 1" ++
  check (ty == "client_cidr" && !cidrNames.contains value)
    s!"rule '{rule}' selector client_cidr '{value}' is not a type:cidr data_sources name"

def actionTypes : List String :=
  ["set_pool", "set_tag", "retry", "retry_now", "set_retry_pool", "drop", "drop_now", "clear_drop",
    "clear_retry", "clear_retry_pool", "clear_pool", "clear_tag", "set_rcode", "rhai",
    "set_source_v4", "set_source_v6", "set_retry_source_v4", "set_retry_source_v6",
    "clear_retry_source_v4", "clear_retry_source_v6"]

/-- The checks of a source address, of one family. -/
def validateSource (rule ty value sources family : String) (parse : String → Option String)
    (allowed : List String) : List String :=
  match parse value with
  | some addr =>
    if allowed = [] then [s!"rule '{rule}' {ty} requires forward.{sources} or pool {sources}"]
    else
      check (!allowed.contains addr) s!"rule '{rule}' {ty} '{value}' is not in configured {sources}"
  | none => [s!"rule '{rule}' {ty} '{value}' is not a valid {family} address"]

def validateAction (r : Readers) (c : Config) (rule hook : String) (act : Action) : List String :=
  let ty := act.type
  let value := act.value
  let setsSource := ty == "set_source_v4" || ty == "set_source_v6"
  let setsRetrySource := ty == "set_retry_source_v4" || ty == "set_retry_source_v6"
  check (!actionTypes.contains ty) s!"rule '{rule}' has unknown action type '{ty}'" ++
  check (ty == "rhai" && value == "") s!"rule '{rule}' rhai action requires script path in value" ++
  check (ty == "set_rcode" && fails (validateWireSelectorValue r "rcode" value))
    s!"rule '{rule}' set_rcode value '{value}' is not a known Rcode name or RCODEN alias" ++
  check ((ty == "retry" || ty == "retry_now" || ty == "clear_retry" || ty == "set_rcode") &&
      hook != "response")
    s!"rule '{rule}' action '{ty}' is only valid on response hook" ++
  check (ty == "set_retry_pool" && value == "")
    s!"rule '{rule}' set_retry_pool requires a pool name in value" ++
  check (ty == "clear_tag" && value == "")
    s!"rule '{rule}' clear_tag requires a non-empty tag key in value" ++
  check (setsSource && hook != "request")
    s!"rule '{rule}' action '{ty}' is only valid on request hook" ++
  if (setsSource || setsRetrySource) && value == "" then
    [s!"rule '{rule}' action '{ty}' requires an address in value"]
  else if ty = "set_source_v4" ∨ ty = "set_retry_source_v4" then
    validateSource rule ty value "sources_v4" "IPv4" r.v4 (r.sourcesV4 c)
  else if ty = "set_source_v6" ∨ ty = "set_retry_source_v6" then
    validateSource rule ty value "sources_v6" "IPv6" r.v6 (r.sourcesV6 c)
  else []

def cidrNames (c : Config) : List String :=
  (c.dataSources.filter (·.type == "cidr")).map (·.name)

/-- The checks of one rule; `names` are the names of the rules before it. -/
def validateRule (r : Readers) (c : Config) (names : List String) (rule : Rule) : List String :=
  let name := rule.name
  let hook := rule.hook
  (if name = "" then ["rule name must not be empty"]
    else check (names.contains name) s!"duplicate rule name '{name}'") ++
  check (hook != "request" && hook != "response") s!"rule '{name}' has invalid hook '{hook}'" ++
  rule.selectors.flatMap (validateSelector r (cidrNames c) name) ++
  rule.actions.flatMap (validateAction r c name hook)

def validateRuleList (r : Readers) (c : Config) (names : List String) : List Rule → List String
  | [] => []
  | rule :: rules =>
    validateRule r c names rule ++ validateRuleList r c (names ++ [rule.name]) rules

/-- The rules section of `validate`. -/
def validateRules (r : Readers) (c : Config) : List String :=
  match c.rules.map r.rules with
  | none => []
  | some rules =>
    let mode := rules.matchMode
    check (mode != "first_match") s!"unsupported rules.match_mode '{mode}', only first_match" ++
    validateRuleList r c [] rules.rules

def rulesOf (r : Readers) (c : Config) : List Rule :=
  ((c.rules.map r.rules).map (·.rules)).getD []

/-! ## Scripts -/

def ruleHook (hook : String) : RuleHook := if hook = "response" then .response else .request

structure ScriptRef where
  ruleName : String
  hook : RuleHook
  path : String
  scriptId : Nat
  deriving DecidableEq

/-- `compile_rule_scripts`; `script` reads and compiles the script of a rule and a path, and gives
its number. -/
def compileRuleScripts (script : String → String → Except String Nat) (rule : Rule) :
    List Action → Except String (List ScriptRef)
  | [] => .ok []
  | act :: acts =>
    if act.type ≠ "rhai" then compileRuleScripts script rule acts
    else if act.value = "" then .error "rhai action requires script path in value"
    else do
      let scriptId ← script rule.name act.value
      let rest ← compileRuleScripts script rule acts
      return ⟨rule.name, ruleHook rule.hook, act.value, scriptId⟩ :: rest

/-- The scripts of the rules, in their order. -/
def compileScripts (script : String → String → Except String Nat) :
    List Rule → Except String (List ScriptRef)
  | [] => .ok []
  | rule :: rules => do
    let refs ← compileRuleScripts script rule rule.actions
    return refs ++ (← compileScripts script rules)

def scriptIdsForRule (refs : List ScriptRef) (ruleName : String) (hook : RuleHook) : List Nat :=
  (refs.filter fun ref => ref.ruleName == ruleName && ref.hook == hook).map (·.scriptId)

/-! ## Compilation -/

/-- `CompiledSelector::compile` in a rule. -/
def compileSelector (r : Readers) (rule : String) (sel : Selector) :
    Except String CompiledSelector :=
  match sel.type with
  | "qname_exact" => .ok (.qnameExact sel.value)
  | "qtype" => (r.wire "qtype" sel.value).map .qtype
  | "rcode" => (r.wire "rcode" sel.value).map .rcode
  | "qclass" => (r.wire "qclass" sel.value).map .qclass
  | "opcode" => (r.wire "opcode" sel.value).map fun n => .opcode (n % 256)
  | "edns_option" => (r.wire "edns_option" sel.value).map .ednsOption
  | "tag" => .ok (.tag sel.value)
  | "answer_source" => (parseAnswerSource sel.value).map .answerSource
  | "cache_instance" =>
    if isBlank sel.value then .error "cache_instance selector value must be non-empty"
    else .ok (.cacheInstance sel.value)
  | "sample_percent" => do
    let percent ← r.percent sel.value
    let key ← compileSampleKeyFields rule sel.key sel.keyFrom
    return .samplePercent percent key
  | "every_nth_worker" => (parseEveryNth sel.value).map .everyNthWorker
  | "every_nth_global" => (parseEveryNth sel.value).map .everyNthGlobal
  | "client_cidr" =>
    if isBlank sel.value then .error "client_cidr selector value must be a cidr data source name"
    else .ok (.clientCidr sel.value)
  | _ => .ok (.qnameSuffix sel.value)

/-- `split_once('=')` of the value of `set_tag`. -/
def tagOf (value : String) : CompiledAction :=
  match value.toList.span (· ≠ '=') with
  | (_, []) => .setTag value "true"
  | (key, _ :: rest) => .setTag (String.ofList key) (String.ofList rest)

/-- `CompiledAction::compile`. -/
def compileAction (r : Readers) (act : Action) : Option CompiledAction :=
  match act.type with
  | "set_pool" => some (.setPool act.value)
  | "set_retry_pool" => some (.setRetryPool act.value)
  | "retry" => some .retry
  | "retry_now" => some .retryNow
  | "drop" => some .drop
  | "drop_now" => some .dropNow
  | "clear_drop" => some .clearDrop
  | "clear_retry" => some .clearRetry
  | "clear_retry_pool" => some .clearRetryPool
  | "clear_pool" => some .clearPool
  | "clear_tag" => some (.clearTag act.value)
  | "set_rcode" => (r.wire "rcode" act.value).toOption.map .setRcode
  | "set_tag" => some (tagOf act.value)
  | "set_source_v4" => (r.v4 act.value).map .setSourceV4
  | "set_source_v6" => (r.v6 act.value).map .setSourceV6
  | "set_retry_source_v4" => (r.v4 act.value).map .setRetrySourceV4
  | "set_retry_source_v6" => (r.v6 act.value).map .setRetrySourceV6
  | "clear_retry_source_v4" => some .clearRetrySourceV4
  | "clear_retry_source_v6" => some .clearRetrySourceV6
  | _ => none

/-- The actions of a rule; each Rhai action takes the next of the rule's scripts. -/
def compileActions (r : Readers) : List Nat → List Action → Option (List CompiledAction)
  | _, [] => some []
  | scriptIds, act :: acts =>
    if act.type = "rhai" then
      match scriptIds with
      | [] => none
      | id :: ids => (compileActions r ids acts).map (.rhai id :: ·)
    else do
      let compiled ← compileAction r act
      return compiled :: (← compileActions r scriptIds acts)

/-- `CompiledRule::compile`; `matchCtx` is the match context of a transaction. -/
def compileRule (r : Readers) (matchCtx : Nat → Transaction → SelectorMatchCtx)
    (refs : List ScriptRef) (rule : Rule) : Option CompiledRule := do
  let hook := ruleHook rule.hook
  let actions ← compileActions r (scriptIdsForRule refs rule.name hook) rule.actions
  -- The error of a selector is the text of a panic.
  let selectors ← rule.selectors.mapM fun sel => (compileSelector r rule.name sel).toOption
  return { name := rule.name, hook, actions
           selectors := selectors.map fun sel world t => sel.matchesCtx (matchCtx world t) }

/-- `CompiledRules::compile`. -/
def compileRules (r : Readers) (matchCtx : Nat → Transaction → SelectorMatchCtx)
    (refs : List ScriptRef) (rules : List Rule) : Option CompiledRules :=
  rules.mapM (compileRule r matchCtx refs)

/-! ## Valid rules -/

/-- A selector whose value validation does not look at, and the compiler does. -/
def Selector.Blank (sel : Selector) : Prop :=
  (sel.type = "cache_instance" ∨ sel.type = "client_cidr") ∧ isBlank sel.value = true

variable {rule : String}

theorem ruleError_eq_nil {x : Except String Unit} :
    ruleError rule x = [] ↔ x = .ok () := by
  cases x <;> simp [ruleError]

variable {α : Type} {x : Except String α}

theorem fails_eq_false : fails x = false ↔ ∃ a, x = .ok a := by
  cases x <;> simp [fails]

theorem map_unit_eq_ok :
    (x.map fun _ => ()) = .ok () ↔ ∃ a, x = .ok a := by
  cases x <;> simp [Except.map]

/-- What the checks of a selector say. -/
structure ValidSelector (r : Readers) (sel : Selector) : Prop where
  wire : sel.type ∈ wireTypes → ∃ n, r.wire sel.type sel.value = .ok n
  answer : sel.type = "answer_source" → ∃ s, parseAnswerSource sel.value = .ok s
  percent : sel.type = "sample_percent" → ∃ n, r.percent sel.value = .ok n
  key : sel.type = "sample_percent" → ∃ k, compileSampleKeyFields "" sel.key sel.keyFrom = .ok k
  nth : sel.type = "every_nth_worker" ∨ sel.type = "every_nth_global" →
    ∃ n, parseEveryNth sel.value = .ok n

variable {sel : Selector} {names : List String}

theorem validSelector_of_validate {r : Readers} (h : validateSelector r names rule sel = []) :
    ValidSelector r sel := by
  simp only [validateSelector, List.append_eq_nil_iff, ruleError_eq_nil, check_eq_nil] at h
  obtain ⟨⟨⟨⟨⟨-, hwire⟩, hpercent⟩, hkey⟩, hnth⟩, -⟩ := h
  refine ⟨fun hty => ?_, fun hty => ?_, fun hty => ?_, fun hty => ?_, fun hty => ?_⟩
  · rw [validateWireSelectorValue, if_pos hty] at hwire
    exact map_unit_eq_ok.mp hwire
  · rw [validateWireSelectorValue, if_neg (by rw [hty]; decide), if_pos hty] at hwire
    exact map_unit_eq_ok.mp hwire
  · exact fails_eq_false.mp (by simpa [hty] using hpercent)
  · exact map_unit_eq_ok.mp (by simpa [validateSelectorSampleKeyFields, hty] using hkey)
  · refine fails_eq_false.mp ?_
    obtain hty | hty := hty <;> simpa [hty] using hnth

/-- Which key a sampler has does not depend on the rule, only its text does. -/
theorem compileSampleKeyFields_ok {key keyFrom : Option String} {k : SampleKey}
    (h : compileSampleKeyFields rule key keyFrom = .ok k) (rule' : String) :
    ∃ k', compileSampleKeyFields rule' key keyFrom = .ok k' := by
  unfold compileSampleKeyFields at *
  split at h
  · cases h
  · exact ⟨_, rfl⟩
  · unfold compileSampleKeyFrom at *
    split_ifs at * <;> simp_all
  · exact ⟨_, rfl⟩

theorem compileSelector_ok {r : Readers} (h : validateSelector r names rule sel = [])
    (hb : ¬ sel.Blank) :
    ∃ s, compileSelector r rule sel = .ok s := by
  obtain ⟨hwire, hanswer, hpercent, hkey, hnth⟩ := validSelector_of_validate h
  have wire : ∀ ty (f : Nat → CompiledSelector), ty ∈ wireTypes → sel.type = ty →
      ∃ s, (r.wire ty sel.value).map f = .ok s := by
    rintro _ f hty rfl
    obtain ⟨n, hn⟩ := hwire hty
    exact ⟨f n, by rw [hn]; rfl⟩
  have nth : ∀ f : Nat → CompiledSelector,
      sel.type = "every_nth_worker" ∨ sel.type = "every_nth_global" →
        ∃ s, (parseEveryNth sel.value).map f = .ok s := by
    intro f hty
    obtain ⟨n, hn⟩ := hnth hty
    exact ⟨f n, by rw [hn]; rfl⟩
  unfold compileSelector
  split
  · exact ⟨_, rfl⟩
  · exact wire "qtype" _ (by decide) ‹_›
  · exact wire "rcode" _ (by decide) ‹_›
  · exact wire "qclass" _ (by decide) ‹_›
  · exact wire "opcode" _ (by decide) ‹_›
  · exact wire "edns_option" _ (by decide) ‹_›
  · exact ⟨_, rfl⟩
  · obtain ⟨s, hs⟩ := hanswer ‹_›
    exact ⟨_, by rw [hs]; rfl⟩
  · exact ⟨_, if_neg fun hblank => hb ⟨.inl ‹_›, hblank⟩⟩
  · obtain ⟨n, hn⟩ := hpercent ‹_›
    obtain ⟨k, hk⟩ := hkey ‹_›
    obtain ⟨k', hk'⟩ := compileSampleKeyFields_ok hk rule
    exact ⟨.samplePercent n k', by rw [hn, hk']; rfl⟩
  · exact nth _ (.inl ‹_›)
  · exact nth _ (.inr ‹_›)
  · exact ⟨_, if_neg fun hblank => hb ⟨.inr ‹_›, hblank⟩⟩
  · exact ⟨_, rfl⟩

/-- What the checks of an action say. -/
structure ValidAction (r : Readers) (act : Action) : Prop where
  known : act.type ∈ actionTypes
  rcode : act.type = "set_rcode" → ∃ n, r.wire "rcode" act.value = .ok n
  v4 : act.type = "set_source_v4" ∨ act.type = "set_retry_source_v4" → (r.v4 act.value).isSome
  v6 : act.type = "set_source_v6" ∨ act.type = "set_retry_source_v6" → (r.v6 act.value).isSome

theorem isSome_of_validateSource {ty value sources family : String} {parse : String → Option String}
    {allowed : List String} (h : validateSource rule ty value sources family parse allowed = []) :
    (parse value).isSome := by
  unfold validateSource at h
  split at h
  · next addr haddr => rw [haddr]; rfl
  · cases h

variable {c : Config} {act : Action}

theorem validAction_of_validate {r : Readers} {hook : String}
    (h : validateAction r c rule hook act = []) : ValidAction r act := by
  simp only [validateAction, List.append_eq_nil_iff, check_eq_nil] at h
  obtain ⟨⟨⟨⟨⟨⟨⟨hknown, -⟩, hrcode⟩, -⟩, -⟩, -⟩, -⟩, hsource⟩ := h
  split at hsource
  · cases hsource
  refine ⟨by simpa using hknown, fun hty => ?_, fun hty => ?_, fun hty => ?_⟩
  · obtain ⟨u, hu⟩ := fails_eq_false.mp (by simpa [hty] using hrcode)
    rw [validateWireSelectorValue, if_pos (by decide)] at hu
    exact map_unit_eq_ok.mp hu
  · rw [if_pos hty] at hsource
    exact isSome_of_validateSource hsource
  · rw [if_neg (by obtain hty | hty := hty <;> rw [hty] <;> decide), if_pos hty] at hsource
    exact isSome_of_validateSource hsource

theorem isSome_compileAction {r : Readers} (h : ValidAction r act) (hrhai : act.type ≠ "rhai") :
    (compileAction r act).isSome := by
  obtain ⟨hknown, hrcode, hv4, hv6⟩ := h
  unfold compileAction
  split
  case h_12 hty =>
    obtain ⟨n, hn⟩ := hrcode hty
    rw [hn]; rfl
  case h_14 hty => simpa using hv4 (.inl hty)
  case h_15 hty => simpa using hv6 (.inl hty)
  case h_16 hty => simpa using hv4 (.inr hty)
  case h_17 hty => simpa using hv6 (.inr hty)
  case h_20 =>
    simp only [actionTypes, List.mem_cons, List.not_mem_nil, or_false] at hknown
    simp_all
  all_goals rfl

variable {acts : List Action}

theorem isSome_compileActions {r : Readers} {ids : List Nat} (h : ∀ act ∈ acts, ValidAction r act)
    (hids : (acts.filter (·.type == "rhai")).length ≤ ids.length) :
    (compileActions r ids acts).isSome := by
  induction acts generalizing ids with
  | nil => rfl
  | cons act acts ih =>
    obtain ⟨hact, hacts⟩ := List.forall_mem_cons.mp h
    unfold compileActions
    by_cases hrhai : act.type = "rhai"
    · rw [if_pos hrhai]
      rw [List.filter_cons_of_pos (by simpa using hrhai), List.length_cons] at hids
      cases ids with
      | nil => simp at hids
      | cons id ids => simpa using ih hacts (Nat.le_of_succ_le_succ hids)
    · rw [if_neg hrhai]
      rw [List.filter_cons_of_neg (by simpa using hrhai)] at hids
      obtain ⟨compiled, hcompiled⟩ :=
        Option.isSome_iff_exists.mp (isSome_compileAction hact hrhai)
      obtain ⟨rest, hrest⟩ := Option.isSome_iff_exists.mp (ih hacts hids)
      simp [hcompiled, hrest]

/-! ## Scripts of a rule -/

variable {script : String → String → Except String Nat}

/-- The scripts of one rule: one for each Rhai action, and all of them its own. -/
theorem compileRuleScripts_spec {rule : Rule} {refs : List ScriptRef}
    (h : compileRuleScripts script rule acts = .ok refs) :
    refs.length = (acts.filter (·.type == "rhai")).length ∧
      ∀ ref ∈ refs, ref.ruleName = rule.name ∧ ref.hook = ruleHook rule.hook := by
  induction acts generalizing refs with
  | nil => cases h; simp
  | cons act acts ih =>
    unfold compileRuleScripts at h
    split_ifs at h with hrhai hempty
    · rw [List.filter_cons_of_neg (by simpa using hrhai)]
      exact ih h
    · rw [List.filter_cons_of_pos (by simpa using hrhai)]
      cases hid : script rule.name act.value with
      | error e => simp [hid, bind, Except.bind] at h
      | ok id =>
        cases hrest : compileRuleScripts script rule acts with
        | error e => simp [hid, hrest, bind, Except.bind] at h
        | ok rest =>
          obtain rfl : _ :: rest = refs := by
            simpa [hid, hrest, bind, Except.bind, pure, Except.pure] using h
          obtain ⟨hlen, hown⟩ := ih hrest
          exact ⟨by simp [hlen], List.forall_mem_cons.mpr ⟨⟨rfl, rfl⟩, hown⟩⟩

theorem scriptIdsForRule_append (refs refs' : List ScriptRef) (name : String) (hook : RuleHook) :
    scriptIdsForRule (refs ++ refs') name hook =
      scriptIdsForRule refs name hook ++ scriptIdsForRule refs' name hook := by
  simp [scriptIdsForRule]

variable {rules : List Rule}

theorem length_scriptIdsForRule {refs : List ScriptRef} (h : compileScripts script rules = .ok refs)
    {rule : Rule} (hmem : rule ∈ rules) :
    (rule.actions.filter (·.type == "rhai")).length ≤
      (scriptIdsForRule refs rule.name (ruleHook rule.hook)).length := by
  induction rules generalizing refs with
  | nil => cases hmem
  | cons first rules ih =>
    unfold compileScripts at h
    cases hfirst : compileRuleScripts script first first.actions with
    | error e => simp [hfirst, bind, Except.bind] at h
    | ok own =>
      cases hrest : compileScripts script rules with
      | error e => simp [hfirst, hrest, bind, Except.bind] at h
      | ok rest =>
        obtain rfl : own ++ rest = refs := by
          simpa [hfirst, hrest, bind, Except.bind, pure, Except.pure] using h
        rw [scriptIdsForRule_append, List.length_append]
        obtain rfl | hmem := List.mem_cons.mp hmem
        · obtain ⟨hlen, hown⟩ := compileRuleScripts_spec hfirst
          have hfilter :
              (scriptIdsForRule own rule.name (ruleHook rule.hook)).length = own.length := by
            rw [scriptIdsForRule, List.length_map, List.filter_eq_self.mpr]
            intro ref href
            simp [hown ref href]
          omega
        · exact Nat.le_trans (ih hrest hmem) (Nat.le_add_left _ _)

/-! ## Valid rules compile -/

theorem isSome_mapM {β : Type} {f : α → Option β} {xs : List α} :
    (xs.mapM f).isSome ↔ ∀ x ∈ xs, (f x).isSome := by
  induction xs with
  | nil => simp
  | cons x xs ih =>
    rw [List.forall_mem_cons, ← ih, List.mapM_cons]
    cases f x with
    | none => simp
    | some y => cases xs.mapM f <;> simp

/-- What the checks of a rule say. -/
structure ValidRule (r : Readers) (rule : Rule) : Prop where
  selectors : ∀ sel ∈ rule.selectors, ∃ names, validateSelector r names rule.name sel = []
  actions : ∀ act ∈ rule.actions, ValidAction r act

theorem validRule_of_validate {r : Readers} (h : validateRuleList r c names rules = []) :
    ∀ rule ∈ rules, ValidRule r rule := by
  induction rules generalizing names with
  | nil => nofun
  | cons rule rules ih =>
    obtain ⟨hrule, hrules⟩ := List.append_eq_nil_iff.mp h
    refine List.forall_mem_cons.mpr ⟨?_, ih hrules⟩
    simp only [validateRule, List.append_eq_nil_iff, List.flatMap_eq_nil_iff] at hrule
    obtain ⟨⟨-, hsel⟩, hact⟩ := hrule
    exact ⟨fun sel hs => ⟨_, hsel sel hs⟩, fun act ha => validAction_of_validate (hact act ha)⟩

theorem validRules_of_validate {r : Readers} (h : validateRules r c = []) :
    ∀ rule ∈ rulesOf r c, ValidRule r rule := by
  unfold validateRules at h
  unfold rulesOf
  cases hrules : c.rules.map r.rules with
  | none => nofun
  | some rules =>
    rw [hrules] at h
    exact validRule_of_validate (List.append_eq_nil_iff.mp h).2

variable {r : Readers} {matchCtx : Nat → Transaction → SelectorMatchCtx} {refs : List ScriptRef}

theorem not_blank_of_compileSelector (h : (compileSelector r rule sel).toOption.isSome) :
    ¬ sel.Blank := by
  rintro ⟨hty | hty, hblank⟩ <;> simp [compileSelector, hty, hblank, Except.toOption] at h

/-- A blank selector is no error of the file, and a panic of the compiler. -/
theorem isSome_toOption_compileSelector (h : ∃ names, validateSelector r names rule sel = []) :
    (compileSelector r rule sel).toOption.isSome ↔ ¬ sel.Blank := by
  refine ⟨not_blank_of_compileSelector, fun hblank => ?_⟩
  obtain ⟨names, hvalid⟩ := h
  obtain ⟨s, hs⟩ := compileSelector_ok hvalid hblank
  rw [hs]; rfl

theorem isSome_compileRule {rule : Rule} (h : ValidRule r rule)
    (hids : (rule.actions.filter (·.type == "rhai")).length ≤
      (scriptIdsForRule refs rule.name (ruleHook rule.hook)).length) :
    (compileRule r matchCtx refs rule).isSome ↔ ∀ sel ∈ rule.selectors, ¬ sel.Blank := by
  obtain ⟨actions, hactions⟩ :=
    Option.isSome_iff_exists.mp (isSome_compileActions h.actions hids)
  have hselectors : (rule.selectors.mapM fun sel =>
      (compileSelector r rule.name sel).toOption).isSome ↔ ∀ sel ∈ rule.selectors, ¬ sel.Blank :=
    isSome_mapM.trans (forall₂_congr fun sel hsel =>
      isSome_toOption_compileSelector (h.selectors sel hsel))
  rw [← hselectors]
  simp only [compileRule, hactions, bind, Option.bind]
  cases rule.selectors.mapM fun sel => (compileSelector r rule.name sel).toOption <;> rfl

/-- Valid rules whose scripts compile do too, unless they have a blank selector. -/
theorem isSome_compileRules (h : validateRules r c = [])
    (hscripts : compileScripts script (rulesOf r c) = .ok refs) :
    (compileRules r matchCtx refs (rulesOf r c)).isSome ↔
      ∀ rule ∈ rulesOf r c, ∀ sel ∈ rule.selectors, ¬ sel.Blank :=
  isSome_mapM.trans (forall₂_congr fun rule hrule =>
    isSome_compileRule (validRules_of_validate h rule hrule)
      (length_scriptIdsForRule hscripts hrule))

end Conduit.Config
