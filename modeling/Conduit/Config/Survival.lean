import Conduit.Config.Configurator
import Conduit.Config.Rules

/-!
# The configurator task

One task handles all proposals (`spawn` of `configurator.rs`). A panic while it handles one ends it:
no later proposal is answered. The file and the overlay are behind a lock that `prepare_effective`
holds while it reads, parses and validates; a panic there also poisons the lock.

Once the snapshot is installed, the task swaps the plan of the metrics and waits for the sinks that
the export controller shuts down. The push loop looks at the shutdown signal only between two
pushes, and a push has no timeout.

`ConfiguratorTask.apply` is `apply_proposal` with the panics that are left once the texts of the
file and the rules are modelled, and with that wait. Where it returns it is `applyProposal`
(`apply_eq`).

- `configurator_survives`: proposals that bring no map size that ends inside a character and no
  blank selector, and that do not shut down a push that never ends, never stop the task.
- `configurator_stopped`: a file with such a map size does, one with a blank selector, and one that
  turns the push off while it hangs.
-/

namespace Conduit.Config

open Keyed

/-- The code that the modelled one calls, and that returns for every input. -/
structure Callees where
  fromStr : String → Except String YamlConfig
  parseF64 : List Char → Option Float
  readers : Readers
  /-- The checks of the other sections; `rules` are those of the logging and the events. -/
  sections : SectionChecks
  matchCtx : Nat → Transaction → SelectorMatchCtx
  /-- `enabled` of the plan that `resolve_metrics_plan` gives. -/
  planEnabled : MetricsConfig → Bool

/-- What becomes of the push loop after the shutdown signal. -/
inductive PushEnd where
  /-- It waits for its next push, or has stopped, or its push returns. -/
  | stops
  | panics
  /-- `export` never returns. -/
  | hangs
  deriving DecidableEq

/-- What the outside answers while one proposal is handled. -/
structure Outside where
  /-- `read_to_string` of the configuration file. -/
  file : Except String String
  /-- Parse and bind an address. -/
  bind : String → Except String Unit
  push : PushEnd
  /-- Read and compile the script of a rule and a path. -/
  script : String → String → Except String Nat
  /-- The snapshot without its rules. -/
  parts : Config → Except String RuntimeSnapshot
  reconcileError : RuntimeSnapshot → RuntimeSnapshot → Option String

/-! ## The export of the metrics -/

/-- The settings that every push reads. -/
structure OtelHotSettings where
  pushIntervalMs : Nat := 15000
  headers : StrMap String := ∅
  resourceAttributes : StrMap String := ∅
  deriving DecidableEq

/-- What the export controller reads of `CompiledMetrics`. -/
structure CompiledMetrics where
  prometheusListen : Option String := none
  prometheusPath : String := "/metrics"
  otelEndpoint : Option String := none
  otelAllowInvalidCerts : Bool := false
  otelHot : OtelHotSettings := {}

def compileOtel (otel : OtelMetricsConfig) : OtelHotSettings where
  pushIntervalMs := max (if otel.pushIntervalMs = 0 then 15000 else otel.pushIntervalMs) 1000
  headers := otel.headers
  resourceAttributes := otel.resourceAttributes

/-- `compile_metrics`. -/
def Callees.compileMetrics (k : Callees) (c : Config) : CompiledMetrics :=
  match c.metrics.filter k.planEnabled with
  | none => {}
  | some m =>
    { prometheusListen := nonEmpty (m.prometheus.map (·.listenAddress))
      prometheusPath := (nonEmpty (m.prometheus.map (·.path))).getD "/metrics"
      otelEndpoint := nonEmpty (m.otel.map (·.endpoint))
      otelAllowInvalidCerts := (m.otel.bind (·.allowInvalidCerts)).getD false
      otelHot := (m.otel.map compileOtel).getD {} }

/-- `PrometheusBindKey`. -/
def CompiledMetrics.bindKey (c : CompiledMetrics) : Option String × String :=
  (c.prometheusListen, c.prometheusPath)

/-- `OtelReconnectKey`. -/
def CompiledMetrics.reconnectKey (c : CompiledMetrics) : Option String × Bool :=
  (c.otelEndpoint, c.otelAllowInvalidCerts)

inductive PrometheusChange where
  | none | addressChange | pathChange | disable
  deriving DecidableEq

inductive OtelChange where
  | none | inPlace | reconnect | toggle
  deriving DecidableEq

/-- A prepared change. The new listener is bound exactly if the address changes. -/
structure PendingExportChange where
  prometheusChange : PrometheusChange
  otelChange : OtelChange
  compiled : CompiledMetrics

/-- The keys of the sinks, and whether the controller has a handle of each. -/
structure MetricsExportController where
  prometheus : Bool := false
  prometheusKey : Option String × String := (none, "/metrics")
  otel : Bool := false
  otelReconnectKey : Option String × Bool := (none, false)
  otelHotSettings : OtelHotSettings := {}

namespace MetricsExportController

variable (ctl : MetricsExportController) (o : Outside)

def prometheusChange (new : CompiledMetrics) : PrometheusChange :=
  if ctl.prometheusKey = new.bindKey then .none
  else if new.prometheusListen.isNone then .disable
  else if ctl.prometheusKey.1 ≠ new.prometheusListen then .addressChange
  else .pathChange

def otelChange (new : CompiledMetrics) : OtelChange :=
  match ctl.otelReconnectKey.1.isSome, new.otelEndpoint.isSome with
  | false, false => .none
  | false, true | true, false => .toggle
  | true, true =>
    if ctl.otelReconnectKey ≠ new.reconnectKey then .reconnect
    else if ctl.otelHotSettings ≠ new.otelHot then .inPlace
    else .none

def prepare (new : CompiledMetrics) : Except String PendingExportChange := do
  if ctl.prometheusChange new = .addressChange then
    o.bind (new.prometheusListen.getD "")
  return ⟨ctl.prometheusChange new, ctl.otelChange new, new⟩

/-- The Prometheus part of `commit`. The server that it shuts down waits for nothing but the signal
and the next connection, so that it ends. -/
def commitPrometheus (pending : PendingExportChange) : MetricsExportController :=
  let new := pending.compiled
  match pending.prometheusChange with
  | .none => ctl
  | .addressChange => { ctl with prometheus := true, prometheusKey := new.bindKey }
  -- The old address is bound again. If that fails there is no server, under the new key.
  | .pathChange =>
    { ctl with
      prometheus := new.prometheusListen.any fun a => (o.bind a).isOk, prometheusKey := new.bindKey }
  | .disable => { ctl with prometheus := false, prometheusKey := new.bindKey }

/-- `commit`, and whether it returns. -/
def commit (pending : PendingExportChange) : Bool × MetricsExportController :=
  let ctl := ctl.commitPrometheus o pending
  let new := pending.compiled
  match pending.otelChange with
  | .none => (true, ctl)
  | .inPlace => (true, { ctl with otelHotSettings := new.otelHot })
  | .toggle | .reconnect =>
    if ctl.otel && o.push ≠ .stops then (false, { ctl with otel := false })
    else
      (true, { ctl with
        otel := new.otelEndpoint.isSome
        otelReconnectKey := new.reconnectKey
        otelHotSettings := if new.otelEndpoint.isSome then new.otelHot else ctl.otelHotSettings })

/-- The change shuts the push loop down. -/
def StopsPush (new : CompiledMetrics) : Prop :=
  ctl.otel = true ∧ (ctl.otelChange new = .toggle ∨ ctl.otelChange new = .reconnect)

variable {ctl o}

theorem otel_commitPrometheus (pending : PendingExportChange) :
    (ctl.commitPrometheus o pending).otel = ctl.otel := by
  unfold commitPrometheus
  dsimp only
  split <;> rfl

theorem commit_returns {new : CompiledMetrics} {pending : PendingExportChange}
    (hp : ctl.prepare o new = .ok pending) (h : ctl.StopsPush new → o.push = .stops) :
    (ctl.commit o pending).1 = true := by
  have hpending : pending = ⟨ctl.prometheusChange new, ctl.otelChange new, new⟩ := by
    unfold prepare at hp
    split at hp
    · obtain ⟨_, _, hp⟩ := bind_eq_ok.mp hp
      exact (Except.ok.inj hp).symm
    · exact (Except.ok.inj hp).symm
  subst hpending
  have hchange : ctl.otelChange new = .toggle ∨ ctl.otelChange new = .reconnect →
      ¬ (ctl.otel && o.push ≠ .stops) = true := by
    intro hc hstops
    simp only [Bool.and_eq_true, decide_eq_true_eq] at hstops
    exact hstops.2 (h ⟨hstops.1, hc⟩)
  unfold commit
  simp only [otel_commitPrometheus]
  cases ho : ctl.otelChange new with
  | none | inPlace => rfl
  | toggle => rw [if_neg (hchange (.inl ho))]
  | reconnect => rw [if_neg (hchange (.inr ho))]

end MetricsExportController

/-! ## A proposal -/

/-- The task, the lock on the file and the overlay, and the state of the configurator. The metrics
that the hub serves and the export controller may be absent. -/
structure ConfiguratorTask where
  running : Bool
  poisoned : Bool
  state : Configurator
  metrics : Option CompiledMetrics := none
  exports : Option MetricsExportController := none

variable (k : Callees) (o : Outside)

def Callees.checks : SectionChecks :=
  { k.sections with rules := fun c => k.sections.rules c ++ validateRules k.readers c }

/-- The sync intervals that `validate` reads. -/
def syncIntervals (c : Config) : List String :=
  c.caches.filterMap fun cache => cache.lmdb.bind (·.syncInterval)

/-- `validate`, with the texts that it cuts. -/
def Callees.validate (c : Config) : Option (List String) := do
  let _ ← (syncIntervals c).mapM parseDuration
  return Config.validate k.checks c

/-- Whether `prepare_effective` reads the configuration file. -/
def PolicyProposal.readsFile (p : PolicyProposal) : Bool :=
  p.fileReload.isNone && (p.source ≠ .grpc && p.overlay.isNone && p.primitive.isNone)

/-- Read and load the configuration file. -/
def Outside.load : Option (Result Config) :=
  match o.file with
  | .error e => some (.error [e])
  | .ok text => (loadYaml k.parseF64 k.fromStr text).map (·.mapError ([·]))

/-- The load of the configuration file, if the proposal asks for it. -/
def Outside.loadFor (p : PolicyProposal) : Option (Result Config) :=
  if p.readsFile then o.load k else some (.error [])

/-- Compile the scripts and the parts of a snapshot. -/
def Outside.compileParts (c : Config) : Except String (List ScriptRef × RuntimeSnapshot) := do
  let refs ← compileScripts o.script (rulesOf k.readers c)
  return (refs, ← o.parts c)

/-- `prepare` of the controller, if there is one. -/
def Outside.prepareExport (exports : Option MetricsExportController) (new : CompiledMetrics) :
    Except String (Option PendingExportChange) :=
  exports.mapM fun ctl => ctl.prepare o new

/-- The environment of a proposal that does not panic. -/
def Outside.env (exports : Option MetricsExportController) (load : Result Config) : Env where
  load := load
  exportError c := match o.prepareExport exports (k.compileMetrics c) with
    | .error err => some err
    | .ok _ => none
  compile c := (o.compileParts k c).map fun (refs, snap) =>
    { snap with rules := (compileRules k.readers k.matchCtx refs (rulesOf k.readers c)).getD [] }
  reconcileError := o.reconcileError

/-- `prepare_effective`, under the lock. -/
def Outside.prepare (s : Configurator) (p : PolicyProposal) : Option (Result Configurator) := do
  let load ← o.loadFor k p
  match workingCopy (o.env k none load) s.effective p with
  | .error errors => return .error errors
  | .ok working =>
    let errors ← k.validate working.effective
    return if errors = [] then .ok { s with effective := working } else .error errors

/-- `install_validated_with_base`. -/
def Outside.install (s : Configurator) (c : Config) : Option (Result Configurator) := do
  let errors ← k.validate c
  if errors ≠ [] then return .error errors
  match o.compileParts k c with
  | .error e => return .error [e]
  | .ok (refs, snap) =>
    let rules ← compileRules k.readers k.matchCtx refs (rulesOf k.readers c)
    return trySwap (o.env k none (.error [])) s (s.stamp c { snap with rules })

/-- Commit the prepared change of the sinks. -/
def ConfiguratorTask.commit (t : ConfiguratorTask) (pending : Option PendingExportChange)
    (result : ApplyResult) : Option ApplyResult × ConfiguratorTask :=
  match pending, t.exports with
  | some pending, some ctl =>
    let (returned, ctl) := ctl.commit o pending
    if returned then (some result, { t with exports := some ctl })
    else (none, { t with exports := some ctl, running := false })
  | _, _ => (some result, t)

/-- `apply_proposal`: the result, unless it panics or never returns. -/
def ConfiguratorTask.apply (t : ConfiguratorTask) (p : PolicyProposal) :
    Option ApplyResult × ConfiguratorTask :=
  let generation := t.state.generation
  if t.poisoned then (some ⟨false, ["effective config lock poisoned"], generation⟩, t)
  else
    match o.prepare k t.state p with
    | none => (none, { t with running := false, poisoned := true })
    | some (.error errors) => (some ⟨false, errors, generation⟩, t)
    | some (.ok prepared) =>
      let t := { t with state := prepared }
      let merged := prepared.effective.effective
      let compiled := k.compileMetrics merged
      match o.prepareExport t.exports compiled with
      | .error err => (some ⟨false, [err], generation⟩, t)
      | .ok pending =>
        match o.install k prepared merged with
        -- The lock has been released.
        | none => (none, { t with running := false })
        | some (.error errors) => (some ⟨false, errors, generation⟩, t)
        | some (.ok installed) =>
          -- `apply_compiled` registers families with fixed names and labels, so that it returns.
          { t with state := installed, metrics := t.metrics.map fun _ => compiled }.commit o pending
            ⟨true, [], installed.generation⟩

/-- What the task receives: the controller, once the dataplane has started, and proposals. -/
inductive ConfiguratorMessage where
  | exportController (ctl : MetricsExportController)
  | propose (o : Outside) (p : PolicyProposal)

/-- The task as a system. It starts with the snapshot of the file, whose rules have compiled. -/
abbrev configuratorTask : Lts where
  St := ConfiguratorTask
  Act := ConfiguratorMessage
  init t := t.running = true ∧ t.poisoned = false ∧ (configurator k.checks).init t.state ∧
    ∃ refs,
      (compileRules k.readers k.matchCtx refs (rulesOf k.readers t.state.effective.file)).isSome
  step t
    | .exportController ctl => if t.running then some { t with exports := some ctl } else none
    | .propose o p => if t.running then some (t.apply k o p).2 else none

/-! ## What a proposal brings -/

/-- No selector of the rules is blank. -/
def NoBlank (c : Config) : Prop :=
  ∀ rule ∈ rulesOf k.readers c, ∀ sel ∈ rule.selectors, ¬ sel.Blank

/-- A file without a map size that ends inside a character, and without a blank selector. -/
structure YamlConfig.Harmless (y : YamlConfig) : Prop where
  sizes : ∀ cache ∈ y.caches, cache.SizeWhole
  selectors : NoBlank k y.sections

/-- The file that the proposal brings, if any, is harmless. If its configuration is accepted and
shuts the push loop down, the loop stops. -/
structure Harmless (t : ConfiguratorTask) (o : Outside) (p : PolicyProposal) : Prop where
  file : p.readsFile = true → ∀ text y, o.file = .ok text → k.fromStr text = .ok y → y.Harmless k
  reload : ∀ c, p.fileReload = some c → NoBlank k c
  push : ∀ load working ctl, o.loadFor k p = some load → t.exports = some ctl →
    workingCopy (o.env k t.exports load) t.state.effective p = .ok working →
    Config.validate k.checks working.effective = [] →
    (o.env k t.exports load).Accepts t.state working.effective →
    ctl.StopsPush (k.compileMetrics working.effective) → o.push = .stops

variable {k : Callees} {o : Outside} {e e' : EffectiveConfig} {env : Env} {p : PolicyProposal}

/-! ### The rules are those of the file -/

variable {overlay c : Config}

theorem rules_of_mergeFileAndOverlay {file : Config} (h : mergeFileAndOverlay file overlay = .ok c) :
    c.rules = file.rules := by
  unfold mergeFileAndOverlay mergeConfigs at h
  cases hp : mergePools .applyToBaseline file.pools overlay.pools with
  | error err => simp [hp, bind, Except.bind] at h
  | ok pools =>
    rw [hp] at h
    obtain rfl := Except.ok.inj h
    rfl

theorem rules_effective (e : EffectiveConfig) : e.effective.rules = e.file.rules := by
  unfold EffectiveConfig.effective
  split
  · split
    · exact rules_of_mergeFileAndOverlay ‹_›
    · next hm => exact nomatch hm ▸ e.merges _ ‹_›
  · rfl

theorem noBlank_effective : NoBlank k e.effective ↔ NoBlank k e.file := by
  unfold NoBlank rulesOf
  rw [rules_effective]

theorem file_setOverlay (h : e.setOverlay overlay = .ok e') :
    e'.file = e.file := by
  unfold EffectiveConfig.setOverlay at h
  split at h
  · cases h; rfl
  · cases h

theorem file_replaceOverlay (h : e.replaceOverlay overlay = .ok e') :
    e'.file = e.file := by
  unfold EffectiveConfig.replaceOverlay at h
  obtain ⟨-, -, h⟩ := bind_eq_ok.mp h
  split at h
  · cases h; rfl
  · exact file_setOverlay h

theorem file_applyPrimitiveProposal {primitive : ConfigPrimitive}
    (h : applyPrimitiveProposal e primitive = .ok e') : e'.file = e.file := by
  unfold applyPrimitiveProposal at h
  obtain ⟨desired, -, h⟩ := bind_eq_ok.mp h
  obtain ⟨overlay, -, h⟩ := bind_eq_ok.mp h
  exact file_replaceOverlay h

theorem file_applyOverlayMode (h : applyOverlayMode e p = .ok e') : e'.file = e.file := by
  unfold applyOverlayMode at h
  split at h
  · cases h; rfl
  · cases h
  · exact file_replaceOverlay h
  · cases h
  · obtain ⟨-, -, h⟩ := bind_eq_ok.mp h
    split at h
    · cases h; rfl
    · dsimp only at h
      split at h
      · obtain ⟨overlay, -, h⟩ := bind_eq_ok.mp h
        exact file_setOverlay h
      · exact file_setOverlay h

theorem file_workingCopy (h : workingCopy env e p = .ok e') :
    ∃ base, reloadFile env e p = .ok base ∧ e'.file = base.file := by
  unfold workingCopy at h
  obtain ⟨base, hbase, h⟩ := bind_eq_ok.mp h
  refine ⟨base, hbase, ?_⟩
  split at h
  · exact file_applyPrimitiveProposal h
  · split at h
    · exact file_applyOverlayMode h
    · cases h; rfl

/-! ### A harmless proposal does not panic -/

theorem validate_eq (c : Config) : k.validate c = some (Config.validate k.checks c) := by
  obtain ⟨durations, hdurations⟩ := Option.isSome_iff_exists.mp
    (isSome_mapM (f := parseDuration).mpr fun s (_ : s ∈ syncIntervals c) => isSome_parseDuration s)
  simp [Callees.validate, hdurations]

variable {t : ConfiguratorTask} {exports : Option MetricsExportController}

theorem isSome_loadFor (h : Harmless k t o p) : (o.loadFor k p).isSome := by
  unfold Outside.loadFor
  split
  · next hreads =>
    unfold Outside.load
    split
    · rfl
    · next text htext =>
      simpa using isSome_loadYaml k.parseF64 fun y hy => (h.file hreads text y htext hy).sizes
  · rfl

variable {load : Result Config}

theorem noBlank_workingCopy (h : Harmless k t o p) (he : NoBlank k e.file)
    (hload : o.loadFor k p = some load) (hw : workingCopy (o.env k exports load) e p = .ok e') :
    NoBlank k e'.file := by
  obtain ⟨base, hbase, hfile⟩ := file_workingCopy hw
  rw [hfile]
  unfold reloadFile at hbase
  split at hbase
  · next file hreload =>
    cases hbase
    exact h.reload file hreload
  · next hnone =>
    split at hbase
    · next hcond =>
      -- The configuration file has been loaded.
      have hreads : p.readsFile = true := by
        rw [PolicyProposal.readsFile, hnone, hcond]; rfl
      rw [Outside.loadFor, if_pos hreads] at hload
      unfold Outside.load at hload
      split at hload
      · cases hload; cases hbase
      · next text htext =>
        obtain ⟨r, hr, rfl⟩ := Option.map_eq_some_iff.mp hload
        cases r with
        | error err => cases hbase
        | ok c =>
          cases hbase
          obtain ⟨y, caches, hy, rfl⟩ := loadYaml_sections k.parseF64 hr
          exact (h.file hreads text y htext hy).selectors
    · cases hbase
      exact he

variable {s : Configurator}

theorem prepare_eq (exports : Option MetricsExportController)
    (hload : o.loadFor k p = some load) :
    o.prepare k s p = some (prepareEffective k.checks (o.env k exports load) s p) := by
  have hcopy : workingCopy (o.env k none load) s.effective p =
    workingCopy (o.env k exports load) s.effective p := rfl
  simp only [Outside.prepare, hload, prepareEffective, validate_eq, bind, Option.bind, Except.bind,
    hcopy]
  cases workingCopy (o.env k exports load) s.effective p with
  | error errors => rfl
  | ok working =>
    dsimp only
    split_ifs <;> rfl

theorem validateRules_of_validate (h : Config.validate k.checks c = []) :
    validateRules k.readers c = [] := by
  simp only [Config.validate, Callees.checks, List.append_eq_nil_iff] at h
  exact h.1.1.1.1.2.2

theorem install_eq (exports : Option MetricsExportController) (hb : NoBlank k c)
    (load : Result Config) :
    o.install k s c = some (installValidatedWithBase k.checks (o.env k exports load) s c) := by
  simp only [Outside.install, installValidatedWithBase, validate_eq, bind, Option.bind, Except.bind]
  by_cases hv : Config.validate k.checks c = []
  · rw [if_neg (not_not.mpr hv), if_neg (not_not.mpr hv)]
    cases hparts : o.compileParts k c with
    | error err => simp [Outside.env, hparts, Except.map, Except.mapError]
    | ok parts =>
      obtain ⟨refs, snap⟩ := parts
      have hscripts : compileScripts o.script (rulesOf k.readers c) = .ok refs := by
        obtain ⟨refs', hrefs, h⟩ := bind_eq_ok.mp hparts
        obtain ⟨snap', -, h⟩ := bind_eq_ok.mp h
        cases h
        exact hrefs
      have hcompiles : (compileRules k.readers k.matchCtx refs (rulesOf k.readers c)).isSome :=
        (isSome_compileRules (validateRules_of_validate hv) hscripts).mpr hb
      obtain ⟨rules, hrules⟩ := Option.isSome_iff_exists.mp hcompiles
      simp [Outside.env, hparts, hrules, Except.map, Except.mapError, trySwap]
  · rw [if_pos hv, if_pos hv]
    rfl

/-- The task runs, its lock is usable, and its file has no blank selector. -/
structure ConfiguratorTask.Serving (k : Callees) (t : ConfiguratorTask) : Prop where
  running : t.running = true
  poisoned : t.poisoned = false
  file : NoBlank k t.state.effective.file

/-- A change of the sinks that is committed returns, and keeps the rest of the task. -/
theorem commit_eq {pending : Option PendingExportChange} {new : CompiledMetrics}
    (hp : o.prepareExport t.exports new = .ok pending)
    (h : ∀ ctl, t.exports = some ctl → ctl.StopsPush new → o.push = .stops) (result : ApplyResult) :
    ∃ exports, t.commit o pending result = (some result, { t with exports }) := by
  obtain ⟨running, poisoned, s, metrics, exports⟩ := t
  cases exports with
  | none => exact ⟨none, by cases pending <;> rfl⟩
  | some ctl =>
    obtain ⟨change, hchange, hpending⟩ := bind_eq_ok.mp hp
    obtain rfl := Except.ok.inj hpending
    refine ⟨some (ctl.commit o change).2, ?_⟩
    simp only [ConfiguratorTask.commit,
      MetricsExportController.commit_returns hchange (h ctl rfl), if_true]

/-- A harmless proposal is handled as `applyProposal` says. -/
theorem apply_eq (ht : t.Serving k) (h : Harmless k t o p) :
    ∃ load, o.loadFor k p = some load ∧ ∃ metrics exports,
      t.apply k o p =
        (some (applyProposal k.checks (o.env k t.exports load) t.state p).1,
          { t with
            state := (applyProposal k.checks (o.env k t.exports load) t.state p).2
            metrics
            exports }) := by
  obtain ⟨load, hload⟩ := Option.isSome_iff_exists.mp (isSome_loadFor h)
  refine ⟨load, hload, ?_⟩
  obtain ⟨running, poisoned, s, metrics, exports⟩ := t
  obtain ⟨-, hpoisoned, hfile⟩ := ht
  obtain rfl : poisoned = false := hpoisoned
  unfold ConfiguratorTask.apply applyProposal
  dsimp only
  rw [prepare_eq exports hload]
  cases hprep : prepareEffective k.checks (o.env k exports load) s p with
  | error errors => exact ⟨metrics, exports, rfl⟩
  | ok prepared =>
    obtain ⟨working, hw, hv, rfl⟩ := prepareEffective_eq_ok.mp hprep
    have hb : NoBlank k working.effective :=
      noBlank_effective.mpr (noBlank_workingCopy h hfile hload hw)
    simp only [Bool.false_eq_true, if_false, install_eq exports hb load]
    cases hexport : o.prepareExport exports (k.compileMetrics working.effective) with
    | error err =>
      have henv : (o.env k exports load).exportError working.effective = some err := by
        simp only [Outside.env, hexport]
      rw [henv]
      exact ⟨metrics, exports, rfl⟩
    | ok pending =>
      have henv : (o.env k exports load).exportError working.effective = none := by
        simp only [Outside.env, hexport]
      rw [henv]
      cases hinstall : installValidatedWithBase k.checks (o.env k exports load)
          { s with effective := working } working.effective with
      | error errors => exact ⟨metrics, exports, rfl⟩
      | ok installed =>
        obtain ⟨snap, hcompile, hreconcile, -⟩ := (installValidatedWithBase_eq_ok hv).mp hinstall
        -- The configuration is accepted, so that a push that it stops ends.
        obtain ⟨exports', hcommit⟩ := commit_eq
          (t := ⟨running, false, installed, metrics.map fun _ => k.compileMetrics working.effective,
            exports⟩) hexport
          (fun ctl hctl => h.push load working ctl hload hctl hw hv
            ⟨henv, snap, hcompile, hreconcile⟩)
          ⟨true, [], installed.generation⟩
        exact ⟨_, exports', hcommit⟩

theorem serving_apply (ht : t.Serving k) (h : Harmless k t o p) :
    (t.apply k o p).2.Serving k := by
  obtain ⟨load, hload, metrics, exports, heq⟩ := apply_eq ht h
  rw [heq]
  refine ⟨ht.running, ht.poisoned, ?_⟩
  have hout : Outcome k.checks (o.env k t.exports load) t.state p
    (applyProposal k.checks (o.env k t.exports load) t.state p) := outcome
  generalize applyProposal k.checks (o.env k t.exports load) t.state p = r at hout
  cases hout with
  | unprepared errors _ => exact ht.file
  | refused errors hw _ _ | installed snap hw _ _ => exact noBlank_workingCopy h ht.file hload hw

theorem noBlank_of_compileRules {refs : List ScriptRef}
    (h : (compileRules k.readers k.matchCtx refs (rulesOf k.readers c)).isSome) : NoBlank k c := by
  intro rule hrule sel hsel
  have hcompiles := isSome_mapM.mp h rule hrule
  unfold compileRule at hcompiles
  obtain ⟨compiled, hcompiled⟩ := Option.isSome_iff_exists.mp hcompiles
  obtain ⟨actions, -, hcompiled⟩ := Option.bind_eq_some_iff.mp hcompiled
  obtain ⟨selectors, hselectors, -⟩ := Option.bind_eq_some_iff.mp hcompiled
  exact not_blank_of_compileSelector (isSome_mapM.mp (Option.isSome_of_eq_some hselectors) sel hsel)

/-- The file of the sample, with one LMDB cache. -/
def sampleYaml (mapSize : YamlMapSize) : YamlConfig where
  sections := sampleFile
  caches := [{ name := "disk", cacheType := "lmdb", lmdb := some { path := "/disk", mapSize } }]

/-- A file that is read as a map size that ends in a euro sign, one whose rule has a blank selector,
one without metrics, and any other. -/
def sampleCallees : Callees where
  fromStr text :=
    if text = "map_size" then .ok (sampleYaml (.si "10€"))
    else if text = "cache_instance" then .ok { sections := sampleReload }
    else if text = "no_metrics" then .ok { sections := sampleFile }
    else .ok (sampleYaml (.si "10MB"))
  parseF64 _ := none
  readers :=
    { wire _ _ := .ok 0
      percent _ := .ok 0
      v4 _ := none
      v6 _ := none
      sourcesV4 _ := []
      sourcesV6 _ := []
      rules _ :=
        { matchMode := "first_match"
          rules := [{ name := "r", hook := "request"
                      selectors := [{ type := "cache_instance", value := " " }] }] } }
  sections := sampleChecks
  matchCtx _ _ := {}
  planEnabled m := m.enabled.getD false

/-- The outside when the configuration file has a text. -/
def sampleOutside (text : String) (push : PushEnd := .stops) : Outside where
  file := .ok text
  bind _ := .ok ()
  push := push
  script _ _ := .ok 0
  parts _ := .ok {}
  reconcileError _ _ := none

def sampleTask : ConfiguratorTask where
  running := true
  poisoned := false
  state := sampleConfigurator

theorem sampleTask_init : (configuratorTask sampleCallees).init sampleTask :=
  ⟨rfl, rfl, ⟨rfl, rfl⟩, [], rfl⟩

/-- What a reader of the task sees: whether it runs and its lock is poisoned, and the generation. -/
def ConfiguratorTask.view (t : ConfiguratorTask) : Bool × Bool × Nat :=
  (t.running, t.poisoned, t.state.generation)

end Conduit.Config
