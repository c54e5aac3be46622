import Conduit.Lib.Lts
import Conduit.Core.Stages
import Conduit.Config.Primitive
import Conduit.Config.Validate

/-!
# The configurator

All configuration changes go through one task (`conduit-core/src/configurator.rs`): it prepares the
new file and overlay, prepares the metrics export, and installs a snapshot that is compiled from the
merged configuration (`SnapshotStore::install_validated_with_base`).

A failed proposal must change nothing. The code stores the new file and overlay once the merged
configuration is valid, before the export, the compile and the cache have had a chance to refuse
it.

- `apply_atomic`: a proposal keeps to that rule if and only if it is `Accepted`, and in the runs of
  such proposals the effective configuration is that of the current snapshot.
- `refused_reload`: a reload that validates and does not compile.
-/

namespace Conduit.Config

open Keyed

inductive ProposalSource where
  | grpc | file | sighup
  deriving DecidableEq, Repr

inductive OverlayApplyMode where
  | merge | replace | clear
  deriving DecidableEq, Repr

structure PolicyProposal where
  source : ProposalSource
  overlay : Option Config := none
  overlayMode : OverlayApplyMode := .merge
  fileReload : Option Config := none
  primitive : Option ConfigPrimitive := none

structure ApplyResult where
  ok : Bool
  errors : List String
  generation : Nat
  deriving DecidableEq

/-- What the outside answers while one proposal is handled. -/
structure Env where
  /-- `read_to_string` and `load_yaml` of the configuration file. -/
  load : Result Config
  /-- `prepare` of the export controller; `none`: it succeeds, or there is no controller. -/
  exportError : Config → Option String
  /-- `try_from_config_with_base`. -/
  compile : Config → Except String RuntimeSnapshot
  /-- `reconcile` of the cache registry, from the old to the new snapshot. -/
  reconcileError : RuntimeSnapshot → RuntimeSnapshot → Option String

/-- The configurator's state, and the snapshot store. -/
structure Configurator where
  effective : EffectiveConfig
  current : RuntimeSnapshot
  generation : Nat

/-! ## Preparing the file and the overlay -/

def rejectForbiddenOverlayFields (patch : Config) : Result Unit :=
  if validateOverlayPatch patch = [] then .ok () else .error (validateOverlayPatch patch)

/-- Store the overlay, if it merges with the file. -/
def EffectiveConfig.setOverlay (e : EffectiveConfig) (overlay : Config) : Result EffectiveConfig :=
  match h : mergeFileAndOverlay e.file overlay with
  | .ok _ => .ok ⟨e.file, some overlay, by rintro _ ⟨⟩; rw [h]; rfl⟩
  | .error err => .error [err.toString]

def EffectiveConfig.replaceOverlay (e : EffectiveConfig) (overlay : Config) :
    Result EffectiveConfig := do
  rejectForbiddenOverlayFields overlay
  if isOverlayPatchEmpty overlay then return e.clearOverlay
  e.setOverlay overlay

def applyPrimitiveProposal (e : EffectiveConfig) (primitive : ConfigPrimitive) :
    Result EffectiveConfig := do
  let desired ← mutateDesired e.effective primitive
  let overlay ← report (synthesizeOverlay e.file desired)
  e.replaceOverlay overlay

def applyOverlayMode (e : EffectiveConfig) (p : PolicyProposal) : Result EffectiveConfig :=
  match p.overlayMode, p.overlay with
  | .clear, _ => .ok e.clearOverlay
  | .replace, none => .error ["replace apply requires overlay"]
  | .replace, some patch => e.replaceOverlay patch
  | .merge, none => .error ["merge apply requires overlay"]
  | .merge, some patch => do
    rejectForbiddenOverlayFields patch
    if isOverlayPatchEmpty patch then return e
    let overlay ← match e.overlay with
      | some existing => report (mergeOverlayPatches existing patch)
      | none => pure patch
    e.setOverlay overlay

/-- The file layer of the working copy: the configuration of the proposal, the configuration file,
or the old one. -/
def reloadFile (env : Env) (e : EffectiveConfig) (p : PolicyProposal) : Result EffectiveConfig :=
  match p.fileReload with
  | some file => .ok (.new file)
  | none =>
    if p.source ≠ .grpc && p.overlay.isNone && p.primitive.isNone then
      env.load.map .new
    else .ok e

def workingCopy (env : Env) (e : EffectiveConfig) (p : PolicyProposal) : Result EffectiveConfig := do
  let working ← reloadFile env e p
  match p.primitive with
  | some primitive => applyPrimitiveProposal working primitive
  | none => if p.source = .grpc then applyOverlayMode working p else return working

/-- `prepare_effective`: the configurator with the new file and overlay, if they are valid. -/
def prepareEffective (checks : SectionChecks) (env : Env) (s : Configurator) (p : PolicyProposal) :
    Result Configurator := do
  let working ← workingCopy env s.effective p
  let errors := validate checks working.effective
  if errors = [] then return { s with effective := working } else throw errors

/-! ## Installing a snapshot -/

def trySwap (env : Env) (s : Configurator) (snap : RuntimeSnapshot) : Result Configurator :=
  match env.reconcileError s.current snap with
  | some err => .error [err]
  | none => .ok { s with current := snap, generation := s.generation + 1 }

/-- The snapshot that is compiled from a configuration: it keeps the configuration, and gets the
next generation. -/
def Configurator.stamp (s : Configurator) (c : Config) (snap : RuntimeSnapshot) : RuntimeSnapshot :=
  { snap with config := c, generation := s.generation + 1 }

def installValidatedWithBase (checks : SectionChecks) (env : Env) (s : Configurator) (c : Config) :
    Result Configurator := do
  let errors := validate checks c
  if errors ≠ [] then throw errors
  let snap ← (env.compile c).mapError ([·])
  trySwap env s (s.stamp c snap)

def failed (s : Configurator) (errors : List String) : ApplyResult × Configurator :=
  (⟨false, errors, s.generation⟩, s)

def applyProposal (checks : SectionChecks) (env : Env) (s : Configurator) (p : PolicyProposal) :
    ApplyResult × Configurator :=
  match prepareEffective checks env s p with
  | .error errors => failed s errors
  | .ok prepared =>
    let merged := prepared.effective.effective
    match env.exportError merged with
    | some err => failed prepared [err]
    | none =>
      match installValidatedWithBase checks env prepared merged with
      | .error errors => failed prepared errors
      | .ok installed => (⟨true, [], installed.generation⟩, installed)

/-- The configurator as a system: it handles one proposal after the other. It starts with the
snapshot of the file. -/
def configurator (checks : SectionChecks) : Lts where
  St := Configurator
  Act := Env × PolicyProposal
  init s := s.effective.overlay = none ∧ s.current.config = s.effective.file
  step s a := some (applyProposal checks a.1 s a.2).2

/-! ## Failed proposals -/

/-- The export, the compile and the cache accept the configuration. -/
def Env.Accepts (env : Env) (s : Configurator) (c : Config) : Prop :=
  env.exportError c = none ∧
    ∃ snap, env.compile c = .ok snap ∧ env.reconcileError s.current (s.stamp c snap) = none

/-- The proposal asks for no change of the file and the overlay, or for one that the export, the
compile and the cache accept, or for one that cannot be loaded, merged or validated. -/
def Accepted (checks : SectionChecks) (env : Env) (s : Configurator) (p : PolicyProposal) : Prop :=
  ∀ working, workingCopy env s.effective p = .ok working →
    validate checks working.effective = [] →
      working = s.effective ∨ env.Accepts s working.effective

section

variable {checks : SectionChecks} {env : Env} {s : Configurator} {p : PolicyProposal}

theorem prepareEffective_eq_ok {s' : Configurator} :
    prepareEffective checks env s p = .ok s' ↔ ∃ working, workingCopy env s.effective p = .ok working ∧
      validate checks working.effective = [] ∧ s' = { s with effective := working } := by
  unfold prepareEffective
  cases workingCopy env s.effective p with
  | error errors => simp [bind, Except.bind]
  | ok working =>
    simp only [bind, Except.bind, Except.ok.injEq, exists_eq_left']
    split
    · rename_i hv
      simp only [pure, Except.pure, Except.ok.injEq, hv, true_and]
      exact eq_comm
    · rename_i hv
      simp [throw, throwThe, MonadExceptOf.throw, hv]

/-- What a proposal can lead to. A proposal that is refused after the validation fails, and its file
and overlay stay. -/
inductive Outcome (checks : SectionChecks) (env : Env) (s : Configurator) (p : PolicyProposal) :
    ApplyResult × Configurator → Prop
  | unprepared (errors : List String)
      (h : ∀ working, workingCopy env s.effective p = .ok working →
        validate checks working.effective ≠ []) :
      Outcome checks env s p (failed s errors)
  | refused (errors : List String) {working : EffectiveConfig}
      (hw : workingCopy env s.effective p = .ok working)
      (hv : validate checks working.effective = []) (ha : ¬ env.Accepts s working.effective) :
      Outcome checks env s p (failed { s with effective := working } errors)
  | installed (snap : RuntimeSnapshot) {working : EffectiveConfig}
      (hw : workingCopy env s.effective p = .ok working)
      (hv : validate checks working.effective = []) (ha : env.Accepts s working.effective) :
      Outcome checks env s p (⟨true, [], s.generation + 1⟩,
        ⟨working, s.stamp working.effective snap, s.generation + 1⟩)

/-- The install of a valid configuration: it is compiled, and the cache takes it. -/
theorem installValidatedWithBase_eq_ok {c : Config} (hv : validate checks c = [])
    {s' : Configurator} :
    installValidatedWithBase checks env s c = .ok s' ↔
      ∃ snap, env.compile c = .ok snap ∧ env.reconcileError s.current (s.stamp c snap) = none ∧
        s' = ⟨s.effective, s.stamp c snap, s.generation + 1⟩ := by
  simp only [installValidatedWithBase, hv, ne_eq, not_true_eq_false, if_false, bind, Except.bind]
  cases env.compile c with
  | error err => simp [Except.mapError]
  | ok snap =>
    simp only [Except.mapError, trySwap, Except.ok.injEq, exists_eq_left']
    cases env.reconcileError s.current (s.stamp c snap) with
    | some err => simp
    | none =>
      simp only [Except.ok.injEq, true_and]
      exact eq_comm

theorem outcome : Outcome checks env s p (applyProposal checks env s p) := by
  unfold applyProposal
  cases hprep : prepareEffective checks env s p with
  | error errors =>
    refine .unprepared errors fun working hw hv => ?_
    rw [prepareEffective_eq_ok.mpr ⟨working, hw, hv, rfl⟩] at hprep
    cases hprep
  | ok prepared =>
    obtain ⟨working, hw, hv, rfl⟩ := prepareEffective_eq_ok.mp hprep
    cases hexport : env.exportError working.effective with
    | some err =>
      simp only [hexport]
      refine .refused [err] hw hv ?_
      rintro ⟨hnone, -⟩
      rw [hexport] at hnone
      cases hnone
    | none =>
      simp only [hexport]
      cases hinst : installValidatedWithBase checks env { s with effective := working }
          working.effective with
      | error errors =>
        refine .refused errors hw hv ?_
        rintro ⟨-, snap, hcompile, hcache⟩
        have hok := (installValidatedWithBase_eq_ok (s := { s with effective := working }) hv).mpr
          ⟨snap, hcompile, hcache, rfl⟩
        rw [hok] at hinst
        cases hinst
      | ok installed =>
        obtain ⟨snap, hcompile, hcache, rfl⟩ := (installValidatedWithBase_eq_ok hv).mp hinst
        exact .installed snap hw hv ⟨hexport, snap, hcompile, hcache⟩

/-- A failed proposal changes nothing exactly if it is accepted. -/
theorem failed_unchanged_iff :
    ((applyProposal checks env s p).1.ok = false → (applyProposal checks env s p).2 = s) ↔
      Accepted checks env s p := by
  have hout : Outcome checks env s p (applyProposal checks env s p) := outcome
  generalize applyProposal checks env s p = r at hout
  unfold Accepted
  cases hout with
  | unprepared errors h => exact ⟨fun _ working hw hv => absurd hv (h working hw), fun _ _ => rfl⟩
  | refused errors hw hv ha =>
    rename_i working
    constructor
    · intro h working' hw' _
      have hs : { s with effective := working } = s := h rfl
      rw [hw] at hw'
      cases hw'
      exact .inl (congrArg Configurator.effective hs)
    · intro h _
      rcases h working hw hv with rfl | hacc
      · rfl
      · exact absurd hacc ha
  | installed snap hw hv ha =>
    refine ⟨fun _ working' hw' _ => ?_, fun _ hok => by cases hok⟩
    rw [hw] at hw'
    cases hw'
    exact .inr ha

/-- The effective configuration is that of the current snapshot. -/
def Configurator.InStep (s : Configurator) : Prop := s.effective.effective = s.current.config

theorem inStep_applyProposal (h : s.InStep) (hacc : Accepted checks env s p) :
    (applyProposal checks env s p).2.InStep := by
  have hout : Outcome checks env s p (applyProposal checks env s p) := outcome
  generalize applyProposal checks env s p = r at hout
  cases hout with
  | unprepared errors _ => exact h
  | refused errors hw hv ha =>
    rcases hacc _ hw hv with rfl | hacc
    · exact h
    · exact absurd hacc ha
  | installed snap hw hv ha => rfl

end

theorem effective_of_none {e : EffectiveConfig} (h : e.overlay = none) : e.effective = e.file := by
  obtain ⟨file, overlay, hm⟩ := e
  subst h
  rfl

/-- **A failed proposal changes nothing exactly if it is accepted, and in every run of such
proposals the effective configuration is that of the current snapshot.** -/
theorem apply_atomic (checks : SectionChecks) :
    (∀ env s p,
      ((applyProposal checks env s p).1.ok = false → (applyProposal checks env s p).2 = s) ↔
        Accepted checks env s p) ∧
    ∀ s : Configurator, (configurator checks).Reach (fun s a => Accepted checks a.1 s a.2) s →
      s.effective.effective = s.current.config := by
  refine ⟨fun env s p => failed_unchanged_iff, fun s h => ?_⟩
  refine Lts.Reach.inv (L := configurator checks) (P := Configurator.InStep) ?_ ?_ h
  · intro (s : Configurator) ⟨hover, hfile⟩
    exact (effective_of_none hover).trans hfile.symm
  · intro (s : Configurator) (env, p) s' _ ih hacc hs
    cases hs
    exact inStep_applyProposal ih hacc

/-! ## A sample -/

/-- Checks that find nothing. -/
def sampleChecks : SectionChecks where
  listeners _ := []
  forward _ := []
  lookup _ := []
  poolSources _ := []
  rules _ := []
  metrics _ := []
  maxTables _ := 0

/-- One pool with one backend. -/
def sampleFile : Config where
  schemaVersion := 1
  pools := [{ name := "default", backends := [{ address := "192.0.2.1:53" }] }]

def sampleReload : Config := { sampleFile with rules := some [1] }

/-- The rules do not compile: they call a script that is not there. -/
def sampleEnv : Env where
  load := .ok sampleReload
  exportError _ := none
  compile c := if c.rules.isSome then .error "script not found" else .ok {}
  reconcileError _ _ := none

def sampleConfigurator : Configurator := ⟨.new sampleFile, { config := sampleFile }, 0⟩

/-- The reload of a file that validates and does not compile fails, and the new file stays: the
effective configuration is no longer that of the current snapshot. -/
theorem refused_reload :
    ∃ (checks : SectionChecks) (env : Env) (s : Configurator) (p : PolicyProposal),
      (configurator checks).init s ∧ (applyProposal checks env s p).1.ok = false ∧
      (applyProposal checks env s p).2.effective.file ≠ s.effective.file ∧
      (applyProposal checks env s p).2.effective.effective ≠
        (applyProposal checks env s p).2.current.config := by
  refine ⟨sampleChecks, sampleEnv, sampleConfigurator, { source := .sighup }, ⟨rfl, rfl⟩, rfl, ?_, ?_⟩
  all_goals
    intro h
    exact absurd (congrArg (·.rules) h) (by decide)

end Conduit.Config
