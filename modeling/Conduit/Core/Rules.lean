import Mathlib.Tactic.Common
import Conduit.Core.Transaction

/-!
# Rules

The compiled rules and their evaluation (`rules/mod.rs`, and `run_scripts`, `apply_effects` of
`conduit-script/src/runtime.rs`). The first rule of the hook whose selectors all match runs its
actions in order.

A selector and a Rhai script also read what is outside the transaction (the clock, the sampler,
data tables): that is the `world` of the evaluation. The Rhai engine is a parameter: a script
gives its effects, or fails.
-/

namespace Conduit

inductive RuleHook where
  | request | response
  deriving DecidableEq, Repr

inductive RuleOutcome where
  | cont | drop | retry
  deriving DecidableEq, Repr

inductive TagOp where
  | bool (v : Bool)
  | string (v : String)
  | clear

/-- What a script asks for; applied to the transaction after the script completes. -/
structure ScriptEffects where
  pool : Option String := none
  retryPool : Option String := none
  retryRequested : Bool := false
  hardRetry : Bool := false
  clearSoftRetry : Bool := false
  clearRetryPool : Bool := false
  clearPool : Bool := false
  tagOps : List (String × TagOp) := []
  rcode : Option Nat := none
  softDrop : Bool := false
  hardDrop : Bool := false
  clearSoftDrop : Bool := false
  sourceOverrideV4 : Option String := none
  sourceOverrideV6 : Option String := none
  retrySourceOverrideV4 : Option String := none
  retrySourceOverrideV6 : Option String := none
  clearRetrySourceV4 : Bool := false
  clearRetrySourceV6 : Bool := false
  cacheLookupEligible : Option Bool := none

/-- A compiled script: its hook, and the effects of a run (`none`: the script fails). -/
structure CompiledScript where
  hook : RuleHook
  run : (world : Nat) → Transaction → Option ScriptEffects

inductive CompiledAction where
  | setPool (p : String)
  | setTag (key value : String)
  | setRetryPool (p : String)
  | retry
  | retryNow
  | drop
  | dropNow
  | clearDrop
  | clearRetry
  | clearRetryPool
  | clearPool
  | clearTag (key : String)
  | setRcode (rc : Nat)
  | setSourceV4 (addr : String)
  | setSourceV6 (addr : String)
  | setRetrySourceV4 (addr : String)
  | setRetrySourceV6 (addr : String)
  | clearRetrySourceV4
  | clearRetrySourceV6
  | rhai (scriptId : Nat)

structure CompiledRule where
  name : String := ""
  hook : RuleHook
  selectors : List ((world : Nat) → Transaction → Bool) := []
  actions : List CompiledAction

abbrev CompiledRules := List CompiledRule
abbrev CompiledScripting := List CompiledScript

inductive ScriptRunOutcome where
  | ok | drop | dropNow | retry | retryNow
  deriving DecidableEq, Repr

def TagOp.apply (tags : TagSet) : String × TagOp → TagSet
  | (key, .bool v) => tags.setBool key v
  | (key, .string v) => tags.setString key v
  | (key, .clear) => tags.clear key

/-- `apply_effects`. The methods that write `cache_lookup_eligible` do nothing in the response
phase. -/
def applyEffects (phase : RuleHook) (t : Transaction) (fx : ScriptEffects) : Transaction :=
  { t with
    selectedPool := if fx.clearPool then none else fx.pool.or t.selectedPool
    retryPool := if fx.clearRetryPool then none else fx.retryPool.or t.retryPool
    tags := fx.tagOps.foldl TagOp.apply t.tags
    rcode := fx.rcode.or t.rcode
    sourceOverrideV4 := fx.sourceOverrideV4.or t.sourceOverrideV4
    sourceOverrideV6 := fx.sourceOverrideV6.or t.sourceOverrideV6
    retrySourceOverrideV4 :=
      if fx.clearRetrySourceV4 then none else fx.retrySourceOverrideV4.or t.retrySourceOverrideV4
    retrySourceOverrideV6 :=
      if fx.clearRetrySourceV6 then none else fx.retrySourceOverrideV6.or t.retrySourceOverrideV6
    softDrop := fx.softDrop || (!fx.clearSoftDrop && t.softDrop)
    dropped := fx.hardDrop || (!fx.clearSoftDrop && t.dropped)
    cacheLookupEligible :=
      if phase = .request then fx.cacheLookupEligible.getD t.cacheLookupEligible
      else t.cacheLookupEligible }

/-- `run_scripts` for one script: the transaction, the outcome, and `clear_soft_retry`. A script
that fails, is unknown or belongs to the other hook changes nothing. -/
def runScripts (scripting : CompiledScripting) (id : Nat) (phase : RuleHook) (world : Nat)
    (t : Transaction) : Transaction × ScriptRunOutcome × Bool :=
  match scripting[id]? with
  | none => (t, .ok, false)
  | some script =>
    if script.hook = phase then
      match script.run world t with
      | none => (t, .ok, false)
      | some fx =>
        let t' := applyEffects phase t fx
        if fx.hardDrop then (t', .dropNow, false)
        else if fx.softDrop then (t', .drop, false)
        else if fx.hardRetry then (t', .retryNow, false)
        else if fx.retryRequested && !fx.clearSoftRetry then (t', .retry, false)
        else (t', .ok, fx.clearSoftRetry)
    else (t, .ok, false)

def finalOutcome (t : Transaction) (retry : Bool) : RuleOutcome :=
  if t.softDrop then .drop else if retry then .retry else .cont

def retryOutcome (t : Transaction) : RuleOutcome :=
  if t.softDrop then .drop else .retry

/-- `apply_builtin`: the transaction and the soft retry flag after the action, or the outcome that
ends the rule. -/
def applyBuiltin (t : Transaction) (retry : Bool) : CompiledAction →
    Transaction × Bool × Option RuleOutcome
  | .setPool p => ({ t with selectedPool := some p }, retry, none)
  | .setTag k v => ({ t with tags := t.tags.setString k v }, retry, none)
  | .setRetryPool p => ({ t with retryPool := some p }, retry, none)
  | .retry => (t, true, none)
  | .retryNow => (t, retry, some (retryOutcome t))
  | .drop => ({ t with softDrop := true }, retry, none)
  | .dropNow => (t, retry, some .drop)
  | .clearDrop => ({ t with softDrop := false, dropped := false }, retry, none)
  | .clearRetry => (t, false, none)
  | .clearRetryPool => ({ t with retryPool := none }, retry, none)
  | .clearPool => ({ t with selectedPool := none }, retry, none)
  | .clearTag k => ({ t with tags := t.tags.clear k }, retry, none)
  | .setRcode rc => ({ t with rcode := some rc }, retry, none)
  | .setSourceV4 a => ({ t with sourceOverrideV4 := some a }, retry, none)
  | .setSourceV6 a => ({ t with sourceOverrideV6 := some a }, retry, none)
  | .setRetrySourceV4 a => ({ t with retrySourceOverrideV4 := some a }, retry, none)
  | .setRetrySourceV6 a => ({ t with retrySourceOverrideV6 := some a }, retry, none)
  | .clearRetrySourceV4 => ({ t with retrySourceOverrideV4 := none }, retry, none)
  | .clearRetrySourceV6 => ({ t with retrySourceOverrideV6 := none }, retry, none)
  | .rhai _ => (t, retry, none)

/-- One action of a rule of hook `hook`. -/
def applyAction (hook : RuleHook) (scripting : CompiledScripting) (world : Nat) (t : Transaction)
    (retry : Bool) : CompiledAction → Transaction × Bool × Option RuleOutcome
  | .rhai id =>
    match runScripts scripting id hook world t with
    | (t', .dropNow, _) => (t', retry, some .drop)
    | (t', .drop, _) => (t', retry, none)
    | (t', .retry, _) => (t', retry || hook == .response, none)
    | (t', .retryNow, _) =>
      (t', retry, if hook = .response then some (retryOutcome t') else none)
    | (t', .ok, clearSoftRetry) => (t', retry && !clearSoftRetry, none)
  | a => applyBuiltin t retry a

/-- `execute_ordered` from a point in the rule's action list. -/
def executeOrdered (hook : RuleHook) (scripting : CompiledScripting) (world : Nat) :
    List CompiledAction → Transaction → Bool → Transaction × RuleOutcome
  | [], t, retry => (t, finalOutcome t retry)
  | a :: as, t, retry =>
    match applyAction hook scripting world t retry a with
    | (t', _, some out) => (t', out)
    | (t', retry', none) => executeOrdered hook scripting world as t' retry'

def CompiledRule.matches (r : CompiledRule) (world : Nat) (t : Transaction) : Bool :=
  r.selectors.all (fun s => s world t)

/-- The evaluation of a hook: first match. -/
def CompiledRules.eval (rules : CompiledRules) (hook : RuleHook) (scripting : CompiledScripting)
    (world : Nat) (t : Transaction) : Transaction × RuleOutcome :=
  match rules.find? (fun r => r.hook == hook && r.matches world t) with
  | some r => executeOrdered hook scripting world r.actions t false
  | none => (t, .cont)

/-! ## What the rules leave alone -/

/-- `t'` differs from `t` only in what rules and scripts may write: the pools, the tags, the rcode,
the sources, the drop flags and, in the request phase, the cache eligibility. -/
def PolicyEq (hook : RuleHook) (t t' : Transaction) : Prop :=
  ∃ pool retryPool tags rcode s4 s6 r4 r6 softDrop dropped eligible,
    (hook = .response → eligible = t.cacheLookupEligible) ∧
    t' = { t with
      selectedPool := pool, retryPool := retryPool, tags := tags, rcode := rcode
      sourceOverrideV4 := s4, sourceOverrideV6 := s6
      retrySourceOverrideV4 := r4, retrySourceOverrideV6 := r6
      softDrop := softDrop, dropped := dropped, cacheLookupEligible := eligible }

namespace PolicyEq

variable {hook : RuleHook} {t t' t'' : Transaction}

theorem refl (t : Transaction) : PolicyEq hook t t :=
  ⟨_, _, _, _, _, _, _, _, _, _, _, fun _ => rfl, rfl⟩

theorem trans (h : PolicyEq hook t t') (h' : PolicyEq hook t' t'') : PolicyEq hook t t'' := by
  obtain ⟨_, _, _, _, _, _, _, _, _, _, _, he, rfl⟩ := h
  obtain ⟨_, _, _, _, _, _, _, _, _, _, _, he', rfl⟩ := h'
  exact ⟨_, _, _, _, _, _, _, _, _, _, _, fun hh => (he' hh).trans (he hh), rfl⟩

theorem applyEffects (fx : ScriptEffects) : PolicyEq hook t (applyEffects hook t fx) := by
  refine ⟨_, _, _, _, _, _, _, _, _, _, _, fun hh => ?_, rfl⟩
  subst hh
  rfl

theorem runScripts (scripting : CompiledScripting) (id world : Nat) :
    PolicyEq hook t (runScripts scripting id hook world t).1 := by
  unfold Conduit.runScripts
  split
  · exact refl t
  · split
    · split
      · exact refl t
      · simp only
        split_ifs <;> exact applyEffects _
    · exact refl t

theorem applyBuiltin (retry : Bool) (a : CompiledAction) :
    PolicyEq hook t (applyBuiltin t retry a).1 := by
  cases a <;> exact ⟨_, _, _, _, _, _, _, _, _, _, _, fun _ => rfl, rfl⟩

theorem applyAction (scripting : CompiledScripting) (world : Nat) (retry : Bool)
    (a : CompiledAction) : PolicyEq hook t (applyAction hook scripting world t retry a).1 := by
  cases a with
  | rhai id =>
    have h : PolicyEq hook t (Conduit.runScripts scripting id hook world t).1 :=
      runScripts scripting id world
    rcases hr : Conduit.runScripts scripting id hook world t with ⟨t', out, c⟩
    rw [hr] at h
    cases out <;> simpa only [Conduit.applyAction, hr] using h
  | _ => exact applyBuiltin retry _

theorem executeOrdered (scripting : CompiledScripting) (world : Nat) (as : List CompiledAction)
    (retry : Bool) : PolicyEq hook t (executeOrdered hook scripting world as t retry).1 := by
  induction as generalizing t retry with
  | nil => exact refl t
  | cons a as ih =>
    have h : PolicyEq hook t (Conduit.applyAction hook scripting world t retry a).1 :=
      applyAction scripting world retry a
    unfold Conduit.executeOrdered
    split
    · simp_all
    · rename_i heq
      rw [heq] at h
      exact h.trans (ih _)

/-- The evaluation of a hook changes only what policy may write. -/
theorem eval (rules : CompiledRules) (scripting : CompiledScripting) (world : Nat)
    (t : Transaction) : PolicyEq hook t (rules.eval hook scripting world t).1 := by
  unfold CompiledRules.eval
  split
  · exact executeOrdered scripting world _ false
  · exact refl t

end PolicyEq

end Conduit
