import Conduit.Core.Script
import Conduit.Metrics.User

/-!
# Runs of scripts

`run_one` (`conduit-script/src/runtime.rs`) runs a script on a record of its own. The calls of the
script's `txn` and `metrics` objects go into the record, and `txn.has_tag` reads it over the tags
that the transaction had at the start. Only a script that completes hands the record on:
`run_scripts` then applies it to the transaction and exports its metric deltas.

What the engine does with a script (its calls, and whether and why it fails) is a parameter.

- `ScriptTrace`, `runOne`: a run of a script, with its record.
- `executeMetered`: `execute_ordered` with the metric deltas; `executeMetered_eq`.
- `failing_script_removed`: a script that fails might as well not be there.
- `ScriptEffects.hasTag`, `hasTag_iff`: what a script reads of its own tags.
-/

namespace Conduit

/-! ## The record of a run -/

/-- A call that goes into the record. -/
inductive ScriptCall where
  | txn (call : TxnCall)
  /-- `metrics.inc`, `metrics.inc_labels` with labels that are registered. -/
  | metric (delta : UserMetricDelta)

structure ScriptRecord where
  effects : ScriptEffects := {}
  userMetricFlushes : List UserMetricDelta := []

def ScriptRecord.call (phase : RuleHook) (record : ScriptRecord) : ScriptCall → ScriptRecord
  | .txn call => { record with effects := record.effects.call phase call }
  | .metric delta => { record with userMetricFlushes := record.userMetricFlushes ++ [delta] }

/-- Why a script fails. -/
inductive ScriptFailure where
  | thrown
  | operationLimit
  | callDepth
  | timeout
  /-- A call that the host refuses: a phase guard, an unknown metric. -/
  | refusedCall
  deriving DecidableEq, Repr

/-- What the engine does with a script: the calls, and the failure that ends them. -/
structure ScriptTrace where
  calls : List ScriptCall
  failure : Option ScriptFailure := none

structure RhaiProgram where
  hook : RuleHook
  run : (world : Nat) → Transaction → ScriptTrace

def runOne (phase : RuleHook) (trace : ScriptTrace) : Except ScriptFailure ScriptRecord :=
  let record := trace.calls.foldl (ScriptRecord.call phase) {}
  match trace.failure with
  | some failure => .error failure
  | none => .ok record

def RhaiProgram.compiled (p : RhaiProgram) : CompiledScript where
  hook := p.hook
  run world t := (runOne p.hook (p.run world t)).toOption.map (·.effects)

/-- The user metrics that are exported: there is a registry, and the metric is collected. -/
structure UserExport where
  present : Bool
  shouldCollect : String → Bool

def UserExport.deltas (e : UserExport) (flushes : List UserMetricDelta) : List UserMetricDelta :=
  if e.present then flushes.filter (e.shouldCollect ·.name) else []

/-! ## Rules with metric deltas -/

section

variable (hook : RuleHook) (programs : List RhaiProgram) (userExport : UserExport) (world : Nat)

abbrev compiledPrograms : CompiledScripting := programs.map RhaiProgram.compiled

/-- The deltas that `run_scripts` exports for an action. -/
def actionDeltas (t : Transaction) : CompiledAction → List UserMetricDelta
  | .rhai id =>
    match programs[id]? with
    | none => []
    | some p =>
      if p.hook = hook then
        match runOne hook (p.run world t) with
        | .ok record => userExport.deltas record.userMetricFlushes
        | .error _ => []
      else []
  | _ => []

/-- `execute_ordered` with the exported deltas. -/
def executeMetered : List CompiledAction → Transaction → Bool →
    Transaction × RuleOutcome × List UserMetricDelta
  | [], t, retry => (t, finalOutcome t retry, [])
  | a :: as, t, retry =>
    let deltas := actionDeltas hook programs userExport world t a
    match applyAction hook (compiledPrograms programs) world t retry a with
    | (t', _, some out) => (t', out, deltas)
    | (t', retry', none) =>
      let rest := executeMetered as t' retry'
      (rest.1, rest.2.1, deltas ++ rest.2.2)

/-- The transaction when the actions have run; `none`: one of them ends the rule. -/
def reached : List CompiledAction → Transaction → Bool → Option Transaction
  | [], t, _ => some t
  | a :: as, t, retry =>
    match applyAction hook (compiledPrograms programs) world t retry a with
    | (_, _, some _) => none
    | (t', retry', none) => reached as t' retry'

end

variable {hook : RuleHook} {programs : List RhaiProgram} {userExport : UserExport} {world id : Nat}
  {t : Transaction} {retry : Bool}

/-- The transaction and the outcome are those of the rule. -/
theorem executeMetered_eq (actions : List CompiledAction) :
    ((executeMetered hook programs userExport world actions t retry).1,
      (executeMetered hook programs userExport world actions t retry).2.1) =
      executeOrdered hook (compiledPrograms programs) world actions t retry := by
  induction actions generalizing t retry with
  | nil => rfl
  | cons a actions ih =>
    rw [executeMetered, executeOrdered]
    rcases applyAction hook (compiledPrograms programs) world t retry a with ⟨t', retry', _ | out⟩
    · exact ih
    · rfl

/-! ## Failures -/

/-- If the script runs here, it fails. -/
def FailsAt (hook : RuleHook) (programs : List RhaiProgram) (world id : Nat) (t : Transaction) :
    Prop :=
  ∀ p, programs[id]? = some p → p.hook = hook → (p.run world t).failure ≠ none

theorem runOne_failure (phase : RuleHook) {trace : ScriptTrace} (h : trace.failure ≠ none) :
    ∃ failure, runOne phase trace = .error failure := by
  obtain ⟨failure, hf⟩ := Option.ne_none_iff_exists'.mp h
  exact ⟨failure, by rw [runOne, hf]⟩

/-- **A script that fails leaves the transaction and the retry flag.** -/
theorem applyAction_fails (h : FailsAt hook programs world id t) :
    applyAction hook (compiledPrograms programs) world t retry (.rhai id) = (t, retry, none) := by
  have hrun : runScripts (compiledPrograms programs) id hook world t = (t, .ok, false) := by
    rw [runScripts, List.getElem?_map]
    cases hp : programs[id]? with
    | none => rfl
    | some p =>
      simp only [Option.map_some]
      split
      next hhook =>
        obtain ⟨failure, hf⟩ := runOne_failure p.hook (h p hp hhook)
        simp [RhaiProgram.compiled, hf, Except.toOption]
      next => rfl
  simp [applyAction, hrun]

/-- It exports nothing. -/
theorem actionDeltas_fails (h : FailsAt hook programs world id t) :
    actionDeltas hook programs userExport world t (.rhai id) = [] := by
  simp only [actionDeltas]
  cases hp : programs[id]? with
  | none => rfl
  | some p =>
    simp only
    split
    next hhook =>
      obtain ⟨failure, hf⟩ := runOne_failure hook (h p hp hhook)
      rw [hf]
    next => rfl

/-- **A script that fails might as well not be there:** the transaction, the outcome of the rule and
the metric deltas are those of the other actions. -/
theorem failing_script_removed (userExport : UserExport) (before after : List CompiledAction)
    (h : ∀ t', reached hook programs world before t retry = some t' →
      FailsAt hook programs world id t') :
    executeMetered hook programs userExport world (before ++ .rhai id :: after) t retry =
      executeMetered hook programs userExport world (before ++ after) t retry := by
  -- the actions before the script run alike
  induction before generalizing t retry with
  | nil =>
    have hfails := h t rfl
    rw [List.nil_append, List.nil_append, executeMetered, applyAction_fails hfails,
      actionDeltas_fails hfails]
    rfl
  | cons a before ih =>
    rw [List.cons_append, List.cons_append, executeMetered, executeMetered]
    rcases ha : applyAction hook (compiledPrograms programs) world t retry a with
      ⟨t', retry', _ | out⟩
    · simp only
      rw [ih fun t'' ht'' => h t'' (by rw [reached, ha]; exact ht'')]
    · rfl

/-- A script that asks for a drop and counts, and then runs into the operation limit. -/
def sampleFailing : RhaiProgram where
  hook := .response
  run _ _ :=
    { calls := [.txn .dropQuery, .metric { name := "hits", delta := 1 }]
      failure := some .operationLimit }

theorem failing_script_removed_sample :
    executeMetered .response [sampleFailing] ⟨true, fun _ => true⟩ 0
        ([.setPool "a"] ++ .rhai 0 :: [.retry]) {} false =
      executeMetered .response [sampleFailing] ⟨true, fun _ => true⟩ 0
        ([.setPool "a"] ++ [.retry]) {} false :=
  failing_script_removed ⟨true, fun _ => true⟩ [.setPool "a"] [.retry] fun _ _ p hp _ => by
    cases hp
    exact nofun

/-! ## Reading tags -/

def TagSet.has (tags : TagSet) (key : String) : Bool :=
  (tags.flags key).getD false || (tags.strings key).isSome

/-- `has_tag` of a script; the snapshot is of the start of the script. -/
def ScriptEffects.hasTag (fx : ScriptEffects) (snapshot : TagSet) (key : String) : Bool :=
  match fx.tagOps.lookup key with
  | some .clear => false
  | some (.bool v) => v
  | some (.string _) => true
  | none => (snapshot.flags key).getD false || (snapshot.strings key).isSome

namespace ScriptEffects

theorem lookup_insertTag (fx : ScriptEffects) (k key : String) (op : TagOp) :
    (fx.insertTag k op).tagOps.lookup key =
      if k = key then some op else fx.tagOps.lookup key := by
  have hrest : (fx.tagOps.filter (·.1 ≠ k)).lookup key =
      if k = key then none else fx.tagOps.lookup key := by
    induction fx.tagOps with
    | nil => simp
    | cons p ops ih => grind
  rw [insertTag, List.lookup_append, hrest]
  split
  next h => simp [h]
  next h => simp [List.lookup_cons, show (key == k) = false by simpa using Ne.symm h]

/-- The record has the last operation on a key. -/
theorem lookup_ofCalls (calls : List TxnCall) (key : String) :
    (ofCalls hook calls).tagOps.lookup key = Writes.last (TxnCall.tagOp key) calls := by
  have h := ofCalls_eq hook calls (·.tagOps.lookup key) (fun c => (TxnCall.tagOp key c).map some)
    fun fx c _ => by
      cases c with
      | setTagBool k v | setTagString k v | clearTag k =>
        simp only [call, lookup_insertTag, TxnCall.tagOp]
        split <;> rfl
      | _ => cases hook <;> rfl
  rw [h, Writes.last_map]
  cases Writes.last (TxnCall.tagOp key) calls <;> rfl

end ScriptEffects

/-- **What a script reads of its tags is what it leaves,** unless the last thing it does to a key that
has a string tag is to set it to false. -/
theorem hasTag_iff (phase : RuleHook) (t : Transaction) (calls : List TxnCall) :
    (∀ key, (ScriptEffects.ofCalls phase calls).hasTag t.tags key =
      (applyEffects phase t (ScriptEffects.ofCalls phase calls)).tags.has key) ↔
      ∀ key, Writes.last (TxnCall.tagOp key) calls = some (.bool false) →
        t.tags.strings key = none := by
  refine forall_congr' fun key => ?_
  have hflags := tag_map_applyEffects phase calls t (·.flags key) TagOp.flag key
    fun tags p => (TagOp.apply_eq tags p key).1
  have hstrings := tag_map_applyEffects phase calls t (·.strings key) TagOp.text key
    fun tags p => (TagOp.apply_eq tags p key).2
  rw [TagSet.has, hflags, hstrings, ScriptEffects.hasTag, ScriptEffects.lookup_ofCalls]
  cases Writes.last (TxnCall.tagOp key) calls with
  | none => simp
  | some op =>
    cases op with
    | bool v =>
      cases v with
      | true => simp [TagOp.flag, TagOp.text]
      | false => cases t.tags.strings key <;> simp [TagOp.flag, TagOp.text]
    | string | clear => simp [TagOp.flag, TagOp.text]

/-- A rule has set a string tag, and the script sets the key to false: for the script there is no
such tag, for all others there is. -/
theorem hasTag_false_over_string :
    (ScriptEffects.ofCalls .request [.setTagBool "k" false]).hasTag
        (TagSet.setString {} "k" "v") "k" = false ∧
      (applyEffects .request { tags := TagSet.setString {} "k" "v" }
        (ScriptEffects.ofCalls .request [.setTagBool "k" false])).tags.has "k" = true := by
  decide

end Conduit
