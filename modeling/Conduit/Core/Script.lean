import Conduit.Lib.Writes
import Conduit.Core.Rules

/-!
# Scripts and the order of their calls

A Rhai script acts on the transaction by calls of its `txn` object (`RhaiTxn`,
`conduit-script/src/runtime.rs`). A call is only noted down in an effects record; `run_scripts`
applies the record when the script has completed. For most calls a rule has a built-in action that
does the same at once (`apply_builtin`, `rules/mod.rs`).

A script is here the calls that it makes, in any way that depends on the transaction and on the
world outside. A call that raises an error has noted nothing down. `sample_percent` sets a tag.

- `TxnCall`, `ScriptEffects.call`, `ScriptEffects.ofCalls`: the calls and their record.
- `TxnCall.inOrder`, `TxnCall.allInOrder`: the built-in actions, one after the other.
- `TxnCall.KeepsOrder`: when the record says what the calls say.
- `script_order_iff`.
-/

namespace Conduit

/-- A call of a script that changes the transaction. -/
inductive TxnCall where
  | setTagBool (key : String) (value : Bool)
  | setTagString (key value : String)
  | clearTag (key : String)
  | setPool (name : String)
  | clearPool
  | setRetryPool (name : String)
  | clearRetryPool
  | requestRetry
  | requestRetryNow
  | clearRetry
  | dropQuery
  | dropQueryNow
  | clearDrop
  | setRcode (rcode : Nat)
  /-- `set_rcode` with a name that is no response code. -/
  | setUnknownRcode
  | setSourceV4 (addr : String)
  | setSourceV6 (addr : String)
  | setRetrySourceV4 (addr : String)
  | setRetrySourceV6 (addr : String)
  | clearRetrySourceV4
  | clearRetrySourceV6
  | setCacheLookupEligible (eligible : Bool)
  deriving DecidableEq

namespace ScriptEffects

/-- `tag_ops.insert`: one operation for each key. -/
def insertTag (fx : ScriptEffects) (key : String) (op : TagOp) : ScriptEffects :=
  { fx with tagOps := fx.tagOps.filter (·.1 ≠ key) ++ [(key, op)] }

/-- What a call notes down. The retry calls do nothing in the request phase; the standing sources
and the cache eligibility are for the request phase only. -/
def call (phase : RuleHook) (fx : ScriptEffects) : TxnCall → ScriptEffects
  | .setTagBool key value => fx.insertTag key (.bool value)
  | .setTagString key value => fx.insertTag key (.string value)
  | .clearTag key => fx.insertTag key .clear
  | .setPool name => { fx with pool := some name, clearPool := false }
  | .clearPool => { fx with pool := none, clearPool := true }
  | .setRetryPool name => { fx with retryPool := some name }
  | .clearRetryPool => { fx with clearRetryPool := true }
  | .requestRetry => if phase = .response then { fx with retryRequested := true } else fx
  | .requestRetryNow => if phase = .response then { fx with hardRetry := true } else fx
  | .clearRetry => if phase = .response then { fx with clearSoftRetry := true } else fx
  | .dropQuery => { fx with softDrop := true }
  | .dropQueryNow => { fx with hardDrop := true }
  | .clearDrop => { fx with clearSoftDrop := true }
  | .setRcode rcode => { fx with rcode := some rcode }
  | .setUnknownRcode => { fx with rcode := none }
  | .setSourceV4 addr => if phase = .request then { fx with sourceOverrideV4 := some addr } else fx
  | .setSourceV6 addr => if phase = .request then { fx with sourceOverrideV6 := some addr } else fx
  | .setRetrySourceV4 addr => { fx with retrySourceOverrideV4 := some addr }
  | .setRetrySourceV6 addr => { fx with retrySourceOverrideV6 := some addr }
  | .clearRetrySourceV4 => { fx with clearRetrySourceV4 := true }
  | .clearRetrySourceV6 => { fx with clearRetrySourceV6 := true }
  | .setCacheLookupEligible eligible =>
    if phase = .request then { fx with cacheLookupEligible := some eligible } else fx

def ofCalls (phase : RuleHook) (calls : List TxnCall) : ScriptEffects := calls.foldl (call phase) {}

end ScriptEffects

/-- A script: its hook, and the calls of a run (`none`: the script fails). -/
structure RhaiScript where
  hook : RuleHook
  calls : (world : Nat) → Transaction → Option (List TxnCall)

def RhaiScript.compiled (s : RhaiScript) : CompiledScript where
  hook := s.hook
  run world t := (s.calls world t).map (ScriptEffects.ofCalls s.hook)

/-! ## The calls as built-in actions -/

namespace TxnCall

/-- The built-in action of a call. A flag tag can only be set by a script; a call that does nothing
in the phase has no action. -/
def action (hook : RuleHook) : TxnCall → Option CompiledAction
  | .setTagString key value => some (.setTag key value)
  | .clearTag key => some (.clearTag key)
  | .setPool name => some (.setPool name)
  | .clearPool => some .clearPool
  | .setRetryPool name => some (.setRetryPool name)
  | .clearRetryPool => some .clearRetryPool
  | .requestRetry => if hook = .response then some .retry else none
  | .requestRetryNow => if hook = .response then some .retryNow else none
  | .clearRetry => if hook = .response then some .clearRetry else none
  | .dropQuery => some .drop
  | .dropQueryNow => some .dropNow
  | .clearDrop => some .clearDrop
  | .setRcode rcode => some (.setRcode rcode)
  | .setSourceV4 addr => if hook = .request then some (.setSourceV4 addr) else none
  | .setSourceV6 addr => if hook = .request then some (.setSourceV6 addr) else none
  | .setRetrySourceV4 addr => some (.setRetrySourceV4 addr)
  | .setRetrySourceV6 addr => some (.setRetrySourceV6 addr)
  | .clearRetrySourceV4 => some .clearRetrySourceV4
  | .clearRetrySourceV6 => some .clearRetrySourceV6
  | .setTagBool _ _ | .setUnknownRcode | .setCacheLookupEligible _ => none

/-- The soft calls: they set or clear an intent or a value, and the script and its rule go on. -/
def soft : TxnCall → Bool
  | .requestRetryNow | .dropQueryNow | .setUnknownRcode | .setCacheLookupEligible _ => false
  | _ => true

/-- The transaction and the soft retry flag of the rule after a call that is done at once. -/
def inOrder (hook : RuleHook) (x : Transaction × Bool) (c : TxnCall) : Transaction × Bool :=
  match c.action hook with
  | some a => ((applyBuiltin x.1 x.2 a).1, (applyBuiltin x.1 x.2 a).2.1)
  | none =>
    match c with
    | .setTagBool key value => ({ x.1 with tags := x.1.tags.setBool key value }, x.2)
    | _ => x

def allInOrder (hook : RuleHook) (calls : List TxnCall) (x : Transaction × Bool) :
    Transaction × Bool := calls.foldl (inOrder hook) x

/-! ## What a call writes -/

def tagOp (key : String) : TxnCall → Option TagOp
  | .setTagBool k value => if k = key then some (.bool value) else none
  | .setTagString k value => if k = key then some (.string value) else none
  | .clearTag k => if k = key then some .clear else none
  | _ => none

def pool : TxnCall → Option (Option String)
  | .setPool name => some (some name)
  | .clearPool => some none
  | _ => none

def retryPool : TxnCall → Option (Option String)
  | .setRetryPool name => some (some name)
  | .clearRetryPool => some none
  | _ => none

def retrySourceV4 : TxnCall → Option (Option String)
  | .setRetrySourceV4 addr => some (some addr)
  | .clearRetrySourceV4 => some none
  | _ => none

def retrySourceV6 : TxnCall → Option (Option String)
  | .setRetrySourceV6 addr => some (some addr)
  | .clearRetrySourceV6 => some none
  | _ => none

/-- The soft drop flag. -/
def drop : TxnCall → Option Bool
  | .dropQuery => some true
  | .clearDrop => some false
  | _ => none

/-- The soft retry flag. -/
def retry (hook : RuleHook) : TxnCall → Option Bool
  | .requestRetry => if hook = .response then some true else none
  | .clearRetry => if hook = .response then some false else none
  | _ => none

def rcode : TxnCall → Option (Option Nat)
  | .setRcode rcode => some (some rcode)
  | _ => none

def sourceV4 (hook : RuleHook) : TxnCall → Option (Option String)
  | .setSourceV4 addr => if hook = .request then some (some addr) else none
  | _ => none

def sourceV6 (hook : RuleHook) : TxnCall → Option (Option String)
  | .setSourceV6 addr => if hook = .request then some (some addr) else none
  | _ => none

end TxnCall

/-- What a tag operation writes to the flags. -/
def TagOp.flag : TagOp → Option (Option Bool)
  | .bool v => some (some v)
  | .string _ => none
  | .clear => some none

/-- What a tag operation writes to the texts. -/
def TagOp.text : TagOp → Option (Option String)
  | .bool _ => none
  | .string v => some (some v)
  | .clear => some none

/-- The record leaves the transaction that the calls lead to in their order. -/
structure TxnCall.KeepsFields (calls : List TxnCall) (t : Transaction) : Prop where
  /-- A soft drop is not cleared again. -/
  drop : .dropQuery ∈ calls → Writes.last TxnCall.drop calls = some true
  /-- What is cleared is not set again. -/
  retryPool : .clearRetryPool ∈ calls → Writes.last TxnCall.retryPool calls = some none
  retrySourceV4 : .clearRetrySourceV4 ∈ calls → Writes.last TxnCall.retrySourceV4 calls = some none
  retrySourceV6 : .clearRetrySourceV6 ∈ calls → Writes.last TxnCall.retrySourceV6 calls = some none
  /-- The last tag call on a key is a clear, or the calls before it leave the other kind of value of
  the key as it was. -/
  tags : ∀ key op, Writes.last (TxnCall.tagOp key) calls = some op →
    (op.flag = none →
      (Writes.last (fun c => (TxnCall.tagOp key c).bind TagOp.flag) calls).getD
        (t.tags.flags key) = t.tags.flags key) ∧
    (op.text = none →
      (Writes.last (fun c => (TxnCall.tagOp key c).bind TagOp.text) calls).getD
        (t.tags.strings key) = t.tags.strings key)

/-- A retry that is cleared is not requested again. -/
def TxnCall.KeepsRetry (hook : RuleHook) (calls : List TxnCall) : Prop :=
  hook = .response → .clearRetry ∈ calls → Writes.last (TxnCall.retry hook) calls = some false

/-- The record says what the calls say in their order, from a transaction and a soft retry flag. -/
structure TxnCall.KeepsOrder (hook : RuleHook) (calls : List TxnCall) (t : Transaction)
    (retry : Bool) : Prop extends KeepsFields calls t where
  /-- Next to a soft drop, the retry calls ask for what is so already. -/
  retry : if .dropQuery ∈ calls then (Writes.last (TxnCall.retry hook) calls).getD retry = retry
    else KeepsRetry hook calls

/-- As `KeepsOrder`, for a rule that ends with the script: its outcome does not show the retry flag
of a query that is dropped. -/
structure TxnCall.KeepsOutcome (hook : RuleHook) (calls : List TxnCall) (t : Transaction) : Prop
    extends KeepsFields calls t where
  retry : .dropQuery ∈ calls ∨ t.softDrop = true ∧ .clearDrop ∉ calls ∨ KeepsRetry hook calls

/-! ## What the record holds -/

namespace ScriptEffects

variable {hook : RuleHook} {calls : List TxnCall}

/-- A field of the record, or what is read of it. -/
theorem ofCalls_eq (hook : RuleHook) (calls : List TxnCall) {B : Type} (reg : ScriptEffects → B)
    (w : TxnCall → Option B)
    (h : ∀ fx, ∀ c ∈ calls, reg (fx.call hook c) = (w c).getD (reg fx)) :
    reg (ofCalls hook calls) = (Writes.last w calls).getD (reg {}) :=
  Writes.foldl_eq h {}

/-- A flag that one call raises. -/
theorem ofCalls_contains (flag : ScriptEffects → Bool) (d : TxnCall) (h0 : flag {} = false)
    (h : ∀ fx, ∀ c ∈ calls, flag (fx.call hook c) = (d == c || flag fx)) :
    flag (ofCalls hook calls) = calls.contains d := by
  have hany : flag (ofCalls hook calls) = (calls.any (d == ·) || flag {}) := Writes.foldl_any h {}
  rw [hany, h0, Bool.or_false, List.any_beq]

theorem softDrop_ofCalls : (ofCalls hook calls).softDrop = calls.contains .dropQuery :=
  ofCalls_contains (·.softDrop) .dropQuery rfl fun fx c _ => by cases c <;> cases hook <;> rfl

theorem clearSoftDrop_ofCalls : (ofCalls hook calls).clearSoftDrop = calls.contains .clearDrop :=
  ofCalls_contains (·.clearSoftDrop) .clearDrop rfl fun fx c _ => by cases c <;> cases hook <;> rfl

/-- Nothing hard is noted down by soft calls. -/
theorem hard_ofCalls (hs : ∀ c ∈ calls, c.soft) :
    (ofCalls hook calls).hardDrop = false ∧ (ofCalls hook calls).hardRetry = false ∧
      (ofCalls hook calls).cacheLookupEligible = none := by
  have hnone : Writes.last (fun _ => none : TxnCall → Option (Bool × Bool × Option Bool)) calls =
      none := Writes.last_eq_none_iff.mpr fun _ _ => rfl
  have h := ofCalls_eq hook calls
    (fun fx => (fx.hardDrop, fx.hardRetry, fx.cacheLookupEligible)) (fun _ => none)
    fun fx c hc => by
      have := hs c hc
      cases c <;> cases hook <;> first | rfl | cases this
  rw [hnone] at h
  simpa using h

/-- The request and the clear of a retry count in the response phase only. -/
theorem retry_ofCalls (hook : RuleHook) (calls : List TxnCall) :
    (ofCalls hook calls).retryRequested = (hook == .response && calls.contains .requestRetry) ∧
      (ofCalls hook calls).clearSoftRetry = (hook == .response && calls.contains .clearRetry) := by
  cases hook with
  | request =>
    have hnone : Writes.last (fun _ => none : TxnCall → Option (Bool × Bool)) calls = none :=
      Writes.last_eq_none_iff.mpr fun _ _ => rfl
    have h := ofCalls_eq .request calls
      (fun fx => (fx.retryRequested, fx.clearSoftRetry)) (fun _ => none) fun fx c _ => by
        cases c <;> rfl
    rw [hnone] at h
    exact ⟨congrArg Prod.fst h, congrArg Prod.snd h⟩
  | response =>
    exact ⟨ofCalls_contains (·.retryRequested) .requestRetry rfl fun fx c _ => by cases c <;> rfl,
      ofCalls_contains (·.clearSoftRetry) .clearRetry rfl fun fx c _ => by cases c <;> rfl⟩

/-- What the record says of a tag key: the last tag call on it. -/
theorem tagOps_ofCalls {B : Type} (key : String) (f : TagOp → Option B) :
    Writes.last (fun p => if p.1 = key then f p.2 else none) (ofCalls hook calls).tagOps =
      (Writes.last (TxnCall.tagOp key) calls).bind f := by
  have hinsert : ∀ (fx : ScriptEffects) (k : String) (op : TagOp),
      Writes.last (fun p => if p.1 = key then f p.2 else none) (fx.insertTag k op).tagOps =
        if k = key then f op
        else Writes.last (fun p => if p.1 = key then f p.2 else none) fx.tagOps := by
    intro fx k op
    rw [insertTag, Writes.last_snoc]
    by_cases hk : k = key
    · subst hk
      have hgone : Writes.last (fun p : String × TagOp => if p.1 = k then f p.2 else none)
          (fx.tagOps.filter (·.1 ≠ k)) = none := by
        refine Writes.last_eq_none_iff.mpr fun p hp => ?_
        have := (List.mem_filter.mp hp).2
        simp_all
      rw [hgone, if_pos rfl, if_pos rfl, Option.or_none]
    · simp only [if_neg hk, Option.none_or]
      refine Writes.last_filter (fun p hp => ?_) fx.tagOps
      have hpk : p.1 = k := by simpa using hp
      rw [hpk, if_neg hk]
  have h := ofCalls_eq hook calls
    (fun fx => Writes.last (fun p => if p.1 = key then f p.2 else none) fx.tagOps)
    (fun c => (TxnCall.tagOp key c).map f) fun fx c _ => by
      cases c with
      | setTagBool k v | setTagString k v | clearTag k =>
        rw [call, hinsert, TxnCall.tagOp]
        split <;> rfl
      | _ => cases hook <;> rfl
  rw [h, Writes.last_map]
  cases Writes.last (TxnCall.tagOp key) calls <;> rfl

end ScriptEffects

/-! ## What the calls do in their order -/

namespace TxnCall

variable {hook : RuleHook} {calls : List TxnCall}

theorem inOrder_policyEq (x : Transaction × Bool) (c : TxnCall) :
    PolicyEq hook x.1 (c.inOrder hook x).1 := by
  unfold inOrder
  split
  · exact PolicyEq.applyBuiltin _ _
  · split
    · exact ⟨_, _, _, _, _, _, _, _, _, _, _, fun _ => rfl, rfl⟩
    · exact PolicyEq.refl _

theorem allInOrder_policyEq (calls : List TxnCall) (x : Transaction × Bool) :
    PolicyEq hook x.1 (allInOrder hook calls x).1 := by
  induction calls generalizing x with
  | nil => exact PolicyEq.refl _
  | cons c calls ih => exact (inOrder_policyEq x c).trans (ih _)

/-- A field of the transaction, or the retry flag. -/
theorem allInOrder_eq (hook : RuleHook) (calls : List TxnCall) {B : Type}
    (reg : Transaction × Bool → B) (w : TxnCall → Option B)
    (h : ∀ x, ∀ c ∈ calls, reg (c.inOrder hook x) = (w c).getD (reg x)) (x : Transaction × Bool) :
    reg (allInOrder hook calls x) = (Writes.last w calls).getD (reg x) :=
  Writes.foldl_eq h x

end TxnCall

/-- Two transactions that rules have left the rest of alone. -/
theorem PolicyEq.eq_iff {hook : RuleHook} {t t₁ t₂ : Transaction} (h₁ : PolicyEq hook t t₁)
    (h₂ : PolicyEq hook t t₂) (heligible : t₁.cacheLookupEligible = t₂.cacheLookupEligible) :
    t₁ = t₂ ↔ t₁.selectedPool = t₂.selectedPool ∧ t₁.retryPool = t₂.retryPool ∧
      t₁.tags = t₂.tags ∧ t₁.rcode = t₂.rcode ∧ t₁.sourceOverrideV4 = t₂.sourceOverrideV4 ∧
      t₁.sourceOverrideV6 = t₂.sourceOverrideV6 ∧
      t₁.retrySourceOverrideV4 = t₂.retrySourceOverrideV4 ∧
      t₁.retrySourceOverrideV6 = t₂.retrySourceOverrideV6 ∧ t₁.softDrop = t₂.softDrop ∧
      t₁.dropped = t₂.dropped := by
  constructor
  · rintro rfl
    exact ⟨rfl, rfl, rfl, rfl, rfl, rfl, rfl, rfl, rfl, rfl⟩
  · obtain ⟨_, _, _, _, _, _, _, _, _, _, _, -, rfl⟩ := h₁
    obtain ⟨_, _, _, _, _, _, _, _, _, _, _, -, rfl⟩ := h₂
    simp only at heligible ⊢
    rintro ⟨rfl, rfl, rfl, rfl, rfl, rfl, rfl, rfl, rfl, rfl⟩
    rw [heligible]

/-! ## The record against the order -/

section Compare

open TxnCall ScriptEffects

variable {hook : RuleHook} {calls : List TxnCall} (t : Transaction) (retry : Bool)

/-- A field that the last call decides in both. -/
theorem last_call_decides {B : Type} (reg : ScriptEffects → B) (field : Transaction → B)
    (w : TxnCall → Option B) (h0 : reg {} = field t)
    (h₁ : ∀ fx, ∀ c ∈ calls, reg (fx.call hook c) = (w c).getD (reg fx))
    (h₂ : ∀ x, ∀ c ∈ calls, field (c.inOrder hook x).1 = (w c).getD (field x.1)) :
    reg (ofCalls hook calls) = field (allInOrder hook calls (t, retry)).1 := by
  rw [ofCalls_eq hook calls reg w h₁, h0]
  exact (allInOrder_eq hook calls (fun x => field x.1) w h₂ (t, retry)).symm

theorem pool_in_order :
    (applyEffects hook t (ofCalls hook calls)).selectedPool =
      (allInOrder hook calls (t, retry)).1.selectedPool :=
  last_call_decides t retry (fun fx => if fx.clearPool then none else fx.pool.or t.selectedPool)
    (·.selectedPool) TxnCall.pool rfl (fun fx c _ => by cases c <;> cases hook <;> rfl)
    fun x c _ => by cases c <;> cases hook <;> rfl

theorem rcode_in_order (hs : ∀ c ∈ calls, c.soft) :
    (applyEffects hook t (ofCalls hook calls)).rcode =
      (allInOrder hook calls (t, retry)).1.rcode :=
  last_call_decides t retry (fun fx => fx.rcode.or t.rcode) (·.rcode) TxnCall.rcode rfl
    (fun fx c hc => by
      have := hs c hc
      cases c <;> cases hook <;> first | rfl | cases this)
    fun x c _ => by cases c <;> cases hook <;> rfl

theorem sources_in_order :
    (applyEffects hook t (ofCalls hook calls)).sourceOverrideV4 =
        (allInOrder hook calls (t, retry)).1.sourceOverrideV4 ∧
      (applyEffects hook t (ofCalls hook calls)).sourceOverrideV6 =
        (allInOrder hook calls (t, retry)).1.sourceOverrideV6 :=
  ⟨last_call_decides t retry (fun fx => fx.sourceOverrideV4.or t.sourceOverrideV4)
      (·.sourceOverrideV4) (sourceV4 hook) rfl (fun fx c _ => by cases c <;> cases hook <;> rfl)
      fun x c _ => by cases c <;> cases hook <;> rfl,
    last_call_decides t retry (fun fx => fx.sourceOverrideV6.or t.sourceOverrideV6)
      (·.sourceOverrideV6) (sourceV6 hook) rfl (fun fx c _ => by cases c <;> cases hook <;> rfl)
      fun x c _ => by cases c <;> cases hook <;> rfl⟩

theorem dropped_in_order (hs : ∀ c ∈ calls, c.soft) :
    (applyEffects hook t (ofCalls hook calls)).dropped =
      (allInOrder hook calls (t, retry)).1.dropped := by
  have h : (!(ofCalls hook calls).clearSoftDrop && t.dropped) =
      (allInOrder hook calls (t, retry)).1.dropped :=
    last_call_decides t retry (fun fx => !fx.clearSoftDrop && t.dropped) (·.dropped)
      (fun c => if c = .clearDrop then some false else none) rfl
      (fun fx c _ => by cases c <;> cases hook <;> rfl)
      fun x c _ => by cases c <;> cases hook <;> rfl
  rw [← h, applyEffects, (hard_ofCalls hs).1]
  rfl

/-- A field that can be set and cleared: after a clear, a set is lost. -/
theorem collapse_in_order {V : Type} (w : TxnCall → Option (Option V)) (clear : TxnCall)
    (set : ScriptEffects → Option V) (cleared : ScriptEffects → Bool)
    (field : Transaction → Option V)
    (hclear : ∀ c, w c = some none ↔ c = clear) (h0 : set {} = none ∧ cleared {} = false)
    (hset : ∀ fx, ∀ c ∈ calls, set (fx.call hook c) = (Writes.sets w c).getD (set fx))
    (hcleared : ∀ fx, ∀ c ∈ calls, cleared (fx.call hook c) = (Writes.clears w c).getD (cleared fx))
    (hfield : ∀ x, ∀ c ∈ calls, field (c.inOrder hook x).1 = (w c).getD (field x.1)) :
    (if cleared (ofCalls hook calls) then none else (set (ofCalls hook calls)).or (field t)) =
        field (allInOrder hook calls (t, retry)).1 ↔
      (clear ∈ calls → Writes.last w calls = some none) := by
  rw [ofCalls_eq hook calls set _ hset, ofCalls_eq hook calls cleared _ hcleared, h0.1, h0.2,
    allInOrder_eq hook calls (fun x => field x.1) w hfield (t, retry), Writes.collapse_iff]
  simp only [hclear, exists_eq_right]

theorem retryPool_in_order_iff :
    (applyEffects hook t (ofCalls hook calls)).retryPool =
        (allInOrder hook calls (t, retry)).1.retryPool ↔
      (.clearRetryPool ∈ calls → Writes.last TxnCall.retryPool calls = some none) :=
  collapse_in_order t retry TxnCall.retryPool .clearRetryPool (·.retryPool) (·.clearRetryPool)
    (·.retryPool) (fun c => by cases c <;> simp [TxnCall.retryPool]) ⟨rfl, rfl⟩
    (fun fx c _ => by cases c <;> cases hook <;> rfl)
    (fun fx c _ => by cases c <;> cases hook <;> rfl) fun x c _ => by cases c <;> cases hook <;> rfl

theorem retrySourceV4_in_order_iff :
    (applyEffects hook t (ofCalls hook calls)).retrySourceOverrideV4 =
        (allInOrder hook calls (t, retry)).1.retrySourceOverrideV4 ↔
      (.clearRetrySourceV4 ∈ calls → Writes.last TxnCall.retrySourceV4 calls = some none) :=
  collapse_in_order t retry TxnCall.retrySourceV4 .clearRetrySourceV4 (·.retrySourceOverrideV4)
    (·.clearRetrySourceV4) (·.retrySourceOverrideV4)
    (fun c => by cases c <;> simp [TxnCall.retrySourceV4]) ⟨rfl, rfl⟩
    (fun fx c _ => by cases c <;> cases hook <;> rfl)
    (fun fx c _ => by cases c <;> cases hook <;> rfl) fun x c _ => by cases c <;> cases hook <;> rfl

theorem retrySourceV6_in_order_iff :
    (applyEffects hook t (ofCalls hook calls)).retrySourceOverrideV6 =
        (allInOrder hook calls (t, retry)).1.retrySourceOverrideV6 ↔
      (.clearRetrySourceV6 ∈ calls → Writes.last TxnCall.retrySourceV6 calls = some none) :=
  collapse_in_order t retry TxnCall.retrySourceV6 .clearRetrySourceV6 (·.retrySourceOverrideV6)
    (·.clearRetrySourceV6) (·.retrySourceOverrideV6)
    (fun c => by cases c <;> simp [TxnCall.retrySourceV6]) ⟨rfl, rfl⟩
    (fun fx c _ => by cases c <;> cases hook <;> rfl)
    (fun fx c _ => by cases c <;> cases hook <;> rfl) fun x c _ => by cases c <;> cases hook <;> rfl

/-- A flag that one call raises and another lowers. -/
theorem flag_last {w : TxnCall → Option Bool} {raise lower : TxnCall}
    (hraise : ∀ c, w c = some true ↔ c = raise) (hlower : ∀ c, w c = some false ↔ c = lower) :
    Writes.last w calls = none ∧ raise ∉ calls ∧ lower ∉ calls ∨
      Writes.last w calls = some true ∧ raise ∈ calls ∨
      Writes.last w calls = some false ∧ lower ∈ calls := by
  cases hl : Writes.last w calls with
  | none =>
    have hnone := Writes.last_eq_none_iff.mp hl
    refine .inl ⟨rfl, fun hm => ?_, fun hm => ?_⟩
    · simpa [(hraise raise).mpr rfl] using hnone _ hm
    · simpa [(hlower lower).mpr rfl] using hnone _ hm
  | some b =>
    obtain ⟨c, hc, hw⟩ := Writes.last_mem hl
    cases b with
    | true => exact .inr (.inl ⟨rfl, (hraise c).mp hw ▸ hc⟩)
    | false => exact .inr (.inr ⟨rfl, (hlower c).mp hw ▸ hc⟩)

theorem drop_last (calls : List TxnCall) :
    Writes.last TxnCall.drop calls = none ∧ .dropQuery ∉ calls ∧ .clearDrop ∉ calls ∨
      Writes.last TxnCall.drop calls = some true ∧ .dropQuery ∈ calls ∨
      Writes.last TxnCall.drop calls = some false ∧ .clearDrop ∈ calls :=
  flag_last (fun c => by cases c <;> simp [TxnCall.drop]) fun c => by
    cases c <;> simp [TxnCall.drop]

theorem retry_last (calls : List TxnCall) :
    Writes.last (TxnCall.retry .response) calls = none ∧ .requestRetry ∉ calls ∧
        .clearRetry ∉ calls ∨
      Writes.last (TxnCall.retry .response) calls = some true ∧ .requestRetry ∈ calls ∨
      Writes.last (TxnCall.retry .response) calls = some false ∧ .clearRetry ∈ calls :=
  flag_last (fun c => by cases c <;> simp [TxnCall.retry]) fun c => by
    cases c <;> simp [TxnCall.retry]

/-- A soft drop in the record stands: a clear after it is lost. -/
theorem softDrop_in_order_iff :
    (applyEffects hook t (ofCalls hook calls)).softDrop =
        (allInOrder hook calls (t, retry)).1.softDrop ↔
      (.dropQuery ∈ calls → Writes.last TxnCall.drop calls = some true) := by
  have hfield := allInOrder_eq hook calls (·.1.softDrop) TxnCall.drop
    (fun x c _ => by cases c <;> cases hook <;> rfl) (t, retry)
  simp only at hfield
  rw [hfield, applyEffects, softDrop_ofCalls, clearSoftDrop_ofCalls]
  by_cases hdrop : TxnCall.dropQuery ∈ calls
  · rcases drop_last calls with ⟨-, hno, -⟩ | ⟨hl, -⟩ | ⟨hl, -⟩
    · exact absurd hdrop hno
    · simp [hdrop, hl]
    · simp [hdrop, hl]
  · rcases drop_last calls with ⟨hl, -, hclear⟩ | ⟨-, hyes⟩ | ⟨hl, hclear⟩
    · simp [hdrop, hl, hclear]
    · exact absurd hyes hdrop
    · simp [hdrop, hl, hclear]

/-- The soft retry flag of the rule after a script that left this record. -/
def retryAfter (hook : RuleHook) (fx : ScriptEffects) (retry : Bool) : Bool :=
  if fx.softDrop then retry
  else if fx.retryRequested && !fx.clearSoftRetry then retry || hook == .response
  else retry && !fx.clearSoftRetry

theorem retry_in_order_iff :
    retryAfter hook (ofCalls hook calls) retry = (allInOrder hook calls (t, retry)).2 ↔
      if .dropQuery ∈ calls then (Writes.last (TxnCall.retry hook) calls).getD retry = retry
      else KeepsRetry hook calls := by
  unfold KeepsRetry
  obtain ⟨hrequested, hclear⟩ := retry_ofCalls hook calls
  have hfield := allInOrder_eq hook calls (·.2) (TxnCall.retry hook)
    (fun x c _ => by cases c <;> cases hook <;> rfl) (t, retry)
  simp only at hfield
  rw [hfield, retryAfter, softDrop_ofCalls, hrequested, hclear]
  by_cases hdrop : TxnCall.dropQuery ∈ calls
  · simp only [hdrop, List.contains_eq_mem, decide_true, if_true]
    exact eq_comm
  cases hook with
  | request =>
    have hnone : Writes.last (TxnCall.retry .request) calls = none :=
      Writes.last_eq_none_iff.mpr fun c _ => by cases c <;> rfl
    simp [hdrop, hnone]
  | response =>
    rcases retry_last calls with ⟨hl, hno, hno'⟩ | ⟨hl, hyes⟩ | ⟨hl, hyes⟩
    · simp [hdrop, hl, hno, hno']
    · by_cases hcl : TxnCall.clearRetry ∈ calls <;> simp [hdrop, hl, hyes, hcl]
    · simp [hdrop, hl, hyes]

/-- One of the two maps of the tags, at a key. -/
theorem tag_in_order_iff {B : Type} (key : String) (f : TagOp → Option (Option B))
    (init : Option B) :
    ((Writes.last (tagOp key) calls).bind f).getD init =
        (Writes.last (fun c => (tagOp key c).bind f) calls).getD init ↔
      ∀ op, Writes.last (tagOp key) calls = some op → f op = none →
        (Writes.last (fun c => (tagOp key c).bind f) calls).getD init = init := by
  cases hl : Writes.last (tagOp key) calls with
  | none =>
    have hnone : Writes.last (fun c => (tagOp key c).bind f) calls = none :=
      Writes.last_eq_none_iff.mpr fun c hc => by rw [Writes.last_eq_none_iff.mp hl c hc]; rfl
    simp [hnone]
  | some op =>
    cases hf : f op with
    | some v => simp [Writes.last_bind hl hf, hf]
    | none => simp [hf, eq_comm]

theorem TagOp.apply_eq (tags : TagSet) (p : String × TagOp) (key : String) :
    (TagOp.apply tags p).flags key =
        (if p.1 = key then p.2.flag else none).getD (tags.flags key) ∧
      (TagOp.apply tags p).strings key =
        (if p.1 = key then p.2.text else none).getD (tags.strings key) := by
  obtain ⟨k, op⟩ := p
  by_cases hk : k = key
  · subst hk
    cases op <;> simp [TagOp.apply, TagSet.setBool, TagSet.setString, TagSet.clear, TagOp.flag,
      TagOp.text]
  · cases op <;> simp [TagOp.apply, TagSet.setBool, TagSet.setString, TagSet.clear, hk,
      Function.update_of_ne (Ne.symm hk)]

section

variable {B : Type} (read : TagSet → Option B) (f : TagOp → Option (Option B)) (key : String)
  (h : ∀ tags p, read (TagOp.apply tags p) = (if p.1 = key then f p.2 else none).getD (read tags))

include h

/-- A tag call in its place does to the tags what its operation does. -/
theorem inOrder_tag (x : Transaction × Bool) (c : TxnCall) :
    read (c.inOrder hook x).1.tags = ((tagOp key c).bind f).getD (read x.1.tags) := by
  cases c with
  | setTagBool k v =>
    refine (h x.1.tags (k, .bool v)).trans ?_
    simp only [tagOp]
    split <;> rfl
  | setTagString k v =>
    refine (h x.1.tags (k, .string v)).trans ?_
    simp only [tagOp]
    split <;> rfl
  | clearTag k =>
    refine (h x.1.tags (k, .clear)).trans ?_
    simp only [tagOp]
    split <;> rfl
  | _ => cases hook <;> rfl

variable (hook calls) in
/-- One of the two maps at a key, after the record is applied. -/
theorem tag_map_applyEffects :
    read (applyEffects hook t (ofCalls hook calls)).tags =
      ((Writes.last (tagOp key) calls).bind f).getD (read t.tags) := by
  rw [← tagOps_ofCalls]
  exact Writes.foldl_eq (fun tags p _ => h tags p) t.tags

variable (hook calls) in
/-- One of the two maps, in the record and in the order. -/
theorem tag_map_in_order_iff :
    read (applyEffects hook t (ofCalls hook calls)).tags =
        read (allInOrder hook calls (t, retry)).1.tags ↔
      ∀ op, Writes.last (tagOp key) calls = some op → f op = none →
        (Writes.last (fun c => (tagOp key c).bind f) calls).getD (read t.tags) = read t.tags := by
  have hcode := tag_map_applyEffects hook calls t read f key h
  have horder := allInOrder_eq hook calls (fun x => read x.1.tags) _
    (fun x c _ => inOrder_tag read f key h x c) (t, retry)
  rw [hcode, horder]
  exact tag_in_order_iff key f _

end

theorem tags_in_order_iff :
    (applyEffects hook t (ofCalls hook calls)).tags = (allInOrder hook calls (t, retry)).1.tags ↔
      ∀ key op, Writes.last (tagOp key) calls = some op →
        (op.flag = none →
          (Writes.last (fun c => (tagOp key c).bind TagOp.flag) calls).getD (t.tags.flags key) =
            t.tags.flags key) ∧
        (op.text = none →
          (Writes.last (fun c => (tagOp key c).bind TagOp.text) calls).getD (t.tags.strings key) =
            t.tags.strings key) := by
  have hflags := fun key => tag_map_in_order_iff hook calls t retry (·.flags key) TagOp.flag key
    fun tags p => (TagOp.apply_eq tags p key).1
  have hstrings := fun key => tag_map_in_order_iff hook calls t retry (·.strings key) TagOp.text key
    fun tags p => (TagOp.apply_eq tags p key).2
  constructor
  · intro heq key op hop
    exact ⟨(hflags key).mp (by rw [heq]) op hop, (hstrings key).mp (by rw [heq]) op hop⟩
  · intro h
    have h₁ := funext fun key => (hflags key).mpr fun op hop => (h key op hop).1
    have h₂ := funext fun key => (hstrings key).mpr fun op hop => (h key op hop).2
    rw [TagSet.mk.injEq]
    exact ⟨h₁, h₂⟩

/-! ## The rule -/

theorem fields_eq_iff (hs : ∀ c ∈ calls, c.soft) :
    applyEffects hook t (ofCalls hook calls) = (allInOrder hook calls (t, retry)).1 ↔
      KeepsFields calls t := by
  have hpolicy : PolicyEq hook t (allInOrder hook calls (t, retry)).1 :=
    allInOrder_policyEq calls (t, retry)
  have heligible : (applyEffects hook t (ofCalls hook calls)).cacheLookupEligible =
      (allInOrder hook calls (t, retry)).1.cacheLookupEligible := by
    have hnone : Writes.last (fun _ => none : TxnCall → Option Bool) calls = none :=
      Writes.last_eq_none_iff.mpr fun _ _ => rfl
    have horder := allInOrder_eq hook calls (·.1.cacheLookupEligible) (fun _ => none)
      (fun x c _ => by cases c <;> cases hook <;> rfl) (t, retry)
    rw [hnone] at horder
    refine Eq.trans ?_ horder.symm
    rw [applyEffects, (hard_ofCalls hs).2.2]
    cases hook <;> rfl
  rw [PolicyEq.eq_iff (PolicyEq.applyEffects _) hpolicy heligible, retryPool_in_order_iff,
    tags_in_order_iff, retrySourceV4_in_order_iff, retrySourceV6_in_order_iff,
    softDrop_in_order_iff]
  constructor
  · rintro ⟨-, hpool, htags, -, -, -, hv4, hv6, hdrop, -⟩
    exact ⟨hdrop, hpool, hv4, hv6, htags⟩
  · rintro ⟨hdrop, hpool, hv4, hv6, htags⟩
    exact ⟨pool_in_order t retry, hpool, htags, rcode_in_order t retry hs,
      (sources_in_order t retry).1, (sources_in_order t retry).2, hv4, hv6, hdrop,
      dropped_in_order t retry hs⟩

/-- The whole comparison: the transaction and the retry flag. -/
theorem record_eq_iff (hs : ∀ c ∈ calls, c.soft) :
    (applyEffects hook t (ofCalls hook calls), retryAfter hook (ofCalls hook calls) retry) =
        allInOrder hook calls (t, retry) ↔ KeepsOrder hook calls t retry := by
  rw [Prod.ext_iff, fields_eq_iff t retry hs, retry_in_order_iff]
  exact ⟨fun h => ⟨h.1, h.2⟩, fun h => ⟨h.toKeepsFields, h.retry⟩⟩

/-- The comparison at the end of the rule. -/
theorem outcome_eq_iff (hs : ∀ c ∈ calls, c.soft) :
    (applyEffects hook t (ofCalls hook calls),
        finalOutcome (applyEffects hook t (ofCalls hook calls))
          (retryAfter hook (ofCalls hook calls) retry)) =
      ((allInOrder hook calls (t, retry)).1,
        finalOutcome (allInOrder hook calls (t, retry)).1 (allInOrder hook calls (t, retry)).2) ↔
      KeepsOutcome hook calls t := by
  have hdrop : (applyEffects hook t (ofCalls hook calls)).softDrop = true ↔
      .dropQuery ∈ calls ∨ t.softDrop = true ∧ .clearDrop ∉ calls := by
    rw [applyEffects, softDrop_ofCalls, clearSoftDrop_ofCalls]
    simp [and_comm]
  have hfinal : ∀ r r' : Bool, finalOutcome (applyEffects hook t (ofCalls hook calls)) r =
      finalOutcome (applyEffects hook t (ofCalls hook calls)) r' ↔
        (applyEffects hook t (ofCalls hook calls)).softDrop = true ∨ r = r' := by
    intro r r'
    unfold finalOutcome
    cases (applyEffects hook t (ofCalls hook calls)).softDrop <;> cases r <;> cases r' <;> simp
  have hfields := @fields_eq_iff hook calls t retry hs
  have hretry := @retry_in_order_iff hook calls t retry
  rw [Prod.mk.injEq]
  constructor
  · rintro ⟨hfst, hsnd⟩
    refine ⟨hfields.mp hfst, ?_⟩
    rw [← hfst, hfinal, hdrop, hretry] at hsnd
    rcases hsnd with (h | h) | h
    · exact .inl h
    · exact .inr (.inl h)
    · split at h
      · exact .inl ‹_›
      · exact .inr (.inr h)
  · intro h
    have hfst := hfields.mpr h.toKeepsFields
    refine ⟨hfst, ?_⟩
    rw [← hfst, hfinal, hdrop, hretry]
    by_cases hmem : TxnCall.dropQuery ∈ calls
    · exact .inl (.inl hmem)
    · rw [if_neg hmem]
      exact or_assoc.mpr h.retry

/-- A script of soft calls as a step of its rule. -/
theorem applyAction_rhai {scripting : CompiledScripting} {id world : Nat} {script : RhaiScript}
    (hid : scripting[id]? = some script.compiled) (hhook : script.hook = hook)
    (hcalls : script.calls world t = some calls) (hs : ∀ c ∈ calls, c.soft) :
    applyAction hook scripting world t retry (.rhai id) =
      (applyEffects hook t (ofCalls hook calls), retryAfter hook (ofCalls hook calls) retry,
        none) := by
  subst hhook
  obtain ⟨hdrop, hretry, -⟩ : (ofCalls script.hook calls).hardDrop = false ∧
    (ofCalls script.hook calls).hardRetry = false ∧ _ := hard_ofCalls hs
  have hrun : script.compiled.run world t = some (ofCalls script.hook calls) := by
    simp [RhaiScript.compiled, hcalls]
  have hsame : script.compiled.hook = script.hook := rfl
  simp only [applyAction, runScripts, hid, hrun, hsame, if_true, hdrop, hretry, retryAfter]
  cases (ofCalls script.hook calls).softDrop with
  | true => rfl
  | false =>
    cases ((ofCalls script.hook calls).retryRequested &&
      !(ofCalls script.hook calls).clearSoftRetry) <;> simp

end Compare

/-- A rule that has the built-in actions of the calls in their place: the order of the calls. -/
theorem executeOrdered_actions (hook : RuleHook) (scripting : CompiledScripting) (world : Nat)
    {calls : List TxnCall} (hs : ∀ c ∈ calls, c.soft)
    (hb : ∀ c ∈ calls, ∀ key value, c ≠ .setTagBool key value) (rest : List CompiledAction)
    (t : Transaction) (retry : Bool) :
    executeOrdered hook scripting world (calls.filterMap (TxnCall.action hook) ++ rest) t retry =
      executeOrdered hook scripting world rest (TxnCall.allInOrder hook calls (t, retry)).1
        (TxnCall.allInOrder hook calls (t, retry)).2 := by
  induction calls generalizing t retry with
  | nil => rfl
  | cons c calls ih =>
    have hrec := fun t retry => ih (fun c hc => hs c (List.mem_cons_of_mem _ hc))
      (fun c hc => hb c (List.mem_cons_of_mem _ hc)) t retry
    have hsoft := hs c List.mem_cons_self
    have hbool := hb c List.mem_cons_self
    cases c with
    | setTagBool key value => exact absurd rfl (hbool key value)
    | requestRetryNow | dropQueryNow | setUnknownRcode | setCacheLookupEligible _ => cases hsoft
    | requestRetry | clearRetry | setSourceV4 _ | setSourceV6 _ => cases hook <;> exact hrec _ _
    | _ => exact hrec _ _

/-- **The order of a script's calls.** For every script that completes, and every soft calls that
it makes: the transaction and the outcome of the rule, whatever actions come after the script, are
those of the calls done one after the other, exactly when the calls keep their order; and if no
action comes after it, exactly when they keep it as far as the outcome shows. -/
theorem script_order_iff {hook : RuleHook} {scripting : CompiledScripting} {id world : Nat}
    {script : RhaiScript} {calls : List TxnCall} (t : Transaction) (retry : Bool)
    (hid : scripting[id]? = some script.compiled) (hhook : script.hook = hook)
    (hcalls : script.calls world t = some calls) (hs : ∀ c ∈ calls, c.soft) :
    ((∀ rest, executeOrdered hook scripting world (.rhai id :: rest) t retry =
      executeOrdered hook scripting world rest (TxnCall.allInOrder hook calls (t, retry)).1
        (TxnCall.allInOrder hook calls (t, retry)).2) ↔
      TxnCall.KeepsOrder hook calls t retry) ∧
    (executeOrdered hook scripting world [.rhai id] t retry =
      executeOrdered hook scripting world [] (TxnCall.allInOrder hook calls (t, retry)).1
        (TxnCall.allInOrder hook calls (t, retry)).2 ↔
      TxnCall.KeepsOutcome hook calls t) := by
  have haction := applyAction_rhai t retry hid hhook hcalls hs
  have hexec : ∀ rest, executeOrdered hook scripting world (.rhai id :: rest) t retry =
      executeOrdered hook scripting world rest
        (applyEffects hook t (ScriptEffects.ofCalls hook calls))
        (retryAfter hook (ScriptEffects.ofCalls hook calls) retry) := by
    intro rest
    rw [executeOrdered, haction]
  refine ⟨?_, by rw [hexec, ← outcome_eq_iff t retry hs]; rfl⟩
  rw [← record_eq_iff t retry hs]
  constructor
  · intro h
    -- the end of the rule shows the transaction, and a clear of the drop shows the retry flag
    have hend := (hexec []).symm.trans (h [])
    have hclear := (hexec [.clearDrop]).symm.trans (h [.clearDrop])
    have hfst := congrArg Prod.fst hend
    simp only [executeOrdered] at hfst
    refine Prod.ext hfst ?_
    have hout := congrArg Prod.snd hclear
    simp only [executeOrdered, applyAction, applyBuiltin, finalOutcome, Bool.false_eq_true,
      if_false] at hout
    revert hout
    cases retryAfter hook (ScriptEffects.ofCalls hook calls) retry <;>
      cases (TxnCall.allInOrder hook calls (t, retry)).2 <;> simp
  · intro h rest
    rw [hexec, ← h]

/-- A script that always makes these calls. -/
def scriptOf (hook : RuleHook) (calls : List TxnCall) : RhaiScript := ⟨hook, fun _ _ => some calls⟩

/-- A stash that is cleared, and a retry that is requested after a soft drop was cleared. -/
theorem script_order_sample :
    executeOrdered .response [(scriptOf .response
        [.setRetryPool "a", .clearRetryPool, .clearDrop, .requestRetry]).compiled] 0
        [.rhai 0, .drop] {} false =
      executeOrdered .response [(scriptOf .response
        [.setRetryPool "a", .clearRetryPool, .clearDrop, .requestRetry]).compiled] 0 [.drop]
        { softDrop := false, dropped := false, retryPool := none } true := by
  have hid : [(scriptOf .response
      [.setRetryPool "a", .clearRetryPool, .clearDrop, .requestRetry]).compiled][0]? =
    some (scriptOf .response
      [.setRetryPool "a", .clearRetryPool, .clearDrop, .requestRetry]).compiled := rfl
  refine (script_order_iff {} false hid rfl rfl (by decide)).1.mpr
    ⟨⟨by decide, by decide, by decide, by decide, ?_⟩, ?_⟩ [.drop]
  · intro key op hop
    cases hop
  · rw [if_neg (by decide)]
    intro _ hclear
    exact absurd hclear (by decide)

/-- A soft drop that is cleared drops the query, and a stash that is set after a clear is lost. -/
theorem script_order_lost :
    (executeOrdered .response [(scriptOf .response [.dropQuery, .clearDrop]).compiled] 0
        [.rhai 0] {} false).2 = .drop ∧
      (executeOrdered .response [] 0 [.drop, .clearDrop] {} false).2 = .cont ∧
      (executeOrdered .request [(scriptOf .request
        [.clearRetryPool, .setRetryPool "b"]).compiled] 0 [.rhai 0] {} false).1.retryPool = none ∧
      (executeOrdered .request [] 0
        [.clearRetryPool, .setRetryPool "b"] {} false).1.retryPool = some "b" :=
  ⟨rfl, rfl, rfl, rfl⟩

end Conduit
