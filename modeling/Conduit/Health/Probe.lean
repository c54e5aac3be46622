import Conduit.Lib.Lts
import Conduit.Health.Registry

/-!
# The probe loop

The probe loop (`conduit-dataplane/src/probe/run.rs`, `scheduler.rs`) is built once, when the
dataplane starts: for each backend of the compiled health it keeps the probe settings and the state
object that the registry had then. A configuration swap reconciles the registry: an unchanged
backend keeps its object, every other one gets a new object.

The state objects have an identity here (`HealthObjects`); the registry of
`Conduit/Health/Registry.lean` is what they look like to a reader (`HealthObjects.view`).

The timing of the probes (jitter, deadlines, wake-ups), the messages and the sockets are left out,
and so is the latency weight, which no outcome depends on: a reply comes with its classification and
its round-trip time.

- `HealthObjects.reconcile`, `reconcile_view`: the reconcile of a swap.
- `buildBackends`: the loop. `ProbeSystem`, `probeSystem`: swaps and probes.
- `ProbeSystem.Probed`: every backend is probed with its settings, into the object routing reads.
- `probes_reach`: it holds while swaps leave the probed backends as they are (`Unchanged`).
- `reprobed_backend`: a swap that changes the probe name.
-/

namespace Conduit

open Function (update update_of_ne update_self)

/-! ## Configuration -/

/-- The fields of `CompiledPoolHealth` that only the probe loop reads. -/
structure PoolProbe where
  intervalMs : UInt32 := 1000
  timeoutMs : UInt32 := 1000
  rise : UInt32 := 3
  fall : UInt32 := 2
  /-- `none`: any response code is acceptable. -/
  acceptableRcodes : Option (List UInt16) := none
  latencyWeighting : Bool := false
  deriving DecidableEq, Repr

/-- `DEFAULT_LATENCY_EWMA_ALPHA`, which every pool is compiled with. -/
def latencyEwmaAlpha : Float := 0.2

/-- What the probe loop reads of a snapshot. -/
structure ProbedHealth where
  health : CompiledHealth
  probe : String → PoolProbe := fun _ => {}
  /-- The upstream transport is TCP only. -/
  useTcp : Bool := false

/-- What a backend is probed with: its own settings, those of its pool, and the transport. -/
structure ProbeSettings where
  backend : CompiledBackendHealth
  pool : PoolProbe
  useTcp : Bool
  deriving DecidableEq, Repr

def ProbedHealth.settings (c : ProbedHealth) (e : CompiledHealth.Entry) : ProbeSettings :=
  ⟨e.backend, c.probe e.key.pool, c.useTcp⟩

/-! ## State objects -/

abbrev ObjId := Nat

/-- The registry, with the identity of the state objects. -/
structure HealthObjects where
  table : BackendKey → Option ObjId := fun _ => none
  objs : ObjId → BackendHealthState := fun _ => .fromInitialPolicy .optimistic
  /-- The first identity that no object has. -/
  next : ObjId := 0

namespace HealthObjects

/-- `HealthRegistry::get`, read: the state of the object. -/
def get (h : HealthObjects) (key : BackendKey) : Option BackendHealthState :=
  (h.table key).map h.objs

/-- The registry as its readers see it. -/
def view (h : HealthObjects) : HealthRegistry where
  table := h.get

/-- A new object for a backend. -/
def insertFresh (h : HealthObjects) (e : CompiledHealth.Entry) : HealthObjects where
  table := update h.table e.key (some h.next)
  objs := update h.objs h.next (.fromInitialPolicy e.initial)
  next := h.next + 1

def fromCompiled (c : CompiledHealth) : HealthObjects := c.entries.foldl insertFresh {}

/-- The object of an unchanged backend. -/
def preserved (h : HealthObjects) (prev : CompiledHealth) (e : CompiledHealth.Entry) :
    Option ObjId :=
  (h.table e.key).filter fun _ =>
    match (prev.pool e.key.pool).bind fun p => p.backends.find? (·.address == e.backend.address) with
    | some b => probeSemanticsEq b e.backend
    | none => false

/-- One turn of the loop of `reconcile`: from the old table into the new one. -/
def reconcileOne (old : HealthObjects) (prev : CompiledHealth) (h : HealthObjects)
    (e : CompiledHealth.Entry) : HealthObjects :=
  match old.preserved prev e with
  | some id => { h with table := update h.table e.key (some id) }
  | none => h.insertFresh e

def cleared (h : HealthObjects) : HealthObjects := { h with table := fun _ => none }

def reconcile (h : HealthObjects) (prev new : CompiledHealth) : HealthObjects :=
  new.entries.foldl (h.reconcileOne prev) h.cleared

def write (h : HealthObjects) (id : ObjId) (f : BackendHealthState → BackendHealthState) :
    HealthObjects :=
  { h with objs := update h.objs id (f (h.objs id)) }

/-- The table has only objects that exist. -/
def Bounded (h : HealthObjects) : Prop := ∀ key id, h.table key = some id → id < h.next

/-! ## What a reader sees -/

variable {h : HealthObjects}

theorem get_insertFresh (hb : h.Bounded) (e : CompiledHealth.Entry) :
    (h.insertFresh e).get =
      update h.get e.key (some (.fromInitialPolicy e.initial)) := by
  funext key
  by_cases hk : key = e.key
  · subst hk
    simp [get, insertFresh]
  · simp only [get, insertFresh, update_of_ne hk]
    cases ht : h.table key with
    | none => rfl
    | some id =>
      -- a new object is none of the old ones
      have hlt := hb key id ht
      simp [update_of_ne (Nat.ne_of_lt hlt)]

theorem Bounded.insertFresh (hb : h.Bounded) (e : CompiledHealth.Entry) :
    (h.insertFresh e).Bounded := by
  intro key id hid
  by_cases hk : key = e.key
  · subst hk
    simp only [HealthObjects.insertFresh, update_self] at hid
    cases hid
    exact Nat.lt_succ_self _
  · simp only [HealthObjects.insertFresh, update_of_ne hk] at hid
    exact Nat.lt_succ_of_lt (hb key id hid)

/-- The old objects are as they were. -/
structure Extends (old h : HealthObjects) : Prop where
  next : old.next ≤ h.next
  objs : ∀ id < old.next, h.objs id = old.objs id
  bounded : h.Bounded

variable {old : HealthObjects}

theorem Extends.reconcileOne (hold : old.Bounded) (hx : Extends old h) (prev : CompiledHealth)
    (e : CompiledHealth.Entry) :
    Extends old (old.reconcileOne prev h e) := by
  unfold HealthObjects.reconcileOne
  split
  · rename_i id hid
    refine ⟨hx.next, hx.objs, ?_⟩
    intro key i hi
    by_cases hk : key = e.key
    · subst hk
      simp only [update_self] at hi
      cases hi
      have hlt := hold _ _ (Option.filter_eq_some_iff.mp hid).1
      exact Nat.lt_of_lt_of_le hlt hx.next
    · simp only [update_of_ne hk] at hi
      exact hx.bounded key i hi
  · refine ⟨Nat.le_succ_of_le hx.next, fun id hlt => ?_, hx.bounded.insertFresh e⟩
    have hne : id ≠ h.next := Nat.ne_of_lt (Nat.lt_of_lt_of_le hlt hx.next)
    rw [HealthObjects.insertFresh]
    simp only [update_of_ne hne]
    exact hx.objs id hlt

/-- What a reader sees of one turn of the loop. -/
theorem get_reconcileOne (hold : old.Bounded) (hx : Extends old h) (prev : CompiledHealth)
    (e : CompiledHealth.Entry) :
    (old.reconcileOne prev h e).get = update h.get e.key
      (some ((old.view.preserved prev e).getD (.fromInitialPolicy e.initial))) := by
  have hview : old.view.preserved prev e = (old.preserved prev e).map old.objs := by
    unfold HealthRegistry.preserved preserved view get
    simp only [Option.filter_map]
    rfl
  rw [hview]
  unfold reconcileOne
  cases hp : old.preserved prev e with
  | none =>
    simp only [Option.map_none, Option.getD_none]
    exact get_insertFresh hx.bounded e
  | some id =>
    have hlt := hold _ _ (Option.filter_eq_some_iff.mp hp).1
    funext key
    by_cases hk : key = e.key
    · subst hk
      simp [get, hx.objs id hlt]
    · simp [get, update_of_ne hk]

/-- The loop of `reconcile` over a list of backends. -/
theorem reconcile_go (hold : old.Bounded) (prev : CompiledHealth) (es : List CompiledHealth.Entry)
    (hx : Extends old h) :
    Extends old (es.foldl (old.reconcileOne prev) h) ∧
      (es.foldl (old.reconcileOne prev) h).get =
        Table.insertAll (·.key)
          (fun e => (old.view.preserved prev e).getD (.fromInitialPolicy e.initial)) es h.get := by
  induction es generalizing h with
  | nil => exact ⟨hx, rfl⟩
  | cons e es ih =>
    obtain ⟨hext, hget⟩ := ih (hx.reconcileOne hold prev e)
    refine ⟨hext, hget.trans ?_⟩
    rw [get_reconcileOne hold hx]
    rfl

theorem Extends.cleared (h : HealthObjects) : Extends h h.cleared :=
  ⟨Nat.le_refl _, fun _ _ => rfl, fun _ _ hid => by cases hid⟩

theorem Bounded.reconcile (hb : h.Bounded) (prev new : CompiledHealth) :
    (h.reconcile prev new).Bounded :=
  (reconcile_go hb prev new.entries (Extends.cleared h)).1.bounded

/-- **To its readers, the registry of objects is the registry.** -/
theorem reconcile_view (hb : h.Bounded) (prev new : CompiledHealth) :
    (h.reconcile prev new).view = h.view.reconcile prev new := by
  have hget := (reconcile_go hb prev new.entries (Extends.cleared h)).2
  exact congrArg (fun t => HealthRegistry.mk t {}) hget

end HealthObjects

/-! ## The loop -/

/-- `BackendProbe`: a backend of the loop, with the object that its outcomes go into. -/
structure BackendProbe where
  key : BackendKey
  settings : ProbeSettings
  state : ObjId
  /-- A probe is under way. -/
  outstanding : Bool := false
  deriving DecidableEq, Repr

/-- `classify_response`: what a reply says of the backend. -/
inductive ProbeReply where
  | success | failure | unmatched
  deriving DecidableEq, Repr

/-- `build_backends`: a backend whose query cannot be built or whose socket cannot be bound is
skipped. -/
def buildBackends (builds : BackendKey → ProbeSettings → Bool) (c : ProbedHealth)
    (registry : HealthObjects) : List BackendProbe :=
  c.health.entries.filterMap fun e =>
    (registry.table e.key).bind fun state =>
      if builds e.key (c.settings e) then some ⟨e.key, c.settings e, state, false⟩ else none

/-- What an outcome does to the state object of its probe; `none`: nothing is recorded. -/
def ProbeReply.record (p : ProbeSettings) (rttMs : Float) :
    ProbeReply → Option (BackendHealthState → BackendHealthState)
  | .success => some (·.recordSuccess p.pool.rise latencyEwmaAlpha rttMs)
  | .failure => some (·.recordFailure p.pool.fall)
  | .unmatched => none

structure ProbeSystem where
  current : ProbedHealth
  /-- The snapshot before, between the two steps of a swap. -/
  swapping : Option ProbedHealth := none
  registry : HealthObjects
  loop : List BackendProbe

inductive ProbeAct where
  /-- `try_swap` stores the new snapshot. -/
  | install (new : ProbedHealth)
  /-- `try_swap` reconciles the registry. -/
  | reconcile
  /-- `due_probes` for one backend of the loop. -/
  | send (idx : Nat)
  /-- `on_reply`. -/
  | reply (idx : Nat) (outcome : ProbeReply) (rttMs : Float)
  /-- `on_failure` and `expire_timeouts`. -/
  | fail (idx : Nat)
  /-- Another writer of the object of a backend: live forwards, operators. -/
  | write (key : BackendKey) (f : BackendHealthState → BackendHealthState)

namespace ProbeSystem

/-- Start-up: the registry of the first snapshot, the swap that installs this snapshot, and the
probe loop. -/
def boot (builds : BackendKey → ProbeSettings → Bool) (c : ProbedHealth) : ProbeSystem :=
  let registry := (HealthObjects.fromCompiled c.health).reconcile c.health c.health
  { current := c, registry := registry, loop := buildBackends builds c registry }

def setOutstanding (s : ProbeSystem) (idx : Nat) (b : Bool) : ProbeSystem :=
  { s with loop := s.loop.modify idx fun p => { p with outstanding := b } }

/-- The end of a probe: the outcome goes into the object of the loop's entry. -/
def finish (s : ProbeSystem) (idx : Nat) (p : BackendProbe) (outcome : ProbeReply)
    (rttMs : Float) : ProbeSystem :=
  match outcome.record p.settings rttMs with
  | none => s
  | some f => { s.setOutstanding idx false with registry := s.registry.write p.state f }

def step (s : ProbeSystem) : ProbeAct → Option ProbeSystem
  | .install new =>
    match s.swapping with
    | none => some { s with current := new, swapping := some s.current }
    | some _ => none
  | .reconcile =>
    match s.swapping with
    | none => none
    | some prev =>
      some { s with
        swapping := none
        registry := s.registry.reconcile prev.health s.current.health }
  | .send idx =>
    match s.loop[idx]? with
    | none => none
    | some p => if p.outstanding then none else some (s.setOutstanding idx true)
  | .reply idx outcome rttMs =>
    match s.loop[idx]? with
    | none => none
    | some p => if p.outstanding then some (s.finish idx p outcome rttMs) else none
  | .fail idx =>
    match s.loop[idx]? with
    | none => none
    | some p => if p.outstanding then some (s.finish idx p .failure 0) else none
  | .write key f =>
    match s.registry.table key with
    | none => none
    | some id => some { s with registry := s.registry.write id f }

end ProbeSystem

/-- The dataplane started with a snapshot, its swaps and its probes. -/
abbrev probeSystem (builds : BackendKey → ProbeSettings → Bool) (start : ProbedHealth) : Lts where
  St := ProbeSystem
  Act := ProbeAct
  init s := s = .boot builds start
  step := ProbeSystem.step

/-! ## What is probed -/

/-- Every backend that the new snapshot probes was there, with the same settings. -/
def Unchanged (prev new : ProbedHealth) : Prop :=
  ∀ e ∈ new.health.entries,
    ((prev.health.pool e.key.pool).bind fun p => p.backends.find? (·.address == e.backend.address)) =
        some e.backend ∧
      prev.settings e = new.settings e

instance (prev new : ProbedHealth) : Decidable (Unchanged prev new) :=
  inferInstanceAs (Decidable (∀ e ∈ new.health.entries, _ ∧ _))

/-- The outcome that an action of the loop brings: its backend, and what it is. -/
def ProbeAct.outcome : ProbeAct → Option (Nat × ProbeReply × Float)
  | .reply idx outcome rttMs => some (idx, outcome, rttMs)
  | .fail idx => some (idx, .failure, 0)
  | .install _ | .reconcile | .send _ | .write _ _ => none

namespace ProbeSystem

/-- Every backend is probed with its settings, into the object that the registry has for it. -/
structure Probed (s : ProbeSystem) : Prop where
  probed : ∀ e ∈ s.current.health.entries,
    ∃ p ∈ s.loop, p.key = e.key ∧ p.settings = s.current.settings e
  recorded : ∀ p ∈ s.loop, p.key ∈ s.current.health.keys →
    s.registry.table p.key = some p.state

/-- What a reader finds after an outcome is what it found before, with the outcome recorded. -/
def Recorded (s : ProbeSystem) : Prop :=
  ∀ a idx outcome rttMs p s', a.outcome = some (idx, outcome, rttMs) → s.loop[idx]? = some p →
    p.key ∈ s.current.health.keys → s.step a = some s' →
      s'.registry.get p.key =
        (s.registry.get p.key).map ((outcome.record p.settings rttMs).getD id)

/-- A swap leaves the probed backends as they are. -/
def KeepsProbes (s : ProbeSystem) : ProbeAct → Prop
  | .install new => Unchanged s.current new
  | .reconcile | .send _ | .reply _ _ _ | .fail _ | .write _ _ => True

instance (s : ProbeSystem) : (a : ProbeAct) → Decidable (s.KeepsProbes a)
  | .install new => inferInstanceAs (Decidable (Unchanged s.current new))
  | .reconcile | .send _ | .reply _ _ _ | .fail _ | .write _ _ => .isTrue trivial

end ProbeSystem

variable {e : CompiledHealth.Entry}

theorem CompiledHealth.mem_entries {c : CompiledHealth} :
    e ∈ c.entries ↔ ∃ p, c.pool e.key.pool = some p ∧ e.backend ∈ p.backends ∧
      e = ⟨⟨e.key.pool, e.backend.address⟩, p.initialState, e.backend⟩ := by
  simp only [entries, pool, List.mem_flatMap, List.mem_map, Table.lookup_iff_mem c.nodup]
  constructor
  · rintro ⟨⟨name, p⟩, hp, b, hb, rfl⟩
    exact ⟨p, hp, hb, rfl⟩
  · rintro ⟨p, hp, hb, he⟩
    exact ⟨_, hp, _, hb, he.symm⟩

variable {prev new : ProbedHealth}

theorem Unchanged.before (h : Unchanged prev new) (he : e ∈ new.health.entries) :
    ∃ e' ∈ prev.health.entries, e'.key = e.key ∧ prev.settings e' = new.settings e := by
  obtain ⟨hfind, hset⟩ := h e he
  obtain ⟨p, hp, hb⟩ := Option.bind_eq_some_iff.mp hfind
  obtain ⟨_, _, _, heq⟩ := CompiledHealth.mem_entries.mp he
  have hkey : e.key = ⟨e.key.pool, e.backend.address⟩ := congrArg CompiledHealth.Entry.key heq
  refine ⟨⟨e.key, p.initialState, e.backend⟩, ?_, rfl, hset⟩
  refine CompiledHealth.mem_entries.mpr ⟨p, hp, List.mem_of_find?_eq_some hb, ?_⟩
  simp only [← hkey]

theorem Unchanged.keys (h : Unchanged prev new) {key : BackendKey} (hk : key ∈ new.health.keys) :
    key ∈ prev.health.keys := by
  obtain ⟨e, he, rfl⟩ := List.mem_map.mp hk
  obtain ⟨e', he', hkey, -⟩ := h.before he
  exact List.mem_map.mpr ⟨e', he', hkey⟩

namespace HealthObjects

variable {id : ObjId} {key : BackendKey} {h : HealthObjects}

/-- The loop of `reconcile` keeps the object of a key whose backends are all unchanged. -/
theorem table_reconcile_go {old : HealthObjects} {prev : CompiledHealth}
    {es : List CompiledHealth.Entry} (hes : ∀ e ∈ es, e.key = key → old.preserved prev e = some id)
    (hh : h.table key = some id ∨ key ∈ es.map (·.key)) :
    (es.foldl (old.reconcileOne prev) h).table key = some id := by
  induction es generalizing h with
  | nil => exact hh.resolve_right (by simp)
  | cons e es ih =>
    refine ih (fun e' he' => hes e' (List.mem_cons_of_mem _ he')) ?_
    by_cases hk : e.key = key
    · left
      simp only [reconcileOne, hes e List.mem_cons_self hk, hk, update_self]
    · refine hh.imp (fun ht => ?_) fun hm => ?_
      · rw [← ht, reconcileOne]
        split
        · exact update_of_ne (Ne.symm hk) _ _
        · exact update_of_ne (Ne.symm hk) _ _
      · exact (List.mem_cons.mp hm).resolve_left (Ne.symm hk)

theorem table_reconcile {prev new : ProbedHealth} (hu : Unchanged prev new)
    (hk : key ∈ new.health.keys) (hid : h.table key = some id) :
    (h.reconcile prev.health new.health).table key = some id := by
  refine table_reconcile_go (fun e he hek => ?_) (.inr hk)
  rw [preserved, hek, hid, ← hek, (hu e he).1]
  simp [Option.filter, probeSemanticsEq]

/-- After a reconcile every backend of the snapshot has an object. -/
theorem table_reconcile_isSome (hb : h.Bounded) (prev new : CompiledHealth) (hk : key ∈ new.keys) :
    ((h.reconcile prev new).table key).isSome := by
  have hget := congrFun (reconcile_go hb prev new.entries (Extends.cleared h)).2 key
  have hsome : ((h.reconcile prev new).get key).isSome := by
    rw [reconcile, hget, Table.insertAll_eq]
    obtain ⟨e, he, hek⟩ := List.mem_map.mp hk
    cases hl : Table.lastWith (·.key) key new.entries with
    | some e' => simp
    | none =>
      have := List.find?_eq_none.mp hl e (List.mem_reverse.mpr he)
      simp [hek] at this
  simpa [get] using hsome

theorem bounded_fromCompiled (c : CompiledHealth) : (fromCompiled c).Bounded := by
  have hgo : ∀ (es : List CompiledHealth.Entry) (h : HealthObjects), h.Bounded →
      (es.foldl insertFresh h).Bounded := by
    intro es
    induction es with
    | nil => exact fun h hb => hb
    | cons e es ih => exact fun h hb => ih _ (hb.insertFresh e)
  exact hgo _ _ fun _ _ hid => by cases hid

end HealthObjects

namespace ProbeSystem

variable {builds : BackendKey → ProbeSettings → Bool} {start : ProbedHealth}

/-- The invariant: a swap under way is one that leaves the probed backends as they are. -/
def Inv (s : ProbeSystem) : Prop :=
  s.Probed ∧ ∀ prev, s.swapping = some prev → Unchanged prev s.current

variable {s' s : ProbeSystem}

/-- A change that keeps the snapshots, the table and what the loop's entries are keeps the
invariant. -/
theorem Inv.frame (h : s.Inv) (hcurrent : s'.current = s.current)
    (hswapping : s'.swapping = s.swapping) (htable : s'.registry.table = s.registry.table)
    (hfrom : ∀ p ∈ s'.loop, ∃ p' ∈ s.loop, p'.key = p.key ∧ p'.state = p.state)
    (hto : ∀ p ∈ s.loop, ∃ p' ∈ s'.loop, p'.key = p.key ∧ p'.settings = p.settings) : s'.Inv := by
  refine ⟨⟨fun e he => ?_, fun p hp hk => ?_⟩, fun prev hprev => ?_⟩
  · rw [hcurrent] at he ⊢
    obtain ⟨p, hp, hkey, hset⟩ := h.1.probed e he
    obtain ⟨p', hp', hkey', hset'⟩ := hto p hp
    exact ⟨p', hp', hkey'.trans hkey, hset'.trans hset⟩
  · obtain ⟨p', hp', hkey', hstate⟩ := hfrom p hp
    rw [htable, ← hkey', ← hstate]
    refine h.1.recorded p' hp' ?_
    rwa [hkey', ← hcurrent]
  · rw [hcurrent]
    exact h.2 prev (hswapping ▸ hprev)

theorem Inv.setOutstanding (h : s.Inv) (idx : Nat) (b : Bool) :
    (s.setOutstanding idx b).Inv := by
  refine h.frame rfl rfl rfl (fun p hp => ?_) fun p hp => ?_
  · obtain ⟨i, hi⟩ := List.mem_iff_getElem?.mp hp
    rw [ProbeSystem.setOutstanding, List.getElem?_modify] at hi
    obtain ⟨p', hp', rfl⟩ := Option.map_eq_some_iff.mp hi
    refine ⟨p', List.mem_of_getElem? hp', ?_⟩
    split <;> exact ⟨rfl, rfl⟩
  · obtain ⟨i, hi⟩ := List.mem_iff_getElem?.mp hp
    refine ⟨if idx = i then { p with outstanding := b } else p, ?_, ?_⟩
    · refine List.mem_of_getElem? (i := i) ?_
      rw [ProbeSystem.setOutstanding, List.getElem?_modify, hi]
      rfl
    · split <;> exact ⟨rfl, rfl⟩

theorem Inv.write (h : s.Inv) (id : ObjId) (f : BackendHealthState → BackendHealthState) :
    Inv { s with registry := s.registry.write id f } :=
  h.frame rfl rfl rfl (fun p hp => ⟨p, hp, rfl, rfl⟩) fun p hp => ⟨p, hp, rfl, rfl⟩

theorem Inv.finish {s : ProbeSystem} (h : s.Inv) (idx : Nat) (p : BackendProbe)
    (outcome : ProbeReply) (rttMs : Float) : (s.finish idx p outcome rttMs).Inv := by
  unfold ProbeSystem.finish
  split
  · exact h
  · exact (h.setOutstanding idx false).write _ _

/-- An unchanged snapshot is probed by the same loop, into the same objects. -/
theorem Inv.install (h : s.Inv) {new : ProbedHealth} (hu : Unchanged s.current new) :
    Inv { s with current := new, swapping := some s.current } := by
  refine ⟨⟨fun e he => ?_, fun p hp hk => ?_⟩, fun prev hprev => ?_⟩
  · obtain ⟨e', he', hkey, hset⟩ := hu.before he
    obtain ⟨p, hp, hpkey, hpset⟩ := h.1.probed e' he'
    exact ⟨p, hp, hpkey.trans hkey, hpset.trans hset⟩
  · exact h.1.recorded p hp (hu.keys hk)
  · cases hprev
    exact hu

theorem Inv.reconcile (h : s.Inv) {prev : ProbedHealth} (hprev : s.swapping = some prev) :
    Inv { s with
      swapping := none
      registry := s.registry.reconcile prev.health s.current.health } := by
  refine ⟨⟨h.1.probed, fun p hp hk => ?_⟩, fun _ hno => by cases hno⟩
  exact HealthObjects.table_reconcile (h.2 prev hprev) hk (h.1.recorded p hp hk)

theorem Inv.step (h : s.Inv) {a : ProbeAct} (hc : s.KeepsProbes a) (hs : s.step a = some s') :
    s'.Inv := by
  cases a with
  | install new =>
    simp only [ProbeSystem.step] at hs
    split at hs <;> cases hs
    exact h.install hc
  | reconcile =>
    simp only [ProbeSystem.step] at hs
    split at hs <;> cases hs
    rename_i prev hprev
    exact h.reconcile hprev
  | send idx =>
    simp only [ProbeSystem.step] at hs
    split at hs
    · cases hs
    · split at hs <;> cases hs
      exact h.setOutstanding idx true
  | reply idx outcome rttMs =>
    simp only [ProbeSystem.step] at hs
    split at hs
    · cases hs
    · split at hs <;> cases hs
      exact h.finish idx _ outcome rttMs
  | fail idx =>
    simp only [ProbeSystem.step] at hs
    split at hs
    · cases hs
    · split at hs <;> cases hs
      exact h.finish idx _ .failure 0
  | write key f =>
    simp only [ProbeSystem.step] at hs
    split at hs <;> cases hs
    exact h.write _ f

theorem inv_boot (hstart : ∀ e ∈ start.health.entries, builds e.key (start.settings e)) :
    (boot builds start).Inv := by
  refine ⟨⟨fun e he => ?_, fun p hp _ => ?_⟩, fun _ hno => by cases hno⟩
  · change e ∈ start.health.entries at he
    have hsome := HealthObjects.table_reconcile_isSome
      (HealthObjects.bounded_fromCompiled start.health) start.health start.health
      (List.mem_map.mpr ⟨e, he, rfl⟩)
    obtain ⟨id, hid⟩ := Option.isSome_iff_exists.mp hsome
    refine ⟨⟨e.key, start.settings e, id, false⟩, ?_, rfl, rfl⟩
    refine List.mem_filterMap.mpr ⟨e, he, ?_⟩
    simp [hid, hstart e he]
  · obtain ⟨e, -, hp'⟩ := List.mem_filterMap.mp hp
    obtain ⟨id, hid, hif⟩ := Option.bind_eq_some_iff.mp hp'
    split at hif <;> cases hif
    exact hid

theorem get_finish {idx : Nat} {p : BackendProbe} (hid : s.registry.table p.key = some p.state)
    (outcome : ProbeReply) (rttMs : Float) :
    (s.finish idx p outcome rttMs).registry.get p.key =
      (s.registry.get p.key).map ((outcome.record p.settings rttMs).getD id) := by
  unfold finish
  cases outcome.record p.settings rttMs with
  | none => simp
  | some f => simp [HealthObjects.write, HealthObjects.get, hid]

theorem Probed.outcomes (h : s.Probed) : s.Recorded := by
  intro a idx outcome rttMs p s' ha hp hk hs
  have hid := h.recorded p (List.mem_of_getElem? hp) hk
  cases a with
  | install _ | reconcile | send _ | write _ _ => cases ha
  | reply idx' outcome' rttMs' =>
    cases ha
    simp only [step, hp] at hs
    split at hs <;> cases hs
    exact get_finish hid outcome rttMs
  | fail idx' =>
    cases ha
    simp only [step, hp] at hs
    split at hs <;> cases hs
    exact get_finish hid .failure 0

end ProbeSystem

/-- **Probe outcomes reach the state that routing reads.** The dataplane starts with a snapshot
whose probes can all be built; while the swaps leave the probed backends as they are, every backend
of the current snapshot is probed with its settings, into the object that the registry has for it.
-/
theorem probes_reach (builds : BackendKey → ProbeSettings → Bool) (start : ProbedHealth)
    (hstart : ∀ e ∈ start.health.entries, builds e.key (start.settings e)) {s : ProbeSystem}
    (hr : (probeSystem builds start).Reach ProbeSystem.KeepsProbes s) :
    s.Probed ∧ s.Recorded := by
  have hinv : s.Inv := by
    refine Lts.Reach.inv (P := ProbeSystem.Inv) (fun s hi => ?_) (fun s a s' _ h hc hs => ?_) hr
    · cases hi
      exact ProbeSystem.inv_boot hstart
    · exact h.step hc hs
  exact ⟨hinv.1, hinv.1.outcomes⟩

/-! ### One backend, swapped twice -/

def oneBackend (qname : String) (passiveFall : UInt32) : ProbedHealth where
  health := {
    pools := [("main", {
      passiveFall := passiveFall
      backends := [{ address := "192.0.2.1:53", probeQname := qname }] })]
    nodup := by simp }

/-- A swap that changes nothing the loop reads, and a probe that fails after it. -/
theorem probes_reach_sample :
    ∃ s, (probeSystem (fun _ _ => true) (oneBackend "health." 2)).Reach
        ProbeSystem.KeepsProbes s ∧
      (s.registry.get ⟨"main", "192.0.2.1:53"⟩).map (·.consecutiveFailures) = some 1 ∧
      s.Probed ∧ s.Recorded := by
  obtain ⟨s, hr, hs⟩ := Lts.exists_exec
    (L := probeSystem (fun _ _ => true) (oneBackend "health." 2)) ProbeSystem.KeepsProbes
    [.install (oneBackend "health." 3), .reconcile, .send 0, .fail 0]
    (fun s => (s.registry.get ⟨"main", "192.0.2.1:53"⟩).map (·.consecutiveFailures) = some 1) rfl
    (by decide +kernel)
  exact ⟨s, hr, hs, probes_reach _ _ (fun _ _ => rfl) hr⟩

/-- The swap changes the name that the backend is probed for. The registry has a new object; the
loop probes for the old name, and a failed probe does not reach the new object. -/
theorem reprobed_backend :
    ∃ s, (probeSystem (fun _ _ => true) (oneBackend "health." 2)).Reach Lts.Any s ∧
      ¬ s.Probed ∧
      (s.registry.get ⟨"main", "192.0.2.1:53"⟩).map (·.consecutiveFailures) = some 0 := by
  obtain ⟨s, hr, hnot, hread⟩ := Lts.exists_exec
    (L := probeSystem (fun _ _ => true) (oneBackend "health." 2)) Lts.Any
    [.install (oneBackend "alive." 2), .reconcile, .send 0, .fail 0]
    (fun s => ¬ (∀ e ∈ s.current.health.entries,
        ∃ p ∈ s.loop, p.key = e.key ∧ p.settings = s.current.settings e) ∧
      (s.registry.get ⟨"main", "192.0.2.1:53"⟩).map (·.consecutiveFailures) = some 0)
    rfl (by decide +kernel)
  exact ⟨s, hr, fun h => hnot h.probed, hread⟩

end Conduit
