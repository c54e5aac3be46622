import Conduit.Config.Metrics
import Conduit.Config.Primitive
import Conduit.Config.Validate

/-!
# Configurations that primitives lead to

What a sequence of primitives can make of a valid file (`Desired`). A section that is there stays
there; the metrics only grow; a pool keeps its name and its settings, and its backends keep to
`Derived`.

- `Mutated`, `mutated`: what one primitive does.
- `desired_of_reaches`: what a sequence does.
-/

namespace Conduit.Config

open Keyed

/-! ## One primitive -/

/-- One change of a pool's backends. -/
inductive BackendsStep (bs : List Backend) : List Backend → Prop
  | setWeight (i w : Nat) : BackendsStep bs (bs.modify i fun b => { b with weight := some w })
  | drop (i : Nat) : BackendsStep bs (bs.eraseIdx i)
  | push {b : Backend} (haddr : b.address ≠ "") (hfresh : ∀ x ∈ bs, x.address ≠ b.address)
      (hname : ∀ n, b.named = some n → ∀ x ∈ bs, x.name ≠ some n) :
      BackendsStep bs (bs ++ [b.unmarked])

/-- A pool before and after a primitive. -/
def PoolStep (p p' : Pool) : Prop :=
  p' = p ∨ ∃ bs, p' = { p with backends := bs } ∧ BackendsStep p.backends bs

/-- What a primitive changes. -/
inductive Mutated (c : Config) : Config → Prop
  | pools {pools : List Pool} : List.Forall₂ PoolStep c.pools pools → Mutated c { c with pools }
  | orchestrator (o : OrchestratorConfig) : Mutated c { c with orchestrator := some o }
  | dataSources (dataSources : List DataSource) : Mutated c { c with dataSources }
  | dataSourceLimits (limits : Message) : Mutated c { c with dataSourceLimits := some limits }
  | events (e : EventsConfig) : Mutated c { c with events := some e }
  | rhai (r : RhaiConfig) : Mutated c { c with rhai := some r }
  | metrics (m : MetricsConfig) : Mutated c { c with metrics := some (mergeMetrics c.metrics m) }
  | caches (caches : List CacheInstance) : Mutated c { c with caches }

variable {p' p : Pool} {id : String}

theorem setWeight_step {w : Nat} (h : setWeight id w p = .ok p') :
    PoolStep p p' := by
  obtain ⟨i, -, h⟩ := bind_eq_ok.mp h
  cases h
  exact .inr ⟨_, rfl, .setWeight i w⟩

theorem dropBackend_step (h : dropBackend id p = .ok p') :
    PoolStep p p' := by
  obtain ⟨i, -, h⟩ := bind_eq_ok.mp h
  cases h
  exact .inr ⟨_, rfl, .drop i⟩

variable {pool : String} {b : Backend}

theorem pushBackend_step (h : pushBackend pool b p = .ok p') : PoolStep p p' := by
  unfold pushBackend at h
  split at h
  · cases h
  · rename_i hid
    split at h
    · cases h
    · rename_i haddr
      cases h
      simp only [backendIdentityExists, Bool.or_eq_true, not_or, Bool.and_eq_true, not_and,
        Bool.not_eq_true, bne_iff_ne, ne_eq] at hid
      obtain ⟨hname, hfresh⟩ := hid
      refine .inr ⟨_, rfl, .push haddr ?_ ?_⟩
      · simpa using hfresh haddr
      · intro n hn
        rw [hn] at hname
        simpa using hname

variable {d c : Config}

theorem mutatePool_mutated {f : Pool → Result Pool} (hf : ∀ p p', f p = .ok p' → PoolStep p p')
    (h : mutatePool pool f c = .ok d) :
    Mutated c d := by
  obtain ⟨pools, hp, h⟩ := bind_eq_ok.mp h
  cases h
  refine .pools ((forall₂_of_upsert hp).imp ?_)
  rintro p p' (rfl | hpp)
  · exact .inl rfl
  · exact hf p p' hpp

variable {name : String}

theorem mutateEventSink_mutated {f : EventSink → EventSink} (h : mutateEventSink name f c = .ok d) :
    Mutated c d := by
  unfold mutateEventSink at h
  split at h
  · cases h
  · split at h
    · cases h
    · obtain ⟨sinks, -, h⟩ := bind_eq_ok.mp h
      cases h
      exact .events _

theorem mutateCache_mutated {f : CacheInstance → Result CacheInstance}
    (h : mutateCache name f c = .ok d) : Mutated c d := by
  unfold mutateCache at h
  split at h
  · cases h
  · obtain ⟨caches, -, h⟩ := bind_eq_ok.mp h
    cases h
    exact .caches _

theorem mergeFileAndOverlay_metrics (c : Config) (m : MetricsConfig) :
    mergeFileAndOverlay c { schemaVersion := c.schemaVersion, metrics := some m } =
      .ok { c with metrics := some (mergeMetrics c.metrics m) } := rfl

/-- **What one primitive does.** -/
theorem mutated {primitive : ConfigPrimitive} (h : mutateDesired c primitive = .ok d) :
    Mutated c d := by
  cases primitive with
  | setBackendWeight pool backend weight => exact mutatePool_mutated (fun _ _ => setWeight_step) h
  | removeBackend pool backend => exact mutatePool_mutated (fun _ _ => dropBackend_step) h
  | addBackend pool backend => exact mutatePool_mutated (fun _ _ => pushBackend_step) h
  | setOrchestratorLimits maxAttempts maxTxnDurationMs =>
    simp only [mutateDesired] at h
    split at h
    · cases h
    · cases h
      exact .orchestrator _
  | upsertDataSource source =>
    simp only [mutateDesired] at h
    split at h
    · cases h
    · cases h
      exact .dataSources _
  | removeDataSource name =>
    simp only [mutateDesired] at h
    split at h
    · cases h
    · obtain ⟨dataSources, -, h⟩ := bind_eq_ok.mp h
      cases h
      exact .dataSources _
  | setDataSourceLimits limits =>
    cases h
    exact .dataSourceLimits _
  | setEventSinkFilters name filters => exact mutateEventSink_mutated h
  | setEventSinkEmit name emit extraFields extraTags extraFieldsSet extraTagsSet =>
    exact mutateEventSink_mutated h
  | setRhaiLimits maxOperations maxCallDepth hookTimeoutMs =>
    simp only [mutateDesired] at h
    split at h
    · cases h
    · cases h
      exact .rhai _
  | patchMetrics metrics =>
    simp only [mutateDesired, mergeFileAndOverlay_metrics] at h
    cases h
    exact .metrics _
  | setCacheMaxEntries name maxEntries => exact mutateCache_mutated h
  | setCacheLmdbHot | setCachePolicyHot =>
    simp only [mutateDesired] at h
    split at h
    · cases h
    · exact mutateCache_mutated h

/-! ## The backends of a pool -/

def addresses (bs : List Backend) : List String := bs.map (·.address)

/-- What primitives can make of the backends of a valid file. -/
structure Derived (file bs : List Backend) : Prop where
  ok : BackendsOk bs
  /-- Two backends have one address only if the file has that address. -/
  fresh : bs.Pairwise fun x y => x.address = y.address → x.address ∈ addresses file
  /-- A backend with a new address has no marker. -/
  unmarked : ∀ b ∈ bs, b.address ∉ addresses file → b.remove = none
  /-- If no two backends of the file have one address, no two have. -/
  nodup : (addresses file).Nodup → (addresses bs).Nodup

variable {file : List Backend}

theorem derived_refl (h : BackendsOk file) : Derived file file where
  ok := h
  fresh := List.pairwise_of_forall_mem_list fun _ hx _ _ _ => List.mem_map_of_mem hx
  unmarked _ hb hnot := absurd (List.mem_map_of_mem hb) hnot
  nodup h := h

variable {bs bs' : List Backend}

theorem backendsOk_sublist (h : BackendsOk bs) (hs : bs'.Sublist bs) :
    BackendsOk bs' where
  address b hb := h.address b (hs.subset hb)
  names := (hs.filterMap _).nodup h.names

theorem derived_sublist (h : Derived file bs) (hs : bs'.Sublist bs) :
    Derived file bs' where
  ok := backendsOk_sublist h.ok hs
  fresh := h.fresh.sublist hs
  unmarked b hb := h.unmarked b (hs.subset hb)
  nodup hn := (hs.map _).nodup (h.nodup hn)

/-- Two backends with the same address, the same name and the same marker. -/
def SameIdentity (b b' : Backend) : Prop :=
  b'.address = b.address ∧ b'.name = b.name ∧ b'.remove = b.remove

theorem forall₂_modify {f : Backend → Backend} (hf : ∀ b, SameIdentity b (f b)) (i : Nat) :
    List.Forall₂ SameIdentity bs (bs.modify i f) := by
  induction bs generalizing i with
  | nil => simp
  | cons b bs ih =>
    cases i with
    | zero =>
      rw [List.modify_zero_cons]
      exact .cons (hf b) (List.forall₂_same.mpr fun _ _ => ⟨rfl, rfl, rfl⟩)
    | succ i =>
      rw [List.modify_succ_cons]
      exact .cons ⟨rfl, rfl, rfl⟩ (ih i)

theorem addresses_eq (h : List.Forall₂ SameIdentity bs bs') :
    addresses bs' = addresses bs := by
  induction h with
  | nil => rfl
  | cons hb _ ih => simp only [addresses, List.map_cons, hb.1] at ih ⊢; rw [ih]

theorem names_eq (h : List.Forall₂ SameIdentity bs bs') :
    bs'.filterMap Backend.named = bs.filterMap Backend.named := by
  induction h with
  | nil => rfl
  | cons hb _ ih =>
    rw [List.filterMap_cons, List.filterMap_cons, ih, Backend.named, Backend.named, hb.2.1]

theorem exists_sameIdentity (h : List.Forall₂ SameIdentity bs bs') {b' : Backend} (hb : b' ∈ bs') :
    ∃ b ∈ bs, SameIdentity b b' := by
  induction h with
  | nil => cases hb
  | cons hxy _ ih =>
    rcases List.mem_cons.mp hb with rfl | hb
    · exact ⟨_, List.mem_cons_self, hxy⟩
    · obtain ⟨b, hb, hs⟩ := ih hb
      exact ⟨b, List.mem_cons_of_mem _ hb, hs⟩

theorem derived_sameIdentity (h : Derived file bs) (hs : List.Forall₂ SameIdentity bs bs') :
    Derived file bs' := by
  have hpair : (addresses bs').Pairwise fun x y => x = y → x ∈ addresses file := by
    rw [addresses_eq hs]
    exact List.pairwise_map.mpr h.fresh
  refine ⟨⟨?_, ?_⟩, List.pairwise_map.mp hpair, ?_, ?_⟩
  · intro b' hb'
    obtain ⟨b, hb, hid⟩ := exists_sameIdentity hs hb'
    rw [hid.1]
    exact h.ok.address b hb
  · rw [names_eq hs]
    exact h.ok.names
  · intro b' hb' hnot
    obtain ⟨b, hb, hid⟩ := exists_sameIdentity hs hb'
    rw [hid.2.2]
    exact h.unmarked b hb (hid.1 ▸ hnot)
  · rw [addresses_eq hs]
    exact h.nodup

theorem derived_push (h : Derived file bs) (haddr : b.address ≠ "")
    (hfresh : ∀ x ∈ bs, x.address ≠ b.address)
    (hname : ∀ n, b.named = some n → ∀ x ∈ bs, x.name ≠ some n) :
    Derived file (bs ++ [b.unmarked]) := by
  refine ⟨⟨?_, ?_⟩, ?_, ?_, ?_⟩
  · intro x hx
    rcases List.mem_append.mp hx with hx | hx
    · exact h.ok.address x hx
    · rw [List.mem_singleton.mp hx]
      exact haddr
  · have hlast : [b.unmarked].filterMap Backend.named = b.named.toList := by
      rw [List.filterMap_cons, show b.unmarked.named = b.named from rfl]
      cases b.named <;> rfl
    rw [List.filterMap_append, hlast]
    cases hn : b.named with
    | none => simpa using h.ok.names
    | some n =>
      refine List.nodup_append.mpr ⟨h.ok.names, by simp, ?_⟩
      intro m hm k hk
      rw [Option.toList_some, List.mem_singleton] at hk
      obtain ⟨x, hx, hxm⟩ := List.mem_filterMap.mp hm
      rintro rfl
      refine hname n hn x hx ?_
      rw [← hk]
      exact (Option.filter_eq_some_iff.mp hxm).1
  · refine List.pairwise_append.mpr ⟨h.fresh, List.pairwise_singleton _ _, ?_⟩
    intro x hx y hy heq
    rw [List.mem_singleton.mp hy] at heq
    exact absurd heq (hfresh x hx)
  · intro x hx hnot
    rcases List.mem_append.mp hx with hx | hx
    · exact h.unmarked x hx hnot
    · rw [List.mem_singleton.mp hx]
      rfl
  · intro hn
    rw [addresses, List.map_append]
    refine List.nodup_append.mpr ⟨h.nodup hn, by simp, ?_⟩
    intro x hx y hy
    obtain ⟨b', hb', rfl⟩ := List.mem_map.mp hx
    rw [List.map_singleton, List.mem_singleton] at hy
    rw [hy]
    exact hfresh b' hb'

theorem derived_step (h : Derived file bs) (hs : BackendsStep bs bs') :
    Derived file bs' := by
  cases hs with
  | setWeight i w =>
    refine derived_sameIdentity h (forall₂_modify ?_ i)
    exact fun _ => ⟨rfl, rfl, rfl⟩
  | drop i => exact derived_sublist h (List.eraseIdx_sublist ..)
  | push haddr hfresh hname => exact derived_push h haddr hfresh hname

/-! ## Sequences of primitives -/

/-- A pool of the file, and what primitives can make of it. -/
structure PoolDerived (file p : Pool) : Prop where
  same : p = { file with backends := p.backends }
  backends : Derived file.backends p.backends

/-- What a sequence of primitives can make of a valid file. -/
structure Desired (file c : Config) : Prop where
  listeners : c.listeners = file.listeners
  forward : c.forward = file.forward
  control : c.control = file.control
  rules : c.rules = file.rules
  logging : c.logging = file.logging
  tracing : c.tracing = file.tracing
  dataplane : c.dataplane = file.dataplane
  shutdown : c.shutdown = file.shutdown
  lookup : c.lookup = file.lookup
  acls : c.acls = file.acls
  orchestrator : file.orchestrator.isSome → c.orchestrator.isSome
  events : file.events.isSome → c.events.isSome
  rhai : file.rhai.isSome → c.rhai.isSome
  dataSourceLimits : file.dataSourceLimits.isSome → c.dataSourceLimits.isSome
  metrics : c.metrics = file.metrics ∨
    ((userNames (userMetricsOf file.metrics)).Nodup → MetricsGrown file.metrics c.metrics)
  pools : List.Forall₂ PoolDerived file.pools c.pools

theorem poolDerived_step {file : Pool} (h : PoolDerived file p) (hs : PoolStep p p') :
    PoolDerived file p' := by
  rcases hs with rfl | ⟨bs, rfl, hstep⟩
  · exact h
  · refine ⟨?_, derived_step h.backends hstep⟩
    rw [h.same]

theorem pools_step {file pools pools' : List Pool} (h : List.Forall₂ PoolDerived file pools)
    (hs : List.Forall₂ PoolStep pools pools') : List.Forall₂ PoolDerived file pools' := by
  induction h generalizing pools' with
  | nil =>
    cases hs
    exact .nil
  | cons hp _ ih =>
    cases hs with
    | cons hstep hs => exact .cons (poolDerived_step hp hstep) (ih hs)

theorem desired_mutated {file : Config} (h : Desired file c) (hm : Mutated c d) :
    Desired file d := by
  cases hm with
  | pools hs => exact { h with pools := pools_step h.pools hs }
  | orchestrator o => exact { h with orchestrator := fun _ => rfl }
  | dataSources l => exact { h with }
  | dataSourceLimits l => exact { h with dataSourceLimits := fun _ => rfl }
  | events e => exact { h with events := fun _ => rfl }
  | rhai r => exact { h with rhai := fun _ => rfl }
  | metrics m =>
    refine { h with metrics := .inr fun hf => ?_ }
    rcases h.metrics with heq | hgrown
    · exact MetricsGrown.patch hf (.inl heq) m
    · exact (hgrown hf).patch hf m
  | caches l => exact { h with }

/-- **What a sequence of primitives does to a valid file.** -/
theorem desired_of_reaches {file : Config} (hv : PoolsOk file.pools) (h : Reaches file c) :
    Desired file c := by
  induction h with
  | refl =>
    have hpools : List.Forall₂ PoolDerived file.pools file.pools :=
      List.forall₂_same.mpr fun p hp => ⟨rfl, derived_refl (hv.backends p hp)⟩
    constructor <;> first | exact hpools | exact .inl rfl | exact fun h => h | rfl
  | mutate primitive _ hm ih => exact desired_mutated ih (mutated hm)

end Conduit.Config
