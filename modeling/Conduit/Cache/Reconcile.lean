import Conduit.Cache.Lmdb
import Conduit.Lib.Table

/-!
# Cache instances across configuration changes

`LookupCacheRegistry::reconcile` of `lookup/cache/registry.rs`. It first opens the backends that
have to be opened, then changes the others in place, one after the other, and at last puts the
opened ones in their place. A change in place may fail; the ones before it stay.
`SnapshotStore::try_swap` then keeps the configuration that was installed, and passes it as `prev`
to the next reconcile.

A map is iterated in the order of its list here, and every list is a configuration. Log lines, the
flag for a shrink in progress, and the files of a shard layout that is replaced are left out.

- `LookupCacheRegistry.reconcile`: the registry after it, and the error if it failed.
- `cacheStore`: reconciles one after the other. The history `left` marks the instances whose
  `max_entries` a failed reconcile has changed and no later one has set.
- `reconciled_iff`: after a successful reconcile every instance has the cap and the policy of the
  new configuration, exactly if none that is left keeps its cap from `prev` to the new
  configuration.
- `reverted_cap_not_applied`: a cap is lowered by a reconcile that fails, and stays after going
  back.
-/

namespace Conduit

open Function (update update_of_ne update_self)

/-- The cache instances of a snapshot: no name is listed twice. -/
structure CacheConfigs where
  instances : List (String × CompiledCache)
  nodup : (instances.map (·.1)).Nodup

def CacheConfigs.get (c : CacheConfigs) (name : String) : Option CompiledCache :=
  c.instances.lookup name

structure CacheInstanceRuntime where
  config : CompiledCache
  backend : CacheBackend

namespace CacheInstanceRuntime

def applyMaxEntries (io : CacheIo) (inst : CacheInstanceRuntime) (maxEntries : Nat) :
    CacheInstanceRuntime where
  config := { inst.config with maxEntries := maxEntries }
  backend := inst.backend.setMaxEntries io maxEntries

end CacheInstanceRuntime

structure LookupCacheRegistry where
  instances : String → Option CacheInstanceRuntime

/-- The live cap of an instance. -/
def LookupCacheRegistry.maxEntries (r : LookupCacheRegistry) (name : String) : Option Nat :=
  (r.instances name).map (·.backend.maxEntries)

/-- The loop of `from_snapshot`; an instance that cannot be opened ends the process. -/
def openAll (io : String → CacheIo) :
    List (String × CompiledCache) → Except String LookupCacheRegistry
  | [] => .ok ⟨fun _ => none⟩
  | (name, cfg) :: rest => do
    let b ← CacheBackend.fromConfig (io name) cfg
    let r ← openAll io rest
    return ⟨update r.instances name (some ⟨cfg, b⟩)⟩

/-! ## Phase 1: opens -/

def typeOrPathChange (cur cfg : CompiledCache) : Bool :=
  cur.backendType != cfg.backendType || lmdbPath cur != lmdbPath cfg

def lmdbExplicitShardReopenNeeded (new : CompiledCache) (live : CacheBackend) : Bool :=
  match new.lmdb.bind (·.shardCount), live.asLmdb with
  | some explicit, some l =>
    if l.layoutIsLegacy then clampShards explicit != 1 else clampShards explicit != l.shardCount
  | _, _ => false

/-- The open of one instance, if it has to be opened. -/
def preflight (io : CacheIo) (name : String) (cfg : CompiledCache) :
    Option CacheInstanceRuntime → Except String (Option CacheBackend)
  | none =>
    ((CacheBackend.fromConfig io cfg).mapError fun e =>
      s!"cache '{name}': failed to open new backend: {e}").map some
  | some inst =>
    if typeOrPathChange inst.config cfg then
      ((CacheBackend.fromConfig io cfg).mapError fun e =>
        s!"cache '{name}': failed to open replacement backend: {e}").map some
    else if lmdbExplicitShardReopenNeeded cfg inst.backend then
      -- The staging directory is empty.
      ((LmdbCacheBackend.openConfig { io with onDisk := .empty } cfg).mapError fun e =>
        s!"cache '{name}': failed to open replacement shard layout: {e}").map (some ∘ .lmdb)
    else .ok none

/-- The loop of phase 1: the pending opens. -/
def preflightAll (io : String → CacheIo) (r : LookupCacheRegistry) :
    List (String × CompiledCache) → Except String (String → Option CacheBackend)
  | [] => .ok fun _ => none
  | (name, cfg) :: rest => do
    let b ← preflight (io name) name cfg (r.instances name)
    let pending ← preflightAll io r rest
    return update pending name b

/-! ## Phase 2: changes in place -/

/-- The cap is applied if it differs from the one that was installed. -/
def applyCap (io : CacheIo) (prev : Option CompiledCache) (cfg : CompiledCache)
    (inst : CacheInstanceRuntime) : CacheInstanceRuntime :=
  if prev.map (·.maxEntries) ≠ some cfg.maxEntries then inst.applyMaxEntries io cfg.maxEntries
  else inst

/-- The settings of an LMDB backend are applied: the instance after it, and the error if it fails.
-/
def applySettings (io : CacheIo) (name : String) (cfg : CompiledCache)
    (inst : CacheInstanceRuntime) : CacheInstanceRuntime × Option String :=
  match inst.backend, cfg.lmdb with
  | .lmdb l, some new =>
    let l := l.applyPolicy new.whenFull new.sampleSize
    match l.applySyncConfig io new.sync new.syncInterval with
    | .error e =>
      ({ inst with backend := .lmdb l },
        some s!"cache '{name}': LMDB sync mode Hot apply failed: {e}")
    | .ok l =>
      match l.applyMapSize io new.mapSizeBytes with
      | .error e => ({ inst with backend := .lmdb l }, some s!"cache '{name}': {e}")
      | .ok l => (⟨cfg, .lmdb l⟩, none)
  | _, _ => ({ inst with config := cfg }, none)

/-- The change of one instance in place. -/
def hotApply (io : CacheIo) (name : String) (prev : Option CompiledCache) (cfg : CompiledCache)
    (inst : CacheInstanceRuntime) : CacheInstanceRuntime × Option String :=
  applySettings io name cfg (applyCap io prev cfg inst)

/-- The loop of phase 2 over the instances that are not opened. -/
def hotLoop (io : String → CacheIo) (prev : CacheConfigs) (pending : String → Option CacheBackend) :
    List (String × CompiledCache) → LookupCacheRegistry → LookupCacheRegistry × Option String
  | [], r => (r, none)
  | (name, cfg) :: rest, r =>
    match pending name, r.instances name with
    | none, some inst =>
      match hotApply (io name) name (prev.get name) cfg inst with
      | (inst', some e) => (⟨update r.instances name (some inst')⟩, some e)
      | (inst', none) =>
        hotLoop io prev pending rest ⟨update r.instances name (some inst')⟩
    | _, _ => hotLoop io prev pending rest r

/-- The last two loops: the opened backends are put in their place, and the names that are not in
the new configuration are dropped. -/
def commit (new : CacheConfigs) (pending : String → Option CacheBackend) (r : LookupCacheRegistry) :
    LookupCacheRegistry where
  instances name :=
    match new.get name, pending name with
    | none, _ => none
    | some cfg, some b => some ⟨cfg, b⟩
    | some _, none => r.instances name

namespace LookupCacheRegistry

def reconcile (io : String → CacheIo) (r : LookupCacheRegistry) (prev new : CacheConfigs) :
    LookupCacheRegistry × Option String :=
  match preflightAll io r new.instances with
  | .error e => (r, some e)
  | .ok pending =>
    match hotLoop io prev pending new.instances r with
    | (r, some e) => (r, some e)
    | (r, none) => (commit new pending r, none)

end LookupCacheRegistry

/-! ## What the phases do -/

/-- A backend has the cap of a configuration, and if it is an LMDB backend, the policy. -/
structure CacheBackend.Matches (cfg : CompiledCache) (b : CacheBackend) : Prop where
  cap : b.maxEntries = cfg.maxEntries
  policy : ∀ l, b = .lmdb l → ∃ c, cfg.lmdb = some c ∧ l.policy = c.policy

variable {io : CacheIo} {cfg : CompiledCache}

theorem matches_lmdb {l : LmdbCacheBackend} (h : LmdbCacheBackend.openConfig io cfg = .ok l) :
    (CacheBackend.lmdb l).Matches cfg := by
  obtain ⟨hmax, c, hc, hpolicy⟩ := LmdbCacheBackend.openConfig_spec h
  refine ⟨hmax, fun l' hl' => ⟨c, hc, ?_⟩⟩
  cases hl'
  exact hpolicy

variable {b : CacheBackend}

theorem fromConfig_matches (h : CacheBackend.fromConfig io cfg = .ok b) : b.Matches cfg := by
  unfold CacheBackend.fromConfig at h
  split at h
  · cases h
    refine ⟨rfl, fun l hl => ?_⟩
    cases hl
  · obtain ⟨l, hl, rfl⟩ := Keyed.map_eq_ok_iff.mp h
    exact matches_lmdb hl

def needsOpen (cfg : CompiledCache) : Option CacheInstanceRuntime → Bool
  | none => true
  | some inst =>
    typeOrPathChange inst.config cfg || lmdbExplicitShardReopenNeeded cfg inst.backend

theorem mapError_map_eq_ok {α β : Type} {f : String → String} {g : α → β} {x : Except String α}
    {y : β} (h : (x.mapError f).map g = .ok y) : ∃ a, x = .ok a ∧ g a = y := by
  cases x with
  | error e => cases h
  | ok a =>
    cases h
    exact ⟨a, rfl, rfl⟩

variable {name : String}

theorem preflight_spec {inst : Option CacheInstanceRuntime} {p : Option CacheBackend}
    (h : preflight io name cfg inst = .ok p) :
    (needsOpen cfg inst = true ∧ ∃ b, p = some b ∧ b.Matches cfg) ∨
      (needsOpen cfg inst = false ∧ p = none) := by
  cases inst with
  | none =>
    obtain ⟨b, hb, rfl⟩ := mapError_map_eq_ok h
    exact .inl ⟨rfl, b, rfl, fromConfig_matches hb⟩
  | some inst =>
    simp only [preflight] at h
    split at h
    · rename_i hchange
      obtain ⟨b, hb, rfl⟩ := mapError_map_eq_ok h
      exact .inl ⟨by simp [needsOpen, hchange], b, rfl, fromConfig_matches hb⟩
    split at h
    · rename_i hshards
      obtain ⟨l, hl, rfl⟩ := mapError_map_eq_ok h
      exact .inl ⟨by simp [needsOpen, hshards], _, rfl, matches_lmdb hl⟩
    · rename_i hchange hshards
      cases h
      exact .inr ⟨by simp [needsOpen, hchange, hshards], rfl⟩

variable {r : LookupCacheRegistry} {pending : String → Option CacheBackend}
  {l : List (String × CompiledCache)}

theorem preflightAll_spec {io : String → CacheIo} (hnodup : (l.map (·.1)).Nodup)
    (h : preflightAll io r l = .ok pending) :
    ∀ name cfg, (name, cfg) ∈ l →
      preflight (io name) name cfg (r.instances name) = .ok (pending name) := by
  induction l generalizing pending with
  | nil =>
    intro name cfg hmem
    cases hmem
  | cons x rest ih =>
    obtain ⟨n, c⟩ := x
    obtain ⟨hnot, hrest⟩ := List.nodup_cons.mp hnodup
    obtain ⟨b, hb, h⟩ := Keyed.bind_eq_ok.mp h
    obtain ⟨pending', hpending, h⟩ := Keyed.bind_eq_ok.mp h
    cases h
    intro name cfg hmem
    rcases List.mem_cons.mp hmem with heq | hmem
    · cases heq
      rw [update_self]
      exact hb
    · have hne : name ≠ n := fun heq => hnot (heq ▸ List.mem_map.mpr ⟨_, hmem, rfl⟩)
      rw [update_of_ne hne]
      exact ih hrest hpending name cfg hmem

/-- An LMDB backend comes with an LMDB configuration. -/
def CacheInstanceRuntime.Typed (inst : CacheInstanceRuntime) : Prop :=
  ∀ l, inst.backend = .lmdb l → inst.config.lmdb.isSome

theorem CacheBackend.Matches.typed (h : b.Matches cfg) :
    CacheInstanceRuntime.Typed ⟨cfg, b⟩ := by
  intro l hl
  obtain ⟨c, hc, -⟩ := h.policy l hl
  simp [hc]

theorem setMaxEntries_maxEntries (io : CacheIo) (b : CacheBackend) (maxEntries : Nat) :
    (b.setMaxEntries io maxEntries).maxEntries = maxEntries := by
  cases b with
  | memory m =>
    change (m.setMaxEntries io.order io.now maxEntries).maxEntries = maxEntries
    unfold MemoryCacheBackend.setMaxEntries
    dsimp only
    split
    · exact (MemoryCacheBackend.trim_sheds _).maxEntries
    · rfl
  | lmdb l => rfl

theorem applyCap_maxEntries (io : CacheIo) (prev : Option CompiledCache) (cfg : CompiledCache)
    (inst : CacheInstanceRuntime) :
    (applyCap io prev cfg inst).backend.maxEntries =
      if prev.map (·.maxEntries) = some cfg.maxEntries then inst.backend.maxEntries
      else cfg.maxEntries := by
  unfold applyCap
  by_cases h : prev.map (·.maxEntries) = some cfg.maxEntries
  · simp [h]
  · simp only [h, ne_eq, not_false_eq_true, if_true, if_false]
    exact setMaxEntries_maxEntries _ _ _

variable {inst : CacheInstanceRuntime}

theorem applyCap_typed (io : CacheIo) (prev : Option CompiledCache) (cfg : CompiledCache)
    (h : inst.Typed) :
    (applyCap io prev cfg inst).Typed ∧
      lmdbPath (applyCap io prev cfg inst).config = lmdbPath inst.config := by
  unfold applyCap
  split
  · refine ⟨fun l hl => ?_, rfl⟩
    cases hb : inst.backend with
    | memory m =>
      simp only [CacheInstanceRuntime.applyMaxEntries, hb, CacheBackend.setMaxEntries] at hl
      cases hl
    | lmdb l => exact h l hb
  · exact ⟨h, rfl⟩

/-- The settings leave the cap alone; if they succeed, the policy is the one of the configuration.
-/
theorem applySettings_spec (io : CacheIo) (name : String) (htyped : inst.Typed)
    (hpath : lmdbPath inst.config = lmdbPath cfg) :
    (applySettings io name cfg inst).1.backend.maxEntries = inst.backend.maxEntries ∧
    (applySettings io name cfg inst).1.Typed ∧
    ((applySettings io name cfg inst).2 = none →
      ∀ l, (applySettings io name cfg inst).1.backend = .lmdb l →
        ∃ c, cfg.lmdb = some c ∧ l.policy = c.policy) := by
  unfold applySettings
  split
  · rename_i l new hb hnew
    have hconfig := htyped l hb
    dsimp only
    split
    · rw [hb]
      refine ⟨rfl, fun _ _ => hconfig, fun h => ?_⟩
      cases h
    · rename_i l₁ hsync
      obtain ⟨hmax₁, hpolicy₁⟩ := LmdbCacheBackend.applySyncConfig_spec hsync
      split
      · rw [hb]
        refine ⟨hmax₁, fun _ _ => hconfig, fun h => ?_⟩
        cases h
      · rename_i l₂ hmap
        obtain ⟨hmax₂, hpolicy₂⟩ := LmdbCacheBackend.applyMapSize_spec hmap
        rw [hb]
        refine ⟨hmax₂.trans hmax₁, fun _ _ => by simp [hnew], fun _ l hl => ⟨new, hnew, ?_⟩⟩
        cases hl
        rw [hpolicy₂, hpolicy₁]
        rfl
  · -- With an LMDB backend the configuration has LMDB settings too: the path is the same.
    rename_i hother
    have hmemory : ∀ l, inst.backend ≠ .lmdb l := by
      intro l hl
      obtain ⟨c, hc⟩ := Option.isSome_iff_exists.mp (htyped l hl)
      rw [lmdbPath, hc] at hpath
      obtain ⟨c', hc', -⟩ := Option.map_eq_some_iff.mp hpath.symm
      exact hother l c' hl hc'
    exact ⟨rfl, fun l hl => absurd hl (hmemory l), fun _ l hl => absurd hl (hmemory l)⟩

/-- An instance that is changed in place: its cap is set if it differs from the installed one. -/
theorem hotApply_spec (io : CacheIo) (name : String) (prev : Option CompiledCache)
    (htyped : inst.Typed) (hkept : needsOpen cfg (some inst) = false) :
    (hotApply io name prev cfg inst).1.backend.maxEntries =
      (if prev.map (·.maxEntries) = some cfg.maxEntries then inst.backend.maxEntries
        else cfg.maxEntries) ∧
    (hotApply io name prev cfg inst).1.Typed ∧
    ((hotApply io name prev cfg inst).2 = none →
      ∀ l, (hotApply io name prev cfg inst).1.backend = .lmdb l →
        ∃ c, cfg.lmdb = some c ∧ l.policy = c.policy) := by
  obtain ⟨htyped', hpath'⟩ := applyCap_typed io prev cfg htyped
  have hpath : lmdbPath inst.config = lmdbPath cfg := by
    simp only [needsOpen, typeOrPathChange, Bool.or_eq_false_iff, bne_eq_false_iff_eq] at hkept
    exact hkept.1.2
  obtain ⟨hcap, hsettings⟩ := applySettings_spec io name htyped' (hpath'.trans hpath)
  exact ⟨hcap.trans (applyCap_maxEntries io prev cfg inst), hsettings⟩

/-- What the loop of phase 2 does to an instance: nothing, or a change in place. If the loop comes
to its end, no change failed and none was left out. -/
def HotOutcome (io : String → CacheIo) (prev : CacheConfigs)
    (pending : String → Option CacheBackend) (l : List (String × CompiledCache))
    (r : LookupCacheRegistry) (x : LookupCacheRegistry × Option String) (name : String) : Prop :=
  (x.1.instances name = r.instances name ∧
    (x.2 = none → ∀ cfg, (name, cfg) ∈ l → pending name = none → r.instances name = none)) ∨
  ∃ cfg inst, (name, cfg) ∈ l ∧ pending name = none ∧ r.instances name = some inst ∧
    x.1.instances name = some (hotApply (io name) name (prev.get name) cfg inst).1 ∧
    (x.2 = none → (hotApply (io name) name (prev.get name) cfg inst).2 = none)

theorem hotLoop_spec {io : String → CacheIo} {prev : CacheConfigs} (hnodup : (l.map (·.1)).Nodup)
    (r : LookupCacheRegistry) (name : String) :
    HotOutcome io prev pending l r (hotLoop io prev pending l r) name := by
  induction l generalizing r with
  | nil => exact .inl ⟨rfl, fun _ _ hmem => by cases hmem⟩
  | cons x rest ih =>
    obtain ⟨n, c⟩ := x
    obtain ⟨hnot, hrest⟩ := List.nodup_cons.mp hnodup
    have hnot' : ∀ cfg, (n, cfg) ∉ rest := fun cfg hmem =>
      hnot (List.mem_map.mpr ⟨_, hmem, rfl⟩)
    unfold hotLoop
    split
    · rename_i inst hpending hinst
      split
      · -- the change fails
        rename_i inst' e happly
        by_cases hname : name = n
        · subst hname
          refine .inr ⟨c, inst, List.mem_cons_self, hpending, hinst, ?_, fun h => by cases h⟩
          rw [happly]
          exact update_self ..
        · exact .inl ⟨update_of_ne hname .., fun h => by cases h⟩
      · rename_i inst' happly
        have hloop := ih hrest ⟨update r.instances n (some inst')⟩
        by_cases hname : name = n
        · -- this instance; the rest of the loop leaves it alone
          subst hname
          rcases hloop with ⟨hsame, -⟩ | ⟨cfg, -, hmem, -⟩
          · refine .inr ⟨c, inst, List.mem_cons_self, hpending, hinst, ?_, fun _ => by rw [happly]⟩
            rw [happly, hsame]
            exact update_self ..
          · exact absurd hmem (hnot' cfg)
        · have hother : update r.instances n (some inst') name = r.instances name :=
            update_of_ne hname ..
          rcases hloop with ⟨hsame, hnone⟩ | ⟨cfg, inst₁, hmem, hpending₁, hinst₁, happlied⟩
          · refine .inl ⟨hsame.trans hother, fun h cfg hmem hp => ?_⟩
            rcases List.mem_cons.mp hmem with heq | hmem
            · cases heq
              exact absurd rfl hname
            · exact hother ▸ hnone h cfg hmem hp
          · exact .inr ⟨cfg, inst₁, List.mem_cons_of_mem _ hmem, hpending₁, hother ▸ hinst₁,
              happlied⟩
    · rename_i hskip
      rcases ih hrest r with ⟨hsame, hnone⟩ | ⟨cfg, inst, hmem, happlied⟩
      · refine .inl ⟨hsame, fun h cfg hmem hp => ?_⟩
        rcases List.mem_cons.mp hmem with heq | hmem
        · cases heq
          cases hinst : r.instances name with
          | none => rfl
          | some inst => exact absurd hinst (hskip inst hp)
        · exact hnone h cfg hmem hp
      · exact .inr ⟨cfg, inst, List.mem_cons_of_mem _ hmem, happlied⟩

namespace LookupCacheRegistry

variable {io : String → CacheIo} {r : LookupCacheRegistry} {prev new : CacheConfigs}

/-- The instance under `name` is changed in place to `inst'`; `err` is the error. -/
def Changed (io : String → CacheIo) (r : LookupCacheRegistry) (prev : CacheConfigs) (name : String)
    (cfg : CompiledCache) (inst' : CacheInstanceRuntime) (err : Option String) : Prop :=
  ∃ inst, r.instances name = some inst ∧ needsOpen cfg (some inst) = false ∧
    hotApply (io name) name (prev.get name) cfg inst = (inst', err)

theorem Changed.of_hotApply {pending : String → Option CacheBackend} {name : String}
    {cfg : CompiledCache} {inst : CacheInstanceRuntime}
    (hpre : preflightAll io r new.instances = .ok pending) (hmem : (name, cfg) ∈ new.instances)
    (hpending : pending name = none) (hinst : r.instances name = some inst) :
    Changed io r prev name cfg (hotApply (io name) name (prev.get name) cfg inst).1
      (hotApply (io name) name (prev.get name) cfg inst).2 := by
  have hopen := preflight_spec (preflightAll_spec new.nodup hpre name cfg hmem)
  rw [hpending, hinst] at hopen
  rcases hopen with ⟨-, b, hb, -⟩ | ⟨hkept, -⟩
  · cases hb
  · exact ⟨inst, hinst, hkept, rfl⟩

/-- A reconcile that fails leaves an instance as it was, or has changed it in place. -/
theorem reconcile_failed {e : String} (h : (r.reconcile io prev new).2 = some e) (name : String) :
    (r.reconcile io prev new).1.instances name = r.instances name ∨
      ∃ cfg inst' err, new.get name = some cfg ∧ Changed io r prev name cfg inst' err ∧
        (r.reconcile io prev new).1.instances name = some inst' := by
  unfold reconcile at h ⊢
  cases hpre : preflightAll io r new.instances with
  | error e => exact .inl rfl
  | ok pending =>
    have hloop : HotOutcome io prev pending new.instances r _ name := hotLoop_spec new.nodup r name
    simp only [hpre] at h ⊢
    cases hres : hotLoop io prev pending new.instances r with
    | mk r' err =>
      rw [hres] at hloop h
      cases err with
      | none => cases h
      | some e' =>
        rcases hloop with ⟨hsame, -⟩ | ⟨cfg, inst, hmem, hpending, hinst, happly, -⟩
        · exact .inl hsame
        · exact .inr ⟨cfg, _, _, (Table.lookup_iff_mem new.nodup).mpr hmem,
            .of_hotApply hpre hmem hpending hinst, happly⟩

/-- A reconcile that succeeds: an instance is gone, or opened with its new configuration, or changed
in place. -/
theorem reconcile_ok (h : (r.reconcile io prev new).2 = none) (name : String) :
    (new.get name = none ∧ (r.reconcile io prev new).1.instances name = none) ∨
    (∃ cfg b, new.get name = some cfg ∧ needsOpen cfg (r.instances name) = true ∧ b.Matches cfg ∧
      (r.reconcile io prev new).1.instances name = some ⟨cfg, b⟩) ∨
    ∃ cfg inst', new.get name = some cfg ∧ Changed io r prev name cfg inst' none ∧
      (r.reconcile io prev new).1.instances name = some inst' := by
  unfold reconcile at h ⊢
  cases hpre : preflightAll io r new.instances with
  | error e =>
    rw [hpre] at h
    cases h
  | ok pending =>
    have hloop : HotOutcome io prev pending new.instances r _ name := hotLoop_spec new.nodup r name
    simp only [hpre] at h ⊢
    cases hres : hotLoop io prev pending new.instances r with
    | mk r' err =>
      rw [hres] at hloop h
      cases err with
      | some e => cases h
      | none =>
        simp only [commit]
        cases hget : new.get name with
        | none => exact .inl ⟨rfl, rfl⟩
        | some cfg =>
          have hmem := (Table.lookup_iff_mem new.nodup).mp hget
          have hopen := preflight_spec (preflightAll_spec new.nodup hpre name cfg hmem)
          rcases hopen with ⟨hneeds, b, hb, hmatches⟩ | ⟨hkept, hnone⟩
          · rw [hb]
            exact .inr (.inl ⟨cfg, b, rfl, hneeds, hmatches, rfl⟩)
          · rw [hnone]
            refine .inr (.inr ⟨cfg, ?_⟩)
            rcases hloop with ⟨-, hskip⟩ | ⟨cfg', inst, hmem', hpending, hinst, happly, hok⟩
            · -- an instance that is missing is opened
              rw [hskip rfl cfg hmem hnone] at hkept
              cases hkept
            · have hcfg : cfg' = cfg := by
                have hget' := (Table.lookup_iff_mem new.nodup).mpr hmem'
                exact Option.some.inj (hget'.symm.trans hget)
              subst hcfg
              have hchanged : Changed io r prev name cfg' _ _ :=
                .of_hotApply hpre hmem hpending hinst
              rw [hok rfl] at hchanged
              exact ⟨_, rfl, hchanged, happly⟩

end LookupCacheRegistry

/-! ## Reconciles one after the other -/

/-- The registry, and the configuration that is installed. -/
structure CacheStore where
  registry : LookupCacheRegistry
  installed : CacheConfigs
  /-- History: a failed reconcile has changed the cap of the instance, and no later one has set it.
  -/
  left : String → Bool := fun _ => false

namespace CacheStore

/-- The new configuration keeps an instance that is left: its backend is not opened, and its cap is
the installed one. -/
def stale (s : CacheStore) (new : CacheConfigs) (name : String) : Bool :=
  s.left name && (new.get name).any fun cfg =>
    !needsOpen cfg (s.registry.instances name) &&
      (s.installed.get name).map (·.maxEntries) == some cfg.maxEntries

/-- `try_swap`: the new configuration is installed if the reconcile succeeds. -/
def trySwap (s : CacheStore) (io : String → CacheIo) (new : CacheConfigs) : CacheStore :=
  let x := s.registry.reconcile io s.installed new
  match x.2 with
  | none => ⟨x.1, new, s.stale new⟩
  | some _ =>
    ⟨x.1, s.installed, fun name =>
      s.left name || x.1.maxEntries name != s.registry.maxEntries name⟩

end CacheStore

structure SwapAct where
  io : String → CacheIo
  new : CacheConfigs

/-- Any sequence of swaps, with any answers of the outside, from any first configuration. -/
def cacheStore : Lts where
  St := CacheStore
  Act := SwapAct
  init s := ∃ io, openAll io s.installed.instances = .ok s.registry ∧ s.left = fun _ => false
  step s a := some (s.trySwap a.io a.new)

namespace CacheStore

/-- What every reconcile keeps: the instances are the installed ones, and those that are left are
the ones with another cap than the installed one. -/
structure Inv (s : CacheStore) : Prop where
  typed : ∀ name inst, s.registry.instances name = some inst → inst.Typed
  installed : ∀ name inst, s.registry.instances name = some inst →
    ∃ cfg, s.installed.get name = some cfg ∧
      (s.left name = true ↔ inst.backend.maxEntries ≠ cfg.maxEntries)

variable {name : String} {s : CacheStore} {cfg : CompiledCache} {err : Option String}
  {io : String → CacheIo} {inst' : CacheInstanceRuntime}

theorem changed_maxEntries (hs : s.Inv) (h : s.registry.Changed io s.installed name cfg inst' err) :
    ∃ old cfg₀, s.registry.maxEntries name = some old ∧ s.installed.get name = some cfg₀ ∧
      (s.left name = true ↔ old ≠ cfg₀.maxEntries) ∧
      inst'.backend.maxEntries =
        if cfg₀.maxEntries = cfg.maxEntries then old else cfg.maxEntries := by
  obtain ⟨inst, hinst, hkept, happly⟩ := h
  obtain ⟨cfg₀, hcfg₀, hleft⟩ := hs.installed name inst hinst
  obtain ⟨hcap, -⟩ := hotApply_spec (io name) name (s.installed.get name)
    (hs.typed name inst hinst) hkept
  rw [happly, hcfg₀] at hcap
  refine ⟨inst.backend.maxEntries, cfg₀, ?_, hcfg₀, hleft, ?_⟩
  · simp [LookupCacheRegistry.maxEntries, hinst]
  · simpa using hcap

theorem changed_typed (hs : s.Inv) (h : s.registry.Changed io s.installed name cfg inst' err) :
    inst'.Typed ∧
      (err = none → ∀ l, inst'.backend = .lmdb l → ∃ c, cfg.lmdb = some c ∧ l.policy = c.policy) := by
  obtain ⟨inst, hinst, hkept, happly⟩ := h
  obtain ⟨-, hrest⟩ := hotApply_spec (io name) name (s.installed.get name)
    (hs.typed name inst hinst) hkept
  rw [happly] at hrest
  exact hrest

variable {new : CacheConfigs}

theorem inv_failed {e : String} (hs : s.Inv)
    (h : (s.registry.reconcile io s.installed new).2 = some e) :
    (s.trySwap io new).Inv := by
  simp only [trySwap, h]
  constructor
  · intro name inst' hinst'
    rcases LookupCacheRegistry.reconcile_failed h name with hsame | ⟨cfg, _, err, -, hchanged, hr⟩
    · exact hs.typed name inst' (hsame ▸ hinst')
    · cases hr.symm.trans hinst'
      exact (changed_typed hs hchanged).1
  · intro name inst' hinst'
    have hlive : (s.registry.reconcile io s.installed new).1.maxEntries name =
        some inst'.backend.maxEntries := by
      simp only at hinst'
      simp [LookupCacheRegistry.maxEntries, hinst']
    simp only [hlive]
    rcases LookupCacheRegistry.reconcile_failed h name with hsame | ⟨cfg, _, err, -, hchanged, hr⟩
    · have hinst : s.registry.instances name = some inst' := hsame ▸ hinst'
      obtain ⟨cfg, hcfg, hleft⟩ := hs.installed name inst' hinst
      refine ⟨cfg, hcfg, ?_⟩
      simp [LookupCacheRegistry.maxEntries, hinst, hleft]
    · cases hr.symm.trans hinst'
      obtain ⟨old, cfg₀, hold, hcfg₀, hleft, hcap⟩ := changed_maxEntries hs hchanged
      refine ⟨cfg₀, hcfg₀, ?_⟩
      rw [hold, hcap]
      by_cases hsame : cfg₀.maxEntries = cfg.maxEntries
      · simp [hsame, hleft]
      · by_cases hold' : cfg.maxEntries = old
        · simp [hleft, hold']
        · simp [hsame, hold', Ne.symm hsame]

theorem inv_ok (hs : s.Inv) (h : (s.registry.reconcile io s.installed new).2 = none) :
    (s.trySwap io new).Inv := by
  simp only [trySwap, h]
  constructor
  · intro name inst' hinst'
    rcases LookupCacheRegistry.reconcile_ok h name with
      ⟨-, hr⟩ | ⟨cfg, b, -, -, hmatches, hr⟩ | ⟨cfg, _, -, hchanged, hr⟩
    · cases hr.symm.trans hinst'
    · cases hr.symm.trans hinst'
      exact hmatches.typed
    · cases hr.symm.trans hinst'
      exact (changed_typed hs hchanged).1
  · intro name inst' hinst'
    rcases LookupCacheRegistry.reconcile_ok h name with
      ⟨-, hr⟩ | ⟨cfg, b, hget, hopen, hmatches, hr⟩ | ⟨cfg, _, hget, hchanged, hr⟩
    · cases hr.symm.trans hinst'
    · cases hr.symm.trans hinst'
      refine ⟨cfg, hget, ?_⟩
      simp [stale, hget, hopen, hmatches.cap]
    · cases hr.symm.trans hinst'
      refine ⟨cfg, hget, ?_⟩
      obtain ⟨old, cfg₀, hold, hcfg₀, hleft, hcap⟩ := changed_maxEntries hs hchanged
      obtain ⟨inst, hinst, hkept, -⟩ := hchanged
      rw [hcap]
      simp only [stale, hget, hinst, hcfg₀]
      by_cases hsame : cfg₀.maxEntries = cfg.maxEntries
      · simp [hsame, hleft, hkept]
      · simp [hsame]

theorem inv_trySwap (hs : s.Inv) (io : String → CacheIo) (new : CacheConfigs) :
    (s.trySwap io new).Inv := by
  cases h : (s.registry.reconcile io s.installed new).2 with
  | none => exact inv_ok hs h
  | some e => exact inv_failed hs h

end CacheStore

theorem openAll_spec {io : String → CacheIo} (h : openAll io l = .ok r)
    (hinst : r.instances name = some inst) :
    l.lookup name = some inst.config ∧ inst.backend.Matches inst.config := by
  induction l generalizing r with
  | nil =>
    cases h
    cases hinst
  | cons x rest ih =>
    obtain ⟨n, c⟩ := x
    obtain ⟨b, hb, h⟩ := Keyed.bind_eq_ok.mp h
    obtain ⟨r', hr', h⟩ := Keyed.bind_eq_ok.mp h
    cases h
    by_cases hname : name = n
    · subst hname
      cases (update_self ..).symm.trans hinst
      exact ⟨by simp, fromConfig_matches hb⟩
    · obtain ⟨hlookup, hmatches⟩ := ih hr' ((update_of_ne hname ..).symm.trans hinst)
      have hbeq : (name == n) = false := by simpa using hname
      exact ⟨by simpa [List.lookup_cons, hbeq] using hlookup, hmatches⟩

theorem cacheStore_inv {s : CacheStore} (h : cacheStore.Reach Lts.Any s) : s.Inv := by
  refine Lts.Reach.inv (P := fun s : cacheStore.St => s.Inv) ?_ ?_ h
  · rintro s ⟨io, hopen, hleft⟩
    constructor
    · intro name inst hinst
      exact (openAll_spec hopen hinst).2.typed
    · intro name inst hinst
      obtain ⟨hlookup, hmatches⟩ := openAll_spec hopen hinst
      exact ⟨inst.config, hlookup, by simp [hleft, hmatches.cap]⟩
  · intro s a s' _ hs _ hstep
    cases hstep
    exact CacheStore.inv_trySwap hs a.io a.new

/-- Every instance of the configuration is there, with its cap and its policy. -/
def LookupCacheRegistry.Reconciled (r : LookupCacheRegistry) (new : CacheConfigs) : Prop :=
  ∀ name cfg, new.get name = some cfg →
    ∃ inst, r.instances name = some inst ∧ inst.backend.Matches cfg

open LookupCacheRegistry in
/-- Whatever reconciles came before, failed or not: after a successful one the instances have the
caps and policies of the new configuration, if and only if it keeps no instance whose cap a failed
reconcile has left changed. -/
theorem reconciled_iff {s : CacheStore} (h : cacheStore.Reach Lts.Any s) (io : String → CacheIo)
    (new : CacheConfigs) (hok : (s.registry.reconcile io s.installed new).2 = none) :
    (s.registry.reconcile io s.installed new).1.Reconciled new ↔
      ∀ name, s.stale new name = false := by
  have hs := cacheStore_inv h
  have hs' := CacheStore.inv_ok hs hok
  simp only [CacheStore.trySwap, hok] at hs'
  -- After the reconcile the instances that are left are those without the new cap.
  have hcap : ∀ name cfg inst, new.get name = some cfg →
      (s.registry.reconcile io s.installed new).1.instances name = some inst →
      (s.stale new name = true ↔ inst.backend.maxEntries ≠ cfg.maxEntries) := by
    intro name cfg inst hget hinst
    obtain ⟨cfg', hcfg', hleft⟩ := hs'.installed name inst hinst
    cases hget.symm.trans hcfg'
    exact hleft
  constructor
  · intro hreconciled name
    by_contra hstale
    have hstale : s.stale new name = true := by simpa using hstale
    obtain ⟨cfg, hget⟩ : ∃ cfg, new.get name = some cfg := by
      simp only [CacheStore.stale, Bool.and_eq_true] at hstale
      exact Option.isSome_iff_exists.mp (Option.isSome_of_any hstale.2)
    obtain ⟨inst, hinst, hmatches⟩ := hreconciled name cfg hget
    exact (hcap name cfg inst hget hinst).mp hstale hmatches.cap
  · intro hfresh name cfg hget
    rcases reconcile_ok hok name with
      ⟨hnone, -⟩ | ⟨cfg', b, hget', -, hmatches, hr⟩ | ⟨cfg', inst, hget', hchanged, hr⟩
    · cases hget.symm.trans hnone
    · cases hget.symm.trans hget'
      exact ⟨_, hr, hmatches⟩
    · cases hget.symm.trans hget'
      refine ⟨inst, hr, ?_, (CacheStore.changed_typed hs hchanged).2 rfl⟩
      by_contra hne
      have hstale := (hcap name cfg inst hget hr).mpr hne
      rw [hfresh name] at hstale
      cases hstale

def sampleCaches (cap mapSize : Nat) : CacheConfigs where
  instances :=
    [("main", { name := "main", backendType := .memory, maxEntries := cap }),
      ("disk", {
        name := "disk"
        backendType := .lmdb
        lmdb := some { path := "/var/cache/conduit", mapSizeBytes := mapSize }
        maxEntries := 0 })]
  nodup := by simp

def sampleInstalled : CacheStore where
  registry := ((openAll (fun _ => {}) (sampleCaches 100 8192).instances).toOption).getD
    ⟨fun _ => none⟩
  installed := sampleCaches 100 8192

/-- A reconcile to a cap of 50 that fails on the map size. -/
def sampleFail : SwapAct := ⟨fun _ => { resizeError := some "disk full" }, sampleCaches 50 16384⟩

def sampleFailed : CacheStore := sampleInstalled.trySwap sampleFail.io sampleFail.new

theorem sampleFailed_reach : cacheStore.Reach Lts.Any sampleFailed :=
  .step (L := cacheStore) (s := sampleInstalled) (a := sampleFail)
    (.init ⟨fun _ => {}, rfl, rfl⟩) trivial rfl

/-- The next reconcile sets another cap, and everything is as configured. -/
theorem reconciled_iff_sample :
    (sampleFailed.registry.reconcile (fun _ => {}) sampleFailed.installed
      (sampleCaches 60 16384)).1.Reconciled (sampleCaches 60 16384) := by
  refine (reconciled_iff sampleFailed_reach (fun _ => {}) (sampleCaches 60 16384) (by decide)).mpr ?_
  intro name
  by_cases hmain : name = "main"
  · subst hmain
    decide
  · by_cases hdisk : name = "disk"
    · subst hdisk
      decide
    · have hget : (sampleCaches 60 16384).get name = none := by
        have hmain : (name == "main") = false := by simpa using hmain
        have hdisk : (name == "disk") = false := by simpa using hdisk
        simp [CacheConfigs.get, sampleCaches, List.lookup_cons, hmain, hdisk]
      simp [CacheStore.stale, hget]

/-- The next reconcile goes back to the installed configuration. It succeeds, and the cap is not 100
but 50. -/
theorem reverted_cap_not_applied :
    ∃ s, cacheStore.Reach Lts.Any s ∧
      (s.registry.reconcile (fun _ => {}) s.installed (sampleCaches 100 8192)).2 = none ∧
      ((sampleCaches 100 8192).get "main").map (·.maxEntries) = some 100 ∧
      (s.registry.reconcile (fun _ => {}) s.installed (sampleCaches 100 8192)).1.maxEntries "main" =
        some 50 :=
  ⟨sampleFailed, sampleFailed_reach, by decide, by decide, by decide⟩

end Conduit
