import Conduit.Core.Routing
import Conduit.Health.Registry
import Conduit.Lib.Weighted
import Mathlib.Algebra.Order.BigOperators.Group.List
import Mathlib.Algebra.Order.Group.Nat

/-!
# Selection by health

Which backend the route stage selects for a pool with a health table, and what the scrape exports as
the weights of that selection (`conduit-core/src/routing.rs`). The weighted pick goes through the
shares of a pool: its chosen backends, each as often as its weight.

The damped latency factor of a backend is given (`RouteHealth.factor`).

- `backendEligible`, `RouteHealth.view`: what selection reads of a table.
- `effectiveWeightsForScrape`: the exported weights.
- `selectBackend_eq`: a selection is the share at the transaction's number.
- `first_pick_exact`: a full period of first attempts selects each backend by its exported weight.
- `retry_heeds_health_iff`: when a retry heeds health.
-/

namespace Conduit

open Config (Pool Backend effectiveBackendWeight)
open Weighted

/-- A backend without a state counts as up. -/
def backendEligible (table : BackendKey → Option BackendHealthState) (pool addr : String) : Bool :=
  match table ⟨pool, addr⟩ with
  | some state => state.applied == .up
  | none => true

/-- The health of a pool: its compiled configuration and the table. -/
structure RouteHealth where
  minEligible : Nat
  latencyWeighting : Bool
  table : BackendKey → Option BackendHealthState
  /-- The `weight_factor` of a state. -/
  factor : BackendKey → Float := fun _ => 1.0

def RouteHealth.view (h : RouteHealth) (pool : String) : PoolHealthView where
  minEligible := h.minEligible
  latencyWeighting := h.latencyWeighting
  eligible := backendEligible h.table pool
  weightFactor addr := (h.table ⟨pool, addr⟩).map fun _ => h.factor ⟨pool, addr⟩

/-! ## The exported weights -/

def parseable (parse : String → Option String) (backends : List Backend) : List Candidate :=
  backends.filterMap fun b => (parse b.address).map fun addr => (b, addr)

/-- `out.insert` for each candidate. -/
def insertWeights (weight : Candidate → Nat) (cs : List Candidate) : String → Option Nat :=
  cs.foldl (fun out c => Function.update out c.2 (some (weight c))) fun _ => none

/-- The weight that the scrape exports for a candidate. -/
def scrapeWeight (pool : String) (h : RouteHealth) (failOpen : Bool) (c : Candidate) : Nat :=
  let configured := effectiveBackendWeight c.1
  let useLatency := !failOpen && h.latencyWeighting
  if failOpen then configured
  else if !backendEligible h.table pool c.2 then 0
  else if useLatency then
    ((h.table ⟨pool, c.2⟩).map fun _ =>
      effectiveWeight configured (h.factor ⟨pool, c.2⟩)).getD configured
  else configured

def scrapeFailsOpen (parse : String → Option String) (pool : Pool) (h : RouteHealth) : Bool :=
  let eligible := (parseable parse pool.backends).filter
    fun c => backendEligible h.table pool.name c.2
  pool.backends.length ≤ 1 || eligible.length < max h.minEligible 1

/-- The map from addresses to weights. -/
def effectiveWeightsForScrape (parse : String → Option String) (pool : Pool) (h : RouteHealth) :
    String → Option Nat :=
  insertWeights (scrapeWeight pool.name h (scrapeFailsOpen parse pool h))
    (parseable parse pool.backends)

/-- The exported weights, or the configured ones if the pool has no health. -/
def poolWeights (parse : String → Option String) (pool : Pool) : Option RouteHealth → String → Nat
  | some h => fun addr => (effectiveWeightsForScrape parse pool h addr).getD 0
  | none => fun addr =>
    (insertWeights (fun c => effectiveBackendWeight c.1) (parseable parse pool.backends)
      addr).getD 0

/-- The sum of the weights over the pool's addresses. -/
def totalWeight (parse : String → Option String) (pool : Pool) (health : Option RouteHealth) :
    Nat :=
  ((pool.backends.filterMap (parse ·.address)).map (poolWeights parse pool health)).sum

/-! ## Shares -/

/-- The chosen candidates, each as often as its weight. -/
def shares (pool : Pool) (health : Option PoolHealthView) (cs : List Candidate) : List Candidate :=
  spread (weightOf health (chosen pool health cs).2) (chosen pool health cs).1

variable {parse : String → Option String} {pools : List Pool} {pool : Pool} {tried : List String}

theorem pickWeighted_eq (weight : Candidate → Nat) (n acc : Nat) (cs : List Candidate) :
    pickWeighted weight (acc + n) acc cs = (spread weight cs)[n]? := by
  induction cs generalizing n acc with
  | nil => rfl
  | cons c cs ih =>
    rw [pickWeighted, spread_cons]
    split
    · rename_i hlt
      rw [List.getElem?_append_left (by simp; omega), List.getElem?_replicate, if_pos (by omega)]
    · rename_i hge
      obtain ⟨m, rfl⟩ : ∃ m, n = weight c + m := ⟨n - weight c, by omega⟩
      rw [List.getElem?_append_right (by simp), List.length_replicate, Nat.add_sub_cancel_left,
        ← Nat.add_assoc, ih]

theorem chosen_nil (health : Option PoolHealthView) : (chosen pool health []).1 = [] :=
  List.eq_nil_iff_forall_not_mem.mpr fun _ h => List.not_mem_nil (chosen_subset h)

/-- What is selected is the share at the transaction's number, if there are shares at all. -/
theorem selectBackend_eq {poolName : String} (hpool : pools.find? (·.name == poolName) = some pool)
    (txnId generation attemptCount : Nat) (health : Option PoolHealthView) :
    selectBackend parse pools poolName txnId generation attemptCount tried health =
      let ss := shares pool health (candidates parse attemptCount tried pool.backends)
      ss[(txnId + generation) % 2 ^ 64 % ss.length]?.map fun c => (poolName, c.2) := by
  simp only [selectBackend, hpool, shares]
  split
  · -- no candidates, no shares
    rename_i hempty
    have hnone : candidates parse attemptCount tried pool.backends = [] := by
      rcases Bool.or_eq_true_iff.mp hempty with h | h
      · rw [List.isEmpty_iff.mp h]
        rfl
      · exact List.isEmpty_iff.mp h
    rw [hnone, chosen_nil]
    rfl
  · rw [length_spread]
    generalize chosen pool health (candidates parse attemptCount tried pool.backends) = ch
    split
    · rename_i hzero
      have hnil : spread (weightOf health ch.2) ch.1 = [] :=
        List.length_eq_zero_iff.mp ((length_spread _ _).trans hzero)
      rw [hnil]
      rfl
    · rename_i hpos
      have hlt := Nat.mod_lt ((txnId + generation) % 2 ^ 64) (Nat.pos_of_ne_zero hpos)
      have hpick := pickWeighted_eq (weightOf health ch.2)
        ((txnId + generation) % 2 ^ 64 % (ch.1.map (weightOf health ch.2)).sum) 0 ch.1
      rw [Nat.zero_add] at hpick
      rw [hpick, List.getElem?_eq_getElem (by rwa [length_spread]), Option.some_or]

/-! ## First attempts -/

theorem candidates_first (backends : List Backend) :
    candidates parse 0 tried backends = parseable parse backends := by
  unfold candidates parseable
  congr 1
  funext b
  cases parse b.address <;> rfl

theorem map_parseable (backends : List Backend) :
    (parseable parse backends).map (·.2) = backends.filterMap (parse ·.address) := by
  simp [parseable, List.map_filterMap, Function.comp_def]

/-- The weight of a candidate on a first attempt; 0 if it is not chosen. -/
def firstWeight (parse : String → Option String) (pool : Pool) :
    Option RouteHealth → Candidate → Nat
  | some h => scrapeWeight pool.name h (scrapeFailsOpen parse pool h)
  | none => fun c => effectiveBackendWeight c.1

theorem scrapeFailsOpen_iff (h : RouteHealth) :
    scrapeFailsOpen parse pool h = true ↔ pool.backends.length ≤ 1 ∨
      ((parseable parse pool.backends).filter fun c => (h.view pool.name).eligible c.2).length <
        max (h.view pool.name).minEligible 1 := by
  rw [scrapeFailsOpen, Bool.or_eq_true, decide_eq_true_eq, decide_eq_true_eq]
  rfl

/-- Selection and the scrape weigh alike: the shares of a first attempt. -/
theorem shares_first (health : Option RouteHealth) :
    shares pool (health.map (·.view pool.name)) (parseable parse pool.backends) =
      spread (firstWeight parse pool health) (parseable parse pool.backends) := by
  cases health with
  | none => rfl
  | some h =>
    by_cases hopen : scrapeFailsOpen parse pool h = true
    · -- all candidates, at their configured weights
      have hchosen : chosen pool (some (h.view pool.name)) (parseable parse pool.backends) =
          (parseable parse pool.backends, false) := if_pos (scrapeFailsOpen_iff h |>.mp hopen)
      rw [Option.map_some, shares, hchosen]
      refine spread_congr _ _ fun c _ => ?_
      simp [firstWeight, scrapeWeight, hopen, weightOf]
    · have hchosen : chosen pool (some (h.view pool.name)) (parseable parse pool.backends) =
          ((parseable parse pool.backends).filter fun c => backendEligible h.table pool.name c.2,
            h.latencyWeighting) := if_neg (hopen ∘ (scrapeFailsOpen_iff h).mpr)
      rw [Option.map_some, shares, hchosen, ← spread_filter (firstWeight parse pool (some h))
        (parseable parse pool.backends) (p := fun c => backendEligible h.table pool.name c.2)]
      · refine spread_congr _ _ fun c hc => ?_
        have helig : backendEligible h.table pool.name c.2 = true := (List.mem_filter.mp hc).2
        cases hstate : h.table ⟨pool.name, c.2⟩ <;>
          simp [firstWeight, scrapeWeight, hopen, helig, weightOf, RouteHealth.view, hstate]
      · intro c _ hdown
        simp [firstWeight, scrapeWeight, hopen, hdown]

/-- The weight of an address on a first attempt: of the backends that have it. -/
def addrWeight (parse : String → Option String) (pool : Pool) (health : Option RouteHealth)
    (addr : String) : Nat :=
  (((parseable parse pool.backends).filter (·.2 == addr)).map (firstWeight parse pool health)).sum

/-- The number of shares of a first attempt. -/
def firstTotal (parse : String → Option String) (pool : Pool) (health : Option RouteHealth) : Nat :=
  ((parseable parse pool.backends).map (firstWeight parse pool health)).sum

/-- A first attempt selects an address if the share at the transaction's number has it. -/
theorem select_first_iff (hpool : pools.find? (·.name == pool.name) = some pool)
    (health : Option RouteHealth) (id generation : Nat) (addr : String) :
    selectBackend parse pools pool.name id generation 0 tried (health.map (·.view pool.name)) =
        some (pool.name, addr) ↔
      ((spread (firstWeight parse pool health) (parseable parse pool.backends))[
        (id + generation) % 2 ^ 64 % firstTotal parse pool health]?.any (·.2 == addr)) = true := by
  rw [selectBackend_eq hpool, candidates_first, shares_first, firstTotal, ← length_spread,
    Option.map_eq_some_iff, Option.any_eq_true]
  simp

/-- A full period of consecutive ids, none of which wraps, selects each address by its weight. -/
theorem countP_select_window (hpool : pools.find? (·.name == pool.name) = some pool)
    (health : Option RouteHealth) {first generation : Nat}
    (hwrap : ∀ id ∈ List.range' first (firstTotal parse pool health), id + generation < 2 ^ 64)
    (addr : String) :
    ((List.range' first (firstTotal parse pool health)).countP fun id =>
        selectBackend parse pools pool.name id generation 0 tried
          (health.map (·.view pool.name)) = some (pool.name, addr)) =
      addrWeight parse pool health addr := by
  have hwindow := @countP_window _
    (spread (firstWeight parse pool health) (parseable parse pool.backends)) (·.2 == addr)
    (generation + first)
  rw [countP_spread, length_spread, ← List.map_add_range', List.countP_map] at hwindow
  refine Eq.trans (List.countP_congr fun id hid => ?_) hwindow
  have hmod : (id + generation) % 2 ^ 64 = generation + id := by
    rw [Nat.mod_eq_of_lt (hwrap id hid), Nat.add_comm]
  rw [decide_eq_true_iff, select_first_iff hpool, hmod]
  rfl

/-- With distinct addresses an insert is not overwritten. -/
theorem foldl_insertWeights (weight : Candidate → Nat) (addr : String) {cs : List Candidate}
    (hnodup : (cs.map (·.2)).Nodup) (out : String → Option Nat) :
    (cs.foldl (fun (out : String → Option Nat) c => Function.update out c.2 (some (weight c))) out
        addr).getD 0 =
      if addr ∈ cs.map (·.2) then ((cs.filter (·.2 == addr)).map weight).sum
      else (out addr).getD 0 := by
  induction cs generalizing out with
  | nil => simp
  | cons c cs ih =>
    rw [List.map_cons, List.nodup_cons] at hnodup
    rw [List.foldl_cons, ih hnodup.2]
    by_cases hc : c.2 = addr
    · subst hc
      have hnone : cs.filter (·.2 == c.2) = [] :=
        List.filter_eq_nil_iff.mpr fun d hd he =>
          hnodup.1 (List.mem_map.mpr ⟨d, hd, by simpa using he⟩)
      simp [hnodup.1, hnone]
    · have hmem : addr ∈ (c :: cs).map (·.2) ↔ addr ∈ cs.map (·.2) := by
        rw [List.map_cons, List.mem_cons, or_iff_right (Ne.symm hc)]
      simp only [hmem, Function.update_of_ne (Ne.symm hc),
        List.filter_cons_of_neg (a := c) (p := (·.2 == addr)) (by simpa using hc)]

theorem poolWeights_eq (health : Option RouteHealth)
    (hnodup : (pool.backends.filterMap (parse ·.address)).Nodup) (addr : String) :
    poolWeights parse pool health addr = addrWeight parse pool health addr := by
  have hinsert : ∀ weight, (insertWeights weight (parseable parse pool.backends) addr).getD 0 =
      (((parseable parse pool.backends).filter (·.2 == addr)).map weight).sum := by
    intro weight
    rw [← map_parseable] at hnodup
    refine (foldl_insertWeights weight addr hnodup _).trans ?_
    split
    · rfl
    · rename_i hnot
      rw [List.filter_eq_nil_iff.mpr fun c hc he =>
        hnot (List.mem_map.mpr ⟨c, hc, by simpa using he⟩)]
      rfl
  cases health <;> exact hinsert _

theorem filter_addr {cs : List Candidate} (hnodup : (cs.map (·.2)).Nodup) {c : Candidate}
    (hc : c ∈ cs) : cs.filter (·.2 == c.2) = [c] := by
  induction cs with
  | nil => cases hc
  | cons d cs ih =>
    rw [List.map_cons, List.nodup_cons] at hnodup
    rcases List.mem_cons.mp hc with rfl | hc
    · rw [List.filter_cons_of_pos (by simp), List.filter_eq_nil_iff.mpr fun d hd he =>
        hnodup.1 (List.mem_map.mpr ⟨d, hd, by simpa using he⟩)]
    · have hne : d.2 ≠ c.2 := fun he => hnodup.1 (he ▸ List.mem_map_of_mem hc)
      rw [List.filter_cons_of_neg (by simpa using hne), ih hnodup.2 hc]

theorem totalWeight_eq (health : Option RouteHealth)
    (hnodup : (pool.backends.filterMap (parse ·.address)).Nodup) :
    totalWeight parse pool health = firstTotal parse pool health := by
  rw [totalWeight, ← map_parseable, List.map_map]
  refine congrArg List.sum (List.map_congr_left fun c hc => ?_)
  rw [Function.comp_apply, poolWeights_eq health hnodup, addrWeight,
    filter_addr (by rwa [map_parseable]) hc, List.map_singleton, List.sum_singleton]

/-- Over a full period of transaction ids, first attempts select each backend exactly as often as
its exported weight says; a backend of weight 0 is never selected. -/
theorem first_pick_exact (hpool : pools.find? (·.name == pool.name) = some pool)
    (health : Option RouteHealth) (hnodup : (pool.backends.filterMap (parse ·.address)).Nodup)
    (tried : List String) (first generation : Nat)
    (hwrap : first + totalWeight parse pool health + generation ≤ 2 ^ 64) :
    (∀ addr, ((List.range' first (totalWeight parse pool health)).countP fun id =>
        selectBackend parse pools pool.name id generation 0 tried
          (health.map (·.view pool.name)) = some (pool.name, addr)) =
      poolWeights parse pool health addr) ∧
    ∀ addr id generation, poolWeights parse pool health addr = 0 →
      selectBackend parse pools pool.name id generation 0 tried (health.map (·.view pool.name)) ≠
        some (pool.name, addr) := by
  rw [totalWeight_eq health hnodup] at hwrap ⊢
  refine ⟨fun addr => ?_, fun addr id generation hzero hsel => ?_⟩
  · rw [poolWeights_eq health hnodup]
    refine countP_select_window hpool health (fun id hid => ?_) addr
    have hlt := (List.mem_range'_1.mp hid).2
    omega
  · -- a share of the address would count
    rw [poolWeights_eq health hnodup, addrWeight, ← countP_spread] at hzero
    obtain ⟨c, hc, haddr⟩ :=
      (Option.any_eq_true _ _).mp ((select_first_iff hpool health id generation addr).mp hsel)
    exact List.countP_eq_zero.mp hzero c (List.mem_of_getElem? hc) haddr

/-- Three backends, the last of which is down. -/
def weightedPool : Pool where
  name := "p"
  backends := [{ address := "a", weight := some 2 }, { address := "b", weight := some 1 },
    { address := "c" }]

def weightedHealth : RouteHealth where
  minEligible := 0
  latencyWeighting := false
  table key := some { applied := if key.address = "c" then .down else .up }

theorem first_pick_exact_sample :
    ([weightedPool].find? (·.name == weightedPool.name) = some weightedPool ∧
      totalWeight some weightedPool (some weightedHealth) = 3) ∧
    ((List.range' 5 (totalWeight some weightedPool (some weightedHealth))).countP fun id =>
        selectBackend some [weightedPool] "p" id 7 0 [] ((some weightedHealth).map (·.view "p")) =
          some ("p", "a")) = poolWeights some weightedPool (some weightedHealth) "a" :=
  ⟨⟨rfl, rfl⟩,
    (@first_pick_exact some [weightedPool] weightedPool rfl (some weightedHealth) (by decide) [] 5 7
      (by decide)).1 "a"⟩

/-! ## Retries -/

def upAddresses (parse : String → Option String) (pool : Pool) (h : RouteHealth) : List String :=
  (pool.backends.filterMap (parse ·.address)).filter (backendEligible h.table pool.name)

/-- A retry selects an untried backend that is up, or nothing if there is none; and no backend that
a first attempt does not choose from. -/
def HeedsHealth (parse : String → Option String) (pool : Pool) (h : RouteHealth)
    (tried : List String) (selected : Option (String × String)) : Prop :=
  ((∃ addr ∈ upAddresses parse pool h, addr ∉ tried) →
    ∃ addr ∈ upAddresses parse pool h, addr ∉ tried ∧ selected = some (pool.name, addr)) ∧
  ((∀ addr ∈ upAddresses parse pool h, addr ∈ tried) → selected = none) ∧
  ∀ addr, selected = some (pool.name, addr) →
    ∃ c ∈ (chosen pool (some (h.view pool.name)) (candidates parse 0 [] pool.backends)).1,
      c.2 = addr

/-- The untried backends, and those of them that are up. -/
def untried (parse : String → Option String) (pool : Pool) (tried : List String) : List Candidate :=
  (parseable parse pool.backends).filter fun c => c.2 ∉ tried

def untriedUp (parse : String → Option String) (pool : Pool) (h : RouteHealth)
    (tried : List String) : List Candidate :=
  (untried parse pool tried).filter fun c => backendEligible h.table pool.name c.2

/-- The untried backends that are up reach the floor, or no others are left; and not all of them
have weight 0. -/
def FloorHolds (parse : String → Option String) (pool : Pool) (h : RouteHealth)
    (tried : List String) : Prop :=
  let floor := max h.minEligible 1
  let up := untriedUp parse pool h tried
  (floor ≤ up.length ∨ ∀ c ∈ untried parse pool tried, 0 < effectiveBackendWeight c.1 →
    backendEligible h.table pool.name c.2 = true) ∧
  (up ≠ [] → ∃ c ∈ up, 0 < weightOf (some (h.view pool.name))
    (decide (floor ≤ up.length) && h.latencyWeighting) c)

instance (parse : String → Option String) (pool : Pool) (h : RouteHealth) (tried : List String) :
    Decidable (FloorHolds parse pool h tried) :=
  inferInstanceAs (Decidable ((_ ∨ _) ∧ (_ → _)))

variable {h : RouteHealth}

theorem candidates_retry {attemptCount : Nat} (hretry : 0 < attemptCount) :
    candidates parse attemptCount tried pool.backends = untried parse pool tried := by
  rw [untried, parseable, List.filter_filterMap]
  unfold candidates
  congr 1
  funext b
  cases parse b.address with
  | none => rfl
  | some addr => simp [hretry, Option.filter, apply_ite]

/-- With more than one backend, the floor decides. -/
theorem chosen_floor (hmany : 1 < pool.backends.length) (cs : List Candidate) :
    chosen pool (some (h.view pool.name)) cs =
      if max h.minEligible 1 ≤
          (cs.filter fun c => backendEligible h.table pool.name c.2).length then
        (cs.filter fun c => backendEligible h.table pool.name c.2, h.latencyWeighting)
      else (cs, false) := by
  by_cases hfloor :
      max h.minEligible 1 ≤ (cs.filter fun c => backendEligible h.table pool.name c.2).length
  · rw [if_pos hfloor]
    exact if_neg fun hopen => hopen.elim (by omega) (Nat.not_lt.mpr hfloor)
  · rw [if_neg hfloor]
    exact if_pos (.inr (Nat.lt_of_not_le hfloor))

theorem upAddresses_eq : upAddresses parse pool h =
    ((parseable parse pool.backends).filter
      fun c => backendEligible h.table pool.name c.2).map (·.2) := by
  rw [upAddresses, ← map_parseable, List.filter_map]
  rfl

/-- A first attempt chooses from the backends that are up. -/
theorem mem_chosen_first (hmany : 1 < pool.backends.length)
    (hup : max h.minEligible 1 ≤ (upAddresses parse pool h).length) {addr : String} :
    (∃ c ∈ (chosen pool (some (h.view pool.name)) (candidates parse 0 [] pool.backends)).1,
      c.2 = addr) ↔ addr ∈ upAddresses parse pool h := by
  rw [upAddresses_eq, List.length_map] at hup
  rw [candidates_first, chosen_floor hmany, if_pos hup, upAddresses_eq, List.mem_map]

theorem mem_untriedUp {c : Candidate} : c ∈ untriedUp parse pool h tried ↔
    c ∈ untried parse pool tried ∧ backendEligible h.table pool.name c.2 = true := List.mem_filter

/-- The untried addresses that are up are those of `untriedUp`. -/
theorem mem_upAddresses_untried {addr : String} :
    (addr ∈ upAddresses parse pool h ∧ addr ∉ tried) ↔
      ∃ c ∈ untriedUp parse pool h tried, c.2 = addr := by
  simp only [upAddresses_eq, List.mem_map, mem_untriedUp, untried, List.mem_filter,
    decide_eq_true_eq]
  constructor
  · rintro ⟨⟨c, ⟨hc, hup⟩, rfl⟩, hnew⟩
    exact ⟨c, ⟨⟨hc, hnew⟩, hup⟩, rfl⟩
  · rintro ⟨c, ⟨⟨hc, hnew⟩, hup⟩, rfl⟩
    exact ⟨⟨c, ⟨hc, hup⟩, rfl⟩, hnew⟩

theorem chosen_untried (hmany : 1 < pool.backends.length) :
    chosen pool (some (h.view pool.name)) (untried parse pool tried) =
      if max h.minEligible 1 ≤ (untriedUp parse pool h tried).length then
        (untriedUp parse pool h tried, h.latencyWeighting)
      else (untried parse pool tried, false) :=
  chosen_floor hmany _

theorem mem_retryShares (hmany : 1 < pool.backends.length) {c : Candidate} :
    c ∈ shares pool (some (h.view pool.name)) (untried parse pool tried) ↔
      if max h.minEligible 1 ≤ (untriedUp parse pool h tried).length then
        c ∈ untriedUp parse pool h tried ∧
          0 < weightOf (some (h.view pool.name)) h.latencyWeighting c
      else c ∈ untried parse pool tried ∧ 0 < effectiveBackendWeight c.1 := by
  rw [shares, mem_spread, chosen_untried hmany]
  split
  · exact Iff.rfl
  · exact Iff.rfl

/-- The condition, by the shares: all of them are up, and there are some if a backend is up. -/
theorem floorHolds_iff (hmany : 1 < pool.backends.length) :
    FloorHolds parse pool h tried ↔
      (∀ c ∈ shares pool (some (h.view pool.name)) (untried parse pool tried),
        c ∈ untriedUp parse pool h tried) ∧
      (untriedUp parse pool h tried ≠ [] →
        shares pool (some (h.view pool.name)) (untried parse pool tried) ≠ []) := by
  have hne : shares pool (some (h.view pool.name)) (untried parse pool tried) ≠ [] ↔
      ∃ c, c ∈ shares pool (some (h.view pool.name)) (untried parse pool tried) :=
    ⟨List.exists_mem_of_ne_nil _, fun ⟨_, hc⟩ => List.ne_nil_of_mem hc⟩
  unfold FloorHolds
  simp only [hne, mem_retryShares hmany]
  by_cases hfloor : max h.minEligible 1 ≤ (untriedUp parse pool h tried).length
  · simp only [hfloor, true_or, true_and, decide_true, Bool.true_and, if_true]
    exact ⟨fun hpos => ⟨fun c hc => hc.1, hpos⟩, fun hc => hc.2⟩
  · -- the pool fails open: the shares are those of all untried backends
    simp only [hfloor, false_or, decide_false, Bool.false_and, if_false]
    constructor
    · rintro ⟨hall, hpos⟩
      refine ⟨fun c hc => mem_untriedUp.mpr ⟨hc.1, hall c hc.1 hc.2⟩, fun hup => ?_⟩
      obtain ⟨c, hc, hw⟩ := hpos hup
      exact ⟨c, (mem_untriedUp.mp hc).1, hw⟩
    · rintro ⟨hall, hpos⟩
      refine ⟨fun c hc hw => (mem_untriedUp.mp (hall c ⟨hc, hw⟩)).2, fun hup => ?_⟩
      obtain ⟨c, hc, hw⟩ := hpos hup
      exact ⟨c, hall c ⟨hc, hw⟩, hw⟩

/-- When the pool fails open, the shares fit the code's integers if the configured weights do. -/
theorem length_retryShares_le (hmany : 1 < pool.backends.length)
    (hopen : ¬max h.minEligible 1 ≤ (untriedUp parse pool h tried).length) :
    (shares pool (some (h.view pool.name)) (untried parse pool tried)).length ≤
      (pool.backends.map effectiveBackendWeight).sum := by
  have hsub : ((untried parse pool tried).map (·.1)).Sublist pool.backends := by
    refine (List.filter_sublist.map _).trans ?_
    induction pool.backends with
    | nil => exact .slnil
    | cons b bs ih =>
      cases hb : parse b.address with
      | none => simpa [parseable, hb] using ih.cons b
      | some addr => simpa [parseable, hb] using ih.cons_cons b
  rw [shares, length_spread, chosen_untried hmany, if_neg hopen]
  have hsum := (hsub.map effectiveBackendWeight).sum_le_sum fun _ _ => Nat.zero_le _
  rwa [List.map_map] at hsum

/-- When a retry heeds health, whatever the transaction and the generation. -/
theorem retry_heeds_health_iff (hpool : pools.find? (·.name == pool.name) = some pool)
    (h : RouteHealth) (hmany : 1 < pool.backends.length)
    (hup : max h.minEligible 1 ≤ (upAddresses parse pool h).length)
    (hfit : (pool.backends.map effectiveBackendWeight).sum ≤ 2 ^ 64)
    {attemptCount : Nat} (hretry : 0 < attemptCount) (tried : List String) :
    (∀ txnId generation, HeedsHealth parse pool h tried
      (selectBackend parse pools pool.name txnId generation attemptCount tried
        (some (h.view pool.name)))) ↔ FloorHolds parse pool h tried := by
  have hselect := fun txnId generation => @selectBackend_eq parse pools pool tried pool.name hpool
    txnId generation attemptCount (some (h.view pool.name))
  simp only [candidates_retry hretry] at hselect
  rw [floorHolds_iff hmany]
  constructor
  · intro hall
    refine ⟨fun c hc => ?_, fun hne hnil => ?_⟩
    · by_cases hfloor : max h.minEligible 1 ≤ (untriedUp parse pool h tried).length
      · rw [mem_retryShares hmany, if_pos hfloor] at hc
        exact hc.1
      · -- some transaction selects this share, so it is up
        obtain ⟨n, hn, hget⟩ := List.getElem_of_mem hc
        have hlt := Nat.lt_of_lt_of_le hn ((length_retryShares_le hmany hfloor).trans hfit)
        have hsel := hselect n 0
        rw [Nat.add_zero, Nat.mod_eq_of_lt hlt, Nat.mod_eq_of_lt hn,
          List.getElem?_eq_getElem hn, hget] at hsel
        have haddr := (mem_chosen_first hmany hup).mp ((hall n 0).2.2 c.2 hsel)
        rw [mem_retryShares hmany, if_neg hfloor] at hc
        rw [upAddresses_eq] at haddr
        obtain ⟨d, hd, hdaddr⟩ := List.mem_map.mp haddr
        exact mem_untriedUp.mpr ⟨hc.1, hdaddr ▸ (List.mem_filter.mp hd).2⟩
    · obtain ⟨c, hc⟩ := List.exists_mem_of_ne_nil _ hne
      obtain ⟨hmem, hnew⟩ := mem_upAddresses_untried.mpr ⟨c, hc, rfl⟩
      obtain ⟨addr, -, -, hsel⟩ := (hall 0 0).1 ⟨c.2, hmem, hnew⟩
      rw [hselect, hnil] at hsel
      cases hsel
  · rintro ⟨hss, hne⟩ txnId generation
    have hmem : ∀ addr, selectBackend parse pools pool.name txnId generation attemptCount tried
        (some (h.view pool.name)) = some (pool.name, addr) →
        addr ∈ upAddresses parse pool h ∧ addr ∉ tried := by
      intro addr hsel
      rw [hselect] at hsel
      obtain ⟨c, hc, hcaddr⟩ := Option.map_eq_some_iff.mp hsel
      exact mem_upAddresses_untried.mpr
        ⟨c, hss c (List.mem_of_getElem? hc), (Prod.mk.inj hcaddr).2⟩
    refine ⟨fun ⟨addr, haddr, hnew⟩ => ?_, fun hall => ?_, fun addr hsel => ?_⟩
    · obtain ⟨c, hc, -⟩ := mem_upAddresses_untried.mp ⟨haddr, hnew⟩
      have hpos := List.length_pos_iff.mpr (hne (List.ne_nil_of_mem hc))
      have hsel := hselect txnId generation
      rw [List.getElem?_eq_getElem (Nat.mod_lt _ hpos), Option.map_some] at hsel
      obtain ⟨hup, hnew⟩ := hmem _ hsel
      exact ⟨_, hup, hnew, hsel⟩
    · cases hsel : selectBackend parse pools pool.name txnId generation attemptCount tried
          (some (h.view pool.name)) with
      | none => rfl
      | some r =>
        have hr := hselect txnId generation
        rw [hsel] at hr
        obtain ⟨c, -, rfl⟩ := Option.map_eq_some_iff.mp hr.symm
        obtain ⟨hup, hnew⟩ := hmem _ hsel
        exact absurd (hall _ hup) hnew
    · exact (mem_chosen_first hmany hup).mpr (hmem addr hsel).1

/-- One backend that is up is still untried, and the floor is 1. -/
theorem retry_heeds_health_sample :
    FloorHolds some weightedPool weightedHealth ["a"] ∧
      HeedsHealth some weightedPool weightedHealth ["a"]
        (selectBackend some [weightedPool] "p" 5 7 1 ["a"] (some (weightedHealth.view "p"))) := by
  have hfloor : FloorHolds some weightedPool weightedHealth ["a"] := by decide
  exact ⟨hfloor, (@retry_heeds_health_iff some [weightedPool] weightedPool rfl weightedHealth
    (by decide) (by decide) (by decide) 1 (by decide) ["a"]).mpr hfloor 5 7⟩

/-- Every backend that is up was tried; the retry goes to the one that is down. -/
theorem retry_to_down_backend :
    (1 < weightedPool.backends.length ∧
      max weightedHealth.minEligible 1 ≤ (upAddresses some weightedPool weightedHealth).length ∧
      upAddresses some weightedPool weightedHealth = ["a", "b"]) ∧
    selectBackend some [weightedPool] "p" 5 7 2 ["a", "b"] (some (weightedHealth.view "p")) =
      some ("p", "c") ∧
    ¬HeedsHealth some weightedPool weightedHealth ["a", "b"]
      (selectBackend some [weightedPool] "p" 5 7 2 ["a", "b"]
        (some (weightedHealth.view "p"))) := by
  refine ⟨by decide, by decide, fun hheeds => ?_⟩
  have hnone := hheeds.2.1 (by decide)
  revert hnone
  decide

end Conduit
