import Mathlib.Data.List.Basic
import Conduit.Lib.Lts

/-!
# Counters synced from totals

The transitions of a backend and the failed periodic syncs of an LMDB cache are counted where they
happen. A scrape brings the totals into Prometheus counters: it adds what a total has grown by since
the last sync (`sync_health_transition_counters`, `sync_periodic_sync_failure_counters` of
`conduit-metrics/src/builtin.rs`). The counters are in the `MetricStore` and survive a swap of the
metrics plan; the last synced totals are in the registry, which a swap creates anew.

The plans of the swaps keep both families. A scrape takes the registry of its time, reads the totals
one by one, syncs one family after the other under the family's lock and then gathers the counters;
scrapes may overlap. The backends and caches are fixed. Totals and counters have 64 bits and wrap
around.

- `syncOne`, `syncRows`, `retainSeen`, `syncFamily`: the sync of a family.
- `ScrapeSystem`, `scrapeSystem`: events, scrapes and swaps.
- `ScrapeSystem.Exact`: a scrape with no concurrent event exports the numbers of events.
- `synced_exact`, `swap_counts_twice`.
-/

namespace Conduit

open Function (update update_eq_self update_of_ne update_self)

inductive SyncedFamily where
  | transitions | syncFailures
  deriving DecidableEq, Repr

inductive SyncedSeries where
  /-- `conduit_backend_health_transitions_total`. -/
  | transitions (pool backend : String)
  /-- `conduit_cache_lmdb_periodic_sync_failures_total`. -/
  | syncFailures (cache : String)
  deriving DecidableEq, Repr

def SyncedSeries.family : SyncedSeries → SyncedFamily
  | .transitions _ _ => .transitions
  | .syncFailures _ => .syncFailures

/-- The counters, and the last synced totals of a registry. -/
structure Synced where
  counter : SyncedSeries → UInt64
  last : SyncedSeries → Option UInt64

/-- A total that a scrape has read. -/
abbrev SyncRow := SyncedSeries × UInt64

def syncOne (x : Synced) (row : SyncRow) : Synced :=
  let prev := (x.last row.1).getD 0
  if row.2 > prev then
    { counter := update x.counter row.1 (x.counter row.1 + (row.2 - prev))
      last := update x.last row.1 (some row.2) }
  else x

def syncRows (rows : List SyncRow) (x : Synced) : Synced := rows.foldl syncOne x

/-- `last.retain`: of a family, the rows that were seen. -/
def retainSeen (f : SyncedFamily) (rows : List SyncRow) (x : Synced) : Synced :=
  { x with last := fun k => if k.family = f ∧ k ∉ rows.map (·.1) then none else x.last k }

/-- The sync of a family: the rows of a scrape that are of it. -/
def syncFamily (f : SyncedFamily) (rows : List SyncRow) (x : Synced) : Synced :=
  let mine := rows.filter (·.1.family = f)
  retainSeen f mine (syncRows mine x)

/-! ## The system -/

structure Scrape where
  /-- The registry that it works on. -/
  generation : Nat
  rows : List SyncRow := []
  /-- The families that it has still to sync. -/
  todo : List SyncedFamily := [.transitions, .syncFailures]
  /-- No event has happened since its first read. -/
  quiet : Bool := true

structure ScrapeSystem where
  /-- What has happened since the start of the process. -/
  events : SyncedSeries → Nat := fun _ => 0
  /-- The totals. -/
  source : SyncedSeries → UInt64 := fun _ => 0
  /-- The counters of the store. -/
  counter : SyncedSeries → UInt64 := fun _ => 0
  generation : Nat := 0
  /-- The last synced totals of each registry. -/
  last : Nat → SyncedSeries → Option UInt64 := fun _ _ => none
  scrapes : List Scrape := []

inductive ScrapeAct where
  /-- A transition, or a failed sync. -/
  | event (k : SyncedSeries)
  /-- A scrape takes the registry. -/
  | start
  /-- A scrape reads its next total. -/
  | read (i : Nat)
  /-- A scrape that has read all totals syncs its next family. -/
  | sync (i : Nat)
  /-- A scrape that has synced both families gathers the counters. -/
  | finish (i : Nat)
  /-- `apply_compiled`. -/
  | swap

namespace ScrapeSystem

def step (keys : List SyncedSeries) (s : ScrapeSystem) : ScrapeAct → Option ScrapeSystem
  | .event k =>
    some { s with
      events := update s.events k (s.events k + 1)
      source := update s.source k (s.source k + 1)
      scrapes := s.scrapes.map fun c => { c with quiet := c.quiet && c.rows.isEmpty } }
  | .start => some { s with scrapes := s.scrapes ++ [{ generation := s.generation }] }
  | .read i =>
    match s.scrapes[i]? with
    | none => none
    | some c =>
      match keys[c.rows.length]? with
      | none => none
      | some k =>
        some { s with
          scrapes := s.scrapes.set i { c with rows := c.rows ++ [(k, s.source k)] } }
  | .sync i =>
    match s.scrapes[i]? with
    | none => none
    | some c =>
      match c.todo with
      | [] => none
      | f :: rest =>
        if c.rows.length = keys.length then
          let x := syncFamily f c.rows ⟨s.counter, s.last c.generation⟩
          some { s with
            counter := x.counter
            last := update s.last c.generation x.last
            scrapes := s.scrapes.set i { c with todo := rest } }
        else none
  | .finish i =>
    match s.scrapes[i]? with
    | none => none
    | some c => if c.todo = [] then some { s with scrapes := s.scrapes.eraseIdx i } else none
  | .swap => some { s with generation := s.generation + 1 }

/-- Every scrape that is about to gather, with no event since its first read, finds in the counters
the numbers of events since the start of the process. -/
def Exact (keys : List SyncedSeries) (s : ScrapeSystem) : Prop :=
  ∀ c ∈ s.scrapes, c.todo = [] → c.quiet = true → ∀ k ∈ keys, (s.counter k).toNat = s.events k

/-- The plan is swapped only before the first sync of the registry, a scrape that a swap has
overtaken has read only zeros, and no total wraps around. -/
def SwapsEarly (keys : List SyncedSeries) (s : ScrapeSystem) : ScrapeAct → Prop
  | .event k => s.events k + 1 < UInt64.size
  | .sync i =>
    ∀ c ∈ s.scrapes[i]?, c.generation = s.generation ∨
      ∀ row ∈ c.rows, some row.1.family = c.todo.head? → row.2 = 0
  | .swap => ∀ k ∈ keys, s.last s.generation k = none
  | .start | .read _ | .finish _ => True

instance (keys : List SyncedSeries) (s : ScrapeSystem) :
    (a : ScrapeAct) → Decidable (s.SwapsEarly keys a)
  | .event _ => inferInstanceAs (Decidable (_ < _))
  | .sync _ => inferInstanceAs (Decidable (∀ _ ∈ _, _))
  | .swap => inferInstanceAs (Decidable (∀ _ ∈ _, _))
  | .start | .read _ | .finish _ => .isTrue trivial

end ScrapeSystem

/-- The totals of `keys` are those that a scrape reads. -/
abbrev scrapeSystem (keys : List SyncedSeries) : Lts where
  St := ScrapeSystem
  Act := ScrapeAct
  init s := s = {}
  step := ScrapeSystem.step keys

/-! ## The sync of a family -/

/-- The counters have what was synced last, which no total is below; only `keys` are synced. -/
structure Synced.Balanced (keys : List SyncedSeries) (src : SyncedSeries → UInt64) (x : Synced) :
    Prop where
  counter : ∀ k, x.counter k = (x.last k).getD 0
  source : ∀ k, x.counter k ≤ src k
  others : ∀ k ∉ keys, x.last k = none

variable {keys : List SyncedSeries} {src : SyncedSeries → UInt64} {x : Synced}

/-- A row that has grown sets the counter to its total. -/
theorem counter_add (h : x.Balanced keys src) (row : SyncRow) :
    x.counter row.1 + (row.2 - (x.last row.1).getD 0) = row.2 := by
  rw [← h.counter, UInt64.add_comm, UInt64.sub_add_cancel]

theorem syncOne_counter (h : x.Balanced keys src) (row : SyncRow) (k : SyncedSeries) :
    (syncOne x row).counter k =
      if k = row.1 ∧ x.counter row.1 < row.2 then row.2 else x.counter k := by
  simp only [syncOne, gt_iff_lt, ← h.counter]
  by_cases hlt : x.counter row.1 < row.2
  · by_cases hk : k = row.1
    · subst hk
      simp only [hlt, if_true, and_self, update_self]
      simpa only [h.counter] using counter_add h row
    · simp [hlt, hk]
  · simp [hlt]

theorem balanced_syncOne (h : x.Balanced keys src) {row : SyncRow} (hk : row.1 ∈ keys)
    (hle : row.2 ≤ src row.1) : (syncOne x row).Balanced keys src := by
  refine ⟨fun k => ?_, fun k => ?_, fun k hno => ?_⟩
  · have hc := counter_add h row
    unfold syncOne
    simp only
    split
    · by_cases heq : k = row.1
      · subst heq
        simpa using hc
      · simpa [heq] using h.counter k
    · exact h.counter k
  · rw [syncOne_counter h]
    split
    · rename_i heq
      exact heq.1 ▸ hle
    · exact h.source k
  · have heq : k ≠ row.1 := fun heq => hno (heq ▸ hk)
    unfold syncOne
    simp only
    split
    · simpa [heq] using h.others k hno
    · exact h.others k hno

/-- No counter falls, and that of the row has its total. -/
theorem le_syncOne (h : x.Balanced keys src) (row : SyncRow) :
    (∀ k, x.counter k ≤ (syncOne x row).counter k) ∧ row.2 ≤ (syncOne x row).counter row.1 := by
  refine ⟨fun k => ?_, ?_⟩ <;> rw [syncOne_counter h] <;> split
  · rename_i hk
    exact hk.1 ▸ UInt64.le_of_lt hk.2
  · exact UInt64.le_refl _
  · exact UInt64.le_refl _
  · rename_i hk
    exact UInt64.not_lt.mp fun hlt => hk ⟨rfl, hlt⟩

variable {rows : List SyncRow}

/-- The loop over the rows: it keeps the balance, and no row is above what is synced. -/
theorem balanced_syncRows (h : x.Balanced keys src)
    (hrows : ∀ row ∈ rows, row.1 ∈ keys ∧ row.2 ≤ src row.1) :
    (syncRows rows x).Balanced keys src ∧
      (∀ k, x.counter k ≤ (syncRows rows x).counter k) ∧
      ∀ row ∈ rows, row.2 ≤ (syncRows rows x).counter row.1 := by
  induction rows generalizing x with
  | nil => exact ⟨h, fun _ => UInt64.le_refl _, fun _ hr => by cases hr⟩
  | cons row rows ih =>
    obtain ⟨hk, hle⟩ := hrows row List.mem_cons_self
    obtain ⟨hgrow, hrow⟩ := le_syncOne h row
    obtain ⟨hbal, hmono, hall⟩ := ih (balanced_syncOne h hk hle) fun r hr =>
      hrows r (List.mem_cons_of_mem _ hr)
    refine ⟨hbal, fun k => UInt64.le_trans (hgrow k) (hmono k), fun r hr => ?_⟩
    rcases List.mem_cons.mp hr with rfl | hr
    · exact UInt64.le_trans hrow (hmono r.1)
    · exact hall r hr

/-- Every key of the family that has been synced was seen, so nothing is forgotten. -/
theorem retainSeen_eq {f : SyncedFamily}
    (hseen : ∀ k, k.family = f → k ∉ rows.map (·.1) → x.last k = none) :
    retainSeen f rows x = x := by
  have hlast :
      (fun k => if k.family = f ∧ k ∉ rows.map (·.1) then none else x.last k) = x.last := by
    funext k
    split
    · rename_i hk
      exact (hseen k hk.1 hk.2).symm
    · rfl
  rw [retainSeen, hlast]

theorem balanced_syncFamily (h : x.Balanced keys src) (hkeys : rows.map (·.1) = keys)
    (hrows : ∀ row ∈ rows, row.2 ≤ src row.1) (f : SyncedFamily) :
    (syncFamily f rows x).Balanced keys src ∧
      (∀ k, x.counter k ≤ (syncFamily f rows x).counter k) ∧
      ∀ row ∈ rows, row.1.family = f → row.2 ≤ (syncFamily f rows x).counter row.1 := by
  have hmine : ∀ row ∈ rows.filter (·.1.family = f), row.1 ∈ keys ∧ row.2 ≤ src row.1 := by
    intro row hr
    have hmem := (List.mem_filter.mp hr).1
    exact ⟨hkeys ▸ List.mem_map_of_mem hmem, hrows row hmem⟩
  obtain ⟨hbal, hmono, hall⟩ := balanced_syncRows h hmine
  have hretain : syncFamily f rows x = syncRows (rows.filter (·.1.family = f)) x := by
    refine retainSeen_eq fun k hf hno => hbal.others k fun hk => hno ?_
    rw [← hkeys] at hk
    obtain ⟨row, hrow, rfl⟩ := List.mem_map.mp hk
    exact List.mem_map_of_mem (List.mem_filter.mpr ⟨hrow, by simpa using hf⟩)
  rw [hretain]
  exact ⟨hbal, hmono, fun row hr hf => hall row (List.mem_filter.mpr ⟨hr, by simpa using hf⟩)⟩

/-- A registry that has synced nothing adds nothing for zeros. -/
theorem syncFamily_zero {f : SyncedFamily} (hlast : ∀ k, x.last k = none)
    (hzero : ∀ row ∈ rows, row.1.family = f → row.2 = 0) : syncFamily f rows x = x := by
  have hrows : ∀ mine : List SyncRow, (∀ row ∈ mine, row.2 = 0) → syncRows mine x = x := by
    intro mine hmine
    induction mine with
    | nil => rfl
    | cons row mine ih =>
      have hone : syncOne x row = x := by
        simp [syncOne, hlast, hmine row List.mem_cons_self]
      rw [syncRows, List.foldl_cons, hone]
      exact ih fun r hr => hmine r (List.mem_cons_of_mem _ hr)
  rw [syncFamily, hrows]
  · exact retainSeen_eq fun k _ _ => hlast k
  · intro row hr
    obtain ⟨hmem, hf⟩ := List.mem_filter.mp hr
    exact hzero row hmem (by simpa using hf)

/-! ## Runs -/

namespace ScrapeSystem

/-- The counters and the last synced totals of the registry in use. -/
def synced (s : ScrapeSystem) : Synced := ⟨s.counter, s.last s.generation⟩

/-- What a scrape has read and synced. -/
structure ScrapeOk (keys : List SyncedSeries) (source counter : SyncedSeries → UInt64)
    (c : Scrape) : Prop where
  read : c.rows.map (·.1) = keys.take c.rows.length
  rows : ∀ row ∈ c.rows, row.2 ≤ source row.1
  quiet : c.quiet = true → ∀ row ∈ c.rows, row.2 = source row.1
  synced : ∀ f ∉ c.todo, c.rows.length = keys.length ∧
    ∀ row ∈ c.rows, row.1.family = f → row.2 ≤ counter row.1

/-- The invariant of the runs that swap early: only the registry in use has synced anything. -/
structure Inv (keys : List SyncedSeries) (s : ScrapeSystem) : Prop where
  total : ∀ k, (s.source k).toNat = s.events k
  balanced : s.synced.Balanced keys s.source
  unused : ∀ g ≠ s.generation, ∀ k, s.last g k = none
  scrapes : ∀ c ∈ s.scrapes, ScrapeOk keys s.source s.counter c

theorem inv_init : Inv keys {} where
  total _ := rfl
  balanced := ⟨fun _ => rfl, fun _ => UInt64.le_refl _, fun _ _ => rfl⟩
  unused _ _ _ := rfl
  scrapes c hc := by cases hc

variable {s : ScrapeSystem}

theorem Inv.event (h : s.Inv keys) {k : SyncedSeries} (hno : s.events k + 1 < UInt64.size) :
    Inv keys { s with
      events := update s.events k (s.events k + 1)
      source := update s.source k (s.source k + 1)
      scrapes := s.scrapes.map fun c => { c with quiet := c.quiet && c.rows.isEmpty } } := by
  have hnext : (s.source k + 1).toNat = s.events k + 1 := by
    rw [UInt64.toNat_add, h.total, UInt64.toNat_one]
    exact Nat.mod_eq_of_lt hno
  have hle : ∀ k', s.source k' ≤ update s.source k (s.source k + 1) k' := by
    intro k'
    by_cases hk : k' = k
    · subst hk
      rw [update_self, UInt64.le_iff_toNat_le, hnext, h.total]
      exact Nat.le_succ _
    · rw [update_of_ne hk]
      exact UInt64.le_refl _
  refine ⟨fun k' => ?_, ⟨h.balanced.counter, fun k' =>
    UInt64.le_trans (h.balanced.source k') (hle k'), h.balanced.others⟩, h.unused, fun c hc => ?_⟩
  · by_cases hk : k' = k
    · subst hk
      simpa using hnext
    · simpa [hk] using h.total k'
  · obtain ⟨c, hmem, rfl⟩ := List.mem_map.mp hc
    have ok := h.scrapes c hmem
    refine ⟨ok.read, fun row hr => UInt64.le_trans (ok.rows row hr) (hle row.1),
      fun hq row hr => ?_, ok.synced⟩
    -- a scrape that has read nothing yet stays quiet
    rw [Bool.and_eq_true, List.isEmpty_iff] at hq
    rw [hq.2] at hr
    cases hr

theorem Inv.start (h : s.Inv keys) :
    Inv keys { s with scrapes := s.scrapes ++ [{ generation := s.generation }] } := by
  refine ⟨h.total, h.balanced, h.unused, fun c hc => ?_⟩
  rcases List.mem_append.mp hc with hc | hc
  · exact h.scrapes c hc
  · cases List.mem_singleton.mp hc
    exact ⟨rfl, nofun, fun _ => nofun, fun f hf => absurd (by cases f <;> simp) hf⟩

variable {c : Scrape} {i : Nat}

theorem Inv.readNext (h : s.Inv keys) {k : SyncedSeries} (hc : s.scrapes[i]? = some c)
    (hk : keys[c.rows.length]? = some k) :
    Inv keys { s with
      scrapes := s.scrapes.set i { c with rows := c.rows ++ [(k, s.source k)] } } := by
  have ok := h.scrapes c (List.mem_of_getElem? hc)
  have hlt : c.rows.length < keys.length := (List.getElem?_eq_some_iff.mp hk).1
  refine ⟨h.total, h.balanced, h.unused, fun c' hc' => ?_⟩
  rcases List.mem_or_eq_of_mem_set hc' with hold | rfl
  · exact h.scrapes c' hold
  · refine ⟨?_, fun row hr => ?_, fun hq row hr => ?_, fun f hf => ?_⟩
    · simp only [List.map_append, List.map_cons, List.map_nil, List.length_append, List.length_cons,
        List.length_nil, Nat.zero_add, List.take_add_one, hk, ok.read, Option.toList_some]
    · rcases List.mem_append.mp hr with hr | hr
      · exact ok.rows row hr
      · cases List.mem_singleton.mp hr
        exact UInt64.le_refl _
    · rcases List.mem_append.mp hr with hr | hr
      · exact ok.quiet hq row hr
      · cases List.mem_singleton.mp hr
        rfl
    · exact absurd (ok.synced f hf).1 (Nat.ne_of_lt hlt)

variable {f : SyncedFamily} {rest : List SyncedFamily}

/-- What a sync has to do: no counter falls, and those of the family have the totals read. -/
theorem Inv.synced (h : s.Inv keys) (hc : s.scrapes[i]? = some c) (htodo : c.todo = f :: rest)
    (hall : c.rows.length = keys.length) {counter : SyncedSeries → UInt64}
    {last : Nat → SyncedSeries → Option UInt64}
    (hbal : Synced.Balanced keys s.source ⟨counter, last s.generation⟩)
    (hunused : ∀ g ≠ s.generation, ∀ k, last g k = none)
    (hmono : ∀ k, s.counter k ≤ counter k)
    (hrows : ∀ row ∈ c.rows, row.1.family = f → row.2 ≤ counter row.1) :
    Inv keys { s with
      counter := counter
      last := last
      scrapes := s.scrapes.set i { c with todo := rest } } := by
  have hkept : ∀ c' ∈ s.scrapes, ScrapeOk keys s.source counter c' := by
    intro c' hmem
    have ok := h.scrapes c' hmem
    exact ⟨ok.read, ok.rows, ok.quiet, fun f' hf => ⟨(ok.synced f' hf).1, fun row hr hfam =>
      UInt64.le_trans ((ok.synced f' hf).2 row hr hfam) (hmono row.1)⟩⟩
  refine ⟨h.total, hbal, hunused, fun c' hc' => ?_⟩
  rcases List.mem_or_eq_of_mem_set hc' with hold | rfl
  · exact hkept c' hold
  · have ok := hkept c (List.mem_of_getElem? hc)
    refine ⟨ok.read, ok.rows, ok.quiet, fun f' hf => ⟨hall, fun row hr hfam => ?_⟩⟩
    by_cases heq : f' = f
    · exact hrows row hr (hfam.trans heq)
    · have hno : f' ∉ c.todo := by simpa [htodo, heq] using hf
      exact (ok.synced f' hno).2 row hr hfam

/-- A scrape of the registry in use syncs its totals; one that a swap has overtaken adds nothing. -/
theorem Inv.sync (h : s.Inv keys) (hc : s.scrapes[i]? = some c) (htodo : c.todo = f :: rest)
    (hall : c.rows.length = keys.length)
    (hcond : c.generation = s.generation ∨ ∀ row ∈ c.rows, row.1.family = f → row.2 = 0) :
    Inv keys { s with
      counter := (syncFamily f c.rows ⟨s.counter, s.last c.generation⟩).counter
      last := update s.last c.generation
        (syncFamily f c.rows ⟨s.counter, s.last c.generation⟩).last
      scrapes := s.scrapes.set i { c with todo := rest } } := by
  have ok := h.scrapes c (List.mem_of_getElem? hc)
  have hkeys : c.rows.map (·.1) = keys := by
    rw [ok.read, hall, List.take_length]
  by_cases hgen : c.generation = s.generation
  · have hnow : Synced.Balanced keys s.source ⟨s.counter, s.last c.generation⟩ := hgen ▸ h.balanced
    obtain ⟨hbal, hmono, hrows⟩ := balanced_syncFamily hnow hkeys ok.rows f
    refine h.synced hc htodo hall ?_ (fun g hg k => ?_) hmono hrows
    · rwa [← hgen, update_self]
    · rw [update_of_ne (hgen ▸ hg)]
      exact h.unused g hg k
  · have hzero := hcond.resolve_left hgen
    rw [syncFamily_zero (h.unused _ hgen) hzero]
    simp only [update_eq_self]
    refine h.synced hc htodo hall h.balanced h.unused (fun k => UInt64.le_refl _)
      fun row hr hf => ?_
    rw [hzero row hr hf]
    exact UInt64.zero_le

theorem Inv.finish (h : s.Inv keys) (i : Nat) :
    Inv keys { s with scrapes := s.scrapes.eraseIdx i } :=
  ⟨h.total, h.balanced, h.unused, fun c hc =>
    h.scrapes c ((List.eraseIdx_sublist _ _).subset hc)⟩

/-- Before the first sync the counters are zero, as a new registry takes them to be. -/
theorem Inv.swap (h : s.Inv keys) (hnone : ∀ k ∈ keys, s.last s.generation k = none) :
    Inv keys { s with generation := s.generation + 1 } := by
  have hlast : ∀ g k, s.last g k = none := by
    intro g k
    by_cases hg : g = s.generation
    · subst hg
      by_cases hk : k ∈ keys
      · exact hnone k hk
      · exact h.balanced.others k hk
    · exact h.unused g hg k
  refine ⟨h.total, ⟨fun k => ?_, h.balanced.source, fun k _ => hlast _ k⟩, fun g _ => hlast g,
    h.scrapes⟩
  have hzero := h.balanced.counter k
  simp only [ScrapeSystem.synced, hlast] at hzero ⊢
  exact hzero

theorem Inv.step {s' : ScrapeSystem} (h : s.Inv keys) {a : ScrapeAct} (hc : s.SwapsEarly keys a)
    (hs : s.step keys a = some s') : s'.Inv keys := by
  cases a with
  | event k =>
    cases hs
    exact h.event hc
  | start =>
    cases hs
    exact h.start
  | read i =>
    simp only [ScrapeSystem.step] at hs
    split at hs
    · cases hs
    · rename_i c hi
      split at hs <;> cases hs
      rename_i k hk
      exact h.readNext hi hk
  | sync i =>
    simp only [ScrapeSystem.step] at hs
    split at hs
    · cases hs
    · rename_i c hi
      split at hs
      · cases hs
      · rename_i f rest htodo
        split at hs <;> cases hs
        rename_i hall
        refine h.sync hi htodo hall ((hc c hi).imp_right fun hzero row hr hf => ?_)
        exact hzero row hr (by rw [htodo, hf]; rfl)
  | finish i =>
    simp only [ScrapeSystem.step] at hs
    split at hs
    · cases hs
    · split at hs <;> cases hs
      exact h.finish i
  | swap =>
    cases hs
    exact h.swap hc

/-- What a quiet scrape has read is the total, and what it has synced is in the counters. -/
theorem Inv.exact (h : s.Inv keys) : s.Exact keys := by
  intro c hc htodo hquiet k hk
  have ok := h.scrapes c hc
  have hdone := ok.synced k.family (by simp [htodo])
  have hkeys : c.rows.map (·.1) = keys := by rw [ok.read, hdone.1, List.take_length]
  rw [← hkeys] at hk
  obtain ⟨row, hrow, rfl⟩ := List.mem_map.mp hk
  have hle := hdone.2 row hrow rfl
  rw [ok.quiet hquiet row hrow] at hle
  have hcounter : s.counter row.1 = s.source row.1 :=
    UInt64.le_antisymm (h.balanced.source row.1) hle
  rw [hcounter, h.total]

end ScrapeSystem

end Conduit
