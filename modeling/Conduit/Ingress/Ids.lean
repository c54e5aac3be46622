import Conduit.Health.Selection
import Conduit.Lib.Lts
import Conduit.Slots.Store

/-!
# Transaction ids

How the ingress workers of the two runtimes give ids to transactions. In the synchronous runtime
(`conduit-dataplane/src/listener`) every worker has a counter that each datagram advances, also one
that is not admitted, and the worker runs a query to its end before it reads the next. In the split
runtime (`runtime/split_io/ingress.rs`) the id is the index of the slot, which comes off a free list
that all workers share and goes back to it when the transaction ends.

Selection and cadence are functions of the id: the weighted pick of the route stage
(`selectBackend`) and the selector `every_nth_worker`.

- `IngressWorld`, `ingressWorld`: the workers, the slots and the transactions that run.
- `InOrder`: the next id of a worker follows its last one.
- `queries_balanced`: then every full period of queries is spread by the weights, and every `n`
  queries match the cadence once.
-/

namespace Conduit

open Config (Pool Backend effectiveBackendWeight)

def matchesEveryNthWorker (txnId nth : Nat) : Bool := nth ≥ 1 && txnId % nth == 0

inductive DataplaneRuntime where
  | sync | splitIo
  deriving DecidableEq, Repr

structure TraceEvent where
  phase : String
  elapsedUs : Nat := 0
  message : Option String := none
  pool : Option String := none
  backend : Option String := none
  cache : Option String := none
  deriving DecidableEq, Repr

/-- A transaction that runs. -/
structure IngressTxn where
  worker : Nat
  id : Nat
  slot : SlotId
  deriving DecidableEq, Repr

structure IngressWorld where
  runtime : DataplaneRuntime
  slots : Store
  /-- The `next_id` of a worker of the synchronous runtime. -/
  nextId : Nat → Nat := fun _ => 1
  active : List IngressTxn := []
  /-- The ids that a worker has given, in order. -/
  queries : Nat → List Nat := fun _ => []
  now : Nat := 0

inductive IngressAct where
  /-- A datagram is dropped or refused by the access list, or cannot be parsed. -/
  | reject (worker : Nat)
  | query (worker : Nat)
  /-- A transaction ends, with what its trace has recorded. -/
  | finish (k : Nat) (events : List TraceEvent)
  | tick (time : Nat)
  deriving DecidableEq, Repr

def Store.releaseActive (s : Store) (id : SlotId) : Store :=
  match s.clearActive id with
  | (s, .ok true) => s.returnToFree id
  | (s, _) => s

namespace IngressWorld

variable (s : IngressWorld)

/-- A worker of the synchronous runtime runs its query to the end. -/
def Busy (worker : Nat) : Prop := s.runtime = .sync ∧ ∃ t ∈ s.active, t.worker = worker

instance (worker : Nat) : Decidable (s.Busy worker) := inferInstanceAs (Decidable (_ ∧ _))

/-- `next_id.wrapping_add(1)`; the split runtime has no counter. -/
def bump (worker : Nat) : IngressWorld :=
  match s.runtime with
  | .sync => { s with nextId := Function.update s.nextId worker ((s.nextId worker + 1) % 2 ^ 64) }
  | .splitIo => s

def idFor (worker : Nat) (slot : SlotId) : Nat :=
  match s.runtime with
  | .sync => s.nextId worker
  | .splitIo => slot

/-- The transaction of a query, in its slot. -/
def begin (worker : Nat) (slot : SlotId) : IngressWorld :=
  let id := s.idFor worker slot
  { s with
    slots := s.slots.markIngress slot
    active := s.active ++ [⟨worker, id, slot⟩]
    queries := Function.update s.queries worker (s.queries worker ++ [id]) }

def step : IngressAct → Option IngressWorld
  | .reject worker => if s.Busy worker then none else some (s.bump worker)
  | .query worker =>
    if s.Busy worker then none
    else
      match s.slots.takeFree with
      | none => none
      -- the query is dropped
      | some (slots, .error _) => some ({ s with slots := slots }.bump worker)
      | some (slots, .ok slot) => some (({ s with slots := slots }.begin worker slot).bump worker)
  | .finish k _ =>
    match s.active[k]? with
    | none => none
    | some t =>
      some { s with slots := s.slots.releaseActive t.slot, active := s.active.eraseIdx k }
  | .tick time => some { s with now := s.now + time }

end IngressWorld

/-- The system; at the start no slot is allocated. -/
abbrev ingressWorld : Lts where
  St := IngressWorld
  Act := IngressAct
  init s := ∃ runtime capacity chunkSize capacity_pos chunkSize_pos now,
    s = {
      runtime := runtime
      slots := ⟨capacity, chunkSize, [], [], 0, capacity_pos, chunkSize_pos⟩
      now := now }
  step := IngressWorld.step

/-- The id that a query of the worker gets follows the last one: upwards from the counter, or
downwards through the free list. No number wraps. -/
def InOrder (generation worker : Nat) (s : IngressWorld) : IngressAct → Prop
  | .query w => w = worker →
    (s.runtime = .sync → s.nextId worker + generation < 2 ^ 64 ∧
      ∀ last ∈ (s.queries worker).getLast?, s.nextId worker = last + 1) ∧
    (s.runtime = .splitIo → s.slots.capacity + generation ≤ 2 ^ 64 ∧
      ∀ last ∈ (s.queries worker).getLast?, ∃ slot ∈ s.slots.freeList.head?, slot + 1 = last)
  | _ => True

instance (generation worker : Nat) (s : IngressWorld) :
    ∀ a, Decidable (InOrder generation worker s a)
  | .query w => inferInstanceAs (Decidable (w = worker → _))
  | .reject _ | .finish _ _ | .tick _ => .isTrue trivial

/-! ## The slots -/

namespace Store

variable {s s' : Store}

/-- Free slots are allocated, within the capacity. -/
structure Bounded (s : Store) : Prop where
  allocated : s.allocated ≤ s.capacity
  free : ∀ id ∈ s.freeList, id < s.allocated

theorem Bounded.withSlotExclusive {α : Type} (h : s.Bounded) (id : SlotId)
    (f : TxnSlot → TxnSlot × Except SlotError α) : (s.withSlotExclusive id f).1.Bounded := by
  rw [withSlotExclusive_fst]
  exact ⟨by simpa [Store.allocated] using h.allocated, by simpa [Store.allocated] using h.free⟩

theorem Bounded.takeFree (h : s.Bounded) {r : Except AcquireError SlotId}
    (he : s.takeFree = some (s', r)) :
    s'.Bounded ∧ s'.capacity = s.capacity ∧ ∀ id, r = .ok id → id < s.capacity := by
  obtain ⟨rfl, -, -, rfl⟩ | ⟨id, rest, rfl, ⟨hfree, rfl⟩ | ⟨-, grown, hgrow, hfree, rfl⟩⟩ :=
    takeFree_cases he
  · exact ⟨⟨h.allocated, h.free⟩, rfl, nofun⟩
  · refine ⟨⟨h.allocated, fun id hid => h.free id (hfree ▸ List.mem_cons_of_mem _ hid)⟩, rfl, ?_⟩
    rintro _ ⟨⟩
    exact Nat.lt_of_lt_of_le (h.free id (hfree ▸ List.mem_cons_self)) h.allocated
  · obtain ⟨n, -, hn, hg⟩ := grown_of_growChunk hgrow
    have hall : grown.Bounded := by
      refine ⟨by rw [hg.allocated, hg.capacity]; exact hn, fun id hid => ?_⟩
      rw [hg.freeList] at hid
      rcases List.mem_append.mp hid with hid | hid
      · exact hg.allocated ▸ (List.mem_range'_1.mp (List.mem_reverse.mp hid)).2
      · exact hg.allocated ▸ Nat.lt_add_right n (h.free id hid)
    refine ⟨⟨hall.allocated, fun id hid => hall.free id (hfree ▸ List.mem_cons_of_mem _ hid)⟩,
      hg.capacity, ?_⟩
    rintro _ ⟨⟩
    have := Nat.lt_of_lt_of_le (hall.free id (hfree ▸ List.mem_cons_self)) hall.allocated
    rwa [hg.capacity] at this

theorem Bounded.releaseActive (h : s.Bounded) (id : SlotId) :
    (s.releaseActive id).Bounded ∧ (s.releaseActive id).capacity = s.capacity := by
  have hclear := h.withSlotExclusive id fun slot =>
    if slot.state = .free then (slot, .ok false) else ({}, .ok true)
  have hcap : (s.clearActive id).1.capacity = s.capacity := by
    rw [clearActive, withSlotExclusive_fst]
  change (s.clearActive id).1.Bounded at hclear
  unfold Store.releaseActive
  split
  · rename_i s₁ he
    rw [he] at hclear hcap
    refine ⟨⟨hclear.allocated, fun i hi => ?_⟩, hcap⟩
    rcases List.mem_cons.mp hi with rfl | hi
    · -- only a slot that exists is cleared
      have hsome : s.slots[i]? ≠ none := by
        intro hnone
        simp [clearActive, Store.withSlotExclusive, hnone] at he
      have hlt : i < s.slots.length := by simpa using hsome
      have hlen : s₁.allocated = s.allocated := by
        have := congrArg (fun r => r.1.allocated) he
        simp only [clearActive, withSlotExclusive_fst] at this
        rw [← this]
        simp [Store.allocated]
      exact hlen ▸ hlt
    · exact hclear.free i hi
  · rename_i s₁ _ _ he
    rw [he] at hclear hcap
    exact ⟨hclear, hcap⟩

end Store

/-! ## What a step does -/

namespace IngressWorld

variable {s s' : IngressWorld} {worker : Nat}

@[simp] theorem bump_runtime : (s.bump worker).runtime = s.runtime := by
  unfold bump
  split <;> rfl

@[simp] theorem bump_slots : (s.bump worker).slots = s.slots := by
  unfold bump
  split <;> rfl

@[simp] theorem bump_queries : (s.bump worker).queries = s.queries := by
  unfold bump
  split <;> rfl

/-- A step gives one id at most, and keeps the bounds of the slots. -/
theorem step_spec {a : IngressAct} (h : s.slots.Bounded) (he : s.step a = some s') :
    s'.runtime = s.runtime ∧ s'.slots.Bounded ∧
      (s'.queries = s.queries ∨ ∃ worker slots slot,
        a = .query worker ∧ s.slots.takeFree = some (slots, .ok slot) ∧
        s'.queries =
          Function.update s.queries worker (s.queries worker ++ [s.idFor worker slot])) := by
  cases a with
  | reject worker =>
    simp only [step] at he
    split at he
    · cases he
    · cases he
      exact ⟨bump_runtime, by simpa using h, .inl bump_queries⟩
  | query worker =>
    simp only [step] at he
    split at he
    · cases he
    split at he
    · cases he
    · rename_i slots _ htake
      cases he
      exact ⟨bump_runtime, by simpa using (h.takeFree htake).1, .inl bump_queries⟩
    · rename_i slots slot htake
      cases he
      refine ⟨bump_runtime, ?_, .inr ⟨worker, slots, slot, rfl, htake, bump_queries⟩⟩
      rw [bump_slots]
      exact (h.takeFree htake).1.withSlotExclusive slot _
  | finish k events =>
    simp only [step] at he
    split at he
    · cases he
    · cases he
      exact ⟨rfl, (h.releaseActive _).1, .inl rfl⟩
  | tick time =>
    cases he
    exact ⟨rfl, h, .inl rfl⟩

end IngressWorld

/-! ## Ids in order -/

/-- The ids of a worker are consecutive, upwards or downwards, and none wraps. -/
structure Consecutive (generation worker : Nat) (s : IngressWorld) : Prop where
  bounded : s.slots.Bounded
  fits : ∀ id ∈ s.queries worker, id + generation < 2 ^ 64
  ids : match s.runtime with
    | .sync => ∃ first n, s.queries worker = List.range' first n
    | .splitIo => ∃ first n, s.queries worker = (List.range' first n).reverse

variable {first n : Nat} {ids : List Nat}

theorem range'_append_last {id : Nat} (hids : ids = List.range' first n)
    (hlast : ∀ last ∈ ids.getLast?, id = last + 1) :
    ∃ first n, ids ++ [id] = List.range' first n := by
  subst hids
  cases n with
  | zero => exact ⟨id, 1, rfl⟩
  | succ n =>
    have hid := hlast (first + n) (by simp [List.range'_concat])
    refine ⟨first, n + 2, ?_⟩
    rw [hid, List.range'_concat (n := n + 1), Nat.one_mul, Nat.add_assoc]

theorem range'_reverse_append_last {id : Nat} (hids : ids = (List.range' first n).reverse)
    (hlast : ∀ last ∈ ids.getLast?, id + 1 = last) :
    ∃ first n, ids ++ [id] = (List.range' first n).reverse := by
  subst hids
  cases n with
  | zero => exact ⟨id, 1, rfl⟩
  | succ n =>
    have hid := hlast first (by simp [List.range'_succ])
    refine ⟨id, n + 2, ?_⟩
    rw [← hid, List.range'_succ (n := n + 1), List.reverse_cons]

variable {worker generation : Nat} {s : IngressWorld}

theorem Consecutive.step {s' : IngressWorld} {a : IngressAct} (h : Consecutive generation worker s)
    (hc : InOrder generation worker s a) (he : s.step a = some s') :
    Consecutive generation worker s' := by
  obtain ⟨hruntime, hbounded, hsame | ⟨w, slots, slot, rfl, htake, hqueries⟩⟩ :=
    IngressWorld.step_spec h.bounded he
  · exact ⟨hbounded, hsame ▸ h.fits, by rw [hruntime, hsame]; exact h.ids⟩
  by_cases hw : w = worker
  · subst hw
    have horder := hc rfl
    have hids := h.ids
    have hnew : s'.queries w = s.queries w ++ [s.idFor w slot] := by
      rw [hqueries, Function.update_self]
    have hfits : s.idFor w slot + generation < 2 ^ 64 → ∀ id ∈ s'.queries w,
        id + generation < 2 ^ 64 := by
      intro hlt id hid
      rw [hnew, List.mem_append, List.mem_singleton] at hid
      rcases hid with hid | rfl
      · exact h.fits id hid
      · exact hlt
    cases hr : s.runtime with
    | sync =>
      have horder := horder.1 hr
      rw [hr] at hids
      obtain ⟨first, n, hids⟩ := hids
      have hid : s.idFor w slot = s.nextId w := by rw [IngressWorld.idFor, hr]
      refine ⟨hbounded, hfits (hid ▸ horder.1), ?_⟩
      rw [hruntime, hr, hnew, hid]
      exact range'_append_last hids horder.2
    | splitIo =>
      have horder := horder.2 hr
      rw [hr] at hids
      obtain ⟨first, n, hids⟩ := hids
      have hid : s.idFor w slot = slot := by rw [IngressWorld.idFor, hr]
      have hcap := (h.bounded.takeFree htake).2.2 slot rfl
      have hlt : s.idFor w slot + generation < 2 ^ 64 := by
        rw [hid]
        exact Nat.lt_of_lt_of_le (Nat.add_lt_add_right hcap generation) horder.1
      refine ⟨hbounded, hfits hlt, ?_⟩
      rw [hruntime, hr, hnew, hid]
      refine range'_reverse_append_last hids fun last hlast => ?_
      -- the slot is the head of the free list
      obtain ⟨top, htop, hsucc⟩ := horder.2 last hlast
      obtain ⟨hok, -⟩ | ⟨id, rest, hok, ⟨hfree, -⟩ | ⟨hempty, -⟩⟩ := Store.takeFree_cases htake
      · cases hok
      · cases hok
        rw [hfree, List.head?_cons] at htop
        cases htop
        exact hsucc
      · rw [hempty] at htop
        cases htop
  · have hother : s'.queries worker = s.queries worker := by
      rw [hqueries, Function.update_of_ne (Ne.symm hw)]
    exact ⟨hbounded, hother ▸ h.fits, by rw [hruntime, hother]; exact h.ids⟩

theorem consecutive_of_reach (hr : ingressWorld.Reach (InOrder generation worker) s) :
    Consecutive generation worker s := by
  refine Lts.Reach.inv (fun s hi => ?_) (fun s a s' _ h hc he => h.step hc he) hr
  obtain ⟨runtime, capacity, chunkSize, hcap, hchunk, now, rfl⟩ := hi
  refine ⟨⟨Nat.zero_le _, nofun⟩, nofun, ?_⟩
  cases runtime <;> exact ⟨0, 0, rfl⟩

variable {win : List Nat}

/-- A window of consecutive numbers is one. -/
theorem infix_range' (h : win <:+: List.range' first n) :
    ∃ first', win = List.range' first' win.length := by
  obtain ⟨l, r, h⟩ := h
  obtain ⟨k, -, hl, -⟩ := List.range'_eq_append_iff.mp h.symm
  obtain ⟨j, -, -, rfl⟩ := List.range'_eq_append_iff.mp hl.symm
  exact ⟨first + j * 1, by rw [List.length_range']⟩

/-- The ids of a window are consecutive numbers. -/
theorem Consecutive.window (h : Consecutive generation worker s) (hwin : win <:+: s.queries worker) :
    ∃ first, win.Perm (List.range' first win.length) ∧
      ∀ id ∈ List.range' first win.length, id + generation < 2 ^ 64 := by
  have hfits : ∀ id ∈ win, id + generation < 2 ^ 64 := fun id hid => h.fits id (hwin.subset hid)
  have hperm : ∃ first, win.Perm (List.range' first win.length) := by
    have hids := h.ids
    cases hr : s.runtime with
    | sync =>
      rw [hr] at hids
      obtain ⟨first, n, hids⟩ := hids
      obtain ⟨first, hfirst⟩ := infix_range' (hids ▸ hwin)
      exact ⟨first, .of_eq hfirst⟩
    | splitIo =>
      rw [hr] at hids
      obtain ⟨first, n, hids⟩ := hids
      have hrev : win.reverse <:+: List.range' first n := by
        rw [hids] at hwin
        simpa using List.reverse_infix.mpr hwin
      obtain ⟨first, hfirst⟩ := infix_range' hrev
      rw [List.length_reverse] at hfirst
      exact ⟨first, (List.reverse_perm win).symm.trans (.of_eq hfirst)⟩
  obtain ⟨first, hperm⟩ := hperm
  exact ⟨first, hperm, fun id hid => hfits id (hperm.mem_iff.mpr hid)⟩

/-- `n` consecutive numbers match the cadence once. -/
theorem countP_everyNth (hn : 1 ≤ n) (first : Nat) :
    (List.range' first n).countP (matchesEveryNthWorker · n) = 1 := by
  have hwindow := @Weighted.countP_window _ (List.range n) (· == 0) first
  rw [List.length_range] at hwindow
  have hcongr : (List.range' first n).countP (matchesEveryNthWorker · n) =
      (List.range' first n).countP fun m => (List.range n)[m % n]?.any (· == 0) := by
    refine List.countP_congr fun m _ => ?_
    have hlt := Nat.mod_lt m hn
    simp [matchesEveryNthWorker, hn, hlt]
  rw [hcongr, hwindow]
  exact List.count_eq_one_of_mem List.nodup_range (List.mem_range.mpr hn)

/-- When the ids of a worker stay in order, its queries are spread exactly by the weights, and
match the cadence exactly. -/
theorem queries_balanced {parse : String → Option String} {pools : List Pool} {pool : Pool}
    (hpool : pools.find? (·.name == pool.name) = some pool) (health : Option RouteHealth)
    {generation worker : Nat} {s : IngressWorld}
    (hr : ingressWorld.Reach (InOrder generation worker) s) :
    (∀ win, win <:+: s.queries worker → win.length = firstTotal parse pool health →
      ∀ addr, (win.countP fun id => selectBackend parse pools pool.name id generation 0 []
        (health.map (·.view pool.name)) = some (pool.name, addr)) =
          addrWeight parse pool health addr) ∧
    ∀ win n, win <:+: s.queries worker → win.length = n → 1 ≤ n →
      win.countP (matchesEveryNthWorker · n) = 1 := by
  have hcons := consecutive_of_reach hr
  refine ⟨fun win hwin hlen addr => ?_, fun win n hwin hlen hn => ?_⟩
  · obtain ⟨first, hperm, hwrap⟩ := hcons.window hwin
    rw [hlen] at hperm hwrap
    rw [hperm.countP_eq]
    exact countP_select_window hpool health hwrap addr
  · obtain ⟨first, hperm, -⟩ := hcons.window hwin
    rw [hlen] at hperm
    rw [hperm.countP_eq]
    exact countP_everyNth hn first

/-- Two backends of the same weight. -/
def evenPool : Pool where
  name := "p"
  backends := [{ address := "a", weight := some 1 }, { address := "b", weight := some 1 }]

/-- A start with four slots, in chunks of four. -/
def ingressStart (runtime : DataplaneRuntime) : IngressWorld where
  runtime := runtime
  slots := ⟨4, 4, [], [], 0, by decide, by decide⟩

theorem ingressStart_init (runtime : DataplaneRuntime) : ingressWorld.init (ingressStart runtime) :=
  ⟨runtime, 4, 4, by decide, by decide, 0, rfl⟩

/-- Slots that are not released in between. -/
theorem queries_balanced_sample : ∃ s, ingressWorld.Reach (InOrder 7 0) s ∧
    s.queries 0 = [3, 2, 1] ∧
    ([2, 1].countP fun id => selectBackend some [evenPool] "p" id 7 0 [] none = some ("p", "a")) =
      addrWeight some evenPool none "a" := by
  obtain ⟨s, hr, hq⟩ := Lts.exists_exec (L := ingressWorld) (InOrder 7 0)
    [.query 0, .query 0, .query 0] (·.queries 0 = [3, 2, 1])
    (ingressStart_init .splitIo) (by decide +kernel)
  refine ⟨s, hr, hq, ?_⟩
  exact (@queries_balanced some [evenPool] evenPool rfl none 7 0 s hr).1 [2, 1]
    ⟨[3], [], by rw [hq]; rfl⟩ rfl "a"

/-- Queries one after the other: in the split runtime each gets the slot that the last one has
released; in the synchronous runtime a datagram that is rejected takes an id. -/
theorem queries_unbalanced :
    (∃ s, ingressWorld.Reach Lts.Any s ∧ s.runtime = .splitIo ∧ s.queries 0 = [3, 3]) ∧
    (∃ s, ingressWorld.Reach Lts.Any s ∧ s.runtime = .sync ∧ s.queries 0 = [1, 3]) ∧
    (firstTotal some evenPool none = 2 ∧ addrWeight some evenPool none "a" = 1) ∧
    ∀ win ∈ [[3, 3], [1, 3]],
      (win.countP fun id => selectBackend some [evenPool] "p" id 7 0 [] none = some ("p", "a")) =
        2 ∧
      win.countP (matchesEveryNthWorker · 2) = 0 := by
  refine ⟨?_, ?_, by decide, by decide⟩
  · exact Lts.exists_exec (L := ingressWorld) Lts.Any [.query 0, .finish 0 [], .query 0] _
      (ingressStart_init .splitIo) (by decide +kernel)
  · exact Lts.exists_exec (L := ingressWorld) Lts.Any
      [.query 0, .finish 0 [], .reject 0, .query 0] _ (ingressStart_init .sync) (by decide +kernel)

end Conduit
