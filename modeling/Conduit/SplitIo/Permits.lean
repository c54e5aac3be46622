import Mathlib.Data.List.Dedup
import Conduit.SplitIo.Control

/-!
# In-flight permits of the pools

`PoolInflight` counts the permits of a pool: `handle_submit` acquires one for every forward, and
`release_slot` gives one back for the selected pool of the transaction, whether it has one or not.

- `PermitHist`: the permits that each transaction was granted, was refused and gave back, and those
  that it holds.
- `Accounted`: the counter of a pool is the number of transactions that hold a permit of it.
- `Balanced`: no transaction is granted a permit before it gave back the one of that pool, and when
  its slot is released it was granted the permit of its selected pool, and gave back all others.
- `accounted_of_balanced`: then the counters are right in every state; `permit_stolen`: else a
  transaction that was refused gives back the permit of another one.
-/

namespace Conduit

open Function (update update_apply update_of_ne update_self)

inductive PermitEvent where
  | granted | refused | released
  deriving DecidableEq

structure PermitHist where
  /-- What became of the permits of pools with a limit, by transaction. -/
  path : List (Nat × String × PermitEvent) := []
  /-- The transactions that hold a permit, with its pool. -/
  holders : List (Nat × String) := []
  /-- The releases by a transaction that held no permit of the pool. -/
  strays : List (Nat × String) := []

namespace PermitHist

def tryAcquire (h : PermitHist) (n : Nat) (pool : String) : Bool → PermitHist
  | true => { h with path := (n, pool, .granted) :: h.path, holders := (n, pool) :: h.holders }
  | false => { h with path := (n, pool, .refused) :: h.path }

def release (h : PermitHist) (n : Nat) (pool : String) : PermitHist :=
  if (n, pool) ∈ h.holders then
    { h with path := (n, pool, .released) :: h.path, holders := h.holders.erase (n, pool) }
  else { h with path := (n, pool, .released) :: h.path, strays := (n, pool) :: h.strays }

def next (s : IoState) (a : IoAct) (h : PermitHist) : PermitHist :=
  match s.performed a with
  | some (t, ⟨.tryAcquire pool, r⟩) =>
    match s.hist.actor t, s.shared.inflight.limits pool with
    | some n, some _ => h.tryAcquire n pool (r : Bool)
    | _, _ => h
  | some (t, ⟨.releasePool pool, _⟩) =>
    match s.hist.actor t, s.shared.inflight.limits pool with
    | some n, some _ => h.release n pool
    | _, _ => h
  | _ => h

/-- The transaction was granted more permits of the pool than it gave back. -/
def Granted (h : PermitHist) (n : Nat) (pool : String) : Prop :=
  h.path.count (n, pool, .released) < h.path.count (n, pool, .granted)

instance (h : PermitHist) (n : Nat) (pool : String) : Decidable (h.Granted n pool) :=
  inferInstanceAs (Decidable (_ < _))

def holdersOf (h : PermitHist) (pool : String) : List Nat :=
  ((h.holders.filter (·.2 = pool)).map (·.1)).dedup

end PermitHist

/-- The runtime with the history of the permits. -/
abbrev permits (w : SplitWiring) : Lts := (split w).record {} PermitHist.next

/-- The transaction is in a slot, or a thread is still releasing it. -/
def IoState.InProgress (s : IoState) (n : Nat) : Prop :=
  (∃ id, s.hist.serial id = some n) ∨ ∃ t, s.hist.actor t = some n

/-- The counters are right. -/
structure Accounted (x : IoState × PermitHist) : Prop where
  count : ∀ pool, x.1.shared.inflight.active pool = (x.2.holdersOf pool).length
  inProgress : ∀ n pool, (n, pool) ∈ x.2.holders → x.1.InProgress n
  idle : (∀ n, ¬ x.1.InProgress n) → ∀ pool, x.1.shared.inflight.active pool = 0
  strays : x.2.strays = []

/-- What a transaction may do about its permits: be granted one only of a pool whose permits it gave
back, and, when its slot is released, have been granted the permit of its selected pool, if that has
a limit, and have given back those of all others. -/
def Balanced (x : IoState × PermitHist) : IoAct → Prop
  | .op t _ =>
    match x.1.hist.actor t, x.1.nextOp t with
    | some n, some (.tryAcquire pool) =>
      ∀ limit ∈ x.1.shared.inflight.limits pool, x.1.shared.inflight.active pool < limit →
        ¬ x.2.Granted n pool
    | some n, some (.poolOf id) =>
      let selected := IoShared.slotPool x.1.shared.store id
      (∀ pool ∈ selected, (x.1.shared.inflight.limits pool).isSome → x.2.Granted n pool) ∧
        ∀ e ∈ x.2.path, e.1 = n → x.2.Granted n e.2.1 → selected = some e.2.1
    | _, _ => True
  | _ => True

instance (x : IoState × PermitHist) : (a : IoAct) → Decidable (Balanced x a)
  | .op _ _ => by
    dsimp only [Balanced]
    split <;> infer_instance
  | .start _ _ | .ret _ | .wake _ => .isTrue trivial

/-! ## The invariant -/

/-- What a thread knows about the permits of its transaction `n`. -/
def Owes (f : PoolInflight) (holders : List (Nat × String)) (n : Nat) : Loc → Prop
  | .permitted _ _ pool | .tracked _ _ pool | .failed _ _ (some pool) | .running _ (some pool) =>
    (f.limits pool).isSome → (n, pool) ∈ holders
  | .releasing _ pool | .cleared _ pool | .freed pool =>
    ∀ p, (n, p) ∈ holders ↔ pool = some p ∧ (f.limits p).isSome
  | .ended => ∀ p, (n, p) ∉ holders
  | _ => True

/-- A transaction holds the permit that it was granted and has not given back. -/
def PermitHist.Follows (h : PermitHist) : Prop :=
  ∀ n pool, h.path.count (n, pool, .granted) =
    h.path.count (n, pool, .released) + if (n, pool) ∈ h.holders then 1 else 0

structure Permits (x : IoState × PermitHist) : Prop where
  follows : x.2.Follows
  nodup : x.2.holders.Nodup
  limited : ∀ n pool, (n, pool) ∈ x.2.holders → (x.1.shared.inflight.limits pool).isSome
  count : ∀ pool, x.1.shared.inflight.active pool = (x.2.holders.filter (·.2 = pool)).length
  inProgress : ∀ n pool, (n, pool) ∈ x.2.holders → x.1.InProgress n
  owes : ∀ t n, x.1.hist.actor t = some n →
    Owes x.1.shared.inflight x.2.holders n (x.1.hist.loc t)
  strays : x.2.strays = []

theorem accounted_of_permits {x : IoState × PermitHist} (h : Permits x) : Accounted x := by
  have hcount : ∀ pool, x.1.shared.inflight.active pool = (x.2.holdersOf pool).length := by
    intro pool
    rw [h.count, PermitHist.holdersOf, List.Nodup.dedup, List.length_map]
    refine (h.nodup.filter _).map_on fun a ha b hb hab => ?_
    have ha := (List.mem_filter.mp ha).2
    have hb := (List.mem_filter.mp hb).2
    simp only [decide_eq_true_eq] at ha hb
    exact Prod.ext hab (ha.trans hb.symm)
  refine ⟨hcount, h.inProgress, fun hidle pool => ?_, h.strays⟩
  rw [h.count, List.length_eq_zero_iff]
  refine List.filter_eq_nil_iff.mpr fun a ha => ?_
  exact absurd (h.inProgress a.1 a.2 ha) (hidle a.1)

section

variable {w : SplitWiring} {s s' : IoState} {h : PermitHist} {t : Tid} {n : Nat}

theorem PermitHist.Follows.granted_iff (hf : h.Follows) {pool : String} :
    h.Granted n pool ↔ (n, pool) ∈ h.holders := by
  rw [Granted, hf n pool]
  split <;> simp_all

theorem PermitHist.Follows.tryAcquire (hf : h.Follows) {pool : String} {r : Bool}
    (hfree : r = true → (n, pool) ∉ h.holders) : (h.tryAcquire n pool r).Follows := by
  intro m p
  have hold := hf m p
  cases r with
  | false =>
    rw [PermitHist.tryAcquire, List.count_cons_of_ne (by simp), List.count_cons_of_ne (by simp)]
    exact hold
  | true =>
    by_cases hmp : (m, p) = (n, pool)
    · obtain ⟨rfl, rfl⟩ := Prod.mk.inj hmp
      rw [if_neg (hfree rfl)] at hold
      simp [PermitHist.tryAcquire, hold]
    · have hne : ¬ (n = m ∧ pool = p) := fun he => hmp (by rw [he.1, he.2])
      simpa [PermitHist.tryAcquire, List.count_cons, hmp, hne] using hold

theorem PermitHist.Follows.release (hf : h.Follows) {pool : String} (hmem : (n, pool) ∈ h.holders)
    (hnodup : h.holders.Nodup) : (h.release n pool).Follows := by
  intro m p
  have hold := hf m p
  rw [PermitHist.release, if_pos hmem]
  by_cases hmp : (m, p) = (n, pool)
  · obtain ⟨rfl, rfl⟩ := Prod.mk.inj hmp
    rw [if_pos hmem] at hold
    simp [hold, hnodup.mem_erase_iff]
  · have hne : ¬ (n = m ∧ pool = p) := fun he => hmp (by rw [he.1, he.2])
    simpa [List.count_cons, hnodup.mem_erase_iff, hmp, hne] using hold

/-- A step that changes no permit: what is in progress stays so, and the thread that moves knows the
permits of its transaction. -/
theorem Permits.keep (hp : Permits (s, h)) (hf : s'.shared.inflight = s.shared.inflight)
    (hprog : ∀ n pool, (n, pool) ∈ h.holders → s.InProgress n → s'.InProgress n)
    (hother : ∀ t', t' ≠ t → s'.hist.loc t' = s.hist.loc t' ∧ s'.hist.actor t' = s.hist.actor t')
    (howes : ∀ n, s'.hist.actor t = some n →
      Owes s.shared.inflight h.holders n (s'.hist.loc t)) : Permits (s', h) := by
  refine ⟨hp.follows, hp.nodup, ?_, ?_, fun n pool hm => hprog n pool hm (hp.inProgress n pool hm),
    fun t' n ha => ?_, hp.strays⟩
  · simp only [hf]
    exact hp.limited
  · simp only [hf]
    exact hp.count
  · simp only [hf]
    by_cases hne : t' = t
    · subst hne
      exact howes n ha
    · obtain ⟨hl, ha'⟩ := hother t' hne
      simp only [hl]
      exact hp.owes t' n (ha' ▸ ha)

/-- A thread that gets or lets go of a slot leaves what was in progress so. -/
theorem inProgress_actor (hin : s.InProgress n) {hist : IoHist} (hserial : hist.serial = s.hist.serial)
    (hother : ∀ t', t' ≠ t → hist.actor t' = s.hist.actor t')
    (hmine : s.hist.actor t = some n → (∃ id, s.hist.serial id = some n) ∨ hist.actor t = some n) :
    (∃ id, hist.serial id = some n) ∨ ∃ t, hist.actor t = some n := by
  rw [hserial]
  rcases hin with hid | ⟨t', ha⟩
  · exact .inl hid
  · by_cases hne : t' = t
    · subst hne
      exact (hmine ha).imp_right fun h => ⟨t', h⟩
    · exact .inr ⟨t', by rw [hother t' hne, ha]⟩

variable {o : IoOp} {r : o.Resp}

/-- An operation ends no transaction. -/
theorem inProgress_op (hc : Control w s) (hok : ioOk w (s.hist.loc t) o)
    (hmay : ioMay (s.hist.loc t) o r) (hin : s.InProgress n) :
    (∃ id, (s.hist.next w t o r).serial id = some n) ∨
      ∃ t', (s.hist.next w t o r).actor t' = some n := by
  -- a thread without a transaction gets hold of a slot
  have hhold : ∀ id, (s.hist.loc t).Bare →
      (∃ id', (s.hist.hold t id).serial id' = some n) ∨ ∃ t', (s.hist.hold t id).actor t' = some n := by
    intro id hbare
    refine inProgress_actor hin rfl (fun t' hne => update_of_ne hne _ _) fun ha => ?_
    rw [hc.bare t hbare] at ha
    cases ha
  -- a thread leaves its transaction in the slot
  have hletGo : ∀ id m c, (s.hist.loc t).slot = some (id, m) → m.live = true →
      (∃ id', (s.hist.letGo t id c).serial id' = some n) ∨
        ∃ t', (s.hist.letGo t id c).actor t' = some n := by
    intro id m c hl hlive
    refine inProgress_actor hin rfl (fun t' hne => update_of_ne hne _ _) fun ha => ?_
    rw [(hc.parts.slots.own hl).2 hlive] at ha
    exact .inl ⟨id, ha⟩
  change (∃ id, (s.hist.transfer t o r).serial id = some n) ∨
    ∃ t', (s.hist.transfer t o r).actor t' = some n
  have hm := Loc.move hok hmay
  generalize (s.hist.loc t).next w o r = l' at hm
  generalize hloc : s.hist.loc t = l at hm
  cases hm with
  | @setup id txn =>
    have hnone := hc.bare t (by rw [hloc]; trivial)
    have hserial : s.hist.serial id = none :=
      (hc.parts.slots.own (m := .marked) (by rw [hloc]; rfl)).1.dead rfl
    refine hin.imp (fun ⟨id', hid'⟩ => ⟨id', ?_⟩) fun ⟨t', ha⟩ => ⟨t', ?_⟩
    · refine (update_of_ne ?_ _ _).trans hid'
      rintro rfl
      cases hserial.symm.trans hid'
    · refine (update_of_ne ?_ _ _).trans ha
      rintro rfl
      cases hnone.symm.trans ha
  | pushNew => exact hletGo _ .ingress .queued (by rw [hloc]; rfl) rfl
  | suspend => exact hletGo _ .busy .waiting (by rw [hloc]; rfl) rfl
  | popNew | wake | resume => exact hhold _ (by rw [hloc]; trivial)
  | @enter id =>
    have hl : (s.hist.loc t).slot = some (id, .ingress) := by rw [hloc]; rfl
    change (∃ id', (s.hist.hold t id).serial id' = some n) ∨ ∃ t', (s.hist.hold t id).actor t' = some n
    rw [IoHist.hold_eq_self (hc.parts.slots.thread t id _ hl) ((hc.parts.slots.own hl).2 rfl)]
    exact hin
  | @clearActive id pool =>
    have hl : (s.hist.loc t).slot = some (id, .policy) := by rw [hloc]; rfl
    have hactor := (hc.parts.slots.own hl).2 rfl
    rcases hin with ⟨id', hid'⟩ | ha
    · by_cases hne : id' = id
      · exact .inr ⟨t, hactor.trans (hne ▸ hid')⟩
      · exact .inl ⟨id', (update_of_ne hne _ _).trans hid'⟩
    · exact .inr ha
  | _ => exact hin

theorem Owes.congr {f f' : PoolInflight} {holders holders' : List (Nat × String)} {l : Loc}
    (hf : f'.limits = f.limits) (hh : ∀ p, (n, p) ∈ holders' ↔ (n, p) ∈ holders)
    (h : Owes f holders n l) : Owes f' holders' n l := by
  unfold Owes at h ⊢
  split at h <;> simp_all

variable {shared : IoShared} {threads : Tid → Option (IoProg Unit)}

/-- The permits change for one transaction, by a thread that works for it. -/
theorem Permits.change (hc : Control w s) (hp : Permits (s, h)) {h' : PermitHist}
    (hok : ioOk w (s.hist.loc t) o) (hmay : ioMay (s.hist.loc t) o r) (ha : s.hist.actor t = some n)
    (hkeep : (s.hist.transfer t o r).actor = s.hist.actor)
    (hlimits : shared.inflight.limits = s.shared.inflight.limits) (hfollows : h'.Follows)
    (hother : ∀ m p, m ≠ n → ((m, p) ∈ h'.holders ↔ (m, p) ∈ h.holders))
    (hlimited : ∀ p, (n, p) ∈ h'.holders → (s.shared.inflight.limits p).isSome)
    (hnodup : h'.holders.Nodup)
    (hcount : ∀ pool, shared.inflight.active pool = (h'.holders.filter (·.2 = pool)).length)
    (howes : Owes s.shared.inflight h'.holders n ((s.hist.loc t).next w o r))
    (hstrays : h'.strays = []) :
    Permits (⟨shared, threads, s.hist.next w t o r⟩, h') := by
  have hactor : (s.hist.next w t o r).actor = s.hist.actor := hkeep
  refine ⟨hfollows, hnodup, fun m pool hm => ?_, hcount, fun m pool hm => ?_, fun t' m ha' => ?_,
    hstrays⟩
  · simp only [hlimits]
    by_cases hne : m = n
    · exact hlimited pool (hne ▸ hm)
    · exact hp.limited m pool ((hother m pool hne).mp hm)
  · by_cases hne : m = n
    · refine .inr ⟨t, ?_⟩
      rw [hactor, ha, hne]
    · exact inProgress_op hc hok hmay (hp.inProgress m pool ((hother m pool hne).mp hm))
  · simp only [hactor] at ha'
    by_cases hne : t' = t
    · subst hne
      rw [ha] at ha'
      cases ha'
      simp only [IoHist.next, update_self]
      exact howes.congr hlimits fun _ => Iff.rfl
    · have hm : m ≠ n := by
        rintro rfl
        exact hne (hc.parts.serials.unique t' t m ha' ha)
      simp only [(IoHist.next_of_ne hne).1]
      exact (hp.owes t' m ha').congr hlimits fun p => hother m p hm

variable {a : IoAct} {env : IoEnv} {pool : String}

theorem permits_tryAcquire (hc : Control w s) (hp : Permits (s, h)) {r : Bool}
    (hok : ioOk w (s.hist.loc t) (.tryAcquire pool))
    (hs : (IoOp.tryAcquire pool).sem env s.shared = some (r, shared))
    (hperf : s.performed a = some (t, ⟨.tryAcquire pool, r⟩))
    (hbal : ∀ n, s.hist.actor t = some n → ∀ limit ∈ s.shared.inflight.limits pool,
      s.shared.inflight.active pool < limit → (n, pool) ∉ h.holders) :
    Permits (⟨shared, threads, s.hist.next w t (.tryAcquire pool) r⟩, h.next s a) := by
  obtain ⟨id, key, hloc⟩ := hok
  cases hs
  obtain ⟨n, hn, ha⟩ := hc.parts.slots.txn (t := t) (m := .busy) (by rw [hloc]; rfl) rfl
  have hok : ioOk w (s.hist.loc t) (.tryAcquire pool) := ⟨id, key, hloc⟩
  have hcount : ∀ p, s.shared.inflight.active p = (h.holders.filter (·.2 = p)).length := hp.count
  have hnew : ∀ p, (n, p) ∈ h.holders → (s.shared.inflight.limits p).isSome := hp.limited n
  cases hlim : s.shared.inflight.limits pool with
  | none =>
    have hnext : h.next s a = h := by simp [PermitHist.next, hperf, ha, hlim]
    rw [hnext]
    refine hp.change hc hok trivial ha rfl ?_ hp.follows (fun _ _ _ => Iff.rfl) hnew hp.nodup ?_ ?_
      hp.strays
    · simp [PoolInflight.tryAcquire, hlim]
    · simp only [PoolInflight.tryAcquire, hlim]
      exact hp.count
    · simp [hloc, Loc.next, PoolInflight.tryAcquire, hlim, Owes]
  | some limit =>
    by_cases hfull : s.shared.inflight.active pool ≥ limit
    · have hres : s.shared.inflight.tryAcquire pool = (s.shared.inflight, false) := by
        simp [PoolInflight.tryAcquire, hlim, hfull]
      have hnext : h.next s a = h.tryAcquire n pool false := by
        simp [PermitHist.next, hperf, ha, hlim, hres]
      rw [hnext]
      refine hp.change hc hok trivial ha rfl (by rw [hres]) (hp.follows.tryAcquire fun hr => by cases hr)
        (fun _ _ _ => Iff.rfl) hnew hp.nodup ?_ ?_ hp.strays
      · simp only [hres]
        exact hp.count
      · simp [hloc, Loc.next, hres, Owes]
    · have hfree := hbal n ha limit hlim (Nat.lt_of_not_le hfull)
      have hres : s.shared.inflight.tryAcquire pool = ({ s.shared.inflight with
          active := update s.shared.inflight.active pool
            (s.shared.inflight.active pool + 1) }, true) := by
        simp only [PoolInflight.tryAcquire, hlim, hfull, if_false]
      have hnext : h.next s a = h.tryAcquire n pool true := by
        simp [PermitHist.next, hperf, ha, hlim, hres]
      rw [hnext]
      refine hp.change hc hok trivial ha rfl (by rw [hres]) (hp.follows.tryAcquire fun _ => hfree)
        (fun m p hne => ?_) (fun p hm => ?_) ?_ (fun p => ?_) ?_ hp.strays
      · simp [PermitHist.tryAcquire, hne]
      · rcases List.mem_cons.mp hm with heq | hm
        · cases heq
          simp [hlim]
        · exact hnew p hm
      · exact List.nodup_cons.mpr ⟨hfree, hp.nodup⟩
      · simp only [hres, PermitHist.tryAcquire, List.filter_cons, update_apply]
        by_cases hpool : p = pool
        · subst hpool
          simpa using hcount p
        · simpa [hpool, Ne.symm hpool] using hcount p
      · simp [hloc, Loc.next, hres, Owes, PermitHist.tryAcquire]

theorem permits_releasePool (hc : Control w s) (hp : Permits (s, h)) {r : Unit}
    (hok : ioOk w (s.hist.loc t) (.releasePool pool))
    (hs : (IoOp.releasePool pool).sem env s.shared = some (r, shared))
    (hperf : s.performed a = some (t, ⟨.releasePool pool, r⟩)) (ha : s.hist.actor t = some n) :
    Permits (⟨shared, threads, s.hist.next w t (.releasePool pool) r⟩, h.next s a) := by
  cases hs
  have howes := hp.owes t n ha
  -- the transaction holds the permit, if the pool has a limit
  have hheld : (s.shared.inflight.limits pool).isSome → (n, pool) ∈ h.holders := by
    intro hlim
    rcases hok with ⟨id, hloc⟩ | ⟨id, key, hloc⟩ | hloc <;> simp only [hloc, Owes] at howes
    · exact howes hlim
    · exact howes hlim
    · exact (howes pool).mpr ⟨rfl, hlim⟩
  have hnew : ∀ p, (n, p) ∈ h.holders → (s.shared.inflight.limits p).isSome := hp.limited n
  have hcount : ∀ p, s.shared.inflight.active p = (h.holders.filter (·.2 = p)).length := hp.count
  -- afterwards it owes nothing, or has no permit left
  have hafter : ∀ holders : List (Nat × String), (∀ p, (n, p) ∈ holders ↔ (n, p) ∈ h.holders ∧
      ¬ (p = pool ∧ (s.shared.inflight.limits pool).isSome)) →
      Owes s.shared.inflight holders n ((s.hist.loc t).next w (.releasePool pool) ()) := by
    intro holders hmem
    rcases hok with ⟨id, hloc⟩ | ⟨id, key, hloc⟩ | hloc <;> simp only [hloc, Owes] at howes <;> rw [hloc]
    · trivial
    · trivial
    · intro p hp
      obtain ⟨hin, hnot⟩ := (hmem p).mp hp
      obtain ⟨heq, hlim⟩ := (howes p).mp hin
      cases heq
      exact hnot ⟨rfl, hlim⟩
  cases hlim : s.shared.inflight.limits pool with
  | none =>
    have hres : s.shared.inflight.release pool = s.shared.inflight := by
      simp [PoolInflight.release, hlim]
    have hnext : h.next s a = h := by simp [PermitHist.next, hperf, ha, hlim]
    rw [hnext]
    refine hp.change hc hok trivial ha rfl (by rw [hres]) hp.follows (fun _ _ _ => Iff.rfl) hnew
      hp.nodup ?_ (hafter _ fun p => by simp [hlim]) hp.strays
    simp only [hres]
    exact hp.count
  | some limit =>
    have hmem := hheld (by simp [hlim])
    have hres : s.shared.inflight.release pool = { s.shared.inflight with
        active := update s.shared.inflight.active pool
          (s.shared.inflight.active pool - 1) } := by
      simp [PoolInflight.release, hlim]
    have hnext : h.next s a = h.release n pool := by simp [PermitHist.next, hperf, ha, hlim]
    have hholders : (h.release n pool).holders = h.holders.erase (n, pool) := by
      rw [PermitHist.release, if_pos hmem]
    have hstrays : (h.release n pool).strays = h.strays := by rw [PermitHist.release, if_pos hmem]
    have herase : ∀ m p, (m, p) ∈ h.holders.erase (n, pool) ↔ (m, p) ∈ h.holders ∧ (m, p) ≠ (n, pool) :=
      fun m p => by rw [hp.nodup.mem_erase_iff, and_comm]
    rw [hnext]
    refine hp.change hc hok trivial ha rfl (by rw [hres]) (hp.follows.release hmem hp.nodup) ?_ ?_ ?_
      ?_ (hafter _ fun p => ?_) (hstrays.trans hp.strays) <;> rw [hholders]
    · intro m p hne
      rw [herase]
      simp [hne]
    · exact fun p hm => hnew p ((herase n p).mp hm).1
    · exact hp.nodup.erase _
    · intro p
      simp only [hres, update_apply, ← List.erase_filter]
      by_cases hpool : p = pool
      · subst hpool
        rw [if_pos rfl, List.length_erase_of_mem (List.mem_filter.mpr ⟨hmem, by simp⟩), hcount p]
      · rw [if_neg hpool, List.erase_of_not_mem, hcount p]
        intro hin
        have hsnd : pool = p := by simpa using (List.mem_filter.mp hin).2
        exact hpool hsnd.symm
    · rw [herase]
      simp [hlim]

theorem PermitHist.next_other (hperf : s.performed a = some (t, ⟨o, r⟩)) (hne : o.part ≠ .inflight) :
    h.next s a = h := by
  unfold PermitHist.next
  rw [hperf]
  cases o <;> first | rfl | exact absurd rfl hne

/-- The permits that a thread knows of after an operation that changes none. -/
theorem owes_next (hc : Control w s) (hp : Permits (s, h)) (hok : ioOk w (s.hist.loc t) o)
    (hmay : ioMay (s.hist.loc t) o r) (hs : o.sem env s.shared = some (r, shared))
    (hne : o.part ≠ .inflight)
    (hbal : ∀ n id, s.hist.actor t = some n → o = .poolOf id →
      ∀ p, (n, p) ∈ h.holders ↔
        IoShared.slotPool s.shared.store id = some p ∧ (s.shared.inflight.limits p).isSome)
    (ha : (s.hist.next w t o r).actor t = some n) :
    Owes s.shared.inflight h.holders n ((s.hist.loc t).next w o r) := by
  -- a thread without a transaction goes on without one
  have hbare : (s.hist.loc t).Bare → (s.hist.transfer t o r).actor t = s.hist.actor t → False := by
    intro hb hsame
    have hnone : (s.hist.next w t o r).actor t = none := hsame.trans (hc.bare t hb)
    rw [ha] at hnone
    cases hnone
  have hm := Loc.move hok hmay
  generalize (s.hist.loc t).next w o r = l' at hm ⊢
  generalize hloc : s.hist.loc t = l at hm
  cases hm with
  | noneFree | pushResume | wakeLate | resumeLate => exact (hbare (by rw [hloc]; trivial) rfl).elim
  | pushNew | suspend =>
    simp [IoHist.next, IoHist.transfer, IoHist.letGo] at ha
  | @poolOf id r | @poolOfDropped id r =>
    have hpool : r = IoShared.slotPool s.shared.store id := by
      simp only [IoOp.sem] at hs
      split at hs <;> cases hs
      rfl
    intro p
    rw [hpool]
    exact hbal n id ha rfl p
  | clearActive | returnToFree | track | sendFailed | removePermitted | registerFull | pipeline =>
    have howes := hp.owes t n ha
    rw [hloc] at howes
    exact howes
  | acquire | refuse | releaseRunning | releaseFailed | releaseFreed => exact absurd rfl hne
  | _ => trivial

/-- **A balanced step keeps the permits.** -/
theorem permits_step (hc : Control w s) (hp : Permits (s, h)) (hbal : Balanced (s, h) a)
    (hs : s.step w a = some s') : Permits (s', h.next s a) := by
  cases ioStep_cases hs with
  | @start t job ht =>
    exact hp.keep (t := t) rfl (fun _ _ _ hin => hin) (fun _ _ => ⟨rfl, rfl⟩) fun n ha => hp.owes t n ha
  | @wake index waiter hw =>
    exact hp.keep (t := 0) rfl (fun _ _ _ hin => hin) (fun _ _ => ⟨rfl, rfl⟩) fun n ha => hp.owes 0 n ha
  | @ret t ht =>
    have hdone : (s.hist.loc t).Done := hc.prog t _ ht
    -- a transaction that the thread leaves behind has no permit
    have hnone : ∀ n pool, (n, pool) ∈ h.holders → s.hist.actor t ≠ some n := by
      intro n pool hm ha
      have howes := hp.owes t n ha
      unfold Loc.Done at hdone
      split at hdone
      · rename_i hloc
        rw [hc.bare t (by rw [hloc]; trivial)] at ha
        cases ha
      · rename_i hloc
        simp only [hloc] at howes
        exact howes pool hm
      · rename_i hloc
        simp only [hloc] at howes
        cases ((howes pool).mp hm).1
      · cases hdone
    refine hp.keep (t := t) rfl (fun n pool hm hin => ?_) (fun t' hne => ⟨?_, ?_⟩) fun n ha => ?_
    · refine inProgress_actor hin rfl (fun t' hne => update_of_ne hne _ _) fun ha => ?_
      exact absurd ha (hnone n pool hm)
    · exact update_of_ne hne _ _
    · exact update_of_ne hne _ _
    · simp only [IoHist.reset, update_self] at ha
      cases ha
  | @op t env o k r shared ht hsem =>
    obtain ⟨hok, hmay, -⟩ := hc.op ht hsem
    have hperf := IoState.performed_op ht hsem
    have hop : s.nextOp t = some o := by simp [IoState.nextOp, ht]
    by_cases hpart : o.part = .inflight
    · cases o with
      | tryAcquire pool =>
        refine permits_tryAcquire hc hp hok hsem hperf fun n ha => ?_
        simpa [Balanced, ha, hop, hp.follows.granted_iff] using hbal
      | releasePool pool =>
        have hsome : ∃ n, s.hist.actor t = some n := by
          rcases hok with ⟨id, hloc⟩ | ⟨id, key, hloc⟩ | hloc
          · obtain ⟨n, -, ha⟩ := hc.parts.slots.txn (t := t) (m := .busy) (by rw [hloc]; rfl) rfl
            exact ⟨n, ha⟩
          · obtain ⟨n, -, ha⟩ := hc.parts.slots.txn (t := t) (m := .busy) (by rw [hloc]; rfl) rfl
            exact ⟨n, ha⟩
          · exact Option.isSome_iff_exists.mp (hc.leaving t (by rw [hloc]; trivial))
        obtain ⟨n, ha⟩ := hsome
        exact permits_releasePool hc hp hok hsem hperf ha
      | _ => cases hpart
    · rw [PermitHist.next_other hperf hpart]
      refine hp.keep (t := t) ((IoOp.agreeBut hsem).inflight hpart) (fun n pool _ hin => ?_)
        (fun t' hne => IoHist.next_of_ne hne) fun n ha => ?_
      · exact inProgress_op hc hok hmay hin
      · simp only [IoHist.next, update_self]
        refine owes_next hc hp hok hmay hsem hpart (fun n id hn heq p => ?_) ha
        subst heq
        have hfollows : h.Follows := hp.follows
        obtain ⟨hsel, hpath⟩ : (∀ pool ∈ IoShared.slotPool s.shared.store id,
            (s.shared.inflight.limits pool).isSome → h.Granted n pool) ∧
            ∀ e ∈ h.path, e.1 = n → h.Granted n e.2.1 →
              IoShared.slotPool s.shared.store id = some e.2.1 := by
          simpa [Balanced, hn, hop] using hbal
        refine ⟨fun hm => ?_, fun hm => hfollows.granted_iff.mp (hsel p hm.1 hm.2)⟩
        have hgranted : h.Granted n p := hfollows.granted_iff.mpr hm
        have hmem : (n, p, PermitEvent.granted) ∈ h.path :=
          List.count_pos_iff.mp (Nat.zero_lt_of_lt hgranted)
        exact ⟨hpath _ hmem rfl hgranted, hp.limited n p hm⟩

end

/-- **In every run whose steps are balanced, the counter of every pool is the number of transactions
in progress that hold a permit of it, and no transaction releases a permit it does not have.** -/
theorem accounted_of_balanced (w : SplitWiring) {x : IoState × PermitHist}
    (h : (permits w).Reach Balanced x) : Accounted x := by
  refine accounted_of_permits (Lts.Reach.inv (P := Permits) ?_ ?_ h)
  · rintro ⟨s, h⟩ ⟨hinit, rfl⟩
    obtain ⟨store, table, inflight, rfl, -, -, -, hactive⟩ := hinit
    refine ⟨fun _ _ => rfl, List.nodup_nil, fun _ _ hm => (by cases hm), fun pool => ?_,
      fun _ _ hm => (by cases hm), fun _ _ ha => (by cases ha), rfl⟩
    exact congrFun hactive pool
  · rintro ⟨s, h⟩ a x' hr hp hbal he
    obtain ⟨s', hs, rfl⟩ := Option.map_eq_some_iff.mp he
    exact permits_step (control hr.forget) hp hbal hs

def sampleLimits (pool : String) : Option Nat := if pool = "default" then some 1 else none

/-- A query is forwarded, answered and released; a second one is forwarded. -/
def sampleForwards : List IoAct :=
  sampleArrival "198.51.100.7:5300" ++ sampleTurn 1 .policy 9 forwardPlan ++
    sampleTurn 2 (.reply 0 backendReply) 4 {} ++ sampleTurn 3 .moveResume 2 {} ++
    sampleTurn 1 .policy 11 finishPlan ++
    sampleArrival "198.51.100.8:5300" ++ sampleTurn 1 .policy 9 forwardPlan

theorem accounted_of_balanced_sample :
    ∃ x, (permits sampleSplitWiring).Reach Balanced x ∧ x.2.holders = [(1, "default")] ∧
      Accounted x := by
  obtain ⟨x, hr, hobs⟩ := Lts.exists_exec (L := permits sampleSplitWiring) Balanced
    (s := (sampleSplit 2 (by decide) sampleLimits, {})) sampleForwards
    (·.2.holders = [(1, "default")]) ⟨sampleSplit_init _ _ _, rfl⟩ (by decide +kernel)
  exact ⟨x, hr, hobs, accounted_of_balanced _ hr⟩

/-- The first query is forwarded; the second one is refused by the limit, and answered. -/
def sampleRefused : List IoAct :=
  sampleArrival "198.51.100.7:5300" ++ sampleTurn 1 .policy 9 forwardPlan ++
    sampleArrival "198.51.100.8:5300" ++ sampleTurn 1 .policy 14 forwardPlan

/-- A transaction that was refused a permit gives back the permit of the one that has it. -/
theorem permit_stolen :
    ∃ x, (permits sampleSplitWiring).Reach Lts.Any x ∧ x.2.holders = [(0, "default")] ∧
      x.1.shared.inflight.active "default" = 0 ∧ x.2.strays = [(1, "default")] :=
  Lts.exists_exec (L := permits sampleSplitWiring) Lts.Any
    (s := (sampleSplit 2 (by decide) sampleLimits, {})) sampleRefused _
    ⟨sampleSplit_init _ _ _, rfl⟩ (by decide +kernel)

end Conduit
