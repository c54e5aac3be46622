import Conduit.Lib.Tags
import Conduit.SplitIo.Protocol

/-!
# Who may change a slot

A slot that is in use is changed by one thread at a time, or waits in the policy queue or for a
resume: `Control` holds in every run of the runtime, whatever the interleaving. It says in which
state each slot is, and that the error exits of the policy workers are never taken.

- `Mode`: how a thread has left the slot that it may change.
- `SlotEdit`: what an operation under the lock of a slot does to the store.
- `Slots`, `Serials`, `Queued`, `Free`: the parts of the invariant; `Control`: all of them, with the
  order that each thread keeps to.
- `control`: it holds in every run; `slot_owned`, `never_refused`: what follows.
-/

namespace Conduit

open Function (update update_apply update_eq_self_iff update_of_ne update_self)

/-- How a slot is left: free, marked by the ingress, set up, in the policy state, locked by a
worker, waiting for a resume. -/
inductive Mode where
  | empty | marked | ingress | policy | busy | waiting
  deriving DecidableEq, Repr

namespace Mode

def state : Mode → SlotState
  | .empty => .free
  | .marked | .ingress => .ingress
  | .policy | .busy => .policy
  | .waiting => .ioWait

def locked (m : Mode) : Bool := m == .busy

/-- The slot has a transaction. -/
def live (m : Mode) : Bool := !(m == .empty || m == .marked)

end Mode

/-- The slot that the thread may change, and how it has left it. -/
def Loc.slot : Loc → Option (SlotId × Mode)
  | .taken id | .cleared id _ => some (id, .empty)
  | .marked id => some (id, .marked)
  | .ready id | .routed id | .popped (.new id) => some (id, .ingress)
  | .entered id | .finished id _ | .delivering id _ _ | .delivered id | .releasing id _ =>
    some (id, .policy)
  | .running id _ | .registered id _ | .permitted id _ _ | .tracked id _ _ | .failed id _ _
  | .cancelling id _ _ | .parked id => some (id, .busy)
  | _ => none

/-! ## Operations under the lock of a slot -/

namespace Store

/-- The slot; one that is not allocated yet is free. -/
def slotAt (s : Store) (id : SlotId) : TxnSlot := (s.slots[id]?).getD {}

/-- The store `s'` is `s` with the slot `id` changed to `slot`. -/
structure SlotEdit (s s' : Store) (id : SlotId) (slot : TxnSlot) : Prop where
  allocated : s'.allocated = s.allocated
  freeList : s'.freeList = s.freeList
  slotAt : ∀ id', s'.slotAt id' = if id' = id then slot else s.slotAt id'

variable {s s' : Store} {id id' : SlotId} {α : Type}

theorem slotAt_of_le (h : s.allocated ≤ id) : s.slotAt id = {} := by
  unfold slotAt
  rw [List.getElem?_eq_none h]
  rfl

theorem getElem_slotAt (h : id < s.allocated) : s.slots[id]? = some (s.slotAt id) := by
  unfold slotAt
  rw [List.getElem?_eq_getElem h]
  rfl

theorem slotEdit_set (h : id < s.allocated) (slot : TxnSlot) :
    SlotEdit s { s with slots := s.slots.set id slot } id slot := by
  refine ⟨by simp [Store.allocated], rfl, fun id' => ?_⟩
  unfold Store.slotAt
  rw [List.getElem?_set]
  by_cases heq : id = id'
  · subst heq
    have hlt : id < s.slots.length := h
    rw [if_pos rfl, if_pos hlt, if_pos rfl]
    rfl
  · rw [if_neg heq, if_neg fun h => heq h.symm]

theorem slotEdit_refl (s : Store) (id : SlotId) : SlotEdit s s id (s.slotAt id) := by
  refine ⟨rfl, rfl, fun id' => ?_⟩
  split
  · rename_i heq
    rw [heq]
  · rfl

theorem slotEdit_withSlotExclusive (h : id < s.allocated)
    (f : TxnSlot → TxnSlot × Except SlotError α) :
    SlotEdit s (s.withSlotExclusive id f).1 id (f (s.slotAt id)).1 ∧
      (s.withSlotExclusive id f).2 = (f (s.slotAt id)).2 := by
  unfold withSlotExclusive
  rw [getElem_slotAt h]
  exact ⟨slotEdit_set h _, rfl⟩

theorem withSlotExclusive_of_le (h : s.allocated ≤ id)
    (f : TxnSlot → TxnSlot × Except SlotError α) :
    s.withSlotExclusive id f = (s, .error (.invalidId id)) := by
  unfold withSlotExclusive
  rw [List.getElem?_eq_none h]

theorem SlotEdit.same (h : SlotEdit s s' id (s.slotAt id)) (id' : SlotId) :
    s'.slotAt id' = s.slotAt id' := by
  rw [h.slotAt]
  split
  · rename_i heq
    rw [heq]
  · rfl

theorem slotAt_growChunk (h : s.growChunk = some s') (id : SlotId) : s'.slotAt id = s.slotAt id := by
  unfold growChunk at h
  split at h
  · cases h
  · cases h
    unfold slotAt
    simp only
    by_cases hlt : id < s.slots.length
    · rw [List.getElem?_append_left hlt]
    · have hge := Nat.le_of_not_lt hlt
      rw [List.getElem?_append_right hge, List.getElem?_eq_none hge, List.getElem?_replicate]
      split <;> rfl

/-- Taking a free slot changes no slot; the id comes off the free list, or off the new ids. -/
theorem takeFree_spec {r : Except AcquireError SlotId} (h : s.takeFree = some (s', r)) :
    (∀ id, s'.slotAt id = s.slotAt id) ∧ s.allocated ≤ s'.allocated ∧
      match r with
      | .error _ => s'.freeList = s.freeList
      | .ok id => s.freeList = id :: s'.freeList ∨
          (s.freeList = [] ∧ (id :: s'.freeList).Nodup ∧
            ∀ id' ∈ id :: s'.freeList, s.allocated ≤ id' ∧ id' < s'.allocated) := by
  obtain ⟨rfl, -, -, rfl⟩ | ⟨id, rest, rfl, ⟨hfree, rfl⟩ | ⟨hempty, grown, hgrow, hfree, rfl⟩⟩ :=
    takeFree_cases h
  · exact ⟨fun _ => rfl, Nat.le_refl _, rfl⟩
  · exact ⟨fun _ => rfl, Nat.le_refl _, .inl hfree⟩
  · obtain ⟨n, -, -, hgrown⟩ := grown_of_growChunk hgrow
    have hnew : id :: rest = (List.range' s.allocated n).reverse := by
      rw [← hfree, hgrown.freeList, hempty, List.append_nil]
    have hslots : ∀ id, grown.slotAt id = s.slotAt id := slotAt_growChunk hgrow
    refine ⟨hslots, ?_, .inr ⟨hempty, ?_, fun id' hid' => ?_⟩⟩
    · change s.allocated ≤ grown.allocated
      rw [hgrown.allocated]
      omega
    · change (id :: rest).Nodup
      rw [hnew, List.nodup_reverse]
      exact List.nodup_range'
    · change id' ∈ id :: rest at hid'
      change _ ∧ id' < grown.allocated
      rw [hnew, List.mem_reverse, List.mem_range'_1] at hid'
      rw [hgrown.allocated]
      exact hid'

end Store

/-! ## The slots -/

/-- The slot is left so. -/
structure SlotIs (s : IoState) (id : SlotId) (m : Mode) : Prop where
  allocated : id < s.shared.store.allocated
  state : (s.shared.store.slotAt id).state = m.state
  locked : s.shared.locked id = m.locked
  live : m.live = true → (s.shared.store.slotAt id).txn.id = id ∧ (s.hist.serial id).isSome
  dead : m.live = false → s.hist.serial id = none

/-- The slot is as its controller has left it. -/
inductive SlotOk (s : IoState) (id : SlotId) : Prop
  | free (hc : s.hist.ctl id = .free) (hstate : (s.shared.store.slotAt id).state = .free)
      (hlocked : s.shared.locked id = false) (hserial : s.hist.serial id = none)
  | queued (hc : s.hist.ctl id = .queued) (his : SlotIs s id .ingress)
  | waiting (hc : s.hist.ctl id = .waiting) (his : SlotIs s id .waiting)
  | thread {t : Tid} {m : Mode} (hc : s.hist.ctl id = .thread t)
      (hloc : (s.hist.loc t).slot = some (id, m)) (his : SlotIs s id m)
      (hactor : m.live = true → s.hist.actor t = s.hist.serial id)

structure Slots (s : IoState) : Prop where
  slot : ∀ id, SlotOk s id
  thread : ∀ t id m, (s.hist.loc t).slot = some (id, m) → s.hist.ctl id = .thread t

/-- Nothing about the slot has changed. -/
structure SameSlot (s s' : IoState) (id : SlotId) : Prop where
  slotAt : s'.shared.store.slotAt id = s.shared.store.slotAt id
  locked : s'.shared.locked id = s.shared.locked id
  ctl : s'.hist.ctl id = s.hist.ctl id
  serial : s'.hist.serial id = s.hist.serial id

structure SameThread (s s' : IoState) (t : Tid) : Prop where
  loc : s'.hist.loc t = s.hist.loc t
  actor : s'.hist.actor t = s.hist.actor t

section

variable {s s' : IoState} {t t' : Tid} {id : SlotId} {m : Mode}

theorem SlotIs.same (h : SlotIs s id m) (hs : SameSlot s s' id)
    (halloc : s.shared.store.allocated ≤ s'.shared.store.allocated) : SlotIs s' id m := by
  refine ⟨Nat.lt_of_lt_of_le h.allocated halloc, ?_, ?_, ?_, ?_⟩
  · rw [hs.slotAt]; exact h.state
  · rw [hs.locked]; exact h.locked
  · rw [hs.slotAt, hs.serial]; exact h.live
  · rw [hs.serial]; exact h.dead

/-- A slot stays as it is if neither it nor the thread that may change it changes. -/
theorem SlotOk.same (h : SlotOk s id) (hs : SameSlot s s' id)
    (halloc : s.shared.store.allocated ≤ s'.shared.store.allocated)
    (ht : ∀ t, s.hist.ctl id = .thread t →
      (s'.hist.loc t).slot = (s.hist.loc t).slot ∧ s'.hist.actor t = s.hist.actor t) :
    SlotOk s' id := by
  cases h with
  | free hc hstate hlocked hserial =>
    exact .free (hs.ctl ▸ hc) (by rw [hs.slotAt, hstate]) (hs.locked ▸ hlocked) (hs.serial ▸ hserial)
  | queued hc his => exact .queued (hs.ctl ▸ hc) (his.same hs halloc)
  | waiting hc his => exact .waiting (hs.ctl ▸ hc) (his.same hs halloc)
  | thread hc hloc his hactor =>
    obtain ⟨hl, ha⟩ := ht _ hc
    refine .thread (hs.ctl ▸ hc) (hl ▸ hloc) (his.same hs halloc) ?_
    rw [ha, hs.serial]
    exact hactor

/-- A slot that a thread may change is as the thread has left it. -/
theorem Slots.held (h : Slots s) (hc : s.hist.ctl id = .thread t) :
    ∃ m, (s.hist.loc t).slot = some (id, m) ∧ SlotIs s id m ∧
      (m.live = true → s.hist.actor t = s.hist.serial id) := by
  cases h.slot id with
  | thread hc' hloc his hactor =>
    rw [hc] at hc'
    cases hc'
    exact ⟨_, hloc, his, hactor⟩
  | free hc' | queued hc' | waiting hc' => rw [hc] at hc'; cases hc'

theorem Slots.own (h : Slots s) (hl : (s.hist.loc t).slot = some (id, m)) :
    SlotIs s id m ∧ (m.live = true → s.hist.actor t = s.hist.serial id) := by
  obtain ⟨k, hloc, his⟩ := h.held (h.thread t id m hl)
  rw [hl] at hloc
  cases hloc
  exact his

/-- The transaction in the slot that a thread works on. -/
theorem Slots.txn (h : Slots s) (hl : (s.hist.loc t).slot = some (id, m)) (hlive : m.live = true) :
    ∃ n, s.hist.serial id = some n ∧ s.hist.actor t = some n := by
  obtain ⟨his, hactor⟩ := h.own hl
  obtain ⟨n, hn⟩ := Option.isSome_iff_exists.mp (his.live hlive).2
  exact ⟨n, hn, (hactor hlive).trans hn⟩

/-- The thread may change no other slot, and no other thread may change this one. -/
theorem Slots.mine (h : Slots s) (hl : (s.hist.loc t).slot = some (id, m)) :
    (∀ id' m', (s.hist.loc t).slot = some (id', m') → id' = id) ∧
      ∀ t', s.hist.ctl id = .thread t' → t' = t := by
  have hc := h.thread t id m hl
  simp_all

/-- One thread and one slot change; the slot is the one that the thread may change, before and
after. -/
theorem Slots.change (h : Slots s) (hs : ∀ id', id' ≠ id → SameSlot s s' id')
    (ht : ∀ t', t' ≠ t → SameThread s s' t')
    (halloc : s.shared.store.allocated ≤ s'.shared.store.allocated)
    (hmine : ∀ id' m, (s.hist.loc t).slot = some (id', m) → id' = id)
    (hother : ∀ t', s.hist.ctl id = .thread t' → t' = t) (hslot : SlotOk s' id)
    (hthread : ∀ id' m, (s'.hist.loc t).slot = some (id', m) →
      id' = id ∧ s'.hist.ctl id = .thread t) : Slots s' := by
  refine ⟨fun id' => ?_, fun t' id' m hl => ?_⟩
  · by_cases hid : id' = id
    · exact hid ▸ hslot
    · refine (h.slot id').same (hs id' hid) halloc fun t' hc => ?_
      have hne : t' ≠ t := by
        rintro rfl
        obtain ⟨m, hloc, -⟩ := h.held hc
        exact hid (hmine _ _ hloc)
      exact ⟨by rw [(ht t' hne).loc], (ht t' hne).actor⟩
  · by_cases hne : t' = t
    · subst hne
      obtain ⟨rfl, hc⟩ := hthread id' m hl
      exact hc
    · rw [(ht t' hne).loc] at hl
      have hc := h.thread t' id' m hl
      have hid : id' ≠ id := by
        rintro rfl
        exact hne (hother t' hc)
      rw [(hs id' hid).ctl]
      exact hc

/-- No slot changes, and the thread stays at its slot. -/
theorem Slots.quiet (h : Slots s) (hs : ∀ id, SameSlot s s' id)
    (ht : ∀ t', t' ≠ t → SameThread s s' t')
    (halloc : s.shared.store.allocated ≤ s'.shared.store.allocated)
    (hslot : (s'.hist.loc t).slot = (s.hist.loc t).slot)
    (hactor : s'.hist.actor t = s.hist.actor t ∨ (s.hist.loc t).slot = none) : Slots s' := by
  have hloc : ∀ t', (s'.hist.loc t').slot = (s.hist.loc t').slot := by
    intro t'
    by_cases hne : t' = t
    · rw [hne, hslot]
    · rw [(ht t' hne).loc]
  refine ⟨fun id => (h.slot id).same (hs id) halloc fun t' hc => ⟨hloc t', ?_⟩, fun t' id m hl => ?_⟩
  · by_cases hne : t' = t
    · subst hne
      rcases hactor with hactor | hnone
      · exact hactor
      · obtain ⟨m, hloc, -⟩ := h.held hc
        rw [hnone] at hloc
        cases hloc
    · exact (ht t' hne).actor
  · rw [hloc] at hl
    rw [(hs id).ctl]
    exact h.thread t' id m hl

end

/-! ## Transactions, the queue and the free list -/

/-- A transaction is in one slot, and at most one thread works for it: the one that may change its
slot. -/
structure Serials (h : IoHist) : Prop where
  lt : ∀ id n, h.serial id = some n → n < h.nextSerial
  inj : ∀ id id' n, h.serial id = some n → h.serial id' = some n → id = id'
  actor_lt : ∀ t n, h.actor t = some n → n < h.nextSerial
  actor : ∀ t n id, h.actor t = some n → h.serial id = some n → h.ctl id = .thread t
  unique : ∀ t t' n, h.actor t = some n → h.actor t' = some n → t = t'

def PolicyWork.newSlot : PolicyWork → Option SlotId
  | .new id => some id
  | _ => none

/-- A new slot is in the policy queue once. -/
structure Queued (queue : List PolicyWork) (ctl : SlotId → Ctl) : Prop where
  mem : ∀ id, .new id ∈ queue → ctl id = .queued
  once : Tags.Once PolicyWork.newSlot queue

structure Free (store : Store) (ctl : SlotId → Ctl) : Prop where
  mem : ∀ id ∈ store.freeList, ctl id = .free ∧ id < store.allocated
  nodup : store.freeList.Nodup
  fresh : ∀ id, store.allocated ≤ id → ctl id = .free

section

variable {h : IoHist} {t : Tid} {id : SlotId}

theorem Serials.hold (hs : Serials h) (hother : ∀ t', h.ctl id = .thread t' → t' = t) :
    Serials (h.hold t id) := by
  have hfree : ∀ t' n, h.actor t' = some n → h.serial id = some n → t' = t :=
    fun t' n ha hn => hother t' (hs.actor t' n id ha hn)
  refine ⟨hs.lt, hs.inj, fun t' n ha => ?_, fun t' n id' ha hn => ?_, fun t₁ t₂ n h₁ h₂ => ?_⟩
  · simp only [IoHist.hold, update_apply] at ha
    split at ha
    · exact hs.lt id n ha
    · exact hs.actor_lt t' n ha
  · simp only [IoHist.hold, update_apply] at ha ⊢
    split at ha
    · rename_i ht
      rw [if_pos (hs.inj id' id n hn ha), ht]
    · rename_i ht
      have hc := hs.actor t' n id' ha hn
      rw [if_neg]
      · exact hc
      · rintro rfl
        exact ht (hother t' hc)
  · simp only [IoHist.hold, update_apply] at h₁ h₂
    split at h₁ <;> split at h₂
    · simp_all
    · rename_i ht₁ ht₂
      exact absurd (hfree t₂ n h₂ h₁) ht₂
    · rename_i ht₁ ht₂
      exact absurd (hfree t₁ n h₁ h₂) ht₁
    · exact hs.unique t₁ t₂ n h₁ h₂

theorem Serials.loc (hs : Serials h) (loc : Tid → Loc) : Serials { h with loc := loc } :=
  ⟨hs.lt, hs.inj, hs.actor_lt, hs.actor, hs.unique⟩

/-- A thread without a transaction has no part in it. -/
theorem Serials.leave (hs : Serials h) {ctl : SlotId → Ctl}
    (hctl : ∀ id t', h.ctl id = .thread t' → t' ≠ t → ctl id = .thread t') :
    Serials { h with ctl := ctl, actor := update h.actor t none } := by
  have hold : ∀ t' n, update h.actor t none t' = some n → t' ≠ t ∧ h.actor t' = some n := by
    intro t' n ha
    rw [update_apply] at ha
    split at ha
    · cases ha
    · exact ⟨‹_›, ha⟩
  refine ⟨hs.lt, hs.inj, fun t' n ha => hs.actor_lt t' n (hold t' n ha).2,
    fun t' n id ha hn => ?_, fun t₁ t₂ n h₁ h₂ => hs.unique t₁ t₂ n (hold t₁ n h₁).2 (hold t₂ n h₂).2⟩
  obtain ⟨hne, ha⟩ := hold t' n ha
  exact hctl id t' (hs.actor t' n id ha hn) hne

section

variable {κ : Type} [DecidableEq κ] {f : κ → Option Nat} {a b c : κ} {n next : Nat}

/-- The next serial number is a new one. -/
theorem of_update_next (hlt : ∀ a n, f a = some n → n < next)
    (h : update f a (some next) b = some n) : (b = a ∧ n = next) ∨ (f b = some n ∧ n < next) := by
  rw [update_apply] at h
  split at h
  · cases h; exact .inl ⟨‹_›, rfl⟩
  · exact .inr ⟨h, hlt _ _ h⟩

theorem update_next_inj (hlt : ∀ a n, f a = some n → n < next)
    (hinj : ∀ a b n, f a = some n → f b = some n → a = b)
    (h₁ : update f a (some next) b = some n) (h₂ : update f a (some next) c = some n) : b = c := by
  rcases of_update_next hlt h₁ with ⟨rfl, rfl⟩ | ⟨h₁, hlt₁⟩ <;>
    rcases of_update_next hlt h₂ with ⟨rfl, heq⟩ | ⟨h₂, hlt₂⟩
  · rfl
  · omega
  · omega
  · exact hinj b c n h₁ h₂

end

theorem Serials.setup (hs : Serials h) (hc : h.ctl id = .thread t) :
    Serials { h with
      serial := update h.serial id (some h.nextSerial), nextSerial := h.nextSerial + 1
      actor := update h.actor t (some h.nextSerial) } := by
  refine ⟨fun id' n hn => ?_, fun _ _ _ => update_next_inj hs.lt hs.inj, fun t' n ha => ?_,
    fun t' n id' ha hn => ?_, fun _ _ _ => update_next_inj hs.actor_lt hs.unique⟩
  · change n < h.nextSerial + 1
    rcases of_update_next hs.lt hn with ⟨-, rfl⟩ | ⟨-, hlt⟩ <;> omega
  · change n < h.nextSerial + 1
    rcases of_update_next hs.actor_lt ha with ⟨-, rfl⟩ | ⟨-, hlt⟩ <;> omega
  · rcases of_update_next hs.actor_lt ha with ⟨rfl, rfl⟩ | ⟨ha, hlt₁⟩ <;>
      rcases of_update_next hs.lt hn with ⟨rfl, heq⟩ | ⟨hn, hlt₂⟩
    · exact hc
    · omega
    · omega
    · exact hs.actor t' n id' ha hn

/-- The history of a slot without a transaction may change. -/
theorem Serials.setCtl (hs : Serials h) (hn : h.serial id = none) (c : Ctl) :
    Serials { h with ctl := update h.ctl id c } := by
  refine ⟨hs.lt, hs.inj, hs.actor_lt, fun t' n id' ha hn' => ?_, hs.unique⟩
  change update h.ctl id c id' = _
  rw [update_apply, if_neg]
  · exact hs.actor t' n id' ha hn'
  · rintro rfl
    rw [hn] at hn'
    cases hn'

theorem Serials.clear (hs : Serials h) :
    Serials { h with serial := update h.serial id none } := by
  have hold : ∀ {id' n}, update h.serial id none id' = some n → h.serial id' = some n := by
    intro id' n hn
    rw [update_apply] at hn
    split at hn
    · cases hn
    · exact hn
  exact ⟨fun id' n hn => hs.lt id' n (hold hn),
    fun id₁ id₂ n h₁ h₂ => hs.inj id₁ id₂ n (hold h₁) (hold h₂),
    hs.actor_lt, fun t' n id' ha hn => hs.actor t' n id' ha (hold hn), hs.unique⟩

end

/-! ## Steps -/

/-- The invariant, apart from the programs. -/
structure Parts (s : IoState) : Prop where
  slots : Slots s
  serials : Serials s.hist
  queued : Queued s.shared.queue s.hist.ctl
  free : Free s.shared.store s.hist.ctl

variable {ctl ctl' : SlotId → Ctl}

theorem Queued.keep {queue : List PolicyWork} (h : Queued queue ctl)
    (hc : ∀ id, ctl id = .queued → ctl' id = .queued) : Queued queue ctl' :=
  ⟨fun id hid => hc id (h.mem id hid), h.once⟩

theorem Free.keep {store store' : Store} (h : Free store ctl)
    (hf : store'.freeList = store.freeList) (ha : store'.allocated = store.allocated)
    (hc : ∀ id, ctl id = .free → ctl' id = .free) : Free store' ctl' := by
  refine ⟨fun id hid => ?_, hf ▸ h.nodup, fun id hid => hc id (h.fresh id (ha ▸ hid))⟩
  obtain ⟨hfree, hlt⟩ := h.mem id (hf ▸ hid)
  exact ⟨hc id hfree, ha ▸ hlt⟩

section

variable {s s' : IoState} {t : Tid} {id : SlotId} {m k : Mode} {l : Loc}

/-- The state after an operation of the thread `t` that takes it to `l`. -/
def IoState.after (s : IoState) (shared : IoShared) (h : IoHist) (t : Tid) (l : Loc) : IoState :=
  { s with shared := shared, hist := { h with loc := update h.loc t l } }

variable {h : IoHist} {shared : IoShared}

theorem IoState.sameThread_after (hloc : h.loc = s.hist.loc)
    (hactor : ∀ t', t' ≠ t → h.actor t' = s.hist.actor t') :
    ∀ t', t' ≠ t → SameThread s (s.after shared h t l) t' := by
  intro t' hne
  refine ⟨?_, hactor t' hne⟩
  simp only [IoState.after, hloc]
  exact update_of_ne hne _ _

@[simp] theorem IoState.loc_after :
    (s.after shared h t l).hist.loc t = l := by
  simp [IoState.after]

theorem Parts.quiet (h : Parts s) (hslots : ∀ id, shared.store.slotAt id = s.shared.store.slotAt id)
    (halloc : s.shared.store.allocated ≤ shared.store.allocated)
    (hfree : Free shared.store s.hist.ctl) (hlocked : shared.locked = s.shared.locked)
    (hqueue : Queued shared.queue s.hist.ctl) (hl : l.slot = (s.hist.loc t).slot) :
    Parts (s.after shared s.hist t l) := by
  refine ⟨h.slots.quiet (fun id => ⟨hslots id, ?_, rfl, rfl⟩)
    (IoState.sameThread_after rfl fun _ _ => rfl) halloc (by rw [IoState.loc_after, hl]) (.inl rfl),
    ?_, hqueue, hfree⟩
  · simp [IoState.after, hlocked]
  · exact h.serials.loc _

theorem Parts.threads (h : Parts s) (threads : Tid → Option (IoProg Unit)) :
    Parts { s with threads := threads } :=
  ⟨h.slots.quiet (t := 0) (fun _ => ⟨rfl, rfl, rfl, rfl⟩) (fun _ _ => ⟨rfl, rfl⟩) (Nat.le_refl _) rfl
    (.inl rfl), h.serials, h.queued, h.free⟩

variable {slot : TxnSlot}

/-- An operation of a thread on the slot that it may change, which stays its own. -/
theorem Parts.own (h : Parts s) (hl : (s.hist.loc t).slot = some (id, m))
    (hl' : l.slot = some (id, k)) (hedit : s.shared.store.SlotEdit shared.store id slot)
    (hlocked : shared.locked = update s.shared.locked id k.locked)
    (hqueue : shared.queue = s.shared.queue) (hstate : slot.state = k.state)
    (hlive : k.live = m.live) (hid : m.live = true → slot.txn.id = id) :
    Parts (s.after shared s.hist t l) := by
  obtain ⟨his, hactor⟩ := h.slots.own hl
  have hc := h.slots.thread t id m hl
  have hsame : ∀ id', id' ≠ id → SameSlot s (s.after shared s.hist t l) id' := by
    intro id' hne
    refine ⟨?_, ?_, rfl, rfl⟩
    · simp [IoState.after, hedit.slotAt, hne]
    · simp [IoState.after, hlocked, hne]
  have halloc : shared.store.allocated = s.shared.store.allocated := hedit.allocated
  refine ⟨h.slots.change hsame (IoState.sameThread_after rfl fun _ _ => rfl) (Nat.le_of_eq halloc.symm)
    (h.slots.mine hl).1 (h.slots.mine hl).2 ?_ ?_, ?_, ?_, ?_⟩
  · refine .thread (t := t) (m := k) hc (by rw [IoState.loc_after, hl']) ⟨?_, ?_, ?_, ?_, ?_⟩ ?_
    · exact halloc ▸ his.allocated
    · simp [IoState.after, hedit.slotAt, hstate]
    · simp [IoState.after, hlocked]
    · intro hm
      simp only [IoState.after, hedit.slotAt, if_true]
      exact ⟨hid (hlive ▸ hm), (his.live (hlive ▸ hm)).2⟩
    · exact fun hm => his.dead (hlive ▸ hm)
    · exact fun hm => hactor (hlive ▸ hm)
  · simp_all [IoState.after]
  · exact h.serials.loc _
  · simp only [IoState.after, hqueue]
    exact h.queued
  · exact h.free.keep hedit.freeList halloc fun _ hid => hid

/-- The slots after an operation that changes the slot `id`, its history, and where `t` is. -/
theorem Parts.change (h : Parts s) {hist : IoHist}
    (hedit : s.shared.store.SlotEdit shared.store id slot)
    (hlocked : ∀ id', id' ≠ id → shared.locked id' = s.shared.locked id')
    (hctl : ∀ id', id' ≠ id → hist.ctl id' = s.hist.ctl id')
    (hserial : ∀ id', id' ≠ id → hist.serial id' = s.hist.serial id') (hloc : hist.loc = s.hist.loc)
    (hactor : ∀ t', t' ≠ t → hist.actor t' = s.hist.actor t')
    (hmine : ∀ id' m, (s.hist.loc t).slot = some (id', m) → id' = id)
    (hother : ∀ t', s.hist.ctl id = .thread t' → t' = t)
    (hslot : SlotOk (s.after shared hist t l) id)
    (hthread : ∀ id' m, l.slot = some (id', m) → id' = id ∧ hist.ctl id = .thread t) :
    Slots (s.after shared hist t l) := by
  refine h.slots.change (fun id' hne => ⟨?_, hlocked id' hne, hctl id' hne, hserial id' hne⟩)
    (IoState.sameThread_after hloc hactor) (Nat.le_of_eq hedit.allocated.symm) hmine hother hslot ?_
  · simp [IoState.after, hedit.slotAt, hne]
  · intro id' m hm
    rw [IoState.loc_after] at hm
    exact hthread id' m hm

/-- A worker gets hold of a slot that waits for one. -/
theorem Parts.hold (h : Parts s) (hl : (s.hist.loc t).slot = none)
    (hc : s.hist.ctl id = .queued ∨ s.hist.ctl id = .waiting) (hl' : l.slot = some (id, k))
    (hedit : s.shared.store.SlotEdit shared.store id slot)
    (hlocked : shared.locked = update s.shared.locked id k.locked)
    (hqueue : Queued shared.queue (s.hist.hold t id).ctl) (hstate : slot.state = k.state)
    (hlive : k.live = true) (hid : slot.txn.id = id) :
    Parts (s.after shared (s.hist.hold t id) t l) := by
  have hfree : ∀ t', s.hist.ctl id ≠ .thread t' := by rcases hc with hc | hc <;> simp [hc]
  have his : id < s.shared.store.allocated ∧ (s.hist.serial id).isSome := by
    cases h.slots.slot id with
    | queued _ his | waiting _ his => exact ⟨his.allocated, (his.live rfl).2⟩
    | thread hc' => exact absurd hc' (hfree _)
    | free hc' => rw [hc'] at hc; rcases hc with hc | hc <;> cases hc
  refine ⟨h.change hedit (fun id' hne => ?_) (fun id' hne => ?_) (fun _ _ => rfl) rfl
    (fun t' hne => ?_) (fun id' m hm => ?_) (fun t' hc' => absurd hc' (hfree t')) ?_ ?_, ?_, ?_, ?_⟩
  · rw [hlocked, update_of_ne hne]
  · exact update_of_ne hne _ _
  · exact update_of_ne hne _ _
  · rw [hl] at hm
    cases hm
  · refine .thread (t := t) (m := k) ?_ (by rw [IoState.loc_after, hl']) ⟨?_, ?_, ?_, ?_, ?_⟩ ?_
    · simp [IoState.after, IoHist.hold]
    · exact hedit.allocated ▸ his.1
    · simp [IoState.after, hedit.slotAt, hstate]
    · simp [IoState.after, hlocked]
    · intro _
      simp only [IoState.after, hedit.slotAt, if_true]
      exact ⟨hid, his.2⟩
    · intro hm
      rw [hlive] at hm
      cases hm
    · simp [IoState.after, IoHist.hold]
  · simp_all [IoHist.hold]
  · exact (h.serials.hold fun t' hc' => absurd hc' (hfree t')).loc _
  · exact hqueue
  · refine h.free.keep hedit.freeList hedit.allocated fun id' hc' => ?_
    simp only [IoState.after, IoHist.hold]
    rw [update_of_ne, hc']
    rintro rfl
    rw [hc'] at hc
    rcases hc with hc | hc <;> cases hc

/-- A thread leaves its slot in the queue, or waiting for a resume. -/
theorem Parts.letGo (h : Parts s) {c : Ctl} (hl : (s.hist.loc t).slot = some (id, m))
    (hlive : m.live = true) (hl' : l.slot = none)
    (hc : c = .queued ∧ k = .ingress ∨ c = .waiting ∧ k = .waiting)
    (hedit : s.shared.store.SlotEdit shared.store id slot)
    (hlocked : shared.locked = update s.shared.locked id false)
    (hqueue : Queued shared.queue (update s.hist.ctl id c)) (hstate : slot.state = k.state)
    (hid : slot.txn.id = id) :
    Parts (s.after shared (s.hist.letGo t id c) t l) := by
  obtain ⟨his, -⟩ := h.slots.own hl
  have hctl := h.slots.thread t id m hl
  obtain ⟨hmine, hother⟩ := h.slots.mine hl
  have his' : SlotIs (s.after shared (s.hist.letGo t id c) t l) id k := by
    refine ⟨hedit.allocated ▸ his.allocated, ?_, ?_, fun _ => ?_, ?_⟩
    · simp [IoState.after, hedit.slotAt, hstate]
    · rcases hc with ⟨-, rfl⟩ | ⟨-, rfl⟩ <;> simp [IoState.after, hlocked, Mode.locked]
    · simp only [IoState.after, hedit.slotAt, if_true]
      exact ⟨hid, (his.live hlive).2⟩
    · rcases hc with ⟨-, rfl⟩ | ⟨-, rfl⟩ <;> simp [Mode.live]
  refine ⟨h.change hedit (fun id' hne => ?_) (fun id' hne => ?_) (fun _ _ => rfl) rfl
    (fun t' hne => ?_) hmine hother ?_ ?_, ?_, hqueue, ?_⟩
  · rw [hlocked, update_of_ne hne]
  · exact update_of_ne hne _ _
  · exact update_of_ne hne _ _
  · rcases hc with ⟨rfl, rfl⟩ | ⟨rfl, rfl⟩
    · exact .queued (by simp [IoState.after, IoHist.letGo]) his'
    · exact .waiting (by simp [IoState.after, IoHist.letGo]) his'
  · simp [hl']
  · have hs : Serials (s.hist.letGo t id c) := by
      refine h.serials.leave fun id' t' hc' hne => ?_
      rw [update_of_ne, hc']
      rintro rfl
      exact hne (hother t' hc')
    exact hs.loc _
  · refine h.free.keep hedit.freeList hedit.allocated fun id' hc' => ?_
    simp only [IoState.after, IoHist.letGo]
    rw [update_of_ne, hc']
    rintro rfl
    rw [hctl] at hc'
    cases hc'

/-- The ingress takes a slot off the free list. -/
theorem Parts.take (h : Parts s) (hl : (s.hist.loc t).slot = none) (hc : s.hist.ctl id = .free)
    (hl' : l.slot = some (id, .empty))
    (hslots : ∀ id', shared.store.slotAt id' = s.shared.store.slotAt id')
    (halloc : s.shared.store.allocated ≤ shared.store.allocated) (hlt : id < shared.store.allocated)
    (hlocked : shared.locked = s.shared.locked) (hqueue : shared.queue = s.shared.queue)
    (hfree : Free shared.store (update s.hist.ctl id (.thread t))) :
    Parts (s.after shared { s.hist with ctl := update s.hist.ctl id (.thread t) } t l) := by
  obtain ⟨hstate, hunlocked, hserial⟩ : (s.shared.store.slotAt id).state = .free ∧
      s.shared.locked id = false ∧ s.hist.serial id = none := by
    cases h.slots.slot id with
    | free _ hstate hlocked hserial => exact ⟨hstate, hlocked, hserial⟩
    | queued hc' | waiting hc' | thread hc' => rw [hc] at hc'; cases hc'
  refine ⟨h.slots.change (fun id' (hne : id' ≠ id) => ⟨hslots id', ?_, ?_, rfl⟩)
    (IoState.sameThread_after rfl fun _ _ => rfl) halloc (fun id' m hm => ?_) (fun t' hc' => ?_) ?_ ?_,
    ?_, ?_, hfree⟩
  · simp [IoState.after, hlocked]
  · exact update_of_ne hne _ _
  · rw [hl] at hm
    cases hm
  · rw [hc] at hc'
    cases hc'
  · refine .thread (t := t) (m := .empty) ?_ (by rw [IoState.loc_after, hl']) ⟨hlt, ?_, ?_, ?_, ?_⟩ ?_
    · simp [IoState.after]
    · simp [IoState.after, hslots, hstate, Mode.state]
    · simp [IoState.after, hlocked, hunlocked, Mode.locked]
    · exact fun hm => by cases hm
    · exact fun _ => hserial
    · exact fun hm => by cases hm
  · simp_all [IoState.after]
  · exact (h.serials.setCtl hserial (.thread t)).loc _
  · simp only [IoState.after, hqueue]
    refine h.queued.keep fun id' hc' => ?_
    rw [update_of_ne, hc']
    rintro rfl
    rw [hc] at hc'
    cases hc'

/-- A cleared slot goes back to the free list. -/
theorem Parts.giveBack (h : Parts s) (hl : (s.hist.loc t).slot = some (id, .empty))
    (hl' : l.slot = none) :
    Parts (s.after { s.shared with store := s.shared.store.returnToFree id }
      { s.hist with ctl := update s.hist.ctl id .free } t l) := by
  obtain ⟨his, -⟩ := h.slots.own hl
  have hctl := h.slots.thread t id _ hl
  have hserial : s.hist.serial id = none := his.dead rfl
  have hnot : ∀ {c : Ctl}, s.hist.ctl id = c → c = .thread t := by
    intro c hc
    rw [← hc, hctl]
  refine ⟨h.slots.change (fun id' (hne : id' ≠ id) => ⟨rfl, rfl, ?_, rfl⟩)
    (IoState.sameThread_after rfl fun _ _ => rfl) (Nat.le_refl _) (h.slots.mine hl).1
    (h.slots.mine hl).2 ?_ ?_, ?_, ?_, ?_⟩
  · exact update_of_ne hne _ _
  · exact .free (by simp [IoState.after]) his.state his.locked hserial
  · simp [hl']
  · exact (h.serials.setCtl hserial .free).loc _
  · refine h.queued.keep fun id' hc' => ?_
    simp only [IoState.after]
    rw [update_of_ne, hc']
    rintro rfl
    cases hnot hc'
  · have hkeep : ∀ id', s.hist.ctl id' = .free → update s.hist.ctl id .free id' = .free := by
      intro id' hc'
      rw [update_apply]
      split
      · rfl
      · exact hc'
    refine ⟨fun id' hid' => ?_, ?_, fun id' hle => hkeep id' (h.free.fresh id' hle)⟩
    · rcases List.mem_cons.mp hid' with rfl | hid'
      · exact ⟨by simp [IoState.after], his.allocated⟩
      · obtain ⟨hfree, hlt⟩ := h.free.mem id' hid'
        exact ⟨hkeep id' hfree, hlt⟩
    · refine List.nodup_cons.mpr ⟨fun hmem => ?_, h.free.nodup⟩
      cases hnot (h.free.mem id hmem).1

theorem Parts.setup (h : Parts s) {shared : IoShared} {slot : TxnSlot}
    (hl : (s.hist.loc t).slot = some (id, .marked)) (hl' : l.slot = some (id, .ingress))
    (hedit : s.shared.store.SlotEdit shared.store id slot)
    (hlocked : shared.locked = s.shared.locked) (hqueue : shared.queue = s.shared.queue)
    (hstate : slot.state = .ingress) (hid : slot.txn.id = id) :
    Parts (s.after shared { s.hist with
      serial := update s.hist.serial id (some s.hist.nextSerial)
      nextSerial := s.hist.nextSerial + 1
      actor := update s.hist.actor t (some s.hist.nextSerial) } t l) := by
  obtain ⟨his, -⟩ := h.slots.own hl
  have hctl := h.slots.thread t id _ hl
  refine ⟨h.change hedit (fun id' _ => by rw [hlocked]) (fun _ _ => rfl) (fun id' hne => ?_) rfl
    (fun t' hne => ?_) (h.slots.mine hl).1 (h.slots.mine hl).2 ?_ ?_, ?_, ?_, ?_⟩
  · exact update_of_ne hne _ _
  · exact update_of_ne hne _ _
  · refine .thread (t := t) (m := .ingress) hctl (by rw [IoState.loc_after, hl'])
      ⟨hedit.allocated ▸ his.allocated, ?_, ?_, fun _ => ?_, ?_⟩ ?_
    · simp [IoState.after, hedit.slotAt, hstate, Mode.state]
    · simp only [IoState.after, hlocked]
      exact his.locked
    · simp [IoState.after, hedit.slotAt, hid]
    · exact fun hm => by cases hm
    · simp [IoState.after]
  · simp_all
  · exact (h.serials.setup hctl).loc _
  · simp only [IoState.after, hqueue]
    exact h.queued
  · exact h.free.keep hedit.freeList hedit.allocated fun _ hc' => hc'

theorem Parts.clear (h : Parts s) (hl : (s.hist.loc t).slot = some (id, .policy))
    (hl' : l.slot = some (id, .empty)) (hedit : s.shared.store.SlotEdit shared.store id {})
    (hlocked : shared.locked = s.shared.locked) (hqueue : shared.queue = s.shared.queue) :
    Parts (s.after shared { s.hist with serial := update s.hist.serial id none } t l) := by
  obtain ⟨his, -⟩ := h.slots.own hl
  have hctl := h.slots.thread t id _ hl
  refine ⟨h.change hedit (fun id' _ => by rw [hlocked]) (fun _ _ => rfl) (fun id' hne => ?_) rfl
    (fun _ _ => rfl) (h.slots.mine hl).1 (h.slots.mine hl).2 ?_ ?_, ?_, ?_, ?_⟩
  · exact update_of_ne hne _ _
  · refine .thread (t := t) (m := .empty) hctl (by rw [IoState.loc_after, hl'])
      ⟨hedit.allocated ▸ his.allocated, ?_, ?_, ?_, fun _ => ?_⟩ ?_
    · simp [IoState.after, hedit.slotAt, Mode.state]
    · simp only [IoState.after, hlocked]
      exact his.locked
    · exact fun hm => by cases hm
    · simp [IoState.after]
    · exact fun hm => by cases hm
  · simp_all
  · exact h.serials.clear.loc _
  · simp only [IoState.after, hqueue]
    exact h.queued
  · exact h.free.keep hedit.freeList hedit.allocated fun _ hc' => hc'

end

section

variable {w : SplitWiring} {s : IoState} {t : Tid} {id : SlotId} {env : IoEnv} {shared : IoShared}

theorem parts_takeFree (h : Parts s) {r : Except AcquireError SlotId} (hok : s.hist.loc t = .idle)
    (hs : IoOp.takeFree.sem env s.shared = some (r, shared)) :
    Parts { s with shared := shared, hist := s.hist.next w t .takeFree r } := by
  obtain ⟨⟨store, r'⟩, hf, heq⟩ := Option.map_eq_some_iff.mp hs
  cases heq
  obtain ⟨hslots, halloc, hlist⟩ := Store.takeFree_spec hf
  have hl : (s.hist.loc t).slot = none := by rw [hok]; rfl
  cases r' with
  | error e =>
    have hfree : Free store s.hist.ctl := by
      refine ⟨fun id hid => ?_, hlist ▸ h.free.nodup, fun id hle => ?_⟩
      · obtain ⟨hc, hlt⟩ := h.free.mem id (hlist ▸ hid)
        exact ⟨hc, Nat.lt_of_lt_of_le hlt halloc⟩
      · exact h.free.fresh id (Nat.le_trans halloc hle)
    exact h.quiet hslots halloc hfree rfl h.queued hl.symm
  | ok id =>
    -- what is on the list before or comes new, is free; all but `id` stay on it
    have hall : (id :: store.freeList).Nodup ∧
        ∀ id' ∈ id :: store.freeList, s.hist.ctl id' = .free ∧ id' < store.allocated := by
      rcases hlist with hlist | ⟨-, hnodup, hnew⟩
      · refine ⟨hlist ▸ h.free.nodup, fun id' hid' => ?_⟩
        obtain ⟨hc, hlt⟩ := h.free.mem id' (hlist ▸ hid')
        exact ⟨hc, Nat.lt_of_lt_of_le hlt halloc⟩
      · exact ⟨hnodup, fun id' hid' => ⟨h.free.fresh id' (hnew id' hid').1, (hnew id' hid').2⟩⟩
    obtain ⟨hnodup, hmem⟩ := hall
    obtain ⟨hnot, hnodup⟩ := List.nodup_cons.mp hnodup
    obtain ⟨hc, hlt⟩ := hmem id List.mem_cons_self
    refine h.take hl hc rfl hslots halloc hlt rfl rfl ⟨fun id' hid' => ?_, hnodup, fun id' hle => ?_⟩
    · obtain ⟨hc', hlt'⟩ := hmem id' (List.mem_cons_of_mem _ hid')
      rw [update_of_ne]
      · exact ⟨hc', hlt'⟩
      · rintro rfl
        exact hnot hid'
    · have hne : id' ≠ id := by
        rintro rfl
        exact absurd hlt (Nat.not_lt.mpr hle)
      rw [update_of_ne hne]
      exact h.free.fresh id' (Nat.le_trans halloc hle)

theorem parts_markIngress (h : Parts s) {r : Unit} (hok : s.hist.loc t = .taken id)
    (hs : (IoOp.markIngress id).sem env s.shared = some (r, shared)) :
    Parts { s with shared := shared, hist := s.hist.next w t (.markIngress id) r } := by
  have hl : (s.hist.loc t).slot = some (id, .empty) := by rw [hok]; rfl
  obtain ⟨his, -⟩ := h.slots.own hl
  simp only [IoOp.sem] at hs
  obtain ⟨-, -, rfl⟩ := IoShared.onSlot_eq hs
  obtain ⟨hedit, -⟩ := Store.slotEdit_withSlotExclusive his.allocated
    (fun slot => ({ state := .ingress, txn := { slot.txn with id := id } }, Except.ok ()))
  refine h.own (k := .marked) hl rfl hedit ?_ rfl rfl rfl (fun hm => by cases hm)
  rw [update_eq_self_iff.mpr his.locked.symm]

variable {r : Bool} {txn : Transaction}

theorem parts_setup (h : Parts s) (hok : s.hist.loc t = .marked id)
    (hs : (IoOp.setup id txn).sem env s.shared = some (r, shared)) :
    r = true ∧ Parts { s with shared := shared, hist := s.hist.next w t (.setup id txn) r } := by
  have hl : (s.hist.loc t).slot = some (id, .marked) := by rw [hok]; rfl
  obtain ⟨his, -⟩ := h.slots.own hl
  simp only [IoOp.sem] at hs
  obtain ⟨-, rfl, rfl⟩ := IoShared.onSlot_eq hs
  obtain ⟨hedit, hres⟩ := Store.slotEdit_withSlotExclusive his.allocated fun slot =>
    if slot.state ≠ .ingress then (slot, Except.error (.stateMismatch .ingress slot.state))
    else ({ slot with txn := { txn with id := id } }, .ok ())
  have hstate : ¬ (s.shared.store.slotAt id).state ≠ .ingress := not_not.mpr his.state
  rw [if_neg hstate] at hedit hres
  refine ⟨?_, h.setup hl rfl hedit rfl rfl his.state rfl⟩
  simp only [IoShared.setupSlot, hres]
  rfl

theorem parts_clearActive (h : Parts s) {pool : Option String}
    (hok : s.hist.loc t = .releasing id pool)
    (hs : (IoOp.clearActive id).sem env s.shared = some (r, shared)) :
    r = true ∧ Parts { s with shared := shared, hist := s.hist.next w t (.clearActive id) r } := by
  have hl : (s.hist.loc t).slot = some (id, .policy) := by rw [hok]; rfl
  obtain ⟨his, -⟩ := h.slots.own hl
  simp only [IoOp.sem] at hs
  obtain ⟨-, rfl, rfl⟩ := IoShared.onSlot_eq hs
  obtain ⟨hedit, hres⟩ := Store.slotEdit_withSlotExclusive his.allocated fun slot =>
    if slot.state = .free then (slot, Except.ok false) else ({}, .ok true)
  have hstate : ¬ (s.shared.store.slotAt id).state = .free := by
    rw [his.state]
    simp [Mode.state]
  rw [if_neg hstate] at hedit hres
  have hl' : ((s.hist.loc t).next w (.clearActive id) true).slot = some (id, .empty) := by
    rw [hok]
    rfl
  refine ⟨?_, h.clear hl hl' hedit rfl rfl⟩
  simp only [IoShared.clearSlot, Store.clearActive, hres]

variable {h : IoHist}

theorem IoHist.hold_eq_self (hc : h.ctl id = .thread t) (ha : h.actor t = h.serial id) :
    h.hold t id = h := by
  unfold IoHist.hold
  rw [update_eq_self_iff.mpr hc.symm, update_eq_self_iff.mpr ha.symm]

theorem Loc.slot_ne_waiting (l : Loc) : l.slot ≠ some (id, .waiting) := by
  unfold Loc.slot
  split <;> simp

theorem Slots.waiting (h : Slots s) (hstate : (s.shared.store.slotAt id).state = .ioWait) :
    s.hist.ctl id = .waiting ∧ SlotIs s id .waiting := by
  cases h.slot id with
  | waiting hc his => exact ⟨hc, his⟩
  | free hc hfree => rw [hstate] at hfree; cases hfree
  | queued hc his =>
    have hq := his.state
    rw [hstate] at hq
    cases hq
  | @thread t m hc hloc his =>
    have hm := his.state
    rw [hstate] at hm
    cases m <;> cases hm
    exact absurd hloc (Loc.slot_ne_waiting _)

variable {queue : List PolicyWork}

theorem Queued.hold (hq : Queued queue h.ctl) (hnot : .new id ∉ queue) :
    Queued queue (h.hold t id).ctl := by
  refine ⟨fun id' hid' => ?_, hq.once⟩
  have hne : id' ≠ id := by
    rintro rfl
    exact hnot hid'
  change update h.ctl id (.thread t) id' = _
  rw [update_of_ne hne]
  exact hq.mem id' hid'

/-- A resume that leaves the slot alone. -/
theorem Parts.refuse (h : Parts s) {α : Type} {f : TxnSlot → TxnSlot × Except SlotError α} {l : Loc}
    (hl : (s.hist.loc t).slot = none) (hl' : l.slot = none)
    (hsame : (f (s.shared.store.slotAt id)).1 = s.shared.store.slotAt id) :
    Parts (s.after { s.shared with store := (s.shared.store.withSlotExclusive id f).1 } s.hist t l) := by
  by_cases hlt : id < s.shared.store.allocated
  · obtain ⟨hedit, -⟩ := Store.slotEdit_withSlotExclusive hlt f
    rw [hsame] at hedit
    exact h.quiet hedit.same (Nat.le_of_eq hedit.allocated.symm)
      (h.free.keep hedit.freeList hedit.allocated fun _ hc => hc) rfl h.queued (by rw [hl', hl])
  · rw [Store.withSlotExclusive_of_le (Nat.le_of_not_lt hlt)]
    exact h.quiet (fun _ => rfl) (Nat.le_refl _) h.free rfl h.queued (by rw [hl', hl])

/-- A resume that takes a waiting slot to the policy state. -/
theorem Parts.resume (h : Parts s) {α : Type} {f : TxnSlot → TxnSlot × Except SlotError α} {l : Loc}
    (hl : (s.hist.loc t).slot = none) (hl' : l.slot = some (id, .policy))
    (hwait : (s.shared.store.slotAt id).state = .ioWait)
    (hstate : (f (s.shared.store.slotAt id)).1.state = .policy)
    (hid : (f (s.shared.store.slotAt id)).1.txn.id = (s.shared.store.slotAt id).txn.id) :
    Parts (s.after { s.shared with store := (s.shared.store.withSlotExclusive id f).1 }
      (s.hist.hold t id) t l) := by
  obtain ⟨hc, his⟩ := h.slots.waiting hwait
  obtain ⟨hedit, -⟩ := Store.slotEdit_withSlotExclusive his.allocated f
  refine h.hold hl (.inr hc) hl' hedit ?_ (h.queued.hold ?_) hstate rfl (hid.trans (his.live rfl).1)
  · rw [update_eq_self_iff.mpr his.locked.symm]
  · intro hmem
    have hq := h.queued.mem id hmem
    rw [hc] at hq
    cases hq

theorem resumeSlot_snd (st : Store) (res : IoResume) :
    (IoShared.resumeSlot res st).2 = decide ((st.slotAt res.slotId).state = .ioWait) := by
  unfold IoShared.resumeSlot
  by_cases hlt : res.slotId < st.allocated
  · simp only [(Store.slotEdit_withSlotExclusive hlt _).2]
    by_cases hw : (st.slotAt res.slotId).state = .ioWait <;> simp [hw]
  · have hle := Nat.le_of_not_lt hlt
    simp [Store.withSlotExclusive_of_le hle, Store.slotAt_of_le hle]

variable {expected next : SlotState}

theorem isOk_transition (st : Store) (hne : expected ≠ .free) :
    IoShared.isOk (st.transition id expected next).2 = decide ((st.slotAt id).state = expected) := by
  unfold Store.transition
  by_cases hlt : id < st.allocated
  · simp only [(Store.slotEdit_withSlotExclusive hlt _).2]
    by_cases hw : (st.slotAt id).state = expected <;> simp [hw, IoShared.isOk]
  · have hle := Nat.le_of_not_lt hlt
    simp [Store.withSlotExclusive_of_le hle, Store.slotAt_of_le hle, IoShared.isOk, hne.symm]

theorem applyWaitCompletion_id (t : Transaction) (c : WaitCompletion) :
    (applyWaitCompletion t c).id = t.id := by
  cases c <;> rfl

theorem parts_beginResume (h : Parts s) {res : IoResume}
    (hok : s.hist.loc t = .popped (.resume res))
    (hs : (IoOp.beginResume res).sem env s.shared = some (r, shared)) :
    Parts { s with shared := shared, hist := s.hist.next w t (.beginResume res) r } := by
  have hl : (s.hist.loc t).slot = none := by rw [hok]; rfl
  simp only [IoOp.sem] at hs
  obtain ⟨-, rfl, rfl⟩ := IoShared.onSlot_eq hs
  rw [resumeSlot_snd]
  by_cases hw : (s.shared.store.slotAt res.slotId).state = .ioWait
  · rw [decide_eq_true hw]
    refine h.resume hl rfl hw ?_ ?_
    · rw [if_neg (not_not.mpr hw)]
    · rw [if_neg (not_not.mpr hw)]
      exact applyWaitCompletion_id _ _
  · rw [decide_eq_false hw]
    refine h.refuse hl rfl ?_
    rw [if_pos hw]

theorem parts_transition (h : Parts s) (hok : ioOk w (s.hist.loc t) (.transition id expected next))
    (hs : (IoOp.transition id expected next).sem env s.shared = some (r, shared)) :
    ioMay (s.hist.loc t) (.transition id expected next) r ∧
      Parts { s with shared := shared, hist := s.hist.next w t (.transition id expected next) r } := by
  simp only [IoOp.sem] at hs
  obtain ⟨-, rfl, rfl⟩ := IoShared.onSlot_eq hs
  obtain ⟨rfl, ⟨rfl, hloc⟩ | ⟨rfl, n, hloc⟩⟩ := hok
  · -- a new slot is the worker's own
    have hl : (s.hist.loc t).slot = some (id, .ingress) := by rw [hloc]; rfl
    obtain ⟨his, hactor⟩ := h.slots.own hl
    have hstate : (s.shared.store.slotAt id).state = .ingress := his.state
    have hres : IoShared.isOk (s.shared.store.transition id .ingress .policy).2 = true := by
      rw [isOk_transition _ (by simp), decide_eq_true hstate]
    refine ⟨fun _ => hres, ?_⟩
    rw [hres]
    change Parts (s.after _ (s.hist.hold t id) t (.entered id))
    rw [IoHist.hold_eq_self (h.slots.thread t id _ hl) (hactor rfl)]
    obtain ⟨hedit, -⟩ := Store.slotEdit_withSlotExclusive his.allocated fun slot =>
      if slot.state ≠ .ingress then (slot, Except.error (.stateMismatch .ingress slot.state))
      else ({ slot with state := .policy }, .ok ())
    rw [if_neg (not_not.mpr hstate)] at hedit
    refine h.own (k := .policy) hl rfl hedit ?_ rfl rfl rfl fun _ => (his.live rfl).1
    rw [update_eq_self_iff.mpr his.locked.symm]
  · have hl : (s.hist.loc t).slot = none := by rw [hloc]; rfl
    have hmay : ∀ r, ioMay (s.hist.loc t) (.transition id .ioWait .policy) r := by
      intro r hnew
      rw [hloc] at hnew
      cases hnew
    refine ⟨hmay _, ?_⟩
    rw [isOk_transition _ (by simp)]
    by_cases hw : (s.shared.store.slotAt id).state = .ioWait
    · rw [decide_eq_true hw]
      refine h.resume hl rfl hw ?_ ?_
      · rw [if_neg (not_not.mpr hw)]
      · rw [if_neg (not_not.mpr hw)]
    · rw [decide_eq_false hw]
      refine h.refuse hl rfl ?_
      rw [if_pos hw]

theorem parts_lockPolicy (h : Parts s) {r : Option Transaction} (hok : s.hist.loc t = .entered id)
    (hs : (IoOp.lockPolicy id).sem env s.shared = some (r, shared)) :
    (∃ txn : Transaction, r = some txn ∧ txn.id = id) ∧
      Parts { s with shared := shared, hist := s.hist.next w t (.lockPolicy id) r } := by
  have hl : (s.hist.loc t).slot = some (id, .policy) := by rw [hok]; rfl
  obtain ⟨his, -⟩ := h.slots.own hl
  have hunlocked : s.shared.locked id = false := his.locked
  have hstate : (s.shared.store.slotAt id).state = .policy := his.state
  simp only [IoOp.sem, hunlocked, Store.getElem_slotAt his.allocated] at hs
  rw [if_neg (by simp), if_neg (not_not.mpr hstate)] at hs
  cases hs
  refine ⟨⟨_, rfl, (his.live rfl).1⟩, ?_⟩
  have hedit := s.shared.store.slotEdit_refl id
  exact h.own (k := .busy) hl rfl hedit rfl rfl his.state rfl fun _ => (his.live rfl).1

theorem parts_unlock (h : Parts s) {run : OrchestratorRun} {r : Unit}
    (hok : ioOk w (s.hist.loc t) (.unlock id txn run))
    (hs : (IoOp.unlock id txn run).sem env s.shared = some (r, shared)) :
    Parts { s with shared := shared, hist := s.hist.next w t (.unlock id txn run) r } := by
  cases hs
  obtain ⟨hid, hloc⟩ := hok
  cases run with
  | suspended =>
    have hloc : s.hist.loc t = .parked id := hloc
    have hl : (s.hist.loc t).slot = some (id, .busy) := by rw [hloc]; rfl
    have hedit := Store.slotEdit_set (h.slots.own hl).1.allocated { state := .ioWait, txn := txn }
    refine h.letGo (k := .waiting) hl rfl rfl (.inr ⟨rfl, rfl⟩) hedit rfl ?_ rfl hid
    refine h.queued.keep fun id' hc => ?_
    rw [update_of_ne, hc]
    rintro rfl
    rw [h.slots.thread t id' _ hl] at hc
    cases hc
  | finished out =>
    obtain ⟨debt, hloc⟩ := hloc
    have hl : (s.hist.loc t).slot = some (id, .busy) := by rw [hloc]; rfl
    have hedit := Store.slotEdit_set (h.slots.own hl).1.allocated { state := .policy, txn := txn }
    exact h.own (k := .policy) hl rfl hedit rfl rfl rfl rfl fun _ => hid

variable {work : PolicyWork} {ctl : SlotId → Ctl}

theorem Queued.push (h : Queued queue ctl) (hw : work.newSlot = none) :
    Queued (queue ++ [work]) ctl := by
  refine ⟨fun id hid => ?_, h.once.snoc fun b hb => by rw [hw] at hb; cases hb⟩
  rcases List.mem_append.mp hid with hid | hid
  · exact h.mem id hid
  · cases List.mem_singleton.mp hid
    cases hw

theorem Queued.erase (h : Queued queue ctl) (i : Nat) :
    Queued (queue.eraseIdx i) ctl :=
  ⟨fun id hid => h.mem id (List.mem_of_mem_eraseIdx hid), h.once.erase i⟩

theorem parts_push (h : Parts s) {r : Unit} (hok : ioOk w (s.hist.loc t) (.push work))
    (hs : (IoOp.push work).sem env s.shared = some (r, shared)) :
    Parts { s with shared := shared, hist := s.hist.next w t (.push work) r } := by
  cases hs
  cases work with
  | new id =>
    have hloc : s.hist.loc t = .routed id := hok
    have hl : (s.hist.loc t).slot = some (id, .ingress) := by rw [hloc]; rfl
    obtain ⟨his, -⟩ := h.slots.own hl
    have hctl := h.slots.thread t id _ hl
    have hedit := s.shared.store.slotEdit_refl id
    have hnot : .new id ∉ s.shared.queue := by
      intro hmem
      have hq := h.queued.mem id hmem
      rw [hctl] at hq
      cases hq
    refine h.letGo (k := .ingress) hl rfl rfl (.inl ⟨rfl, rfl⟩) hedit ?_ ⟨fun id' hid' => ?_, ?_⟩
      his.state (his.live rfl).1
    · rw [update_eq_self_iff.mpr his.locked.symm]
    · rcases List.mem_append.mp hid' with hid' | hid'
      · rw [update_apply]
        split
        · rfl
        · exact h.queued.mem id' hid'
      · cases List.mem_singleton.mp hid'
        rw [update_self]
    · refine h.queued.once.snoc fun b hb work hmem hnew => ?_
      cases hb
      cases work with
      | new id' =>
        cases hnew
        exact hnot hmem
      | resume _ | lookupResume _ _ => cases hnew
  | resume res =>
    have hloc : s.hist.loc t = .moving res := hok
    exact h.quiet (fun _ => rfl) (Nat.le_refl _) h.free rfl (h.queued.push rfl) (by rw [hloc]; rfl)
  | lookupResume id n => cases hok

theorem parts_pop (h : Parts s) {r : PolicyWork} (hok : s.hist.loc t = .idle)
    (hs : IoOp.pop.sem env s.shared = some (r, shared)) :
    Parts { s with shared := shared, hist := s.hist.next w t .pop r } := by
  obtain ⟨_, hget, heq⟩ := Option.map_eq_some_iff.mp hs
  cases heq
  have hl : (s.hist.loc t).slot = none := by rw [hok]; rfl
  have hquiet : ∀ work : PolicyWork, (Loc.popped work).slot = none →
      Parts (s.after { s.shared with queue := s.shared.queue.eraseIdx env.index } s.hist t
        (.popped work)) := fun work hw =>
    h.quiet (fun _ => rfl) (Nat.le_refl _) h.free rfl (h.queued.erase _) (by rw [hl, hw])
  cases r with
  | new id =>
    have hctl := h.queued.mem id (List.mem_of_getElem? hget)
    have his : SlotIs s id .ingress := by
      cases h.slots.slot id with
      | queued _ his => exact his
      | free hc | waiting hc | thread hc => rw [hctl] at hc; cases hc
    have hnot : .new id ∉ s.shared.queue.eraseIdx env.index := fun hmem =>
      h.queued.once.not_mem_erase hget rfl _ hmem rfl
    have hedit := s.shared.store.slotEdit_refl id
    refine h.hold (k := .ingress) hl (.inl hctl) rfl hedit ?_
      ((h.queued.erase _).hold hnot) his.state rfl (his.live rfl).1
    rw [update_eq_self_iff.mpr his.locked.symm]
  | resume res => exact hquiet (.resume res) rfl
  | lookupResume id n => exact hquiet (.lookupResume id n) rfl

/-- Only operations on the slots and the queue move a thread from slot to slot. -/
theorem Loc.Move.slot_eq {l l' : Loc} {o : IoOp} {r : o.Resp} (hm : Loc.Move w l o r l')
    (hslots : o.part ≠ .slots) (hqueue : o.part ≠ .queue) : l'.slot = l.slot := by
  cases hm <;> first | rfl | exact absurd rfl hslots | exact absurd rfl hqueue

/-- **One operation of a thread keeps the invariant, and is answered as its order expects.** -/
theorem parts_op (h : Parts s) {o : IoOp} {r : o.Resp} (hok : ioOk w (s.hist.loc t) o)
    (hs : o.sem env s.shared = some (r, shared)) :
    ioMay (s.hist.loc t) o r ∧ Parts { s with shared := shared, hist := s.hist.next w t o r } := by
  -- an operation that reads and writes nothing of the slots
  have hquiet : ∀ {l : Loc}, shared.store = s.shared.store → shared.locked = s.shared.locked →
      shared.queue = s.shared.queue → l.slot = (s.hist.loc t).slot →
      Parts (s.after shared s.hist t l) := by
    intro l hstore hlocked hqueue hl
    refine h.quiet (fun _ => by rw [hstore]) (Nat.le_of_eq (by rw [hstore])) (hstore ▸ h.free) hlocked
      ?_ hl
    rw [hqueue]
    exact h.queued
  cases o with
  | takeFree => exact ⟨trivial, parts_takeFree h hok hs⟩
  | markIngress id => exact ⟨trivial, parts_markIngress h hok hs⟩
  | setup id txn => exact parts_setup h hok hs
  | clearActive id =>
    obtain ⟨pool, hloc⟩ := hok
    exact parts_clearActive h hloc hs
  | returnToFree id =>
    obtain ⟨pool, hloc⟩ := hok
    cases hs
    refine ⟨trivial, h.giveBack (by rw [hloc]; rfl) ?_⟩
    rw [hloc]
    rfl
  | transition id expected next => exact parts_transition h hok hs
  | beginResume res => exact ⟨trivial, parts_beginResume h hok hs⟩
  | lockPolicy id => exact parts_lockPolicy h hok hs
  | unlock id txn run => exact ⟨trivial, parts_unlock h hok hs⟩
  | push work => exact ⟨trivial, parts_push h hok hs⟩
  | pop => exact ⟨trivial, parts_pop h hok hs⟩
  | poolOf id | recvResume =>
    have hl := (Loc.move (r := r) hok trivial).slot_eq (by simp [IoOp.part]) (by simp [IoOp.part])
    simp only [IoOp.sem] at hs
    split at hs
    · cases hs
    · cases hs
      exact ⟨trivial, hquiet rfl rfl rfl hl⟩
  | _ =>
    have hl := (Loc.move (r := r) hok trivial).slot_eq (by simp [IoOp.part]) (by simp [IoOp.part])
    cases hs
    exact ⟨trivial, hquiet rfl rfl rfl hl⟩

end

/-! ## The invariant -/

/-- The thread works for no transaction. -/
def Loc.Bare : Loc → Prop
  | .idle | .taken _ | .marked _ | .popped (.resume _) | .popped (.lookupResume _ _)
  | .completing _ _ | .resuming _ | .moving _ => True
  | _ => False

/-- The thread has cleared the slot of its transaction. -/
def Loc.Leaving : Loc → Prop
  | .cleared _ _ | .freed _ => True
  | _ => False

structure Control (w : SplitWiring) (s : IoState) : Prop where
  prog : ∀ t p, s.threads t = some p → Prog.Obeys (ioProto w) (fun l _ => l.Done) (s.hist.loc t) p
  idle : ∀ t, s.threads t = none → s.hist.loc t = .idle
  parts : Parts s
  bare : ∀ t, (s.hist.loc t).Bare → s.hist.actor t = none
  leaving : ∀ t, (s.hist.loc t).Leaving → (s.hist.actor t).isSome

section

variable {w : SplitWiring} {s s' : IoState} {t : Tid}

variable {l : Loc}

theorem Loc.Done.slot (h : l.Done) : l.slot = none := by
  unfold Loc.Done at h
  split at h <;> first | rfl | cases h

theorem Parts.reset (h : Parts s) (hdone : (s.hist.loc t).Done) :
    Parts { s with hist := s.hist.reset t } := by
  refine ⟨h.slots.quiet (fun _ => ⟨rfl, rfl, rfl, rfl⟩) (fun t' hne => ⟨?_, ?_⟩) (Nat.le_refl _) ?_
    (.inr hdone.slot), ?_, h.queued, h.free⟩
  · exact update_of_ne hne _ _
  · exact update_of_ne hne _ _
  · simp only [IoHist.reset, update_self]
    exact hdone.slot.symm
  · exact (h.serials.leave fun _ _ hc _ => hc).loc _

theorem Control.op (h : Control w s) {env : IoEnv} {o : IoOp} {k : o.Resp → IoProg Unit} {r : o.Resp}
    {shared : IoShared} (ht : s.threads t = some (.op o k))
    (hs : o.sem env s.shared = some (r, shared)) :
    ioOk w (s.hist.loc t) o ∧ ioMay (s.hist.loc t) o r ∧
      Prog.Obeys (ioProto w) (fun l _ => l.Done) ((s.hist.loc t).next w o r) (k r) := by
  obtain ⟨hok, hnext⟩ := h.prog t _ ht
  obtain ⟨hmay, -⟩ := parts_op h.parts hok hs
  exact ⟨hok, hmay, hnext r hmay⟩

variable {o : IoOp} {r : o.Resp}

theorem IoHist.next_of_ne {h : IoHist} {t' : Tid} (hne : t' ≠ t) :
    (h.next w t o r).loc t' = h.loc t' ∧ (h.next w t o r).actor t' = h.actor t' := by
  refine ⟨update_of_ne hne _ _, ?_⟩
  change (h.transfer t o r).actor t' = h.actor t'
  have hupd : ∀ x, update h.actor t x t' = h.actor t' := fun x => update_of_ne hne _ _
  unfold IoHist.transfer
  split <;> (try split) <;> first | rfl | exact hupd _

/-- A thread gets to work for no transaction only if it did so before. -/
theorem Loc.Move.bare {l' : Loc} (hm : Loc.Move w l o r l') (hb : l'.Bare) :
    l.Bare ∧ ∀ h : IoHist, (h.transfer t o r).actor t = h.actor t := by
  cases hm <;> first | exact ⟨trivial, fun _ => rfl⟩ | cases hb

/-- Only a thread that releases its slot gets to leave it. -/
theorem Loc.Move.leaving {l' : Loc} (hm : Loc.Move w l o r l') (hb : l'.Leaving) :
    ((∃ id, l.slot = some (id, .policy)) ∨ l.Leaving) ∧
      ∀ h : IoHist, (h.transfer t o r).actor t = h.actor t := by
  cases hm with
  | clearActive => exact ⟨.inl ⟨_, rfl⟩, fun _ => rfl⟩
  | returnToFree => exact ⟨.inr trivial, fun _ => rfl⟩
  | _ => cases hb

theorem Control.thread (h : Control w s) {p : Option (IoProg Unit)}
    (hthreads : s'.threads = update s.threads t p)
    (hother : ∀ t', t' ≠ t → s'.hist.loc t' = s.hist.loc t' ∧ s'.hist.actor t' = s.hist.actor t')
    (hprog : ∀ q ∈ p, Prog.Obeys (ioProto w) (fun l _ => l.Done) (s'.hist.loc t) q)
    (hidle : p = none → s'.hist.loc t = .idle) (hparts : Parts s')
    (hbare : (s'.hist.loc t).Bare → s'.hist.actor t = none)
    (hleaving : (s'.hist.loc t).Leaving → (s'.hist.actor t).isSome) : Control w s' := by
  refine ⟨fun t' q hq => ?_, fun t' hq => ?_, hparts, fun t' hb => ?_, fun t' hb => ?_⟩ <;>
    by_cases hne : t' = t
  · subst hne
    rw [hthreads, update_self] at hq
    exact hprog q hq
  · rw [hthreads, update_of_ne hne] at hq
    rw [(hother t' hne).1]
    exact h.prog t' q hq
  · subst hne
    rw [hthreads, update_self] at hq
    exact hidle hq
  · rw [hthreads, update_of_ne hne] at hq
    rw [(hother t' hne).1]
    exact h.idle t' hq
  · exact hne ▸ hbare (hne ▸ hb)
  · rw [(hother t' hne).2]
    exact h.bare t' ((hother t' hne).1 ▸ hb)
  · exact hne ▸ hleaving (hne ▸ hb)
  · rw [(hother t' hne).2]
    exact h.leaving t' ((hother t' hne).1 ▸ hb)

theorem Control.step (h : Control w s) {a : IoAct} (hs : s.step w a = some s') : Control w s' := by
  cases ioStep_cases hs with
  | @start t job ht =>
    refine h.thread rfl (fun _ _ => ⟨rfl, rfl⟩) (fun q hq => ?_) (fun hq => by cases hq)
      (h.parts.threads _) (h.bare t) (h.leaving t)
    cases hq
    rw [h.idle t ht]
    exact job_obeys w job
  | @op t env o k r shared ht hsem =>
    obtain ⟨hok, hmay, hobeys⟩ := h.op ht hsem
    have hloc : (s.hist.next w t o r).loc t = (s.hist.loc t).next w o r := by simp [IoHist.next]
    refine h.thread rfl (fun _ hne => IoHist.next_of_ne hne) (fun q hq => ?_) (fun hq => by cases hq)
      ((parts_op h.parts hok hsem).2.threads _) (fun hb => ?_) fun hb => ?_
    · cases hq
      rw [hloc]
      exact hobeys
    · rw [hloc] at hb
      obtain ⟨hb, ha⟩ := (Loc.move hok hmay).bare (t := t) hb
      exact (ha s.hist).trans (h.bare t hb)
    · rw [hloc] at hb
      obtain ⟨hb, ha⟩ := (Loc.move hok hmay).leaving (t := t) hb
      change ((s.hist.transfer t o r).actor t).isSome
      rw [ha]
      rcases hb with ⟨id, hl⟩ | hb
      · obtain ⟨n, -, hactor⟩ := h.parts.slots.txn hl rfl
        rw [hactor]
        rfl
      · exact h.leaving t hb
  | @ret t ht =>
    have hloc : (s.hist.reset t).loc t = .idle := by simp [IoHist.reset]
    refine h.thread rfl (fun t' hne => ⟨?_, ?_⟩) (fun q hq => by cases hq) (fun _ => hloc)
      ((h.parts.reset (h.prog t _ ht)).threads _) (fun _ => ?_) fun hb => ?_
    · exact update_of_ne hne _ _
    · exact update_of_ne hne _ _
    · exact update_self _ _ _
    · rw [hloc] at hb
      cases hb
  | @wake index waiter hw =>
    refine ⟨h.prog, h.idle, ⟨?_, h.parts.serials, h.parts.queued.push rfl, h.parts.free⟩, h.bare,
      h.leaving⟩
    exact h.parts.slots.quiet (t := 0) (fun _ => ⟨rfl, rfl, rfl, rfl⟩) (fun _ _ => ⟨rfl, rfl⟩)
      (Nat.le_refl _) rfl (.inl rfl)

end

variable {s : IoState} {w : SplitWiring}

theorem control_init (h : (split w).init s) : Control w s := by
  obtain ⟨store, table, inflight, rfl, hslots, hfree, -, -⟩ := h
  have hat : ∀ id, store.slotAt id = {} := by
    intro id
    unfold Store.slotAt
    rw [hslots]
    rfl
  refine ⟨fun t p hp => (by cases hp), fun _ _ => rfl, ⟨⟨fun id => ?_, fun t id m hl => (by cases hl)⟩,
    ?_, ⟨fun id hid => (by cases hid), Tags.once_nil⟩, ⟨fun id hid => ?_, ?_, fun _ _ => rfl⟩⟩,
    fun _ _ => rfl, fun _ hb => (by cases hb)⟩
  · exact .free rfl (by rw [hat]) rfl rfl
  · exact ⟨fun _ _ hn => (by cases hn), fun _ _ _ hn => (by cases hn), fun _ _ ha => (by cases ha),
      fun _ _ _ ha => (by cases ha), fun _ _ _ ha => (by cases ha)⟩
  · simp only [hfree] at hid
    cases hid
  · simp only [hfree]
    exact List.nodup_nil

/-- **Every slot in use is changed by one thread at a time, in every run.** -/
theorem control {C : (split w).St → (split w).Act → Prop} (h : (split w).Reach C s) : Control w s :=
  Lts.Reach.inv (fun _ => control_init) (fun _ _ _ _ hc _ he => Control.step hc he) h

/-! ## The slots of the threads -/

/-- The slot that its owner changes by the operation. By `transition` and `beginResume` a worker gets
to own a slot. -/
def IoOp.slot : IoOp → Option SlotId
  | .markIngress id | .setup id _ | .lockPolicy id | .unlock id _ _ | .clearActive id
  | .returnToFree id => some id
  | _ => none

theorem ioOk_slot {l : Loc} {o : IoOp} {id : SlotId} (hok : ioOk w l o) (ho : o.slot = some id) :
    ∃ m, l.slot = some (id, m) := by
  cases o with
  | markIngress _ | setup _ _ | lockPolicy _ =>
    cases ho
    cases hok
    exact ⟨_, rfl⟩
  | clearActive _ | returnToFree _ =>
    cases ho
    obtain ⟨_, rfl⟩ := hok
    exact ⟨_, rfl⟩
  | unlock _ _ run =>
    cases ho
    cases run with
    | suspended =>
      cases hok.2
      exact ⟨_, rfl⟩
    | finished _ =>
      obtain ⟨-, _, rfl⟩ := hok
      exact ⟨_, rfl⟩
  | _ => cases ho

/-- **A slot has one owner.** In every run, while a thread is at an operation on a slot, no other
thread is, and the slot is neither free nor queued for a worker. -/
theorem slot_owned {C : (split w).St → (split w).Act → Prop} (h : (split w).Reach C s) {t : Tid}
    {o : IoOp} {k : o.Resp → IoProg Unit} {id : SlotId} (ht : s.threads t = some (.op o k))
    (ho : o.slot = some id) :
    id ∉ s.shared.store.freeList ∧ .new id ∉ s.shared.queue ∧
      ∀ t' o' k', s.threads t' = some (.op o' k') → o'.slot = some id → t' = t := by
  have hc := control h
  have howner : ∀ t o k, s.threads t = some (.op o k) → o.slot = some id →
      s.hist.ctl id = .thread t := by
    intro t o k ht ho
    obtain ⟨hok, -⟩ := hc.prog t _ ht
    obtain ⟨m, hm⟩ := ioOk_slot hok ho
    exact hc.parts.slots.thread t id m hm
  have hctl := howner t o k ht ho
  refine ⟨fun hmem => ?_, fun hmem => ?_, fun t' o' k' ht' ho' => ?_⟩
  · cases hctl.symm.trans (hc.parts.free.mem id hmem).1
  · cases hctl.symm.trans (hc.parts.queued.mem id hmem)
  · cases hctl.symm.trans (howner t' o' k' ht' ho')
    rfl

/-- The ingress is about to set up the slot of a query. -/
theorem sample_marked : ∃ s t k x, (split sampleSplitWiring).Reach Lts.Any s ∧
    s.threads 0 = some (.op (.setup 1 t) k) ∧ (IoOp.setup 1 t).sem {} s.shared = some x := by
  have h₀ := Lts.Reach.init (C := Lts.Any) (sampleSplit_init 2 (by decide) fun _ => none)
  have h₁ := h₀.step (a := IoAct.start 0 (.query {} (.udp 0 "198.51.100.7:5300"))) trivial rfl
  have h₂ := h₁.step (a := IoAct.op 0 {}) trivial rfl
  exact ⟨_, _, _, _, h₂.step (a := IoAct.op 0 {}) trivial rfl, rfl, rfl⟩

theorem slot_owned_sample : ∃ s t k, (split sampleSplitWiring).Reach Lts.Any s ∧
    s.threads 0 = some (.op (.setup 1 t) k) ∧ 1 ∉ s.shared.store.freeList := by
  obtain ⟨s, t, k, _, hr, ht, -⟩ := sample_marked
  exact ⟨s, t, k, hr, ht, (slot_owned hr ht rfl).1⟩

/-- The thread is answered that the slot is not in the state it expects. -/
def IoOp.Refused : (o : IoOp) → o.Resp → Prop
  | .setup _ _, r | .transition _ .ingress _, r | .clearActive _, r => r = false
  | .lockPolicy _, r => r = none
  | _, _ => False

/-- **No thread is refused its slot**, in every run. -/
theorem never_refused {C : (split w).St → (split w).Act → Prop} (h : (split w).Reach C s)
    {t : Tid} {env : IoEnv} {o : IoOp} {k : o.Resp → IoProg Unit} {r : o.Resp} {shared : IoShared}
    (ht : s.threads t = some (.op o k)) (hs : o.sem env s.shared = some (r, shared)) :
    ¬o.Refused r := by
  obtain ⟨hok, hmay, -⟩ := (control h).op ht hs
  intro hr
  unfold IoOp.Refused at hr
  split at hr
  · cases hr.symm.trans hmay
  · obtain ⟨-, ⟨-, hl⟩ | ⟨he, -⟩⟩ := hok
    · cases hr.symm.trans (hmay hl)
    · cases he
  · cases hr.symm.trans hmay
  · obtain ⟨_, hr', -⟩ := hmay
    cases hr.symm.trans hr'
  · exact hr

theorem never_refused_sample : ∃ s t r shared, (split sampleSplitWiring).Reach Lts.Any s ∧
    (IoOp.setup 1 t).sem {} s.shared = some (r, shared) ∧ ¬(IoOp.setup 1 t).Refused r := by
  obtain ⟨s, t, _, ⟨r, shared⟩, hr, ht, hs⟩ := sample_marked
  exact ⟨s, t, r, shared, hr, hs, never_refused hr ht hs⟩

end Conduit
