import Mathlib.Data.List.Basic
import Conduit.Core.Transaction

/-!
# The slot store

`SharedTxnStore` (`conduit-core/src/txn_store/mod.rs`): the transaction slots, the free list, and
the chunks in which the slots grow. A function here is what runs under one lock: under the lock of
the free list (`growChunk`, `takeFree`, `returnToFree`), or under the lock of one slot.

The wire buffers of a slot are left out: nothing below reads them.
-/

namespace Conduit

/-- `SlotId`: the index of a slot. -/
abbrev SlotId := Nat

inductive SlotState where
  | free | ingress | policy | ioWait | sidecarWait | replyPending | ingressSend | terminal
  deriving DecidableEq, Repr

/-- `TxnSlot`; the default is `new_free`, and what `clear` leaves. -/
structure TxnSlot where
  state : SlotState := .free
  txn : Transaction := {}

inductive AcquireError where
  | exhausted
  deriving DecidableEq, Repr

inductive SlotError where
  | invalidId (id : SlotId)
  | stateMismatch (expected actual : SlotState)
  deriving DecidableEq, Repr

/-- The store. `new` asserts that the capacity and the chunk size are not 0. -/
structure Store where
  capacity : Nat
  chunkSize : Nat
  slots : List TxnSlot := []
  /-- The free list; its last entry, which is taken first, comes first. -/
  freeList : List SlotId := []
  exhaustionTotal : Nat := 0
  capacity_pos : 1 ≤ capacity
  chunkSize_pos : 1 ≤ chunkSize

namespace Store

def allocated (s : Store) : Nat := s.slots.length

/-! ## Under the lock of the free list -/

/-- `grow_chunk`; `none`: all slots are allocated. -/
def growChunk (s : Store) : Option Store :=
  if s.allocated ≥ s.capacity then none
  else
    let growBy := min s.chunkSize (s.capacity - s.allocated)
    some { s with
      slots := s.slots ++ List.replicate growBy {}
      freeList := (List.range' s.allocated growBy).reverse ++ s.freeList }

/-- The first part of `acquire`: take an id off the free list, and get its slot. `none`: an `expect`
fails, as there is no id or no slot. -/
def takeFree (s : Store) : Option (Store × Except AcquireError SlotId) :=
  match if s.freeList.isEmpty then s.growChunk else some s with
  | none => some ({ s with exhaustionTotal := s.exhaustionTotal + 1 }, .error .exhausted)
  | some s =>
    match s.freeList with
    | [] => none
    | id :: rest => if id < s.allocated then some ({ s with freeList := rest }, .ok id) else none

def returnToFree (s : Store) (id : SlotId) : Store := { s with freeList := id :: s.freeList }

/-! ## Under the lock of a slot -/

/-- `with_slot_exclusive`: run `f` on the slot. -/
def withSlotExclusive {α : Type} (s : Store) (id : SlotId)
    (f : TxnSlot → TxnSlot × Except SlotError α) : Store × Except SlotError α :=
  match s.slots[id]? with
  | none => (s, .error (.invalidId id))
  | some slot => ({ s with slots := s.slots.set id (f slot).1 }, (f slot).2)

/-- The second part of `acquire`. -/
def markIngress (s : Store) (id : SlotId) : Store :=
  (s.withSlotExclusive id fun slot =>
    ({ state := .ingress, txn := { slot.txn with id := id } }, .ok ())).1

/-- The first part of `release`: clear a terminal slot. -/
def clearTerminal (s : Store) (id : SlotId) : Store × Except SlotError Unit :=
  s.withSlotExclusive id fun slot =>
    if slot.state ≠ .terminal then (slot, .error (.stateMismatch .terminal slot.state))
    else ({}, .ok ())

/-- The first part of `release_active`: clear a slot that is not free; the answer is
`should_return`. -/
def clearActive (s : Store) (id : SlotId) : Store × Except SlotError Bool :=
  s.withSlotExclusive id fun slot => if slot.state = .free then (slot, .ok false) else ({}, .ok true)

def transition (s : Store) (id : SlotId) (expected next : SlotState) : Store × Except SlotError Unit :=
  s.withSlotExclusive id fun slot =>
    if slot.state ≠ expected then (slot, .error (.stateMismatch expected slot.state))
    else ({ slot with state := next }, .ok ())

/-! ## What the functions do -/

def stateOf (s : Store) (id : SlotId) : Option SlotState := (s.slots[id]?).map (·.state)

section

variable {s s' : Store} {id id' : SlotId}

/-- The store `s'` is `s` with `n` new slots. -/
structure Grown (s s' : Store) (n : Nat) : Prop where
  capacity : s'.capacity = s.capacity
  allocated : s'.allocated = s.allocated + n
  freeList : s'.freeList = (List.range' s.allocated n).reverse ++ s.freeList
  old : ∀ id, id < s.allocated → s'.stateOf id = s.stateOf id
  new : ∀ id, s.allocated ≤ id → id < s.allocated + n → s'.stateOf id = some .free

theorem grown_of_growChunk (h : s.growChunk = some s') :
    ∃ n, 0 < n ∧ s.allocated + n ≤ s.capacity ∧ Grown s s' n := by
  unfold growChunk at h
  split at h
  · cases h
  · cases h
    have := s.chunkSize_pos
    refine ⟨min s.chunkSize (s.capacity - s.allocated), by omega, by omega, rfl, ?_, rfl, ?_, ?_⟩
    · simp [allocated]
    · intro id hid
      simp only [stateOf]
      rw [List.getElem?_append_left hid]
    · intro id hlo hhi
      have hlt : id - s.slots.length < min s.chunkSize (s.capacity - s.allocated) := by
        change s.slots.length ≤ id at hlo
        change id < s.slots.length + _ at hhi
        omega
      simp only [stateOf]
      rw [List.getElem?_append_right hlo, List.getElem?_replicate, if_pos hlt]
      rfl

/-- What taking a free slot can do: nothing is free and nothing can be allocated, or the id comes
off the list, which was grown if it was empty. -/
theorem takeFree_cases {r : Except AcquireError SlotId} (h : s.takeFree = some (s', r)) :
    (r = .error .exhausted ∧ s.freeList = [] ∧ s.capacity ≤ s.allocated ∧
      s' = { s with exhaustionTotal := s.exhaustionTotal + 1 }) ∨
    ∃ id rest, r = .ok id ∧
      ((s.freeList = id :: rest ∧ s' = { s with freeList := rest }) ∨
        s.freeList = [] ∧ ∃ grown, s.growChunk = some grown ∧ grown.freeList = id :: rest ∧
          s' = { grown with freeList := rest }) := by
  unfold takeFree at h
  by_cases hempty : s.freeList = []
  · rw [if_pos (by simp [hempty])] at h
    cases hgrow : s.growChunk with
    | none =>
      rw [hgrow] at h
      cases h
      refine .inl ⟨rfl, hempty, ?_, rfl⟩
      unfold growChunk at hgrow
      split at hgrow
      · assumption
      · cases hgrow
    | some grown =>
      rw [hgrow] at h
      cases hfree : grown.freeList with
      | nil => simp [hfree] at h
      | cons id rest =>
        simp only [hfree, Option.ite_none_right_eq_some, Option.some.injEq, Prod.mk.injEq] at h
        obtain ⟨-, rfl, rfl⟩ := h
        exact .inr ⟨id, rest, rfl, .inr ⟨hempty, grown, rfl, hfree, rfl⟩⟩
  · rw [if_neg (by simpa using hempty)] at h
    cases hfree : s.freeList with
    | nil => exact absurd hfree hempty
    | cons id rest =>
      simp only [hfree, Option.ite_none_right_eq_some, Option.some.injEq, Prod.mk.injEq] at h
      obtain ⟨-, rfl, rfl⟩ := h
      exact .inr ⟨id, rest, rfl, .inl ⟨rfl, rfl⟩⟩

/-- Taking a free slot succeeds or reports exhaustion, if the ids of the free list are those of
slots. -/
theorem isSome_takeFree (h : ∀ id ∈ s.freeList, id < s.allocated) : s.takeFree.isSome := by
  unfold takeFree
  cases hrefill : if s.freeList.isEmpty then s.growChunk else some s with
  | none => rfl
  | some t =>
    have hrefilled : t.freeList ≠ [] ∧ ∀ id ∈ t.freeList, id < t.allocated := by
      split at hrefill
      · rename_i hempty
        obtain ⟨n, hn, -, hgrown⟩ := grown_of_growChunk hrefill
        have hfree : t.freeList = (List.range' s.allocated n).reverse := by
          rw [hgrown.freeList, List.isEmpty_iff.mp hempty, List.append_nil]
        refine ⟨?_, fun id hid => ?_⟩
        · simp only [hfree, ne_eq, List.reverse_eq_nil_iff, List.range'_eq_nil_iff]
          omega
        · rw [hfree, List.mem_reverse, List.mem_range'_1] at hid
          rw [hgrown.allocated]
          exact hid.2
      · rename_i hne
        cases hrefill
        exact ⟨by simpa using hne, h⟩
    cases hfree : t.freeList with
    | nil => exact absurd hfree hrefilled.1
    | cons id rest =>
      have hid : id < t.allocated := hrefilled.2 id (hfree ▸ List.mem_cons_self)
      simp [hfree, hid]

theorem withSlotExclusive_fst {α : Type} {f : TxnSlot → TxnSlot × Except SlotError α} :
    (s.withSlotExclusive id f).1 = { s with slots := s.slots.modify id fun slot => (f slot).1 } := by
  unfold withSlotExclusive
  cases hslot : s.slots[id]? with
  | none =>
    rw [List.modify_eq_self (by simpa using hslot)]
  | some slot =>
    refine congrArg (fun slots => { s with slots := slots }) ?_
    rw [List.modify_eq_set_getElem?, hslot]
    rfl

theorem stateOf_modify {f : TxnSlot → TxnSlot} :
    stateOf { s with slots := s.slots.modify id f } id' =
      if id = id' then (s.slots[id']?).map (fun slot => (f slot).state) else s.stateOf id' := by
  simp only [stateOf, List.getElem?_modify]
  split <;> cases s.slots[id']? <;> rfl

end

end Store

end Conduit
