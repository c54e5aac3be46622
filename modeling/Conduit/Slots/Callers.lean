import Mathlib.Data.List.Nodup
import Mathlib.Data.List.Perm.Basic
import Conduit.Lib.Lts
import Conduit.Slots.Store

/-!
# The slot store and its callers

Callers that acquire slots, change them, and release them, interleaved at the locks of the store: an
`acquire` or a release takes the lock of the free list and the lock of a slot one after the other,
and other callers may run in between.

A caller holds a slot from the time that `acquire` takes its id off the free list to the time that
its release puts the id back (`Callers.held`, a history variable).

- `SlotsOk`, `slotsOk_step`: the invariant, and what one step does to it.
- `slotPool_safe`: no slot has two holders, and none is lost.
- `acquire_expects`: neither `expect` of `acquire` fails.
-/

namespace Conduit

open Function (update update_of_ne update_self)

inductive Call where
  | idle
  /-- In `acquire`, between its two locks. -/
  | marking (id : SlotId)
  /-- In `release` or `release_active`, after the slot was cleared. -/
  | returning (id : SlotId)
  deriving DecidableEq, Repr

structure Callers (C : Type) where
  store : Store
  call : C → Call := fun _ => .idle
  /-- History: who holds which slot. -/
  held : List (C × SlotId) := []

inductive CallerAct (C : Type) where
  | acquire (c : C)
  | mark (c : C)
  | release (c : C) (id : SlotId)
  | releaseActive (c : C) (id : SlotId)
  | giveBack (c : C)
  /-- `with_slot_exclusive`, `transition`: change a slot under its lock. -/
  | change (c : C) (id : SlotId) (f : TxnSlot → TxnSlot)

namespace Callers

variable {C : Type} [DecidableEq C]

def setCall (s : Callers C) (c : C) (call : Call) : Callers C :=
  { s with call := update s.call c call }

def step (s : Callers C) : CallerAct C → Option (Callers C)
  | .acquire c =>
    match s.call c, s.store.takeFree with
    | .idle, some (store, .ok id) =>
      some { s.setCall c (.marking id) with store := store, held := (c, id) :: s.held }
    | .idle, some (store, .error _) => some { s with store := store }
    | _, _ => none
  | .mark c =>
    match s.call c with
    | .marking id => some { s.setCall c .idle with store := s.store.markIngress id }
    | _ => none
  | .release c id =>
    match s.call c, s.store.clearTerminal id with
    | .idle, (store, .ok ()) => some { s.setCall c (.returning id) with store := store }
    | .idle, (store, .error _) => some { s with store := store }
    | _, _ => none
  | .releaseActive c id =>
    match s.call c, s.store.clearActive id with
    | .idle, (store, .ok true) => some { s.setCall c (.returning id) with store := store }
    | .idle, (store, _) => some { s with store := store }
    | _, _ => none
  | .giveBack c =>
    match s.call c with
    | .returning id =>
      some { s.setCall c .idle with
        store := s.store.returnToFree id, held := s.held.erase (c, id) }
    | _ => none
  | .change c id f =>
    match s.call c with
    | .idle =>
      some { s with
        store := (s.store.withSlotExclusive id fun slot => (f slot, .ok ())).1 }
    | _ => none

/-- A caller releases only a slot that it holds, and a change does not make a slot free, or a free
slot something else. -/
def Orderly (s : Callers C) : CallerAct C → Prop
  | .release c id | .releaseActive c id => (c, id) ∈ s.held
  | .change _ id f => ∀ slot ∈ s.store.slots[id]?, (f slot).state = .free ↔ slot.state = .free
  | _ => True

instance (s : Callers C) : (a : CallerAct C) → Decidable (s.Orderly a)
  | .release _ _ | .releaseActive _ _ | .change _ _ _ => by
    unfold Orderly
    infer_instance
  | .acquire _ | .mark _ | .giveBack _ => .isTrue trivial

end Callers

/-- The store with any number of callers. -/
abbrev callers (C : Type) [DecidableEq C] : Lts where
  St := Callers C
  Act := CallerAct C
  init s := s.store.slots = [] ∧ s.store.freeList = [] ∧ s.held = [] ∧ ∀ c, s.call c = .idle
  step := Callers.step

/-! ## The invariant -/

/-- The slots that are held and the free ones are all slots, each once. -/
structure SlotsOk {C : Type} (s : Callers C) : Prop where
  parts : (s.held.map Prod.snd ++ s.store.freeList).Perm (List.range s.store.allocated)
  bounded : s.store.allocated ≤ s.store.capacity
  free : ∀ id ∈ s.store.freeList, s.store.stateOf id = some .free
  marking : ∀ c id, s.call c = .marking id → (c, id) ∈ s.held
  returning : ∀ c id, s.call c = .returning id → (c, id) ∈ s.held ∧ s.store.stateOf id = some .free

section

variable {C : Type} {s : Callers C} {c c' : C} {id : SlotId}

theorem SlotsOk.nodup (h : SlotsOk s) : (s.held.map Prod.snd ++ s.store.freeList).Nodup :=
  h.parts.nodup_iff.mpr List.nodup_range

theorem SlotsOk.holder (h : SlotsOk s) (hc : (c, id) ∈ s.held) (hc' : (c', id) ∈ s.held) : c = c' := by
  have hnodup := (List.nodup_append.mp h.nodup).1
  have heq := List.inj_on_of_nodup_map hnodup hc hc' rfl
  exact congrArg Prod.fst heq

theorem SlotsOk.not_free (h : SlotsOk s) (hc : (c, id) ∈ s.held) : id ∉ s.store.freeList := by
  intro hfree
  exact (List.nodup_append.mp h.nodup).2.2 id (List.mem_map_of_mem hc) id hfree rfl

theorem SlotsOk.allocated (h : SlotsOk s) (hc : (c, id) ∈ s.held) : id < s.store.allocated := by
  have hmem : id ∈ s.held.map Prod.snd ++ s.store.freeList :=
    List.mem_append_left _ (List.mem_map_of_mem hc)
  exact List.mem_range.mp (h.parts.subset hmem)

/-- A change of one slot that leaves the free slots free. -/
theorem SlotsOk.change (h : SlotsOk s) {f : TxnSlot → TxnSlot}
    (hf : ∀ slot, s.store.slots[id]? = some slot → slot.state = .free →
      (id ∈ s.store.freeList ∨ ∃ c, s.call c = .returning id) → (f slot).state = .free) :
    SlotsOk { s with store := { s.store with slots := s.store.slots.modify id f } } := by
  have hkeep : ∀ id', (id' ∈ s.store.freeList ∨ ∃ c, s.call c = .returning id') →
      s.store.stateOf id' = some .free →
      Store.stateOf { s.store with slots := s.store.slots.modify id f } id' = some .free := by
    intro id' huse hstate
    rw [Store.stateOf_modify]
    split
    · rename_i heq
      subst heq
      obtain ⟨slot, hslot, hst⟩ := Option.map_eq_some_iff.mp hstate
      rw [hslot]
      exact congrArg some (hf slot hslot hst huse)
    · exact hstate
  refine ⟨?_, ?_, ?_, h.marking, ?_⟩
  · simpa [Store.allocated] using h.parts
  · simpa [Store.allocated] using h.bounded
  · exact fun id' hid' => hkeep id' (.inl hid') (h.free id' hid')
  · intro c id' hc
    obtain ⟨hheld, hstate⟩ := h.returning c id' hc
    exact ⟨hheld, hkeep id' (.inr ⟨c, hc⟩) hstate⟩

theorem SlotsOk.grow (h : SlotsOk s) {grown : Store} (hg : s.store.growChunk = some grown) :
    SlotsOk { s with store := grown } := by
  obtain ⟨n, -, hcap, hgrown⟩ := Store.grown_of_growChunk hg
  have hold : ∀ id', s.store.stateOf id' = some .free → grown.stateOf id' = some .free := by
    intro id' hstate
    obtain ⟨slot, hslot, -⟩ := Option.map_eq_some_iff.mp hstate
    rw [hgrown.old id' (List.getElem?_eq_some_iff.mp hslot).1]
    exact hstate
  refine ⟨?_, ?_, ?_, h.marking, ?_⟩
  · change (s.held.map Prod.snd ++ grown.freeList).Perm (List.range grown.allocated)
    rw [hgrown.allocated, hgrown.freeList, List.range_add, ← List.range'_eq_map_range]
    -- the new ids come between the held ones and the free ones
    have hnew : (s.held.map Prod.snd ++ ((List.range' s.store.allocated n).reverse ++
        s.store.freeList)).Perm
        ((s.held.map Prod.snd ++ s.store.freeList) ++ List.range' s.store.allocated n) := by
      rw [List.append_assoc]
      exact ((List.reverse_perm _).append_right _ |>.trans List.perm_append_comm).append_left _
    exact hnew.trans (h.parts.append_right _)
  · change grown.allocated ≤ grown.capacity
    rw [hgrown.allocated, hgrown.capacity]
    exact hcap
  · intro id' hid'
    change id' ∈ grown.freeList at hid'
    rw [hgrown.freeList] at hid'
    rcases List.mem_append.mp hid' with hid' | hid'
    · rw [List.mem_reverse, List.mem_range'_1] at hid'
      exact hgrown.new id' hid'.1 hid'.2
    · exact hold id' (h.free id' hid')
  · intro c id' hc
    obtain ⟨hheld, hstate⟩ := h.returning c id' hc
    exact ⟨hheld, hold id' hstate⟩

structure PoolSafe (s : Callers C) : Prop where
  /-- No slot is held by two callers. -/
  holder : ∀ c c' id, (c, id) ∈ s.held → (c', id) ∈ s.held → c = c'
  /-- No slot is held twice. -/
  held : (s.held.map Prod.snd).Nodup
  freeList : s.store.freeList.Nodup
  free : ∀ id ∈ s.store.freeList, s.store.stateOf id = some .free
  bounded : s.store.allocated ≤ s.store.capacity
  counted : s.held.length + s.store.freeList.length = s.store.allocated
  /-- `acquire` fails only when all slots are held. -/
  exhausted : ∀ store e, s.store.takeFree = some (store, .error e) →
    s.held.length = s.store.capacity

theorem poolSafe_of_slotsOk (h : SlotsOk s) : PoolSafe s := by
  have hcounted : s.held.length + s.store.freeList.length = s.store.allocated := by
    simpa using h.parts.length_eq
  obtain ⟨hheld, hfree, -⟩ := List.nodup_append.mp h.nodup
  refine ⟨fun c c' id hc hc' => h.holder hc hc', hheld, hfree, h.free, h.bounded, hcounted, ?_⟩
  intro store e htake
  rcases Store.takeFree_cases htake with ⟨-, hnil, hfull, -⟩ | ⟨id', rest, hr, -⟩
  · have := h.bounded
    rw [hnil, List.length_nil] at hcounted
    omega
  · cases hr

variable [DecidableEq C]

theorem SlotsOk.take (h : SlotsOk s) (hidle : s.call c = .idle) {rest : List SlotId}
    (hfree : s.store.freeList = id :: rest) :
    SlotsOk { s.setCall c (.marking id) with
      store := { s.store with freeList := rest }, held := (c, id) :: s.held } := by
  refine ⟨?_, h.bounded, ?_, ?_, ?_⟩
  · have hparts := h.parts
    rw [hfree] at hparts
    exact List.perm_middle.symm.trans hparts
  · exact fun id' hid' => h.free id' (hfree ▸ List.mem_cons_of_mem _ hid')
  · intro c' id' hc'
    by_cases hcc : c' = c
    · subst hcc
      simp only [Callers.setCall, update_self, Call.marking.injEq] at hc'
      rw [hc']
      exact List.mem_cons_self
    · simp only [Callers.setCall, update_of_ne hcc] at hc'
      exact List.mem_cons_of_mem _ (h.marking c' id' hc')
  · intro c' id' hc'
    by_cases hcc : c' = c
    · subst hcc
      simp [Callers.setCall] at hc'
    · simp only [Callers.setCall, update_of_ne hcc] at hc'
      obtain ⟨hheld, hstate⟩ := h.returning c' id' hc'
      exact ⟨List.mem_cons_of_mem _ hheld, hstate⟩

/-- A caller that ends its call, or clears the slot it holds. -/
theorem SlotsOk.setCall (h : SlotsOk s) {call : Call}
    (hcall : call = .idle ∨ ∃ id, call = .returning id ∧ (c, id) ∈ s.held ∧
      s.store.stateOf id = some .free) : SlotsOk (s.setCall c call) := by
  refine ⟨h.parts, h.bounded, h.free, fun c' id' hc' => ?_, fun c' id' hc' => ?_⟩
  · by_cases hcc : c' = c
    · subst hcc
      simp only [Callers.setCall, update_self] at hc'
      rcases hcall with rfl | ⟨id, rfl, -⟩ <;> cases hc'
    · simp only [Callers.setCall, update_of_ne hcc] at hc'
      exact h.marking c' id' hc'
  · by_cases hcc : c' = c
    · subst hcc
      simp only [Callers.setCall, update_self] at hc'
      rcases hcall with rfl | ⟨id, rfl, hheld, hstate⟩
      · cases hc'
      · cases hc'
        exact ⟨hheld, hstate⟩
    · simp only [Callers.setCall, update_of_ne hcc] at hc'
      exact h.returning c' id' hc'

theorem SlotsOk.giveBack (h : SlotsOk s) (hc : s.call c = .returning id) :
    SlotsOk { s.setCall c .idle with
      store := s.store.returnToFree id, held := s.held.erase (c, id) } := by
  obtain ⟨hheld, hstate⟩ := h.returning c id hc
  have hother : ∀ c' id', c' ≠ c → (c', id') ∈ s.held → (c', id') ∈ s.held.erase (c, id) := by
    intro c' id' hcc hmem
    exact (List.mem_erase_of_ne (by simp [hcc])).mpr hmem
  refine ⟨?_, h.bounded, ?_, fun c' id' hc' => ?_, fun c' id' hc' => ?_⟩
  · refine List.Perm.trans ?_ h.parts
    have hsplit : (s.held.map Prod.snd).Perm (id :: (s.held.erase (c, id)).map Prod.snd) :=
      (List.perm_cons_erase hheld).map Prod.snd
    exact List.perm_middle.trans (hsplit.symm.append_right _)
  · intro id' hid'
    rcases List.mem_cons.mp hid' with rfl | hid'
    · exact hstate
    · exact h.free id' hid'
  · by_cases hcc : c' = c
    · subst hcc
      simp [Callers.setCall] at hc'
    · simp only [Callers.setCall, update_of_ne hcc] at hc'
      exact hother c' id' hcc (h.marking c' id' hc')
  · by_cases hcc : c' = c
    · subst hcc
      simp [Callers.setCall] at hc'
    · simp only [Callers.setCall, update_of_ne hcc] at hc'
      obtain ⟨hheld', hstate'⟩ := h.returning c' id' hc'
      exact ⟨hother c' id' hcc hheld', hstate'⟩

/-! ## Steps and runs -/

theorem stateOf_cleared {store : Store} {f : TxnSlot → TxnSlot} (hid : id < store.allocated)
    (hf : ∀ slot, store.slots[id]? = some slot → (f slot).state = .free) :
    Store.stateOf { store with slots := store.slots.modify id f } id = some .free := by
  rw [Store.stateOf_modify, if_pos rfl]
  have hslot : store.slots[id]? = some (store.slots.get ⟨id, hid⟩) := List.getElem?_eq_getElem hid
  rw [hslot]
  exact congrArg some (hf _ hslot)

theorem SlotsOk.clear (h : SlotsOk s) (hc : (c, id) ∈ s.held) {f : TxnSlot → TxnSlot}
    (hf : ∀ slot, s.store.slots[id]? = some slot → (f slot).state = .free) :
    SlotsOk { s.setCall c (.returning id) with
      store := { s.store with slots := s.store.slots.modify id f } } := by
  have hcleared : SlotsOk { s with store := { s.store with slots := s.store.slots.modify id f } } :=
    h.change fun slot hslot _ _ => hf slot hslot
  exact hcleared.setCall (.inr ⟨id, rfl, hc, stateOf_cleared (h.allocated hc) hf⟩)

/-- **What an orderly step keeps.** -/
theorem slotsOk_step (h : SlotsOk s) {a : CallerAct C} (ho : s.Orderly a) {s' : Callers C}
    (hs : s.step a = some s') : SlotsOk s' := by
  cases a with
  | acquire c =>
    simp only [Callers.step] at hs
    split at hs
    · rename_i store id hidle htake
      cases hs
      rcases Store.takeFree_cases htake with
        ⟨hr, -⟩ | ⟨id', rest, hr, ⟨hfree, rfl⟩ | ⟨-, grown, hgrow, hfree, rfl⟩⟩
      · cases hr
      · cases hr
        exact h.take hidle hfree
      · cases hr
        exact (h.grow hgrow).take hidle hfree
    · rename_i store e hidle htake
      cases hs
      rcases Store.takeFree_cases htake with ⟨-, -, -, rfl⟩ | ⟨id', rest, hr, -⟩
      · exact ⟨h.parts, h.bounded, h.free, h.marking, h.returning⟩
      · cases hr
    · cases hs
  | mark c =>
    simp only [Callers.step] at hs
    split at hs
    · rename_i id hc
      cases hs
      have hheld := h.marking c id hc
      refine SlotsOk.setCall (s := { s with store := s.store.markIngress id }) ?_ (.inl rfl)
      rw [Store.markIngress, Store.withSlotExclusive_fst]
      -- the slot is neither free nor being returned: the caller marks it
      refine h.change fun slot _ _ huse => ?_
      rcases huse with hfree | ⟨c', hc'⟩
      · exact absurd hfree (h.not_free hheld)
      · obtain rfl := h.holder hheld (h.returning c' id hc').1
        rw [hc] at hc'
        cases hc'
    · cases hs
  | release c id =>
    have hheld : (c, id) ∈ s.held := ho
    simp only [Callers.step] at hs
    split at hs
    · rename_i store hidle hclear
      cases hs
      have hterm : ∀ slot, s.store.slots[id]? = some slot → slot.state = .terminal := by
        intro slot hslot
        simp only [Store.clearTerminal, Store.withSlotExclusive, hslot, Prod.mk.injEq] at hclear
        by_contra hne
        simp [hne] at hclear
      have hstore : store = (s.store.clearTerminal id).1 := (congrArg Prod.fst hclear).symm
      rw [hstore, Store.clearTerminal, Store.withSlotExclusive_fst]
      refine h.clear hheld fun slot hslot => ?_
      simp [hterm slot hslot]
    · rename_i store e hidle hclear
      cases hs
      have hstore : store = (s.store.clearTerminal id).1 := (congrArg Prod.fst hclear).symm
      rw [hstore, Store.clearTerminal, Store.withSlotExclusive_fst]
      refine h.change fun slot _ hfree _ => ?_
      simp [hfree]
    · cases hs
  | releaseActive c id =>
    have hheld : (c, id) ∈ s.held := ho
    simp only [Callers.step] at hs
    have hcleared : ∀ slot : TxnSlot,
        (if slot.state = .free then (slot, (.ok false : Except SlotError Bool))
          else ({}, .ok true)).1.state = .free := by
      intro slot
      by_cases hfree : slot.state = .free
      · simp [hfree]
      · simp [hfree]
    split at hs
    · rename_i store hidle hclear
      cases hs
      have hstore : store = (s.store.clearActive id).1 := (congrArg Prod.fst hclear).symm
      rw [hstore, Store.clearActive, Store.withSlotExclusive_fst]
      exact h.clear hheld fun slot _ => hcleared slot
    · rename_i store r hidle _ hclear
      cases hs
      have hstore : store = (s.store.clearActive id).1 := (congrArg Prod.fst hclear).symm
      rw [hstore, Store.clearActive, Store.withSlotExclusive_fst]
      exact h.change fun slot _ _ _ => hcleared slot
    · cases hs
  | giveBack c =>
    simp only [Callers.step] at hs
    split at hs
    · rename_i id hc
      cases hs
      exact h.giveBack hc
    · cases hs
  | change c id f =>
    simp only [Callers.step] at hs
    split at hs
    · cases hs
      rw [Store.withSlotExclusive_fst]
      exact h.change fun slot hslot hfree _ => (ho slot hslot).mpr hfree
    · cases hs

end

theorem slotsOk_reach {C : Type} [DecidableEq C] {s : Callers C}
    (h : (callers C).Reach Callers.Orderly s) : SlotsOk s := by
  refine Lts.Reach.inv (L := callers C) (P := SlotsOk) ?_ ?_ h
  · intro (s : Callers C) ⟨hslots, hfree, hheld, hcall⟩
    refine ⟨?_, ?_, ?_, fun c id hc => ?_, fun c id hc => ?_⟩
    · simp [Store.allocated, hslots, hfree, hheld]
    · simp [Store.allocated, hslots]
    · simp [hfree]
    · rw [hcall c] at hc
      cases hc
    · rw [hcall c] at hc
      cases hc
  · intro s a s' _ ih ho hs
    exact slotsOk_step ih ho hs

/-- **The pool is safe in every state of every orderly run, for any callers, capacity and chunk
size.** -/
theorem slotPool_safe {C : Type} [DecidableEq C] {s : Callers C}
    (h : (callers C).Reach Callers.Orderly s) : PoolSafe s :=
  poolSafe_of_slotsOk (slotsOk_reach h)

/-- The store of one slot. -/
def oneSlotStore : Store where
  capacity := 1
  chunkSize := 4
  capacity_pos := Nat.one_pos
  chunkSize_pos := Nat.succ_pos 3

/-- Two callers of a store with one slot: the first one holds it, the second one fails. -/
theorem slotPool_safe_full :
    ∃ s : Callers Bool, (callers Bool).Reach Callers.Orderly s ∧ s.held = [(true, 0)] ∧
      s.store.exhaustionTotal = 1 ∧ PoolSafe s := by
  obtain ⟨s, hs, hheld, htotal⟩ := Lts.exists_exec (L := callers Bool) Callers.Orderly
    (s := { store := oneSlotStore }) [.acquire true, .mark true, .acquire false]
    (fun s => s.held = [(true, 0)] ∧ s.store.exhaustionTotal = 1) ⟨rfl, rfl, rfl, fun _ => rfl⟩ rfl
  exact ⟨s, hs, hheld, htotal, slotPool_safe hs⟩

/-- **In every state of every orderly run, `acquire` reports exhaustion, or takes an id that nobody
holds and whose slot is there, and free.** -/
theorem acquire_expects {C : Type} [DecidableEq C] {s : Callers C}
    (h : (callers C).Reach Callers.Orderly s) :
    ∃ store r, s.store.takeFree = some (store, r) ∧
      ∀ id, r = .ok id → store.stateOf id = some .free ∧ ∀ c, (c, id) ∉ s.held := by
  have hok := slotsOk_reach h
  have hids : ∀ id ∈ s.store.freeList, id < s.store.allocated := fun id hid =>
    List.mem_range.mp (hok.parts.subset (List.mem_append_right _ hid))
  obtain ⟨⟨store, r⟩, htake⟩ := Option.isSome_iff_exists.mp (Store.isSome_takeFree hids)
  refine ⟨store, r, htake, ?_⟩
  rintro id rfl
  rcases Store.takeFree_cases htake with
    ⟨hr, -⟩ | ⟨id', rest, hr, ⟨hfree, rfl⟩ | ⟨-, grown, hgrow, hfree, rfl⟩⟩
  · cases hr
  · cases hr
    have hmem : id ∈ s.store.freeList := hfree ▸ List.mem_cons_self
    exact ⟨hok.free id hmem, fun c hc => hok.not_free hc hmem⟩
  · cases hr
    -- the slots have been grown first
    have hmem : id ∈ grown.freeList := hfree ▸ List.mem_cons_self
    exact ⟨(hok.grow hgrow).free id hmem, fun c hc => (hok.grow hgrow).not_free (c := c) hc hmem⟩

/-- The first caller of the store with one slot gets it. -/
theorem acquire_expects_first :
    oneSlotStore.takeFree.isSome ∧
      ∃ store r, oneSlotStore.takeFree = some (store, r) ∧
        ∀ id, r = .ok id → store.stateOf id = some .free ∧ ∀ c : Bool, (c, id) ∉ [] :=
  ⟨rfl, acquire_expects (s := { store := oneSlotStore }) (.init ⟨rfl, rfl, rfl, fun _ => rfl⟩)⟩

end Conduit
