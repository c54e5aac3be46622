import Conduit.Config.Desired

/-!
# Entries for backends

What one entry of an overlay does to the backends of a pool, in terms of the backends that it is for
(`Backend.hits`), and what `findBackend` and `backendDelta` give.
-/

namespace Conduit.Config

open Keyed

/-- The entry is for backend `x`: by name if it has one, else by address. -/
def Backend.hits (e x : Backend) : Bool :=
  match e.named with
  | some name => x.name == some name
  | none => x.address == e.address

/-- The entry says which backend it is for. -/
def Backend.Identified (e : Backend) : Prop := e.named.isSome ∨ e.address ≠ ""

/-- The backend that an entry adds. -/
def newBackend (pool : String) (e : Backend) : Except ConfigError Backend :=
  match e.named with
  | some name =>
    if e.address = "" then
      .error (.invalid s!"overlay pool '{pool}' references unknown backend name '{name}'")
    else .ok e.unmarked
  | none => .ok e.unmarked

theorem newBackend_of_address {pool : String} {e : Backend} (h : e.address ≠ "") :
    newBackend pool e = .ok e.unmarked := by
  unfold newBackend
  split
  · exact if_neg h
  · rfl

theorem named_eq_some {b : Backend} {n : String} :
    b.named = some n ↔ b.name = some n ∧ n ≠ "" := by
  simp [Backend.named, Option.filter_eq_some_iff]

theorem hits_iff {e x : Backend} :
    e.hits x = true ↔
      (∃ n, e.named = some n ∧ x.name = some n) ∨ (e.named = none ∧ x.address = e.address) := by
  unfold Backend.hits
  cases e.named with
  | some n => simp
  | none => simp

theorem hits_of_named {e : Backend} {n : String} (hn : e.named = some n) :
    e.hits = (·.name == some n) := by
  funext x
  rw [Backend.hits, hn]

theorem hits_of_unnamed {e : Backend} (hn : e.named = none) :
    e.hits = (·.address == e.address) := by
  funext x
  rw [Backend.hits, hn]

theorem not_hits {e x : Backend} (hname : ∀ n, e.named = some n → x.name ≠ some n)
    (haddr : e.named = none → x.address ≠ e.address) : e.hits x = false := by
  rw [Bool.eq_false_iff, ne_eq, hits_iff]
  rintro (⟨n, hn, hx⟩ | ⟨hn, hx⟩)
  · exact hname n hn hx
  · exact haddr hn hx

theorem hits_self (b : Backend) : b.hits b = true := by
  rw [hits_iff]
  cases hn : b.named with
  | some n => exact .inl ⟨n, rfl, (named_eq_some.mp hn).1⟩
  | none => exact .inr ⟨rfl, rfl⟩

theorem unmarked_of_none {b : Backend} (h : b.remove = none) : b.unmarked = b := by
  cases b
  cases h
  rfl

/-! ## One entry -/

section

variable {pool : String} {e t : Backend} {bs l r : List Backend}

theorem mergeBackend_eq_upsert (pool : String) (mode : MergeMode) (bs : List Backend)
    (hrem : e.remove.getD false = false) (hid : e.Identified) :
    mergeBackend pool mode bs e =
      upsert e.hits (fun b => .ok (updateBackend e b)) (newBackend pool e) bs := by
  unfold mergeBackend
  rw [hrem, if_neg Bool.false_ne_true]
  cases hn : e.named with
  | some name =>
    rw [hits_of_named hn, newBackend, hn]
    rfl
  | none =>
    have haddr : e.address ≠ "" := hid.resolve_left (by simp [hn])
    rw [hits_of_unnamed hn, newBackend, hn]
    exact if_neg haddr

/-- An entry that can be merged says which backend it is for. -/
theorem identified_of_mergeBackend {mode : MergeMode} {bs' : List Backend}
    (h : mergeBackend pool mode bs e = .ok bs') : e.Identified := by
  by_contra hid
  obtain ⟨hnone, haddr⟩ := not_or.mp hid
  have hn : e.named = none := by simpa using hnone
  have haddr : e.address = "" := not_not.mp haddr
  simp only [mergeBackend, removeBackend, accumulateBackendRemove, hn, haddr, if_true] at h
  split at h
  · cases mode <;> cases h
  · cases h

theorem mergeBackend_update (mode : MergeMode) (hrem : e.remove = none) (hid : e.Identified)
    (hl : ∀ x ∈ l, e.hits x = false) (ht : e.hits t = true) :
    mergeBackend pool mode (l ++ t :: r) e = .ok (l ++ updateBackend e t :: r) := by
  have hfind : (l ++ t :: r).find? e.hits = some t := by
    rw [List.find?_append, List.find?_eq_none.mpr (by simpa using hl), List.find?_cons, ht]
    rfl
  rw [mergeBackend_eq_upsert pool mode _ (by rw [hrem]; rfl) hid, upsert_of_find_some hfind]
  exact congrArg _ (replaceFirst_append hl ht)

theorem mergeBackend_append (mode : MergeMode) (hrem : e.remove = none) (haddr : e.address ≠ "")
    (h : ∀ x ∈ bs, e.hits x = false) :
    mergeBackend pool mode bs e = .ok (bs ++ [e]) := by
  rw [mergeBackend_eq_upsert pool mode _ (by rw [hrem]; rfl) (.inr haddr),
    upsert_of_find_none (List.find?_eq_none.mpr (by simpa using h)), newBackend_of_address haddr,
    unmarked_of_none hrem]
  rfl

/-- The error of a removal that finds nothing. -/
def missingBackend (pool : String) (e : Backend) : ConfigError :=
  match e.named with
  | some name =>
    .invalid s!"overlay pool '{pool}' requests remove of unknown backend name '{name}'"
  | none =>
    .invalid s!"overlay pool '{pool}' requests remove of unknown backend address '{e.address}'"

theorem removeBackend_eq_removeAll (pool : String) (bs : List Backend) (hid : e.Identified) :
    removeBackend pool bs e = removeAll e.hits (missingBackend pool e) bs := by
  unfold removeBackend
  cases hn : e.named with
  | some name =>
    rw [hits_of_named hn, missingBackend, hn]
  | none =>
    have haddr : e.address ≠ "" := hid.resolve_left (by simp [hn])
    rw [hits_of_unnamed hn, missingBackend, hn]
    exact if_neg haddr

theorem mergeBackend_remove (hrem : e.remove = some true) (hid : e.Identified)
    (h : ∃ x ∈ bs, e.hits x = true) :
    mergeBackend pool .applyToBaseline bs e = .ok (bs.filter fun x => !e.hits x) := by
  have hmerge : mergeBackend pool .applyToBaseline bs e = removeBackend pool bs e := by
    rw [mergeBackend, hrem]
    rfl
  rw [hmerge, removeBackend_eq_removeAll pool bs hid]
  exact if_pos (List.any_eq_true.mpr h)

end

/-! ## Finding backends -/

section

variable {bs : List Backend} {a b : Backend}

theorem findBackend_some (h : findBackend bs a = some b) :
    b ∈ bs ∧ ((∃ n, a.named = some n ∧ b.name = some n) ∨
      b.address = a.address ∧ ∀ n, a.named = some n → ∀ x ∈ bs, x.name ≠ some n) := by
  unfold findBackend at h
  cases hn : a.named.bind fun name => bs.find? (·.name == some name) with
  | some x =>
    rw [hn, Option.some_or] at h
    cases h
    obtain ⟨n, han, hfind⟩ := Option.bind_eq_some_iff.mp hn
    exact ⟨List.mem_of_find?_eq_some hfind, .inl ⟨n, han, by simpa using List.find?_some hfind⟩⟩
  | none =>
    rw [hn, Option.none_or] at h
    split at h
    · cases h
    · refine ⟨List.mem_of_find?_eq_some h, .inr ⟨by simpa using List.find?_some h, ?_⟩⟩
      intro n han x hx hxn
      rw [han, Option.bind_some] at hn
      exact List.find?_eq_none.mp hn x hx (by simpa using hxn)

theorem findBackend_none (ha : a.address ≠ "") :
    findBackend bs a = none ↔
      (∀ n, a.named = some n → ∀ x ∈ bs, x.name ≠ some n) ∧ ∀ x ∈ bs, x.address ≠ a.address := by
  unfold findBackend
  rw [Option.or_eq_none_iff, if_neg ha, List.find?_eq_none]
  refine and_congr ?_ (by simp)
  cases a.named with
  | none => simp
  | some n => simp [List.find?_eq_none]

theorem not_mem_addresses {x : Backend} :
    x.address ∉ addresses bs ↔ ∀ y ∈ bs, y.address ≠ x.address := by
  simp [addresses]

theorem names_split {l r : List Backend} (hok : BackendsOk (l ++ b :: r)) {n : String}
    (hn : b.named = some n) : (∀ x ∈ l, x.name ≠ some n) ∧ ∀ x ∈ r, x.name ≠ some n := by
  have hne := (named_eq_some.mp hn).2
  have hnames := hok.names
  rw [List.filterMap_append, List.filterMap_cons, hn] at hnames
  obtain ⟨-, hbr, hdisj⟩ := List.nodup_append.mp hnames
  constructor
  · intro x hx hxn
    refine hdisj n ?_ n List.mem_cons_self rfl
    exact List.mem_filterMap.mpr ⟨x, hx, named_eq_some.mpr ⟨hxn, hne⟩⟩
  · intro x hx hxn
    refine (List.nodup_cons.mp hbr).1 ?_
    exact List.mem_filterMap.mpr ⟨x, hx, named_eq_some.mpr ⟨hxn, hne⟩⟩

theorem addresses_split {l r : List Backend} (h : (addresses (l ++ b :: r)).Nodup) :
    (∀ x ∈ l, x.address ≠ b.address) ∧ ∀ x ∈ r, b.address ≠ x.address := by
  obtain ⟨-, hr, hl⟩ := List.pairwise_append.mp (List.pairwise_map.mp h)
  exact ⟨fun x hx => hl x hx b List.mem_cons_self, (List.pairwise_cons.mp hr).1⟩

theorem findBackend_named (hok : BackendsOk bs) (hb : b ∈ bs) {n : String} (ha : a.named = some n)
    (hn : b.name = some n) : findBackend bs a = some b := by
  have hbn : b.named = some n := named_eq_some.mpr ⟨hn, (named_eq_some.mp ha).2⟩
  obtain ⟨l, r, rfl⟩ := List.append_of_mem hb
  have hl := (names_split hok hbn).1
  have hfind : (l ++ b :: r).find? (·.name == some n) = some b := by
    rw [List.find?_append, List.find?_eq_none.mpr (by simpa using hl)]
    simp [hn]
  rw [findBackend, ha, Option.bind_some, hfind, Option.some_or]

end

/-! ## Deltas -/

section

variable {a b e : Backend}

theorem backendDelta_none (hb : b.address ≠ "") :
    backendDelta a b = none ↔ a = { b with remove := a.remove } := by
  obtain ⟨address, weight, name, probeQname, probeQtype, probeSource, transport, remove⟩ := a
  simp only [backendDelta, addressChanged, ite_eq_right_iff, reduceCtorEq, imp_false,
    Bool.or_eq_true, Bool.and_eq_true, bne_iff_ne, ne_eq, hb, not_false_eq_true, and_true, not_or,
    Decidable.not_not, Backend.mk.injEq]
  constructor
  · rintro ⟨⟨⟨⟨⟨⟨h₁, h₂⟩, h₃⟩, h₄⟩, h₅⟩, h₆⟩, h₇⟩
    exact ⟨h₁.symm, h₃.symm, h₂.symm, h₄.symm, h₅.symm, h₆.symm, h₇.symm⟩
  · rintro ⟨h₁, h₃, h₂, h₄, h₅, h₆, h₇⟩
    exact ⟨⟨⟨⟨⟨⟨h₁.symm, h₂.symm⟩, h₃.symm⟩, h₄.symm⟩, h₅.symm⟩, h₆.symm⟩, h₇.symm⟩

structure Delta (a b e : Backend) : Prop where
  remove : e.remove = none
  named : e.named = b.named
  address : b.named = none → e.address = b.address
  update_address : stringOr e.address a.address = b.address
  self_address : stringOr e.address b.address = b.address
  name : e.name = b.name ∨ e.name = none ∧ b.name = a.name
  weight : e.weight = changed a.weight b.weight

theorem delta_of_backendDelta (hb : b.address ≠ "") (h : backendDelta a b = some e) :
    Delta a b e := by
  simp only [backendDelta] at h
  split at h
  · cases h
    cases hn : b.named with
    | some n =>
      obtain ⟨hname, hne⟩ := named_eq_some.mp hn
      have hid : deltaIdentity a b = (some n, "") := by simp [deltaIdentity, hn]
      have hsame : (if b.name = a.name then (some n) else b.name) = some n := by
        split
        · rfl
        · exact hname
      refine ⟨rfl, ?_, fun h => absurd (hn.symm.trans h) (by simp), ?_, ?_, ?_, rfl⟩
      · rw [hn, hid, Backend.named, hsame]
        exact Option.filter_eq_some_iff.mpr ⟨rfl, by simpa using hne⟩
      · rw [hid]
        by_cases hc : b.address = a.address
        · simp [addressChanged, stringOr, hc]
        · simp [addressChanged, stringOr, hc, hb]
      · rw [hid]
        by_cases hc : b.address = a.address
        · simp [addressChanged, stringOr, hc]
        · simp [addressChanged, stringOr, hc, hb]
      · rw [hid, hsame]
        exact .inl hname.symm
    | none =>
      have hid : deltaIdentity a b = (none, b.address) := by simp [deltaIdentity, hn, hb]
      have haddr : (if addressChanged a b then b.address else (deltaIdentity a b).2) = b.address := by
        rw [hid]
        exact ite_self _
      rw [haddr, hid]
      refine ⟨rfl, ?_, fun _ => rfl, by simp [stringOr, hb], by simp [stringOr, hb], ?_, rfl⟩
      · rw [hn, Backend.named]
        split
        · rfl
        · exact hn
      · split
        · exact .inr ⟨rfl, ‹_›⟩
        · exact .inl rfl
  · cases h

theorem Delta.hits (h : Delta a b e) : e.hits = b.hits := by
  funext x
  unfold Backend.hits
  rw [h.named]
  cases hn : b.named with
  | some n => rfl
  | none => rw [h.address hn]

theorem Delta.identified (h : Delta a b e) (hb : b.address ≠ "") : e.Identified := by
  cases hn : b.named with
  | some n => exact .inl (by rw [h.named, hn]; rfl)
  | none => exact .inr (by rw [h.address hn]; exact hb)

theorem Delta.self (h : Delta a b e) (hrem : b.remove = none) : updateBackend e b = b := by
  have hname : e.name.or b.name = b.name := by
    rcases h.name with hn | ⟨hn, -⟩
    · rw [hn, Option.or_self]
    · rw [hn, Option.none_or]
  have hweight : e.weight.or b.weight = b.weight := by
    rw [h.weight, changed]
    split
    · rw [Option.none_or]
    · rw [Option.or_self]
  have haddr := h.self_address
  cases b
  cases hrem
  simp only [updateBackend, applyBackendOverlay, Backend.mk.injEq, and_true]
  exact ⟨haddr, hweight, hname⟩

end

end Conduit.Config
