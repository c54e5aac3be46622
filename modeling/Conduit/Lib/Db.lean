import Mathlib.Data.List.Nodup

/-!
# Databases of rows

A database has rows of a key and a value, no key twice, in the order of a cursor. A put replaces the
row of its key, or adds one at the place that the comparison of keys gives it.

- `Db`: the rows.
- `Db.put`, `Db.delete`, `Db.get`, `Db.has`.
- `Db.size_put`, `Db.size_delete`: how many rows there are after it.
- `Db.has_put`, `Db.has_delete`: which keys there are after it.
- `Db.mem_put`: which rows there are after a put.
-/

/-- Rows in the order of a cursor, no key twice. -/
structure Db (K V : Type) where
  rows : List (K × V)
  nodup : (rows.map (·.1)).Nodup

namespace Db

variable {K V : Type} [DecidableEq K]

def empty : Db K V := ⟨[], List.nodup_nil⟩

def size (d : Db K V) : Nat := d.rows.length

def has (d : Db K V) (k : K) : Bool := k ∈ d.rows.map (·.1)

def get (d : Db K V) (k : K) : Option V := (d.rows.find? fun r => r.1 = k).map (·.2)

def first (d : Db K V) : Option (K × V) := d.rows.head?

theorem has_of_mem_keys {d : Db K V} {k : K} (h : k ∈ d.rows.map (·.1)) : d.has k = true :=
  decide_eq_true h

variable {r : K × V}

theorem has_of_mem {d : Db K V} (h : r ∈ d.rows) : d.has r.1 = true :=
  has_of_mem_keys (List.mem_map_of_mem h)

theorem has_first {d : Db K V} (h : d.first = some r) : d.has r.1 = true :=
  has_of_mem (List.mem_of_mem_head? h)

theorem mem_of_get {d : Db K V} {k : K} {v : V} (h : d.get k = some v) : (k, v) ∈ d.rows := by
  obtain ⟨r, hr, rfl⟩ := Option.map_eq_some_iff.mp h
  have hk : r.1 = k := by simpa using List.find?_some hr
  rw [← hk]
  exact List.mem_of_find?_eq_some hr

theorem size_pos {d : Db K V} {k : K} (h : d.has k = true) : 0 < d.size := by
  obtain ⟨r, hr, -⟩ := List.mem_map.mp (of_decide_eq_true h)
  exact List.length_pos_of_mem hr

/-! ## Put -/

/-- Replace the row of `k`, or add one before the first row that `k` comes before. The rows need not
be sorted, so a row of `k` further on is looked for. -/
def putRows (before : K → K → Bool) (k : K) (v : V) : List (K × V) → List (K × V)
  | [] => [(k, v)]
  | r :: rows =>
    if r.1 = k then (k, v) :: rows
    else if before k r.1 && decide (k ∉ rows.map (·.1)) then (k, v) :: r :: rows
    else r :: putRows before k v rows

theorem mem_keys_putRows (before : K → K → Bool) (k : K) (v : V) (rows : List (K × V)) (k' : K) :
    k' ∈ (putRows before k v rows).map (·.1) ↔ k' = k ∨ k' ∈ rows.map (·.1) := by
  induction rows with
  | nil => simp [putRows]
  | cons r rows ih =>
    unfold putRows
    split
    · rename_i hr
      simp [hr]
    · split
      · simp
      · simp only [List.map_cons, List.mem_cons, ih]
        exact or_left_comm

variable {rows : List (K × V)}

theorem mem_putRows {before : K → K → Bool} {k : K} {v : V} (h : r ∈ putRows before k v rows) :
    r = (k, v) ∨ r ∈ rows := by
  induction rows with
  | nil => exact .inl (List.mem_singleton.mp h)
  | cons r' rows ih =>
    unfold putRows at h
    split at h
    · rcases List.mem_cons.mp h with heq | hmem
      · exact .inl heq
      · exact .inr (List.mem_cons_of_mem _ hmem)
    · split at h
      · exact List.mem_cons.mp h
      · rcases List.mem_cons.mp h with rfl | hmem
        · exact .inr List.mem_cons_self
        · exact (ih hmem).imp_right (List.mem_cons_of_mem _)

theorem mem_putRows_self (before : K → K → Bool) (k : K) (v : V) (rows : List (K × V)) :
    (k, v) ∈ putRows before k v rows := by
  induction rows with
  | nil => exact List.mem_cons_self
  | cons r rows ih =>
    unfold putRows
    split
    · exact List.mem_cons_self
    · split
      · exact List.mem_cons_self
      · exact List.mem_cons_of_mem _ ih

theorem nodup_putRows (before : K → K → Bool) (k : K) (v : V) (h : (rows.map (·.1)).Nodup) :
    ((putRows before k v rows).map (·.1)).Nodup := by
  induction rows with
  | nil => simp [putRows]
  | cons r rows ih =>
    obtain ⟨hr, hrows⟩ := List.nodup_cons.mp h
    unfold putRows
    split
    · rename_i heq
      rw [List.map_cons, ← heq]
      exact h
    · rename_i hne
      split
      · rename_i hput
        have hk := of_decide_eq_true (Bool.and_eq_true_iff.mp hput).2
        refine List.nodup_cons.mpr ⟨?_, h⟩
        rw [List.map_cons, List.mem_cons]
        rintro (heq | hmem)
        · exact hne heq.symm
        · exact hk hmem
      · refine List.nodup_cons.mpr ⟨?_, ih hrows⟩
        rw [mem_keys_putRows]
        rintro (heq | hmem)
        · exact hne heq
        · exact hr hmem

theorem length_putRows (before : K → K → Bool) (k : K) (v : V) (rows : List (K × V)) :
    (putRows before k v rows).length =
      if k ∈ rows.map (·.1) then rows.length else rows.length + 1 := by
  induction rows with
  | nil => simp [putRows]
  | cons r rows ih =>
    unfold putRows
    split
    · rename_i hr
      simp [hr]
    · rename_i hne
      have hk : k ∈ (r :: rows).map (·.1) ↔ k ∈ rows.map (·.1) := by
        rw [List.map_cons, List.mem_cons, or_iff_right (Ne.symm hne)]
      split
      · rename_i hput
        have hno := of_decide_eq_true (Bool.and_eq_true_iff.mp hput).2
        rw [if_neg (fun h => hno (hk.mp h))]
        rfl
      · rw [List.length_cons, ih]
        simp only [hk]
        split <;> rfl

def put (before : K → K → Bool) (d : Db K V) (k : K) (v : V) : Db K V :=
  ⟨putRows before k v d.rows, nodup_putRows before k v d.nodup⟩

variable (before : K → K → Bool) (d : Db K V) (k : K) (v : V)

theorem size_put : (d.put before k v).size = if d.has k then d.size else d.size + 1 := by
  simp only [size, put, length_putRows, has, decide_eq_true_eq]

theorem has_put (k' : K) : (d.put before k v).has k' = (decide (k' = k) || d.has k') := by
  simp only [has, put, mem_keys_putRows, Bool.decide_or]

theorem mem_put (h : r ∈ (d.put before k v).rows) :
    r = (k, v) ∨ r ∈ d.rows ∧ r.1 ≠ k := by
  by_cases hk : r.1 = k
  · exact .inl (List.inj_on_of_nodup_map (d.put before k v).nodup h (mem_putRows_self ..) hk)
  · rcases mem_putRows h with rfl | hmem
    · exact .inl rfl
    · exact .inr ⟨hmem, hk⟩

/-! ## Delete -/

def delete (d : Db K V) (k : K) : Db K V where
  rows := d.rows.filter fun r => r.1 ≠ k
  nodup := d.nodup.sublist (List.filter_sublist.map _)

theorem has_delete (k' : K) : (d.delete k).has k' = (decide (k' ≠ k) && d.has k') := by
  have hmem : k' ∈ (d.delete k).rows.map (·.1) ↔ k' ≠ k ∧ k' ∈ d.rows.map (·.1) := by
    simp only [delete, List.mem_map, List.mem_filter, decide_eq_true_eq]
    constructor
    · rintro ⟨r, ⟨hr, hne⟩, rfl⟩
      exact ⟨hne, r, hr, rfl⟩
    · rintro ⟨hne, r, hr, rfl⟩
      exact ⟨r, ⟨hr, hne⟩, rfl⟩
  simp only [has, hmem, Bool.decide_and]

/-- No key is there twice, so a delete takes one row at most. -/
theorem length_filter_ne (h : (rows.map (·.1)).Nodup) :
    (rows.filter fun r => r.1 ≠ k).length =
      if k ∈ rows.map (·.1) then rows.length - 1 else rows.length := by
  induction rows with
  | nil => rfl
  | cons r rows ih =>
    obtain ⟨hr, hrows⟩ := List.nodup_cons.mp h
    by_cases hk : r.1 = k
    · have hno : k ∉ rows.map (·.1) := by
        rw [← hk]
        exact hr
      rw [List.filter_cons_of_neg (by simpa using hk), ih hrows, if_neg hno]
      simp [hk]
    · have hiff : k ∈ (r :: rows).map (·.1) ↔ k ∈ rows.map (·.1) := by
        rw [List.map_cons, List.mem_cons, or_iff_right (Ne.symm hk)]
      rw [List.filter_cons_of_pos (by simpa using hk), List.length_cons, ih hrows]
      simp only [hiff]
      split
      · rename_i hmem
        have hpos := List.length_pos_of_mem hmem
        rw [List.length_map] at hpos
        rw [List.length_cons]
        omega
      · rfl

theorem size_delete : (d.delete k).size = if d.has k then d.size - 1 else d.size := by
  simp only [size, delete, has, decide_eq_true_eq, length_filter_ne k d.nodup]

end Db
