import Mathlib.Data.List.Basic

/-!
# Tables filled and swept by a loop

A table is a partial function from keys to values. A loop over a list inserts an entry for every
element, or changes the entries of the listed keys. With elements of one key the last one counts; a
change that is idempotent may be made more than once.

- `Table.insertAll`: insert the entry of every element, in order.
- `Table.insertAll_eq`: what is found under a key is the entry of the last element with that key.
- `Table.sweep`: change the entries of the listed keys.
- `Table.sweep_eq`: what an idempotent change leaves under a key.
- `Table.lookup_iff_mem`, `Table.find?_iff_mem`: association lists without a key twice.
-/

namespace Table

variable {K V A : Type} [DecidableEq K]

/-- Insert `val a` under `key a` for every `a` of the list, in order. -/
def insertAll (key : A → K) (val : A → V) (xs : List A) (t : K → Option V) : K → Option V :=
  xs.foldl (fun t a => Function.update t (key a) (some (val a))) t

def lastWith (key : A → K) (k : K) (xs : List A) : Option A := xs.reverse.find? fun a => key a = k

theorem lastWith_mem {key : A → K} {k : K} {xs : List A} {a : A} (h : lastWith key k xs = some a) :
    a ∈ xs ∧ key a = k := by
  have hm := List.mem_of_find?_eq_some h
  have hk := List.find?_some h
  exact ⟨List.mem_reverse.mp hm, by simpa using hk⟩

theorem insertAll_eq (key : A → K) (val : A → V) (xs : List A) (t : K → Option V) (k : K) :
    insertAll key val xs t k = ((lastWith key k xs).map val).or (t k) := by
  induction xs generalizing t with
  | nil => simp [insertAll, lastWith]
  | cons a xs ih =>
    change insertAll key val xs (Function.update t (key a) (some (val a))) k = _
    rw [ih]
    unfold lastWith
    rw [List.reverse_cons, List.find?_append]
    cases xs.reverse.find? fun a => key a = k with
    | some b => simp
    | none =>
      by_cases hk : key a = k
      · subst hk
        simp
      · simp [hk, Function.update_of_ne (Ne.symm hk)]

/-- Change the entries of the listed keys. -/
def sweep (f : K → V → V) (ks : List K) (t : K → Option V) : K → Option V :=
  ks.foldl (fun t k => Function.update t k ((t k).map (f k))) t

theorem sweep_eq {f : K → V → V} (hf : ∀ k v, f k (f k v) = f k v) (ks : List K) (t : K → Option V)
    (k : K) : sweep f ks t k = if k ∈ ks then (t k).map (f k) else t k := by
  induction ks generalizing t with
  | nil => simp [sweep]
  | cons k' ks ih =>
    change sweep f ks (Function.update t k' ((t k').map (f k'))) k = _
    rw [ih]
    by_cases hk : k = k'
    · subst hk
      simp only [Function.update_self, List.mem_cons, true_or, if_true]
      split
      · -- swept again
        cases t k with
        | none => rfl
        | some v => simp [hf]
      · rfl
    · simp [hk]

/-- In a list that has no key twice, a lookup finds every entry. -/
theorem lookup_iff_mem {xs : List (K × V)} (h : (xs.map (·.1)).Nodup) {k : K} {v : V} :
    xs.lookup k = some v ↔ (k, v) ∈ xs := by
  induction xs with
  | nil => simp
  | cons x xs ih =>
    obtain ⟨k', v'⟩ := x
    obtain ⟨hnot, hrest⟩ := List.nodup_cons.mp h
    by_cases hk : k = k'
    · subst hk
      have hmem : (k, v) ∉ xs := fun hm => hnot (List.mem_map.mpr ⟨_, hm, rfl⟩)
      simp [hmem, eq_comm]
    · have hbeq : (k == k') = false := by simpa using hk
      simp [List.lookup_cons, hbeq, hk, ih hrest]

/-- In a list that has no key twice, a search by key finds every entry. -/
theorem find?_iff_mem {key : A → K} {xs : List A} (h : (xs.map key).Nodup) {k : K} {a : A} :
    xs.find? (key · == k) = some a ↔ a ∈ xs ∧ key a = k := by
  induction xs with
  | nil => simp
  | cons x xs ih =>
    obtain ⟨hnot, hrest⟩ := List.nodup_cons.mp h
    by_cases hk : key x = k
    · subst hk
      have hmem : ∀ b ∈ xs, key b ≠ key x := by
        intro b hb heq
        exact hnot (List.mem_map.mpr ⟨b, hb, heq⟩)
      grind
    · rw [List.find?_cons_of_neg (by simpa using hk), ih hrest]
      grind

end Table
