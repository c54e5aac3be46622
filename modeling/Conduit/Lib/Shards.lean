import Mathlib.Algebra.GroupWithZero.Nat
import Mathlib.Algebra.BigOperators.Group.List.Basic

/-!
# Sharded collections

A collection that is split into a list of shards, each with a size. A change is made to one shard at
a time.

- `Shards.total`: the size of the collection.
- `Shards.total_set`: what the change of one shard does to it.
- `Shards.exists_of_total_pos`: a collection that is not empty has a shard that is not.
-/

namespace Shards

variable {S : Type} {size : S → Nat} {l : List S} {i : Nat} {s : S}

def total (size : S → Nat) (l : List S) : Nat := (l.map size).sum

theorem total_set (h : l[i]? = some s) (s' : S) :
    total size (l.set i s') + size s = total size l + size s' := by
  induction l generalizing i with
  | nil => cases h
  | cons a l ih =>
    cases i with
    | zero =>
      cases h
      simp only [total, List.set_cons_zero, List.map_cons, List.sum_cons]
      omega
    | succ i =>
      have hrest := ih h
      simp only [total, List.set_cons_succ, List.map_cons, List.sum_cons] at hrest ⊢
      omega

theorem exists_of_total_pos (h : 0 < total size l) :
    ∃ (i : Nat) (s : S), l[i]? = some s ∧ 0 < size s := by
  induction l with
  | nil => simp [total] at h
  | cons a l ih =>
    by_cases ha : 0 < size a
    · exact ⟨0, a, rfl, ha⟩
    · have hrest : 0 < total size l := by
        simp only [total, List.map_cons, List.sum_cons] at h ⊢
        omega
      obtain ⟨i, s, hi, hs⟩ := ih hrest
      exact ⟨i + 1, s, hi, hs⟩

end Shards
