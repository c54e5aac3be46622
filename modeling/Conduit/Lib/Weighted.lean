import Mathlib.Algebra.GroupWithZero.Nat
import Mathlib.Data.List.Rotate

/-!
# Weighted picks

A pick by accumulated weights out of a list: the number `n` selects the element in whose interval
`n` lies. As a list, the picks are the elements in order, each as often as its weight.

- `Weighted.spread`: that list.
- `Weighted.countP_window`: a full period of consecutive numbers picks each element as often as the
  list has it.
-/

namespace Weighted

variable {α : Type*} (w : α → Nat) (xs : List α)

/-- Each element as often as its weight. -/
def spread : List α := xs.flatMap fun x => List.replicate (w x) x

@[simp] theorem spread_cons (x : α) : spread w (x :: xs) = List.replicate (w x) x ++ spread w xs :=
  List.flatMap_cons

theorem length_spread : (spread w xs).length = (xs.map w).sum := by
  simp [spread, List.length_flatMap]

theorem mem_spread {x : α} : x ∈ spread w xs ↔ x ∈ xs ∧ 0 < w x := by
  constructor
  · intro h
    obtain ⟨y, hy, hx⟩ := List.mem_flatMap.mp h
    obtain ⟨hne, rfl⟩ := List.mem_replicate.mp hx
    exact ⟨hy, Nat.pos_of_ne_zero hne⟩
  · rintro ⟨hx, hpos⟩
    exact List.mem_flatMap.mpr ⟨x, hx, List.mem_replicate.mpr ⟨hpos.ne', rfl⟩⟩

/-- An element of weight 0 does not occur. -/
theorem spread_filter {p : α → Bool} (h : ∀ x ∈ xs, p x = false → w x = 0) :
    spread w (xs.filter p) = spread w xs := by
  induction xs with
  | nil => rfl
  | cons x xs ih =>
    have ih := ih fun y hy => h y (List.mem_cons_of_mem _ hy)
    cases hp : p x with
    | true => rw [List.filter_cons_of_pos hp, spread_cons, spread_cons, ih]
    | false =>
      rw [List.filter_cons_of_neg (by simp [hp]), spread_cons, h x List.mem_cons_self hp,
        List.replicate_zero, List.nil_append, ih]

theorem spread_congr {w' : α → Nat} (h : ∀ x ∈ xs, w x = w' x) : spread w xs = spread w' xs :=
  List.flatMap_congr fun x hx => by rw [h x hx]

theorem countP_spread (p : α → Bool) :
    (spread w xs).countP p = ((xs.filter p).map w).sum := by
  induction xs with
  | nil => rfl
  | cons x xs ih =>
    cases hp : p x with
    | true => simp [List.filter_cons_of_pos hp, List.countP_replicate, hp, ih]
    | false => simp [List.filter_cons_of_neg, List.countP_replicate, hp, ih]

/-! ## Periods -/

variable {xs}

/-- A full period of numbers runs through the list, from some position on. -/
theorem map_window (start : Nat) :
    (List.range' start xs.length).map (fun n => xs[n % xs.length]?) =
      (xs.rotate start).map some := by
  apply List.ext_getElem?
  intro i
  by_cases hi : i < xs.length
  · rw [List.getElem?_map, List.getElem?_range' hi, List.getElem?_map,
      List.getElem?_rotate hi, Option.map_some, Nat.one_mul, Nat.add_comm start i]
    rw [List.getElem?_eq_getElem (Nat.mod_lt _ (Nat.zero_lt_of_lt hi)), Option.map_some]
  · rw [List.getElem?_eq_none (by simpa using hi), List.getElem?_eq_none (by simpa using hi)]

/-- How often a full period selects an element with `p`. -/
theorem countP_window (p : α → Bool) (start : Nat) :
    ((List.range' start xs.length).countP fun n => xs[n % xs.length]?.any p) = xs.countP p := by
  have hcount : ((List.range' start xs.length).countP fun n => xs[n % xs.length]?.any p) =
      ((List.range' start xs.length).map fun n => xs[n % xs.length]?).countP (Option.any p) := by
    rw [List.countP_map]
    rfl
  rw [hcount, map_window, List.countP_map]
  exact (List.rotate_perm xs start).countP_eq p

end Weighted
