import Mathlib.Data.List.Nodup

/-!
# Lists with unique tags

A list whose entries may carry a tag, and in which no tag occurs twice: a queue of work items, each
with a number of its own.

- `Tags.Once`: no tag occurs twice.
- `Once.snoc`, `Once.tail`, `Once.erase`: adding and taking an entry.
- `Once.not_mem_erase`: the tag of an entry that was taken is not in the list again.
-/

namespace Tags

variable {α β : Type} {tag : α → Option β} {xs : List α} {x : α} {b : β}

/-- No tag occurs twice. -/
def Once (tag : α → Option β) (xs : List α) : Prop := (xs.filterMap tag).Nodup

theorem once_nil : Once tag [] := List.nodup_nil

/-- An entry with a new tag, or with none. -/
theorem Once.snoc (h : Once tag xs) (hx : ∀ b, tag x = some b → ∀ y ∈ xs, tag y ≠ some b) :
    Once tag (xs ++ [x]) := by
  unfold Once
  rw [List.filterMap_append]
  cases htag : tag x with
  | none =>
    simp only [List.filterMap_cons, htag, List.filterMap_nil, List.append_nil]
    exact h
  | some b =>
    refine List.nodup_append.mpr ⟨h, by simp [htag], fun a ha a' ha' heq => ?_⟩
    simp only [List.filterMap_cons, htag, List.filterMap_nil, List.mem_singleton] at ha'
    obtain ⟨y, hy, hay⟩ := List.mem_filterMap.mp ha
    exact hx b htag y hy (by rw [hay, heq, ha'])

theorem Once.tail (h : Once tag (x :: xs)) : Once tag xs :=
  ((List.sublist_cons_self x xs).filterMap tag).nodup h

theorem Once.erase (h : Once tag xs) (i : Nat) : Once tag (xs.eraseIdx i) :=
  ((List.eraseIdx_sublist xs i).filterMap tag).nodup h

theorem Once.not_mem_tail (h : Once tag (x :: xs)) (hb : tag x = some b) :
    ∀ y ∈ xs, tag y ≠ some b := by
  intro y hy hyb
  unfold Once at h
  rw [List.filterMap_cons_some hb] at h
  exact (List.nodup_cons.mp h).1 (List.mem_filterMap.mpr ⟨y, hy, hyb⟩)

/-- The tag of an entry that was taken is not in the list again. -/
theorem Once.not_mem_erase {i : Nat} (h : Once tag xs) (hi : xs[i]? = some x) (hb : tag x = some b) :
    ∀ y ∈ xs.eraseIdx i, tag y ≠ some b := by
  induction xs generalizing i with
  | nil => cases hi
  | cons a xs ih =>
    cases i with
    | zero =>
      cases hi
      exact h.not_mem_tail hb
    | succ i =>
      have hmem : x ∈ xs := List.mem_of_getElem? hi
      intro y hy hyb
      rcases List.mem_cons.mp hy with rfl | hy
      · exact h.not_mem_tail hyb x hmem hb
      · exact ih h.tail hi y hy hyb

end Tags
