import Mathlib.Data.List.Induction

/-!
# Registers written by a list of operations

An operation writes a register or leaves it: `w a = some v` or `w a = none`. After a list of
operations the register has the last value written, or what it had before.

- `Writes.last`: the last value written.
- `Writes.foldl_eq`: a loop whose steps write a register leaves the last value there;
  `Writes.foldl_any`: a flag that the steps can only raise.
- `Writes.collapse_iff`: a register that can be set and cleared, when the last set value and the
  fact of a clear are all that is kept of the operations, and the clear comes last.
-/

namespace Writes

variable {A B V : Type}

/-- The last value that the operations write. -/
def last (w : A → Option B) (xs : List A) : Option B := xs.foldl (fun r a => (w a).or r) none

@[simp] theorem last_nil (w : A → Option B) : last w [] = none := rfl

@[simp] theorem last_snoc (w : A → Option B) (xs : List A) (a : A) :
    last w (xs ++ [a]) = (w a).or (last w xs) := by
  simp [last, List.foldl_append]

variable {xs : List A} {w : A → Option B}

/-- A loop whose every step writes the register by `w`. -/
theorem foldl_eq {S : Type} {step : S → A → S} {reg : S → B}
    (h : ∀ s, ∀ a ∈ xs, reg (step s a) = (w a).getD (reg s)) (s : S) :
    reg (xs.foldl step s) = (last w xs).getD (reg s) := by
  induction xs using List.reverseRecOn with
  | nil => rfl
  | append_singleton xs a ih =>
    have hrec := ih fun s b hb => h s b (List.mem_append_left _ hb)
    rw [List.foldl_append, last_snoc]
    simp only [List.foldl_cons, List.foldl_nil]
    rw [h _ a (by simp), hrec]
    cases w a <;> rfl

theorem last_eq_none_iff :
    last w xs = none ↔ ∀ a ∈ xs, w a = none := by
  induction xs using List.reverseRecOn with
  | nil => simp
  | append_singleton xs a ih =>
    simp only [last_snoc, Option.or_eq_none_iff, ih, List.mem_append, List.mem_singleton]
    constructor
    · rintro ⟨ha, hxs⟩ b (hb | rfl)
      · exact hxs b hb
      · exact ha
    · exact fun h => ⟨h a (.inr rfl), fun b hb => h b (.inl hb)⟩

/-- The last write is the write of some operation. -/
theorem last_mem {b : B} (h : last w xs = some b) :
    ∃ a ∈ xs, w a = some b := by
  induction xs using List.reverseRecOn with
  | nil => cases h
  | append_singleton xs a ih =>
    rw [last_snoc] at h
    cases ha : w a with
    | some b' =>
      rw [ha] at h
      cases h
      exact ⟨a, by simp, ha⟩
    | none =>
      rw [ha] at h
      obtain ⟨a', ha', hw⟩ := ih h
      exact ⟨a', by simp [ha'], hw⟩

variable {p : A → Bool}

theorem last_filter (h : ∀ a, p a = false → w a = none) (xs : List A) :
    last w (xs.filter p) = last w xs := by
  induction xs using List.reverseRecOn with
  | nil => rfl
  | append_singleton xs a ih =>
    rw [List.filter_append, last_snoc]
    cases hp : p a with
    | true => simp [hp, ih]
    | false => simp [hp, ih, h a hp]

theorem last_map (w : A → Option B) (f : B → V) (xs : List A) :
    last (fun a => (w a).map f) xs = (last w xs).map f := by
  induction xs using List.reverseRecOn with
  | nil => rfl
  | append_singleton xs a ih =>
    rw [last_snoc, last_snoc, ih]
    cases w a <;> rfl

/-- A flag that some operations raise. -/
theorem foldl_any {S : Type} {step : S → A → S} {flag : S → Bool}
    (h : ∀ s, ∀ a ∈ xs, flag (step s a) = (p a || flag s)) (s : S) :
    flag (xs.foldl step s) = (xs.any p || flag s) := by
  induction xs generalizing s with
  | nil => rfl
  | cons a xs ih =>
    rw [List.foldl_cons, ih fun s b hb => h s b (List.mem_cons_of_mem _ hb), h s a List.mem_cons_self,
      List.any_cons]
    cases p a <;> cases xs.any p <;> rfl

/-- The last write of a register, seen through `f`, when `f` sees it. -/
theorem last_bind {f : B → Option V} {b : B} {v : V} (hb : last w xs = some b) (hv : f b = some v) :
    last (fun a => (w a).bind f) xs = some v := by
  induction xs using List.reverseRecOn with
  | nil => cases hb
  | append_singleton xs a ih =>
    rw [last_snoc] at hb ⊢
    cases ha : w a with
    | some b' =>
      rw [ha] at hb
      cases hb
      simp [hv]
    | none =>
      rw [ha] at hb
      exact ih hb

/-! ## Set and clear -/

/-- The writes that set a value. -/
def sets (w : A → Option (Option V)) (a : A) : Option (Option V) := (w a).filter Option.isSome

/-- The writes that clear the register. -/
def clears (w : A → Option (Option V)) (a : A) : Option Bool :=
  match w a with
  | some none => some true
  | some (some _) | none => none

theorem clears_last {w : A → Option (Option V)} :
    (last (clears w) xs).getD false = true ↔ ∃ a ∈ xs, w a = some none := by
  induction xs using List.reverseRecOn with
  | nil => simp
  | append_singleton xs a ih =>
    rw [last_snoc]
    rcases ha : w a with - | - | v
    · simp [clears, ha, ih, or_and_right, exists_or]
    · simp only [clears, ha, Option.some_or, Option.getD_some, true_iff]
      exact ⟨a, by simp, ha⟩
    · simp [clears, ha, ih, or_and_right, exists_or]

/-- Without a clear, the last value set is the last value written. -/
theorem sets_last {w : A → Option (Option V)} (h : ∀ a ∈ xs, w a ≠ some none) :
    last (sets w) xs = last w xs := by
  induction xs using List.reverseRecOn with
  | nil => rfl
  | append_singleton xs a ih =>
    have ha := h a (by simp)
    rw [last_snoc, last_snoc, ih fun b hb => h b (by simp [hb])]
    congr 1
    rcases hw : w a with - | - | v
    · simp [sets, hw]
    · exact absurd hw ha
    · simp [sets, hw]

/-- Keeping only the last value set and whether there was a clear is right if, after a clear, the
last operation on the register is a clear. -/
theorem collapse_iff (w : A → Option (Option V)) (xs : List A) (init : Option V) :
    (if (last (clears w) xs).getD false then none
      else ((last (sets w) xs).getD none).or init) = (last w xs).getD init ↔
      ((∃ a ∈ xs, w a = some none) → last w xs = some none) := by
  by_cases hc : ∃ a ∈ xs, w a = some none
  · rw [if_pos (clears_last.mpr hc)]
    -- something was written, so the register has that value
    cases hl : last w xs with
    | none =>
      obtain ⟨a, ha, hw⟩ := hc
      have := last_eq_none_iff.mp hl a ha
      rw [this] at hw
      cases hw
    | some v =>
      simp only [Option.getD_some, Option.some.injEq]
      exact ⟨fun h _ => h.symm, fun h => (h hc).symm⟩
  · rw [if_neg (fun h => hc (clears_last.mp h))]
    have hne : ∀ a ∈ xs, w a ≠ some none := fun a ha hw => hc ⟨a, ha, hw⟩
    rw [sets_last hne]
    refine ⟨fun _ h => absurd h hc, fun _ => ?_⟩
    cases hl : last w xs with
    | none => rfl
    | some v =>
      cases v with
      | some v => rfl
      | none => exact absurd (last_mem hl) hc

end Writes
