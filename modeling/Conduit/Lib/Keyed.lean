import Mathlib.Data.List.Forall2

/-!
# Lists that are changed by key

Ordered collections that are kept as lists: update the first entry that satisfies a condition or
append a new one (`upsert`, which may fail, and `put`, which cannot), and drop all entries that
satisfy it (`removeAll`, which fails if there is none).

- `upsert_of_find_some`, `upsert_of_find_none`: an update is `replaceFirst`, or an append.
- `map_filter_upsert`, `map_filter_removeAll`: a change and a filter that keeps what is changed.
- `filter_upsert`, `filter_removeAll`: a change and a filter that drops what is changed.
- `map_replaceFirst_upsert`, `map_replaceFirst_removeAll`: changes of different entries commute.
-/

namespace Keyed

variable {α ε : Type}

/-- Update the first entry that satisfies `p`; append `new` if there is none. -/
def upsert (p : α → Bool) (f : α → Except ε α) (new : Except ε α) : List α → Except ε (List α)
  | [] => new.map ([·])
  | x :: xs => if p x then (f x).map (· :: xs) else (upsert p f new xs).map (x :: ·)

/-- `upsert` that cannot fail. -/
def put (p : α → Bool) (f : α → α) (new : α) : List α → List α
  | [] => [new]
  | x :: xs => if p x then f x :: xs else x :: put p f new xs

/-- Drop the entries that satisfy `p`; fail if there is none. -/
def removeAll (p : α → Bool) (err : ε) (xs : List α) : Except ε (List α) :=
  if xs.any p then .ok (xs.filter fun x => !p x) else .error err

/-- Put `v` in the place of the first entry that satisfies `p`. -/
def replaceFirst (p : α → Bool) (v : α) : List α → List α
  | [] => []
  | x :: xs => if p x then v :: xs else x :: replaceFirst p v xs

variable {β : Type} {x : Except ε α}

theorem map_eq_ok_iff {f : α → β} {b : β} :
    x.map f = .ok b ↔ ∃ a, x = .ok a ∧ f a = b := by
  cases x with
  | error e => simp [Except.map]
  | ok a => simp [Except.map]

variable {γ : Type} {g : β → γ}

theorem map_map {f : α → β} (x : Except ε α) :
    (x.map f).map g = x.map (g ∘ f) := by
  cases x <;> rfl

theorem bind_eq_ok {f : α → Except ε β} {b : β} :
    x.bind f = .ok b ↔ ∃ a, x = .ok a ∧ f a = .ok b := by
  cases x with
  | error e => simp [Except.bind]
  | ok a => simp [Except.bind]

theorem map_bind {f : α → Except ε β} (x : Except ε α) :
    (x.bind f).map g = x.bind fun a => (f a).map g := by
  cases x <;> rfl

theorem upsert_ok (p : α → Bool) (f : α → α) (new : α) (xs : List α) :
    upsert p (fun x => .ok (f x)) (.ok new) xs = (.ok (put p f new xs) : Except ε (List α)) := by
  induction xs with
  | nil => rfl
  | cons x xs ih =>
    simp only [upsert, put, ih]
    split <;> rfl

variable {a : α} {xs : List α} {p : α → Bool} {new : Except ε α} {f : α → Except ε α}

section append

variable {l r : List α} {v : α} (hl : ∀ y ∈ l, p y = false)
include hl

theorem upsert_append (hx : p a = true) :
    upsert p f new (l ++ a :: r) = (f a).map (l ++ · :: r) := by
  induction l with
  | nil => simp only [List.nil_append, upsert, hx, if_true]
  | cons y l ih =>
    obtain ⟨hy, hl⟩ := List.forall_mem_cons.mp hl
    simp only [List.cons_append, upsert, hy, Bool.false_eq_true, if_false, ih hl, map_map]
    rfl

theorem replaceFirst_append (hx : p a = true) : replaceFirst p v (l ++ a :: r) = l ++ v :: r := by
  induction l with
  | nil => simp only [List.nil_append, replaceFirst, hx, if_true]
  | cons y l ih =>
    obtain ⟨hy, hl⟩ := List.forall_mem_cons.mp hl
    simp only [List.cons_append, replaceFirst, hy, Bool.false_eq_true, if_false, ih hl]

end append

/-- What is found comes after entries that do not satisfy the condition. -/
theorem split_of_find (h : xs.find? p = some a) :
    p a = true ∧ ∃ l r, xs = l ++ a :: r ∧ ∀ y ∈ l, p y = false := by
  obtain ⟨ha, l, r, rfl, hl⟩ := List.find?_eq_some_iff_append.mp h
  exact ⟨ha, l, r, rfl, fun y hy => by simpa using hl y hy⟩

theorem upsert_of_find_some (h : xs.find? p = some a) :
    upsert p f new xs = (f a).map (replaceFirst p · xs) := by
  obtain ⟨ha, l, r, rfl, hl⟩ := split_of_find h
  rw [upsert_append hl ha]
  congr 1
  funext v
  exact (replaceFirst_append hl ha).symm

theorem upsert_of_find_none (h : xs.find? p = none) : upsert p f new xs = new.map (xs ++ [·]) := by
  induction xs with
  | nil => rfl
  | cons x xs ih =>
    obtain ⟨hx, hxs⟩ := List.forall_mem_cons.mp (List.find?_eq_none.mp h)
    rw [upsert, if_neg hx, ih (List.find?_eq_none.mpr hxs), map_map]
    rfl

variable {ys : List α}

/-- An update that may not append: every entry is the old one, or the update of it. -/
theorem forall₂_of_upsert {err : ε} (h : upsert p f (.error err) xs = .ok ys) :
    List.Forall₂ (fun x y => y = x ∨ f x = .ok y) xs ys := by
  induction xs generalizing ys with
  | nil => cases h
  | cons x xs ih =>
    rw [upsert] at h
    split at h
    · obtain ⟨y, hy, rfl⟩ := map_eq_ok_iff.mp h
      exact .cons (.inr hy) (List.forall₂_same.mpr fun _ _ => .inl rfl)
    · obtain ⟨zs, hz, rfl⟩ := map_eq_ok_iff.mp h
      exact .cons (.inl rfl) (ih hz)

theorem mem_of_upsert (h : upsert p f new xs = .ok ys) {x : α} (hx : x ∈ xs) (hp : p x = false) :
    x ∈ ys := by
  induction xs generalizing ys with
  | nil => cases hx
  | cons y xs ih =>
    rw [upsert] at h
    split at h
    · rename_i hy
      obtain ⟨z, -, rfl⟩ := map_eq_ok_iff.mp h
      rcases List.mem_cons.mp hx with rfl | hx
      · rw [hp] at hy
        cases hy
      · exact List.mem_cons_of_mem _ hx
    · obtain ⟨zs, hz, rfl⟩ := map_eq_ok_iff.mp h
      rcases List.mem_cons.mp hx with rfl | hx
      · exact List.mem_cons_self
      · exact List.mem_cons_of_mem _ (ih hz hx)

theorem forall_of_upsert {P : α → Prop} (hxs : ∀ x ∈ xs, P x)
    (hf : ∀ x y, P x → p x = true → f x = .ok y → P y) (hn : ∀ y, new = .ok y → P y)
    (h : upsert p f new xs = .ok ys) : ∀ y ∈ ys, P y := by
  induction xs generalizing ys with
  | nil =>
    obtain ⟨y, hy, rfl⟩ := map_eq_ok_iff.mp h
    simpa using hn y hy
  | cons x xs ih =>
    obtain ⟨hx, hxs⟩ := List.forall_mem_cons.mp hxs
    rw [upsert] at h
    split at h
    · rename_i hp
      obtain ⟨y, hy, rfl⟩ := map_eq_ok_iff.mp h
      exact List.forall_mem_cons.mpr ⟨hf x y hx hp hy, hxs⟩
    · obtain ⟨zs, hz, rfl⟩ := map_eq_ok_iff.mp h
      exact List.forall_mem_cons.mpr ⟨hx, ih hxs hz⟩

variable {q : α → Bool}

theorem upsert_congr (h : ∀ x ∈ xs, p x = q x) : upsert p f new xs = upsert q f new xs := by
  induction xs with
  | nil => rfl
  | cons x xs ih =>
    obtain ⟨hx, hxs⟩ := List.forall_mem_cons.mp h
    rw [upsert, upsert, hx, ih hxs]

theorem removeAll_congr {err : ε} (h : ∀ x ∈ xs, p x = q x) :
    removeAll p err xs = removeAll q err xs := by
  have hfilter : (xs.filter fun x => !p x) = xs.filter fun x => !q x :=
    List.filter_congr fun x hx => by rw [h x hx]
  have hany : xs.any p = xs.any q := by
    rw [Bool.eq_iff_iff, List.any_eq_true, List.any_eq_true]
    exact exists_congr fun x => and_congr_right fun hx => by rw [h x hx]
  rw [removeAll, removeAll, hfilter, hany]

theorem upsert_map {g : α → β} {p : β → Bool} {f : β → Except ε β} {f' : α → Except ε α}
    {new : Except ε β} {new' : Except ε α} (hp : ∀ x, p (g x) = q x)
    (hf : ∀ x, f (g x) = (f' x).map g) (hn : new = new'.map g) (xs : List α) :
    upsert p f new (xs.map g) = (upsert q f' new' xs).map (List.map g) := by
  induction xs with
  | nil =>
    rw [List.map_nil, upsert, upsert, hn, map_map, map_map]
    rfl
  | cons x xs ih =>
    rw [List.map_cons, upsert, upsert, hp]
    split
    · rw [hf, map_map, map_map]
      rfl
    · rw [ih, map_map, map_map]
      rfl

variable {v : α}

theorem find_replaceFirst (hv : p v = true) (h : xs.find? p = some a) :
    (replaceFirst p v xs).find? p = some v := by
  obtain ⟨ha, l, r, rfl, hl⟩ := split_of_find h
  rw [replaceFirst_append hl ha, List.find?_append, List.find?_eq_none.mpr (by simpa using hl),
    List.find?_cons, hv]
  rfl

theorem replaceFirst_replaceFirst {v' : α} (hv : p v = true) (xs : List α) :
    replaceFirst p v' (replaceFirst p v xs) = replaceFirst p v' xs := by
  induction xs with
  | nil => rfl
  | cons x xs ih =>
    cases hx : p x with
    | true => simp only [replaceFirst, hx, if_true, hv]
    | false => simp only [replaceFirst, hx, Bool.false_eq_true, if_false, ih]

theorem replaceFirst_self (h : xs.find? p = some a) :
    replaceFirst p a xs = xs := by
  obtain ⟨ha, l, r, rfl, hl⟩ := split_of_find h
  exact replaceFirst_append hl ha

theorem put_of_find_some {f : α → α} {new : α} (h : xs.find? p = some a) :
    put p f new xs = replaceFirst p (f a) xs := by
  have hup := upsert_ok (ε := Unit) p f new xs
  rw [upsert_of_find_some h] at hup
  exact (Except.ok.inj hup).symm

theorem put_of_find_none {f : α → α} {new : α} (h : xs.find? p = none) :
    put p f new xs = xs ++ [new] := by
  have hup := upsert_ok (ε := Unit) p f new xs
  rw [upsert_of_find_none h] at hup
  exact (Except.ok.inj hup).symm

/-- An update does not change what another condition finds. -/
theorem find_put {f : α → α} {new : α} (hp : ∀ x, p x = true → q x = false)
    (hf : ∀ x, p x = true → q (f x) = false) (hn : q new = false) (xs : List α) :
    (put p f new xs).find? q = xs.find? q := by
  induction xs with
  | nil => simp [put, hn]
  | cons x xs ih =>
    by_cases hx : p x = true
    · simp [put, hx, hp x hx, hf x hx]
    · simp [put, hx, List.find?_cons, ih]

/-! ## Filters -/

section filter

variable {p q : α → Bool}

variable {new : Except ε α} {f : α → Except ε α}

/-- A filter that keeps what is changed. -/
theorem map_filter_upsert (hp : ∀ x, p x = true → q x = true)
    (hf : ∀ x y, p x = true → f x = .ok y → q y = true) (hn : ∀ y, new = .ok y → q y = true)
    (xs : List α) :
    (upsert p f new xs).map (List.filter q) = upsert p f new (xs.filter q) := by
  induction xs with
  | nil =>
    rw [List.filter_nil, upsert, map_map]
    cases hnew : new with
    | error e => rfl
    | ok y => simp [Except.map, hn y hnew]
  | cons x xs ih =>
    cases hx : p x with
    | true =>
      simp only [upsert, hx, if_true, List.filter_cons, hp x hx, map_map]
      cases hfx : f x with
      | error e => rfl
      | ok y => simp [Except.map, hf x y hx hfx]
    | false =>
      simp only [upsert, hx, Bool.false_eq_true, if_false, map_map, List.filter_cons]
      cases hq : q x with
      | true =>
        simp only [if_true, upsert, hx, Bool.false_eq_true, if_false, ← ih, map_map]
        congr 1
        funext ys
        simp [hq]
      | false =>
        simp only [Bool.false_eq_true, if_false, ← ih]
        congr 1
        funext ys
        simp [hq]

variable {xs ys : List α}

/-- A filter that drops what is changed. -/
theorem filter_upsert (hp : ∀ x, p x = true → q x = false)
    (hf : ∀ x y, p x = true → f x = .ok y → q y = false) (hn : ∀ y, new = .ok y → q y = false)
    (h : upsert p f new xs = .ok ys) :
    ys.filter q = xs.filter q := by
  induction xs generalizing ys with
  | nil =>
    obtain ⟨y, hy, rfl⟩ := map_eq_ok_iff.mp h
    simp [hn y hy]
  | cons x xs ih =>
    rw [upsert] at h
    split at h
    · rename_i hx
      obtain ⟨y, hy, rfl⟩ := map_eq_ok_iff.mp h
      simp [hf x y hx hy, hp x hx]
    · obtain ⟨zs, hz, rfl⟩ := map_eq_ok_iff.mp h
      rw [List.filter_cons, List.filter_cons, ih hz]

theorem map_filter_removeAll {err : ε} (hp : ∀ x, p x = true → q x = true) (xs : List α) :
    (removeAll p err xs).map (List.filter q) = removeAll p err (xs.filter q) := by
  have hany : (xs.filter q).any p = xs.any p := by
    rw [List.any_filter]
    congr 1
    funext x
    cases hx : p x with
    | false => simp
    | true => simp [hp x hx]
  unfold removeAll
  rw [hany]
  split
  · simp only [Except.map, Except.ok.injEq, List.filter_filter]
    congr 1
    funext x
    exact Bool.and_comm _ _
  · rfl

theorem filter_removeAll {err : ε} (hp : ∀ x, p x = true → q x = false)
    (h : removeAll p err xs = .ok ys) : ys.filter q = xs.filter q := by
  unfold removeAll at h
  split at h
  · cases h
    rw [List.filter_filter]
    congr 1
    funext x
    cases hx : p x with
    | false => simp
    | true => simp [hp x hx]
  · cases h

end filter

/-! ## Changes of different entries -/

section comm

variable {p q : α → Bool} {v : α}

theorem map_replaceFirst_upsert {f : α → Except ε α} {new : Except ε α}
    (hpq : ∀ x, p x = true → q x = false) (hv : p v = false)
    (hf : ∀ x y, p x = true → f x = .ok y → q y = false)
    (hn : ∀ y, new = .ok y → q y = false) (xs : List α) :
    (upsert p f new xs).map (replaceFirst q v) = upsert p f new (replaceFirst q v xs) := by
  induction xs with
  | nil =>
    rw [upsert, map_map]
    cases hnew : new with
    | error e => rfl
    | ok y => simp [Except.map, replaceFirst, upsert, hn y hnew]
  | cons x xs ih =>
    cases hx : p x with
    | true =>
      simp only [upsert, replaceFirst, hx, hpq x hx, if_true, Bool.false_eq_true, if_false, map_map]
      cases hfx : f x with
      | error e => rfl
      | ok y => simp [Except.map, replaceFirst, hf x y hx hfx]
    | false =>
      cases hq : q x with
      | true =>
        simp only [upsert, replaceFirst, hx, hq, hv, if_true, Bool.false_eq_true, if_false, map_map]
        congr 1
        funext ys
        simp [replaceFirst, hq]
      | false =>
        simp only [upsert, replaceFirst, hx, hq, Bool.false_eq_true, if_false, map_map, ← ih]
        congr 1
        funext ys
        simp [replaceFirst, hq]

theorem map_replaceFirst_removeAll {err : ε} (hpq : ∀ x, p x = true → q x = false)
    (hv : p v = false) (xs : List α) :
    (removeAll p err xs).map (replaceFirst q v) = removeAll p err (replaceFirst q v xs) := by
  have hqp : ∀ x, q x = true → p x = false := by
    intro x hx
    cases hp : p x with
    | false => rfl
    | true => rw [hpq x hp] at hx; cases hx
  have hany : (replaceFirst q v xs).any p = xs.any p := by
    induction xs with
    | nil => rfl
    | cons x xs ih =>
      by_cases hq : q x = true
      · simp [replaceFirst, hq, hv, hqp x hq]
      · simp [replaceFirst, hq, ih]
  have hfilter : (replaceFirst q v xs).filter (fun x => !p x) =
      replaceFirst q v (xs.filter fun x => !p x) := by
    clear hany
    induction xs with
    | nil => rfl
    | cons x xs ih =>
      by_cases hq : q x = true
      · simp [replaceFirst, hq, hv, hqp x hq]
      · by_cases hp : p x = true
        · simp [replaceFirst, hq, hp, ih]
        · simp [replaceFirst, hq, hp, ih]
  unfold removeAll
  rw [hany]
  split
  · simp only [Except.map, hfilter]
  · rfl

end comm

end Keyed
