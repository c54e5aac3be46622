import Conduit.Lib.Keyed

/-!
# Overlays of keyed lists

A patch is a list of entries. Each entry is for one key: it removes the elements of that key, or it
updates the first one, or it adds one. Patches can be applied to a list (`run`), and they can be
accumulated into one patch (`accAll`), which keeps the removals as markers.

Accumulating two patches and applying the result is not the same as applying one after the other.
`Composable` says when it is.

- `run_filter`, `run_map_filter`, `run_map_replaceFirst`: entries of other keys.
- `Composable.step`: one entry of the second patch.
- `Composable.run_accAll`: the whole second patch.
-/

namespace Keyed

/-- The entries `β` of patches for lists of `α`. -/
structure Overlay (α β κ ε : Type) where
  key : α → κ
  /-- The key that an entry is for. -/
  sel : β → κ
  removes : β → Bool
  /-- The element after an update. -/
  upd : β → α → Except ε α
  /-- The element that an entry adds. -/
  new : β → Except ε α
  /-- The error of a removal that finds nothing. -/
  missing : β → ε
  /-- `join x e`: the entry of an accumulated patch, with a later entry. -/
  join : β → β → Except ε β
  /-- The first entry of its key in an accumulated patch. -/
  start : β → Except ε β
  /-- The removal that an accumulated patch keeps. -/
  marker : β → β

namespace Overlay

variable {α β κ ε : Type} [DecidableEq κ] (O : Overlay α β κ ε)

/-- Apply one entry. -/
def act (xs : List α) (e : β) : Except ε (List α) :=
  if O.removes e then removeAll (fun a => O.key a == O.sel e) (O.missing e) xs
  else upsert (fun a => O.key a == O.sel e) (O.upd e) (O.new e) xs

/-- Apply a patch. -/
def run (xs : List α) (es : List β) : Except ε (List α) := es.foldlM O.act xs

/-- Accumulate one entry. -/
def acc (p : List β) (e : β) : Except ε (List β) :=
  if O.removes e then .ok (p.filter (fun x => O.sel x != O.sel e) ++ [O.marker e])
  else upsert (fun x => O.sel x == O.sel e) (O.join · e) (O.start e) p

/-- Accumulate a patch. -/
def accAll (p es : List β) : Except ε (List β) := es.foldlM O.acc p

/-- The operations keep to their keys. -/
structure Lawful : Prop where
  upd_key : ∀ {e a a'}, O.upd e a = .ok a' → O.key a = O.sel e → O.key a' = O.sel e
  new_key : ∀ {e a}, O.new e = .ok a → O.key a = O.sel e
  join_sel : ∀ {x e x'}, O.join x e = .ok x' → O.sel x = O.sel e → O.sel x' = O.sel e
  join_removes : ∀ {x e x'}, O.join x e = .ok x' → O.removes x' = false
  start_sel : ∀ {e e'}, O.start e = .ok e' → O.sel e' = O.sel e
  start_removes : ∀ {e e'}, O.start e = .ok e' → O.removes e' = false
  start_upd : ∀ {e e'}, O.start e = .ok e' → O.upd e' = O.upd e
  start_new : ∀ {e e'}, O.start e = .ok e' → O.new e' = O.new e
  marker_sel : ∀ e, O.sel (O.marker e) = O.sel e
  marker_removes : ∀ {e}, O.removes e = true → O.removes (O.marker e) = true

variable {O}

/-- Loops with the same steps, from every value that `I` holds of, are the same. -/
theorem foldlM_congr {γ : Type} {f g : γ → β → Except ε γ} {I : γ → Prop} {es : List β} {s : γ}
    (heq : ∀ s, I s → ∀ e ∈ es, f s e = g s e)
    (hkeep : ∀ s s', I s → ∀ e ∈ es, g s e = .ok s' → I s') (hs : I s) :
    es.foldlM f s = es.foldlM g s ∧ ∀ s', es.foldlM g s = .ok s' → I s' := by
  induction es generalizing s with
  | nil =>
    refine ⟨rfl, ?_⟩
    rintro _ ⟨⟩
    exact hs
  | cons e es ih =>
    rw [List.foldlM_cons, List.foldlM_cons, heq s hs e List.mem_cons_self]
    cases hg : g s e with
    | error err => exact ⟨rfl, by rintro _ ⟨⟩⟩
    | ok s₁ =>
      exact ih (fun s hs e he => heq s hs e (List.mem_cons_of_mem _ he))
        (fun s s' hs e he => hkeep s s' hs e (List.mem_cons_of_mem _ he))
        (hkeep s s₁ hs e List.mem_cons_self hg)

/-! ## Entries of other keys -/

section run

variable {xs ys : List α} {e : β} {es : List β} {Q : κ → Bool}

theorem run_cons : O.run xs (e :: es) = (O.act xs e).bind (O.run · es) := rfl

theorem run_append {es' : List β} : O.run xs (es ++ es') = (O.run xs es).bind (O.run · es') := by
  unfold run
  rw [List.foldlM_append]
  rfl

theorem act_filter (hO : O.Lawful) (hQ : Q (O.sel e) = false) (h : O.act xs e = .ok ys) :
    ys.filter (fun a => Q (O.key a)) = xs.filter fun a => Q (O.key a) := by
  have hsel : ∀ a, (O.key a == O.sel e) = true → Q (O.key a) = false := by
    intro a ha
    rw [eq_of_beq ha, hQ]
  unfold act at h
  split at h
  · exact filter_removeAll hsel h
  · refine filter_upsert hsel ?_ ?_ h
    · intro a a' ha hupd
      rw [hO.upd_key hupd (eq_of_beq ha), hQ]
    · intro a hnew
      rw [hO.new_key hnew, hQ]

theorem act_map_filter (hO : O.Lawful) (hQ : Q (O.sel e) = true) (xs : List α) :
    (O.act xs e).map (List.filter fun a => Q (O.key a)) =
      O.act (xs.filter fun a => Q (O.key a)) e := by
  have hsel : ∀ a, (O.key a == O.sel e) = true → Q (O.key a) = true := by
    intro a ha
    rw [eq_of_beq ha, hQ]
  unfold act
  split
  · exact map_filter_removeAll hsel xs
  · refine map_filter_upsert hsel ?_ ?_ xs
    · intro a a' ha hupd
      rw [hO.upd_key hupd (eq_of_beq ha), hQ]
    · intro a hnew
      rw [hO.new_key hnew, hQ]

theorem act_map_replaceFirst (hO : O.Lawful) {v : α} (hv : O.key v ≠ O.sel e) (xs : List α) :
    (O.act xs e).map (replaceFirst (fun a => O.key a == O.key v) v) =
      O.act (replaceFirst (fun a => O.key a == O.key v) v xs) e := by
  have hsel : ∀ a, (O.key a == O.sel e) = true → (O.key a == O.key v) = false := by
    intro a ha
    rw [eq_of_beq ha]
    simpa using hv.symm
  have hkey : (O.key v == O.sel e) = false := by simpa using hv
  unfold act
  split
  · exact map_replaceFirst_removeAll hsel hkey xs
  · refine map_replaceFirst_upsert hsel hkey ?_ ?_ xs
    · intro a a' ha hupd
      rw [hO.upd_key hupd (eq_of_beq ha)]
      simpa using hv.symm
    · intro a hnew
      rw [hO.new_key hnew]
      simpa using hv.symm

theorem run_filter (hO : O.Lawful) (hQ : ∀ e ∈ es, Q (O.sel e) = false) (h : O.run xs es = .ok ys) :
    ys.filter (fun a => Q (O.key a)) = xs.filter fun a => Q (O.key a) := by
  induction es generalizing xs with
  | nil => cases h; rfl
  | cons e es ih =>
    rw [run_cons, bind_eq_ok] at h
    obtain ⟨zs, hact, hrun⟩ := h
    rw [ih (fun e' he' => hQ e' (List.mem_cons_of_mem _ he')) hrun]
    exact act_filter hO (hQ e List.mem_cons_self) hact

/-- What commutes with every entry commutes with the patch. -/
theorem run_map {g : List α → List α}
    (h : ∀ e ∈ es, ∀ xs, (O.act xs e).map g = O.act (g xs) e) (xs : List α) :
    (O.run xs es).map g = O.run (g xs) es := by
  induction es generalizing xs with
  | nil => rfl
  | cons e es ih =>
    rw [run_cons, run_cons, map_bind, ← h e List.mem_cons_self]
    cases O.act xs e with
    | error err => rfl
    | ok zs => exact ih (fun e' he' => h e' (List.mem_cons_of_mem _ he')) zs

/-- Entries do not look at the elements of other keys. -/
theorem run_map_filter (hO : O.Lawful) (hQ : ∀ e ∈ es, Q (O.sel e) = true) (xs : List α) :
    (O.run xs es).map (List.filter fun a => Q (O.key a)) =
      O.run (xs.filter fun a => Q (O.key a)) es :=
  run_map (fun e he => act_map_filter hO (hQ e he)) xs

/-- A patch without the entries of some keys, on the elements of the other keys. -/
theorem run_filter_filter (hO : O.Lawful) (h : O.run xs es = .ok ys) :
    O.run (xs.filter fun a => Q (O.key a)) (es.filter fun e => Q (O.sel e)) =
      .ok (ys.filter fun a => Q (O.key a)) := by
  induction es generalizing xs with
  | nil => cases h; rfl
  | cons e es ih =>
    rw [run_cons, bind_eq_ok] at h
    obtain ⟨zs, hact, hrun⟩ := h
    cases hQ : Q (O.sel e) with
    | true =>
      rw [List.filter_cons, if_pos hQ, run_cons, ← act_map_filter hO hQ, hact]
      exact ih hrun
    | false =>
      rw [List.filter_cons, hQ, if_neg Bool.false_ne_true, ← act_filter hO hQ hact]
      exact ih hrun

theorem run_map_replaceFirst (hO : O.Lawful) {v : α} (hv : ∀ e ∈ es, O.key v ≠ O.sel e)
    (xs : List α) :
    (O.run xs es).map (replaceFirst (fun a => O.key a == O.key v) v) =
      O.run (replaceFirst (fun a => O.key a == O.key v) v xs) es :=
  run_map (fun e he => act_map_replaceFirst hO (hv e he)) xs

theorem act_forall {P : α → Prop} (hupd : ∀ a a', P a → O.key a = O.sel e → O.upd e a = .ok a' → P a')
    (hnew : ∀ a, O.new e = .ok a → P a) (hxs : ∀ a ∈ xs, P a) (h : O.act xs e = .ok ys) :
    ∀ a ∈ ys, P a := by
  unfold act at h
  split at h
  · rw [removeAll] at h
    split at h
    · cases h
      exact fun a ha => hxs a (List.mem_filter.mp ha).1
    · cases h
  · exact forall_of_upsert hxs (fun a a' ha hk => hupd a a' ha (eq_of_beq hk)) hnew h

end run

/-! ## Composing patches -/

/-- `fits a x es`: on the element `a` of a key (`none`: there is none), the first entry `x` of that
key can be joined with the later entries `es`, one after the other. -/
structure Fits (O : Overlay α β κ ε) (fits : Option α → β → List β → Prop) : Prop where
  join_upd : ∀ {a x e es a₁ a₂}, fits (some a) x (e :: es) → O.key a = O.sel e → O.sel x = O.sel e →
    O.upd x a = .ok a₁ → O.upd e a₁ = .ok a₂ → ∃ x', O.join x e = .ok x' ∧ O.upd x' a = .ok a₂
  join_new : ∀ {x e es a₁ a₂}, fits none x (e :: es) → O.sel x = O.sel e → O.new x = .ok a₁ →
    O.upd e a₁ = .ok a₂ → ∃ x', O.join x e = .ok x' ∧ O.new x' = .ok a₂
  next : ∀ {a x e es x'}, fits a x (e :: es) → O.join x e = .ok x' → fits a x' es
  start : ∀ {a e e' es}, fits a e es → O.start e = .ok e' → fits a e' es

variable (O) in
/-- The entries of a key that do not remove. -/
def updates (k : κ) (es : List β) : List β := es.filter fun e => O.sel e == k && !O.removes e

variable (O) in
/-- Patch `q` can be accumulated onto `p`, for lists that start from `xs`. -/
structure Composable (fits : Option α → β → List β → Prop) (xs : List α) (p q : List β) : Prop where
  /-- What `q` removes is in the list, and not only in what `p` adds. -/
  known : ∀ e ∈ q, O.removes e = true → ∃ a ∈ xs, O.key a = O.sel e
  /-- `q` does not come back to what it has removed. -/
  once : q.Pairwise fun e e' => O.sel e = O.sel e' → O.removes e = false
  /-- `p` has at most one entry for what `q` updates. -/
  single : ∀ e ∈ q, O.removes e = false →
    (p.filter fun x => O.sel x == O.sel e) = [] ∨ ∃ x, (p.filter fun x => O.sel x == O.sel e) = [x]
  /-- `q` does not update what `p` removes. -/
  kept : ∀ e ∈ q, O.removes e = false → ∀ x ∈ p, O.sel x = O.sel e → O.removes x = false
  /-- The first entry of a key can stand alone. -/
  starts : ∀ l e r, q = l ++ e :: r → O.removes e = false → (∀ x ∈ p ++ l, O.sel x ≠ O.sel e) →
    ∃ e', O.start e = .ok e'
  /-- The entries of a key fit. -/
  fit : ∀ k x es, O.updates k q ≠ [] → O.updates k (p ++ q) = x :: es →
    fits (xs.find? fun a => O.key a == k) x es

section step

variable {xs ys : List α} {p q : List β} {e x : β}

theorem accAll_cons : O.accAll p (e :: q) = (O.acc p e).bind (O.accAll · q) := rfl

theorem updates_append (k : κ) : O.updates k (p ++ q) = O.updates k p ++ O.updates k q :=
  List.filter_append ..

theorem updates_cons_self (h : O.removes e = false) :
    O.updates (O.sel e) (e :: q) = e :: O.updates (O.sel e) q := by
  simp [updates, h]

variable {k : κ} {es : List β}

theorem updates_of_filter (h : (p.filter fun x => O.sel x == k) = es) :
    O.updates k p = es.filter fun x => !O.removes x := by
  rw [← h, List.filter_filter]
  refine List.filter_congr fun x _ => ?_
  exact Bool.and_comm _ _

variable {p' : List β}

theorem acc_forall {P : β → Prop} (hmarker : O.removes e = true → P (O.marker e))
    (hjoin : ∀ x x', P x → O.sel x = O.sel e → O.join x e = .ok x' → P x')
    (hstart : ∀ e', O.start e = .ok e' → P e') (hp : ∀ x ∈ p, P x) (h : O.acc p e = .ok p') :
    ∀ x ∈ p', P x := by
  unfold acc at h
  split at h
  · rename_i hrem
    cases h
    refine List.forall_mem_append.mpr ⟨fun x hx => hp x (List.mem_filter.mp hx).1, ?_⟩
    simpa using hmarker hrem
  · exact forall_of_upsert hp (fun x x' hx hk => hjoin x x' hx (eq_of_beq hk)) hstart h

theorem filter_acc_other (hO : O.Lawful) (hk : O.sel e ≠ k) (h : O.acc p e = .ok p') :
    p'.filter (fun x => O.sel x == k) = p.filter fun x => O.sel x == k := by
  unfold acc at h
  split at h
  · cases h
    have hm : (O.sel (O.marker e) == k) = false := by
      rw [hO.marker_sel]
      simpa using hk
    rw [List.filter_append, List.filter_cons, hm, List.filter_filter]
    simp only [Bool.false_eq_true, if_false, List.filter_nil, List.append_nil]
    refine List.filter_congr fun x _ => ?_
    by_cases hx : O.sel x = k
    · simp [hx, hk.symm]
    · simp [hx]
  · refine filter_upsert (p := fun x => O.sel x == O.sel e) ?_ ?_ ?_ h
    · intro x hx
      rw [eq_of_beq hx]
      simpa using hk
    · intro x x' hx hjoin
      rw [hO.join_sel hjoin (eq_of_beq hx)]
      simpa using hk
    · intro x' hstart
      rw [hO.start_sel hstart]
      simpa using hk

variable {zs : List α}

/-- Accumulating a removal: the entries of its key make way for the marker. -/
theorem acc_remove (hO : O.Lawful) (hrem : O.removes e = true)
    (hknown : ∃ a ∈ xs, O.key a = O.sel e) (hp : O.run xs p = .ok ys) (he : O.act ys e = .ok zs) :
    ∃ p', O.acc p e = .ok p' ∧ O.run xs p' = .ok zs := by
  refine ⟨_, by rw [acc, if_pos hrem], ?_⟩
  -- the other entries give the elements of the other keys, as in `ys`
  have hothers : ∃ us, O.run xs (p.filter fun x => O.sel x != O.sel e) = .ok us ∧
      us.filter (fun a => O.key a != O.sel e) = ys.filter fun a => O.key a != O.sel e := by
    have hrun := run_filter_filter (Q := fun k => k != O.sel e) hO hp
    rw [← run_map_filter (Q := fun k => k != O.sel e) hO
      (fun x hx => (List.mem_filter.mp hx).2)] at hrun
    exact map_eq_ok_iff.mp hrun
  obtain ⟨us, hus, hfilter⟩ := hothers
  -- the elements of the key are still those of `xs`
  have hkeep : us.filter (fun a => O.key a == O.sel e) = xs.filter fun a => O.key a == O.sel e := by
    refine run_filter (Q := fun k => k == O.sel e) hO ?_ hus
    intro x hx
    have hne := (List.mem_filter.mp hx).2
    simpa using hne
  have hany : us.any (fun a => O.key a == O.sel e) = true := by
    obtain ⟨a, ha, hkey⟩ := hknown
    have hmem : a ∈ us.filter fun a => O.key a == O.sel e := by
      rw [hkeep]
      exact List.mem_filter.mpr ⟨ha, by simpa using hkey⟩
    exact List.any_eq_true.mpr ⟨a, (List.mem_filter.mp hmem).1, (List.mem_filter.mp hmem).2⟩
  rw [act, if_pos hrem, removeAll] at he
  split at he
  · cases he
    rw [run_append, hus]
    simp only [Except.bind, run_cons, act, hO.marker_removes hrem, if_true, hO.marker_sel, removeAll,
      hany]
    exact congrArg _ hfilter
  · cases he

/-- Accumulating the first entry of a key. -/
theorem acc_start (hO : O.Lawful) {e' : β} (hrem : O.removes e = false)
    (hnone : (p.filter fun x => O.sel x == O.sel e) = []) (hstart : O.start e = .ok e')
    (hp : O.run xs p = .ok ys) (he : O.act ys e = .ok zs) :
    O.acc p e = .ok (p ++ [e']) ∧ O.run xs (p ++ [e']) = .ok zs := by
  constructor
  · have hfind : (p.find? fun x => O.sel x == O.sel e) = none := by
      rw [← List.head?_filter, hnone]
      rfl
    rw [acc, hrem, if_neg Bool.false_ne_true, upsert_of_find_none hfind, hstart]
    rfl
  · rw [run_append, hp]
    rw [act, hrem, if_neg Bool.false_ne_true] at he
    simp only [Except.bind, run_cons, act, hO.start_removes hstart, Bool.false_eq_true, if_false,
      hO.start_sel hstart, hO.start_upd hstart, hO.start_new hstart, he]
    rfl

theorem act_of_find_some {a : α} (hrem : O.removes e = false)
    (h : (xs.find? fun a => O.key a == O.sel e) = some a) :
    O.act xs e = (O.upd e a).map (replaceFirst (fun a => O.key a == O.sel e) · xs) := by
  rw [act, hrem, if_neg Bool.false_ne_true, upsert_of_find_some h]

theorem act_of_find_none (hrem : O.removes e = false)
    (h : (xs.find? fun a => O.key a == O.sel e) = none) :
    O.act xs e = (O.new e).map (xs ++ [·]) := by
  rw [act, hrem, if_neg Bool.false_ne_true, upsert_of_find_none h]

/-- Entries of other keys leave the first element of a key in place. -/
theorem find_run (hO : O.Lawful) (hes : ∀ e ∈ es, O.sel e ≠ k) (h : O.run xs es = .ok ys) :
    (ys.find? fun a => O.key a == k) = xs.find? fun a => O.key a == k := by
  rw [← List.head?_filter, ← List.head?_filter]
  refine congrArg _ (run_filter (Q := fun k' => k' == k) hO ?_ h)
  intro e he
  simpa using hes e he

variable {fits : Option α → β → List β → Prop}

/-- An entry `e` after the entry `x` of the same key, on one element, is their join. -/
theorem act_join (hO : O.Lawful) (hfits : O.Fits fits) (hx : O.removes x = false)
    (hsel : O.sel x = O.sel e) (hfit : fits (xs.find? fun a => O.key a == O.sel e) x (e :: es))
    (hact : O.act xs x = .ok ys)
    (he : ∀ a, (ys.find? fun a => O.key a == O.sel e) = some a → ∃ a', O.upd e a = .ok a') :
    ∃ x' a₁ a₂, O.join x e = .ok x' ∧ (ys.find? fun a => O.key a == O.sel e) = some a₁ ∧
      O.upd e a₁ = .ok a₂ ∧ O.key a₂ = O.sel e ∧
      O.act xs x' = .ok (replaceFirst (fun a => O.key a == O.sel e) a₂ ys) := by
  cases hxs : xs.find? fun a => O.key a == O.sel e with
  | some a =>
    rw [hxs] at hfit
    have hkey : O.key a = O.sel e := by simpa using List.find?_some hxs
    rw [act_of_find_some hx (hsel ▸ hxs), map_eq_ok_iff, hsel] at hact
    obtain ⟨a₁, hupdx, rfl⟩ := hact
    have hkey₁ : O.key a₁ = O.sel e := hsel ▸ hO.upd_key hupdx (hkey.trans hsel.symm)
    have hfound := find_replaceFirst (p := fun a => O.key a == O.sel e) (v := a₁)
      (by simpa using hkey₁) hxs
    obtain ⟨a₂, hupd⟩ := he a₁ hfound
    obtain ⟨x', hjoin, hupd'⟩ := hfits.join_upd hfit hkey hsel hupdx hupd
    refine ⟨x', a₁, a₂, hjoin, hfound, hupd, hO.upd_key hupd hkey₁, ?_⟩
    have hsel' : O.sel x' = O.sel e := hO.join_sel hjoin hsel
    rw [act_of_find_some (hO.join_removes hjoin) (hsel' ▸ hxs), hupd', hsel']
    exact congrArg _ (replaceFirst_replaceFirst (by simpa using hkey₁) xs).symm
  | none =>
    rw [hxs] at hfit
    rw [act_of_find_none hx (hsel ▸ hxs), map_eq_ok_iff] at hact
    obtain ⟨a₁, hnew, rfl⟩ := hact
    have hkey₁ : O.key a₁ = O.sel e := hsel ▸ hO.new_key hnew
    have hfound : ((xs ++ [a₁]).find? fun a => O.key a == O.sel e) = some a₁ := by
      rw [List.find?_append, hxs]
      simp [hkey₁]
    obtain ⟨a₂, hupd⟩ := he a₁ hfound
    obtain ⟨x', hjoin, hnew'⟩ := hfits.join_new hfit hsel hnew hupd
    refine ⟨x', a₁, a₂, hjoin, hfound, hupd, hO.upd_key hupd hkey₁, ?_⟩
    have hsel' : O.sel x' = O.sel e := hO.join_sel hjoin hsel
    rw [act_of_find_none (hO.join_removes hjoin) (hsel' ▸ hxs), hnew']
    have hno : ∀ y ∈ xs, (O.key y == O.sel e) = false := by
      simpa using List.find?_eq_none.mp hxs
    exact congrArg _ (replaceFirst_append hno (by simpa using hkey₁)).symm

/-- Accumulating an entry onto the only entry of its key. -/
theorem acc_join (hO : O.Lawful) (hfits : O.Fits fits) (hrem : O.removes e = false)
    (hone : (p.filter fun x => O.sel x == O.sel e) = [x]) (hx : O.removes x = false)
    (hfit : fits (xs.find? fun a => O.key a == O.sel e) x (e :: es)) (hp : O.run xs p = .ok ys)
    (he : O.act ys e = .ok zs) :
    ∃ p', O.acc p e = .ok p' ∧ O.run xs p' = .ok zs := by
  obtain ⟨l, r, rfl, hl, hsel, hr⟩ := List.filter_eq_cons_iff.mp hone
  have hl : ∀ y ∈ l, (O.sel y == O.sel e) = false := fun y hy => by simpa using hl y hy
  have hr : ∀ y ∈ r, (O.sel y == O.sel e) = false := fun y hy => by
    simpa using List.filter_eq_nil_iff.mp hr y hy
  rw [run_append, bind_eq_ok] at hp
  obtain ⟨cs, hcs, hp⟩ := hp
  rw [run_cons, bind_eq_ok] at hp
  obtain ⟨ds, hds, hys⟩ := hp
  -- neither `l` nor `r` touches the elements of the key
  have hcsfind : (cs.find? fun a => O.key a == O.sel e) = xs.find? fun a => O.key a == O.sel e :=
    find_run hO (fun y hy => by simpa using hl y hy) hcs
  have hysfind : (ys.find? fun a => O.key a == O.sel e) = ds.find? fun a => O.key a == O.sel e :=
    find_run hO (fun y hy => by simpa using hr y hy) hys
  have hupds : ∀ a, (ds.find? fun a => O.key a == O.sel e) = some a → ∃ a', O.upd e a = .ok a' := by
    intro a ha
    rw [act_of_find_some hrem (hysfind.trans ha), map_eq_ok_iff] at he
    obtain ⟨a', hupd, -⟩ := he
    exact ⟨a', hupd⟩
  obtain ⟨x', a₁, a₂, hjoin, hfound, hupd, hkey, hact⟩ :=
    act_join hO hfits hx (eq_of_beq hsel) (hcsfind ▸ hfit) hds hupds
  refine ⟨l ++ x' :: r, ?_, ?_⟩
  · have hfirst : ((l ++ x :: r).find? fun y => O.sel y == O.sel e) = some x := by
      rw [← List.head?_filter, hone]
      rfl
    rw [acc, hrem, if_neg Bool.false_ne_true, upsert_of_find_some hfirst, hjoin]
    exact congrArg _ (replaceFirst_append hl hsel)
  · rw [act_of_find_some hrem (hysfind.trans hfound), hupd] at he
    have hne : ∀ y ∈ r, O.key a₂ ≠ O.sel y := by
      intro y hy heq
      have hy' := hr y hy
      rw [← heq, hkey, beq_self_eq_true] at hy'
      cases hy'
    have hrun := run_map_replaceFirst hO hne ds
    rw [hys, hkey] at hrun
    rw [run_append, hcs]
    simp only [Except.bind, run_cons, hact]
    exact hrun.symm.trans he

/-- The entry of its own key that an accumulated patch has. -/
inductive Held (O : Overlay α β κ ε) (p : List β) (e : β) : β → Prop
  | marker : O.removes e = true → Held O p e (O.marker e)
  | start {e'} : O.removes e = false → (p.filter fun x => O.sel x == O.sel e) = [] →
    O.start e = .ok e' → Held O p e e'
  | join {x x'} : O.removes e = false → (p.filter fun x => O.sel x == O.sel e) = [x] →
    O.removes x = false → O.join x e = .ok x' → Held O p e x'

theorem Held.sel {y : β} (hO : O.Lawful) (h : Held O p e y) : O.sel y = O.sel e := by
  cases h with
  | marker _ => exact hO.marker_sel e
  | start _ _ hs => exact hO.start_sel hs
  | join _ hone _ hj =>
    refine hO.join_sel hj ?_
    have hmem := hone ▸ List.mem_cons_self
    simpa using (List.mem_filter.mp hmem).2

/-- The key of an accumulated entry has one entry then. -/
theorem Composable.held (hO : O.Lawful) (hc : O.Composable fits xs p (e :: q))
    (hacc : O.acc p e = .ok p') :
    ∃ y, Held O p e y ∧ (p'.filter fun x => O.sel x == O.sel e) = [y] := by
  cases hrem : O.removes e with
  | true =>
    rw [Overlay.acc, if_pos hrem] at hacc
    cases hacc
    refine ⟨O.marker e, .marker hrem, ?_⟩
    rw [List.filter_append, List.filter_filter]
    simp [hO.marker_sel]
  | false =>
    rw [Overlay.acc, hrem, if_neg Bool.false_ne_true] at hacc
    rcases hc.single e List.mem_cons_self hrem with hnone | ⟨x, hone⟩
    · rw [upsert_of_find_none (by rw [← List.head?_filter, hnone]; rfl), map_eq_ok_iff] at hacc
      obtain ⟨e', hstart, rfl⟩ := hacc
      refine ⟨e', .start hrem hnone hstart, ?_⟩
      rw [List.filter_append, hnone]
      simp [hO.start_sel hstart]
    · rw [upsert_of_find_some (by rw [← List.head?_filter, hone]; rfl), map_eq_ok_iff] at hacc
      obtain ⟨x', hjoin, rfl⟩ := hacc
      obtain ⟨l, r, rfl, hl, hsel, hr⟩ := List.filter_eq_cons_iff.mp hone
      have hx := hc.kept e List.mem_cons_self hrem x (by simp) (eq_of_beq hsel)
      have hsel' : O.sel x' = O.sel e := hO.join_sel hjoin (eq_of_beq hsel)
      refine ⟨x', .join hrem hone hx hjoin, ?_⟩
      rw [replaceFirst_append (p := fun y => O.sel y == O.sel e) (by simpa using hl) hsel,
        List.filter_append, List.filter_cons, hr, List.filter_eq_nil_iff.mpr hl]
      simp [hsel']

/-- **One entry of the second patch.** It can be accumulated, with the effect that it has on the
list. -/
theorem Composable.acc (hO : O.Lawful) (hfits : O.Fits fits) (hc : O.Composable fits xs p (e :: q))
    (hp : O.run xs p = .ok ys) (he : O.act ys e = .ok zs) :
    ∃ p', O.acc p e = .ok p' ∧ O.run xs p' = .ok zs := by
  cases hrem : O.removes e with
  | true => exact acc_remove hO hrem (hc.known e List.mem_cons_self hrem) hp he
  | false =>
    rcases hc.single e List.mem_cons_self hrem with hnone | ⟨x, hone⟩
    · have hnot : ∀ x ∈ p ++ [], O.sel x ≠ O.sel e := by
        intro x hx
        rw [List.append_nil] at hx
        simpa using List.filter_eq_nil_iff.mp hnone x hx
      obtain ⟨e', hstart⟩ := hc.starts [] e q rfl hrem hnot
      exact ⟨_, acc_start hO hrem hnone hstart hp he⟩
    · have hmem : x ∈ p.filter fun x => O.sel x == O.sel e := hone ▸ List.mem_cons_self
      have hsel : O.sel x = O.sel e := by simpa using (List.mem_filter.mp hmem).2
      have hx := hc.kept e List.mem_cons_self hrem x (List.mem_filter.mp hmem).1 hsel
      have hups : O.updates (O.sel e) (p ++ e :: q) = x :: e :: O.updates (O.sel e) q := by
        rw [updates_append, updates_of_filter hone, updates_cons_self hrem]
        simp [hx]
      have hne : O.updates (O.sel e) (e :: q) ≠ [] := by simp [updates_cons_self hrem]
      exact acc_join hO hfits hrem hone hx (hc.fit _ _ _ hne hups) hp he

/-- The rest of the second patch can be accumulated onto what the entry leaves. -/
theorem Composable.next (hO : O.Lawful) (hfits : O.Fits fits) (hc : O.Composable fits xs p (e :: q))
    (hacc : O.acc p e = .ok p') :
    O.Composable fits xs p' q := by
  obtain ⟨y, hy, hone⟩ := hc.held hO hacc
  obtain ⟨honce, honce'⟩ := List.pairwise_cons.mp hc.once
  -- the entries of the other keys are those of `p`
  have hother : ∀ k, O.sel e ≠ k →
      (p'.filter fun x => O.sel x == k) = p.filter fun x => O.sel x == k :=
    fun k hk => filter_acc_other hO hk hacc
  have hmem : y ∈ p' := (List.mem_filter.mp (hone ▸ List.mem_cons_self)).1
  -- an update of the same key comes after an update
  have hyrem : ∀ e' ∈ q, O.sel e = O.sel e' → O.removes y = false := by
    intro e' he' hsel
    have hrem := honce e' he' hsel
    cases hy with
    | marker h => rw [h] at hrem; cases hrem
    | start _ _ hs => exact hO.start_removes hs
    | join _ _ _ hj => exact hO.join_removes hj
  constructor
  · exact fun e' he' => hc.known e' (List.mem_cons_of_mem _ he')
  · exact honce'
  · intro e' he' hrem
    by_cases hsel : O.sel e = O.sel e'
    · rw [← hsel]
      exact .inr ⟨y, hone⟩
    · rw [hother _ hsel]
      exact hc.single e' (List.mem_cons_of_mem _ he') hrem
  · intro e' he' hrem x hx hxe
    by_cases hsel : O.sel e = O.sel e'
    · have hxy : x ∈ p'.filter fun x => O.sel x == O.sel e :=
        List.mem_filter.mpr ⟨hx, by simpa using hxe.trans hsel.symm⟩
      rw [hone, List.mem_singleton] at hxy
      exact hxy ▸ hyrem e' he' hsel
    · have hxp : x ∈ p'.filter fun x => O.sel x == O.sel e' :=
        List.mem_filter.mpr ⟨hx, by simpa using hxe⟩
      rw [hother _ hsel] at hxp
      exact hc.kept e' (List.mem_cons_of_mem _ he') hrem x (List.mem_filter.mp hxp).1 hxe
  · intro l e' r hq hrem hnot
    refine hc.starts (e :: l) e' r (by rw [hq]; rfl) hrem fun x hx => ?_
    have hne : O.sel e ≠ O.sel e' := by
      rw [← hy.sel hO]
      exact hnot y (List.mem_append_left _ hmem)
    rcases List.mem_append.mp hx with hx | hx
    · intro hxe
      have hxp : x ∈ p.filter fun x => O.sel x == O.sel e' :=
        List.mem_filter.mpr ⟨hx, by simpa using hxe⟩
      rw [← hother _ hne] at hxp
      exact hnot x (List.mem_append_left _ (List.mem_filter.mp hxp).1) hxe
    · rcases List.mem_cons.mp hx with rfl | hx
      · exact hne
      · exact hnot x (List.mem_append_right _ hx)
  · intro k x es hq hups
    by_cases hk : O.sel e = k
    · subst hk
      obtain ⟨e', he'⟩ := List.exists_mem_of_ne_nil _ hq
      obtain ⟨he'q, he'k⟩ := List.mem_filter.mp he'
      have hsel : O.sel e' = O.sel e := by
        simp only [Bool.and_eq_true, beq_iff_eq] at he'k
        exact he'k.1
      have hrem := honce e' he'q hsel.symm
      have hne : O.updates (O.sel e) (e :: q) ≠ [] := by simp [updates_cons_self hrem]
      have hy' : O.updates (O.sel e) p' = [y] := by
        rw [updates_of_filter hone]
        simp [hyrem e' he'q hsel.symm]
      rw [updates_append, hy'] at hups
      cases hups
      cases hy with
      | marker h => rw [h] at hrem; cases hrem
      | start _ hnone hs =>
        refine hfits.start (hc.fit _ e _ hne ?_) hs
        rw [updates_append, updates_of_filter hnone, updates_cons_self hrem]
        rfl
      | join _ hone' hxrem hj =>
        refine hfits.next (hc.fit _ _ _ hne ?_) hj
        rw [updates_append, updates_of_filter hone', updates_cons_self hrem]
        simp [hxrem]
    · have hskip : O.updates k (e :: q) = O.updates k q := by simp [updates, hk]
      refine hc.fit k x es (hskip ▸ hq) ?_
      rw [updates_append, hskip, updates_of_filter rfl, ← hother k hk, ← updates_of_filter rfl,
        ← updates_append, hups]

end step

variable {xs : List α} {q p : List β} {fits : Option α → β → List β → Prop}

/-- **Accumulated patches.** If `p` and then `q` can be applied, and `q` can be accumulated onto
`p`, then the accumulated patch can be applied, with the same result. -/
theorem Composable.run_accAll (hO : O.Lawful) (hfits : O.Fits fits) {ys zs : List α}
    (hc : O.Composable fits xs p q) (hp : O.run xs p = .ok ys) (hq : O.run ys q = .ok zs) :
    ∃ p', O.accAll p q = .ok p' ∧ O.run xs p' = .ok zs := by
  induction q generalizing p ys with
  | nil =>
    cases hq
    exact ⟨p, rfl, hp⟩
  | cons e q ih =>
    rw [run_cons, bind_eq_ok] at hq
    obtain ⟨us, he, hq⟩ := hq
    obtain ⟨p', hacc, hp'⟩ := hc.acc hO hfits hp he
    obtain ⟨p'', hacc', hrun⟩ := ih (hc.next hO hfits hacc) hp' hq
    refine ⟨p'', ?_, hrun⟩
    rw [accAll_cons, hacc]
    exact hacc'

variable {q' : List β}

/-- The rest of the second patch, after a part of it has been accumulated. -/
theorem Composable.rest (hO : O.Lawful) (hfits : O.Fits fits) {p' : List β}
    (hc : O.Composable fits xs p (q ++ q')) (hacc : O.accAll p q = .ok p') :
    O.Composable fits xs p' q' := by
  induction q generalizing p with
  | nil =>
    cases hacc
    exact hc
  | cons e q ih =>
    rw [accAll_cons, bind_eq_ok] at hacc
    obtain ⟨p₁, he, hacc⟩ := hacc
    exact ih (hc.next hO hfits he) hacc

theorem Composable.part (hfits : ∀ {a x es es'}, fits a x (es ++ es') → fits a x es)
    (hc : O.Composable fits xs p (q ++ q')) : O.Composable fits xs p q := by
  constructor
  · exact fun e he => hc.known e (List.mem_append_left _ he)
  · exact (List.pairwise_append.mp hc.once).1
  · exact fun e he => hc.single e (List.mem_append_left _ he)
  · exact fun e he => hc.kept e (List.mem_append_left _ he)
  · rintro l e r rfl
    exact hc.starts l e (r ++ q') (by rw [List.append_assoc]; rfl)
  · intro k x es hne hups
    refine hfits (hc.fit k x (es ++ O.updates k q') ?_ ?_)
    · rw [updates_append]
      exact List.append_ne_nil_of_left_ne_nil hne _
    · rw [← List.append_assoc, updates_append, hups]
      rfl

end Overlay

end Keyed
