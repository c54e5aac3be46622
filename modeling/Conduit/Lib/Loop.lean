import Mathlib.Logic.Basic
import Mathlib.Order.Defs.PartialOrder

/-!
# Loops that may run for ever

A loop is its body: from a state it goes round again with another one, or it is done. `Loop.run`
runs it for a number of rounds. A loop terminates from a state if some number of rounds is enough.

- `Loop.Keeps`: an invariant of the body, a measure that every round makes smaller, and what holds
  of the result.
- `Loop.Keeps.post`: what holds of a result, however it was reached.
- `Loop.Keeps.returns`: the loop terminates, and more rounds give the same result.
-/

namespace Loop

variable {σ ρ : Type}

inductive Next (σ ρ : Type) where
  | again (s : σ)
  | done (r : ρ)

/-- The result, if the loop is done within the number of rounds. -/
def run (body : σ → Next σ ρ) : Nat → σ → Option ρ
  | 0, _ => none
  | n + 1, s =>
    match body s with
    | .again s' => run body n s'
    | .done r => some r

variable {body : σ → Next σ ρ}

theorem run_again {n : Nat} {s s' : σ} (h : body s = .again s') :
    run body (n + 1) s = run body n s' := by
  simp only [run, h]

theorem run_done {n : Nat} {s : σ} {r : ρ} (h : body s = .done r) :
    run body (n + 1) s = some r := by
  simp only [run, h]

/-- Every round keeps `Inv` and makes `m` smaller; a result has `Post`. -/
structure Keeps (body : σ → Next σ ρ) (Inv : σ → Prop) (m : σ → Nat) (Post : ρ → Prop) : Prop where
  again : ∀ s s', Inv s → body s = .again s' → Inv s' ∧ m s' < m s
  done : ∀ s r, Inv s → body s = .done r → Post r

variable {Inv : σ → Prop} {m : σ → Nat} {Post : ρ → Prop}

theorem Keeps.post (h : Keeps body Inv m Post) {n : Nat} {s : σ} {r : ρ} (hs : Inv s)
    (hr : run body n s = some r) : Post r := by
  induction n generalizing s with
  | zero => cases hr
  | succ n ih =>
    cases hb : body s with
    | again s' =>
      rw [run_again hb] at hr
      exact ih (h.again s s' hs hb).1 hr
    | done =>
      rw [run_done hb] at hr
      cases hr
      exact h.done s r hs hb

theorem Keeps.returns (h : Keeps body Inv m Post) {s : σ} (hs : Inv s) :
    ∃ r, ∀ n, m s < n → run body n s = some r := by
  induction hm : m s using Nat.strongRecOn generalizing s with
  | ind k ih =>
    cases hb : body s with
    | again s' =>
      obtain ⟨hs', hlt⟩ := h.again s s' hs hb
      obtain ⟨r, hr⟩ := ih (m s') (hm ▸ hlt) hs' rfl
      refine ⟨r, fun n hn => ?_⟩
      obtain ⟨n, rfl⟩ := Nat.exists_eq_succ_of_ne_zero (Nat.ne_zero_of_lt hn)
      rw [run_again hb]
      exact hr n (by omega)
    | done r =>
      refine ⟨r, fun n hn => ?_⟩
      obtain ⟨n, rfl⟩ := Nat.exists_eq_succ_of_ne_zero (Nat.ne_zero_of_lt hn)
      exact run_done hb

end Loop
