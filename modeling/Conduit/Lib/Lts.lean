import Mathlib.Logic.Basic

/-!
# Transition systems

A transition system has a step function: an action takes a state to at most one state. Runs are
taken under a condition `C` on the steps, so a result about the runs that meet a condition and a
result about all runs (`Any`) have one form.

- `Lts`: the initial states and the step function.
- `Lts.Reach C`: the states at the end of a run whose steps all meet `C`.
- `Lts.Reach.inv`: an invariant of the initial states and of the steps holds on every run.
- `Lts.Reach.and`: an invariant of the runs is a condition of their steps.
- `Lts.exec`, `Lts.exists_exec`: run a list of actions.
- `Lts.record`: the system with a history variable; its runs are runs of the system.
-/

/-- A system: its states, its actions, its initial states, and the step of an action. -/
structure Lts where
  St : Type
  Act : Type
  init : St → Prop
  step : St → Act → Option St

namespace Lts

variable {L : Lts}

/-- The condition that every step meets. -/
def Any (_ : L.St) (_ : L.Act) : Prop := True

instance (s : L.St) (a : L.Act) : Decidable (Any s a) := .isTrue trivial

/-- The states of the runs whose steps all meet `C`. -/
inductive Reach (C : L.St → L.Act → Prop) : L.St → Prop
  | init {s} : L.init s → Reach C s
  | step {s a s'} : Reach C s → C s a → L.step s a = some s' → Reach C s'

variable {C : L.St → L.Act → Prop}

/-- An invariant: it holds at the start, and every step that meets `C` keeps it. -/
theorem Reach.inv {P : L.St → Prop} (h0 : ∀ s, L.init s → P s)
    (hs : ∀ s a s', Reach C s → P s → C s a → L.step s a = some s' → P s') :
    ∀ {s}, Reach C s → P s := by
  intro s h
  induction h with
  | init hi => exact h0 _ hi
  | step hr hc he ih => exact hs _ _ _ hr ih hc he

variable {s : L.St}

/-- A run under a condition is a run under a weaker one. -/
theorem Reach.mono {D : L.St → L.Act → Prop} (h : ∀ s a, C s a → D s a) :
    Reach C s → Reach D s := by
  intro hr
  induction hr with
  | init hi => exact .init hi
  | step _ hc he ih => exact .step ih (h _ _ hc) he

/-- An invariant may be used as a condition on the steps. -/
theorem Reach.and {I : L.St → Prop} (hI : ∀ s, Reach C s → I s) (hr : Reach C s) :
    Reach (fun s a => C s a ∧ I s) s := by
  induction hr with
  | init hi => exact .init hi
  | step hr hc he ih => exact .step ih ⟨hc, hI _ hr⟩ he

/-- The state after the actions `as`, if every one of them is possible and meets `C`. -/
def exec (L : Lts) (C : L.St → L.Act → Prop) [∀ s a, Decidable (C s a)] :
    List L.Act → L.St → Option L.St
  | [], s => some s
  | a :: as, s => if C s a then (L.step s a).bind (exec L C as) else none

variable {s' : L.St}

theorem reach_exec [∀ s a, Decidable (C s a)] {as : List L.Act} (hr : Reach C s)
    (he : L.exec C as s = some s') : Reach C s' := by
  induction as generalizing s with
  | nil => cases he; exact hr
  | cons a as ih =>
    rw [exec] at he
    split at he
    · rename_i hc
      obtain ⟨s₁, h₁, h₂⟩ := Option.bind_eq_some_iff.mp he
      exact ih (.step hr hc h₁) h₂
    · cases he

/-- An executed run to a state that satisfies `P`. -/
theorem exists_exec (C : L.St → L.Act → Prop) [∀ s a, Decidable (C s a)] (as : List L.Act)
    (P : L.St → Prop) [DecidablePred P] (hi : L.init s)
    (he : (L.exec C as s).any (fun s' => P s') = true) : ∃ s', Reach C s' ∧ P s' := by
  obtain ⟨s', h₁, h₂⟩ := (Option.any_eq_true _ _).mp he
  exact ⟨s', reach_exec (.init hi) h₁, of_decide_eq_true h₂⟩

/-! ## History variables -/

/-- The system with a history, which every step extends by its state before it and its action. -/
abbrev record (L : Lts) {H : Type} (start : H) (next : L.St → L.Act → H → H) : Lts where
  St := L.St × H
  Act := L.Act
  init x := L.init x.1 ∧ x.2 = start
  step x a := (L.step x.1 a).map fun s => (s, next x.1 a x.2)

/-- A run with a history is a run. -/
theorem Reach.forget {H : Type} {start : H} {next : L.St → L.Act → H → H}
    {C : (L.record start next).St → (L.record start next).Act → Prop} {x : L.St × H}
    (h : (L.record start next).Reach C x) : L.Reach Any x.1 := by
  refine Reach.inv (P := fun x : (L.record start next).St => L.Reach Any x.1) (fun x hi => .init hi.1)
    (fun x a x' _ ih _ he => ?_) h
  obtain ⟨s, hs, rfl⟩ := Option.map_eq_some_iff.mp he
  exact .step ih trivial hs

/-- A run with a history under a condition on the states and actions is such a run. -/
theorem Reach.forget_cond {H : Type} {start : H} {next : L.St → L.Act → H → H} {x : L.St × H}
    (h : (L.record start next).Reach (fun x a => C x.1 a) x) : L.Reach C x.1 := by
  refine Reach.inv (P := fun x : (L.record start next).St => L.Reach C x.1) (fun x hi => .init hi.1)
    (fun x a x' _ ih hc he => ?_) h
  obtain ⟨s, hs, rfl⟩ := Option.map_eq_some_iff.mp he
  exact .step ih hc hs

end Lts
