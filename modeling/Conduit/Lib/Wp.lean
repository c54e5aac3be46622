import Conduit.Lib.Prog

/-!
# Programs that run alone

A program that no other one disturbs: its operations act on a state, one after the other. What the
outside decides about an operation is its input.

- `Prog.exec`: the run for a list of inputs.
- `Prog.Admits`: the inputs of a run are allowed.
- `Prog.Wp`: the weakest precondition, over all allowed inputs, with the rules for sequences.
- `Prog.Wp.exec`: it is sound.
-/

namespace Prog

variable {Op : Type} {Resp : Op → Type} {I S α β : Type}

section

variable (perform : I → S → (o : Op) → S × Resp o) (ok : I → Op → Prop)

/-- The state and the value at the end; `none`: there are too few inputs. -/
def exec : List I → S → Prog Op Resp α → Option (S × α)
  | _, s, .ret a => some (s, a)
  | [], _, .op _ _ => none
  | i :: is, s, .op o k => exec is (perform i s o).1 (k (perform i s o).2)

/-- Every operation of the run gets an allowed input. -/
def Admits : List I → S → Prog Op Resp α → Prop
  | i :: is, s, .op o k => ok i o ∧ Admits is (perform i s o).1 (k (perform i s o).2)
  | _, _, _ => True

/-- Whatever allowed inputs it gets, the program ends in a value and a state of `Q`. -/
def Wp (Q : α → S → Prop) : Prog Op Resp α → S → Prop
  | .ret a, s => Q a s
  | .op o k, s => ∀ i, ok i o → Wp Q (k (perform i s o).2) (perform i s o).1

instance Admits.decidable [∀ i o, Decidable (ok i o)] :
    ∀ is s (p : Prog Op Resp α), Decidable (Admits perform ok is s p)
  | [], _, .op _ _ | [], _, .ret _ | _ :: _, _, .ret _ => .isTrue trivial
  | i :: is, s, .op o k =>
    @instDecidableAnd _ _ _ (Admits.decidable is (perform i s o).1 (k (perform i s o).2))

end

variable {perform : I → S → (o : Op) → S × Resp o} {ok : I → Op → Prop}

theorem admits_of_forall (h : ∀ i o, ok i o) : ∀ (is : List I) (s : S) (p : Prog Op Resp α),
    Admits perform ok is s p
  | [], _, .op _ _ | [], _, .ret _ | _ :: _, _, .ret _ => trivial
  | i :: is, _, .op o _ => ⟨h i o, admits_of_forall h is _ _⟩

variable {Q : α → S → Prop} {p : Prog Op Resp α}

theorem Wp.exec {is : List I} {s s' : S} {a : α} (h : Wp perform ok Q p s)
    (hin : Admits perform ok is s p) (he : exec perform is s p = some (s', a)) : Q a s' := by
  induction is generalizing s p with
  | nil =>
    cases p with
    | ret b => cases he; exact h
    | op o k => cases he
  | cons i is ih =>
    cases p with
    | ret b => cases he; exact h
    | op o k => exact ih (h i hin.1) hin.2 he

theorem Wp.mono {Q' : α → S → Prop} (hq : ∀ a s, Q a s → Q' a s) :
    ∀ {s : S}, Wp perform ok Q p s → Wp perform ok Q' p s := by
  induction p with
  | ret a => exact fun h => hq _ _ h
  | op o k ih => exact fun h i hi => ih _ (h i hi)

variable {f : α → Prog Op Resp β}

theorem Wp.bind {Q : β → S → Prop} :
    ∀ {s : S}, Wp perform ok (fun a => Wp perform ok Q (f a)) p s →
      Wp perform ok Q (p >>= f) s := by
  induction p with
  | ret a => exact fun h => h
  | op o k ih => exact fun h i hi => ih _ (h i hi)

theorem Wp.seq {R : α → S → Prop} {Q : β → S → Prop} {s : S} (hp : Wp perform ok R p s)
    (hf : ∀ a s, R a s → Wp perform ok Q (f a) s) : Wp perform ok Q (p >>= f) s :=
  (hp.mono hf).bind

end Prog
