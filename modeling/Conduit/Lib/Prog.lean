import Mathlib.Logic.Basic

/-!
# Programs over operations

A finite program asks its environment to perform operations one after another; each answer picks
the rest of the program. Between two operations of a program, other programs may take steps, so
an operation is what is atomic.

- `Prog Op Resp α`: the programs, with their monad.
- `Prog.Ensures`: what holds of every value that the program returns.
- `Proto`: a history of one program's operations, the operations that are allowed in it, and the
  answers it may get.
- `Prog.Obeys`: a program keeps to a protocol and returns in a history that fits its result.
- `Prog.Obeys.coarsen`: the same for a protocol that allows more.
-/

/-- A program: it returns, or performs an operation and continues with the answer. -/
inductive Prog (Op : Type) (Resp : Op → Type) (α : Type) : Type where
  | ret (a : α)
  | op (o : Op) (k : Resp o → Prog Op Resp α)

namespace Prog

variable {Op : Type} {Resp : Op → Type} {α β γ : Type}

protected def bind : Prog Op Resp α → (α → Prog Op Resp β) → Prog Op Resp β
  | .ret a, f => f a
  | .op o k, f => .op o (fun r => (k r).bind f)

instance : Monad (Prog Op Resp) where
  pure := .ret
  bind := Prog.bind

/-- One operation. -/
def call (o : Op) : Prog Op Resp (Resp o) := .op o .ret

/-- The operation that the program is at, if it has not returned. -/
def next : Prog Op Resp α → Option Op
  | .ret _ => none
  | .op o _ => some o

@[simp] theorem call_bind (o : Op) (f : Resp o → Prog Op Resp β) :
    (call o >>= f) = .op o f := rfl

/-! ## What a program returns -/

variable {may : (o : Op) → Resp o → Prop}

/-- Every value that the program returns, for answers that may come, satisfies `Q`. -/
def Ensures (may : (o : Op) → Resp o → Prop) (Q : α → Prop) : Prog Op Resp α → Prop
  | .ret a => Q a
  | .op o k => ∀ r, may o r → Ensures may Q (k r)

variable {Q : α → Prop}

variable {p : Prog Op Resp α}

theorem Ensures.mono {Q' : α → Prop} (hq : ∀ a, Q a → Q' a) (hp : Ensures may Q p) :
    Ensures may Q' p := by
  induction p with
  | ret a => exact hq a hp
  | op o k ih => exact fun r hr => ih r (hp r hr)

variable {f : α → Prog Op Resp β}

theorem Ensures.bind {Q : β → Prop} (hp : Ensures may (fun a => Ensures may Q (f a)) p) :
    Ensures may Q (p >>= f) := by
  induction p with
  | ret a => exact hp
  | op o k ih => exact fun r hr => ih r (hp r hr)

theorem Ensures.seq {R : α → Prop} {Q : β → Prop} (hp : Ensures may R p)
    (hf : ∀ a, R a → Ensures may Q (f a)) : Ensures may Q (p >>= f) :=
  (hp.mono hf).bind

/-- A program of which nothing is known. -/
theorem ensures_true (p : Prog Op Resp α) : Ensures may (fun _ => True) p := by
  induction p with
  | ret a => trivial
  | op o k ih => exact fun r _ => ih r

end Prog

/-! ## Protocols -/

/-- A protocol: the history `H` a program's operations leave, the operations that may be performed
in a history, and the answers that may come. -/
structure Proto (Op : Type) (Resp : Op → Type) (H : Type) where
  /-- The operation is allowed in this history. -/
  ok : H → Op → Prop
  /-- The operation may be answered so in this history. -/
  may : H → (o : Op) → Resp o → Prop
  /-- The history after the answer. -/
  next : H → (o : Op) → Resp o → H

namespace Prog

variable {Op : Type} {Resp : Op → Type} {H α β : Type} {P : Proto Op Resp H}

/-- From the history `h` the program performs only allowed operations, whatever it is answered,
and when it returns, its value and its history fit `Q`. -/
def Obeys (P : Proto Op Resp H) (Q : H → α → Prop) : H → Prog Op Resp α → Prop
  | h, .ret a => Q h a
  | h, .op o k => P.ok h o ∧ ∀ r, P.may h o r → Obeys P Q (P.next h o r) (k r)

variable {h : H} {Q : H → α → Prop}

theorem obeys_op {o : Op} {k : Resp o → Prog Op Resp α} :
    Obeys P Q h (.op o k) ↔ P.ok h o ∧ ∀ r, P.may h o r → Obeys P Q (P.next h o r) (k r) := Iff.rfl

variable {p : Prog Op Resp α}

theorem Obeys.mono {Q' : H → α → Prop} (hq : ∀ h a, Q h a → Q' h a) :
    ∀ {h : H}, Obeys P Q h p → Obeys P Q' h p := by
  induction p with
  | ret a => intro h hp; exact hq _ _ hp
  | op o k ih => intro h hp; exact ⟨hp.1, fun r hr => ih r (hp.2 r hr)⟩

variable {f : α → Prog Op Resp β}

/-- Sequential composition: the first program ends where the second one may start. -/
theorem Obeys.bind {Q : H → β → Prop} :
    ∀ {h : H}, Obeys P (fun h a => Obeys P Q h (f a)) h p → Obeys P Q h (p >>= f) := by
  induction p with
  | ret a => intro h hp; exact hp
  | op o k ih => intro h hp; exact ⟨hp.1, fun r hr => ih r (hp.2 r hr)⟩

/-- The composition rule with a named middle condition. -/
theorem Obeys.seq {R : H → α → Prop} {Q : H → β → Prop} (hp : Obeys P R h p)
    (hf : ∀ h a, R h a → Obeys P Q h (f a)) : Obeys P Q h (p >>= f) :=
  (hp.mono hf).bind

/-- A protocol that allows more and promises less, with a coarser history. -/
theorem Obeys.coarsen {H' : Type} {P' : Proto Op Resp H'} (f : H → H')
    (hok : ∀ h o, P.ok h o → P'.ok (f h) o) (hmay : ∀ h o r, P'.may (f h) o r → P.may h o r)
    (hnext : ∀ h o r, f (P.next h o r) = P'.next (f h) o r) {Q' : H' → α → Prop}
    (hq : ∀ h a, Q h a → Q' (f h) a) :
    ∀ {h : H}, Obeys P Q h p → Obeys P' Q' (f h) p := by
  induction p with
  | ret a => exact fun hp => hq _ _ hp
  | op o k ih =>
    refine fun hp => ⟨hok _ _ hp.1, fun r hr => ?_⟩
    rw [← hnext]
    exact ih r (hp.2 r (hmay _ _ _ hr))

end Prog
