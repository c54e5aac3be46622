import Conduit.Flight.Base

/-!
# Every waiter is woken once

The slot ids that `register` stored as waiters of a flight are passed to the wake handler, in
order and each one once, after the flight has ended (`WokenOnce`).

Three exits of `fill_from_forward` throw the waiters of the gate away, and two more end the leader's
flight without a completion of its gate: the instance has left the map, or the gate under the key is
another one. In the runs without these (`WakesFlight`) every waiter is woken.

- `Wakes`: the invariant. A transaction that completed a gate has the rest of the waiters to wake
  (`Local.owed`), and no two transactions have the same flight to wake.
-/

namespace Conduit

open Function (update update_apply update_eq_self update_of_ne update_self)

/-- The operation loses no waiter: a completion that throws the waiters away finds none, and the
flight that the transaction leads does not end without its gate. -/
def WakesOp (s : State) (t : Tid) : Op → Prop
  | .inst name =>
    s.shared.instances name = none → ∀ c ∈ (s.hist.locals t).sect, c.completed = false →
      ∀ f ∈ (s.hist.locals t).lead, s.hist.leadNo t < s.hist.flight f.gate
  | .complete g _ site =>
    (site.discards = true → (s.shared.gates g).waiters = []) ∧
      ∀ f ∈ (s.hist.locals t).lead, f.gate = g ∨ s.hist.leadNo t < s.hist.flight f.gate
  | _ => True

/-- The condition on the steps. -/
def WakesFlight (s : State) : Act → Prop
  | .op t _ => ∀ o ∈ s.nextOp t, WakesOp s t o
  | _ => True

instance (s : State) (t : Tid) (o : Op) : Decidable (WakesOp s t o) := by
  apply Op.casesOn (motive := fun o => Decidable (WakesOp s t o)) o <;> intros <;>
    dsimp only [WakesOp] <;> infer_instance

instance (s : State) (a : Act) : Decidable (WakesFlight s a) := by
  apply Act.casesOn (motive := fun a => Decidable (WakesFlight s a)) a <;> intros <;>
    dsimp only [WakesFlight] <;> infer_instance

/-- Nobody is woken before the flight has ended; then all its waiters are, or the transaction that
ended it is in its stage with the rest of them to wake. -/
def WokenOnce (s : State) : Prop :=
  ∀ g n, (s.hist.ended g n = false → s.hist.woken g n = []) ∧
    (s.hist.ended g n = true → s.hist.woken g n = s.hist.stored g n ∨
      ∃ t, s.hist.owes t = (g, n) ∧ (s.nextOp t).isSome = true ∧
        s.hist.stored g n = s.hist.woken g n ++ (s.hist.locals t).owed)

/-- The ended flights: they are over, and their waiters are woken or being woken. -/
structure Ledger (h : Hist) : Prop where
  past : ∀ g n, n < h.flight g → h.ended g n = true ∧ (h.woken g n = h.stored g n ∨
    ∃ t, h.owes t = (g, n) ∧ h.stored g n = h.woken g n ++ (h.locals t).owed)
  /-- What a transaction has to wake is the rest of an ended flight. -/
  owing : ∀ t g n, h.owes t = (g, n) → (h.locals t).owed ≠ [] →
    n < h.flight g ∧ h.stored g n = h.woken g n ++ (h.locals t).owed
  /-- A flight is woken by one transaction. -/
  apart : ∀ t u, (h.locals t).owed ≠ [] → (h.locals u).owed ≠ [] → h.owes t = h.owes u → t = u

/-- A step that leaves the ended flights alone. -/
theorem Ledger.frame {h h' : Hist} (hl : Ledger h) (h1 : h'.flight = h.flight)
    (h2 : ∀ g n, n < h.flight g → h'.stored g n = h.stored g n) (h3 : h'.woken = h.woken)
    (h4 : h'.ended = h.ended) (h5 : h'.owes = h.owes)
    (h6 : ∀ u, (h'.locals u).owed = (h.locals u).owed) : Ledger h' := by
  refine { past := ?_, owing := ?_, apart := ?_ }
  · intro g n hlt
    rw [h1] at hlt
    rw [h2 g n hlt, h3, h4, h5]
    obtain ⟨ho, hp⟩ := hl.past g n hlt
    refine ⟨ho, hp.imp_right ?_⟩
    rintro ⟨u, hu, hst⟩
    exact ⟨u, hu, by rw [h6]; exact hst⟩
  · intro u g n hu hne
    rw [h5] at hu
    rw [h6] at hne ⊢
    obtain ⟨hlt, hst⟩ := hl.owing u g n hu hne
    rw [h1, h2 g n hlt, h3]
    exact ⟨hlt, hst⟩
  · intro u v hu hv he
    rw [h6] at hu hv
    rw [h5] at he
    exact hl.apart u v hu hv he

/-- The invariant of the waiters. -/
structure Wakes (sh : Shared) (h : Hist) : Prop where
  ledger : Ledger h
  /-- The waiters of a gate are those of its current flight. -/
  waiters : ∀ g, (sh.gates g).waiters = h.stored g (h.flight g)
  idle : ∀ g, (sh.gates g).leaderActive = false → h.stored g (h.flight g) = []
  later : ∀ g n, h.flight g < n → h.stored g n = []
  /-- The current flight and the later ones are not over. -/
  early : ∀ g n, h.flight g ≤ n → h.woken g n = [] ∧ h.ended g n = false
  leads : ∀ t f, (h.locals t).lead = some f → h.leadNo t ≤ h.flight f.gate
  /-- The gates in use. -/
  fresh : ∀ g, sh.nextGate ≤ g → h.stored g (h.flight g) = []
  table : ∀ i key g, sh.flights i key = some g → g < sh.nextGate
  sects : ∀ t c, (h.locals t).sect = some c → c.gate < sh.nextGate

namespace Wakes

variable {sh sh' : Shared} {h h' : Hist} {t : Tid}

/-- A step that changes no flight, no waiter and no gate. -/
theorem frame (hw : Wakes sh h) (hsh : sh'.gates = sh.gates ∧ sh'.nextGate = sh.nextGate ∧
      ∀ i key g, sh'.flights i key = some g → sh.flights i key = some g)
    (hh : h'.flight = h.flight ∧ h'.stored = h.stored ∧ h'.woken = h.woken ∧ h'.ended = h.ended ∧
      h'.owes = h.owes ∧ h'.leadNo = h.leadNo)
    (hl : ∀ u, (h'.locals u).owed = (h.locals u).owed ∧ (h'.locals u).lead = (h.locals u).lead ∧
      ∀ c, (h'.locals u).sect = some c → c.gate < sh.nextGate) : Wakes sh' h' := by
  obtain ⟨hg, hn, hfl⟩ := hsh
  obtain ⟨h1, h2, h3, h4, h5, h6⟩ := hh
  refine { ledger := hw.ledger.frame h1 (fun g n _ => by rw [h2]) h3 h4 h5 fun u => (hl u).1
           waiters := ?_, idle := ?_, later := ?_, early := ?_, leads := ?_, fresh := ?_
           table := ?_, sects := ?_ }
  · rw [hg, h1, h2]; exact hw.waiters
  · rw [hg, h1, h2]; exact hw.idle
  · rw [h1, h2]; exact hw.later
  · rw [h1, h3, h4]; exact hw.early
  · intro u f hf
    rw [(hl u).2.1] at hf
    rw [h1, h6]
    exact hw.leads u f hf
  · rw [hn, h1, h2]; exact hw.fresh
  · intro i key g hf
    rw [hn]
    exact hw.table i key g (hfl i key g hf)
  · intro u c hc
    rw [hn]
    exact (hl u).2.2 c hc

theorem locals_next (hw : Wakes sh h) {o : Op} {r : o.Resp}
    (howed : ((h.locals t).next o r).owed = (h.locals t).owed)
    (hlead : ((h.locals t).next o r).lead = (h.locals t).lead)
    (hsect : ∀ c, ((h.locals t).next o r).sect = some c → c.gate < sh.nextGate) (u : Tid) :
    ((h.next t o r).locals u).owed = (h.locals u).owed ∧
      ((h.next t o r).locals u).lead = (h.locals u).lead ∧
      ∀ c, ((h.next t o r).locals u).sect = some c → c.gate < sh.nextGate := by
  rw [Hist.next_locals]
  by_cases hu : u = t
  · subst hu
    rw [update_self]
    exact ⟨howed, hlead, hsect⟩
  · rw [update_of_ne hu]
    exact ⟨rfl, rfl, hw.sects u⟩

/-- A new gate under a free key. -/
theorem alloc (hw : Wakes sh h) (i : InstId) (key : CacheKey) :
    Wakes { (sh.setGate sh.nextGate {}).setFlight i key (some sh.nextGate) with
      nextGate := sh.nextGate + 1 } h := by
  have hgates : ∀ g, g ≠ sh.nextGate → update sh.gates sh.nextGate {} g = sh.gates g :=
    fun g hg => update_of_ne hg _ _
  refine { ledger := hw.ledger, waiters := ?_, idle := ?_, later := hw.later, early := hw.early
           leads := hw.leads, fresh := ?_, table := ?_, sects := ?_ }
  · intro g
    show (update sh.gates sh.nextGate {} g).waiters = h.stored g (h.flight g)
    by_cases hg : g = sh.nextGate
    · subst hg
      rw [update_self, hw.fresh _ (Nat.le_refl _)]
    · rw [hgates g hg]
      exact hw.waiters g
  · intro g hidle
    by_cases hg : g = sh.nextGate
    · subst hg
      exact hw.fresh _ (Nat.le_refl _)
    · have hidle : (update sh.gates sh.nextGate {} g).leaderActive = false := hidle
      rw [hgates g hg] at hidle
      exact hw.idle g hidle
  · intro g hg
    exact hw.fresh g (Nat.le_of_succ_le hg)
  · intro i' key' g hg
    have hg : update2 sh.flights i key (some sh.nextGate) i' key' = some g := hg
    by_cases hk : i' = i ∧ key' = key
    · obtain ⟨rfl, rfl⟩ := hk
      rw [update2_self] at hg
      cases hg
      exact Nat.lt_succ_self _
    · rw [update2_of_ne _ hk] at hg
      exact Nat.lt_succ_of_lt (hw.table i' key' g hg)
  · intro u c hc
    exact Nat.lt_succ_of_lt (hw.sects u c hc)

variable {txnId : Nat} {g : GateId}

/-- An asynchronous follower is stored as a waiter of the current flight. -/
theorem store (hw : Wakes sh h) (hact : (sh.gates g).leaderActive = true) (hg : g < sh.nextGate) :
    Wakes (sh.setGate g { sh.gates g with waiters := (sh.gates g).waiters ++ [txnId] })
      (h.next t (.register g txnId true) .follower) := by
  have hother : ∀ g' n, ¬ (g' = g ∧ n = h.flight g) →
      (h.next t (.register g txnId true) .follower).stored g' n = h.stored g' n :=
    fun g' n hne => update2_of_ne _ hne
  have hgates : ∀ g', g' ≠ g → (sh.setGate g
      { sh.gates g with waiters := (sh.gates g).waiters ++ [txnId] }).gates g' = sh.gates g' :=
    fun g' hne => update_of_ne hne _ _
  have hlocals := hw.locals_next (t := t) (o := .register g txnId true) (r := .follower) rfl rfl
    fun c hc => by cases hc
  refine { ledger := hw.ledger.frame rfl (fun g' n hlt => hother g' n ?_) rfl rfl rfl
             fun u => (hlocals u).1
           waiters := ?_, idle := ?_, later := ?_, early := hw.early, leads := ?_, fresh := ?_
           table := hw.table, sects := fun u c => (hlocals u).2.2 c }
  · rintro ⟨rfl, rfl⟩
    exact Nat.lt_irrefl _ hlt
  · intro g'
    by_cases hne : g' = g
    · subst hne
      show (update sh.gates g' _ g').waiters = update2 _ _ _ _ g' (h.flight g')
      rw [update_self, update2_self, hw.waiters]
    · rw [hgates g' hne]
      exact (hw.waiters g').trans (hother g' _ fun hh => hne hh.1).symm
  · intro g' hidle
    have hne : g' ≠ g := by
      rintro rfl
      have hidle : (update sh.gates g' _ g').leaderActive = false := hidle
      rw [update_self] at hidle
      exact absurd hact (by rw [hidle]; exact Bool.false_ne_true)
    rw [hgates g' hne] at hidle
    exact (hother g' _ fun hh => hne hh.1).trans (hw.idle g' hidle)
  · intro g' n hlt
    have hlt : h.flight g' < n := hlt
    rw [hother]
    · exact hw.later g' n hlt
    · rintro ⟨rfl, rfl⟩
      exact Nat.lt_irrefl _ hlt
  · intro u f hf
    rw [(hlocals u).2.1] at hf
    exact hw.leads u f hf
  · intro g' hg'
    have hne : g' ≠ g := fun he => absurd (he ▸ hg') (Nat.not_le.mpr hg)
    exact (hother g' _ fun hh => hne hh.1).trans (hw.fresh g' hg')

variable {asyncWait : Bool}

/-- A registration that starts a flight on an idle gate. -/
theorem lead (hw : Wakes sh h) {c : Section} (hact : (sh.gates g).leaderActive = false)
    (hc : (h.locals t).sect = some c) :
    Wakes (sh.setGate g { leaderActive := true })
      (h.next t (.register g txnId asyncWait) .leader) := by
  have hgates : ∀ g', g' ≠ g →
      (sh.setGate g { leaderActive := true }).gates g' = sh.gates g' :=
    fun g' hne => update_of_ne hne _ _
  have howed : ∀ u, ((h.next t (.register g txnId asyncWait) .leader).locals u).owed =
      (h.locals u).owed := by
    intro u
    rw [Hist.next_locals, update_apply]
    split
    · subst_vars; rfl
    · rfl
  refine { ledger := hw.ledger.frame rfl (fun _ _ _ => rfl) rfl rfl rfl howed
           waiters := ?_, idle := ?_, later := hw.later, early := hw.early, leads := ?_
           fresh := hw.fresh, table := hw.table, sects := ?_ }
  · intro g'
    by_cases hne : g' = g
    · subst hne
      show (update sh.gates g' _ g').waiters = h.stored g' (h.flight g')
      rw [update_self, hw.idle g' hact]
    · rw [hgates g' hne]
      exact hw.waiters g'
  · intro g' hidle
    by_cases hne : g' = g
    · subst hne
      exact hw.idle g' hact
    · rw [hgates g' hne] at hidle
      exact hw.idle g' hidle
  · intro u f hf
    rw [Hist.next_locals] at hf
    show update h.leadNo t (h.flight g) u ≤ h.flight f.gate
    by_cases hu : u = t
    · subst hu
      rw [update_self] at hf ⊢
      simp only [Local.next, hc, Option.map_some, Option.some.injEq] at hf
      subst hf
      exact Nat.le_refl _
    · rw [update_of_ne hu] at hf ⊢
      exact hw.leads u f hf
  · intro u d hd
    rw [Hist.next_locals, update_apply] at hd
    split at hd
    · cases hd
    · exact hw.sects u d hd

theorem endLead_eq (hw : Wakes sh h)
    (hlead : ∀ f, (h.locals t).lead = some f → h.leadNo t < h.flight f.gate) :
    h.endLead t = h.ended := by
  unfold Hist.endLead
  split
  · rename_i f hf
    exact update2_eq_self (hw.ledger.past f.gate _ (hlead f hf)).1
  · rfl

theorem over_complete (hw : Wakes sh h)
    (hlead : ∀ f, (h.locals t).lead = some f → f.gate = g ∨ h.leadNo t < h.flight f.gate) :
    update2 (h.endLead t) g (h.flight g) true = update2 h.ended g (h.flight g) true := by
  unfold Hist.endLead
  split
  · rename_i f hf
    by_cases hlt : h.leadNo t < h.flight f.gate
    · rw [update2_eq_self (hw.ledger.past f.gate _ hlt).1]
    · have hg : f.gate = g := (hlead f hf).resolve_right hlt
      have hn : h.leadNo t = h.flight g := by
        have hle := hw.leads t f hf
        rw [hg] at hle hlt
        omega
      rw [hg, hn, update2_idem]
  · rfl

variable {wire : Option Wire} {site : CompleteSite}

/-- What a completion of `g` by `t` does to the flights: the current one ends, and `t` has its waiters
to wake. -/
structure Completes (t : Tid) (g : GateId) (h h' : Hist) : Prop where
  flight : h'.flight = update h.flight g (h.flight g + 1)
  ended : h'.ended = update2 h.ended g (h.flight g) true
  owes : h'.owes = update h.owes t (g, h.flight g)
  stored : h'.stored = h.stored
  woken : h'.woken = h.woken
  self : (h'.locals t).owed = h.stored g (h.flight g)
  others : ∀ u, u ≠ t → (h'.locals u).owed = (h.locals u).owed
  idle : (h.locals t).owed = []
  unwoken : h.woken g (h.flight g) = []

namespace Completes

variable {h h' : Hist} (hc : Completes t g h h') (hl : Ledger h)

include hc

/-- An ended flight is the one that ends now, or had ended before. -/
theorem lt_cases {g' : GateId} {n : Nat} (hn : n < h'.flight g') :
    (g' = g ∧ n = h.flight g) ∨ n < h.flight g' := by
  rw [hc.flight] at hn
  by_cases hg : g' = g
  · subst hg
    rw [update_self] at hn
    rcases Nat.lt_succ_iff_lt_or_eq.mp hn with h1 | h1
    · exact .inr h1
    · exact .inl ⟨rfl, h1⟩
  · rw [update_of_ne hg] at hn
    exact .inr hn

theorem flight_le (g' : GateId) : h.flight g' ≤ h'.flight g' := by
  rw [hc.flight, update_apply]
  split
  · subst_vars; exact Nat.le_succ _
  · exact Nat.le_refl _

theorem rest : h'.stored g (h.flight g) = h'.woken g (h.flight g) ++ (h'.locals t).owed := by
  rw [hc.stored, hc.woken, hc.self, hc.unwoken, List.nil_append]

include hl

theorem past (g' : GateId) (n : Nat) (hn : n < h'.flight g') :
    h'.ended g' n = true ∧ (h'.woken g' n = h'.stored g' n ∨
      ∃ t, h'.owes t = (g', n) ∧ h'.stored g' n = h'.woken g' n ++ (h'.locals t).owed) := by
  by_cases hk : g' = g ∧ n = h.flight g
  · obtain ⟨rfl, rfl⟩ := hk
    refine ⟨?_, .inr ⟨t, ?_, hc.rest⟩⟩
    · rw [hc.ended]
      exact update2_self _
    · rw [hc.owes]
      exact update_self ..
  obtain ⟨ho, hp⟩ := hl.past g' n ((hc.lt_cases hn).resolve_left hk)
  rw [hc.ended, update2_of_ne _ hk, hc.woken, hc.stored, hc.owes]
  refine ⟨ho, ?_⟩
  rcases hp with hp | ⟨u, hu, hst⟩
  · exact .inl hp
  · by_cases hut : u = t
    · subst hut
      rw [hc.idle, List.append_nil] at hst
      exact .inl hst.symm
    · refine .inr ⟨u, ?_, ?_⟩
      · rw [update_of_ne hut]
        exact hu
      · rw [hc.others u hut]
        exact hst

theorem owing (u : Tid) (g' : GateId) (n : Nat) (hu : h'.owes u = (g', n))
    (hne : (h'.locals u).owed ≠ []) :
    n < h'.flight g' ∧ h'.stored g' n = h'.woken g' n ++ (h'.locals u).owed := by
  rw [hc.owes] at hu
  by_cases hut : u = t
  · subst hut
    rw [update_self] at hu
    cases hu
    refine ⟨?_, hc.rest⟩
    rw [hc.flight, update_self]
    exact Nat.lt_succ_self _
  · rw [update_of_ne hut] at hu
    rw [hc.others u hut] at hne ⊢
    obtain ⟨h1, h2⟩ := hl.owing u g' n hu hne
    rw [hc.stored, hc.woken]
    exact ⟨Nat.lt_of_lt_of_le h1 (hc.flight_le g'), h2⟩

/-- Nobody else has the flight that ends now. -/
theorem owes_ne {u : Tid} (hut : u ≠ t) (hne : (h'.locals u).owed ≠ []) :
    h.owes u ≠ (g, h.flight g) := by
  intro he
  rw [hc.others u hut] at hne
  exact Nat.lt_irrefl _ (hl.owing u g _ he hne).1

theorem apart (u v : Tid) (hu : (h'.locals u).owed ≠ []) (hv : (h'.locals v).owed ≠ [])
    (he : h'.owes u = h'.owes v) : u = v := by
  rw [hc.owes] at he
  by_cases hut : u = t
  · by_cases hvt : v = t
    · rw [hut, hvt]
    · subst hut
      rw [update_self, update_of_ne hvt] at he
      exact absurd he.symm (hc.owes_ne hl hvt hv)
  · by_cases hvt : v = t
    · subst hvt
      rw [update_self, update_of_ne hut] at he
      exact absurd he (hc.owes_ne hl hut hu)
    · rw [update_of_ne hut, update_of_ne hvt] at he
      rw [hc.others u hut] at hu
      rw [hc.others v hvt] at hv
      exact hl.apart u v hu hv he

end Completes

/-- The ended flights after a completion. -/
theorem ledger_complete (hw : Wakes sh h) {ws : List Nat} (howed : (h.locals t).owed = [])
    (hws : ((h.locals t).next (.complete g wire site) ws).owed = h.stored g (h.flight g))
    (hlead : ∀ f, (h.locals t).lead = some f → f.gate = g ∨ h.leadNo t < h.flight f.gate) :
    Ledger (h.next t (.complete g wire site) ws) := by
  have hc : Completes t g h (h.next t (.complete g wire site) ws) :=
    { flight := rfl
      ended := hw.over_complete hlead
      owes := rfl
      stored := rfl
      woken := rfl
      self := by rw [Hist.next_locals, update_self]; exact hws
      others := fun u hu => by rw [Hist.next_locals, update_of_ne hu]
      idle := howed
      unwoken := (hw.early g _ (Nat.le_refl _)).1 }
  exact ⟨hc.past hw.ledger, hc.owing hw.ledger, hc.apart hw.ledger⟩

/-- A completion that loses no waiter. -/
theorem complete (hw : Wakes sh h) (howed : (h.locals t).owed = [])
    (hdis : site.discards = true → (sh.gates g).waiters = [])
    (hlead : ∀ f, (h.locals t).lead = some f → f.gate = g ∨ h.leadNo t < h.flight f.gate) :
    Wakes (sh.setGate g ((sh.gates g).complete wire).1)
      (h.next t (.complete g wire site) (sh.gates g).waiters) := by
  have hws : ((h.locals t).next (.complete g wire site) (sh.gates g).waiters).owed =
      h.stored g (h.flight g) := by
    rw [← hw.waiters g]
    show (if site.discards = true then [] else (sh.gates g).waiters) = _
    split
    · exact (hdis ‹_›).symm
    · rfl
  have hflight : (h.next t (.complete g wire site) (sh.gates g).waiters).flight =
      update h.flight g (h.flight g + 1) := rfl
  have hover : (h.next t (.complete g wire site) (sh.gates g).waiters).ended =
      update2 h.ended g (h.flight g) true := hw.over_complete hlead
  have hgates : ∀ g', g' ≠ g →
      (sh.setGate g ((sh.gates g).complete wire).1).gates g' = sh.gates g' :=
    fun g' hne => update_of_ne hne _ _
  -- the new current flight has no waiters
  have hnew : ∀ g', g' = g →
      h.stored g' (update h.flight g (h.flight g + 1) g') = [] := by
    rintro g' rfl
    rw [update_self]
    exact hw.later g' _ (Nat.lt_succ_self _)
  have hgrow : ∀ g', h.flight g' ≤ update h.flight g (h.flight g + 1) g' := by
    intro g'
    rw [update_apply]
    split
    · subst_vars; exact Nat.le_succ _
    · exact Nat.le_refl _
  refine { ledger := hw.ledger_complete howed hws hlead, waiters := ?_, idle := ?_, later := ?_
           early := ?_, leads := ?_, fresh := ?_, table := hw.table, sects := ?_ }
  · intro g'
    rw [hflight]
    by_cases hg : g' = g
    · show _ = h.stored g' _
      rw [hnew g' hg, hg]
      show (update sh.gates g _ g).waiters = []
      rw [update_self]
      rfl
    · rw [hgates g' hg, update_of_ne hg]
      exact hw.waiters g'
  · intro g' hidle
    rw [hflight]
    by_cases hg : g' = g
    · exact hnew g' hg
    · rw [hgates g' hg] at hidle
      rw [update_of_ne hg]
      exact hw.idle g' hidle
  · intro g' n hn
    exact hw.later g' n (Nat.lt_of_le_of_lt (hgrow g') hn)
  · intro g' n hn
    obtain ⟨h1, h2⟩ := hw.early g' n (Nat.le_trans (hgrow g') hn)
    refine ⟨h1, ?_⟩
    rw [hover, update2_of_ne]
    · exact h2
    · rintro ⟨rfl, rfl⟩
      rw [hflight, update_self] at hn
      exact Nat.not_succ_le_self _ hn
  · intro u f hf
    rw [Hist.next_locals] at hf
    by_cases hu : u = t
    · subst hu
      rw [update_self] at hf
      cases hf
    · rw [update_of_ne hu] at hf
      exact Nat.le_trans (hw.leads u f hf) (hgrow f.gate)
  · intro g' hg'
    rw [hflight]
    by_cases hg : g' = g
    · exact hnew g' hg
    · rw [update_of_ne hg]
      exact hw.fresh g' hg'
  · intro u c hc
    rw [Hist.next_locals] at hc
    by_cases hu : u = t
    · subst hu
      rw [update_self] at hc
      obtain ⟨c', hc', rfl⟩ := Option.map_eq_some_iff.mp hc
      exact hw.sects u c' hc'
    · rw [update_of_ne hu] at hc
      exact hw.sects u c hc

/-- A wake-up: the head of what `t` owes is woken. -/
theorem wake (hw : Wakes sh h) {id : Nat} (hid : (h.locals t).owed.head? = some id) :
    Wakes { sh with queue := sh.queue ++ [id] } (h.next t (.wake id) ()) := by
  obtain ⟨rest, hrest⟩ : ∃ rest, (h.locals t).owed = id :: rest := by
    cases ho : (h.locals t).owed with
    | nil => rw [ho] at hid; cases hid
    | cons x xs => rw [ho] at hid; cases hid; exact ⟨xs, rfl⟩
  have hne : (h.locals t).owed ≠ [] := by rw [hrest]; exact List.cons_ne_nil _ _
  obtain ⟨g, n, howes⟩ : ∃ g n, h.owes t = (g, n) := ⟨_, _, rfl⟩
  obtain ⟨hlt, hst⟩ := hw.ledger.owing t g n howes hne
  have hwoken : (h.next t (.wake id) ()).woken = update2 h.woken g n (h.woken g n ++ [id]) := by
    show update2 h.woken (h.owes t).1 (h.owes t).2
      (h.woken (h.owes t).1 (h.owes t).2 ++ [id]) = _
    rw [howes]
  have hself : ((h.next t (.wake id) ()).locals t).owed = rest := by
    rw [Hist.next_locals, update_self]
    show (h.locals t).owed.tail = rest
    rw [hrest]
    rfl
  have hothers : ∀ u, u ≠ t → (h.next t (.wake id) ()).locals u = h.locals u := by
    intro u hu
    rw [Hist.next_locals, update_of_ne hu]
  have hst' : h.stored g n = update2 h.woken g n (h.woken g n ++ [id]) g n ++ rest := by
    rw [update2_self, hst, hrest, List.append_assoc]
    rfl
  have hkeep : ∀ u, ((h.next t (.wake id) ()).locals u).lead = (h.locals u).lead ∧
      ((h.next t (.wake id) ()).locals u).sect = (h.locals u).sect := by
    intro u
    by_cases hu : u = t
    · subst hu
      rw [Hist.next_locals, update_self]
      exact ⟨rfl, rfl⟩
    · rw [hothers u hu]
      exact ⟨rfl, rfl⟩
  refine { ledger := { past := ?_, owing := ?_, apart := ?_ }, waiters := hw.waiters
           idle := hw.idle, later := hw.later, early := ?_, leads := ?_, fresh := hw.fresh
           table := hw.table, sects := ?_ }
  · intro g' n' hn
    obtain ⟨ho, hp⟩ := hw.ledger.past g' n' hn
    refine ⟨ho, ?_⟩
    rw [hwoken]
    by_cases hk : g' = g ∧ n' = n
    · obtain ⟨rfl, rfl⟩ := hk
      exact .inr ⟨t, howes, by rw [hself]; exact hst'⟩
    · rw [update2_of_ne _ hk]
      refine hp.imp_right ?_
      rintro ⟨u, hu, hstu⟩
      have hut : u ≠ t := by
        rintro rfl
        rw [howes] at hu
        cases hu
        exact hk ⟨rfl, rfl⟩
      exact ⟨u, hu, by rw [hothers u hut]; exact hstu⟩
  · intro u g' n' hu hne'
    rw [hwoken]
    by_cases hut : u = t
    · subst hut
      have hu : h.owes u = (g', n') := hu
      rw [howes] at hu
      cases hu
      exact ⟨hlt, by rw [hself]; exact hst'⟩
    · rw [hothers u hut] at hne' ⊢
      obtain ⟨h1, h2⟩ := hw.ledger.owing u g' n' hu hne'
      refine ⟨h1, ?_⟩
      rw [update2_of_ne]
      · exact h2
      · rintro ⟨rfl, rfl⟩
        exact hut (hw.ledger.apart u t hne' hne (hu.trans howes.symm))
  · have hold : ∀ u, ((h.next t (.wake id) ()).locals u).owed ≠ [] → (h.locals u).owed ≠ [] := by
      intro u hu
      by_cases hut : u = t
      · subst hut; exact hne
      · rw [hothers u hut] at hu
        exact hu
    intro u v hu hv he
    exact hw.ledger.apart u v (hold u hu) (hold v hv) he
  · intro g' n' hn
    obtain ⟨h1, h2⟩ := hw.early g' n' hn
    refine ⟨?_, h2⟩
    rw [hwoken, update2_of_ne]
    · exact h1
    · rintro ⟨rfl, rfl⟩
      exact absurd hlt (Nat.not_lt.mpr hn)
  · intro u f hf
    rw [(hkeep u).1] at hf
    exact hw.leads u f hf
  · intro u c hc
    rw [(hkeep u).2] at hc
    exact hw.sects u c hc

/-- An operation that only the section of `t` records. -/
theorem quiet (hw : Wakes sh h) {o : Op} {r : o.Resp}
    (hh : (h.next t o r).flight = h.flight ∧ (h.next t o r).stored = h.stored ∧
      (h.next t o r).woken = h.woken ∧ (h.next t o r).ended = h.ended ∧
      (h.next t o r).owes = h.owes ∧ (h.next t o r).leadNo = h.leadNo)
    (howed : ((h.locals t).next o r).owed = (h.locals t).owed)
    (hlead : ((h.locals t).next o r).lead = (h.locals t).lead)
    (hsect : ∀ c, ((h.locals t).next o r).sect = some c → (h.locals t).sect = some c) :
    Wakes sh (h.next t o r) :=
  hw.frame ⟨rfl, rfl, fun _ _ _ hg => hg⟩ hh
    (hw.locals_next howed hlead fun c hc => hw.sects t c (hsect c hc))

/-- A registration: it follows, or starts a flight. -/
theorem register (hw : Wakes sh h) (hok : base.ok (h.locals t) (.register g txnId asyncWait)) :
    Wakes (sh.setGate g ((sh.gates g).register txnId asyncWait).1)
      (h.next t (.register g txnId asyncWait) ((sh.gates g).register txnId asyncWait).2) := by
  obtain ⟨⟨c, hc, hcg, -⟩, -⟩ := hok
  have hg : g < sh.nextGate := hcg ▸ hw.sects t c hc
  cases hact : (sh.gates g).leaderActive with
  | false =>
    have hreg : (sh.gates g).register txnId asyncWait = ({ leaderActive := true }, .leader) := by
      simp [InFlightGate.register, hact]
    rw [hreg]
    exact hw.lead hact hc
  | true =>
    cases asyncWait with
    | true =>
      have hreg : (sh.gates g).register txnId true =
          ({ sh.gates g with waiters := (sh.gates g).waiters ++ [txnId] }, .follower) := by
        simp [InFlightGate.register, hact]
      rw [hreg]
      exact hw.store hact hg
    | false =>
      have hreg : (sh.gates g).register txnId false = (sh.gates g, .follower) := by
        simp [InFlightGate.register, hact]
      rw [hreg, Shared.setGate, update_eq_self]
      exact hw.quiet ⟨rfl, rfl, rfl, rfl, rfl, rfl⟩ rfl rfl fun c hc => by cases hc

/-- The look-up of the instance: inside a fill, a flight ends here that is completed already. -/
theorem inst (hw : Wakes sh h) {name : String} {r : Option InstId}
    (hc : r = none → ∀ c, (h.locals t).sect = some c → c.completed = false →
      ∀ f, (h.locals t).lead = some f → h.leadNo t < h.flight f.gate) :
    Wakes sh (h.next t (.inst name) r) := by
  have hsect : ∀ c, ((h.locals t).next (.inst name) r).sect = some c →
      (h.locals t).sect = some c := by
    intro c hs
    cases r with
    | none => cases hs
    | some i => exact hs
  refine hw.quiet ?_ rfl rfl hsect
  simp only [Hist.next]
  split
  · rename_i hs
    refine ⟨rfl, rfl, rfl, ?_, rfl, rfl⟩
    exact hw.endLead_eq fun f hf => hc rfl _ hs rfl f hf
  · exact ⟨rfl, rfl, rfl, rfl, rfl, rfl⟩

theorem op {s : State} (hw : Wakes s.shared s.hist) {o : Op} {env : Env} {r : o.Resp}
    {sh' : Shared} (hok : base.ok (s.hist.locals t) o) (hc : WakesOp s t o)
    (hs : o.sem env s.shared = some (r, sh')) : Wakes sh' (s.hist.next t o r) := by
  cases o <;> simp only [Op.sem] at hs
  case inst name =>
    cases hs
    exact hw.inst fun hn c hcs hopen f hf => hc hn c hcs hopen f hf
  case gateFor i key =>
    split at hs <;> cases hs
    · rename_i hfl
      refine hw.frame ⟨rfl, rfl, fun _ _ _ hg => hg⟩ ⟨rfl, rfl, rfl, rfl, rfl, rfl⟩
        (hw.locals_next rfl rfl fun c hcs => ?_)
      cases hcs
      exact hw.table i key _ hfl
    · have ha := hw.alloc i key
      refine ha.frame ⟨rfl, rfl, fun _ _ _ hg => hg⟩ ⟨rfl, rfl, rfl, rfl, rfl, rfl⟩
        (ha.locals_next rfl rfl fun c hcs => ?_)
      cases hcs
      exact Nat.lt_succ_self _
  case register g txnId asyncWait => cases hs; exact hw.register hok
  case complete g wire site => cases hs; exact hw.complete hok.2 hc.1 hc.2
  case removeFlight i key =>
    cases hs
    refine hw.frame ⟨rfl, rfl, fun i' key' g hg => ?_⟩ ⟨rfl, rfl, rfl, rfl, rfl, rfl⟩
      (hw.locals_next rfl rfl fun c hcs => by cases hcs)
    have hg : update2 s.shared.flights i key none i' key' = some g := hg
    by_cases hk : i' = i ∧ key' = key
    · obtain ⟨rfl, rfl⟩ := hk
      rw [update2_self] at hg
      cases hg
    · rw [update2_of_ne _ hk] at hg
      exact hg
  case wake id => cases hs; exact hw.wake hok
  case gateResult g =>
    cases hs
    cases hres : (s.shared.gates g).result with
    | none => exact hw.quiet ⟨rfl, rfl, rfl, rfl, rfl, rfl⟩ rfl rfl fun c hcs => by cases hcs
    | some w => exact hw.quiet ⟨rfl, rfl, rfl, rfl, rfl, rfl⟩ rfl rfl fun c hcs => hcs
  case waitForResult g =>
    split at hs
    · cases hs; exact hw.quiet ⟨rfl, rfl, rfl, rfl, rfl, rfl⟩ rfl rfl fun c hcs => hcs
    · split at hs
      · cases hs
      · cases hs; exact hw.quiet ⟨rfl, rfl, rfl, rfl, rfl, rfl⟩ rfl rfl fun c hcs => hcs
  all_goals cases hs; exact hw.quiet ⟨rfl, rfl, rfl, rfl, rfl, rfl⟩ rfl rfl fun c hcs => hcs

variable {s : State} {w : Wiring}

theorem step {s' : State} {a : Act} (hw : Wakes s.shared s.hist)
    (hb : ∀ t th, s.threads t = some th → base.Holds (s.hist.locals t) th) (hc : WakesFlight s a)
    (hs : Step w s a s') : Wakes s'.shared s'.hist := by
  -- the steps that only touch the queue or the instance map
  have shared : ∀ {sh' : Shared}, sh'.gates = s.shared.gates → sh'.nextGate = s.shared.nextGate →
      sh'.flights = s.shared.flights → Wakes sh' s.hist := by
    intro sh' h1 h2 h3
    refine hw.frame ⟨h1, h2, fun i key g hg => h3 ▸ hg⟩ ⟨rfl, rfl, rfl, rfl, rfl, rfl⟩ fun u => ?_
    exact ⟨rfl, rfl, hw.sects u⟩
  cases hs with
  | op ht hp hsem => exact hw.op ((hb _ _ ht).ok hp) (hc _ (nextOp_eq ht hp)) hsem
  | start | enter | ret | resumeIo | install => exact hw
  | resumeLookup | dropInstance | addInstance => exact shared rfl rfl rfl

theorem init (h : (machine w).init s) : Wakes s.shared s.hist := by
  obtain ⟨snap, instances, nextInst, rfl⟩ := h
  refine { ledger := { past := ?_, owing := ?_, apart := ?_ }, waiters := fun _ => rfl
           idle := fun _ _ => rfl, later := fun _ _ _ => rfl, early := fun _ _ _ => ⟨rfl, rfl⟩
           leads := ?_, fresh := fun _ _ => rfl, table := ?_, sects := ?_ }
  · intro g n hn; exact absurd hn (Nat.not_lt_zero n)
  · intro t g n _ hne; exact absurd rfl hne
  · intro t u hne; exact absurd rfl hne
  · intro t f hf; cases hf
  · intro i key g hg; cases hg
  · intro t c hc; cases hc

end Wakes

/-- A transaction that has waiters to wake is in its stage: the next step of it is an operation. -/
theorem nextOp_of_owed {s : State} (hw : WellFormed s)
    (hb : ∀ t th, s.threads t = some th → base.Holds (s.hist.locals t) th) {t : Tid}
    (hne : (s.hist.locals t).owed ≠ []) : (s.nextOp t).isSome = true := by
  cases ht : s.threads t with
  | none => rw [hw.locals t ht] at hne; exact absurd rfl hne
  | some th =>
    have h := hb t th ht
    unfold Discipline.Holds at h
    cases hp : th.pos with
    | top | suspended | finished => rw [hp] at h; exact absurd h.2 hne
    | running phase late before prog =>
      rw [hp] at h
      cases prog with
      | op o k => rw [nextOp_eq ht hp]; rfl
      | ret r =>
        -- a stage that returns owes nothing
        have hn : (s.hist.locals t).Neutral := by
          obtain ⟨after, out⟩ := r
          cases out with
          | drop => exact h
          | suspend _ => exact h
          | cont next =>
            have h : base.post phase (s.hist.locals t) (after, .cont next) := h
            simp only [Discipline.post] at h
            split at h <;> exact h
        exact absurd hn.2 hne

/-- **Waking.** In the runs without the exits that lose waiters, every stored waiter is woken once,
after its flight has ended. -/
theorem wokenOnce_of_wakesFlight (w : Wiring) {s : State}
    (h : (machine w).Reach WakesFlight s) : WokenOnce s := by
  have hw : Wakes s.shared s.hist :=
    Lts.Reach.inv (L := machine w) (P := fun s => Wakes s.shared s.hist)
      (fun _ hi => Wakes.init hi)
      (fun _ _ _ hr hw hc hs => hw.step (base_holds hr).2 hc (step_cases hs)) h
  intro g n
  by_cases hn : n < s.hist.flight g
  · obtain ⟨ho, hp⟩ := hw.ledger.past g n hn
    constructor
    · intro hover
      rw [ho] at hover
      cases hover
    · intro _
      rcases hp with hp | ⟨t, howes, hst⟩
      · exact .inl hp
      · by_cases hne : (s.hist.locals t).owed = []
        · rw [hne, List.append_nil] at hst
          exact .inl hst.symm
        · exact .inr ⟨t, howes, nextOp_of_owed (wellFormed_reach h) (base_holds h).2 hne, hst⟩
  · obtain ⟨h1, h2⟩ := hw.early g n (Nat.le_of_not_lt hn)
    constructor
    · exact fun _ => h1
    · intro hover
      rw [h2] at hover
      cases hover

/-- A leader that suspends in its forward, with a waiter behind it, up to the operations of its
fill. -/
def sampleFill : List Act :=
  [Act.start (sampleQuery 11), Act.start (sampleQuery 12)] ++ toLookup 0 ++ ops 0 8 ++
    toLookup 1 ++ ops 1 8 ++ [Act.ret 1] ++
    [Act.op 0 { backend := some sampleBackend }, Act.op 0 { submitted := .sent }, Act.ret 0,
      Act.resumeIo 0 (.response [0, 0, 128, 0]), Act.enter 0 false]

/-- The leader stores its answer: the waiter is woken. -/
theorem wokenOnce_of_wakesFlight_sample :
    ∃ s, (machine (sampleWiring .splitIo)).Reach WakesFlight s ∧
      (s.hist.ended 0 0 = true ∧ s.hist.stored 0 0 = [12] ∧ s.hist.woken 0 0 = [12]) ∧
      WokenOnce s := by
  obtain ⟨s, hr, hs⟩ := Lts.exists_exec WakesFlight (sampleFill ++ ops 0 10)
    (fun s : State => s.hist.ended 0 0 = true ∧ s.hist.stored 0 0 = [12] ∧
      s.hist.woken 0 0 = [12]) (sampleInit_init .splitIo sampleSnapshot) (by decide +kernel)
  exact ⟨s, hr, hs, wokenOnce_of_wakesFlight _ hr⟩

/-- The backend is rebuilding when the leader fills: the flight ends and its waiter is never woken.
-/
theorem wokenOnce_broken :
    ∃ s, (machine (sampleWiring .splitIo)).Reach Lts.Any s ∧
      (s.hist.ended 0 0 = true ∧ s.hist.stored 0 0 = [12] ∧ s.hist.woken 0 0 = []) ∧
      s.result 0 = some (.response [0, 7, 128, 0]) ∧ ¬ WokenOnce s := by
  obtain ⟨s, hr, hobs, hres, h0, h1, hn⟩ := Lts.exists_exec Lts.Any
    (sampleFill ++ ops 0 4 ++ [Act.op 0 { rebuilding := true }] ++ ops 0 2 ++
      [Act.ret 0, Act.enter 0 false, Act.op 0 {}, Act.ret 0, Act.enter 0 false, Act.ret 0])
    (fun s : State => (s.hist.ended 0 0 = true ∧ s.hist.stored 0 0 = [12] ∧
      s.hist.woken 0 0 = []) ∧ s.result 0 = some (.response [0, 7, 128, 0]) ∧
      (s.nextOp 0).isSome = false ∧ (s.nextOp 1).isSome = false ∧ s.nextTid = 2)
    (sampleInit_init .splitIo sampleSnapshot) (by decide +kernel)
  refine ⟨s, hr, hobs, hres, fun hwo => ?_⟩
  rcases (hwo 0 0).2 hobs.1 with h | ⟨t, -, ht, -⟩
  · rw [hobs.2.1, hobs.2.2] at h
    cases h
  · -- no transaction has anything left to do
    rcases t with _ | _ | t
    · rw [h0] at ht; cases ht
    · rw [h1] at ht; cases ht
    · have hnone := (wellFormed_reach hr).threads (t + 2) (hn ▸ Nat.le_add_left 2 t)
      rw [State.nextOp, hnone] at ht
      cases ht

end Conduit
