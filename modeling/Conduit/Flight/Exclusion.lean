import Conduit.Flight.Base

/-!
# Single-flight exclusion

From the moment a transaction registers as the leader of a key until its own completion, its gate
is the one in the table, the gate is active, and no other transaction leads the key
(`Exclusive`).

The code does not keep this in every run. A follower removes the key after its wait, also when the
wait timed out; a resumed waiter that finds no answer completes and removes the key as if it led a
flight; and a gate can leave the table between `gate_for` and `register`, or be taken for a new
flight between `complete` and `remove`. In the runs where no step does one of these (`Orderly`), it
holds. The leader's own completion and removal need no condition.
-/

namespace Conduit

open Function (update update_apply update_eq_self_iff update_of_ne update_self)

/-- The operation of `t` does not disturb a flight of another transaction, and does not start one
on a gate that is leaving the table. -/
def OrderlyOp (s : State) (t : Tid) : Op → Prop
  | .register g _ _ =>
    -- a registration that leads: on the gate of the table, and nobody is about to remove it
    (s.shared.gates g).leaderActive = false →
      (∀ c ∈ (s.hist.locals t).sect, s.shared.flights c.inst c.key = some g) ∧
      ∀ u < s.nextTid, ∀ c ∈ (s.hist.locals u).sect, c.completed = true → c.gate ≠ g
  | .complete g _ _ =>
    (s.hist.held g).map (·.tid) = some t ∨ (s.shared.gates g).leaderActive = false
  | .removeFlight i key =>
    ∀ g ∈ s.shared.flights i key,
      (s.hist.locals t).sect.any (fun c => c.gate = g ∧ c.completed = true) = true ∨
      (s.shared.gates g).leaderActive = false
  | _ => True

/-- The condition on the steps. -/
def Orderly (s : State) : Act → Prop
  | .op t _ => ∀ o ∈ s.nextOp t, OrderlyOp s t o
  | _ => True

instance (s : State) (t : Tid) (o : Op) : Decidable (OrderlyOp s t o) := by
  apply Op.casesOn (motive := fun o => Decidable (OrderlyOp s t o)) o <;> intros <;>
    dsimp only [OrderlyOp] <;> infer_instance

instance (s : State) (a : Act) : Decidable (Orderly s a) := by
  apply Act.casesOn (motive := fun a => Decidable (Orderly s a)) a <;> intros <;>
    dsimp only [Orderly] <;> infer_instance

/-- A leader's gate is in the table and active, and the leader of a key is the only one. -/
def Exclusive (s : State) : Prop :=
  ∀ g a, s.hist.held g = some a →
    s.shared.flights a.inst a.key = some g ∧ (s.shared.gates g).leaderActive = true ∧
    ∀ g' b, s.hist.held g' = some b → b.inst = a.inst → b.key = a.key → b.tid = a.tid

/-- The invariant, on the table, the activity of the gates, the next free gate, the leaders, and
the sections of the transactions. -/
structure Excl (fl : InstId → CacheKey → Option GateId) (act : GateId → Bool) (next : GateId)
    (held : GateId → Option Holder) (sect : Tid → Option Section) : Prop where
  /-- A leader's gate is in the table, and active. -/
  leads : ∀ {g a}, held g = some a → fl a.inst a.key = some g ∧ act g = true
  bound : ∀ {i key g}, fl i key = some g → g < next
  /-- Between a completion and the removal nobody leads the gate. -/
  closing : ∀ {t c}, sect t = some c → c.completed = true → act c.gate = false

namespace Excl

variable {fl : InstId → CacheKey → Option GateId} {act : GateId → Bool} {next : GateId}
  {held : GateId → Option Holder} {sect sect' : Tid → Option Section}

/-- The sections change, and no transaction gets into a completed one. -/
theorem frame (h : Excl fl act next held sect)
    (hs : ∀ t c, sect' t = some c → c.completed = true → sect t = some c) :
    Excl fl act next held sect' where
  leads := h.leads
  bound := h.bound
  closing hc hcomp := h.closing (hs _ _ hc hcomp) hcomp

/-- A new gate under a free key. -/
theorem alloc (h : Excl fl act next held sect) {i : InstId} {key : CacheKey}
    (hn : fl i key = none) :
    Excl (update2 fl i key (some next)) (update act next false) (next + 1) held sect := by
  refine { leads := ?_, bound := ?_, closing := ?_ }
  · intro g a ha
    obtain ⟨h1, h2⟩ := h.leads ha
    have hkey : ¬ (a.inst = i ∧ a.key = key) := by
      rintro ⟨rfl, rfl⟩
      rw [hn] at h1
      cases h1
    rw [update2_of_ne _ hkey, update_of_ne (Nat.ne_of_lt (h.bound h1))]
    exact ⟨h1, h2⟩
  · intro i' key' g hg
    by_cases hk : i' = i ∧ key' = key
    · obtain ⟨rfl, rfl⟩ := hk
      rw [update2_self] at hg
      cases hg
      exact Nat.lt_succ_self _
    · rw [update2_of_ne _ hk] at hg
      exact Nat.lt_succ_of_lt (h.bound hg)
  · intro t c hc hcomp
    rw [update_apply]
    split
    · rfl
    · exact h.closing hc hcomp

/-- A registration that starts a flight on the gate of the table. -/
theorem lead (h : Excl fl act next held sect) {g : GateId} {a : Holder}
    (hfl : fl a.inst a.key = some g)
    (hcl : ∀ u c, sect u = some c → c.completed = true → c.gate ≠ g) :
    Excl fl (update act g true) next (update held g (some a)) sect := by
  refine { leads := ?_, bound := h.bound, closing := ?_ }
  · intro g' b hb
    by_cases hg : g' = g
    · subst hg
      rw [update_self] at hb
      cases hb
      exact ⟨hfl, update_self ..⟩
    · rw [update_of_ne hg] at hb ⊢
      exact h.leads hb
  · intro u c hc hcomp
    rw [update_of_ne (hcl u c hc hcomp)]
    exact h.closing hc hcomp

/-- A gate becomes idle that nobody leads. -/
theorem idle (h : Excl fl act next held sect) {g : GateId} (hfree : held g = none) :
    Excl fl (update act g false) next held sect := by
  refine { leads := ?_, bound := h.bound, closing := ?_ }
  · intro g' a ha
    have hne : g' ≠ g := by
      rintro rfl
      rw [hfree] at ha
      cases ha
    rw [update_of_ne hne]
    exact h.leads ha
  · intro t c hc hcomp
    rw [update_apply]
    split
    · rfl
    · exact h.closing hc hcomp

/-- A leader gives its gate up. -/
theorem release (h : Excl fl act next held sect) (g : GateId) :
    Excl fl act next (update held g none) sect := by
  refine { leads := ?_, bound := h.bound, closing := h.closing }
  intro g' a ha
  rw [update_apply] at ha
  split at ha
  · cases ha
  · exact h.leads ha

/-- The removal of a key whose gate is idle. -/
theorem remove (h : Excl fl act next held sect) {i : InstId} {key : CacheKey}
    (hidle : ∀ g, fl i key = some g → act g = false) :
    Excl (update2 fl i key none) act next held sect := by
  refine { leads := ?_, bound := ?_, closing := h.closing }
  · intro g a ha
    obtain ⟨h1, h2⟩ := h.leads ha
    have hkey : ¬ (a.inst = i ∧ a.key = key) := by
      rintro ⟨rfl, rfl⟩
      rw [hidle g h1] at h2
      cases h2
    rw [update2_of_ne _ hkey]
    exact ⟨h1, h2⟩
  · intro i' key' g hg
    by_cases hk : i' = i ∧ key' = key
    · obtain ⟨rfl, rfl⟩ := hk
      rw [update2_self] at hg
      cases hg
    · rw [update2_of_ne _ hk] at hg
      exact h.bound hg

end Excl

def Shared.active (sh : Shared) (g : GateId) : Bool := (sh.gates g).leaderActive

theorem Shared.active_setGate (sh : Shared) (g : GateId) (v : InFlightGate) :
    (sh.setGate g v).active = update sh.active g v.leaderActive := by
  funext g'
  show (update sh.gates g v g').leaderActive = _
  by_cases hg : g' = g
  · subst hg; rw [update_self, update_self]
  · rw [update_of_ne hg, update_of_ne hg]; rfl

def Hist.sect (h : Hist) (t : Tid) : Option Section := (h.locals t).sect

theorem Hist.sect_next {h : Hist} {t : Tid} {o : Op} {r : o.Resp}
    (hl : ∀ c, ((h.locals t).next o r).sect = some c → c.completed = true → h.sect t = some c) :
    ∀ u c, (h.next t o r).sect u = some c → c.completed = true → h.sect u = some c := by
  intro u c hc hcomp
  rw [Hist.sect, Hist.next_locals] at hc
  by_cases hu : u = t
  · subst hu
    rw [update_self] at hc
    exact hl c hc hcomp
  · rw [update_of_ne hu] at hc
    exact hc

/-- The invariant, of the shared state and the history. -/
def ExclIn (sh : Shared) (h : Hist) : Prop := Excl sh.flights sh.active sh.nextGate h.held h.sect

namespace ExclIn

variable {s : State} {t : Tid}

/-- A registration: it follows, or starts a flight as `OrderlyOp` allows. -/
theorem register (hx : ExclIn s.shared s.hist) (hw : WellFormed s) {g : GateId} {txnId : Nat}
    {asyncWait : Bool}
    (hok : base.ok (s.hist.locals t) (.register g txnId asyncWait))
    (hc : OrderlyOp s t (.register g txnId asyncWait)) :
    ExclIn (s.shared.setGate g ((s.shared.gates g).register txnId asyncWait).1)
      (s.hist.next t (.register g txnId asyncWait) ((s.shared.gates g).register txnId asyncWait).2) := by
  obtain ⟨⟨c, hsect, hgate, -⟩, -⟩ := hok
  rw [ExclIn, Shared.active_setGate]
  cases hact : (s.shared.gates g).leaderActive with
  | true =>
    have hrole : ((s.shared.gates g).register txnId asyncWait).2 = .follower := by
      simp [InFlightGate.register, hact]
    have hkeep : ((s.shared.gates g).register txnId asyncWait).1.leaderActive = true := by
      simp only [InFlightGate.register, hact, if_true]
      split
      · rfl
      · exact hact
    have hheld : (s.hist.next t (.register g txnId asyncWait) .follower).held = s.hist.held := by
      simp only [Hist.next]
      split <;> rfl
    rw [hrole, hkeep, hheld, update_eq_self_iff.mpr hact.symm]
    exact hx.frame (Hist.sect_next fun c hc _ => by cases hc)
  | false =>
    have hreg : (s.shared.gates g).register txnId asyncWait = ({ leaderActive := true }, .leader) := by
      simp [InFlightGate.register, hact]
    obtain ⟨htable, hclosing⟩ := hc hact
    rw [hreg]
    have hheld : (s.hist.next t (.register g txnId asyncWait) .leader).held =
        update s.hist.held g (some ⟨t, c.inst, c.key⟩) := by
      show update s.hist.held g ((s.hist.locals t).sect.map _) = _
      rw [hsect]; rfl
    rw [hheld]
    refine (hx.lead (a := ⟨t, c.inst, c.key⟩) (htable c hsect) fun u c hc hcomp => ?_).frame
      (Hist.sect_next fun c hc _ => by cases hc)
    by_cases hu : u < s.nextTid
    · exact hclosing u hu c hc hcomp
    · rw [Hist.sect, hw.locals u (hw.threads u (Nat.le_of_not_lt hu))] at hc
      cases hc

/-- The completion of a gate, by its leader or while nobody leads it. -/
theorem complete (hx : ExclIn s.shared s.hist) {g : GateId} {wire : Option Wire} {site : CompleteSite}
    {ws : List Nat} (hok : base.ok (s.hist.locals t) (.complete g wire site))
    (hc : OrderlyOp s t (.complete g wire site)) :
    ExclIn (s.shared.setGate g ((s.shared.gates g).complete wire).1)
      (s.hist.next t (.complete g wire site) ws) := by
  obtain ⟨⟨c₀, hsect, hgate, -⟩, -⟩ := hok
  have hheld : (s.hist.next t (.complete g wire site) ws).held =
      if (s.hist.held g).map (·.tid) = some t then update s.hist.held g none
      else s.hist.held := rfl
  -- after the step nobody leads the gate
  have hfree : (s.hist.next t (.complete g wire site) ws).held g = none ∧
      Excl s.shared.flights s.shared.active s.shared.nextGate
        (s.hist.next t (.complete g wire site) ws).held s.hist.sect := by
    rw [hheld]
    split
    · exact ⟨update_self .., hx.release g⟩
    · rename_i hne
      refine ⟨?_, hx⟩
      cases hh : s.hist.held g with
      | none => rfl
      | some a =>
        have hact : s.shared.active g = true := (hx.leads hh).2
        rw [Shared.active, hc.resolve_left hne] at hact
        cases hact
  have hi := hfree.2.idle hfree.1
  rw [ExclIn, Shared.active_setGate]
  refine { leads := hi.leads, bound := hi.bound, closing := ?_ }
  intro u c hcu hcomp
  rw [Hist.sect, Hist.next_locals] at hcu
  by_cases hu : u = t
  · subst hu
    rw [update_self] at hcu
    simp only [Local.next, hsect, Option.map_some, Option.some.injEq] at hcu
    subst hcu
    rw [← hgate]
    exact update_self ..
  · rw [update_of_ne hu] at hcu
    exact hi.closing hcu hcomp

theorem op (hx : ExclIn s.shared s.hist) (hw : WellFormed s) {o : Op} {env : Env} {r : o.Resp}
    {sh' : Shared}
    (hok : base.ok (s.hist.locals t) o) (hc : OrderlyOp s t o)
    (hs : o.sem env s.shared = some (r, sh')) : ExclIn sh' (s.hist.next t o r) := by
  cases o <;> simp only [Op.sem] at hs
  case inst name =>
    cases hs
    have hheld : (s.hist.next t (.inst name) (s.shared.instances name)).held = s.hist.held := by
      simp only [Hist.next]
      split <;> rfl
    rw [ExclIn, hheld]
    refine hx.frame (Hist.sect_next fun c hc _ => ?_)
    cases hi : s.shared.instances name with
    | none => rw [hi] at hc; cases hc
    | some i => rw [hi] at hc; exact hc
  case gateFor i key =>
    split at hs <;> cases hs
    · exact hx.frame (Hist.sect_next fun c hc hcomp => by cases hc; cases hcomp)
    · rename_i hn
      have hactive : (s.shared.setGate s.shared.nextGate {}).active =
          update s.shared.active s.shared.nextGate false := Shared.active_setGate ..
      have ha := hx.alloc hn
      rw [← hactive] at ha
      exact ha.frame (Hist.sect_next fun c hc hcomp => by cases hc; cases hcomp)
  case register g txnId asyncWait => cases hs; exact hx.register hw hok hc
  case complete g wire site => cases hs; exact hx.complete hok hc
  case removeFlight i key =>
    cases hs
    refine (hx.remove fun g hg => ?_).frame (Hist.sect_next fun c hc _ => by cases hc)
    rcases hc g hg with hany | hidle
    · obtain ⟨c, hcs, hcg⟩ := (Option.any_eq_true _ _).mp hany
      obtain ⟨rfl, hcomp⟩ := of_decide_eq_true hcg
      exact hx.closing hcs hcomp
    · exact hidle
  case gateResult g =>
    cases hs
    refine hx.frame (Hist.sect_next fun c hc _ => ?_)
    cases hres : (s.shared.gates g).result with
    | none => rw [hres] at hc; cases hc
    | some w => rw [hres] at hc; exact hc
  case waitForResult g =>
    split at hs
    · cases hs; exact hx.frame (Hist.sect_next fun _ hc _ => hc)
    · split at hs
      · cases hs
      · cases hs; exact hx.frame (Hist.sect_next fun _ hc _ => hc)
  all_goals cases hs; exact hx.frame (Hist.sect_next fun _ hc _ => hc)

theorem step {w : Wiring} {s' : State} {a : Act} (hx : ExclIn s.shared s.hist)
    (hw : WellFormed s) (hb : ∀ t th, s.threads t = some th → base.Holds (s.hist.locals t) th)
    (hc : Orderly s a) (hs : Step w s a s') : ExclIn s'.shared s'.hist := by
  cases hs with
  | op ht hp hsem => exact hx.op hw ((hb _ _ ht).ok hp) (hc _ (nextOp_eq ht hp)) hsem
  | start | enter | ret | resumeIo | resumeLookup | install | dropInstance | addInstance => exact hx

/-- The gate of a leader is the one of its key, so a key has one leader. -/
theorem exclusive (hx : ExclIn s.shared s.hist) : Exclusive s := by
  intro g a ha
  obtain ⟨hfl, hact⟩ := hx.leads ha
  refine ⟨hfl, hact, ?_⟩
  intro g' b hb hi hk
  have hfl' := (hx.leads hb).1
  rw [hi, hk, hfl] at hfl'
  cases hfl'
  rw [ha] at hb
  cases hb
  rfl

end ExclIn

theorem exclIn_init {w : Wiring} {s : State} (h : (machine w).init s) :
    ExclIn s.shared s.hist := by
  obtain ⟨snap, instances, nextInst, rfl⟩ := h
  exact
    { leads := fun h => by cases h
      bound := fun h => by cases h
      closing := fun h => by cases h }

/-- **Exclusion.** In the orderly runs, from its registration as the leader of a key to its own
completion a transaction's gate is the gate of the key, active, and it is the only leader. -/
theorem exclusive_of_orderly (w : Wiring) {s : State} (h : (machine w).Reach Orderly s) :
    Exclusive s := by
  have hx : ExclIn s.shared s.hist :=
    Lts.Reach.inv (L := machine w) (P := fun s => ExclIn s.shared s.hist)
      (fun _ hi => exclIn_init hi)
      (fun _ _ _ hr hx hc hs => hx.step (wellFormed_reach hr) (base_holds hr).2 hc (step_cases hs)) h
  exact hx.exclusive

/-- A leader with a follower: an orderly run, and the leader is the only one. -/
theorem exclusive_of_orderly_sample :
    ∃ s, (machine (sampleWiring .splitIo)).Reach Orderly s ∧
      (s.hist.held 0 = some ⟨0, 0, [1]⟩ ∧ (s.shared.gates 0).waiters = [12]) ∧ Exclusive s := by
  obtain ⟨s, hr, hs⟩ := Lts.exists_exec Orderly
    ([Act.start (sampleQuery 11), Act.start (sampleQuery 12)] ++
      toLookup 0 ++ ops 0 8 ++ toLookup 1 ++ ops 1 8)
    (fun s : State => s.hist.held 0 = some ⟨0, 0, [1]⟩ ∧ (s.shared.gates 0).waiters = [12])
    (sampleInit_init .splitIo sampleSnapshot) (by decide +kernel)
  exact ⟨s, hr, hs, exclusive_of_orderly _ hr⟩

/-- A follower whose wait times out removes the key of the leader: the next query of the key leads
a second flight while the first one runs. -/
theorem exclusive_broken :
    ∃ s, (machine (sampleWiring .sync)).Reach Lts.Any s ∧
      s.hist.held 0 = some ⟨0, 0, [1]⟩ ∧ s.hist.held 1 = some ⟨2, 0, [1]⟩ ∧ ¬ Exclusive s := by
  obtain ⟨s, hr, h0, h1⟩ := Lts.exists_exec Lts.Any
    ([Act.start (sampleQuery 1), Act.start (sampleQuery 2), Act.start (sampleQuery 3)] ++
      toLookup 0 ++ ops 0 8 ++ toLookup 1 ++ ops 1 8 ++
      [Act.op 1 { timedOut := true }, Act.op 1 {}] ++
      toLookup 2 ++ ops 2 8)
    (fun s : State => s.hist.held 0 = some ⟨0, 0, [1]⟩ ∧ s.hist.held 1 = some ⟨2, 0, [1]⟩)
    (sampleInit_init .sync sampleSnapshot) (by decide +kernel)
  refine ⟨s, hr, h0, h1, fun hx => ?_⟩
  have h := (hx 0 _ h0).2.2 1 _ h1 rfl rfl
  cases h

end Conduit
