import Conduit.SplitIo.Control

/-!
# Reply routes

`ReplyRoutes` maps a slot to the client of the transaction in it. The ingress inserts the route,
`deliver_reply` takes it. A transaction that policy drops is released without a reply, and its route
stays.

- `RouteHist`: the client of each transaction, its response, and the replies that were sent.
- `Routed`: a route is that of the transaction in its slot; a transaction that finishes with a
  response sends one reply, to its own client.
- `routed_of_answered`: this holds in every run in which no transaction is dropped;
  `route_left`: a dropped transaction leaves its route behind.
-/

namespace Conduit

open Function (update update_of_ne update_self)

/-- A reply that was sent, and the transaction it answers. -/
structure Delivery where
  txn : Nat
  target : ReplyTarget
  wire : Wire
  deriving DecidableEq, Repr

structure RouteHist where
  /-- The route that the ingress inserted for the transaction. -/
  client : Nat → Option ReplyTarget := fun _ => none
  /-- The transactions that finished with a response. -/
  responded : List (Nat × Wire) := []
  delivered : List Delivery := []

namespace RouteHist

/-- An operation for the transaction `n`. -/
def record (h : RouteHist) (n : Nat) : IoOp → RouteHist
  | .insertRoute _ target => { h with client := update h.client n (some target) }
  | .unlock _ _ (.finished (.response wire)) => { h with responded := (n, wire) :: h.responded }
  | .sendReply target wire => { h with delivered := ⟨n, target, wire⟩ :: h.delivered }
  | _ => h

def next (s : IoState) (a : IoAct) (h : RouteHist) : RouteHist :=
  match s.performed a with
  | some (t, ⟨o, _⟩) =>
    match s.hist.actor t with
    | some n => h.record n o
    | none => h
  | none => h

end RouteHist

/-- The runtime with the history of the routes. -/
abbrev routes (w : SplitWiring) : Lts := (split w).record {} RouteHist.next

structure Routed (x : IoState × RouteHist) : Prop where
  /-- A route is that of the transaction in the slot. -/
  inUse : ∀ id target, x.1.shared.routes id = some target →
    ∃ n, x.1.hist.serial id = some n ∧ x.2.client n = some target
  /-- A reply goes to the client of the transaction that it answers. -/
  own : ∀ d ∈ x.2.delivered, x.2.client d.txn = some d.target ∧ (d.txn, d.wire) ∈ x.2.responded
  once : (x.2.delivered.map (·.txn)).Nodup
  /-- When no thread works for a transaction any more, its response has been sent. -/
  all : ∀ n wire, (n, wire) ∈ x.2.responded → (∀ t, x.1.hist.actor t ≠ some n) →
    ∃ target, ⟨n, target, wire⟩ ∈ x.2.delivered

/-- No transaction is dropped. -/
def Answered (x : IoState × RouteHist) : IoAct → Prop
  | .op t _ =>
    match x.1.nextOp t with
    | some (.unlock _ _ (.finished .dropped)) => False
    | _ => True
  | _ => True

instance (x : IoState × RouteHist) : (a : IoAct) → Decidable (Answered x a)
  | .op _ _ => by
    dsimp only [Answered]
    split <;> infer_instance
  | .start _ _ | .ret _ | .wake _ => .isTrue trivial

/-! ## The invariant -/

/-- How far a transaction is with its route. -/
inductive RouteStage where
  | before
  | inserted
  | sending (target : ReplyTarget) (wire : Wire)
  | sent
  deriving DecidableEq, Repr

def Loc.routeStage : Loc → RouteStage
  | .ready _ => .before
  | .delivering _ target wire => .sending target wire
  | .delivered _ | .releasing _ _ => .sent
  | _ => .inserted

/-- How far the transaction in the slot is. -/
def IoHist.routeStage (h : IoHist) (id : SlotId) : RouteStage :=
  match h.ctl id with
  | .thread t => (h.loc t).routeStage
  | _ => .inserted

/-- The replies so far do not answer the transaction. -/
def RouteHist.Unsent (h : RouteHist) (n : Nat) : Prop := ∀ d ∈ h.delivered, d.txn ≠ n

/-- What is known of the route of the slot `id` with the transaction `n`. -/
def StageOk (route : Option ReplyTarget) (h : RouteHist) (n : Nat) : RouteStage → Prop
  | .before => route = none ∧ h.Unsent n
  | .inserted => (∃ target, route = some target ∧ h.client n = some target) ∧ h.Unsent n
  | .sending target wire =>
    route = none ∧ h.client n = some target ∧ (n, wire) ∈ h.responded ∧ h.Unsent n
  | .sent => route = none

/-- The thread has no response to send. -/
def Loc.mute : Loc → Bool
  | .finished _ _ | .delivering _ _ _ => false
  | _ => true

/-- The thread is about to send the response `wire`. -/
def Loc.Sends (l : Loc) (wire : Wire) : Prop :=
  (∃ id, l = .finished id (.response wire)) ∨ ∃ id target, l = .delivering id target wire

structure Routes (x : IoState × RouteHist) : Prop where
  dead : ∀ id, x.1.hist.serial id = none → x.1.shared.routes id = none
  slot : ∀ id n, x.1.hist.serial id = some n →
    StageOk (x.1.shared.routes id) x.2 n (x.1.hist.routeStage id)
  finished : ∀ t id wire n, x.1.hist.loc t = .finished id (.response wire) →
    x.1.hist.actor t = some n → (n, wire) ∈ x.2.responded
  dropped : ∀ t id, x.1.hist.loc t ≠ .finished id .dropped
  own : ∀ d ∈ x.2.delivered, x.2.client d.txn = some d.target ∧ (d.txn, d.wire) ∈ x.2.responded
  once : (x.2.delivered.map (·.txn)).Nodup
  lt : ∀ d ∈ x.2.delivered, d.txn < x.1.hist.nextSerial
  pending : ∀ n wire, (n, wire) ∈ x.2.responded →
    (∃ target, ⟨n, target, wire⟩ ∈ x.2.delivered) ∨
      ∃ t, x.1.hist.actor t = some n ∧ (x.1.hist.loc t).Sends wire

theorem routed_of_routes {x : IoState × RouteHist} (h : Routes x) : Routed x := by
  refine ⟨fun id target hroute => ?_, h.own, h.once, fun n wire hm hnone => ?_⟩
  · cases hn : x.1.hist.serial id with
    | none =>
      rw [h.dead id hn] at hroute
      cases hroute
    | some n =>
      have hok := h.slot id n hn
      rw [hroute] at hok
      cases hstage : x.1.hist.routeStage id with
      | inserted =>
        rw [hstage] at hok
        obtain ⟨⟨target', heq, hclient⟩, -⟩ := hok
        cases heq
        exact ⟨n, rfl, hclient⟩
      | before | sending _ _ =>
        rw [hstage] at hok
        cases hok.1
      | sent =>
        rw [hstage] at hok
        cases hok
  · rcases h.pending n wire hm with hsent | ⟨t, ha, -⟩
    · exact hsent
    · exact absurd ha (hnone t)

section

variable {w : SplitWiring} {s s' : IoState} {h : RouteHist} {t : Tid} {id : SlotId} {n : Nat}

theorem Loc.not_sends {l : Loc} (hmute : l.mute = true) (wire : Wire) : ¬ l.Sends wire := by
  rintro (⟨id, rfl⟩ | ⟨id, target, rfl⟩) <;> cases hmute

theorem Routes.keep (hr : Routes (s, h)) (hroutes : s'.shared.routes = s.shared.routes)
    (hserial : s'.hist.serial = s.hist.serial) (hnext : s'.hist.nextSerial = s.hist.nextSerial)
    (hstage : ∀ id n, s.hist.serial id = some n → s'.hist.routeStage id = s.hist.routeStage id)
    (hother : ∀ t', t' ≠ t → s'.hist.loc t' = s.hist.loc t' ∧ s'.hist.actor t' = s.hist.actor t')
    (hfin : (s'.hist.loc t).mute = true) (hsends : (s.hist.loc t).mute = true) : Routes (s', h) := by
  refine ⟨fun id hn => ?_, fun id n hn => ?_, fun t' id wire n hl ha => ?_, fun t' id hl => ?_, hr.own,
    hr.once, fun d hd => ?_, fun n wire hm => ?_⟩
  · simp only [hroutes]
    simp only [hserial] at hn
    exact hr.dead id hn
  · simp only [hserial] at hn
    simp only [hroutes, hstage id n hn]
    exact hr.slot id n hn
  · by_cases hne : t' = t
    · subst hne
      rw [show s'.hist.loc t' = _ from hl] at hfin
      cases hfin
    · simp only [(hother t' hne).1] at hl
      simp only [(hother t' hne).2] at ha
      exact hr.finished t' id wire n hl ha
  · by_cases hne : t' = t
    · subst hne
      rw [show s'.hist.loc t' = _ from hl] at hfin
      cases hfin
    · simp only [(hother t' hne).1] at hl
      exact hr.dropped t' id hl
  · simp only [hnext]
    exact hr.lt d hd
  · rcases hr.pending n wire hm with hsent | ⟨t', ha, hsend⟩
    · exact .inl hsent
    · have hne : t' ≠ t := by
        rintro rfl
        exact Loc.not_sends hsends wire hsend
      refine .inr ⟨t', ?_, ?_⟩
      · simp only [(hother t' hne).2]
        exact ha
      · simp only [(hother t' hne).1]
        exact hsend

variable {h' : IoHist}

/-- The stage of a slot that the thread may not change. -/
theorem routeStage_of_ne (hctl : h'.ctl id = s.hist.ctl id)
    (hother : ∀ t', t' ≠ t → h'.loc t' = s.hist.loc t') (hne : s.hist.ctl id ≠ .thread t) :
    h'.routeStage id = s.hist.routeStage id := by
  unfold IoHist.routeStage
  rw [hctl]
  cases hc : s.hist.ctl id with
  | thread t' =>
    simp only
    rw [hother t']
    rintro rfl
    exact hne hc
  | free | queued | waiting => rfl

theorem routeStage_thread (hc : h'.ctl id = .thread t) :
    h'.routeStage id = (h'.loc t).routeStage := by
  unfold IoHist.routeStage
  rw [hc]

theorem routeStage_quiet (hctl : h'.ctl = s.hist.ctl)
    (hother : ∀ t', t' ≠ t → h'.loc t' = s.hist.loc t')
    (hl : (h'.loc t).routeStage = (s.hist.loc t).routeStage) :
    h'.routeStage id = s.hist.routeStage id := by
  by_cases hc : s.hist.ctl id = .thread t
  · rw [routeStage_thread (hctl ▸ hc), routeStage_thread hc, hl]
  · exact routeStage_of_ne (by rw [hctl]) hother hc

variable {o : IoOp} {id' : SlotId} {r : o.Resp}

/-- A worker gets hold of a slot whose route is inserted. -/
theorem routeStage_hold (hc : Control w s) (htr : s.hist.transfer t o r = s.hist.hold t id)
    (hl : ((s.hist.loc t).next w o r).routeStage = .inserted)
    (hown : s.hist.routeStage id = .inserted)
    (hmine : ∀ id' m, (s.hist.loc t).slot = some (id', m) → id' = id) :
    (s.hist.next w t o r).routeStage id' = s.hist.routeStage id' := by
  have hctl : (s.hist.next w t o r).ctl = update s.hist.ctl id (.thread t) := by
    simp only [IoHist.next, htr]
    rfl
  have hloc : (s.hist.next w t o r).loc t = (s.hist.loc t).next w o r := by simp [IoHist.next]
  by_cases hid : id' = id
  · subst hid
    rw [routeStage_thread (t := t) (by rw [hctl, update_self]), hloc, hl, hown]
  · refine routeStage_of_ne (by rw [hctl, update_of_ne hid])
      (fun t' hne => (IoHist.next_of_ne hne).1) fun hthread => ?_
    obtain ⟨m, hslot, -⟩ := hc.parts.slots.held hthread
    exact hid (hmine id' m hslot)

variable {m : Mode}

/-- A thread leaves a slot whose route is inserted. -/
theorem routeStage_letGo {c : Ctl} (hc : Control w s)
    (htr : s.hist.transfer t o r = s.hist.letGo t id c) (hcne : ∀ t', c ≠ .thread t')
    (hslot : (s.hist.loc t).slot = some (id, m)) (hl : (s.hist.loc t).routeStage = .inserted) :
    (s.hist.next w t o r).routeStage id' = s.hist.routeStage id' := by
  have hctl : (s.hist.next w t o r).ctl = update s.hist.ctl id c := by
    simp only [IoHist.next, htr]
    rfl
  by_cases hid : id' = id
  · subst hid
    rw [routeStage_thread (hc.parts.slots.thread t _ m hslot), hl]
    unfold IoHist.routeStage
    rw [hctl, update_self]
    cases c with
    | thread t' => exact absurd rfl (hcne t')
    | free | queued | waiting => rfl
  · refine routeStage_of_ne (by rw [hctl, update_of_ne hid])
      (fun t' hne => (IoHist.next_of_ne hne).1) fun hthread => ?_
    obtain ⟨m', hslot', -⟩ := hc.parts.slots.held hthread
    rw [hslot] at hslot'
    cases hslot'
    exact hid rfl

theorem StageOk.mono {route : Option ReplyTarget} {h' : RouteHist} {stage : RouteStage}
    (hok : StageOk route h n stage) (hclient : h'.client n = h.client n)
    (hresp : ∀ x ∈ h.responded, x ∈ h'.responded) (hunsent : h.Unsent n → h'.Unsent n) :
    StageOk route h' n stage := by
  cases stage with
  | before => exact ⟨hok.1, hunsent hok.2⟩
  | inserted =>
    obtain ⟨⟨target, hroute, hc⟩, hu⟩ := hok
    exact ⟨⟨target, hroute, hclient.trans hc⟩, hunsent hu⟩
  | sending target wire =>
    obtain ⟨hroute, hc, hm, hu⟩ := hok
    exact ⟨hroute, hclient.trans hc, hresp _ hm, hunsent hu⟩
  | sent => exact hok

variable {shared : IoShared} {threads : Tid → Option (IoProg Unit)}

/-- What an operation of a thread on its own slot has to show: the rest about the other slots. -/
theorem routes_own (hc : Control w s) (hr : Routes (s, h)) {h' : RouteHist}
    (hl : (s.hist.loc t).slot = some (id, m)) (hctl : (s.hist.transfer t o r).ctl = s.hist.ctl)
    (hroutes : ∀ id', id' ≠ id → shared.routes id' = s.shared.routes id')
    (hserial : ∀ id', id' ≠ id → (s.hist.transfer t o r).serial id' = s.hist.serial id')
    (hclient : ∀ id' n, id' ≠ id → s.hist.serial id' = some n → h'.client n = h.client n)
    (hresp : ∀ x ∈ h.responded, x ∈ h'.responded)
    (hunsent : ∀ id' n, id' ≠ id → s.hist.serial id' = some n → h.Unsent n → h'.Unsent n)
    (hdead : (s.hist.transfer t o r).serial id = none → shared.routes id = none)
    (hslot : ∀ n, (s.hist.transfer t o r).serial id = some n →
      StageOk (shared.routes id) h' n ((s.hist.loc t).next w o r).routeStage)
    (hfin : ∀ id' wire n, (s.hist.loc t).next w o r = .finished id' (.response wire) →
      (s.hist.transfer t o r).actor t = some n → (n, wire) ∈ h'.responded)
    (hdrop : ∀ id', (s.hist.loc t).next w o r ≠ .finished id' .dropped)
    (hown : ∀ d ∈ h'.delivered, h'.client d.txn = some d.target ∧ (d.txn, d.wire) ∈ h'.responded)
    (honce : (h'.delivered.map (·.txn)).Nodup)
    (hlt : ∀ d ∈ h'.delivered, d.txn < (s.hist.transfer t o r).nextSerial)
    (hpending : ∀ n wire, (n, wire) ∈ h'.responded →
      (∃ target, ⟨n, target, wire⟩ ∈ h'.delivered) ∨
        (∃ t', t' ≠ t ∧ s.hist.actor t' = some n ∧ (s.hist.loc t').Sends wire) ∨
        ((s.hist.transfer t o r).actor t = some n ∧ ((s.hist.loc t).next w o r).Sends wire)) :
    Routes (⟨shared, threads, s.hist.next w t o r⟩, h') := by
  have hloc : (s.hist.next w t o r).loc t = (s.hist.loc t).next w o r := by simp [IoHist.next]
  have hother : ∀ t', t' ≠ t → (s.hist.next w t o r).loc t' = s.hist.loc t' ∧
      (s.hist.next w t o r).actor t' = s.hist.actor t' := fun t' hne => IoHist.next_of_ne hne
  have hmine := hc.parts.slots.thread t id m hl
  have hstage : ∀ id', id' ≠ id → (s.hist.next w t o r).routeStage id' = s.hist.routeStage id' := by
    intro id' hne
    refine routeStage_of_ne (congrFun hctl id') (fun t' hne => (hother t' hne).1) fun hthread => ?_
    obtain ⟨m', hl', -⟩ := hc.parts.slots.held hthread
    rw [hl] at hl'
    cases hl'
    exact hne rfl
  refine ⟨fun id' hn => ?_, fun id' n hn => ?_, fun t' id' wire n hl' ha => ?_, fun t' id' hl' => ?_,
    hown, honce, hlt, fun n wire hm => ?_⟩
  · by_cases hne : id' = id
    · exact hne ▸ hdead (hne ▸ hn)
    · exact (hroutes id' hne).trans (hr.dead id' ((hserial id' hne).symm.trans hn))
  · by_cases hne : id' = id
    · subst hne
      have hown : (s.hist.next w t o r).ctl id' = .thread t := (congrFun hctl id').trans hmine
      simp only [routeStage_thread hown, hloc]
      exact hslot n hn
    · have hn : s.hist.serial id' = some n := (hserial id' hne).symm.trans hn
      simp only [hstage id' hne, hroutes id' hne]
      exact (hr.slot id' n hn).mono (hclient id' n hne hn) hresp (hunsent id' n hne hn)
  · by_cases hne : t' = t
    · subst hne
      exact hfin id' wire n (hloc.symm.trans hl') ha
    · simp only [(hother t' hne).1] at hl'
      simp only [(hother t' hne).2] at ha
      exact hresp _ (hr.finished t' id' wire n hl' ha)
  · by_cases hne : t' = t
    · subst hne
      exact hdrop id' (hloc.symm.trans hl')
    · simp only [(hother t' hne).1] at hl'
      exact hr.dropped t' id' hl'
  · rcases hpending n wire hm with hsent | ⟨t', hne, ha, hsend⟩ | ⟨ha, hsend⟩
    · exact .inl hsent
    · refine .inr ⟨t', (hother t' hne).2.trans ha, ?_⟩
      simp only [(hother t' hne).1]
      exact hsend
    · refine .inr ⟨t, ha, ?_⟩
      simp only [hloc]
      exact hsend

variable {wire : Wire}

/-- The responses that a thread other than `t` is about to send, or that are sent. -/
theorem Routes.pending_of_ne (hr : Routes (s, h)) (hmute : (s.hist.loc t).mute = true)
    (hm : (n, wire) ∈ h.responded) :
    (∃ target, ⟨n, target, wire⟩ ∈ h.delivered) ∨
      ∃ t', t' ≠ t ∧ s.hist.actor t' = some n ∧ (s.hist.loc t').Sends wire := by
  rcases hr.pending n wire hm with hsent | ⟨t', ha, hsend⟩
  · exact .inl hsent
  · refine .inr ⟨t', ?_, ha, hsend⟩
    rintro rfl
    exact Loc.not_sends hmute wire hsend

variable {txn : Transaction}

theorem routes_setup (hc : Control w s) (hr : Routes (s, h)) {r : Bool}
    (hloc : s.hist.loc t = .marked id) (hroutes : shared.routes = s.shared.routes) :
    Routes (⟨shared, threads, s.hist.next w t (.setup id txn) r⟩, h) := by
  have hl : (s.hist.loc t).slot = some (id, .marked) := by rw [hloc]; rfl
  have hnone : s.hist.serial id = none := (hc.parts.slots.own hl).1.dead rfl
  refine routes_own hc hr hl rfl (fun id' _ => by rw [hroutes])
    (fun id' hne => update_of_ne hne _ _) (fun _ _ _ _ => rfl) (fun _ hx => hx)
    (fun _ _ _ _ hu => hu) (fun hdead => ?_) (fun n hn => ?_) (fun _ _ _ hfin => ?_) (fun _ hfin => ?_)
    hr.own hr.once (fun d hd => ?_) (fun n wire hm => ?_)
  · simp only [IoHist.transfer, update_self] at hdead
    cases hdead
  · simp only [IoHist.transfer, update_self] at hn
    cases hn
    refine ⟨?_, fun d hd heq => ?_⟩
    · rw [hroutes]
      exact hr.dead id hnone
    · have hlt := hr.lt d hd
      simp only [heq] at hlt
      exact absurd hlt (Nat.lt_irrefl _)
  · cases hfin
  · cases hfin
  · exact Nat.lt_succ_of_lt (hr.lt d hd)
  · refine (hr.pending_of_ne (t := t) ?_ hm).imp_right .inl
    rw [hloc]
    rfl

variable {target : ReplyTarget}

theorem routes_insertRoute (hc : Control w s) (hr : Routes (s, h)) {r : Unit}
    (hloc : s.hist.loc t = .ready id) (hn : s.hist.serial id = some n) :
    Routes (⟨{ s.shared with routes := update s.shared.routes id (some target) }, threads,
        s.hist.next w t (.insertRoute id target) r⟩,
      { h with client := update h.client n (some target) }) := by
  have hl : (s.hist.loc t).slot = some (id, .ingress) := by rw [hloc]; rfl
  have hstage : s.hist.routeStage id = .before := by
    rw [routeStage_thread (hc.parts.slots.thread t id _ hl), hloc]
    rfl
  obtain ⟨-, hunsent⟩ : _ ∧ h.Unsent n := by simpa only [hstage, StageOk] using hr.slot id n hn
  refine routes_own hc hr hl rfl (fun id' hne => update_of_ne hne _ _) (fun _ _ => rfl)
    (fun id' n' hne hn' => ?_) (fun _ hx => hx) (fun _ _ _ _ hu => hu) (fun hdead => ?_)
    (fun n' hn' => ?_) (fun _ _ _ hfin => ?_) (fun _ hfin => ?_) (fun d hd => ?_) hr.once hr.lt
    (fun n' wire hm => ?_)
  · refine update_of_ne ?_ _ _
    rintro rfl
    exact hne (hc.parts.serials.inj id' id n' hn' hn)
  · rw [show (s.hist.transfer t (.insertRoute id target) r).serial id = some n from hn] at hdead
    cases hdead
  · rw [show (s.hist.transfer t (.insertRoute id target) r).serial id = some n from hn] at hn'
    cases hn'
    exact ⟨⟨target, update_self _ _ _, update_self _ _ _⟩, hunsent⟩
  · cases hfin
  · cases hfin
  · obtain ⟨hclient, hresp⟩ := hr.own d hd
    refine ⟨?_, hresp⟩
    exact (update_of_ne (hunsent d hd) _ _).trans hclient
  · refine (hr.pending_of_ne (t := t) ?_ hm).imp_right .inl
    rw [hloc]
    rfl

theorem routes_unlock (hc : Control w s) (hr : Routes (s, h)) {r : Unit} {debt : Option String}
    (hloc : s.hist.loc t = .running id debt) (hroutes : shared.routes = s.shared.routes)
    (ha : s.hist.actor t = some n) :
    Routes (⟨shared, threads, s.hist.next w t (.unlock id txn (.finished (.response wire))) r⟩,
      { h with responded := (n, wire) :: h.responded }) := by
  have hl : (s.hist.loc t).slot = some (id, .busy) := by rw [hloc]; rfl
  have hstage : s.hist.routeStage id = .inserted := by
    rw [routeStage_thread (hc.parts.slots.thread t id _ hl), hloc]
    rfl
  have hdead : s.hist.serial id ≠ none := by
    rw [← (hc.parts.slots.own hl).2 rfl, ha]
    simp
  refine routes_own hc hr hl rfl (fun _ _ => by rw [hroutes]) (fun _ _ => rfl) (fun _ _ _ _ => rfl)
    (fun _ hx => List.mem_cons_of_mem _ hx) (fun _ _ _ _ hu => hu) (fun hnone => absurd hnone hdead)
    (fun n' hn' => ?_) (fun id' wire' n' hfin ha' => ?_) (fun _ hfin => ?_) (fun d hd => ?_) hr.once
    hr.lt (fun n' wire' hm => ?_)
  · have hok := hr.slot id n' hn'
    rw [hroutes]
    simp only [hstage] at hok
    exact hok.mono rfl (fun _ hx => List.mem_cons_of_mem _ hx) fun hu => hu
  · cases hfin
    rw [show (s.hist.transfer t (.unlock id txn (.finished (.response wire))) r).actor t = some n from ha]
      at ha'
    cases ha'
    exact List.mem_cons_self
  · cases hfin
  · obtain ⟨hclient, hresp⟩ := hr.own d hd
    exact ⟨hclient, List.mem_cons_of_mem _ hresp⟩
  · rcases List.mem_cons.mp hm with heq | hm
    · cases heq
      exact .inr (.inr ⟨ha, .inl ⟨id, rfl⟩⟩)
    · refine (hr.pending_of_ne (t := t) ?_ hm).imp_right .inl
      rw [hloc]
      rfl

theorem routes_takeRoute (hc : Control w s) (hr : Routes (s, h))
    (hloc : s.hist.loc t = .finished id (.response wire)) :
    Routes (⟨{ s.shared with routes := update s.shared.routes id none }, threads,
      s.hist.next w t (.takeRoute id) (s.shared.routes id)⟩, h) := by
  have hl : (s.hist.loc t).slot = some (id, .policy) := by rw [hloc]; rfl
  obtain ⟨n, hn, ha⟩ := hc.parts.slots.txn hl rfl
  have hstage : s.hist.routeStage id = .inserted := by
    rw [routeStage_thread (hc.parts.slots.thread t id _ hl), hloc]
    rfl
  have hok := hr.slot id n hn
  simp only [hstage] at hok
  obtain ⟨⟨target, hroute, hclient⟩, hunsent⟩ := hok
  have hnext : (s.hist.loc t).next w (.takeRoute id) (s.shared.routes id) =
      .delivering id target wire := by
    rw [hloc, hroute]
    rfl
  refine routes_own hc hr hl rfl (fun id' hne => update_of_ne hne _ _) (fun _ _ => rfl)
    (fun _ _ _ _ => rfl) (fun _ hx => hx) (fun _ _ _ _ hu => hu) (fun _ => update_self _ _ _)
    (fun n' hn' => ?_) (fun _ _ _ hfin => ?_) (fun _ hfin => ?_) hr.own hr.once hr.lt
    (fun n' wire' hm => ?_)
  · rw [show (s.hist.transfer t (.takeRoute id) (s.shared.routes id)).serial id = some n from hn] at hn'
    cases hn'
    rw [hnext]
    exact ⟨update_self _ _ _, hclient, hr.finished t id wire n hloc ha, hunsent⟩
  · rw [hnext] at hfin
    cases hfin
  · rw [hnext] at hfin
    cases hfin
  · rcases hr.pending n' wire' hm with hsent | ⟨t', ha', hsend⟩
    · exact .inl hsent
    · by_cases hne : t' = t
      · subst hne
        refine .inr (.inr ⟨ha', ?_⟩)
        simp only [hloc] at hsend
        rw [hnext]
        rcases hsend with ⟨id', heq⟩ | ⟨id', target', heq⟩
        · cases heq
          exact .inr ⟨id, target, rfl⟩
        · cases heq
      · exact .inr (.inl ⟨t', hne, ha', hsend⟩)

theorem routes_sendReply (hc : Control w s) (hr : Routes (s, h)) {r : Unit}
    (hloc : s.hist.loc t = .delivering id target wire) (hn : s.hist.serial id = some n) :
    Routes (⟨s.shared, threads, s.hist.next w t (.sendReply target wire) r⟩,
      { h with delivered := ⟨n, target, wire⟩ :: h.delivered }) := by
  have hl : (s.hist.loc t).slot = some (id, .policy) := by rw [hloc]; rfl
  have ha : s.hist.actor t = some n := ((hc.parts.slots.own hl).2 rfl).trans hn
  have hstage : s.hist.routeStage id = .sending target wire := by
    rw [routeStage_thread (hc.parts.slots.thread t id _ hl), hloc]
    rfl
  have hok := hr.slot id n hn
  simp only [hstage] at hok
  obtain ⟨hroute, hclient, hresp, hunsent⟩ := hok
  have hnext : (s.hist.loc t).next w (.sendReply target wire) r = .delivered id := by
    rw [hloc]
    rfl
  refine routes_own hc hr hl rfl (fun _ _ => rfl) (fun _ _ => rfl) (fun _ _ _ _ => rfl) (fun _ hx => hx)
    (fun id' n' hne hn' hu d hd => ?_) (fun _ => hroute) (fun n' hn' => ?_) (fun _ _ _ hfin => ?_)
    (fun _ hfin => ?_) (fun d hd => ?_) ?_ (fun d hd => ?_) (fun n' wire' hm => ?_)
  · rcases List.mem_cons.mp hd with rfl | hd
    · rintro rfl
      exact hne (hc.parts.serials.inj id' id _ hn' hn)
    · exact hu d hd
  · rw [hnext]
    exact hroute
  · rw [hnext] at hfin
    cases hfin
  · rw [hnext] at hfin
    cases hfin
  · rcases List.mem_cons.mp hd with rfl | hd
    · exact ⟨hclient, hresp⟩
    · exact hr.own d hd
  · refine List.nodup_cons.mpr ⟨fun hmem => ?_, hr.once⟩
    obtain ⟨d, hd, heq⟩ := List.mem_map.mp hmem
    exact hunsent d hd heq
  · rcases List.mem_cons.mp hd with rfl | hd
    · exact hc.parts.serials.lt id n hn
    · exact hr.lt d hd
  · rcases hr.pending n' wire' hm with ⟨target', hsent⟩ | ⟨t', ha', hsend⟩
    · exact .inl ⟨target', List.mem_cons_of_mem _ hsent⟩
    · by_cases hne : t' = t
      · subst hne
        simp only [ha] at ha'
        cases ha'
        simp only [hloc] at hsend
        rcases hsend with ⟨id', heq⟩ | ⟨id', target', heq⟩
        · cases heq
        · cases heq
          exact .inl ⟨target, List.mem_cons_self⟩
      · exact .inr (.inl ⟨t', hne, ha', hsend⟩)

theorem routes_clearActive (hc : Control w s) (hr : Routes (s, h)) {pool : Option String} {r : Bool}
    (hloc : s.hist.loc t = .releasing id pool) (hroutes : shared.routes = s.shared.routes) :
    Routes (⟨shared, threads, s.hist.next w t (.clearActive id) r⟩, h) := by
  have hl : (s.hist.loc t).slot = some (id, .policy) := by rw [hloc]; rfl
  obtain ⟨n, hn, -⟩ := hc.parts.slots.txn hl rfl
  have hstage : s.hist.routeStage id = .sent := by
    rw [routeStage_thread (hc.parts.slots.thread t id _ hl), hloc]
    rfl
  have hroute := hr.slot id n hn
  simp only [hstage] at hroute
  refine routes_own hc hr hl rfl (fun _ _ => by rw [hroutes]) (fun id' hne => update_of_ne hne _ _)
    (fun _ _ _ _ => rfl) (fun _ hx => hx) (fun _ _ _ _ hu => hu) (fun _ => by rw [hroutes]; exact hroute)
    (fun n' hn' => ?_) (fun _ _ _ hfin => ?_) (fun _ hfin => ?_) hr.own hr.once hr.lt
    (fun n' wire' hm => ?_)
  · simp only [IoHist.transfer, update_self] at hn'
    cases hn'
  · rw [hloc] at hfin
    cases hfin
  · rw [hloc] at hfin
    cases hfin
  · refine (hr.pending_of_ne (t := t) ?_ hm).imp_right .inl
    rw [hloc]
    rfl

variable {a : IoAct}

/-- An operation of a worker on its own slot is recorded for its transaction. -/
theorem RouteHist.next_own (hc : Control w s) (hperf : s.performed a = some (t, ⟨o, r⟩))
    (hl : (s.hist.loc t).slot = some (id, m)) (hlive : m.live = true) :
    ∃ n, s.hist.serial id = some n ∧ s.hist.actor t = some n ∧ h.next s a = h.record n o := by
  obtain ⟨n, hn, ha⟩ := hc.parts.slots.txn hl hlive
  refine ⟨n, hn, ha, ?_⟩
  simp [RouteHist.next, hperf, ha]

/-- Most operations are not recorded. -/
theorem RouteHist.next_same (hperf : s.performed a = some (t, ⟨o, r⟩))
    (hsame : ∀ n, h.record n o = h) : h.next s a = h := by
  simp only [RouteHist.next, hperf]
  split
  · exact hsame _
  · rfl

section

/-! Operations that are not about routes, of a thread that is about no route either. -/

variable {l l' : Loc} (hr : Routes (s, h)) (hm : IoMove w s t o r shared l l')
  (hpart : (o.part == .routes) = false) (hmute : l.mute = true ∧ l'.mute = true)

include hr hm hpart hmute

/-- One that moves slots only between stages with a route. -/
theorem Routes.plainOp
    (hserial : (s.hist.transfer t o r).serial = s.hist.serial ∧
      (s.hist.transfer t o r).nextSerial = s.hist.nextSerial)
    (hstage : ∀ id n, s.hist.serial id = some n →
      (s.hist.next w t o r).routeStage id = s.hist.routeStage id) :
    Routes (⟨shared, threads, s.hist.next w t o r⟩, h) := by
  refine hr.keep (t := t) (hm.agree.routes (by simpa using hpart)) hserial.1 hserial.2 hstage
    (fun t' hne => IoHist.next_of_ne hne) ?_ (hm.before ▸ hmute.1)
  simp only [hm.after]
  exact hmute.2

/-- One that moves the thread and no slot. -/
theorem Routes.sameOp (htr : s.hist.transfer t o r = s.hist) (hl : l'.routeStage = l.routeStage) :
    Routes (⟨shared, threads, s.hist.next w t o r⟩, h) := by
  refine hr.plainOp hm hpart hmute (by rw [htr]; exact ⟨rfl, rfl⟩) fun id n _ => ?_
  refine routeStage_quiet (t := t) (by simp only [IoHist.next, htr])
    (fun t' hne => (IoHist.next_of_ne hne).1) ?_
  rw [hm.after, hl, hm.before]

/-- One that moves a slot without a transaction. -/
theorem Routes.emptyOp {c : Ctl} (hc : Control w s)
    (htr : s.hist.transfer t o r = { s.hist with ctl := update s.hist.ctl id c })
    (hnone : s.hist.serial id = none)
    (hmine : ∀ id' m, (s.hist.loc t).slot = some (id', m) → id' = id) :
    Routes (⟨shared, threads, s.hist.next w t o r⟩, h) := by
  refine hr.plainOp hm hpart hmute (by rw [htr]; exact ⟨rfl, rfl⟩) fun id' n hn => ?_
  have hne : id' ≠ id := by
    rintro rfl
    rw [hnone] at hn
    cases hn
  refine routeStage_of_ne (t := t) ?_ (fun t' hne => (IoHist.next_of_ne hne).1) fun hthread => ?_
  · simp only [IoHist.next, htr]
    exact update_of_ne hne _ _
  · obtain ⟨m, hl, -⟩ := hc.parts.slots.held hthread
    exact hne (hmine _ _ hl)

/-- One by which the thread takes a slot that has a route. -/
theorem Routes.holdOp (hc : Control w s) (htr : s.hist.transfer t o r = s.hist.hold t id)
    (hl : l'.routeStage = .inserted) (hown : s.hist.routeStage id = .inserted)
    (hmine : ∀ id' m, (s.hist.loc t).slot = some (id', m) → id' = id) :
    Routes (⟨shared, threads, s.hist.next w t o r⟩, h) := by
  refine hr.plainOp hm hpart hmute (by rw [htr]; exact ⟨rfl, rfl⟩) fun id' n _ => ?_
  refine routeStage_hold hc htr ?_ hown hmine
  rw [← hl, ← hm.after]
  simp [IoHist.next]

end

/-- **One operation keeps the routes, unless it drops a transaction.** -/
theorem routes_op (hc : Control w s) (hr : Routes (s, h)) {env : IoEnv}
    (hok : ioOk w (s.hist.loc t) o) (hmay : ioMay (s.hist.loc t) o r)
    (hs : o.sem env s.shared = some (r, shared)) (hperf : s.performed a = some (t, ⟨o, r⟩))
    (hans : ∀ id txn, o ≠ .unlock id txn (.finished .dropped)) :
    Routes (⟨shared, threads, s.hist.next w t o r⟩, h.next s a) := by
  obtain ⟨l, l', hmove, hm⟩ := IoMove.of_sem hok hmay hs
  have hloc := hm.before
  cases hmove with
  | @takeFree id =>
    -- the slot that was taken has no transaction
    have hslot := (parts_op hc.parts hok hs).2.slots.own (t := t) (m := .empty)
      (by simp only [hm.after]; rfl)
    rw [RouteHist.next_same hperf fun _ => rfl]
    exact hr.emptyOp hm rfl ⟨rfl, rfl⟩ hc rfl (hslot.1.dead rfl) (by simp [hloc, Loc.slot])
  | @returnToFree id pool =>
    have hl : (s.hist.loc t).slot = some (id, .empty) := by rw [hloc]; rfl
    rw [RouteHist.next_same hperf fun _ => rfl]
    exact hr.emptyOp hm rfl ⟨rfl, rfl⟩ hc rfl ((hc.parts.slots.own hl).1.dead rfl)
      (hc.parts.slots.mine hl).1
  | setup =>
    rw [RouteHist.next_same hperf fun _ => rfl]
    exact routes_setup hc hr hloc (hm.agree.routes (by simp [IoOp.part]))
  | insertRoute =>
    obtain ⟨n, hn, -, hnext⟩ :=
      RouteHist.next_own (h := h) hc hperf (m := .ingress) (by rw [hloc]; rfl) rfl
    cases hs
    rw [hnext]
    exact routes_insertRoute hc hr hloc hn
  | takeRoute | noRoute =>
    obtain ⟨hroute, rfl⟩ := Prod.mk.inj (Option.some.inj hs)
    have htake : Routes (⟨_, threads, _⟩, h) := routes_takeRoute hc hr hloc
    rw [hroute] at htake
    rw [RouteHist.next_same hperf fun _ => rfl]
    exact htake
  | sendReply =>
    obtain ⟨n, hn, -, hnext⟩ :=
      RouteHist.next_own (h := h) hc hperf (m := .policy) (by rw [hloc]; rfl) rfl
    cases hs
    rw [hnext]
    exact routes_sendReply hc hr hloc hn
  | clearActive =>
    rw [RouteHist.next_same hperf fun _ => rfl]
    exact routes_clearActive hc hr hloc (hm.agree.routes (by simp [IoOp.part]))
  | @finish id debt txn out =>
    cases out with
    | dropped => exact absurd rfl (hans id txn)
    | response wire =>
      obtain ⟨n, -, ha, hnext⟩ :=
        RouteHist.next_own (h := h) hc hperf (m := .busy) (by rw [hloc]; rfl) rfl
      rw [hnext]
      exact routes_unlock hc hr hloc (hm.agree.routes (by simp [IoOp.part])) ha
  | suspend | pushNew =>
    rw [RouteHist.next_same hperf fun _ => rfl]
    refine hr.plainOp hm rfl ⟨rfl, rfl⟩ ⟨rfl, rfl⟩ fun id' n _ => ?_
    exact routeStage_letGo hc rfl (by simp) (by rw [hloc]; rfl) (by rw [hloc]; rfl)
  | @popNew id =>
    obtain ⟨_, hget, heq⟩ := Option.map_eq_some_iff.mp hs
    cases heq
    have hq := hc.parts.queued.mem id (List.mem_of_getElem? hget)
    rw [RouteHist.next_same hperf fun _ => rfl]
    exact hr.holdOp hm rfl ⟨rfl, rfl⟩ hc rfl rfl (by rw [IoHist.routeStage, hq])
      (by simp [hloc, Loc.slot])
  | @enter id =>
    -- a new slot stays with the worker
    have hl : (s.hist.loc t).slot = some (id, .ingress) := by rw [hloc]; rfl
    rw [RouteHist.next_same hperf fun _ => rfl]
    refine hr.holdOp hm rfl ⟨rfl, rfl⟩ hc rfl rfl ?_ (hc.parts.slots.mine hl).1
    rw [routeStage_thread (hc.parts.slots.thread t id _ hl), hloc]
    rfl
  | wake =>
    simp only [IoOp.sem] at hs
    obtain ⟨-, hres, -⟩ := IoShared.onSlot_eq hs
    rw [isOk_transition _ (by simp)] at hres
    obtain ⟨hwait, -⟩ := hc.parts.slots.waiting (of_decide_eq_true hres.symm)
    rw [RouteHist.next_same hperf fun _ => rfl]
    exact hr.holdOp hm rfl ⟨rfl, rfl⟩ hc rfl rfl (by rw [IoHist.routeStage, hwait])
      (by simp [hloc, Loc.slot])
  | resume =>
    simp only [IoOp.sem] at hs
    obtain ⟨-, hres, -⟩ := IoShared.onSlot_eq hs
    rw [resumeSlot_snd] at hres
    obtain ⟨hwait, -⟩ := hc.parts.slots.waiting (of_decide_eq_true hres.symm)
    rw [RouteHist.next_same hperf fun _ => rfl]
    exact hr.holdOp hm rfl ⟨rfl, rfl⟩ hc rfl rfl (by rw [IoHist.routeStage, hwait])
      (by simp [hloc, Loc.slot])
  | @poolOfDropped id => exact absurd hloc (hr.dropped t id)
  | _ =>
    rw [RouteHist.next_same hperf fun _ => rfl]
    exact hr.sameOp hm rfl ⟨rfl, rfl⟩ rfl rfl

theorem Loc.Done.mute {l : Loc} (h : l.Done) : l.mute = true := by
  unfold Loc.Done at h
  split at h
  · rfl
  · rfl
  · rfl
  · cases h

theorem routes_step (hc : Control w s) (hr : Routes (s, h)) (hans : Answered (s, h) a)
    (hs : s.step w a = some s') : Routes (s', h.next s a) := by
  cases ioStep_cases hs with
  | start | wake =>
    exact ⟨hr.dead, hr.slot, hr.finished, hr.dropped, hr.own, hr.once, hr.lt, hr.pending⟩
  | @ret t ht =>
    have hdone : (s.hist.loc t).Done := hc.prog t _ ht
    refine hr.keep (t := t) rfl rfl rfl (fun id n _ => ?_) (fun t' hne => ⟨?_, ?_⟩) ?_ hdone.mute
    · -- a thread that is done has no slot
      refine routeStage_of_ne (t := t) rfl (fun t' hne => update_of_ne hne _ _) fun hthread => ?_
      obtain ⟨m, hl, -⟩ := hc.parts.slots.held hthread
      rw [hdone.slot] at hl
      cases hl
    · exact update_of_ne hne _ _
    · exact update_of_ne hne _ _
    · simp only [IoHist.reset, update_self]
      rfl
  | @op t env o k r shared ht hsem =>
    obtain ⟨hok, hmay, -⟩ := hc.op ht hsem
    have hop : s.nextOp t = some o := by simp [IoState.nextOp, ht]
    refine routes_op hc hr hok hmay hsem (IoState.performed_op ht hsem) fun id txn heq => ?_
    simp [Answered, hop, heq] at hans

end

/-- **In every run in which no transaction is dropped, a route is that of the transaction in its
slot, and every transaction that finishes with a response sends it once, to its own client.** -/
theorem routed_of_answered (w : SplitWiring) {x : IoState × RouteHist}
    (h : (routes w).Reach Answered x) : Routed x := by
  refine routed_of_routes (Lts.Reach.inv (P := Routes) ?_ ?_ h)
  · rintro ⟨s, h⟩ ⟨hinit, rfl⟩
    obtain ⟨store, table, inflight, rfl, -⟩ := hinit
    exact ⟨fun _ _ => rfl, fun _ _ hn => (by cases hn), fun _ _ _ _ hl => (by cases hl),
      fun _ _ hl => (by cases hl), fun _ hd => (by cases hd), List.nodup_nil,
      fun _ hd => (by cases hd), fun _ _ hm => (by cases hm)⟩
  · rintro ⟨s, h⟩ a x' hr hroutes hans he
    obtain ⟨s', hs, rfl⟩ := Option.map_eq_some_iff.mp he
    exact routes_step (control hr.forget) hroutes hans hs

/-- A query is forwarded and answered. -/
def sampleAnswered : List IoAct :=
  sampleArrival "198.51.100.7:5300" ++ sampleTurn 1 .policy 9 forwardPlan ++
    sampleTurn 2 (.reply 0 backendReply) 4 {} ++ sampleTurn 3 .moveResume 2 {} ++
    sampleTurn 1 .policy 11 finishPlan

theorem routed_of_answered_sample :
    ∃ x, (routes sampleSplitWiring).Reach Answered x ∧
      x.2.delivered = [⟨0, .udp 0 "198.51.100.7:5300", [2]⟩] ∧ Routed x := by
  obtain ⟨x, hr, hobs⟩ := Lts.exists_exec (L := routes sampleSplitWiring) Answered
    (s := (sampleSplit 2 (by decide) fun _ => none, {})) sampleAnswered
    (·.2.delivered = [⟨0, .udp 0 "198.51.100.7:5300", [2]⟩]) ⟨sampleSplit_init _ _ _, rfl⟩
    (by decide +kernel)
  exact ⟨x, hr, hobs, routed_of_answered _ hr⟩

/-- The policy drops the only query, and its slot is free again. The route is still there. -/
theorem route_left :
    ∃ x, (routes sampleSplitWiring).Reach Lts.Any x ∧
      x.1.shared.routes 1 = some (.udp 0 "198.51.100.7:5300") ∧ x.1.hist.serial 1 = none ∧
      1 ∈ x.1.shared.store.freeList :=
  Lts.exists_exec (L := routes sampleSplitWiring) Lts.Any
    (s := (sampleSplit 2 (by decide) fun _ => none, {}))
    (sampleArrival "198.51.100.7:5300" ++ sampleTurn 1 .policy 8 {}) _
    ⟨sampleSplit_init _ _ _, rfl⟩ (by decide +kernel)

end Conduit
