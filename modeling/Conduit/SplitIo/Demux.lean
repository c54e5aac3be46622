import Conduit.SplitIo.Control

/-!
# Resumes and forwards

A forward that an I/O thread completes is turned into an `IoResume`, which goes through a channel
and the policy queue to a worker. The worker applies it to whatever waits in the slot then. A
submission whose send fails takes its forward out of the table and then out of the shards, by key.

Every forward, and every waiter of a flight, has a number (`PendingForward.token`). `DemuxHist`
follows the numbers: whose they are and where they are.

- `Demuxed`: a forward gives at most one resume, it is applied to the transaction that submitted the
  forward, and a failed submission cancels its own forward.
- `Undisturbed`: what a step has to keep to. A forward whose submission fails is not completed, and
  a key is not tracked while it is pending.
- `demuxed_of_undisturbed`: the result; `resume_misapplied`: a run in which a forward is disturbed.
-/

namespace Conduit

open Function (update update_apply update_of_ne update_self)

inductive Place where
  | pending (shard : Nat) (key : ForwardKey)
  | completing (t : Tid)
  | channel
  | moving (t : Tid)
  | queue
  | popped (t : Tid)
  | waiters
  | gone
  deriving DecidableEq, Repr

/-- History: the forwards and the waiters, by their numbers. -/
structure DemuxHist where
  place : Nat → Place := fun _ => .gone
  slot : Nat → SlotId := fun _ => 0
  /-- The transaction that submitted the forward or became the waiter. -/
  owner : Nat → Option Nat := fun _ => none
  /-- The forwards whose resume was sent. -/
  resumed : List Nat := []
  /-- For every resume that was applied, the transaction of its forward and the one in the slot. -/
  applied : List (Option Nat × Option Nat) := []
  /-- For every forward that was cancelled, its transaction and the one that cancelled it. -/
  cancelled : List (Option Nat × Option Nat) := []

namespace DemuxHist

def move (h : DemuxHist) (f : Nat) (p : Place) : DemuxHist :=
  { h with place := update h.place f p }

/-- A new number. -/
def give (h : DemuxHist) (f : Nat) (id : SlotId) (n : Option Nat) (p : Place) : DemuxHist :=
  { h with
    place := update h.place f p
    slot := update h.slot f id
    owner := update h.owner f n }

/-- An operation of the thread `t`. -/
def record (s : IoState) (t : Tid) (h : DemuxHist) : (o : IoOp) → o.Resp → DemuxHist
  | .trackPending i key id, _ => h.give s.shared.nextToken id (s.hist.actor t) (.pending i key)
  | .registerWaiter id, _ => h.give s.shared.nextToken id (s.hist.actor t) .waiters
  | .cancelPending i key, _ =>
    match s.shared.pending i key with
    | some p =>
      { h.move p.token .gone with cancelled := (h.owner p.token, s.hist.actor t) :: h.cancelled }
    | none => h
  | .removePending i key, _ =>
    match s.shared.pending i key with
    | some p => h.move p.token (.completing t)
    | none => h
  | .sendResume r, _ => { h.move r.token .channel with resumed := r.token :: h.resumed }
  | .recvResume, r => h.move (r : IoResume).token (.moving t)
  | .push (.resume r), _ => h.move r.token .queue
  | .pop, work => match (work : PolicyWork) with
    | .resume r => h.move r.token (.popped t)
    | .lookupResume _ f => h.move f (.popped t)
    | .new _ => h
  | .beginResume r, ok =>
    { h.move r.token .gone with
      applied := if ok then (h.owner r.token, s.hist.serial r.slotId) :: h.applied else h.applied }
  | .transition _ _ _, _ =>
    match s.hist.loc t with
    | .popped (.lookupResume _ f) => h.move f .gone
    | _ => h
  | _, _ => h

def next (s : IoState) (a : IoAct) (h : DemuxHist) : DemuxHist :=
  match a with
  | .wake index =>
    match s.shared.waiters[index]? with
    | some waiter => h.move waiter.token .queue
    | none => h
  | a =>
    match s.performed a with
    | some (t, ⟨o, r⟩) => h.record s t o r
    | none => h

end DemuxHist

/-- The runtime with the history of the forwards. -/
abbrev demux (w : SplitWiring) : Lts := (split w).record {} DemuxHist.next

structure Demuxed (x : IoState × DemuxHist) : Prop where
  /-- A forward gives at most one resume. -/
  once : x.2.resumed.Nodup
  /-- A resume is applied to the transaction that submitted its forward. -/
  applied : ∀ e ∈ x.2.applied, ∃ n, e = (some n, some n)
  /-- A forward is cancelled by the transaction that submitted it. -/
  cancelled : ∀ e ∈ x.2.cancelled, ∃ n, e = (some n, some n)

/-- The transaction in the slot is in the error exit of its submission. -/
def IoHist.submitFailed (h : IoHist) (id : SlotId) : Bool :=
  match h.ctl id with
  | .thread t =>
    match h.loc t with
    | .failed _ _ _ | .cancelling _ _ _ => true
    | _ => false
  | _ => false

/-- When a send fails, its forward is still pending; the forward of a submission that has failed is
not completed; a key is not tracked while it is pending. -/
def Undisturbed (w : SplitWiring) (x : IoState × DemuxHist) : IoAct → Prop
  | .op t env =>
    match x.1.nextOp t with
    | some (.sendTo _ _) =>
      match x.1.hist.loc t with
      | .tracked id key _ => env.sent = true ∨
          (x.1.shared.pending (w.shardIndex id) key).any (fun p => p.slotId == id) = true
      | _ => True
    | some (.removePending i key) =>
      (x.1.shared.pending i key).all (fun p => !x.1.hist.submitFailed p.slotId) = true
    | some (.trackPending _ key _) => ∀ j < w.ioShards, x.1.shared.pending j key = none
    | _ => True
  | _ => True

instance (w : SplitWiring) (x : IoState × DemuxHist) (a : IoAct) : Decidable (Undisturbed w x a) := by
  unfold Undisturbed
  split
  · split
    · split <;> infer_instance
    · infer_instance
    · infer_instance
    · infer_instance
  · infer_instance

/-! ## Where the numbers are -/

def Loc.carries (t : Tid) : Loc → Option (Place × Nat × SlotId)
  | .completing _ p | .resuming p => some (.completing t, p.token, p.slotId)
  | .moving r => some (.moving t, r.token, r.slotId)
  | .popped (.resume r) => some (.popped t, r.token, r.slotId)
  | .popped (.lookupResume id f) => some (.popped t, f, id)
  | _ => none

def PolicyWork.number : PolicyWork → Option (Nat × SlotId)
  | .new _ => none
  | .resume r => some (r.token, r.slotId)
  | .lookupResume id f => some (f, id)

/-- The number `f` of the slot `id` is at the place. -/
inductive Holds (s : IoState) (f : Nat) (id : SlotId) : Place → Prop
  | pending {i : Nat} {key : ForwardKey} (h : s.shared.pending i key = some ⟨id, f⟩) :
      Holds s f id (.pending i key)
  | thread {t : Tid} {p : Place} (h : (s.hist.loc t).carries t = some (p, f, id)) : Holds s f id p
  | channel {r : IoResume} (h : r ∈ s.shared.channel) (hf : r.token = f) (hid : r.slotId = id) :
      Holds s f id .channel
  | queue {work : PolicyWork} (h : work ∈ s.shared.queue) (hw : work.number = some (f, id)) :
      Holds s f id .queue
  | waiters {x : Waiter} (h : x ∈ s.shared.waiters) (hf : x.token = f) (hid : x.slotId = id) :
      Holds s f id .waiters

/-- The places that an operation of the thread `t` on a part of the shared state can change. -/
def Place.touched (t : Tid) (part : IoPart) : Place → Bool
  | .pending _ _ => part == .pending
  | .completing t' | .moving t' | .popped t' => t' == t
  | .channel => part == .channel
  | .queue => part == .queue
  | .waiters => part == .waiters
  | .gone => true

/-- The history has the number `f` of the slot `id` at the place. -/
def DemuxHist.At (h : DemuxHist) (f : Nat) (id : SlotId) (p : Place) : Prop :=
  h.place f = p ∧ h.slot f = id

/-- The history knows where the numbers are, and none is in a list twice. -/
structure Places (s : IoState) (h : DemuxHist) : Prop where
  holds : ∀ f id p, Holds s f id p → h.At f id p
  channel : Tags.Once (fun r => some r.token) s.shared.channel
  queue : Tags.Once (fun work => work.number.map (·.1)) s.shared.queue
  waiters : Tags.Once (fun x => some x.token) s.shared.waiters

/-! ## What waits for the numbers -/

/-- The worker keeps the slot of a number that is at the place `p`. -/
def Loc.Keeps (w : SplitWiring) (p : Place) : Loc → Prop
  | .tracked _ _ _ | .parked _ => True
  | .failed id key _ | .cancelling id key _ => p = .pending (w.shardIndex id) key
  | _ => False

/-- The slot waits for its number. -/
def Suspended (w : SplitWiring) (h : IoHist) (p : Place) (id : SlotId) : Prop :=
  h.ctl id = .waiting ∨ ∃ t, h.ctl id = .thread t ∧ (h.loc t).Keeps w p

/-- A number that is somewhere is that of the transaction in its slot, which waits for it and for
no other. -/
structure Alive (w : SplitWiring) (s : IoHist) (h : DemuxHist) : Prop where
  owner : ∀ f, h.place f ≠ .gone → ∃ n, h.owner f = some n ∧ s.serial (h.slot f) = some n
  suspended : ∀ f, h.place f ≠ .gone → Suspended w s (h.place f) (h.slot f)
  unique : ∀ f f', h.place f ≠ .gone → h.place f' ≠ .gone → h.slot f = h.slot f' → f = f'

/-- The forward that the thread is about to cancel, and the shards that it has searched. -/
def Loc.cancels : Loc → Option (SlotId × ForwardKey × Nat)
  | .failed id key _ => some (id, key, 0)
  | .cancelling id key i => some (id, key, i)
  | _ => none

/-- A key is pending on one shard; a forward that is about to be cancelled is pending. -/
structure Shards (w : SplitWiring) (s : IoState) : Prop where
  shard : ∀ i key p, s.shared.pending i key = some p → i = w.shardIndex p.slotId
  one : ∀ i j key p q, s.shared.pending i key = some p → s.shared.pending j key = some q → i = j
  own : ∀ t id key i, (s.hist.loc t).cancels = some (id, key, i) →
    i ≤ w.shardIndex id ∧ ∃ f, s.shared.pending (w.shardIndex id) key = some ⟨id, f⟩

/-- The resume of the number was sent. -/
def Place.resumed : Place → Bool
  | .pending _ _ | .completing _ | .waiters => false
  | _ => true

structure Logs (nextToken : Nat) (h : DemuxHist) : Prop where
  fresh : ∀ f, nextToken ≤ f → h.place f = .gone ∧ f ∉ h.resumed
  resumed : ∀ f ∈ h.resumed, (h.place f).resumed = true
  once : h.resumed.Nodup
  applied : ∀ e ∈ h.applied, ∃ n, e = (some n, some n)
  cancelled : ∀ e ∈ h.cancelled, ∃ n, e = (some n, some n)

structure Demux (w : SplitWiring) (x : IoState × DemuxHist) : Prop where
  places : Places x.1 x.2
  alive : Alive w x.1.hist x.2
  shards : Shards w x.1
  logs : Logs x.1.shared.nextToken x.2

theorem demuxed_of_demux {w : SplitWiring} {x : IoState × DemuxHist} (h : Demux w x) : Demuxed x :=
  ⟨h.logs.once, h.logs.applied, h.logs.cancelled⟩

/-- The step changes one part of the shared state and one thread, and no slot changes hands. -/
structure StepIn (part : IoPart) (t : Tid) (s s' : IoState) : Prop where
  agree : AgreeBut part s.shared s'.shared
  ctl : s'.hist.ctl = s.hist.ctl
  serial : s'.hist.serial = s.hist.serial
  other : ∀ t', t' ≠ t → s'.hist.loc t' = s.hist.loc t'

def IoPart.numbered : IoPart → Bool
  | .pending | .channel | .waiters => true
  | _ => false

/-- A step of the thread `t` moves no number in the shared state. -/
structure Still (t : Tid) (s s' : IoState) : Prop where
  pending : s'.shared.pending = s.shared.pending
  channel : s'.shared.channel = s.shared.channel
  waiters : s'.shared.waiters = s.shared.waiters
  token : s'.shared.nextToken = s.shared.nextToken
  queue : ∀ work ∈ s'.shared.queue, work ∈ s.shared.queue ∨ work.number = none
  once : Tags.Once (fun work => work.number.map (·.1)) s'.shared.queue
  other : ∀ t', t' ≠ t → s'.hist.loc t' = s.hist.loc t'

section

variable {w : SplitWiring} {s s' : IoState} {h h' : DemuxHist} {hist hist' : IoHist} {t : Tid}
  {f f' : Nat} {id id' : SlotId} {n : Option Nat} {p q : Place} {l : Loc} {part : IoPart}
  {key : ForwardKey}

/-! ## The history -/

namespace DemuxHist

/-- The number `f` moves to `q`. -/
structure Moves (h : DemuxHist) (f : Nat) (q : Place) (h' : DemuxHist) : Prop where
  place : ∀ f', h'.place f' = if f' = f then q else h.place f'
  slot : h'.slot = h.slot
  owner : h'.owner = h.owner

@[grind =] theorem place_move : (h.move f q).place f' = if f' = f then q else h.place f' :=
  update_apply ..

theorem moves : h.Moves f q (h.move f q) := ⟨fun _ => place_move, rfl, rfl⟩

@[grind =] theorem place_give : (h.give f id n p).place f' = if f' = f then p else h.place f' :=
  update_apply ..

@[grind =] theorem slot_give : (h.give f id n p).slot f' = if f' = f then id else h.slot f' :=
  update_apply ..

@[grind =] theorem owner_give : (h.give f id n p).owner f' = if f' = f then n else h.owner f' :=
  update_apply ..

theorem At.give (hat : h.At f id p) (hfresh : h.place f' = .gone) (hp : p ≠ .gone) :
    (h.give f' id' n q).At f id p := by
  grind [DemuxHist.At]

theorem At.move (hat : h.At f id p) (hm : h.Moves f' q h') (hne : f ≠ f') : h'.At f id p := by
  grind [DemuxHist.At, Moves]

theorem At.moved (hat : h.At f id p) (hm : h.Moves f q h') : h'.At f id q := by
  grind [DemuxHist.At, Moves]

theorem At.ne (hat : h.At f id p) (hat' : h.At f' id' q) (hpq : p ≠ q) : f ≠ f' := by
  grind [DemuxHist.At]

/-- A number that was at a place that the operation touches moves no other. -/
theorem Moves.touched (hm : h.Moves f q h') (htouch : (h.place f).touched t part = true)
    (hf : (h.place f').touched t part = false) :
    h'.place f' = h.place f' ∧ h'.slot f' = h.slot f' := by
  grind [Moves]

/-- What is left when a number is used up. -/
theorem Moves.live (hm : h.Moves f .gone h') (hf : h'.place f' ≠ .gone) :
    f' ≠ f ∧ h.place f' ≠ .gone := by
  grind [Moves]

end DemuxHist

/-! ## Frames -/

theorem Loc.carries_touched (hl : l.carries t = some (p, f, id)) :
    p.touched t part = true := by
  unfold Loc.carries at hl
  split at hl <;> first | (cases hl; simp [Place.touched]) | cases hl

theorem Loc.carries_ne (hl : l.carries t = some (p, f, id)) :
    p ≠ .gone ∧ (∀ i key, p ≠ .pending i key) ∧ p ≠ .channel ∧ p ≠ .queue ∧ p ≠ .waiters := by
  unfold Loc.carries at hl
  split at hl <;> first | (cases hl; simp) | cases hl

theorem Holds.ne_gone (hh : Holds s f id p) : p ≠ .gone := by
  cases hh with
  | thread hl => exact (Loc.carries_ne hl).1
  | _ => simp

theorem Places.live (hp : Places s h) (hh : Holds s f id p) : h.place f ≠ .gone := by
  rw [(hp.holds f id p hh).1]
  exact hh.ne_gone

/-- A place that the operation does not touch holds what it held. -/
theorem Holds.before (hh : Holds s' f id p) (hp : p.touched t part = false)
    (hagree : AgreeBut part s.shared s'.shared)
    (hother : ∀ t', t' ≠ t → s'.hist.loc t' = s.hist.loc t') : Holds s f id p := by
  cases hh with
  | pending hpend =>
    refine .pending ?_
    rwa [hagree.pending (by simpa [Place.touched] using hp)] at hpend
  | @thread t' _ hl =>
    refine .thread (t := t') ?_
    rw [hother t'] at hl
    · exact hl
    · rintro rfl
      rw [Loc.carries_touched hl] at hp
      cases hp
  | channel hr hf hid =>
    rw [hagree.channel (by simpa [Place.touched] using hp)] at hr
    exact .channel hr hf hid
  | queue hm hw =>
    rw [hagree.queue (by simpa [Place.touched] using hp)] at hm
    exact .queue hm hw
  | waiters hx hf hid =>
    rw [hagree.waiters (by simpa [Place.touched] using hp)] at hx
    exact .waiters hx hf hid

/-- Only numbers at places that the operation touches move; what is at those places afterwards has
to be shown. -/
theorem Places.op (hp : Places s h) (hagree : AgreeBut part s.shared s'.shared)
    (hother : ∀ t', t' ≠ t → s'.hist.loc t' = s.hist.loc t')
    (hmoved : ∀ f, (h.place f).touched t part = false → h'.place f = h.place f ∧ h'.slot f = h.slot f)
    (hthread : ∀ f id p, (s'.hist.loc t).carries t = some (p, f, id) → h'.At f id p)
    (hpending : part = .pending → ∀ i key x, s'.shared.pending i key = some x →
      h'.At x.token x.slotId (.pending i key))
    (hchannel : part = .channel → Tags.Once (fun r => some r.token) s'.shared.channel ∧
      ∀ r ∈ s'.shared.channel, h'.At r.token r.slotId .channel)
    (hqueue : part = .queue → Tags.Once (fun work => work.number.map (·.1)) s'.shared.queue ∧
      ∀ work ∈ s'.shared.queue, ∀ f id, work.number = some (f, id) → h'.At f id .queue)
    (hwaiters : part = .waiters → Tags.Once (fun x => some x.token) s'.shared.waiters ∧
      ∀ x ∈ s'.shared.waiters, h'.At x.token x.slotId .waiters) : Places s' h' := by
  refine ⟨fun f id p hh => ?_, ?_, ?_, ?_⟩
  · cases htouch : p.touched t part with
    | false =>
      obtain ⟨hplace, hslot⟩ := hp.holds f id p (hh.before htouch hagree hother)
      obtain ⟨hplace', hslot'⟩ := hmoved f (by rw [hplace, htouch])
      exact ⟨hplace'.trans hplace, hslot'.trans hslot⟩
    | true =>
      cases hh with
      | pending hx => exact hpending (by simpa [Place.touched] using htouch) _ _ _ hx
      | @thread t' _ hl =>
        have heq : t' = t := by
          unfold Loc.carries at hl
          split at hl <;> first | (cases hl; simpa [Place.touched] using htouch) | cases hl
        subst heq
        exact hthread f id p hl
      | channel hr hf hid =>
        subst hf hid
        exact (hchannel (by simpa [Place.touched] using htouch)).2 _ hr
      | queue hm hw => exact (hqueue (by simpa [Place.touched] using htouch)).2 _ hm f id hw
      | waiters hx hf hid =>
        subst hf hid
        exact (hwaiters (by simpa [Place.touched] using htouch)).2 _ hx
  · by_cases hpart : part = .channel
    · exact (hchannel hpart).1
    · rw [hagree.channel hpart]
      exact hp.channel
  · by_cases hpart : part = .queue
    · exact (hqueue hpart).1
    · rw [hagree.queue hpart]
      exact hp.queue
  · by_cases hpart : part = .waiters
    · exact (hwaiters hpart).1
    · rw [hagree.waiters hpart]
      exact hp.waiters

theorem Suspended.frame (hs : Suspended w hist p id) (hctl : hist'.ctl id = hist.ctl id)
    (hother : ∀ t', t' ≠ t → hist'.loc t' = hist.loc t')
    (hq : ∀ t', hist.ctl id = .thread t' → t' ≠ t → (hist.loc t').Keeps w p →
      (hist.loc t').Keeps w q)
    (ht : hist.ctl id = .thread t → (hist.loc t).Keeps w p → (hist'.loc t).Keeps w q) :
    Suspended w hist' q id := by
  rcases hs with hw | ⟨t', hc, hk⟩
  · exact .inl (hctl.trans hw)
  · refine .inr ⟨t', hctl.trans hc, ?_⟩
    by_cases hne : t' = t
    · subst hne
      exact ht hc hk
    · rw [hother t' hne]
      exact hq t' hc hne hk

/-- No number is lost or given, and every slot that waits for one goes on waiting. -/
theorem Alive.keep (ha : Alive w hist h)
    (hlive : ∀ f, h'.place f ≠ .gone → h.place f ≠ .gone)
    (hslot : h'.slot = h.slot) (howner : h'.owner = h.owner)
    (hserial : ∀ f, h'.place f ≠ .gone → hist'.serial (h.slot f) = hist.serial (h.slot f))
    (hsus : ∀ f, h'.place f ≠ .gone → Suspended w hist (h.place f) (h.slot f) →
      Suspended w hist' (h'.place f) (h.slot f)) : Alive w hist' h' := by
  refine ⟨fun f hf => ?_, fun f hf => ?_, fun f f' hf hf' heq => ?_⟩
  · rw [howner, hslot, hserial f hf]
    exact ha.owner f (hlive f hf)
  · rw [hslot]
    exact hsus f hf (ha.suspended f (hlive f hf))
  · rw [hslot] at heq
    exact ha.unique f f' (hlive f hf) (hlive f' hf') heq

theorem Shards.same (hsh : Shards w s) (hpending : s'.shared.pending = s.shared.pending)
    (hother : ∀ t', t' ≠ t → s'.hist.loc t' = s.hist.loc t')
    (hown : ∀ id key i, (s'.hist.loc t).cancels = some (id, key, i) →
      i ≤ w.shardIndex id ∧ ∃ f, s.shared.pending (w.shardIndex id) key = some ⟨id, f⟩) :
    Shards w s' where
  shard := hpending ▸ hsh.shard
  one := hpending ▸ hsh.one
  own t' id key i hl := by
    rw [hpending]
    by_cases hne : t' = t
    · subst hne
      exact hown id key i hl
    · rw [hother t' hne] at hl
      exact hsh.own t' id key i hl

theorem Demux.still (hd : Demux w (s, h)) (hagree : AgreeBut part s.shared s'.shared)
    (hpart : part.numbered = false) (hqueue : (part == .queue) = false)
    (hother : ∀ t', t' ≠ t → s'.hist.loc t' = s.hist.loc t') : Still t s s' := by
  have hne : ∀ q : IoPart, q.numbered = true → part ≠ q := by
    rintro q hq rfl
    rw [hpart] at hq
    cases hq
  have hsame := hagree.queue (by simpa using hqueue)
  exact ⟨hagree.pending (hne _ rfl), hagree.channel (hne _ rfl), hagree.waiters (hne _ rfl),
    hagree.nextToken (hne _ rfl) (hne _ rfl), fun _ hm => .inl (hsame ▸ hm),
    hsame ▸ hd.places.queue, hother⟩

theorem Demux.same (hd : Demux w (s, h)) (hk : Still t s s')
    (hcarry : (s'.hist.loc t).carries t = (s.hist.loc t).carries t)
    (hown : ∀ id key i, (s'.hist.loc t).cancels = some (id, key, i) →
      i ≤ w.shardIndex id ∧ ∃ f, s.shared.pending (w.shardIndex id) key = some ⟨id, f⟩)
    (hserial : ∀ f, h.place f ≠ .gone → s'.hist.serial (h.slot f) = s.hist.serial (h.slot f))
    (hsus : ∀ f, h.place f ≠ .gone → Suspended w s.hist (h.place f) (h.slot f) →
      Suspended w s'.hist (h.place f) (h.slot f)) : Demux w (s', h) := by
  refine ⟨⟨fun f id p hh => hd.places.holds f id p ?_, hk.channel ▸ hd.places.channel, hk.once,
    hk.waiters ▸ hd.places.waiters⟩, hd.alive.keep (fun _ hf => hf) rfl rfl hserial hsus,
    hd.shards.same hk.pending hk.other hown, ?_⟩
  · cases hh with
    | pending hp => exact .pending (by rwa [hk.pending] at hp)
    | @thread t' _ hl =>
      by_cases hne : t' = t
      · subst hne
        exact .thread (hcarry ▸ hl)
      · rw [hk.other t' hne] at hl
        exact .thread hl
    | channel hr hf hid => exact .channel (by rwa [hk.channel] at hr) hf hid
    | queue hm hw =>
      rcases hk.queue _ hm with hm | hnone
      · exact .queue hm hw
      · rw [hnone] at hw
        cases hw
    | waiters hx hf hid => exact .waiters (by rwa [hk.waiters] at hx) hf hid
  · rw [hk.token]
    exact hd.logs

/-- The thread neither carries a number nor keeps a slot that waits for one. -/
def Loc.plain : Loc → Bool
  | .tracked _ _ _ | .parked _ | .failed _ _ _ | .cancelling _ _ _ | .completing _ _ | .resuming _
  | .moving _ | .popped (.resume _) | .popped (.lookupResume _ _) => false
  | _ => true

theorem Loc.carries_of_plain (hl : l.plain = true) : l.carries t = none := by
  unfold Loc.carries
  split <;> first | rfl | cases hl

theorem Loc.cancels_of_plain (hl : l.plain = true) : l.cancels = none := by
  unfold Loc.cancels
  split <;> first | rfl | cases hl

theorem Loc.not_keeps_of_plain (hl : l.plain = true) : ¬ l.Keeps w p := by
  unfold Loc.Keeps
  split <;> first | cases hl | exact fun hk => hk

/-- A thread that carries a number keeps no slot. -/
theorem Loc.not_keeps_of_carries {x : Place × Nat × SlotId} (hl : l.carries t = some x) :
    ¬ l.Keeps w p := by
  unfold Loc.Keeps
  split <;> first | cases hl | exact fun hk => hk

/-- The slots that wait for a number, and that the thread does not keep, do not change. -/
def SameWaiting (h h' : IoHist) (t : Tid) : Prop :=
  ∀ id n, h.serial id = some n → (h.ctl id = .waiting ∨ ∃ t', t' ≠ t ∧ h.ctl id = .thread t') →
    h'.ctl id = h.ctl id ∧ h'.serial id = h.serial id

/-- Only a slot changes that does not wait. -/
theorem SameWaiting.of_ne (hctl : ∀ id', id' ≠ id → hist'.ctl id' = hist.ctl id')
    (hserial : ∀ id', id' ≠ id → hist'.serial id' = hist.serial id')
    (hid : hist.serial id = none ∨ hist.ctl id = .thread t ∨ hist.ctl id = .queued) :
    SameWaiting hist hist' t := by
  intro id' n hn hw
  have hne : id' ≠ id := by
    rintro rfl
    rcases hid with hnone | ht | hq
    · rw [hnone] at hn
      cases hn
    · rcases hw with hw | ⟨t', hne, hw⟩ <;> rw [ht] at hw <;> cases hw
      exact hne rfl
    · rcases hw with hw | ⟨t', -, hw⟩ <;> rw [hq] at hw <;> cases hw
  exact ⟨hctl id' hne, hserial id' hne⟩

theorem Alive.waits (ha : Alive w hist h) (hplain : (hist.loc t).plain = true)
    (hf : h.place f ≠ .gone) :
    (∃ n, hist.serial (h.slot f) = some n) ∧
      (hist.ctl (h.slot f) = .waiting ∨ ∃ t', t' ≠ t ∧ hist.ctl (h.slot f) = .thread t') := by
  obtain ⟨n, -, hn⟩ := ha.owner f hf
  refine ⟨⟨n, hn⟩, ?_⟩
  rcases ha.suspended f hf with hw | ⟨t', hc, hk⟩
  · exact .inl hw
  · refine .inr ⟨t', ?_, hc⟩
    rintro rfl
    exact Loc.not_keeps_of_plain hplain hk

/-- A thread that has nothing to do with the numbers, before and after. -/
theorem Demux.quiet (hd : Demux w (s, h)) (hk : Still t s s') (hl : (s.hist.loc t).plain = true)
    (hl' : (s'.hist.loc t).plain = true) (hwait : SameWaiting s.hist s'.hist t) :
    Demux w (s', h) := by
  refine hd.same hk ?_ ?_ ?_ ?_
  · rw [Loc.carries_of_plain hl, Loc.carries_of_plain hl']
  · simp [Loc.cancels_of_plain hl']
  · intro f hf
    obtain ⟨⟨n, hn⟩, hw⟩ := hd.alive.waits hl hf
    exact (hwait _ n hn hw).2
  · intro f hf hsus
    obtain ⟨⟨n, hn⟩, hw⟩ := hd.alive.waits hl hf
    refine hsus.frame (hwait _ n hn hw).1 hk.other (fun _ _ _ hk => hk) fun _ hk => ?_
    exact absurd hk (Loc.not_keeps_of_plain hl)

/-! ## A submission -/

variable {m : Mode}

/-- The slot of a number that the thread keeps is the thread's. -/
theorem Control.slot_of_ctl (hc : Control w s) (hl : (s.hist.loc t).slot = some (id, m))
    (hctl : s.hist.ctl id' = .thread t) : id' = id := by
  obtain ⟨m', hl', -⟩ := hc.parts.slots.held hctl
  rw [hl] at hl'
  cases hl'
  rfl

variable {pool : String} {threads : Tid → Option (IoProg Unit)}

theorem demux_sendTo (hc : Control w s) (hd : Demux w (s, h)) {backend : String} {wire : Wire}
    {sent : Bool} (hloc : s.hist.loc t = .tracked id key pool)
    (hsent : sent = true ∨ ∃ f, s.shared.pending (w.shardIndex id) key = some ⟨id, f⟩) :
    Demux w (⟨s.shared, threads, s.hist.next w t (.sendTo backend wire) sent⟩, h) := by
  have hloc' : (s.hist.next w t (.sendTo backend wire) sent).loc t =
      if sent then .parked id else .failed id key (some pool) := by
    simp only [IoHist.next, update_self, hloc]
    cases sent <;> rfl
  refine hd.same (t := t) ⟨rfl, rfl, rfl, rfl, fun _ hm => .inl hm, hd.places.queue,
    fun _ hne => (IoHist.next_of_ne hne).1⟩ ?_ (fun id' key' i hl => ?_) (fun _ _ => rfl)
    fun f hf hsus => ?_
  · simp only [hloc', hloc]
    cases sent <;> rfl
  · simp only [hloc'] at hl
    cases sent with
    | true => cases hl
    | false =>
      cases hl
      obtain hfalse | hown := hsent
      · cases hfalse
      · exact ⟨Nat.zero_le _, hown⟩
  · refine hsus.frame (t := t) rfl (fun _ hne => (IoHist.next_of_ne hne).1) (fun _ _ _ hk => hk)
      fun hctl _ => ?_
    rw [hloc']
    cases sent with
    | true => trivial
    | false =>
      -- the number that the slot waits for is that of the forward
      obtain hfalse | ⟨f', hown⟩ := hsent
      · cases hfalse
      · obtain ⟨hplace, hslot⟩ := hd.places.holds f' id _ (.pending hown)
        have hid : h.slot f = id := hc.slot_of_ctl (m := .busy) (by rw [hloc]; rfl) hctl
        have heq : f = f' :=
          hd.alive.unique f f' hf (hd.places.live (.pending hown)) (hid.trans hslot.symm)
        exact heq ▸ hplace

variable {shared : IoShared}

theorem demux_suspend (hc : Control w s) (hd : Demux w (s, h)) {txn : Transaction} {r : Unit}
    (hloc : s.hist.loc t = .parked id) (hagree : AgreeBut .slots s.shared shared) :
    Demux w (⟨shared, threads, s.hist.next w t (.unlock id txn .suspended) r⟩, h) := by
  have hother : ∀ t', t' ≠ t →
      (s.hist.next w t (.unlock id txn .suspended) r).loc t' = s.hist.loc t' :=
    fun _ hne => (IoHist.next_of_ne hne).1
  have hloc' : (s.hist.next w t (.unlock id txn .suspended) r).loc t = .ended := by
    simp [IoHist.next, Loc.next]
  refine hd.same (hd.still hagree rfl rfl hother) ?_ (fun id' key' i hl => ?_) (fun _ _ => rfl)
    fun f hf hsus => ?_
  · simp only [hloc', hloc]
    rfl
  · simp only [hloc'] at hl
    cases hl
  · by_cases hid : h.slot f = id
    · -- the slot itself waits now
      refine .inl ?_
      rw [hid]
      exact update_self _ _ _
    · refine hsus.frame (t := t) (update_of_ne hid _ _) hother (fun _ _ _ hk => hk)
        fun hctl _ => ?_
      exact absurd (hc.slot_of_ctl (m := .busy) (by rw [hloc]; rfl) hctl) hid

/-- The thread stays in the error exit of its submission. -/
theorem Demux.failing (hd : Demux w (s, h)) (hk : Still t s s') (hctl : s'.hist.ctl = s.hist.ctl)
    (hserial : s'.hist.serial = s.hist.serial) (hl : (s.hist.loc t).cancels = some (id, key, 0))
    (hl' : (s'.hist.loc t).cancels = some (id, key, 0)) : Demux w (s', h) := by
  have hcases : ∀ {l : Loc}, l.cancels = some (id, key, 0) → l.carries t = none ∧
      ∀ p, l.Keeps w p ↔ p = .pending (w.shardIndex id) key := by
    intro l hl
    unfold Loc.cancels at hl
    split at hl <;> cases hl <;> exact ⟨rfl, fun _ => Iff.rfl⟩
  refine hd.same hk ?_ (fun id' key' i hc => ?_) (fun _ _ => by rw [hserial]) fun f hf hsus => ?_
  · rw [(hcases hl).1, (hcases hl').1]
  · rw [hl'] at hc
    cases hc
    exact hd.shards.own t id key 0 hl
  · refine hsus.frame (t := t) (by rw [hctl]) hk.other (fun _ _ _ hk => hk) fun _ hkeeps => ?_
    exact ((hcases hl').2 _).mpr (((hcases hl).2 _).mp hkeeps)

theorem Alive.give (ha : Alive w hist h) {n : Nat} (hn : hist'.serial id = some n)
    (hserial : hist'.serial = hist.serial) (hfree : ∀ f', h.place f' ≠ .gone → h.slot f' ≠ id)
    (hnew : Suspended w hist' p id)
    (hsus : ∀ f', h.place f' ≠ .gone → Suspended w hist (h.place f') (h.slot f') →
      Suspended w hist' (h.place f') (h.slot f')) : Alive w hist' (h.give f id (some n) p) where
  owner f' hf' := by
    have hold := ha.owner f'
    grind
  suspended f' hf' := by
    have hold := ha.suspended f'
    grind
  unique f₁ f₂ h₁ h₂ heq := by
    have hold := ha.unique f₁ f₂
    grind

variable {nextToken : Nat}

theorem Logs.give (hlogs : Logs nextToken h) :
    Logs (nextToken + 1) (h.give nextToken id n p) where
  fresh f hle := by
    have hold := hlogs.fresh f
    grind [DemuxHist.give]
  resumed f hm := by
    have hfresh := hlogs.fresh f
    have hold := hlogs.resumed f
    grind [DemuxHist.give]
  once := hlogs.once
  applied := hlogs.applied
  cancelled := hlogs.cancelled

/-- No number belongs to the slot of a thread that does not keep one. -/
theorem Demux.slot_ne (hc : Control w s) (hd : Demux w (s, h))
    (hl : (s.hist.loc t).slot = some (id, m)) (hplain : (s.hist.loc t).plain = true)
    (hf : h.place f ≠ .gone) : h.slot f ≠ id := by
  rintro rfl
  have hctl := hc.parts.slots.thread t _ m hl
  obtain ⟨-, hw | ⟨t', hne, ht'⟩⟩ := hd.alive.waits hplain hf
  · rw [hctl] at hw
    cases hw
  · rw [hctl] at ht'
    cases ht'
    exact hne rfl

theorem Shards.track (hsh : Shards w s)
    (hpending : s'.shared.pending = update2 s.shared.pending (w.shardIndex id) key (some ⟨id, f⟩))
    (hfree : ∀ i, s.shared.pending i key = none)
    (hother : ∀ t', t' ≠ t → s'.hist.loc t' = s.hist.loc t')
    (hcancels : (s'.hist.loc t).cancels = none) : Shards w s' where
  shard i key' x hx := by
    have hold := hsh.shard i key' x
    rw [hpending, update2_apply] at hx
    grind
  -- the key was pending nowhere
  one i j key' x y hx hy := by
    have hold := hsh.one i j key' x y
    rw [hpending, update2_apply] at hx hy
    grind
  own t' id' key' i hl := by
    have hold := hsh.own t' id' key' i
    rw [hpending, update2_apply]
    grind

theorem Shards.pending_none (hsh : Shards w s)
    (hnone : ∀ j < w.ioShards, s.shared.pending j key = none) (i : Nat) :
    s.shared.pending i key = none := by
  cases hx : s.shared.pending i key with
  | none => rfl
  | some x =>
    have hlt : i < w.ioShards := hsh.shard i key x hx ▸ Nat.mod_lt _ w.ioShards_pos
    rw [hnone i hlt] at hx
    cases hx

/-- The worker, which keeps no number, gets one for its slot, and keeps it. -/
theorem Demux.alive_give (hc : Control w s) (hd : Demux w (s, h)) {n : Nat}
    (hl : (s.hist.loc t).slot = some (id, m)) (hplain : (s.hist.loc t).plain = true)
    (hn : s.hist.serial id = some n) (hst : StepIn part t s s') (hkeeps : (s'.hist.loc t).Keeps w p) :
    Alive w s'.hist (h.give s.shared.nextToken id (some n) p) := by
  refine hd.alive.give (hst.serial ▸ hn) hst.serial
    (fun f hf => hd.slot_ne hc hl hplain hf) ?_ fun f hf hsus => ?_
  · exact .inr ⟨t, by rw [hst.ctl, hc.parts.slots.thread t id _ hl], hkeeps⟩
  · refine hsus.frame (t := t) (by rw [hst.ctl]) hst.other (fun _ _ _ hk => hk) fun _ hk => ?_
    exact absurd hk (Loc.not_keeps_of_plain hplain)

theorem Logs.moved_give (hlogs : Logs nextToken h) (hf : (h.place f).touched t part = false) :
    (h.give nextToken id n p).place f = h.place f ∧ (h.give nextToken id n p).slot f = h.slot f := by
  have hne : f ≠ nextToken := by
    rintro rfl
    rw [(hlogs.fresh f (Nat.le_refl _)).1] at hf
    cases hf
  exact ⟨update_of_ne hne _ _, update_of_ne hne _ _⟩

theorem demux_trackPending (hc : Control w s) (hd : Demux w (s, h)) {n : Nat}
    (hloc : s.hist.loc t = .permitted id key pool) (hn : s.hist.serial id = some n)
    (hnone : ∀ j < w.ioShards, s.shared.pending j key = none) (hst : StepIn .pending t s s')
    (hpending : s'.shared.pending =
      update2 s.shared.pending (w.shardIndex id) key (some ⟨id, s.shared.nextToken⟩))
    (htoken : s'.shared.nextToken = s.shared.nextToken + 1)
    (hloc' : s'.hist.loc t = .tracked id key pool) :
    Demux w (s', h.give s.shared.nextToken id (some n) (.pending (w.shardIndex id) key)) := by
  have hfresh := (hd.logs.fresh _ (Nat.le_refl _)).1
  refine ⟨?_, ?_, hd.shards.track hpending (hd.shards.pending_none hnone) hst.other
    (by rw [hloc']; rfl), htoken ▸ hd.logs.give⟩
  · refine hd.places.op (t := t) hst.agree hst.other (fun f hf => hd.logs.moved_give hf)
      (fun f id' q hl => ?_) (fun _ i key' x hx => ?_) nofun nofun nofun
    · rw [hloc'] at hl
      cases hl
    · rw [hpending] at hx
      by_cases heq : i = w.shardIndex id ∧ key' = key
      · obtain ⟨rfl, rfl⟩ := heq
        rw [update2_self] at hx
        cases hx
        exact ⟨update_self _ _ _, update_self _ _ _⟩
      · rw [update2_of_ne _ heq] at hx
        exact (hd.places.holds _ _ _ (.pending hx)).give hfresh (by simp)
  · exact hd.alive_give hc (m := .busy) (by rw [hloc]; rfl) (by rw [hloc]; rfl) hn hst
      (by rw [hloc']; trivial)

theorem demux_registerWaiter (hc : Control w s) (hd : Demux w (s, h)) {debt : Option String} {n : Nat}
    (hloc : s.hist.loc t = .running id debt) (hn : s.hist.serial id = some n)
    (hst : StepIn .waiters t s s')
    (hwaiters : s'.shared.waiters = s.shared.waiters ++ [⟨id, s.shared.nextToken⟩])
    (htoken : s'.shared.nextToken = s.shared.nextToken + 1) (hloc' : s'.hist.loc t = .parked id) :
    Demux w (s', h.give s.shared.nextToken id (some n) .waiters) := by
  have hfresh := (hd.logs.fresh _ (Nat.le_refl _)).1
  have hnot : ∀ x ∈ s.shared.waiters, x.token ≠ s.shared.nextToken := by
    intro x hx heq
    have hlive := hd.places.live (.waiters hx rfl rfl)
    rw [heq] at hlive
    exact hlive hfresh
  refine ⟨?_, ?_, hd.shards.same (t := t) (hst.agree.pending (by simp)) hst.other
    fun id' key' i hl => ?_, htoken ▸ hd.logs.give⟩
  · refine hd.places.op (t := t) hst.agree hst.other (fun f hf => hd.logs.moved_give hf)
      (fun f id' q hl => ?_) nofun nofun nofun fun _ => ?_
    · rw [hloc'] at hl
      cases hl
    · rw [hwaiters]
      refine ⟨hd.places.waiters.snoc fun b hb x hx heq => ?_, fun x hx => ?_⟩
      · cases hb
        exact hnot x hx (Option.some.inj heq)
      · rcases List.mem_append.mp hx with hx | hx
        · exact (hd.places.holds _ _ _ (.waiters hx rfl rfl)).give hfresh (by simp)
        · cases List.mem_singleton.mp hx
          exact ⟨update_self _ _ _, update_self _ _ _⟩
  · exact hd.alive_give hc (m := .busy) (by rw [hloc]; rfl) (by rw [hloc]; rfl) hn hst
      (by rw [hloc']; trivial)
  · rw [hloc'] at hl
    cases hl

/-! ## A number moves -/

variable {i : Nat}

theorem Loc.slot_of_cancels (hl : l.cancels = some (id, key, i)) : l.slot = some (id, .busy) := by
  unfold Loc.cancels at hl
  split at hl <;> cases hl <;> rfl

theorem IoHist.submitFailed_of_cancels {c : SlotId × ForwardKey × Nat}
    (hctl : hist.ctl id = .thread t) (hl : (hist.loc t).cancels = some c) :
    hist.submitFailed id = true := by
  unfold Loc.cancels at hl
  split at hl
  · simp [submitFailed, *]
  · simp [submitFailed, *]
  · cases hl

/-- A worker that is not in the error exit keeps its slot wherever the number goes. -/
theorem Loc.Keeps.of_cancels (hk : l.Keeps w p) (hl : l.cancels = none) : l.Keeps w q := by
  unfold Loc.Keeps at hk ⊢
  split at hk
  · trivial
  · trivial
  · cases hl
  · cases hl
  · exact hk

theorem Loc.Keeps.of_ne_pending (hk : l.Keeps w p)
    (hp : ∀ i key, p ≠ .pending i key) : l.Keeps w q := by
  unfold Loc.Keeps at hk ⊢
  split at hk
  · trivial
  · trivial
  · exact absurd hk (hp _ _)
  · exact absurd hk (hp _ _)
  · exact hk

/-- The number `f` moves to `q`, or is used up there. -/
theorem Alive.move (ha : Alive w hist h) (hm : h.Moves f q h') (hlive : h.place f ≠ .gone)
    (hserial : hist'.serial = hist.serial)
    (hctl : ∀ f', h.place f' ≠ .gone → h'.place f' ≠ .gone →
      hist'.ctl (h.slot f') = hist.ctl (h.slot f'))
    (hother : ∀ t', t' ≠ t → hist'.loc t' = hist.loc t')
    (ht : ∀ f', h'.place f' ≠ .gone → hist.ctl (h.slot f') = .thread t →
      ¬ (hist.loc t).Keeps w (h.place f'))
    (hq : q ≠ .gone → ∀ t', hist.ctl (h.slot f) = .thread t' → (hist.loc t').Keeps w (h.place f) →
      (hist.loc t').Keeps w q) : Alive w hist' h' := by
  have hsub : ∀ f', h'.place f' ≠ .gone → h.place f' ≠ .gone := by grind [DemuxHist.Moves]
  refine ha.keep hsub hm.slot hm.owner (fun f' _ => by rw [hserial]) fun f' hf' hsus => ?_
  refine hsus.frame (t := t) (hctl f' (hsub f' hf') hf') hother (fun t' hc _ hk => ?_)
    fun hc hk => absurd hk (ht f' hf' hc)
  grind [DemuxHist.Moves]

theorem Logs.move (hlogs : Logs nextToken h) (hlive : h.place f ≠ .gone)
    (hq : q.resumed = true ∨ f ∉ h.resumed) : Logs nextToken (h.move f q) where
  fresh f' hle := by
    have hold := hlogs.fresh f' hle
    grind [DemuxHist.move]
  resumed f' hm := by
    have hold := hlogs.resumed f' hm
    grind [DemuxHist.move]
  once := hlogs.once
  applied := hlogs.applied
  cancelled := hlogs.cancelled

/-- A number whose resume is still to be sent. -/
theorem Logs.not_resumed (hlogs : Logs nextToken h) (hp : (h.place f).resumed = false) :
    f ∉ h.resumed := by
  intro hm
  rw [hlogs.resumed f hm] at hp
  cases hp

/-- A number that is somewhere else is put into the policy queue. -/
theorem Places.pushed (hp : Places s h) (hat : h.At f id p) (hne : p ≠ .queue) (work : PolicyWork)
    (hw : work.number = some (f, id)) :
    Tags.Once (fun work => work.number.map (·.1)) (s.shared.queue ++ [work]) ∧
      ∀ work' ∈ s.shared.queue ++ [work], ∀ f' id', work'.number = some (f', id') →
        (h.move f .queue).At f' id' .queue := by
  have hother : ∀ work' ∈ s.shared.queue, ∀ f' id', work'.number = some (f', id') → f' ≠ f :=
    fun work' hm f' id' hw' => (hp.holds _ _ _ (.queue hm hw')).ne hat hne.symm
  refine ⟨hp.queue.snoc fun b hb work' hm heq => ?_, fun work' hm f' id' hw' => ?_⟩
  · rw [hw] at hb
    cases hb
    obtain ⟨⟨f', id'⟩, hw', heq⟩ := Option.map_eq_some_iff.mp heq
    exact hother work' hm f' id' hw' heq
  · rcases List.mem_append.mp hm with hm | hm
    · exact (hp.holds _ _ _ (.queue hm hw')).move DemuxHist.moves (hother work' hm f' id' hw')
    · cases List.mem_singleton.mp hm
      rw [hw] at hw'
      cases hw'
      exact hat.moved DemuxHist.moves

theorem Shards.remove (hsh : Shards w s)
    (hpending : s'.shared.pending = update2 s.shared.pending i key none)
    (hother : ∀ t', t' ≠ t → s'.hist.loc t' = s.hist.loc t')
    (hcancels : (s'.hist.loc t).cancels = none)
    (hne : ∀ t' id key' j, t' ≠ t → (s.hist.loc t').cancels = some (id, key', j) →
      ¬ (w.shardIndex id = i ∧ key' = key)) : Shards w s' where
  shard j key' x hx := by
    have hold := hsh.shard j key' x
    rw [hpending, update2_apply] at hx
    grind
  one j k key' x y hx hy := by
    have hold := hsh.one j k key' x y
    rw [hpending, update2_apply] at hx hy
    grind
  own t' id key' j hl := by
    have hold := hsh.own t' id key' j
    rw [hpending, update2_apply]
    grind

variable {x : PendingForward}

theorem Places.remaining (hp : Places s h) {j : Nat} {key' : ForwardKey} {y : PendingForward}
    (hx : s.shared.pending i key = some x) (hm : h.Moves x.token q h')
    (hy : update2 s.shared.pending i key none j key' = some y) :
    h'.At y.token y.slotId (.pending j key') := by
  rw [update2_apply] at hy
  split at hy
  next => cases hy
  next hne =>
    have hat := hp.holds _ _ _ (.pending hy)
    refine hat.move hm (hat.ne (hp.holds _ _ _ (.pending hx)) fun heq => hne ?_)
    cases heq
    exact ⟨rfl, rfl⟩

/-- An I/O thread takes a forward whose submission has not failed. -/
theorem demux_removePending (hc : Control w s) (hd : Demux w (s, h)) (hloc : s.hist.loc t = .idle)
    (hx : s.shared.pending i key = some x) (hok : s.hist.submitFailed x.slotId = false)
    (hst : StepIn .pending t s s')
    (hpending : s'.shared.pending = update2 s.shared.pending i key none)
    (htoken : s'.shared.nextToken = s.shared.nextToken) (hloc' : s'.hist.loc t = .completing key x) :
    Demux w (s', h.move x.token (.completing t)) := by
  have hat := hd.places.holds _ _ _ (.pending hx)
  have hlive := hd.places.live (.pending hx)
  refine ⟨?_, ?_, hd.shards.remove hpending hst.other (by rw [hloc']; rfl)
    fun t' id key' j _ hl => ?_, htoken ▸ hd.logs.move hlive ?_⟩
  · refine hd.places.op (t := t) hst.agree hst.other (fun f hf => ?_) (fun f id q hl => ?_)
      (fun _ j key' y hy => ?_) nofun nofun nofun
    · exact DemuxHist.moves.touched (by rw [hat.1]; rfl) hf
    · rw [hloc'] at hl
      cases hl
      exact hat.moved DemuxHist.moves
    · exact hd.places.remaining hx DemuxHist.moves (hpending ▸ hy)
  · refine hd.alive.move DemuxHist.moves hlive hst.serial (fun _ _ _ => by rw [hst.ctl]) hst.other
      (fun f' _ _ hk => ?_) fun _ t' hctl hk => ?_
    · rw [hloc] at hk
      exact hk
    · -- its worker, if it still has the slot, is not in the error exit
      cases hl : (s.hist.loc t').cancels with
      | none => exact hk.of_cancels hl
      | some c =>
        rw [IoHist.submitFailed_of_cancels (hat.2 ▸ hctl) hl] at hok
        cases hok
  · rintro ⟨rfl, rfl⟩
    obtain ⟨-, f, hown⟩ := hd.shards.own t' id key' j hl
    rw [hx] at hown
    cases hown
    have hctl := hc.parts.slots.thread t' id _ (Loc.slot_of_cancels hl)
    rw [IoHist.submitFailed_of_cancels hctl hl] at hok
    cases hok
  · exact .inr (hd.logs.not_resumed (by rw [hat.1]; rfl))

/-- The worker finds its own forward, or goes on to the next shard. -/
theorem Shards.cancel (hsh : Shards w s) {i : Nat} (hloc : s.hist.loc t = .cancelling id key i) :
    (i = w.shardIndex id ∧ ∃ f, s.shared.pending i key = some ⟨id, f⟩) ∨
      (i < w.shardIndex id ∧ s.shared.pending i key = none) := by
  obtain ⟨hle, f, hown⟩ := hsh.own t id key i (by rw [hloc]; rfl)
  rcases Nat.eq_or_lt_of_le hle with rfl | hlt
  · exact .inl ⟨rfl, f, hown⟩
  · refine .inr ⟨hlt, ?_⟩
    cases hx : s.shared.pending i key with
    | none => rfl
    | some x =>
      have heq := hsh.one _ _ _ _ _ hx hown
      omega

theorem demux_cancel (hc : Control w s) (hd : Demux w (s, h))
    (hloc : s.hist.loc t = .cancelling id key (w.shardIndex id))
    (hx : s.shared.pending (w.shardIndex id) key = some ⟨id, f⟩) (hst : StepIn .pending t s s')
    (hpending : s'.shared.pending = update2 s.shared.pending (w.shardIndex id) key none)
    (htoken : s'.shared.nextToken = s.shared.nextToken) (hloc' : s'.hist.loc t = .running id none) :
    Demux w (s',
      { h.move f .gone with cancelled := (h.owner f, s.hist.actor t) :: h.cancelled }) := by
  have hat := hd.places.holds _ _ _ (.pending hx)
  have hlive := hd.places.live (.pending hx)
  have hmoves : h.Moves f .gone
      { h.move f .gone with cancelled := (h.owner f, s.hist.actor t) :: h.cancelled } :=
    ⟨fun _ => DemuxHist.place_move, rfl, rfl⟩
  have hl : (s.hist.loc t).slot = some (id, .busy) := by rw [hloc]; rfl
  obtain ⟨n, howner, hserial⟩ := hd.alive.owner f hlive
  have hactor : s.hist.actor t = some n := by
    rw [(hc.parts.slots.own hl).2 rfl, ← hserial, hat.2]
  have hlogs := hd.logs.move (f := f) (q := .gone) hlive (.inl rfl)
  refine ⟨?_, ?_, hd.shards.remove hpending hst.other (by rw [hloc']; rfl)
    fun t' id' key' j hne hl' => ?_, htoken ▸ ⟨hlogs.fresh, hlogs.resumed, hlogs.once,
    hlogs.applied, fun e he => ?_⟩⟩
  · refine hd.places.op (t := t) hst.agree hst.other (fun f' hf => ?_) (fun f' id' q hl' => ?_)
      (fun _ j key' y hy => ?_) nofun nofun nofun
    · exact hmoves.touched (by rw [hat.1]; rfl) hf
    · rw [hloc'] at hl'
      cases hl'
    · exact hd.places.remaining hx hmoves (hpending ▸ hy)
  · refine hd.alive.move hmoves hlive hst.serial (fun _ _ _ => by rw [hst.ctl])
      hst.other (fun f' hf' hctl hk => ?_) fun hne => absurd rfl hne
    -- the slot of the worker waits for the number that is cancelled, and for no other
    obtain ⟨hne, hlive'⟩ := hmoves.live hf'
    exact hne (hd.alive.unique f' f hlive' hlive ((hc.slot_of_ctl hl hctl).trans hat.2.symm))
  · rintro ⟨heq, rfl⟩
    obtain ⟨-, f', hown⟩ := hd.shards.own t' id' key' j hl'
    rw [heq, hx] at hown
    cases hown
    have hctl := hc.parts.slots.thread t' id _ (Loc.slot_of_cancels hl')
    rw [hc.parts.slots.thread t id _ hl] at hctl
    cases hctl
    exact hne rfl
  · rcases List.mem_cons.mp he with rfl | he
    · exact ⟨n, by rw [howner, hactor]⟩
    · exact hd.logs.cancelled e he

/-- A number goes on from a thread or a list to the next one. -/
theorem Demux.carry (hd : Demux w (s, h)) (hst : StepIn part t s s') (hpart : part ≠ .pending)
    (htoken : s'.shared.nextToken = s.shared.nextToken) (hholds : Holds s f id p)
    (htouch : p.touched t part = true) (hp : ∀ i key, p ≠ .pending i key)
    (hkeeps : ∀ p', ¬ (s.hist.loc t).Keeps w p') (hcancels : (s'.hist.loc t).cancels = none)
    (hm : h.Moves f q h') (hlogs : Logs s.shared.nextToken h')
    (hthread : ∀ f' id' p', (s'.hist.loc t).carries t = some (p', f', id') → h'.At f' id' p')
    (hchannel : part = .channel → Tags.Once (fun r => some r.token) s'.shared.channel ∧
      ∀ r ∈ s'.shared.channel, h'.At r.token r.slotId .channel)
    (hqueue : part = .queue → Tags.Once (fun work => work.number.map (·.1)) s'.shared.queue ∧
      ∀ work ∈ s'.shared.queue, ∀ f id, work.number = some (f, id) → h'.At f id .queue)
    (hwaiters : part ≠ .waiters) : Demux w (s', h') := by
  have hat := hd.places.holds _ _ _ hholds
  have hlive := hd.places.live hholds
  refine ⟨?_, ?_, hd.shards.same (t := t) (hst.agree.pending hpart) hst.other (by simp [hcancels]),
    htoken ▸ hlogs⟩
  · refine hd.places.op (t := t) hst.agree hst.other (fun f' hf => ?_) hthread
      (fun heq => absurd heq hpart) hchannel hqueue fun heq => absurd heq hwaiters
    exact hm.touched (by rw [hat.1, htouch]) hf
  · refine hd.alive.move hm hlive hst.serial (fun _ _ _ => by rw [hst.ctl]) hst.other
      (fun _ _ _ => hkeeps _) fun _ t' _ hk => ?_
    rw [hat.1] at hk
    exact hk.of_ne_pending hp

variable {r : IoResume}

theorem demux_sendResume (hd : Demux w (s, h)) (hloc : s.hist.loc t = .resuming x)
    (hslot : r.slotId = x.slotId) (hr : r.token = x.token) (hst : StepIn .channel t s s')
    (hchannel : s'.shared.channel = s.shared.channel ++ [r])
    (htoken : s'.shared.nextToken = s.shared.nextToken) (hloc' : s'.hist.loc t = .idle) :
    Demux w (s', { h.move r.token .channel with resumed := r.token :: h.resumed }) := by
  have hholds : Holds s r.token r.slotId (.completing t) :=
    .thread (t := t) (by rw [hloc, hslot, hr]; rfl)
  have hat := hd.places.holds _ _ _ hholds
  have hlive := hd.places.live hholds
  have hnot := hd.logs.not_resumed (f := r.token) (by rw [hat.1]; rfl)
  have hlogs := hd.logs.move (f := r.token) (q := .channel) hlive (.inl rfl)
  have hmoves : h.Moves r.token .channel
      { h.move r.token .channel with resumed := r.token :: h.resumed } :=
    ⟨fun _ => DemuxHist.place_move, rfl, rfl⟩
  refine hd.carry hst (by simp) htoken hholds (by simp [Place.touched]) (by simp)
    (by simp [hloc, Loc.Keeps]) (by rw [hloc']; rfl) hmoves ⟨fun f' hle => ?_, fun f' hm => ?_,
    List.nodup_cons.mpr ⟨hnot, hd.logs.once⟩, hlogs.applied, hlogs.cancelled⟩
    (by simp [hloc', Loc.carries]) (fun _ => ?_) nofun (by simp)
  · have hold := hd.logs.fresh f' hle
    grind
  · have hold := hd.logs.resumed f'
    grind [Place.resumed]
  · rw [hchannel]
    have hne : ∀ r' ∈ s.shared.channel, r'.token ≠ r.token := fun r' hm =>
      (hd.places.holds _ _ _ (.channel hm rfl rfl)).ne hat (by simp)
    refine ⟨hd.places.channel.snoc fun b hb r' hm heq => ?_, fun r' hm => ?_⟩
    · cases hb
      exact hne r' hm (Option.some.inj heq)
    · rcases List.mem_append.mp hm with hm | hm
      · exact (hd.places.holds _ _ _ (.channel hm rfl rfl)).move hmoves (hne r' hm)
      · cases List.mem_singleton.mp hm
        exact hat.moved hmoves

theorem demux_recvResume (hd : Demux w (s, h)) {rest : List IoResume} (hloc : s.hist.loc t = .idle)
    (hr : s.shared.channel = r :: rest) (hst : StepIn .channel t s s')
    (hchannel : s'.shared.channel = rest) (htoken : s'.shared.nextToken = s.shared.nextToken)
    (hloc' : s'.hist.loc t = .moving r) : Demux w (s', h.move r.token (.moving t)) := by
  have hholds : Holds s r.token r.slotId .channel :=
    .channel (hr ▸ List.mem_cons_self) rfl rfl
  have hat := hd.places.holds _ _ _ hholds
  refine hd.carry hst (by simp) htoken hholds (by simp [Place.touched]) (by simp)
    (by simp [hloc, Loc.Keeps]) (by rw [hloc']; rfl) DemuxHist.moves
    (hd.logs.move (hd.places.live hholds) (.inl rfl)) (fun f' id' p' hl => ?_) (fun _ => ?_) nofun
    (by simp)
  · rw [hloc'] at hl
    cases hl
    exact hat.moved DemuxHist.moves
  · have honce := hd.places.channel
    simp only [hr] at honce
    rw [hchannel]
    refine ⟨honce.tail, fun r' hm => ?_⟩
    have hm' : r' ∈ s.shared.channel := hr ▸ List.mem_cons_of_mem _ hm
    refine (hd.places.holds _ _ _ (.channel hm' rfl rfl)).move DemuxHist.moves fun heq => ?_
    exact honce.not_mem_tail (b := r.token) rfl r' hm (congrArg some heq)

theorem demux_pushResume (hd : Demux w (s, h)) (hloc : s.hist.loc t = .moving r)
    (hst : StepIn .queue t s s') (hqueue : s'.shared.queue = s.shared.queue ++ [.resume r])
    (htoken : s'.shared.nextToken = s.shared.nextToken) (hloc' : s'.hist.loc t = .ended) :
    Demux w (s', h.move r.token .queue) := by
  have hholds : Holds s r.token r.slotId (.moving t) := .thread (t := t) (by rw [hloc]; rfl)
  have hat := hd.places.holds _ _ _ hholds
  exact hd.carry hst (by simp) htoken hholds (by simp [Place.touched]) (by simp)
    (by simp [hloc, Loc.Keeps]) (by rw [hloc']; rfl) DemuxHist.moves
    (hd.logs.move (hd.places.live hholds) (.inl rfl)) (by simp [hloc', Loc.carries]) nofun
    (fun _ => hqueue ▸ hd.places.pushed hat (by simp) (.resume r) rfl) (by simp)

variable {index : Nat}

/-- A worker takes an entry with a number off the policy queue. -/
theorem demux_pop (hd : Demux w (s, h)) {work : PolicyWork} (hw : work.number = some (f, id))
    (hloc : s.hist.loc t = .idle) (hget : s.shared.queue[index]? = some work)
    (hst : StepIn .queue t s s') (hqueue : s'.shared.queue = s.shared.queue.eraseIdx index)
    (htoken : s'.shared.nextToken = s.shared.nextToken) (hloc' : s'.hist.loc t = .popped work) :
    Demux w (s', h.move f (.popped t)) := by
  have hholds : Holds s f id .queue := .queue (List.mem_of_getElem? hget) hw
  have hat := hd.places.holds _ _ _ hholds
  have hcarries : (Loc.popped work).carries t = some (.popped t, f, id) := by
    cases work with
    | new id' => cases hw
    | resume r | lookupResume id' f' =>
      cases hw
      rfl
  refine hd.carry hst (by simp) htoken hholds (by simp [Place.touched]) (by simp)
    (by simp [hloc, Loc.Keeps]) (by rw [hloc']; rfl) DemuxHist.moves
    (hd.logs.move (hd.places.live hholds) (.inl rfl)) (fun f' id' p' hl => ?_) nofun (fun _ => ?_)
    (by simp)
  · rw [hloc', hcarries] at hl
    cases hl
    exact hat.moved DemuxHist.moves
  · rw [hqueue]
    refine ⟨hd.places.queue.erase index, fun work' hm f' id' hw' => ?_⟩
    have hm' := List.mem_of_mem_eraseIdx hm
    refine (hd.places.holds _ _ _ (.queue hm' hw')).move DemuxHist.moves ?_
    rintro rfl
    exact hd.places.queue.not_mem_erase (b := f') hget (by rw [hw]; rfl) work' hm (by rw [hw']; rfl)

/-- A worker uses the number that it carries. The slot of the number may become its own. -/
theorem Demux.use (hd : Demux w (s, h)) (hcarries : (s.hist.loc t).carries t = some (.popped t, f, id))
    (hagree : AgreeBut .slots s.shared s'.shared)
    (hctl : ∀ id', id' ≠ id → s'.hist.ctl id' = s.hist.ctl id')
    (hserial : s'.hist.serial = s.hist.serial)
    (hother : ∀ t', t' ≠ t → s'.hist.loc t' = s.hist.loc t')
    (hplain : (s'.hist.loc t).plain = true) {applied : List (Option Nat × Option Nat)}
    (happlied : ∀ e ∈ applied, ∃ n, e = (some n, some n)) :
    Demux w (s', { h.move f .gone with applied := applied }) := by
  have hholds : Holds s f id (.popped t) := .thread hcarries
  have hat := hd.places.holds _ _ _ hholds
  have hlive := hd.places.live hholds
  have hlogs := hd.logs.move (f := f) (q := .gone) hlive (.inl rfl)
  have hmoves : h.Moves f .gone { h.move f .gone with applied := applied } :=
    ⟨fun _ => DemuxHist.place_move, rfl, rfl⟩
  refine ⟨?_, ?_, hd.shards.same (t := t) (hagree.pending (by simp)) hother
    (by simp [Loc.cancels_of_plain hplain]), hagree.nextToken (by simp) (by simp) ▸
      ⟨hlogs.fresh, hlogs.resumed, hlogs.once, happlied, hlogs.cancelled⟩⟩
  · exact hd.places.op (t := t) hagree hother
      (fun f' hf => hmoves.touched (by rw [hat.1]; simp [Place.touched]) hf)
      (by simp [Loc.carries_of_plain hplain]) nofun nofun nofun nofun
  · refine hd.alive.move hmoves hlive hserial (fun f' hf hf' => hctl _ ?_) hother
      (fun _ _ _ => Loc.not_keeps_of_carries hcarries) fun hne => absurd rfl hne
    -- another number is that of another slot
    intro hid
    exact (hmoves.live hf').1 (hd.alive.unique f' f hf hlive (hid.trans hat.2.symm))

theorem Suspended.of_ne_pending (hs : Suspended w hist p id) (hp : ∀ i key, p ≠ .pending i key) :
    Suspended w hist q id :=
  hs.imp_right fun ⟨t, hc, hk⟩ => ⟨t, hc, hk.of_ne_pending hp⟩

theorem demux_wake (hd : Demux w (s, h)) {x : Waiter} (hx : s.shared.waiters[index]? = some x)
    (hhist : s'.hist = s.hist) (hpending : s'.shared.pending = s.shared.pending)
    (hchannel : s'.shared.channel = s.shared.channel)
    (hwaiters : s'.shared.waiters = s.shared.waiters.eraseIdx index)
    (hqueue : s'.shared.queue = s.shared.queue ++ [.lookupResume x.slotId x.token])
    (htoken : s'.shared.nextToken = s.shared.nextToken) : Demux w (s', h.move x.token .queue) := by
  have hholds : Holds s x.token x.slotId .waiters := .waiters (List.mem_of_getElem? hx) rfl rfl
  have hat := hd.places.holds _ _ _ hholds
  have hlive := hd.places.live hholds
  have hpushed := hd.places.pushed hat (by simp) (.lookupResume x.slotId x.token) rfl
  refine ⟨⟨fun f id p hh => ?_, hchannel ▸ hd.places.channel, hqueue ▸ hpushed.1,
    hwaiters ▸ hd.places.waiters.erase index⟩, ?_,
    hd.shards.same (t := 0) hpending (fun _ _ => by rw [hhist]) fun id key i hl => ?_,
    htoken ▸ hd.logs.move hlive (.inl rfl)⟩
  · cases hh with
    | pending hp =>
      have hat' := hd.places.holds _ _ _ (.pending (hpending ▸ hp))
      exact hat'.move DemuxHist.moves (hat'.ne hat (by simp))
    | thread hl =>
      have hat' := hd.places.holds _ _ _ (.thread (hhist ▸ hl))
      exact hat'.move DemuxHist.moves (hat'.ne hat (Loc.carries_ne hl).2.2.2.2)
    | channel hr hf hid =>
      have hat' := hd.places.holds _ _ _ (.channel (hchannel ▸ hr) hf hid)
      exact hat'.move DemuxHist.moves (hat'.ne hat (by simp))
    | queue hm hw => exact hpushed.2 _ (hqueue ▸ hm) f id hw
    | @waiters y hy hf hid =>
      rw [hwaiters] at hy
      have hy' := List.mem_of_mem_eraseIdx hy
      refine (hd.places.holds _ _ _ (.waiters hy' hf hid)).move DemuxHist.moves ?_
      rintro rfl
      exact hd.places.waiters.not_mem_erase (b := x.token) hx rfl y hy (congrArg some hf)
  · simp only [hhist]
    refine hd.alive.keep (fun f hf => ?_) rfl rfl (fun _ _ => rfl) fun f hf hsus => ?_
    · grind
    · rw [DemuxHist.place_move]
      split
      next heq =>
        subst heq
        exact hsus.of_ne_pending (by simp [show h.place x.token = .waiters from hat.1])
      next => exact hsus
  · rw [hhist] at hl
    exact hd.shards.own 0 id key i hl

/-! ## Operations -/

section

variable {o : IoOp} {r : o.Resp} {l' : Loc}

/-- An operation that has nothing to do with the numbers. -/
theorem Demux.quietOp (hd : Demux w (s, h)) (hm : IoMove w s t o r shared l l')
    (hk : Still t s ⟨shared, threads, s.hist.next w t o r⟩) (hh : h.record s t o r = h)
    (hl : l.plain = true) (hl' : l'.plain = true)
    (hwait : SameWaiting s.hist (s.hist.transfer t o r) t) :
    Demux w (⟨shared, threads, s.hist.next w t o r⟩, h.record s t o r) := by
  rw [hh]
  refine hd.quiet hk (hm.before ▸ hl) ?_ hwait
  simp only [hm.after]
  exact hl'

section

variable (hd : Demux w (s, h)) (hm : IoMove w s t o r shared l l')
  (hpart : o.part.numbered = false ∧ (o.part == .queue) = false) (hh : h.record s t o r = h)

include hd hm hpart hh

/-- One that changes the slots. -/
theorem Demux.slotsOp (hl : l.plain = true) (hl' : l'.plain = true)
    (hwait : SameWaiting s.hist (s.hist.transfer t o r) t) :
    Demux w (⟨shared, threads, s.hist.next w t o r⟩, h.record s t o r) :=
  hd.quietOp hm (hd.still hm.agree hpart.1 hpart.2 fun _ hne => (IoHist.next_of_ne hne).1) hh hl hl'
    hwait

/-- One that changes the slot that the thread has. -/
theorem Demux.ownOp (hc : Control w s) (hslot : l.slot = some (id, m)) (hl : l.plain = true)
    (hl' : l'.plain = true)
    (hctl : ∀ id', id' ≠ id → (s.hist.transfer t o r).ctl id' = s.hist.ctl id')
    (hserial : ∀ id', id' ≠ id → (s.hist.transfer t o r).serial id' = s.hist.serial id') :
    Demux w (⟨shared, threads, s.hist.next w t o r⟩, h.record s t o r) := by
  have hthread := hc.parts.slots.thread t id m (hm.before ▸ hslot)
  exact hd.slotsOp hm hpart hh hl hl' (.of_ne hctl hserial (.inr (.inl hthread)))

/-- One that takes no slot to other hands. -/
theorem Demux.plainOp (hl : l.plain = true) (hl' : l'.plain = true)
    (htr : s.hist.transfer t o r = s.hist) :
    Demux w (⟨shared, threads, s.hist.next w t o r⟩, h.record s t o r) := by
  refine hd.slotsOp hm hpart hh hl hl' fun id n _ _ => ?_
  rw [htr]
  exact ⟨rfl, rfl⟩

/-- One in the error exit of a submission. -/
theorem Demux.failingOp (htr : s.hist.transfer t o r = s.hist) (hl : l.cancels = some (id, key, 0))
    (hl' : l'.cancels = some (id, key, 0)) :
    Demux w (⟨shared, threads, s.hist.next w t o r⟩, h.record s t o r) := by
  rw [hh]
  refine hd.failing (hd.still hm.agree hpart.1 hpart.2 fun _ hne => (IoHist.next_of_ne hne).1) ?_ ?_
    (hm.before ▸ hl) (by rw [hm.after, hl'])
  · simp only [IoHist.next, htr]
  · simp only [IoHist.next, htr]

end

/-- One that uses the number that the worker has popped. -/
theorem Demux.useOp (hd : Demux w (s, h)) (hm : IoMove w s t o r shared l l')
    {applied : List (Option Nat × Option Nat)}
    (hh : h.record s t o r = { h.move f .gone with applied := applied }) (hpart : o.part = .slots)
    (hl : l.carries t = some (.popped t, f, id))
    (hctl : ∀ id', id' ≠ id → (s.hist.transfer t o r).ctl id' = s.hist.ctl id')
    (hserial : (s.hist.transfer t o r).serial = s.hist.serial) (hl' : l'.plain = true)
    (happlied : ∀ e ∈ applied, ∃ n, e = (some n, some n)) :
    Demux w (⟨shared, threads, s.hist.next w t o r⟩, h.record s t o r) := by
  rw [hh]
  refine hd.use (hm.before ▸ hl) (hpart ▸ hm.agree) hctl hserial
    (fun _ hne => (IoHist.next_of_ne hne).1) ?_ happlied
  simp only [hm.after]
  exact hl'

/-- The step of an operation after which every slot is where it was. -/
theorem IoMove.stepIn (hm : IoMove w s t o r shared l l')
    (hctl : (s.hist.transfer t o r).ctl = s.hist.ctl)
    (hserial : (s.hist.transfer t o r).serial = s.hist.serial) :
    StepIn o.part t s ⟨shared, threads, s.hist.next w t o r⟩ :=
  ⟨hm.agree, hctl, hserial, fun _ hne => (IoHist.next_of_ne hne).1⟩

end

variable {env : IoEnv}

/-- A worker applies the resume that it has popped. -/
theorem demux_resume (hd : Demux w (s, h))
    (hm : IoMove w s t (.beginResume r) true shared (.popped (.resume r)) (.entered r.slotId)) :
    Demux w (⟨shared, threads, s.hist.next w t (.beginResume r) true⟩,
      h.record s t (.beginResume r) true) := by
  have hcarries : (s.hist.loc t).carries t = some (.popped t, r.token, r.slotId) := by
    rw [hm.before]
    rfl
  have hat := hd.places.holds _ _ _ (.thread hcarries)
  obtain ⟨n, howner, hserial⟩ := hd.alive.owner _ (hd.places.live (.thread hcarries))
  refine hd.useOp hm rfl rfl rfl (fun id' hne => update_of_ne hne _ _) rfl rfl fun e he => ?_
  rcases List.mem_cons.mp he with rfl | he
  · refine ⟨n, ?_⟩
    rw [howner, ← hat.2, hserial]
  · exact hd.logs.applied e he

theorem demux_pushNew (hc : Control w s) (hd : Demux w (s, h))
    (hm : IoMove w s t (.push (.new id)) () shared (.routed id) .ended)
    (hs : (IoOp.push (.new id)).sem env s.shared = some ((), shared)) :
    Demux w (⟨shared, threads, s.hist.next w t (.push (.new id)) ()⟩,
      h.record s t (.push (.new id)) ()) := by
  cases hs
  have hctl := hc.parts.slots.thread t id .ingress (by rw [hm.before]; rfl)
  have hqueue := hd.places.queue.snoc (x := .new id) (by rintro _ ⟨⟩)
  refine hd.quietOp hm ⟨rfl, rfl, rfl, rfl, fun work hmem => ?_, hqueue, fun _ hne =>
    (IoHist.next_of_ne hne).1⟩ rfl rfl rfl
    (.of_ne (fun _ hne => update_of_ne hne _ _) (fun _ _ => rfl) (.inr (.inl hctl)))
  rcases List.mem_append.mp hmem with hmem | hmem
  · exact .inl hmem
  · cases List.mem_singleton.mp hmem
    exact .inr rfl

theorem demux_popNew (hc : Control w s) (hd : Demux w (s, h))
    (hm : IoMove w s t .pop (.new id) shared .idle (.popped (.new id)))
    (hs : IoOp.pop.sem env s.shared = some (.new id, shared)) :
    Demux w (⟨shared, threads, s.hist.next w t .pop (.new id)⟩, h.record s t .pop (.new id)) := by
  obtain ⟨_, hget, heq⟩ := Option.map_eq_some_iff.mp hs
  cases heq
  have hctl := hc.parts.queued.mem id (List.mem_of_getElem? hget)
  exact hd.quietOp hm ⟨rfl, rfl, rfl, rfl, fun _ hmem => .inl (List.mem_of_mem_eraseIdx hmem),
    hd.places.queue.erase _, fun _ hne => (IoHist.next_of_ne hne).1⟩ rfl rfl rfl
    (.of_ne (fun _ hne => update_of_ne hne _ _) (fun _ _ => rfl) (.inr (.inr hctl)))

/-- A thread goes on and neither keeps nor carries another number. -/
theorem Demux.moved (hd : Demux w (s, h)) {o : IoOp} {a : o.Resp} {l' : Loc}
    (hm : IoMove w s t o a shared l l') (hk : Still t s ⟨shared, threads, s.hist.next w t o a⟩)
    (htr : s.hist.transfer t o a = s.hist) (hcarry : l'.carries t = l.carries t)
    (hown : ∀ id key i, l'.cancels = some (id, key, i) →
      i ≤ w.shardIndex id ∧ ∃ f, s.shared.pending (w.shardIndex id) key = some ⟨id, f⟩)
    (hkeeps : ∀ p, l.Keeps w p → l'.Keeps w p) :
    Demux w (⟨shared, threads, s.hist.next w t o a⟩, h) := by
  refine hd.same hk ?_ (fun id key i hl => ?_) (fun _ _ => ?_) fun f hf hsus => ?_
  · simp only [hm.after, hm.before, hcarry]
  · simp only [hm.after] at hl
    exact hown id key i hl
  · simp only [IoHist.next, htr]
  · refine hsus.frame (t := t) (by simp only [IoHist.next, htr]) hk.other (fun _ _ _ hk => hk)
      fun _ hk => ?_
    rw [hm.before] at hk
    rw [hm.after]
    exact hkeeps _ hk

/-- The shard that a cancel looks at does not have the forward, and it looks at the next one. -/
theorem demux_searchOn (hd : Demux w (s, h))
    (hm : IoMove w s t (.cancelPending i key) false shared (.cancelling id key i)
      (.cancelling id key (i + 1)))
    (hs : (IoOp.cancelPending i key).sem env s.shared = some (false, shared)) :
    Demux w (⟨shared, threads, s.hist.next w t (.cancelPending i key) false⟩,
      h.record s t (.cancelPending i key) false) := by
  obtain ⟨hfound, rfl⟩ := Prod.mk.inj (Option.some.inj hs)
  have hx : s.shared.pending i key = none := by simpa using hfound
  have hlt : i < w.shardIndex id := by
    rcases Shards.cancel (s := s) hd.shards hm.before with ⟨rfl, f, hsome⟩ | ⟨hlt, -⟩
    · rw [hx] at hsome
      cases hsome
    · exact hlt
  simp only [DemuxHist.record, hx]
  refine hd.moved hm ⟨update2_eq_self hx, rfl, rfl, rfl, fun _ hmem => .inl hmem, hd.places.queue,
    fun _ hne => (IoHist.next_of_ne hne).1⟩ rfl rfl (fun id' key' j hl => ?_) fun _ hk => hk
  cases hl
  exact ⟨hlt, (hd.shards.own t id key i (by rw [hm.before]; rfl)).2⟩

/-- The search ends on the shard of the forward. -/
theorem demux_cancelFound (hc : Control w s) (hd : Demux w (s, h)) {found : Bool}
    (hend : (found || i + 1 ≥ w.ioShards) = true)
    (hm : IoMove w s t (.cancelPending i key) found shared (.cancelling id key i) (.running id none))
    (hs : (IoOp.cancelPending i key).sem env s.shared = some (found, shared)) :
    Demux w (⟨shared, threads, s.hist.next w t (.cancelPending i key) found⟩,
      h.record s t (.cancelPending i key) found) := by
  obtain ⟨hfound, rfl⟩ := Prod.mk.inj (Option.some.inj hs)
  rcases Shards.cancel (s := s) hd.shards hm.before with ⟨rfl, f, hx⟩ | ⟨hlt, hx⟩
  · simp only [DemuxHist.record, hx]
    exact demux_cancel hc hd hm.before hx (hm.stepIn rfl rfl) rfl rfl hm.after
  · have hmod : w.shardIndex id < w.ioShards := Nat.mod_lt _ w.ioShards_pos
    simp only [← hfound, hx, Option.isSome_none, Bool.false_or, decide_eq_true_eq] at hend
    omega

/-! ## Steps -/

/-- **One operation keeps the invariant, unless it disturbs a forward.** -/
theorem demux_op (hc : Control w s) (hd : Demux w (s, h)) {o : IoOp} {r : o.Resp}
    (hop : s.nextOp t = some o) (hok : ioOk w (s.hist.loc t) o) (hmay : ioMay (s.hist.loc t) o r)
    (hs : o.sem env s.shared = some (r, shared)) (hund : Undisturbed w (s, h) (.op t env)) :
    Demux w (⟨shared, threads, s.hist.next w t o r⟩, h.record s t o r) := by
  obtain ⟨l, l', hmove, hm⟩ := IoMove.of_sem hok hmay hs
  have hloc := hm.before
  cases hmove with
  | @takeFree id =>
    -- the slot that was taken has no transaction
    have hslot := (parts_op hc.parts hok hs).2.slots.own (t := t) (m := .empty)
      (by simp only [hm.after]; rfl)
    have hnone : s.hist.serial id = none := hslot.1.dead rfl
    exact hd.slotsOp hm ⟨rfl, rfl⟩ rfl rfl rfl (.of_ne (fun _ hne => update_of_ne hne _ _)
      (fun _ _ => rfl) (.inl hnone))
  | setup | clearActive =>
    exact hd.ownOp hm ⟨rfl, rfl⟩ rfl hc rfl rfl rfl (fun _ _ => rfl)
      fun _ hne => update_of_ne hne _ _
  | returnToFree =>
    exact hd.ownOp hm ⟨rfl, rfl⟩ rfl hc rfl rfl rfl (fun _ hne => update_of_ne hne _ _)
      fun _ _ => rfl
  | enter =>
    exact hd.ownOp hm ⟨rfl, rfl⟩ (by simp [DemuxHist.record, hloc]) hc rfl rfl rfl
      (fun _ hne => update_of_ne hne _ _) fun _ _ => rfl
  | suspend => exact demux_suspend hc hd hloc hm.agree
  | resume => exact demux_resume hd hm
  | resumeLate => exact hd.useOp hm rfl rfl rfl (fun _ _ => rfl) rfl rfl hd.logs.applied
  | wake =>
    refine hd.useOp hm ?_ rfl rfl (fun id' hne => update_of_ne hne _ _) rfl rfl hd.logs.applied
    simp [DemuxHist.record, hloc, DemuxHist.move]
  | wakeLate =>
    refine hd.useOp hm ?_ rfl rfl (fun _ _ => rfl) rfl rfl hd.logs.applied
    simp [DemuxHist.record, hloc, DemuxHist.move]
  | pushNew => exact demux_pushNew hc hd hm hs
  | pushResume =>
    cases hs
    exact demux_pushResume hd hloc (hm.stepIn rfl rfl) rfl rfl hm.after
  | popNew => exact demux_popNew hc hd hm hs
  | popResume | popLookup =>
    obtain ⟨_, hget, heq⟩ := Option.map_eq_some_iff.mp hs
    cases heq
    exact demux_pop hd rfl hloc hget (hm.stepIn rfl rfl) rfl rfl hm.after
  | recvResume =>
    simp only [IoOp.sem] at hs
    split at hs
    · cases hs
    · rename_i res rest hchannel
      cases hs
      exact demux_recvResume hd hloc hchannel (hm.stepIn rfl rfl) rfl rfl hm.after
  | sendResume =>
    cases hs
    exact demux_sendResume hd hloc rfl rfl (hm.stepIn rfl rfl) rfl rfl hm.after
  | @track id key pool =>
    have hslot : (s.hist.loc t).slot = some (id, .busy) := by rw [hloc]; rfl
    obtain ⟨n, hn, hactor⟩ := hc.parts.slots.txn hslot rfl
    have hnone : ∀ j < w.ioShards, s.shared.pending j key = none := by
      simpa [Undisturbed, hop] using hund
    cases hs
    simp only [DemuxHist.record, hactor]
    exact demux_trackPending hc hd hloc hn hnone (hm.stepIn rfl rfl) rfl rfl hm.after
  | @registerWaiter id debt =>
    have hslot : (s.hist.loc t).slot = some (id, .busy) := by rw [hloc]; rfl
    obtain ⟨n, hn, hactor⟩ := hc.parts.slots.txn hslot rfl
    cases hs
    simp only [DemuxHist.record, hactor]
    exact demux_registerWaiter hc hd hloc hn (hm.stepIn rfl rfl) rfl rfl hm.after
  | nonePending =>
    obtain ⟨hx, rfl⟩ := Prod.mk.inj (Option.some.inj hs)
    exact hd.quietOp hm ⟨update2_eq_self hx, rfl, rfl, rfl, fun _ hmem => .inl hmem,
      hd.places.queue, fun _ hne => (IoHist.next_of_ne hne).1⟩ (by simp [DemuxHist.record, hx]) rfl
      rfl fun _ _ _ _ => ⟨rfl, rfl⟩
  | @removePending i key x =>
    obtain ⟨hx, rfl⟩ := Prod.mk.inj (Option.some.inj hs)
    have hfailed : s.hist.submitFailed x.slotId = false := by
      simpa [Undisturbed, hop, hx] using hund
    simp only [DemuxHist.record, hx]
    exact demux_removePending hc hd hloc hx hfailed (hm.stepIn rfl rfl) rfl rfl hm.after
  | cancel hend => exact demux_cancelFound hc hd hend hm hs
  | searchOn => exact demux_searchOn hd hm hs
  | @sent id key pool | @sendFailed id key pool =>
    obtain ⟨hsent, rfl⟩ := Prod.mk.inj (Option.some.inj hs)
    refine demux_sendTo hc hd hloc ?_
    have hown : env.sent = true ∨
        (s.shared.pending (w.shardIndex id) key).any (fun p => p.slotId == id) = true := by
      simpa only [Undisturbed, hop, hloc] using hund
    rw [hsent] at hown
    refine hown.imp_right fun hany => ?_
    obtain ⟨⟨id', f⟩, hx, hid⟩ := (Option.any_eq_true _ _).mp hany
    cases (beq_iff_eq.mp hid : id' = id)
    exact ⟨f, hx⟩
  | removeFailed | releaseFailed => exact hd.failingOp hm ⟨rfl, rfl⟩ rfl rfl rfl rfl
  | removeCompleted =>
    exact hd.moved hm (hd.still hm.agree rfl rfl fun _ hne => (IoHist.next_of_ne hne).1) rfl rfl
      (fun _ _ _ hl => by cases hl) fun _ hk => by cases hk
  | _ => exact hd.plainOp hm ⟨rfl, rfl⟩ rfl rfl rfl rfl

theorem Loc.Done.plain (h : l.Done) : l.plain = true := by
  unfold Loc.Done at h
  split at h <;> first | rfl | cases h

theorem demux_step (hc : Control w s) (hd : Demux w (s, h)) {a : IoAct}
    (hund : Undisturbed w (s, h) a) (hs : s.step w a = some s') : Demux w (s', h.next s a) := by
  cases ioStep_cases hs with
  | @start t job ht =>
    exact hd.same (t := t) ⟨rfl, rfl, rfl, rfl, fun _ hm => .inl hm, hd.places.queue, fun _ _ => rfl⟩ rfl
      (fun id key i hl => hd.shards.own t id key i hl) (fun _ _ => rfl) fun _ _ hsus => hsus
  | @wake index x hx =>
    have hnext : h.next s (.wake index) = h.move x.token .queue := by simp [DemuxHist.next, hx]
    rw [hnext]
    exact demux_wake hd hx rfl rfl rfl rfl rfl rfl
  | @ret t ht =>
    have hdone : (s.hist.loc t).Done := hc.prog t _ ht
    refine hd.quiet (t := t) ⟨rfl, rfl, rfl, rfl, fun _ hm => .inl hm, hd.places.queue,
      fun t' hne => update_of_ne hne _ _⟩ hdone.plain ?_ fun _ _ _ _ => ⟨rfl, rfl⟩
    simp only [IoHist.reset, update_self]
    rfl
  | @op t env o k r shared ht hsem =>
    obtain ⟨hok, hmay, -⟩ := hc.op ht hsem
    have hop : s.nextOp t = some o := by simp [IoState.nextOp, ht]
    have hnext : h.next s (.op t env) = h.record s t o r := by
      simp [DemuxHist.next, IoState.performed_op ht hsem]
    rw [hnext]
    exact demux_op hc hd hop hok hmay hsem hund

end

theorem demux_init (w : SplitWiring) {s : IoState} (hinit : (split w).init s) : Demux w (s, {}) := by
  obtain ⟨store, table, inflight, rfl, -⟩ := hinit
  refine ⟨⟨fun f id p hh => ?_, Tags.once_nil, Tags.once_nil, Tags.once_nil⟩,
    ⟨fun f hf => absurd rfl hf, fun f hf => absurd rfl hf, fun f _ hf => absurd rfl hf⟩,
    ⟨fun _ _ _ hx => (by cases hx), fun _ _ _ _ _ hx => (by cases hx), fun _ _ _ _ hl => (by cases hl)⟩,
    ⟨fun _ _ => ⟨rfl, List.not_mem_nil⟩, fun _ hm => (by cases hm), List.nodup_nil,
      fun _ hm => (by cases hm), fun _ hm => (by cases hm)⟩⟩
  cases hh with
  | pending hx | thread hx | channel hx _ _ | queue hx _ | waiters hx _ _ => cases hx

/-- **In every run in which the forward of a failing submission is left alone and no key is tracked
while it is pending, a forward gives at most one resume, which is applied to the transaction that
submitted it, and only that transaction cancels it.** -/
theorem demuxed_of_undisturbed (w : SplitWiring) {x : IoState × DemuxHist}
    (h : (demux w).Reach (Undisturbed w) x) : Demuxed x := by
  refine demuxed_of_demux (w := w) (Lts.Reach.inv (P := Demux w) ?_ ?_ h)
  · rintro ⟨s, h⟩ ⟨hinit, rfl⟩
    exact demux_init w hinit
  · rintro ⟨s, h⟩ a x' hr hd hund he
    obtain ⟨s', hs, rfl⟩ := Option.map_eq_some_iff.mp he
    exact demux_step (control hr.forget) hd hund hs

/-- The send of the first query fails, and its forward is cancelled; the second query is forwarded
and gets its reply. -/
def sampleFailedSend : List IoAct :=
  sampleArrival "198.51.100.7:5300" ++ sampleTurn 1 .policy 18 { forwardPlan with sent := false } ++
    sampleArrival "198.51.100.8:5300" ++ sampleTurn 1 .policy 9 forwardPlan ++
    sampleTurn 2 (.reply 0 ⟨"192.0.2.1:53", 0 :: 1 :: List.replicate 10 0⟩) 4 {} ++
    sampleTurn 3 .moveResume 2 {} ++ sampleTurn 1 .policy 11 finishPlan

theorem demuxed_of_undisturbed_sample :
    ∃ x, (demux sampleSplitWiring).Reach (Undisturbed sampleSplitWiring) x ∧
      x.2.applied = [(some 1, some 1)] ∧ x.2.cancelled = [(some 0, some 0)] ∧ Demuxed x := by
  obtain ⟨x, hr, happlied, hcancelled⟩ := Lts.exists_exec (L := demux sampleSplitWiring)
    (Undisturbed sampleSplitWiring) (s := (sampleSplit 2 (by decide) fun _ => none, {}))
    sampleFailedSend
    (fun x => x.2.applied = [(some 1, some 1)] ∧ x.2.cancelled = [(some 0, some 0)])
    ⟨sampleSplit_init _ _ _, rfl⟩ (by decide +kernel)
  exact ⟨x, hr, happlied, hcancelled, demuxed_of_undisturbed _ hr⟩

/-- The forward of the first query times out before its send fails. The query is answered, the
second one gets its slot and is forwarded, and then the resume of the first forward comes. -/
def sampleLateResume : List IoAct :=
  sampleArrival "198.51.100.7:5300" ++
    (IoAct.start 1 .policy :: List.replicate 7 (IoAct.op 1 { forwardPlan with sent := false })) ++
    sampleTurn 2 (.timeouts 0) 4 { late := [⟨"192.0.2.1:53", 0⟩] } ++
    (List.replicate 11 (IoAct.op 1 { forwardPlan with sent := false }) ++ [IoAct.ret 1]) ++
    sampleArrival "198.51.100.8:5300" ++ sampleTurn 1 .policy 9 forwardPlan ++
    sampleTurn 3 .moveResume 2 {} ++ (IoAct.start 1 .policy :: List.replicate 2 (IoAct.op 1 {}))

/-- The resume of a forward is applied to the next transaction in the slot. -/
theorem resume_misapplied :
    ∃ x, (demux sampleSplitWiring).Reach Lts.Any x ∧ x.2.applied = [(some 0, some 1)] :=
  Lts.exists_exec (L := demux sampleSplitWiring) Lts.Any
    (s := (sampleSplit 2 (by decide) fun _ => none, {})) sampleLateResume _
    ⟨sampleSplit_init _ _ _, rfl⟩ (by decide +kernel)

end Conduit
