import Conduit.Lib.Lts
import Conduit.Core.Stages
import Conduit.Forward.Table

/-!
# Synchronous forwards

`ForwardTransport::handle_sync` (`forward/transport.rs`) of one listener worker. The worker runs its
forwards one after the other over the upstream sockets of its own; a socket stays open, and a
datagram that reaches it stays in its buffer until a forward receives it.

- `handleSync`: the forward, as a program over the table, the sockets and the network.
- `handleSync_refines`: it is the forward of the pipeline model.
- `worker`: the worker, the network, and the other workers (they share the table).
- `attributed_of_quiet`: where only the awaited reply reaches a socket, a datagram that is taken as
  an answer comes from the forward's backend and has the forward's id.
-/

namespace Conduit

inductive UpstreamTransport where
  | udpOnly | preferUdpWithTcpFallback | tcpOnly
  deriving DecidableEq, Repr

structure SyncWiring where
  codec : Codec
  upstreamTransport : UpstreamTransport
  clientTcpUsesUpstreamTcp : Bool
  isIpv4 : String → Bool

structure Datagram where
  sender : String
  wire : Wire
  deriving DecidableEq, Repr

/-- The operations of a synchronous forward. -/
inductive SyncOp where
  | registerUnique (backend : String) (txnId : Nat)
  | tableRemove (key : ForwardKey)
  | selectSource (v4 : Bool) (sel : SourceSelection)
  | udpSocketFor (v4 : Bool) (sel : SourceSelection)
  /-- `send_to`: did it succeed? -/
  | sendTo (sock : SockId) (backend : String) (wire : Wire)
  /-- `recv_from`; `none`: the read timeout, or another error. -/
  | recvFrom (sock : SockId)
  /-- `forward_tcp`; `none`: an error. -/
  | forwardTcp (backend : String) (wire : Wire) (source : String)
  /-- History: the datagram is taken as the answer of the forward. -/
  | accept (key : ForwardKey) (d : Datagram)

@[reducible] def SyncOp.Resp : SyncOp → Type
  | .registerUnique _ _ => Option ForwardKey
  | .tableRemove _ => Unit
  | .selectSource _ _ => String
  | .udpSocketFor _ _ => SockId
  | .sendTo _ _ _ => Bool
  | .recvFrom _ => Option Datagram
  | .forwardTcp _ _ _ => Option Wire
  | .accept _ _ => Unit

abbrev SyncProg (α : Type) := Prog SyncOp SyncOp.Resp α

abbrev syncOp (o : SyncOp) : SyncProg o.Resp := Prog.call o

/-- `use_tcp_for_attempt(txn, false)`. -/
def useTcpForAttempt (w : SyncWiring) (t : Transaction) : Bool :=
  w.clientTcpUsesUpstreamTcp && t.protocol == .tcp || w.upstreamTransport == .tcpOnly

/-- The value of `take_effective_source_override_v4`, `_v6`. -/
def effectiveSource (t : Transaction) (retry override : Option String) : Option String :=
  if t.attemptCount > 1 then retry.or override else override

/-- The sources of the pool and of the configuration, for the backend's address family. -/
def sourceSelection (w : SyncWiring) (t : Transaction) (backend : String) (pool allowed : List String) :
    SourceSelection where
  pool := pool
  override :=
    if w.isIpv4 backend then effectiveSource t t.retrySourceOverrideV4 t.sourceOverrideV4
    else effectiveSource t t.retrySourceOverrideV6 t.sourceOverrideV6
  allowed := allowed

/-- The answer has the TC bit, and the forward goes on over TCP. -/
def fallsBack (w : SyncWiring) (backend : String) (wire : Wire) : Bool :=
  w.upstreamTransport == .preferUdpWithTcpFallback && w.isIpv4 backend &&
    ((w.codec.fromVec wire).map (·.truncated)).getD false

/-- `finish_response`. -/
def finishSync (w : SyncWiring) (t : Transaction) (key : ForwardKey) (wire : Wire) :
    SyncProg (Transaction × StageOutcome) := do
  syncOp (.tableRemove key)
  return (finishResponse w.codec t wire, .cont .responseRules)

/-- `servfail` with a key. -/
def servfailSync (t : Transaction) (key : ForwardKey) : SyncProg (Transaction × StageOutcome) := do
  syncOp (.tableRemove key)
  return (t.setServfail, .cont .send)

/-- The datagram is the answer. -/
def acceptSync (w : SyncWiring) (t : Transaction) (key : ForwardKey) (d : Datagram) :
    SyncProg (Transaction × StageOutcome) := do
  syncOp (.accept key d)
  finishSync w t key d.wire

/-- `handle_sync` from `recv_from` on. Neither the sender nor the id of a datagram is looked at. -/
def receiveSync (w : SyncWiring) (t : Transaction) (key : ForwardKey) (upstreamWire : Wire)
    (source : String) (socket : SockId) : SyncProg (Transaction × StageOutcome) := do
  match ← syncOp (.recvFrom socket) with
  | some d =>
    if fallsBack w key.backend d.wire then
      match ← syncOp (.forwardTcp key.backend upstreamWire source) with
      | some wire => finishSync w t key wire
      | none => acceptSync w t key d
    else acceptSync w t key d
  | none =>
    syncOp (.tableRemove key)
    return (t.setServfail, .cont .responseRules)

/-- `handle_sync`; `pool` and `allowed` are the source addresses of the snapshot for the pool. -/
def handleSync (w : SyncWiring) (t : Transaction) (pool allowed : List String) :
    SyncProg (Transaction × StageOutcome) := do
  let some backend := t.selectedBackend | return (t.setServfail, .cont .send)
  let some key ← syncOp (.registerUnique backend t.id) | return (t.setServfail, .cont .send)
  let sel := sourceSelection w t backend pool allowed
  let t := t.takeEffectiveSources
  let upstreamWire := rewriteDnsId t.queryWire key.dnsId.toNat
  let source ← syncOp (.selectSource (w.isIpv4 backend) sel)
  if useTcpForAttempt w t then
    match ← syncOp (.forwardTcp backend upstreamWire source) with
    | some wire => finishSync w t key wire
    | none => servfailSync t key
  else
    -- the socket is chosen anew: round robin goes on
    let socket ← syncOp (.udpSocketFor (w.isIpv4 backend) sel)
    if ← syncOp (.sendTo socket backend upstreamWire) then
      receiveSync w t key upstreamWire source socket
    else servfailSync t key

/-! ## The forward of the pipeline model -/

/-- What the forward stage of the pipeline returns if its exchange ends with `x`. -/
def exchanged (x : ExchangeResult) : StageProg (Transaction × StageOutcome) →
    Option (Transaction × StageOutcome)
  | .ret v => some v
  | .op (.exchange _) k =>
    match k x with
    | .ret v => some v
    | .op _ _ => none
  | .op _ _ => none

/-- What `handle_sync` returns for a backend: it fails before or after the sources are taken, the
receive times out, or there is an answer, over UDP unless the forward falls back to TCP. -/
theorem handleSync_ensures {may : (o : SyncOp) → o.Resp → Prop} {w : SyncWiring} {t : Transaction}
    {backend : String} {Q : Transaction × StageOutcome → Prop} (hb : t.selectedBackend = some backend)
    (hrefused : Q (t.setServfail, .cont .send))
    (herror : Q (t.takeEffectiveSources.setServfail, .cont .send))
    (htimeout : Q (t.takeEffectiveSources.setServfail, .cont .responseRules))
    (htcp : useTcpForAttempt w t.takeEffectiveSources = true → ∀ query source wire,
      may (.forwardTcp backend query source) (some wire) →
        Q (finishResponse w.codec t.takeEffectiveSources wire, .cont .responseRules))
    (hudp : ¬useTcpForAttempt w t.takeEffectiveSources = true → ∀ key socket d (tcp : Option Wire),
      may (.registerUnique backend t.id) (some key) → may (.recvFrom socket) (some d) →
      (fallsBack w key.backend d.wire = true →
        ∃ query source, may (.forwardTcp key.backend query source) tcp) →
        Q (finishResponse w.codec t.takeEffectiveSources
          (if fallsBack w key.backend d.wire then tcp.getD d.wire else d.wire), .cont .responseRules))
    (pool allowed : List String) :
    Prog.Ensures may Q (handleSync w t pool allowed) := by
  simp only [handleSync, hb]
  intro key hkey
  cases key with
  | none => exact hrefused
  | some key =>
    intro source _
    change Prog.Ensures _ _ (if useTcpForAttempt w t.takeEffectiveSources then _ else _)
    split
    · rename_i h
      intro answer hanswer
      cases answer with
      | some wire => exact fun _ _ => htcp h _ _ wire hanswer
      | none => exact fun _ _ => herror
    · rename_i h
      intro socket _ sent _
      cases sent with
      | false => exact fun _ _ => herror
      | true =>
        intro received hreceived
        cases received with
        | none => exact fun _ _ => htimeout
        | some d =>
          have hend := fun tcp => hudp h key socket d tcp hkey hreceived
          change Prog.Ensures _ _ (if fallsBack w key.backend d.wire then _ else _)
          split at hend <;> rename_i hfall
          · rw [if_pos hfall]
            intro answer hanswer
            have hend := hend answer fun _ => ⟨_, _, hanswer⟩
            cases answer with
            | some wire => exact fun _ _ => hend
            | none => exact fun _ _ _ _ => hend
          · rw [if_neg hfall]
            exact fun _ _ _ _ => hend none fun h => absurd h hfall

/-- The pipeline model has this forward with its exchange as one operation: whatever it returns,
`forwardSync` returns for some end of the exchange. -/
theorem handleSync_refines (w : SyncWiring) (t : Transaction) (pool allowed : List String) :
    Prog.Ensures (fun _ _ => True) (fun v => ∃ x, exchanged x (forwardSync w.codec t) = some v)
      (handleSync w t pool allowed) := by
  cases hb : t.selectedBackend with
  | none =>
    simp only [handleSync, forwardSync, hb]
    exact ⟨.timeout, rfl⟩
  | some backend =>
    simp only [forwardSync, hb]
    exact handleSync_ensures hb ⟨.refused, rfl⟩ ⟨.error, rfl⟩ ⟨.timeout, rfl⟩
      (fun _ _ _ wire _ => ⟨.answer wire, rfl⟩) (fun _ _ _ _ _ _ _ _ => ⟨.answer _, rfl⟩) pool allowed

/-! ## The worker -/

/-- The answers of the outside at one operation. -/
structure SyncEnv where
  sent : Bool := true
  /-- The receive fails. -/
  recvError : Bool := false
  tcpAnswer : Option Wire := none

structure SyncShared where
  table : TxnTable
  v4 : FamilyEgress
  v6 : FamilyEgress
  /-- The datagrams that reached a socket and were not received yet. -/
  buffers : SockId → List Datagram := fun _ => []
  /-- History: the datagrams that were taken as answers. -/
  accepted : List (ForwardKey × Datagram) := []

/-- A `recv_from` buffer has 4096 bytes. -/
def Datagram.received (d : Datagram) : Datagram := { d with wire := d.wire.take 4096 }

/-- The effect of an operation and its answer; `none`: it blocks. -/
def SyncOp.sem (env : SyncEnv) (s : SyncShared) : (o : SyncOp) → Option (o.Resp × SyncShared)
  | .registerUnique backend txnId =>
    let r := s.table.registerUnique backend txnId
    some (r.2, { s with table := r.1 })
  | .tableRemove key => some ((), { s with table := s.table.remove key })
  | .selectSource v4 sel =>
    if v4 then
      let r := s.v4.selectSource sel
      some (r.2, { s with v4 := r.1 })
    else
      let r := s.v6.selectSource sel
      some (r.2, { s with v6 := r.1 })
  | .udpSocketFor v4 sel =>
    if v4 then
      let r := s.v4.udpSocketFor sel
      some (r.2, { s with v4 := r.1 })
    else
      let r := s.v6.udpSocketFor sel
      some (r.2, { s with v6 := r.1 })
  | .sendTo _ _ _ => some (env.sent, s)
  | .recvFrom sock =>
    if env.recvError then some (none, s)
    else match s.buffers sock with
      | [] => none
      | d :: rest =>
        some (some d.received, { s with buffers := Function.update s.buffers sock rest })
  | .forwardTcp _ _ _ => some (env.tcpAnswer, s)
  | .accept key d => some ((), { s with accepted := s.accepted ++ [(key, d)] })

/-- Where the forward of the worker is. -/
inductive Leg where
  | idle
  | registered (key : ForwardKey)
  /-- The query was sent, and nothing received. -/
  | waiting (key : ForwardKey) (sock : SockId)
  | received (key : ForwardKey) (d : Datagram)
  deriving DecidableEq, Repr

def Leg.next (l : Leg) : (o : SyncOp) → o.Resp → Leg
  | .registerUnique _ _, r => match (r : Option ForwardKey) with
    | some key => .registered key
    | none => l
  | .tableRemove _, _ => .idle
  | .sendTo sock _ _, r => match l, (r : Bool) with
    | .registered key, true => .waiting key sock
    | l, _ => l
  | .recvFrom _, r => match l, (r : Option Datagram) with
    | .waiting key _, some d => .received key d
    | .waiting key _, none => .registered key
    | l, _ => l
  | _, _ => l

structure SyncState where
  shared : SyncShared
  prog : Option (SyncProg (Transaction × StageOutcome)) := none
  /-- History: where the forward is. -/
  leg : Leg := .idle

inductive SyncAct where
  /-- The lookup stage of a transaction runs the forward provider. -/
  | start (t : Transaction) (pool allowed : List String)
  | op (env : SyncEnv)
  | ret
  /-- A datagram reaches a socket. -/
  | deliver (sock : SockId) (d : Datagram)
  /-- The other workers use the table. -/
  | otherRegister (backend : String) (txnId : Nat)
  | otherRemove (key : ForwardKey)

namespace SyncState

def step (w : SyncWiring) (s : SyncState) : SyncAct → Option SyncState
  | .start t pool allowed =>
    match s.prog with
    | none => some { s with prog := some (handleSync w t pool allowed) }
    | some _ => none
  | .op env =>
    match s.prog with
    | some (.op o k) =>
      (o.sem env s.shared).map fun (r, shared) =>
        { s with shared := shared, prog := some (k r), leg := s.leg.next o r }
    | _ => none
  | .ret =>
    match s.prog with
    | some (.ret _) => some { s with prog := none }
    | _ => none
  | .deliver sock d =>
    some { s with shared := { s.shared with
      buffers := Function.update s.shared.buffers sock (s.shared.buffers sock ++ [d]) } }
  | .otherRegister backend txnId =>
    some { s with shared := { s.shared with
      table := (s.shared.table.registerUnique backend txnId).1 } }
  | .otherRemove key =>
    some { s with shared := { s.shared with table := s.shared.table.remove key } }

end SyncState

abbrev worker (w : SyncWiring) : Lts where
  St := SyncState
  Act := SyncAct
  init s := s.prog = none ∧ s.leg = .idle ∧ s.shared.accepted = [] ∧ ∀ sock, s.shared.buffers sock = []
  step := SyncState.step w

/-! ## Attribution -/

/-- The datagram comes from the backend of the forward and has its id. -/
def Answers (key : ForwardKey) (d : Datagram) : Prop :=
  d.sender = key.backend ∧ wireId d.wire = some key.dnsId.toNat

instance (key : ForwardKey) (d : Datagram) : Decidable (Answers key d) :=
  inferInstanceAs (Decidable (_ ∧ _))

theorem answers_received {key : ForwardKey} {d : Datagram} (h : Answers key d) :
    Answers key d.received := by
  refine ⟨h.1, ?_⟩
  have hid := h.2
  match hw : d.wire with
  | [] =>
    rw [hw] at hid
    cases hid
  | [_] =>
    rw [hw] at hid
    cases hid
  | hi :: lo :: rest =>
    rw [hw] at hid
    simpa [Datagram.received, hw, wireId] using hid

/-- Every datagram that was taken as an answer is one of the forward. -/
def SyncState.Attributed (s : SyncState) : Prop := ∀ a ∈ s.shared.accepted, Answers a.1 a.2

/-- The operation that the forward performs next. -/
def SyncState.nextOp (s : SyncState) : Option SyncOp :=
  match s.prog with
  | some (.op o _) => some o
  | _ => none

/-- Nothing reaches a socket but the first reply to the forward that waits there, and a receive does
not fail when there is something to receive. -/
def Quiet (s : SyncState) : SyncAct → Prop
  | .deliver sock d =>
    match s.leg with
    | .waiting key sock' => sock' = sock ∧ s.shared.buffers sock = [] ∧ Answers key d
    | _ => False
  | .op env =>
    match s.nextOp with
    | some (.recvFrom sock) => env.recvError = true → s.shared.buffers sock = []
    | _ => True
  | _ => True

instance (s : SyncState) (a : SyncAct) : Decidable (Quiet s a) := by
  unfold Quiet
  split
  · split <;> infer_instance
  · split <;> infer_instance
  · infer_instance

/-- The order of the operations of a forward. -/
def legProto : Proto SyncOp SyncOp.Resp Leg where
  ok l
    | .registerUnique _ _ => l = .idle
    | .sendTo _ _ _ => ∃ key, l = .registered key
    | .recvFrom sock => ∃ key, l = .waiting key sock
    | .accept key d => l = .received key d
    | .tableRemove _ => ∀ key sock, l ≠ .waiting key sock
    | _ => True
  may _ _ _ := True
  next := Leg.next

section

variable {w : SyncWiring} {t : Transaction} {key : ForwardKey} {l : Leg}

theorem finishSync_obeys {wire : Wire} (h : ∀ key sock, l ≠ .waiting key sock) :
    Prog.Obeys legProto (fun l _ => l = .idle) l (finishSync w t key wire) :=
  ⟨h, fun _ _ => rfl⟩

theorem servfailSync_obeys (h : ∀ key sock, l ≠ .waiting key sock) :
    Prog.Obeys legProto (fun l _ => l = .idle) l (servfailSync t key) :=
  ⟨h, fun _ _ => rfl⟩

theorem acceptSync_obeys {d : Datagram} :
    Prog.Obeys legProto (fun l _ => l = .idle) (.received key d) (acceptSync w t key d) :=
  ⟨rfl, fun _ _ => finishSync_obeys (by simp [legProto, Leg.next])⟩

theorem receiveSync_obeys {upstreamWire : Wire} {source : String} {socket : SockId} :
    Prog.Obeys legProto (fun l _ => l = .idle) (.waiting key socket)
      (receiveSync w t key upstreamWire source socket) := by
  refine ⟨⟨key, rfl⟩, fun received _ => ?_⟩
  cases received with
  | none => exact ⟨by simp [legProto, Leg.next], fun _ _ => rfl⟩
  | some d =>
    change Prog.Obeys legProto _ (.received key d)
      (if fallsBack w key.backend d.wire then _ else acceptSync w t key d)
    split
    · refine ⟨trivial, fun answer _ => ?_⟩
      cases answer with
      | some wire => exact finishSync_obeys (by simp [legProto, Leg.next])
      | none => exact acceptSync_obeys
    · exact acceptSync_obeys

/-- A forward keeps to the order, and ends idle. -/
theorem handleSync_obeys (w : SyncWiring) (t : Transaction) (pool allowed : List String) :
    Prog.Obeys legProto (fun l _ => l = .idle) .idle (handleSync w t pool allowed) := by
  unfold handleSync
  cases t.selectedBackend with
  | none => rfl
  | some backend =>
    refine ⟨rfl, fun key _ => ?_⟩
    cases key with
    | none => rfl
    | some key =>
      refine ⟨trivial, fun source _ => ?_⟩
      simp only
      split
      · refine ⟨trivial, fun answer _ => ?_⟩
        cases answer with
        | some wire => exact finishSync_obeys (by simp [legProto, Leg.next])
        | none => exact servfailSync_obeys (by simp [legProto, Leg.next])
      · refine ⟨trivial, fun socket _ => ⟨⟨key, rfl⟩, fun sent _ => ?_⟩⟩
        cases sent with
        | false => exact servfailSync_obeys (by simp [legProto, Leg.next])
        | true => exact receiveSync_obeys

end

/-- The buffers hold at most what the forward waits for. -/
structure BuffersOk (s : SyncState) : Prop where
  prog : ∀ p, s.prog = some p → Prog.Obeys legProto (fun l _ => l = .idle) s.leg p
  idle : s.prog = none → s.leg = .idle
  buffers : ∀ sock, ∀ d ∈ s.shared.buffers sock,
    ∃ key, s.leg = .waiting key sock ∧ Answers key d ∧ s.shared.buffers sock = [d]
  received : ∀ key d, s.leg = .received key d → Answers key d
  accepted : s.Attributed

section

variable {s : SyncState} {key : ForwardKey} {sock : SockId} {d : Datagram} {leg : Leg}
  {shared : SyncShared} {p : SyncProg (Transaction × StageOutcome)}

/-- Only the socket that the forward waits at has something in its buffer. -/
theorem BuffersOk.empty (h : BuffersOk s) (hleg : ∀ key, s.leg ≠ .waiting key sock) :
    s.shared.buffers sock = [] := by
  cases hb : s.shared.buffers sock with
  | nil => rfl
  | cons d rest =>
    obtain ⟨key, hwait, -⟩ := h.buffers sock d (by rw [hb]; exact List.mem_cons_self)
    exact absurd hwait (hleg key)

/-- An operation that keeps the leg and the buffers. -/
theorem BuffersOk.keep (h : BuffersOk s)
    (hp : Prog.Obeys legProto (fun l _ => l = .idle) s.leg p)
    (hb : shared.buffers = s.shared.buffers) (ha : shared.accepted = s.shared.accepted) :
    BuffersOk { s with shared := shared, prog := some p } := by
  refine ⟨?_, (by simp), ?_, h.received, ?_⟩
  · rintro _ ⟨⟩
    exact hp
  · rw [hb]
    exact h.buffers
  · unfold SyncState.Attributed
    rw [ha]
    exact h.accepted

/-- An operation after which nothing is awaited and nothing was received. -/
theorem BuffersOk.clear (h : BuffersOk s)
    (hp : Prog.Obeys legProto (fun l _ => l = .idle) leg p)
    (ha : shared.accepted = s.shared.accepted) (hb : ∀ sock, shared.buffers sock = [])
    (hl : ∀ key d, leg ≠ .received key d) :
    BuffersOk { s with shared := shared, prog := some p, leg := leg } := by
  refine ⟨?_, (by simp), fun sock d hd => ?_, fun key d hr => absurd hr (hl key d), ?_⟩
  · rintro _ ⟨⟩
    exact hp
  · rw [hb sock] at hd
    cases hd
  · unfold SyncState.Attributed
    rw [ha]
    exact h.accepted

/-- `recv_from` takes the one datagram, which is the reply. -/
theorem BuffersOk.receive (h : BuffersOk s) (hwait : s.leg = .waiting key sock)
    {rest : List Datagram} (hbuf : s.shared.buffers sock = d :: rest)
    (hp : Prog.Obeys legProto (fun l _ => l = .idle) (.received key d.received) p) :
    BuffersOk { s with
      shared := { s.shared with buffers := Function.update s.shared.buffers sock rest }
      prog := some p
      leg := .received key d.received } := by
  obtain ⟨key', hwait', hans, hone⟩ := h.buffers sock d (by rw [hbuf]; exact List.mem_cons_self)
  rw [hwait] at hwait'
  cases hwait'
  have hrest : rest = [] := (List.cons.inj (hbuf.symm.trans hone)).2
  have hempty : ∀ sock', Function.update s.shared.buffers sock rest sock' = [] := by
    intro sock'
    by_cases hne : sock' = sock
    · rw [hne, Function.update_self, hrest]
    · rw [Function.update_of_ne hne]
      exact h.empty fun key' => by simp [hwait, Ne.symm hne]
  refine ⟨?_, (by simp), fun sock' d' hd' => ?_, ?_, h.accepted⟩
  · rintro _ ⟨⟩
    exact hp
  · simp only [hempty sock'] at hd'
    cases hd'
  · rintro _ _ ⟨⟩
    exact answers_received hans

theorem BuffersOk.accept (h : BuffersOk s) (hrec : s.leg = .received key d)
    (hp : Prog.Obeys legProto (fun l _ => l = .idle) s.leg p) :
    BuffersOk { s with
      shared := { s.shared with accepted := s.shared.accepted ++ [(key, d)] }
      prog := some p } := by
  refine ⟨?_, (by simp), h.buffers, h.received, fun a hmem => ?_⟩
  · rintro _ ⟨⟩
    exact hp
  · rcases List.mem_append.mp hmem with hmem | hmem
    · exact h.accepted a hmem
    · rw [List.mem_singleton.mp hmem]
      exact h.received key d hrec

/-- **What one operation of a forward keeps.** -/
theorem buffersOk_op (h : BuffersOk s) {env : SyncEnv} {o : SyncOp}
    {k : o.Resp → SyncProg (Transaction × StageOutcome)} (hp : s.prog = some (.op o k))
    (hq : Quiet s (.op env)) {r : o.Resp} (hs : o.sem env s.shared = some (r, shared)) :
    BuffersOk { s with shared := shared, prog := some (k r), leg := s.leg.next o r } := by
  obtain ⟨hok, hnext⟩ := h.prog _ hp
  have hprog : Prog.Obeys legProto (fun l _ => l = .idle) (s.leg.next o r) (k r) := hnext r trivial
  cases o with
  | registerUnique backend txnId =>
    cases hs
    have hidle : s.leg = .idle := hok
    refine h.clear hprog rfl (fun sock => h.empty (by simp [hidle])) fun key d => ?_
    simp only [Leg.next, hidle]
    split <;> simp
  | tableRemove key =>
    cases hs
    exact h.clear hprog rfl (fun sock => h.empty fun key => hok key sock) (by simp [Leg.next])
  | selectSource | udpSocketFor =>
    simp only [SyncOp.sem] at hs
    split at hs <;> cases hs <;> exact h.keep hprog rfl rfl
  | sendTo sock backend wire =>
    cases hs
    obtain ⟨key, hreg⟩ := hok
    refine h.clear hprog rfl (fun sock => h.empty (by simp [hreg])) fun key d => ?_
    simp only [Leg.next, hreg]
    split <;> simp
  | forwardTcp backend wire source =>
    cases hs
    exact h.keep hprog rfl rfl
  | recvFrom sock =>
    obtain ⟨key, hwait⟩ := hok
    simp only [Leg.next, hwait] at hprog ⊢
    simp only [SyncOp.sem] at hs
    split at hs
    · rename_i herr
      cases hs
      have hnone : s.shared.buffers sock = [] := by
        simp only [Quiet, SyncState.nextOp, hp] at hq
        exact hq herr
      refine h.clear hprog rfl (fun sock' => ?_) (by simp)
      by_cases hne : sock' = sock
      · exact hne ▸ hnone
      · exact h.empty fun key' => by simp [hwait, Ne.symm hne]
    · split at hs
      · cases hs
      · rename_i d rest hbuf
        cases hs
        exact h.receive hwait hbuf hprog
  | accept key d =>
    cases hs
    exact h.accept hok hprog

end

/-- **What one quiet step keeps.** -/
theorem buffersOk_step {w : SyncWiring} {s s' : SyncState} (h : BuffersOk s) {a : SyncAct}
    (hq : Quiet s a) (hs : s.step w a = some s') : BuffersOk s' := by
  cases a with
  | start t pool allowed =>
    simp only [SyncState.step] at hs
    split at hs
    · rename_i hp
      cases hs
      refine ⟨?_, by simp, h.buffers, h.received, h.accepted⟩
      rintro p ⟨⟩
      rw [h.idle hp]
      exact handleSync_obeys w t pool allowed
    · cases hs
  | op env =>
    simp only [SyncState.step] at hs
    split at hs
    · rename_i o k hp
      obtain ⟨⟨r, shared⟩, hsem, hs⟩ := Option.map_eq_some_iff.mp hs
      cases hs
      exact buffersOk_op h hp hq hsem
    · cases hs
  | ret =>
    simp only [SyncState.step] at hs
    split at hs
    · rename_i v hp
      cases hs
      have hidle : s.leg = .idle := h.prog _ hp
      exact ⟨by simp, fun _ => hidle, h.buffers, h.received, h.accepted⟩
    · cases hs
  | deliver sock d =>
    cases hs
    simp only [Quiet] at hq
    split at hq
    · rename_i key sock' hwait
      obtain ⟨rfl, hnone, hans⟩ := hq
      refine ⟨h.prog, h.idle, fun sock d' hd' => ?_, h.received, h.accepted⟩
      by_cases hne : sock = sock'
      · subst hne
        simp only [Function.update_self, hnone, List.nil_append, List.mem_singleton] at hd' ⊢
        subst hd'
        exact ⟨key, hwait, hans, rfl⟩
      · simp only [Function.update_of_ne hne] at hd' ⊢
        exact h.buffers sock d' hd'
    · exact hq.elim
  | otherRegister | otherRemove =>
    cases hs
    exact ⟨h.prog, h.idle, h.buffers, h.received, h.accepted⟩

/-- **In every quiet run, a datagram is taken as the answer of a forward only if it comes from the
forward's backend and has the id that was registered for it.** -/
theorem attributed_of_quiet {w : SyncWiring} {s : SyncState} (h : (worker w).Reach Quiet s) :
    s.Attributed := by
  have hok : BuffersOk s := by
    refine Lts.Reach.inv (L := worker w) (P := BuffersOk) ?_ ?_ h
    · intro (s : SyncState) ⟨hp, hl, ha, hb⟩
      refine ⟨fun p h => ?_, fun _ => hl, fun sock d hd => ?_, fun key d hr => ?_, fun a hmem => ?_⟩
      · rw [hp] at h
        cases h
      · rw [hb sock] at hd
        cases hd
      · rw [hl] at hr
        cases hr
      · rw [ha] at hmem
        cases hmem
    · intro s a s' _ ih hq hs
      exact buffersOk_step ih hq hs
  exact hok.accepted

/-! ## Samples -/

/-- UDP to IPv4 backends, over one socket. -/
def sampleSync : SyncWiring where
  codec := .header
  upstreamTransport := .udpOnly
  clientTcpUsesUpstreamTcp := false
  isIpv4 _ := true

def sampleSyncInit : SyncState where
  shared :=
    { table := { capacity := 16, perBackendLimit := 16 }
      v4 := { defaultSocket := 0, unspecified := "0.0.0.0" }
      v6 := { defaultSocket := 1, unspecified := "::" } }

/-- A forward to the backend, up to its receive. -/
def sendQuery (backend : String) : List SyncAct :=
  [.start { selectedBackend := some backend } [] [], .op {}, .op {}, .op {}, .op {}]

/-- One forward that gets its answer. -/
theorem attributed_of_quiet_sample :
    ∃ s : SyncState, (worker sampleSync).Reach Quiet s ∧
      s.shared.accepted = [(⟨"192.0.2.1:53", 0⟩, ⟨"192.0.2.1:53", [0, 0, 128, 0]⟩)] ∧
      s.Attributed := by
  obtain ⟨s, hs, hacc⟩ := Lts.exists_exec (L := worker sampleSync) Quiet (s := sampleSyncInit)
    (sendQuery "192.0.2.1:53" ++
      [SyncAct.deliver 0 ⟨"192.0.2.1:53", [0, 0, 128, 0]⟩, SyncAct.op {}, SyncAct.op {},
        SyncAct.op {}, SyncAct.ret])
    (·.shared.accepted = [(⟨"192.0.2.1:53", 0⟩, ⟨"192.0.2.1:53", [0, 0, 128, 0]⟩)])
    ⟨rfl, rfl, rfl, fun _ => rfl⟩
    (by decide +kernel)
  exact ⟨s, hs, hacc, attributed_of_quiet hs⟩

/-- The reply to a forward that timed out is taken as the answer of the next one, which was sent to
another backend with another id. -/
theorem late_reply_accepted :
    ∃ s : SyncState, (worker sampleSync).Reach (Lts.Any (L := worker sampleSync)) s ∧
      ¬ s.Attributed := by
  obtain ⟨s, hs, hacc⟩ := Lts.exists_exec (L := worker sampleSync)
    (Lts.Any (L := worker sampleSync)) (s := sampleSyncInit)
    (sendQuery "192.0.2.1:53" ++ [SyncAct.op { recvError := true }, SyncAct.op {},
      SyncAct.ret, SyncAct.deliver 0 ⟨"192.0.2.1:53", [0, 0, 128, 0]⟩] ++
      sendQuery "192.0.2.2:53" ++ [SyncAct.op {}, SyncAct.op {}])
    (·.shared.accepted = [(⟨"192.0.2.2:53", 1⟩, ⟨"192.0.2.1:53", [0, 0, 128, 0]⟩)])
    ⟨rfl, rfl, rfl, fun _ => rfl⟩
    (by decide +kernel)
  refine ⟨s, hs, fun h => ?_⟩
  have hbad := h (⟨"192.0.2.2:53", 1⟩, ⟨"192.0.2.1:53", [0, 0, 128, 0]⟩) (by rw [hacc]; simp)
  exact absurd hbad.1 (by decide)

end Conduit
