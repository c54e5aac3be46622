import Conduit.Cache.Key
import Conduit.Forward.Sync

/-!
# Truncated answers and the cache

Which answers get under which keys, and to which clients: the lookups, resumes and fills of the
registry (`Conduit/Core/Registry.lean`) by all transactions, interleaved, over one store. A fill has
the answer of a forward, over any upstream transport.

The operations are those of the stages (`Op.sem`); what a cache backend answers comes from the store
here. Entries may expire or be evicted at any time, the instances may be replaced and their
configuration may change.

- `syncAnswer`, `handleSync_answer`: the answer that a forward gives to the fill.
- `CacheWorld`, `cacheWorld`: the registry, the store and the calls.
- `cacheTaken`: the system with a history of the gates that TCP clients took.
- `KeepsShapes`: no truncated answer for a TCP client, and no flight with a truncated answer that
  a TCP client shares.
- `complete_keys_complete`: then no truncated answer is under a complete key, and no TCP client gets
  one from the registry.
-/

namespace Conduit

open Function (update update_of_ne update_self)

open Prog

/-! ## Forwards -/

/-- What the upstream answers an attempt, over UDP and over TCP. -/
structure Upstream where
  backend : String
  udp : Option Wire := none
  tcp : Option Wire := none

inductive ForwardMode where
  | sync | submit
  deriving DecidableEq, Repr

def syncAnswer (w : SyncWiring) (t : Transaction) (u : Upstream) : Option Wire :=
  if useTcpForAttempt w t then u.tcp
  else u.udp.map fun wire => if fallsBack w u.backend wire then u.tcp.getD wire else wire

/-- The answer that the fill gets, with the client's id. A submitted forward is over UDP only. -/
def forwardAnswer (w : SyncWiring) (t : Transaction) (u : Upstream) : ForwardMode → Option Wire
  | .sync => (syncAnswer w t u).map fun wire => rewriteDnsId wire t.dnsId
  | .submit => u.udp.map fun wire => rewriteDnsId wire t.dnsId

theorem takeEffectiveSources_keeps (t : Transaction) :
    t.takeEffectiveSources.protocol = t.protocol ∧ t.takeEffectiveSources.dnsId = t.dnsId ∧
      t.takeEffectiveSources.responseWire = t.responseWire := by
  unfold Transaction.takeEffectiveSources
  split <;> exact ⟨rfl, rfl, rfl⟩

/-- The answers of the table and the upstream to the operations of a forward. -/
def Upstream.answers (u : Upstream) : (o : SyncOp) → o.Resp → Prop
  | .registerUnique _ _, r => ∀ key : ForwardKey, r = some key → key.backend = u.backend
  | .recvFrom _, r => Option.map Datagram.wire r = u.udp
  | .forwardTcp _ _ _, r => r = u.tcp
  | _, _ => True

/-- A synchronous forward fails and leaves the response as it was, or sets it to the answer that the
upstream gave it. -/
theorem handleSync_answer (w : SyncWiring) (t : Transaction) (u : Upstream)
    (pool allowed : List String) :
    Prog.Ensures u.answers
      (fun v => (v.1.responseWire = t.responseWire ∧ v.1.rcode = some servfail) ∨
        ∃ wire, forwardAnswer w t u .sync = some wire ∧ v.1.responseWire = some wire)
      (handleSync w t pool allowed) := by
  obtain ⟨hprotocol, hid, hresponse⟩ := takeEffectiveSources_keeps t
  have htcp : useTcpForAttempt w t.takeEffectiveSources = useTcpForAttempt w t := by
    rw [useTcpForAttempt, hprotocol, useTcpForAttempt]
  -- the response after `finish_response`
  have hfinish : ∀ wire, (finishResponse w.codec t.takeEffectiveSources wire).responseWire =
      some (rewriteDnsId wire t.dnsId) := fun wire => by rw [← hid]; rfl
  cases hb : t.selectedBackend with
  | none =>
    simp only [handleSync, hb]
    exact .inl ⟨rfl, rfl⟩
  | some backend =>
    refine handleSync_ensures hb (.inl ⟨rfl, rfl⟩) (.inl ⟨hresponse, rfl⟩) (.inl ⟨hresponse, rfl⟩)
      (fun h _ _ wire hwire => ?_) (fun h key _ d tcp hkey hd hfalls => ?_) pool allowed
    · rw [htcp] at h
      have hanswer : some wire = u.tcp := hwire
      exact .inr ⟨_, by simp only [forwardAnswer, syncAnswer, h, if_true, ← hanswer]; rfl, hfinish _⟩
    · rw [htcp] at h
      have hbackend : key.backend = u.backend := hkey key rfl
      have hudp : some d.wire = u.udp := hd
      refine .inr ⟨_, ?_, hfinish _⟩
      simp only [forwardAnswer, syncAnswer, if_neg h, ← hudp, Option.map_some, ← hbackend]
      split
      · rename_i hfall
        obtain ⟨_, _, hanswer⟩ := hfalls hfall
        rw [show tcp = u.tcp from hanswer]
      · rfl

/-! ## The system -/

/-- What the forwards and the cache instances are built with. -/
structure CacheWiring extends SyncWiring where
  keys : KeyParts
  /-- `ttl_for_wire` gives a TTL. -/
  ttlForWire : CompiledCacheInstance → Wire → Bool

/-- `entry_from_wire` needs a message that parses. -/
def CacheWiring.fns (w : CacheWiring) : CacheFns where
  codec := w.codec
  buildQueryKey := w.keys.buildQueryKey
  buildTruncatedUdpKey := w.keys.buildTruncatedUdpKey
  ancestorKeys t := (ancestorQnames (t.qname.getD ".")).map (w.keys.ancestorKey t)
  entryFromWire cfg wire := (w.codec.fromVec wire).isSome && w.ttlForWire cfg wire
  isNxDomain := isNxDomain w.codec

/-- A call of a transaction: a lookup or a resume, which read, or a fill. -/
structure RegistryCall where
  cacheName : String
  txn : Transaction
  reads : Bool
  prog : StageProg (Option CacheLookupOutcome)

def RegistryCall.tcpReader (c : RegistryCall) : Bool := c.reads && c.txn.protocol == .tcp

structure CacheWorld where
  shared : Shared := {}
  config : InstId → CompiledCacheInstance := fun _ => {}
  store : InstId → CacheKey → Option Wire := fun _ _ => none
  calls : List RegistryCall := []

/-- What the outside decides at one operation. -/
structure CacheChance where
  fresh : CacheKey → Bool := fun _ => true
  rebuilding : Bool := false
  stored : Bool := true
  timedOut : Bool := false
  aging : Aging := {}

/-- The fill of `finish_forward_answer`, with the answer of the forward. -/
def fillProg (fns : CacheFns) (cacheName : String) (key : CacheKey) (t : Transaction)
    (answer : Option Wire) : StageProg Unit := do
  if let some gate ← instanceGate cacheName key then
    match answer with
    | some wire => fillFromForward fns cacheName key gate wire t
    | none => completeInflightMiss cacheName key gate

inductive CacheAct where
  | lookup (cacheName : String) (t : Transaction)
  /-- The transaction of the call `c`, a lookup that waits, is woken. -/
  | resume (c : Nat)
  /-- The transaction of the call `c`, a lookup that missed, has the answer of its forward. -/
  | fill (c : Nat) (mode : ForwardMode) (u : Upstream)
  /-- The next operation of the call `c`. -/
  | op (c : Nat) (x : CacheChance)
  | setInstances (f : String → Option InstId)
  | setConfig (i : InstId) (cfg : CompiledCacheInstance)
  | setAsyncCoalesce (enabled : Bool)
  /-- Entries expire, are evicted or go with their backend. -/
  | drop (i : InstId) (keep : CacheKey → Bool)

namespace CacheWorld

/-- `backend.get`. -/
def get (s : CacheWorld) (x : CacheChance) (i : InstId) (key : CacheKey) : Option Wire :=
  if x.fresh key then s.store i key else none

/-- The answers of the outside to an operation of a call for `t`. -/
def env (w : CacheWiring) (s : CacheWorld) (x : CacheChance) (t : Transaction) : Op → Env
  | .get i key => { entry := s.get x i key }
  | .prepareServed _ wire => { served := prepareServedWire w.codec t x.aging wire }
  | .config i => { config := s.config i }
  | _ => { rebuilding := x.rebuilding, stored := x.stored, timedOut := x.timedOut }

def setEntry (s : CacheWorld) (i : InstId) (key : CacheKey) (v : Option Wire) :
    InstId → CacheKey → Option Wire :=
  update s.store i (update (s.store i) key v)

/-- The store after an operation. -/
def stored (s : CacheWorld) (x : CacheChance) : Op → InstId → CacheKey → Option Wire
  | .insert i key wire => if x.stored then s.setEntry i key (some wire) else s.store
  | .evict i key => s.setEntry i key none
  | _ => s.store

def start (s : CacheWorld) (c : RegistryCall) : CacheWorld := { s with calls := s.calls ++ [c] }

def step (w : CacheWiring) (s : CacheWorld) : CacheAct → Option CacheWorld
  | .lookup name t => some (s.start ⟨name, t, true, some <$> lookup w.fns name t⟩)
  | .resume c =>
    match s.calls[c]? with
    | some ⟨name, t, true, .ret (some (.waitAsync key))⟩ =>
      some (s.start ⟨name, t, true, some <$> resumeAfterWait name key⟩)
    | _ => none
  | .fill c mode u =>
    match s.calls[c]? with
    | some ⟨name, t, true, .ret (some (.miss key _))⟩ =>
      some (s.start ⟨name, t, false,
        (fun _ => none) <$> fillProg w.fns name key t (forwardAnswer w.toSyncWiring t u mode)⟩)
    | _ => none
  | .op c x =>
    match s.calls[c]? with
    | some ⟨name, t, reads, .op o k⟩ =>
      (o.sem (s.env w x t o) s.shared).map fun r =>
        { s with
          shared := r.2
          store := s.stored x o
          calls := s.calls.set c ⟨name, t, reads, k r.1⟩ }
    | _ => none
  | .setInstances f => some { s with shared := { s.shared with instances := f } }
  | .setConfig i cfg => some { s with config := update s.config i cfg }
  | .setAsyncCoalesce enabled =>
    some { s with shared := { s.shared with asyncCoalesce := enabled } }
  | .drop i keep => some
    { s with
      store := update s.store i fun key => if keep key then s.store i key else none }

end CacheWorld

abbrev cacheWorld (w : CacheWiring) : Lts where
  St := CacheWorld
  Act := CacheAct
  init s := s.calls = [] ∧ (∀ i key, s.store i key = none) ∧ ∀ g, (s.shared.gates g).result = none
  step := CacheWorld.step w

def Shared.gateOf (s : Shared) (i : InstId) (key : CacheKey) : GateId :=
  (s.flights i key).getD s.nextGate

/-- The gate that the next operation of the call takes for a TCP client, if it takes one. -/
def RegistryCall.takes (c : RegistryCall) (s : Shared) : Option GateId :=
  match c.tcpReader, c.prog.next with
  | true, some (.gateFor i key) => some (s.gateOf i key)
  | _, _ => none

/-- The gates that TCP clients took, after the next operation of a call. -/
def RegistryCall.takenAfter (c : RegistryCall) (sh : Shared) (taken : GateId → Bool) :
    GateId → Bool :=
  match c.takes sh with
  | some g => update taken g true
  | none => taken

def CacheWorld.takenAfter (s : CacheWorld) (a : CacheAct) (taken : GateId → Bool) :
    GateId → Bool :=
  match a with
  | .op c _ =>
    match s.calls[c]? with
    | some call => call.takenAfter s.shared taken
    | none => taken
  | _ => taken

/-- The system with a history of the gates that calls for TCP clients took. -/
abbrev cacheTaken (w : CacheWiring) : Lts :=
  (cacheWorld w).record (fun _ => false) CacheWorld.takenAfter

def InFlightGate.Clean (g : InFlightGate) : Prop := ∀ wire ∈ g.result, tcBit wire = false

instance (g : InFlightGate) : Decidable g.Clean := inferInstanceAs (Decidable (∀ wire ∈ _, _))

/-- An operation of a call, for the gates that TCP clients took:
a truncated answer does not complete a gate that a TCP client took, a TCP client does not take
a gate with a truncated result, and what is served to a TCP client fits into a message. -/
def KeepsShape (w : CacheWiring) (oversized : Message → Bool) (s : CacheWorld)
    (taken : GateId → Bool) (x : CacheChance) (c : RegistryCall) : Op → Prop
  | .complete g wire _ => (∃ b ∈ wire, tcBit b = true) → taken g = false
  | .gateFor i key => c.tcpReader = true → (s.shared.gates (s.shared.gateOf i key)).Clean
  | .prepareServed _ wire =>
    c.tcpReader = true → ∀ m ∈ servedMessage w.codec c.txn x.aging wire, oversized m = false
  | _ => True

/-- No forward has a truncated answer for a TCP client, and no flight with a truncated answer is
shared with one. -/
def KeepsShapes (w : CacheWiring) (oversized : Message → Bool) (x : (cacheTaken w).St) :
    CacheAct → Prop
  | .fill c mode u => ∀ call ∈ x.1.calls[c]?, call.txn.protocol = .tcp →
      ∀ wire ∈ forwardAnswer w.toSyncWiring call.txn u mode, tcBit wire = false
  | .op c ch => ∀ call ∈ x.1.calls[c]?, ∀ o ∈ call.prog.next,
      KeepsShape w oversized x.1 x.2 ch call o
  | _ => True

instance (w : CacheWiring) (oversized : Message → Bool) (s : CacheWorld) (taken : GateId → Bool)
    (x : CacheChance) (c : RegistryCall) :
    (o : Op) → Decidable (KeepsShape w oversized s taken x c o)
  | .complete _ _ _ | .gateFor _ _ | .prepareServed _ _ => inferInstanceAs (Decidable (_ → _))
  | .inst _ | .isRebuilding _ | .config _ | .get _ _ | .insert _ _ _ | .evict _ _ | .asyncCoalesce
  | .register _ _ _ | .waitForResult _ | .gateResult _
  | .removeFlight _ _ | .wakeHandler | .wake _ | .world | .selectBackend _ _ _ | .exchange _
  | .submit _ => .isTrue trivial

instance (w : CacheWiring) (oversized : Message → Bool) (x : (cacheTaken w).St) :
    (a : CacheAct) → Decidable (KeepsShapes w oversized x a)
  | .fill _ _ _ | .op _ _ => inferInstanceAs (Decidable (∀ call ∈ _, _))
  | .lookup _ _ | .resume _ | .setInstances _ | .setConfig _ _ | .setAsyncCoalesce _ | .drop _ _ =>
    .isTrue trivial

/-- No truncated answer is stored under a complete key. -/
def CacheWorld.StoreComplete (s : CacheWorld) : Prop :=
  ∀ i key wire, s.store i key = some wire → transportOf key = some TransportKey.complete.asByte →
    tcBit wire = false

/-- No lookup or resume has given a truncated answer to a TCP client. -/
def CacheWorld.TcpComplete (s : CacheWorld) : Prop :=
  ∀ c ∈ s.calls, c.txn.protocol = .tcp → ∀ wire name skip,
    c.prog = .ret (some (.hit wire name skip)) → tcBit wire = false

/-! ## What the calls do -/

/-- The protocol of a call; `tcp`: it reads for a TCP client. The history is the gates it took. -/
def shapeProto (tcp : Bool) : Proto Op Op.Resp (List GateId) where
  ok _
    | .insert _ key wire =>
      transportOf key = some TransportKey.complete.asByte → tcBit wire = false
    | _ => True
  may h
    | .get _ key, r => tcp = true → transportOf key = some TransportKey.complete.asByte →
        ∀ wire ∈ (r : Option Wire), tcBit wire = false
    | .prepareServed _ wire, r => tcp = true → tcBit wire = false →
        ∀ served ∈ (r : Option Wire), tcBit served = false
    | .waitForResult g, r | .gateResult g, r => tcp = true → g ∈ h →
        ∀ wire ∈ (r : Option Wire), tcBit wire = false
    | _, _ => True
  next h
    | .gateFor _ _, r => (r : GateId) :: h
    | _, _ => h

/-- What a call may return. -/
def ShapeOk (tcp : Bool) : CacheLookupOutcome → Prop
  | .hit wire _ _ => tcp = true → tcBit wire = false
  | .miss key _ | .waitAsync key => transportOf key = some TransportKey.complete.asByte
  | .bypass => True

/-- The protocol of a call that inserts only what `P` allows. -/
def callProto (P : CacheKey → Wire → Prop) (tcp : Bool) : Proto Op Op.Resp (List GateId) where
  ok _
    | .insert _ key wire => P key wire
    | _ => True
  may := (shapeProto tcp).may
  next := (shapeProto tcp).next

theorem shapeProto_eq (tcp : Bool) : shapeProto tcp = callProto
    (fun key wire => transportOf key = some TransportKey.complete.asByte → tcBit wire = false) tcp := by
  have hok : (shapeProto tcp).ok = (callProto (fun key wire =>
      transportOf key = some TransportKey.complete.asByte → tcBit wire = false) tcp).ok := by
    funext h o
    cases o <;> rfl
  exact congrArg (Proto.mk · _ _) hok

/-- What a call may return; `K`: the keys that it may leave to a forward or wait for. -/
def ReadOk (tcp : Bool) (K : CacheKey → Prop) : CacheLookupOutcome → Prop
  | .hit wire _ _ => tcp = true → tcBit wire = false
  | .miss key _ | .waitAsync key => K key
  | .bypass => True

section Calls

variable {P : CacheKey → Wire → Prop} {K : CacheKey → Prop} {tcp : Bool} {h : List GateId}
  {w : CacheWiring} (i : InstId) (key : CacheKey) (t : Transaction)

theorem perform_seq {α : Type} {o : Op} {Q : List GateId → α → Prop} {k : o.Resp → StageProg α}
    (hok : (callProto P tcp).ok h o)
    (hk : ∀ r, (callProto P tcp).may h o r →
      Obeys (callProto P tcp) Q ((callProto P tcp).next h o r) (k r)) :
    Obeys (callProto P tcp) Q h (perform o >>= k) :=
  ⟨hok, hk⟩

variable {wire : Wire}

theorem hitFrom_obeys (hw : tcp = true → tcBit wire = false) :
    Obeys (callProto P tcp) (fun _ => ReadOk tcp K) h (hitFrom i wire) := by
  refine perform_seq (by trivial) fun cfg _ => perform_seq (by trivial) fun served hserved => ?_
  split
  · trivial
  · rename_i w
    exact fun htcp => hserved htcp (hw htcp) w rfl

theorem hitFrom_some_obeys (hw : tcp = true → tcBit wire = false) :
    Obeys (callProto P tcp) (fun _ out => ∀ o ∈ out, ReadOk tcp K o) h
      (do return some (← hitFrom i wire)) := by
  refine (hitFrom_obeys (K := K) i hw).seq fun _ out hout o ho => ?_
  cases ho
  exact hout

theorem tryReadHit_obeys (hkey : tcp = true → transportOf key = some TransportKey.complete.asByte) :
    Obeys (callProto P tcp) (fun _ out => ∀ o ∈ out, ReadOk tcp K o) h (tryReadHit i key) := by
  refine perform_seq (by trivial) fun entry hentry => ?_
  split
  · exact nofun
  · exact hitFrom_some_obeys i fun htcp => hentry htcp (hkey htcp) _ rfl

/-- The truncated key is read for UDP clients only. -/
theorem lookupReads_obeys (htcp : tcp = true → t.protocol = .tcp)
    (hkey : transportOf key = some TransportKey.complete.asByte) :
    Obeys (callProto P tcp) (fun _ out => ∀ o ∈ out, ReadOk tcp K o) h
      (lookupReads w.fns i key t) := by
  refine (tryReadHit_obeys (K := K) i key fun _ => hkey).seq fun h out hout => ?_
  split
  · exact hout
  have hreads : ReadsFreely (callProto P tcp) h i :=
    ⟨trivial, fun _ => rfl, fun _ => trivial, fun _ _ => rfl⟩
  refine (tryAncestorNxdomainHit_obeys hreads w.fns t).seq fun h' found ⟨_, hfound⟩ => ?_
  split
  · -- the keys of the ancestors are complete ones
    obtain ⟨-, key', hkey', hentry⟩ := hfound _ rfl
    obtain ⟨name, -, hbuild⟩ := List.mem_map.mp hkey'
    exact hitFrom_some_obeys i fun ht => hentry ht (transportOf_build hbuild) _ rfl
  refine perform_seq (by trivial) fun cfg _ => ?_
  split
  · rename_i hudp
    have hno : tcp ≠ true := by
      intro ht
      rw [htcp ht] at hudp
      simp at hudp
    split
    · rename_i tcKey _
      refine (tryReadHit_obeys (K := K) i tcKey fun ht => absurd ht hno).seq fun h out hout => ?_
      split
      · exact hout
      · exact nofun
    · exact nofun
  · exact nofun

theorem followSync_obeys {gate : GateId} (hg : gate ∈ h)
    (hkey : transportOf key = some TransportKey.complete.asByte) :
    Obeys (callProto P tcp) (fun _ => ReadOk tcp K) h (followSync i key gate) := by
  refine perform_seq (by trivial) fun wire hwire => perform_seq (by trivial) fun _ _ => ?_
  refine perform_seq (by trivial) fun entry hentry => ?_
  split
  · exact hitFrom_obeys i fun ht => hentry ht hkey _ rfl
  split
  · exact hitFrom_obeys i fun ht => hwire ht hg _ rfl
  · trivial

theorem joinFlight_obeys (hkey : transportOf key = some TransportKey.complete.asByte) (hK : K key) :
    Obeys (callProto P tcp) (fun _ => ReadOk tcp K) h (joinFlight i key t) := by
  refine perform_seq (by trivial) fun gate _ => perform_seq (by trivial) fun async _ => ?_
  refine perform_seq (by trivial) fun role _ => ?_
  split
  · exact hK
  · split
    · exact hK
    · exact followSync_obeys i key List.mem_cons_self hkey

theorem lookup_obeys (name : String) (htcp : tcp = true → t.protocol = .tcp)
    (hK : ∀ key, w.keys.buildQueryKey t = some key → K key) :
    Obeys (callProto P tcp) (fun _ => ReadOk tcp K) h (lookup w.fns name t) := by
  refine perform_seq (by trivial) fun i _ => ?_
  split
  swap
  · trivial
  rename_i i _
  refine perform_seq (by trivial) fun rebuilding _ => ?_
  split
  · trivial
  split
  · trivial
  split
  swap
  · trivial
  rename_i key hbuild
  have hkey : transportOf key = some TransportKey.complete.asByte := transportOf_build hbuild
  refine (lookupReads_obeys (K := K) i key t htcp hkey).seq fun h out hout => ?_
  split
  · exact hout _ rfl
  · exact joinFlight_obeys i key t hkey (hK key hbuild)

theorem resumeAfterWait_obeys (name : String)
    (hkey : tcp = true → transportOf key = some TransportKey.complete.asByte) :
    Obeys (callProto P tcp) (fun _ => ReadOk tcp K) h (resumeAfterWait name key) := by
  refine perform_seq (by trivial) fun i _ => ?_
  split
  swap
  · trivial
  rename_i i _
  refine perform_seq (by trivial) fun gate _ => perform_seq (by trivial) fun entry hentry => ?_
  split
  · exact perform_seq (by trivial) fun _ _ => hitFrom_obeys i fun ht => hentry ht (hkey ht) _ rfl
  refine perform_seq (by trivial) fun wire hwire => ?_
  split
  · exact perform_seq (by trivial) fun _ _ =>
      hitFrom_obeys i fun ht => hwire ht List.mem_cons_self _ rfl
  · trivial

theorem wakeWaiters_obeys (waiters : List Nat) :
    Obeys (callProto P tcp) (fun _ _ => True) h (wakeWaiters waiters) := by
  have hall : Obeys (callProto P tcp) (fun _ _ => True) h (wakeAll waiters) := by
    induction waiters with
    | nil => trivial
    | cons id ids ih => exact perform_seq (by trivial) fun _ _ => ih
  refine perform_seq (by trivial) fun set _ => ?_
  split
  · exact hall
  · trivial

theorem fillSkipped_obeys (gate : GateId) (site : CompleteSite) :
    Obeys (callProto P tcp) (fun _ _ => True) h (fillSkipped i key gate site) :=
  perform_seq (by trivial) fun _ _ => ⟨trivial, fun _ _ => trivial⟩

theorem fillStore_obeys (gate : GateId) {storeKey : Option CacheKey}
    (hstore : P (storeKey.getD key) wire) :
    Obeys (callProto P tcp) (fun _ _ => True) h (fillStore w.fns i key gate wire storeKey t) := by
  have hlast : ∀ h, Obeys (callProto P tcp) (fun _ _ => True) h (do
      let waiters ← perform (.complete gate (some wire) .stored)
      perform (.removeFlight i key)
      wakeWaiters waiters) :=
    fun h => perform_seq (by trivial) fun _ _ =>
      perform_seq (by trivial) fun _ _ => wakeWaiters_obeys _
  refine perform_seq hstore fun stored _ => ?_
  split
  · split
    · exact perform_seq (by trivial) fun _ _ => hlast _
    · exact hlast _
  · exact hlast _

/-- What a fill may insert: an answer that makes an entry, and that is not left out as truncated. -/
def Fills (P : CacheKey → Wire → Prop) (w : CacheWiring) (key : CacheKey) (t : Transaction)
    (wire : Wire) : Prop :=
  ∀ cfg, w.fns.entryFromWire cfg wire = true →
    ¬((truncatedStoreKey w.fns cfg wire t).isNone && isTruncatedUdpWire w.fns wire t) = true →
    P ((truncatedStoreKey w.fns cfg wire t).getD key) wire

theorem fillFromForward_shape (name : String) (gate : GateId) (hfills : Fills P w key t wire) :
    Obeys (callProto P tcp) (fun _ _ => True) h
      (fillFromForward w.fns name key gate wire t) := by
  refine perform_seq (by trivial) fun i _ => ?_
  split
  swap
  · trivial
  rename_i i _
  refine perform_seq (by trivial) fun cfg _ => perform_seq (by trivial) fun rebuilding _ => ?_
  split
  · exact fillSkipped_obeys i key gate _
  dsimp only
  split
  · exact fillSkipped_obeys i key gate _
  rename_i htrunc
  split
  · exact fillSkipped_obeys i key gate _
  rename_i hentry
  exact fillStore_obeys i key t gate (hfills cfg (by simpa using hentry) htrunc)

theorem fillProg_obeys (name : String) {answer : Option Wire}
    (hfills : ∀ wire ∈ answer, Fills P w key t wire) :
    Obeys (callProto P tcp) (fun _ _ => True) h (fillProg w.fns name key t answer) := by
  have hgate : Obeys (callProto P tcp) (fun _ _ => True) h (instanceGate name key) := by
    refine perform_seq (by trivial) fun i _ => ?_
    split
    · exact perform_seq (by trivial) fun _ _ => trivial
    · trivial
  refine hgate.seq fun h gate _ => ?_
  split
  · split
    · exact fillFromForward_shape key t name _ (hfills _ rfl)
    · refine perform_seq (by trivial) fun waiters _ => perform_seq (by trivial) fun i _ => ?_
      split
      · exact perform_seq (by trivial) fun _ _ => wakeWaiters_obeys _
      · exact wakeWaiters_obeys _
  · trivial

/-- The fill of a UDP client looks at the TC bit; for a TCP client the answer must not have it. -/
theorem fills_complete {oversized : Message → Bool} (hc : w.codec.TcLawful oversized)
    (hwire : t.protocol = .tcp → tcBit wire = false) :
    Fills (fun key wire => transportOf key = some TransportKey.complete.asByte → tcBit wire = false)
      w key t wire := by
  intro cfg hentry htrunc hcomplete
  cases hkey : truncatedStoreKey w.fns cfg wire t with
  | some k =>
    -- the key of a truncated answer is not a complete one
    rw [hkey, Option.getD_some] at hcomplete
    unfold truncatedStoreKey at hkey
    split at hkey
    · rw [transportOf_build hkey] at hcomplete
      cases hcomplete
    · cases hkey
  | none =>
    rw [hkey] at htrunc
    cases hp : t.protocol with
    | tcp => exact hwire hp
    | udp =>
      obtain ⟨m, hm⟩ := Option.isSome_iff_exists.mp (Bool.and_eq_true_iff.mp hentry).1
      have hfrom : w.fns.codec.fromVec wire = some m := hm
      rw [hc.fromVec_tc wire m hm]
      simpa [isTruncatedUdpWire, hp, hfrom] using htrunc

end Calls

/-! ## One operation -/

variable {w : CacheWiring} {s : CacheWorld} {taken : GateId → Bool}

/-- A gate with a truncated result was not taken for a TCP client. -/
def Shared.GatesClean (sh : Shared) (taken : GateId → Bool) : Prop :=
  ∀ g, taken g = true → (sh.gates g).Clean

variable {o : Op} {r : o.Resp} {sh : Shared} {x : CacheChance} {call : RegistryCall}
  {oversized : Message → Bool}

theorem may_of_sem (hc : w.codec.TcLawful oversized) (hstore : s.StoreComplete)
    (hgates : s.shared.GatesClean taken)
    (hsem : o.sem (s.env w x call.txn o) s.shared = some (r, sh)) {h : List GateId}
    (hh : call.tcpReader = true → ∀ g ∈ h, taken g = true)
    (hshape : KeepsShape w oversized s taken x call o) :
    (shapeProto call.tcpReader).may h o r := by
  have hget : ∀ {i key wire}, s.get x i key = some wire →
      transportOf key = some TransportKey.complete.asByte → tcBit wire = false := by
    intro i key wire hg hkey
    unfold CacheWorld.get at hg
    split at hg
    · exact hstore i key wire hg hkey
    · cases hg
  have hresult : call.tcpReader = true → ∀ g ∈ h, ∀ wire ∈ (s.shared.gates g).result,
      tcBit wire = false := fun htcp g hg => hgates g (hh htcp g hg)
  cases o with
  | get i key =>
    cases hsem
    exact fun _ hkey wire hwire => hget hwire hkey
  | prepareServed i wire =>
    cases hsem
    intro htcp hwire served hserved
    rw [tcBit_prepareServedWire hc hserved (hshape htcp), hwire]
  | waitForResult g =>
    simp only [Op.sem] at hsem
    split at hsem
    · cases hsem
      exact fun _ _ _ hno => by cases hno
    · split at hsem
      · cases hsem
      · cases hsem
        exact fun htcp hg => hresult htcp g hg
  | gateResult g =>
    cases hsem
    exact fun htcp hg => hresult htcp g hg
  | _ => trivial

variable {g : GateId}

theorem Shared.GatesClean.setGate (hg : sh.GatesClean taken) {v : InFlightGate}
    (hv : taken g = true → v.Clean) : (sh.setGate g v).GatesClean taken := by
  intro g' ht
  by_cases heq : g' = g
  · subst heq
    simp only [Shared.setGate, update_self]
    exact hv ht
  · simp only [Shared.setGate, update_of_ne heq]
    exact hg g' ht

theorem Shared.GatesClean.take (hg : sh.GatesClean taken) (hclean : (sh.gates g).Clean) :
    sh.GatesClean (update taken g true) := by
  intro g' ht
  by_cases heq : g' = g
  · rw [heq]
    exact hclean
  · rw [update_of_ne heq] at ht
    exact hg g' ht

theorem RegistryCall.takenAfter_mono (c : RegistryCall) (sh : Shared) (h : taken g = true) :
    c.takenAfter sh taken g = true := by
  unfold takenAfter
  cases c.takes sh with
  | none => exact h
  | some g' =>
    by_cases heq : g = g'
    · rw [heq]
      exact update_self ..
    · exact (update_of_ne heq ..).trans h

theorem InFlightGate.Clean.register {g : InFlightGate} (h : g.Clean) (id : Nat) (async : Bool) :
    (g.register id async).1.Clean := by
  unfold InFlightGate.register
  split
  · split <;> exact h
  · exact fun _ hno => by cases hno

variable {env : Env}

/-- Taking a gate: it is the one of the table, or a new one without a result. -/
theorem gatesClean_gateFor (hgates : s.shared.GatesClean taken) {i : InstId} {key : CacheKey}
    (hsem : (Op.gateFor i key).sem env s.shared = some (g, sh))
    (hnext : call.prog.next = some (.gateFor i key))
    (hshape : call.tcpReader = true → (s.shared.gates (s.shared.gateOf i key)).Clean) :
    g = s.shared.gateOf i key ∧ sh.GatesClean (call.takenAfter s.shared taken) := by
  have htakes : call.takes s.shared =
      if call.tcpReader then some (s.shared.gateOf i key) else none := by
    unfold RegistryCall.takes
    rw [hnext]
    cases call.tcpReader <;> rfl
  simp only [Op.sem] at hsem
  split at hsem
  · rename_i g' hflight
    cases hsem
    have hg : s.shared.gateOf i key = g := by rw [Shared.gateOf, hflight, Option.getD_some]
    refine ⟨hg.symm, ?_⟩
    rw [RegistryCall.takenAfter, htakes]
    cases htcp : call.tcpReader with
    | true => exact hgates.take (hshape htcp)
    | false => exact hgates
  · rename_i hflight
    cases hsem
    have hg : s.shared.gateOf i key = s.shared.nextGate := by
      rw [Shared.gateOf, hflight, Option.getD_none]
    refine ⟨hg.symm, ?_⟩
    rw [RegistryCall.takenAfter, htakes, hg]
    have hempty : InFlightGate.Clean {} := fun _ hno => by cases hno
    have hnew : (s.shared.setGate s.shared.nextGate {}).GatesClean taken :=
      hgates.setGate fun _ => hempty
    cases call.tcpReader with
    | true =>
      refine hnew.take (g := s.shared.nextGate) ?_
      simp only [Shared.setGate, update_self]
      exact hempty
    | false => exact hnew

theorem gatesClean_sem (hgates : s.shared.GatesClean taken)
    (hsem : o.sem env s.shared = some (r, sh)) (hnext : call.prog.next = some o)
    (hshape : KeepsShape w oversized s taken x call o) :
    sh.GatesClean (call.takenAfter s.shared taken) := by
  have hsame : (∀ i key, o ≠ .gateFor i key) → call.takenAfter s.shared taken = taken := by
    intro hne
    have htakes : call.takes s.shared = none := by
      unfold RegistryCall.takes
      rw [hnext]
      split
      · rename_i heq
        cases heq
        exact absurd rfl (hne _ _)
      · rfl
    rw [RegistryCall.takenAfter, htakes]
  cases o with
  | gateFor i key => exact (gatesClean_gateFor hgates hsem hnext hshape).2
  | register g id async =>
    rw [hsame (fun _ _ h => by cases h)]
    cases hsem
    exact hgates.setGate fun ht => (hgates g ht).register id async
  | complete g wire site =>
    rw [hsame (fun _ _ h => by cases h)]
    cases hsem
    refine hgates.setGate fun ht wire' hwire' => ?_
    -- a truncated answer would complete a gate that was taken
    cases htc : tcBit wire' with
    | false => rfl
    | true =>
      rw [hshape ⟨wire', hwire', htc⟩] at ht
      cases ht
  | waitForResult g =>
    rw [hsame (fun _ _ h => by cases h)]
    simp only [Op.sem] at hsem
    split at hsem
    · cases hsem
      exact hgates
    · split at hsem
      · cases hsem
      · cases hsem
        exact hgates
  | _ =>
    rw [hsame (fun _ _ h => by cases h)]
    cases hsem
    exact hgates

variable {P : CacheKey → Wire → Prop}

theorem CacheWorld.stored_forall (h : ∀ i key wire, s.store i key = some wire → P key wire)
    (hok : ∀ i key wire, o = .insert i key wire → P key wire) :
    ∀ i key wire, s.stored x o i key = some wire → P key wire := by
  have hset : ∀ i key v, (∀ wire ∈ v, P key wire) →
      ∀ j k wire, s.setEntry i key v j k = some wire → P k wire := by
    intro i key v hv j k wire hwire
    unfold CacheWorld.setEntry at hwire
    by_cases hj : j = i
    · subst hj
      rw [update_self] at hwire
      by_cases hkey : k = key
      · subst hkey
        rw [update_self] at hwire
        exact hv wire hwire
      · rw [update_of_ne hkey] at hwire
        exact h j k wire hwire
    · rw [update_of_ne hj] at hwire
      exact h j k wire hwire
  cases o with
  | insert i key wire =>
    simp only [CacheWorld.stored]
    split
    · refine hset i key _ fun wire' hwire' => ?_
      cases hwire'
      exact hok i key wire rfl
    · exact h
  | evict i key => exact hset i key none fun _ hno => by cases hno
  | _ => exact h

theorem CacheWorld.drop_forall (h : ∀ i key wire, s.store i key = some wire → P key wire)
    (i : InstId) (keep : CacheKey → Bool) :
    ∀ j key wire, update s.store i (fun key => if keep key then s.store i key else none)
      j key = some wire → P key wire := by
  intro j key wire hwire
  by_cases hj : j = i
  · subst hj
    rw [update_self] at hwire
    split at hwire
    · exact h j key wire hwire
    · cases hwire
  · rw [update_of_ne hj] at hwire
    exact h j key wire hwire

/-! ## Runs -/

/-- A call keeps to its protocol; a fill returns no answer. -/
def RegistryCall.Shaped (taken : GateId → Bool) (c : RegistryCall) : Prop :=
  ∃ h, (c.tcpReader = true → ∀ g ∈ h, taken g = true) ∧
    Obeys (shapeProto c.tcpReader) (fun _ out => ∀ o ∈ out, c.reads = true ∧ ShapeOk c.tcpReader o)
      h c.prog

/-- The invariant. -/
structure CacheWorld.ShapeInv (s : CacheWorld) (taken : GateId → Bool) : Prop where
  store : s.StoreComplete
  gates : s.shared.GatesClean taken
  calls : ∀ c ∈ s.calls, c.Shaped taken

namespace CacheWorld

theorem ShapeInv.start (hi : s.ShapeInv taken) {c : RegistryCall} (hc : c.Shaped taken) :
    (s.start c).ShapeInv taken := by
  refine { hi with calls := fun c' hc' => ?_ }
  rcases List.mem_append.mp hc' with hc' | hc'
  · exact hi.calls c' hc'
  · rw [List.mem_singleton.mp hc']
    exact hc

theorem shaped_reader {name : String} {t : Transaction} {p : StageProg CacheLookupOutcome}
    (hp : Obeys (shapeProto (t.protocol == .tcp)) (fun _ => ReadOk (t.protocol == .tcp)
      fun key => transportOf key = some TransportKey.complete.asByte) [] p) :
    RegistryCall.Shaped taken ⟨name, t, true, some <$> p⟩ := by
  refine ⟨[], fun _ => nofun, ?_⟩
  refine hp.seq fun _ out hout o ho => ?_
  cases ho
  cases out <;> exact ⟨rfl, hout⟩

theorem ShapeInv.outcome (hi : s.ShapeInv taken) {i : Nat} {c : RegistryCall}
    {out : CacheLookupOutcome} (hc : s.calls[i]? = some c) (hret : c.prog = .ret (some out)) :
    c.reads = true ∧ ShapeOk c.tcpReader out := by
  obtain ⟨h, -, hobeys⟩ := hi.calls c (List.mem_of_getElem? hc)
  rw [hret] at hobeys
  exact hobeys out rfl

theorem ShapeInv.op {oversized : Message → Bool} (hc : w.codec.TcLawful oversized)
    (hi : s.ShapeInv taken) {i : Nat} {call : RegistryCall} (hcall : s.calls[i]? = some call)
    {o : Op} {k : o.Resp → StageProg (Option CacheLookupOutcome)} (hprog : call.prog = .op o k)
    {x : CacheChance} {r : o.Resp} {sh : Shared}
    (hsem : o.sem (s.env w x call.txn o) s.shared = some (r, sh))
    (hshape : KeepsShape w oversized s taken x call o) :
    ShapeInv
      { s with
        shared := sh
        store := s.stored x o
        calls := s.calls.set i { call with prog := k r } }
      (call.takenAfter s.shared taken) := by
  have hnext : call.prog.next = some o := by rw [hprog, Prog.next]
  obtain ⟨h, hh, hobeys⟩ := hi.calls call (List.mem_of_getElem? hcall)
  rw [hprog] at hobeys
  obtain ⟨hok, hrest⟩ := hobeys
  have hstore : ∀ i key wire, s.stored x o i key = some wire →
      transportOf key = some TransportKey.complete.asByte → tcBit wire = false := by
    refine CacheWorld.stored_forall hi.store fun i key wire ho => ?_
    subst ho
    exact hok
  refine ⟨hstore, gatesClean_sem hi.gates hsem hnext hshape, fun c hmem => ?_⟩
  rcases List.mem_or_eq_of_mem_set hmem with hold | rfl
  · obtain ⟨h', hh', hobeys'⟩ := hi.calls c hold
    exact ⟨h', fun htcp g hg => call.takenAfter_mono s.shared (hh' htcp g hg), hobeys'⟩
  · refine ⟨_, fun htcp g hg => ?_, hrest r (may_of_sem hc hi.store hi.gates hsem hh hshape)⟩
    -- the gates of the call are those it had and the one it takes
    cases o with
    | gateFor j key =>
      rcases List.mem_cons.mp hg with rfl | hg
      · rw [(gatesClean_gateFor hi.gates hsem hnext hshape).1]
        have htakes : call.takes s.shared = some (s.shared.gateOf j key) := by
          unfold RegistryCall.takes
          rw [hnext, show call.tcpReader = true from htcp]
        rw [RegistryCall.takenAfter, htakes]
        exact update_self ..
      · exact call.takenAfter_mono s.shared (hh htcp g hg)
    | _ => exact call.takenAfter_mono s.shared (hh htcp g hg)

theorem ShapeInv.step {oversized : Message → Bool} (hc : w.codec.TcLawful oversized)
    (hi : s.ShapeInv taken) {a : CacheAct} {s' : CacheWorld}
    (hshape : KeepsShapes w oversized (s, taken) a) (he : s.step w a = some s') :
    s'.ShapeInv (s.takenAfter a taken) := by
  cases a with
  | lookup name t =>
    cases he
    refine hi.start (shaped_reader ?_)
    rw [shapeProto_eq]
    exact lookup_obeys t name (by simp) fun key hkey => transportOf_build hkey
  | resume c =>
    simp only [CacheWorld.step] at he
    split at he
    · rename_i name t key hcall
      cases he
      have hout := (hi.outcome hcall rfl).2
      refine hi.start (shaped_reader ?_)
      rw [shapeProto_eq]
      exact resumeAfterWait_obeys key name fun _ => hout
    · cases he
  | fill c mode u =>
    simp only [CacheWorld.step] at he
    split at he
    · rename_i name t key gate hcall
      cases he
      refine hi.start ⟨[], fun _ => nofun, ?_⟩
      rw [shapeProto_eq]
      exact (fillProg_obeys key t name fun wire hwire =>
        fills_complete key t hc fun hp => hshape _ hcall hp wire hwire).seq fun _ _ _ => nofun
    · cases he
  | op c x =>
    simp only [CacheWorld.step] at he
    split at he
    · rename_i name t reads o k hcall
      obtain ⟨⟨r, sh⟩, hsem, rfl⟩ := Option.map_eq_some_iff.mp he
      simp only [CacheWorld.takenAfter, hcall]
      exact hi.op hc hcall rfl hsem (hshape _ hcall o rfl)
    · cases he
  | setInstances | setConfig | setAsyncCoalesce =>
    cases he
    exact { hi with }
  | drop i keep =>
    cases he
    exact { hi with store := CacheWorld.drop_forall hi.store i keep }

end CacheWorld

/-- In every run in which no forward has a truncated answer for a TCP client and no flight with a
truncated answer is shared with one, no truncated answer is under a complete key, and no TCP
client gets one from a lookup or a resume. -/
theorem complete_keys_complete (w : CacheWiring) {oversized : Message → Bool}
    (hc : w.codec.TcLawful oversized) {x : (cacheTaken w).St}
    (h : (cacheTaken w).Reach (KeepsShapes w oversized) x) :
    x.1.StoreComplete ∧ x.1.TcpComplete := by
  have hinv : CacheWorld.ShapeInv x.1 x.2 := by
    refine Lts.Reach.inv (P := fun x : (cacheTaken w).St => CacheWorld.ShapeInv x.1 x.2) ?_ ?_ h
    · rintro ⟨s, taken⟩ ⟨⟨hcalls, hstore, hgates⟩, rfl⟩
      refine ⟨fun i key wire hwire => ?_, nofun, fun c hc => ?_⟩
      · rw [hstore] at hwire
        cases hwire
      · rw [hcalls] at hc
        cases hc
    · rintro ⟨s, taken⟩ a x' _ hi hshape he
      obtain ⟨s', hs, rfl⟩ := Option.map_eq_some_iff.mp he
      exact hi.step hc hshape hs
  refine ⟨hinv.store, fun c hcall htcp wire name skip hret => ?_⟩
  obtain ⟨i, hi⟩ := List.getElem?_of_mem hcall
  obtain ⟨hreads, hout⟩ := hinv.outcome hi hret
  exact hout (by simp [RegistryCall.tcpReader, hreads, htcp])

/-! ## Runs on one instance -/

/-- A codec that has the header's id and TC bit only. -/
def headerCodec : Codec where
  fromVec w := if w.length < 3 then none else some { truncated := tcBit w }
  emit m := (toBeBytes m.id ++ [if m.truncated then 2 else 0], true)

theorem headerCodec_tcLawful : headerCodec.TcLawful (fun _ => false) where
  fromVec_tc w m h := by
    simp only [headerCodec] at h
    split at h
    · cases h
    · cases h
      rfl
  emit_tc m _ _ := by
    simp only [headerCodec]
    cases m.truncated <;> rfl

/-- Queries go upstream over UDP. -/
def udpWiring : CacheWiring where
  codec := headerCodec
  upstreamTransport := .udpOnly
  clientTcpUsesUpstreamTcp := false
  isIpv4 _ := true
  keys :=
    { normalizeQname := fun _ => some [0]
      dnssecFlags := fun _ => some (false, false)
      ecsOptionBytes := fun _ => some []
      length_normalized := by
        rintro q b ⟨⟩
        decide }
  ttlForWire _ _ := true

/-- An instance with the policy to store truncated answers, or without it. -/
def oneInstance (truncatedUdpEnabled : Bool) : CacheWorld where
  shared := { instances := fun _ => some 0 }
  config _ := { truncatedUdpEnabled }

def clientQuery (protocol : ClientProtocol) : Transaction := { protocol, queryWire := [0, 0, 0] }

def queryKey : CacheKey := [1, 0, 1, 0, 0, 0, 0, 1, 0, 0, 0]

/-- An answer with the TC bit. -/
def truncatedAnswer : Upstream where
  backend := "192.0.2.1:53"
  udp := some [0, 0, 2]

def RegistryCall.served (c : RegistryCall) : Option Wire :=
  match c.prog with
  | .ret (some (.hit wire _ _)) => some wire
  | _ => none

theorem not_tcpComplete {i : Nat} {wire : Wire}
    (h : (s.calls[i]?.filter (·.txn.protocol == .tcp)).bind (·.served) = some wire)
    (htc : tcBit wire = true) : ¬ s.TcpComplete := by
  intro hcomplete
  obtain ⟨c, hc, hserved⟩ := Option.bind_eq_some_iff.mp h
  obtain ⟨hcall, htcp⟩ := Option.filter_eq_some_iff.mp hc
  unfold RegistryCall.served at hserved
  split at hserved
  · rename_i wire' name skip hret
    cases hserved
    have hno := hcomplete c (List.mem_of_getElem? hcall) (by simpa using htcp) wire name skip hret
    rw [htc] at hno
    cases hno
  · cases hserved

/-- The forward of a TCP client gets a truncated answer over UDP, which is stored under the complete
key and served to the next TCP client. -/
def truncatedStored : List CacheAct :=
  CacheAct.lookup "answers" (clientQuery .tcp) :: (List.replicate 8 (CacheAct.op 0 {}) ++
    CacheAct.fill 0 .sync truncatedAnswer :: (List.replicate 10 (CacheAct.op 1 {}) ++
      CacheAct.lookup "answers" (clientQuery .tcp) :: List.replicate 5 (CacheAct.op 2 {})))

/-- A TCP client follows the flight of a UDP client, whose answer is truncated. -/
def truncatedFollowed : List CacheAct :=
  CacheAct.lookup "answers" (clientQuery .udp) :: (List.replicate 9 (CacheAct.op 0 {}) ++
    CacheAct.lookup "answers" (clientQuery .tcp) :: (List.replicate 8 (CacheAct.op 1 {}) ++
      CacheAct.fill 0 .sync truncatedAnswer :: (List.replicate 7 (CacheAct.op 2 {}) ++
        List.replicate 5 (CacheAct.op 1 {}))))

theorem truncated_answer_served :
    (∃ s, (cacheWorld udpWiring).Reach Lts.Any s ∧ ¬ s.StoreComplete ∧ ¬ s.TcpComplete) ∧
    ∃ s, (cacheWorld udpWiring).Reach Lts.Any s ∧ (s.store 0 queryKey = none) ∧
      ¬ s.TcpComplete := by
  constructor
  · obtain ⟨s, hr, hstore, hserved⟩ := Lts.exists_exec (L := cacheWorld udpWiring) Lts.Any
      (s := oneInstance false) truncatedStored
      (fun s => s.store 0 queryKey = some [0, 0, 2] ∧
        (s.calls[2]?.filter (·.txn.protocol == .tcp)).bind (·.served) = some [0, 0, 2])
      ⟨rfl, fun _ _ => rfl, fun _ => rfl⟩ (by decide +kernel)
    refine ⟨s, hr, fun hcomplete => ?_, not_tcpComplete hserved rfl⟩
    cases hcomplete 0 queryKey _ hstore rfl
  · obtain ⟨s, hr, hstore, hserved⟩ := Lts.exists_exec (L := cacheWorld udpWiring) Lts.Any
      (s := oneInstance true) truncatedFollowed
      (fun s => s.store 0 queryKey = none ∧
        (s.calls[1]?.filter (·.txn.protocol == .tcp)).bind (·.served) = some [0, 0, 2])
      ⟨rfl, fun _ _ => rfl, fun _ => rfl⟩ (by decide +kernel)
    exact ⟨s, hr, hstore, not_tcpComplete hserved rfl⟩

/-- Two TCP clients; the second one gets the answer of the first from the cache. -/
theorem complete_keys_complete_sample : ∃ x : (cacheTaken udpWiring).St,
    (cacheTaken udpWiring).Reach (KeepsShapes udpWiring fun _ => false) x ∧
    x.1.store 0 queryKey = some [0, 0, 0] ∧ x.1.StoreComplete ∧ x.1.TcpComplete := by
  obtain ⟨x, hr, hx⟩ := Lts.exists_exec (L := cacheTaken udpWiring)
    (KeepsShapes udpWiring fun _ => false) (s := (oneInstance true, fun _ => false))
    (CacheAct.lookup "answers" (clientQuery .tcp) :: (List.replicate 8 (CacheAct.op 0 {}) ++
      CacheAct.fill 0 .sync { truncatedAnswer with udp := some [0, 0, 0] } ::
        (List.replicate 10 (CacheAct.op 1 {}) ++
          CacheAct.lookup "answers" (clientQuery .tcp) :: List.replicate 5 (CacheAct.op 2 {}))))
    (·.1.store 0 queryKey = some [0, 0, 0])
    ⟨⟨rfl, fun _ _ => rfl, fun _ => rfl⟩, rfl⟩ (by decide +kernel)
  exact ⟨x, hr, hx, complete_keys_complete udpWiring headerCodec_tcLawful hr⟩

end Conduit
