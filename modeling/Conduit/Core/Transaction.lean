import Mathlib.Logic.Function.Basic

/-!
# Phases and transactions

The state that one query carries through the pipeline (`phase.rs`, `pipeline.rs`,
`transaction.rs`). The record has the fields that the pipeline stages read or write. The clock
readings, the metrics pin and the trace buffer are left out: no stage decides anything by them.

`Transaction.answers` is a history variable: every wire that was stored as an answer, the newest
first. No stage reads it.
-/

namespace Conduit

/-- DNS message bytes. -/
abbrev Wire := List UInt8

/-- The steps of the orchestrator graph; the last three are internal to `lookup`. -/
inductive Phase where
  | receive | parse | requestRules | lookup | responseRules | send
  | route | forward | waitResponse
  deriving DecidableEq, Repr

/-- What a stage tells the orchestrator. -/
inductive StageOutcome where
  | cont (next : Phase)
  | drop
  | suspend (resume : Phase)
  deriving DecidableEq, Repr

inductive ClientProtocol where
  | udp | tcp
  deriving DecidableEq, Repr

inductive LookupOutcome where
  | answered | miss
  deriving DecidableEq, Repr

inductive AnswerSource where
  | cache | forward
  deriving DecidableEq, Repr

/-- Resume point inside the forward provider after upstream I/O. -/
inductive LookupForwardStep where
  | wait
  deriving DecidableEq, Repr

/-- A cache instance and a key: the wait of a follower, or the fill of a leader. -/
structure CacheTarget where
  cacheName : String
  key : List UInt8
  deriving DecidableEq, Repr

/-- The two tag maps of a transaction. -/
structure TagSet where
  flags : String → Option Bool := fun _ => none
  strings : String → Option String := fun _ => none

namespace TagSet

def setBool (t : TagSet) (key : String) (value : Bool) : TagSet :=
  { t with flags := Function.update t.flags key (some value) }

def setString (t : TagSet) (key value : String) : TagSet :=
  { t with strings := Function.update t.strings key (some value) }

def clear (t : TagSet) (key : String) : TagSet :=
  { flags := Function.update t.flags key none, strings := Function.update t.strings key none }

end TagSet

/-- One backend selection of the route stage. -/
structure AttemptRecord where
  pool : String
  backend : String
  attempt : Nat
  deriving DecidableEq, Repr

def servfail : Nat := 2

structure Transaction where
  id : Nat := 0
  tags : TagSet := {}
  currentPhase : Phase := .receive
  queryWire : Wire := []
  responseWire : Option Wire := none
  dnsId : Nat := 0
  qname : Option String := none
  qtype : Option Nat := none
  qclass : Option Nat := none
  opcode : Option Nat := none
  ednsOptionCodes : List Nat := []
  protocol : ClientProtocol := .udp
  clientUdpPayloadSize : Option Nat := none
  udpResponseTruncatedOnSend : Bool := false
  selectedPool : Option String := none
  selectedBackend : Option String := none
  selectedBackendLabel : Option String := none
  attempts : List AttemptRecord := []
  attemptCount : Nat := 0
  retryPool : Option String := none
  snapshotGeneration : Nat := 0
  dropped : Bool := false
  softDrop : Bool := false
  sourceOverrideV4 : Option String := none
  sourceOverrideV6 : Option String := none
  retrySourceOverrideV4 : Option String := none
  retrySourceOverrideV6 : Option String := none
  preParsed : Bool := false
  lookupProfile : Option String := none
  lookupOutcome : Option LookupOutcome := none
  answerSource : Option AnswerSource := none
  cacheInstance : Option String := none
  cacheLookupEligible : Bool := true
  lookupForwardStep : Option LookupForwardStep := none
  lookupCacheWait : Option CacheTarget := none
  lookupCacheFill : Option CacheTarget := none
  rcode : Option Nat := none
  /-- History: the stored answers, the newest first. -/
  answers : List Wire := []

namespace Transaction

/-- `set_rcode_name("SERVFAIL")`. -/
def setServfail (t : Transaction) : Transaction := { t with rcode := some servfail }

def recordAttempt (t : Transaction) (pool backend label : String) : Transaction :=
  { t with
    attemptCount := t.attemptCount + 1
    attempts := t.attempts ++ [⟨pool, backend, t.attemptCount + 1⟩]
    selectedPool := some pool
    selectedBackend := some backend
    selectedBackendLabel := some label }

/-- `response_wire = Some(wire)` for an answer of an upstream or of a cache. -/
def storeAnswer (t : Transaction) (wire : Wire) : Transaction :=
  { t with responseWire := some wire, answers := wire :: t.answers }

/-- `take_effective_source_override_v4`, `_v6`: a one-shot retry source is used up by a retry
forward. -/
def takeEffectiveSources (t : Transaction) : Transaction :=
  if t.attemptCount > 1 then
    { t with retrySourceOverrideV4 := none, retrySourceOverrideV6 := none }
  else t

end Transaction

/-- The default successor of a phase that has no stage. -/
def nextPhase : Phase → Phase
  | .receive => .parse
  | .parse => .requestRules
  | .requestRules => .lookup
  | .lookup => .responseRules
  | .responseRules => .send
  | .send => .send
  | .route | .forward | .waitResponse => .lookup

end Conduit
