import Mathlib.Algebra.GroupWithZero.Nat
import Conduit.Core.Wire

/-!
# Outstanding forwards and upstream sockets

`TxnTable` (`forward/txn_table.rs`): the upstream message ids that are in use, and
`WorkerForwardEgress` (`forward/egress.rs`): the choice of an upstream socket.
-/

namespace Conduit

structure ForwardKey where
  backend : String
  dnsId : UInt16
  deriving DecidableEq, Repr

/-- The message id of a wire: its first two bytes. -/
def wireId : Wire → Option Nat
  | hi :: lo :: _ => some (hi.toNat * 256 + lo.toNat)
  | _ => none

/-! ## The table -/

structure TxnTable where
  capacity : Nat
  perBackendLimit : Nat
  /-- The keys in use, with the id of their transaction. -/
  entries : List (ForwardKey × Nat) := []
  perBackend : String → Nat := fun _ => 0
  nextDnsId : UInt16 := 0

namespace TxnTable

def contains (t : TxnTable) (key : ForwardKey) : Bool := t.entries.any (·.1 == key)

/-- The first id from `id` on that is not in use for the backend, among the next `n`. -/
def firstFree (t : TxnTable) (backend : String) : Nat → UInt16 → Option UInt16
  | 0, _ => none
  | n + 1, id => if t.contains ⟨backend, id⟩ then t.firstFree backend n (id + 1) else some id

def registerUnique (t : TxnTable) (backend : String) (txnId : Nat) : TxnTable × Option ForwardKey :=
  if t.entries.length ≥ t.capacity then (t, none)
  else if t.perBackend backend ≥ t.perBackendLimit then (t, none)
  else
    let start := t.nextDnsId
    let t := { t with nextDnsId := start + 1 }
    match t.firstFree backend 65536 start with
    | none => (t, none)
    | some dnsId =>
      let key := ⟨backend, dnsId⟩
      ({ t with
          perBackend := Function.update t.perBackend backend (t.perBackend backend + 1)
          entries := (key, txnId) :: t.entries }, some key)

def remove (t : TxnTable) (key : ForwardKey) : TxnTable :=
  if t.contains key then
    { t with
      entries := t.entries.filter (·.1 != key)
      perBackend := Function.update t.perBackend key.backend (t.perBackend key.backend - 1) }
  else t

end TxnTable

/-! ## Egress sockets -/

abbrev SockId := Nat

/-- The sockets and the sources of one address family. -/
structure FamilyEgress where
  sockets : String → Option SockId := fun _ => none
  defaultSocket : SockId
  /-- The default bind address. -/
  unspecified : String
  forwardSources : List String := []
  rrIndex : Nat := 0

/-- The source addresses that a forward may use: those of its pool, an override of a script, and the
addresses that the override may be. -/
structure SourceSelection where
  pool : List String := []
  override : Option String := none
  allowed : List String := []

namespace FamilyEgress

/-- `round_robin_v4`, `round_robin_v6`. -/
def roundRobin (e : FamilyEgress) (pool : List String) : FamilyEgress × String :=
  let list := if pool ≠ [] then pool else e.forwardSources
  match list[e.rrIndex % list.length]? with
  | some addr => ({ e with rrIndex := (e.rrIndex + 1) % 2 ^ 64 }, addr)
  | none => (e, e.unspecified)

/-- `select_source_v4`, `select_source_v6`. -/
def selectSource (e : FamilyEgress) (sel : SourceSelection) : FamilyEgress × String :=
  match sel.override with
  | some addr => if addr ∈ sel.allowed then (e, addr) else e.roundRobin sel.pool
  | none => e.roundRobin sel.pool

/-- `udp_socket_for`, for the family of the backend. -/
def udpSocketFor (e : FamilyEgress) (sel : SourceSelection) : FamilyEgress × SockId :=
  let r := e.selectSource sel
  (r.1, (e.sockets r.2).getD e.defaultSocket)

end FamilyEgress

end Conduit
