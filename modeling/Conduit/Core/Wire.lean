import Mathlib.Tactic.Common
import Conduit.Core.Transaction

/-!
# Messages, parse and send

What the pipeline does with DNS message bytes: the parse stage (`structural_parse.rs`,
`stages/parse.rs`), `record_upstream_response` (`upstream_response.rs`), the rewrite of the message
id, and the send stage with its UDP fitting (`stages/send.rs`).

The message codec is a parameter (`Codec`). What the results need of it is a law (`Codec.Lawful`):
parsing and emission agree with the rcode bits of the header.
-/

namespace Conduit

structure Query where
  name : String := ""
  qtype : Nat := 0
  qclass : Nat := 0
  deriving DecidableEq, Repr

/-- A resource record: only counted and moved. -/
abbrev Record := List UInt8

/-- An EDNS client subnet option, as it is parsed. -/
structure ClientSubnet where
  address : List UInt8
  sourcePrefix : UInt8
  scopePrefix : UInt8
  deriving DecidableEq, Repr

structure Edns where
  maxPayload : Nat := 512
  optionCodes : List Nat := []
  dnssecOk : Bool := false
  clientSubnet : Option ClientSubnet := none
  deriving DecidableEq, Repr

/-- A parsed message; `rcode` is the low part of the response code, and `rcodeHigh` what the OPT
record adds to it. -/
structure Message where
  id : Nat := 0
  isResponse : Bool := false
  opcode : Nat := 0
  authoritative : Bool := false
  truncated : Bool := false
  rcode : Nat := 0
  queries : List Query := []
  answers : List Record := []
  nameServers : List Record := []
  additionals : List Record := []
  edns : Option Edns := none
  rcodeHigh : Nat := 0
  checkingDisabled : Bool := false
  deriving DecidableEq, Repr

def Message.responseCode (m : Message) : Nat := 16 * m.rcodeHigh + m.rcode

/-- The message codec: `from_vec`, and `emit`: the bytes written, and if all were. -/
structure Codec where
  fromVec : Wire → Option Message
  emit : Message → Wire × Bool
  /-- `Vec::try_from` of a client subnet option. -/
  subnetBytes : ClientSubnet → Option (List UInt8) := fun _ => none

/-- The rcode bits of a message header (the low half of byte 3). -/
def headerRcode (w : Wire) : Option Nat := w[3]?.map (fun b => b.toNat % 16)

/-- The codec agrees with the header's rcode bits. -/
structure Codec.Lawful (c : Codec) : Prop where
  /-- A parsed message has the header's rcode. -/
  fromVec_rcode : ∀ w m, c.fromVec w = some m → headerRcode w = some m.rcode
  /-- An emitted message has its rcode in the header. -/
  emit_rcode : ∀ m, m.rcode < 16 → (c.emit m).2 = true → headerRcode (c.emit m).1 = some m.rcode
  /-- A payload size below 512 is taken as 512. -/
  fromVec_payload : ∀ w m, c.fromVec w = some m → ∀ e ∈ m.edns, 512 ≤ e.maxPayload

/-! ## Parse -/

inductive ParseRejectReason where
  | empty | wireError | notQuery | noQuestion | multiQuestion
  deriving DecidableEq, Repr

structure ParsedQuery where
  dnsId : Nat
  opcode : Nat
  qname : String
  qtype : Nat
  qclass : Nat
  clientUdpPayloadSize : Option Nat
  ednsOptionCodes : List Nat

def structuralParse (c : Codec) (wire : Wire) : Except ParseRejectReason ParsedQuery :=
  if wire = [] then .error .empty
  else match c.fromVec wire with
    | none => .error .wireError
    | some m =>
      if m.isResponse then .error .notQuery
      else match m.queries with
        | [] => .error .noQuestion
        | [q] => .ok
            { dnsId := m.id, opcode := m.opcode, qname := q.name, qtype := q.qtype
              qclass := q.qclass, clientUdpPayloadSize := m.edns.map (·.maxPayload)
              ednsOptionCodes := (m.edns.map (·.optionCodes)).getD [] }
        | _ => .error .multiQuestion

def applyParsedQuery (t : Transaction) (p : ParsedQuery) : Transaction :=
  { t with
    dnsId := p.dnsId, opcode := some p.opcode, qname := some p.qname, qtype := some p.qtype
    qclass := some p.qclass, clientUdpPayloadSize := p.clientUdpPayloadSize
    ednsOptionCodes := p.ednsOptionCodes, preParsed := true }

/-- `ParseStage::handle`. -/
def parseStage (c : Codec) (t : Transaction) : Transaction × StageOutcome :=
  if t.preParsed then
    if t.qname = none then (t, .drop) else (t, .cont .requestRules)
  else match structuralParse c t.queryWire with
    | .ok p => (applyParsedQuery t p, .cont .requestRules)
    | .error _ => (t, .drop)

/-! ## Upstream answers -/

/-- Set the message id, if there are bytes for it. -/
def rewriteDnsId (w : Wire) (id : Nat) : Wire :=
  match w with
  | _ :: _ :: rest => UInt8.ofNat (id / 256) :: UInt8.ofNat id :: rest
  | w => w

/-- The rcode of the transaction follows a wire that parses. -/
def recordUpstreamResponse (c : Codec) (t : Transaction) (wire : Wire) : Transaction :=
  match c.fromVec wire with
  | some m => { t with rcode := some m.rcode }
  | none => t

/-! ## Send -/

def emitMessage (c : Codec) (m : Message) : Option Wire :=
  if (c.emit m).2 then some (c.emit m).1 else none

def emitIfFits (c : Codec) (m : Message) (limit : Nat) : Option Wire :=
  (emitMessage c m).filter (fun w => w.length ≤ limit)

/-- Cut the bytes at the limit and set the TC bit. -/
def clip (w : Wire) (limit : Nat) : Wire :=
  match w.take limit with
  | a :: b :: f :: rest => a :: b :: (f ||| 2) :: rest
  | w => w

/-- The loop that drops answers from the end until the message fits; `n` answers are left. -/
def trimAnswers (c : Codec) (limit : Nat) : Nat → Message → Option Wire
  | 0, _ => none
  | n + 1, m =>
    match emitIfFits c m limit with
    | some w => some w
    | none => trimAnswers c limit n { m with answers := m.answers.dropLast }

/-- `truncate_udp`: the bytes that fit, and if TC was set on them. -/
def truncateUdp (c : Codec) (buf : Wire) (udpPayloadSize : Option Nat) : Wire × Bool :=
  let limit := udpPayloadSize.getD 512
  if buf.length ≤ limit then (buf, false)
  else match c.fromVec buf with
    | none => (clip buf limit, true)
    | some m =>
      let m₁ := { m with additionals := [] }
      match emitIfFits c m₁ limit with
      | some w => (w, false)
      | none =>
        let required := !m.nameServers.isEmpty && m.answers.isEmpty
        let m₂ := { m₁ with nameServers := [], truncated := m.truncated || required }
        match emitIfFits c m₂ limit with
        | some w => (w, required)
        | none =>
          let m₃ := { m₂ with truncated := true }
          match trimAnswers c limit m.answers.length m₃ with
          | some w => (w, true)
          | none =>
            match emitMessage c { m₃ with answers := [] } with
            | some w => (if w.length > limit then clip w limit else w, true)
            | none => (clip buf limit, true)

/-- The message of an error response: the questions and the EDNS part of the query, if it parses. -/
def errorMessage (c : Codec) (id rcode : Nat) (queryWire : Wire) : Message :=
  let echo := if queryWire = [] then none else c.fromVec queryWire
  { id := id, isResponse := true, authoritative := true, rcode := rcode % 16
    queries := (echo.map (·.queries)).getD [], edns := echo.bind (·.edns) }

/-- The error response can be encoded. -/
def emitsError (c : Codec) (id rcode : Nat) (queryWire : Wire) : Bool :=
  (c.emit (errorMessage c id rcode queryWire)).2

/-- `build_error_response`: the bytes, and if they were truncated. An error of the encoder is ignored.
-/
def buildErrorResponse (c : Codec) (id rcode : Nat) (queryWire : Wire)
    (udpPayloadSize : Option Nat) : Wire × Bool :=
  truncateUdp c (c.emit (errorMessage c id rcode queryWire)).1 udpPayloadSize

/-- `SendStage::handle`: a stored wire is sent; without one, an error response is built. -/
def sendStage (c : Codec) (t : Transaction) : Transaction :=
  match t.responseWire with
  | some wire =>
    match t.protocol with
    | .udp =>
      let r := truncateUdp c wire t.clientUdpPayloadSize
      { t with
        responseWire := some r.1
        udpResponseTruncatedOnSend := t.udpResponseTruncatedOnSend || r.2 }
    | .tcp => t
  | none =>
    let r := buildErrorResponse c t.dnsId (t.rcode.getD servfail) t.queryWire
      t.clientUdpPayloadSize
    { t with
      responseWire := some r.1
      udpResponseTruncatedOnSend := t.udpResponseTruncatedOnSend || r.2 }

/-! ## The header's rcode bits -/

theorem headerRcode_clip {w : Wire} {limit : Nat} (h : 4 ≤ limit) :
    headerRcode (clip w limit) = headerRcode w := by
  obtain ⟨n, rfl⟩ : ∃ n, limit = n + 4 := ⟨limit - 4, by omega⟩
  match w with
  | [] | [_] | [_, _] | [_, _, _] => rfl
  | a :: b :: f :: d :: rest => rfl

namespace Codec.Lawful

variable {c : Codec} (hc : c.Lawful)

include hc

variable {w : Wire} {m : Message}

theorem rcode_lt (h : c.fromVec w = some m) : m.rcode < 16 := by
  have := hc.fromVec_rcode w m h
  unfold headerRcode at this
  obtain ⟨b, -, hb⟩ := Option.map_eq_some_iff.mp this
  omega

theorem headerRcode_emitMessage (h : emitMessage c m = some w) (hm : m.rcode < 16) :
    headerRcode w = some m.rcode := by
  unfold emitMessage at h
  split at h
  · rename_i hok
    cases h
    exact hc.emit_rcode m hm hok
  · cases h

variable {limit : Nat}

theorem headerRcode_emitIfFits (h : emitIfFits c m limit = some w) (hm : m.rcode < 16) :
    headerRcode w = some m.rcode :=
  hc.headerRcode_emitMessage (Option.filter_eq_some_iff.mp h).1 hm

theorem headerRcode_trimAnswers {n : Nat} (h : trimAnswers c limit n m = some w) (hm : m.rcode < 16) :
    headerRcode w = some m.rcode := by
  induction n generalizing m with
  | zero => cases h
  | succ n ih =>
    unfold trimAnswers at h
    split at h
    · rename_i hf
      cases h
      exact hc.headerRcode_emitIfFits hf hm
    · exact ih (m := { m with answers := m.answers.dropLast }) h hm

variable {size : Option Nat}

theorem headerRcode_truncateUdp {buf : Wire} (hs : 4 ≤ size.getD 512) :
    headerRcode (truncateUdp c buf size).1 = headerRcode buf := by
  unfold truncateUdp
  simp only
  split
  · rfl
  split
  · exact headerRcode_clip hs
  rename_i m hm
  have hlt := hc.rcode_lt hm
  rw [hc.fromVec_rcode _ _ hm]
  split
  · rename_i hf
    have h := hc.headerRcode_emitIfFits hf hlt
    exact h
  split
  · rename_i hf
    have h := hc.headerRcode_emitIfFits hf hlt
    exact h
  split
  · rename_i hf
    have h := hc.headerRcode_trimAnswers hf hlt
    exact h
  split
  · rename_i w hf
    have h := hc.headerRcode_emitMessage hf hlt
    split
    · rw [headerRcode_clip hs]; exact h
    · exact h
  · rw [headerRcode_clip hs]; exact hc.fromVec_rcode _ _ hm

theorem headerRcode_buildErrorResponse {id rcode : Nat} {q : Wire} (hs : 4 ≤ size.getD 512)
    (he : emitsError c id rcode q = true) :
    headerRcode (buildErrorResponse c id rcode q size).1 = some (rcode % 16) := by
  unfold buildErrorResponse
  rw [hc.headerRcode_truncateUdp hs]
  exact hc.emit_rcode _ (Nat.mod_lt _ (by omega)) he

end Codec.Lawful

/-- A codec for concrete runs: the first four bytes of the header, and always one root question. -/
def Codec.header : Codec where
  fromVec
    | a :: b :: f :: d :: _ => some
      { id := a.toNat * 256 + b.toNat, isResponse := 128 ≤ f.toNat, truncated := f.toNat / 2 % 2 = 1
        rcode := d.toNat % 16, queries := [{}] }
    | _ => none
  emit m :=
    ([UInt8.ofNat (m.id / 256), UInt8.ofNat m.id,
      UInt8.ofNat ((if m.isResponse then 128 else 0) + (if m.truncated then 2 else 0)),
      UInt8.ofNat m.rcode], true)

theorem Codec.header_lawful : Codec.header.Lawful where
  fromVec_rcode := by
    intro w m h
    match w, h with
    | _ :: _ :: _ :: _ :: _, h => cases h; rfl
  emit_rcode := by
    intro m hm _
    show some ((UInt8.ofNat m.rcode).toNat % 16) = some m.rcode
    rw [UInt8.toNat_ofNat']
    congr 1
    omega
  fromVec_payload := by
    intro w m h e he
    match w, h with
    | _ :: _ :: _ :: _ :: _, h => cases h; cases he

end Conduit
