import Conduit.Core.Wire

/-!
# Fitting a response into a datagram

`truncate_udp` (`stages/send.rs`) drops additional records, then the authority, then answers from
the end until the response fits, and cuts the bytes if nothing helps.

What is needed of the codec is that a part of a parsed message is parsed back from its encoding, and
that TC is a bit of the header (`Codec.RoundTrips`).

- `Message.Trims`: the messages that the fitting encodes.
- `Fitted`: what a client may rely on.
- `udp_fitting`: a response is within the limit, and it is fitted, unless the header, the question
  and the OPT record are not within it.
- `tcp_sentWhole_iff`: what a TCP client gets, whose error responses are fitted as well.
-/

namespace Conduit

/-- A message with a part of the records of another one, as the fitting makes them. -/
def Message.Trims (m m' : Message) : Prop :=
  ∃ n nameServers truncated, (nameServers = m.nameServers ∨ nameServers = []) ∧
    m' = { m with answers := m.answers.take n, nameServers, additionals := [], truncated }

/-- The header, the question and the OPT record. -/
def Message.bare (m : Message) : Message :=
  { m with answers := [], nameServers := [], additionals := [] }

structure Codec.RoundTrips (c : Codec) : Prop where
  /-- Encoding then parsing returns the message. -/
  fromVec_emit : ∀ w m m' w', c.fromVec w = some m → m.Trims m' → emitMessage c m' = some w' →
    c.fromVec w' = some m'
  /-- TC is a bit of the header. -/
  length_emit : ∀ w m m' truncated, c.fromVec w = some m → m.Trims m' →
    (emitMessage c { m' with truncated }).map List.length = (emitMessage c m').map List.length

/-- A response that was fitted: a prefix of the answers, and TC if one of them is missing, or the
authority of a response without answers. -/
structure Fitted (m m' : Message) : Prop where
  responseCode : m'.responseCode = m.responseCode
  queries : m'.queries = m.queries
  edns : m'.edns = m.edns
  answers : m'.answers <+: m.answers
  truncated : m'.truncated = true ↔
    m.truncated = true ∨ m'.answers ≠ m.answers ∨ m.answers = [] ∧ m'.nameServers ≠ m.nameServers

/-! ## What the fitting does -/

/-- The message without additional records and authority. TC tells that there was no answer. -/
def Message.answersOnly (m : Message) : Message :=
  { m with
    nameServers := []
    additionals := []
    truncated := m.truncated || (!m.nameServers.isEmpty && m.answers.isEmpty) }

/-- The message with some of its answers. -/
def Message.shortened (m : Message) (n : Nat) : Message :=
  { m with answers := m.answers.take n, nameServers := [], additionals := [], truncated := true }

/-- The bytes that `truncate_udp` leaves. -/
inductive UdpFit (c : Codec) (buf : Wire) (limit : Nat) : Wire → Prop
  | whole (hle : buf.length ≤ limit) : UdpFit c buf limit buf
  | unparsed (hparse : c.fromVec buf = none) : UdpFit c buf limit (clip buf limit)
  | dropAdditionals {m : Message} {w : Wire} (hparse : c.fromVec buf = some m)
      (hfits : emitIfFits c { m with additionals := [] } limit = some w) : UdpFit c buf limit w
  | dropAuthority {m : Message} {w : Wire} (hparse : c.fromVec buf = some m)
      (hfits : emitIfFits c m.answersOnly limit = some w) : UdpFit c buf limit w
  | dropAnswers {m : Message} {w : Wire} {n : Nat} (hparse : c.fromVec buf = some m)
      (hbig : emitIfFits c m.answersOnly limit = none) (hn : n ≤ m.answers.length)
      (hfits : emitIfFits c (m.shortened n) limit = some w) : UdpFit c buf limit w
  | cut {m : Message} (w : Wire) (hparse : c.fromVec buf = some m)
      (hbig : emitIfFits c (m.shortened 0) limit = none) : UdpFit c buf limit (clip w limit)

section

variable {c : Codec} {limit : Nat}

theorem emitIfFits_eq_some {m : Message} {w : Wire} :
    emitIfFits c m limit = some w ↔ emitMessage c m = some w ∧ w.length ≤ limit := by
  simp [emitIfFits, Option.filter_eq_some_iff]

theorem emitIfFits_eq_none {m : Message} :
    emitIfFits c m limit = none ↔ ∀ n ∈ (emitMessage c m).map List.length, limit < n := by
  simp [emitIfFits, Option.filter_eq_none_iff]

theorem trimAnswers_eq_some {n : Nat} {m : Message} {w : Wire} (hn : m.answers.length = n)
    (h : trimAnswers c limit n m = some w) :
    ∃ k ≤ n, emitIfFits c { m with answers := m.answers.take k } limit = some w := by
  induction n generalizing m with
  | zero => cases h
  | succ n ih =>
    unfold trimAnswers at h
    split at h
    next w' hfits =>
      cases h
      refine ⟨n + 1, Nat.le_refl _, ?_⟩
      rw [← hn, List.take_length]
      exact hfits
    next =>
      have hlen : m.answers.dropLast.length = n := by
        rw [List.length_dropLast, hn, Nat.add_sub_cancel]
      obtain ⟨k, hk, hfits⟩ := ih hlen h
      refine ⟨k, Nat.le_succ_of_le hk, ?_⟩
      have htake : m.answers.dropLast.take k = m.answers.take k := by
        rw [List.dropLast_eq_take, List.take_take, hn, Nat.add_sub_cancel, Nat.min_eq_left hk]
      rw [← htake]
      exact hfits

theorem truncateUdp_fit (c : Codec) (buf : Wire) (size : Option Nat) :
    UdpFit c buf (size.getD 512) (truncateUdp c buf size).1 := by
  unfold truncateUdp
  dsimp only
  split
  next hle => exact .whole hle
  split
  next hparse => exact .unparsed hparse
  next m hparse =>
  split
  next w hfits => exact .dropAdditionals hparse hfits
  split
  next w hfits => exact .dropAuthority hparse hfits
  next hbig =>
  split
  next w htrim =>
    obtain ⟨k, hk, hfits⟩ := trimAnswers_eq_some
      (m := { m with nameServers := [], additionals := [], truncated := true }) rfl htrim
    exact .dropAnswers hparse hbig hk hfits
  -- no answers are left
  have hshort : m.shortened 0 =
      { m with answers := [], nameServers := [], additionals := [], truncated := true } := rfl
  split
  next w hemit =>
    rw [← hshort] at hemit
    split
    next hlen =>
      refine .cut w hparse (emitIfFits_eq_none.mpr fun n hn => ?_)
      rw [hemit] at hn
      cases hn
      exact hlen
    next hlen =>
      exact .dropAnswers hparse hbig (Nat.zero_le _)
        (emitIfFits_eq_some.mpr ⟨hemit, Nat.le_of_not_lt hlen⟩)
  next hemit =>
    refine .cut buf hparse (emitIfFits_eq_none.mpr ?_)
    rw [hshort, hemit]
    nofun

/-! ## The limit -/

theorem length_clip_le (w : Wire) (limit : Nat) : (clip w limit).length ≤ limit := by
  have hlen : (clip w limit).length = (w.take limit).length := by
    unfold clip
    split
    next h => rw [h]; rfl
    next => rfl
  rw [hlen]
  exact List.length_take_le ..

theorem UdpFit.length_le {buf w : Wire} (h : UdpFit c buf limit w) : w.length ≤ limit := by
  cases h with
  | whole hle => exact hle
  | unparsed | cut => exact length_clip_le ..
  | dropAdditionals _ hfits | dropAuthority _ hfits | dropAnswers _ _ _ hfits =>
    exact (emitIfFits_eq_some.mp hfits).2

/-! ## What is left of a message -/

namespace Codec.RoundTrips

variable (hc : c.RoundTrips) {buf : Wire} {m : Message}

include hc

/-- Whether a message fits does not depend on TC. -/
theorem emitIfFits_truncated (hparse : c.fromVec buf = some m) {m' : Message} (ht : m.Trims m')
    (truncated : Bool) (hbig : emitIfFits c m' limit = none) :
    emitIfFits c { m' with truncated } limit = none := by
  rw [emitIfFits_eq_none] at hbig ⊢
  rwa [hc.length_emit buf m m' truncated hparse ht]

theorem parses (hparse : c.fromVec buf = some m) {m' : Message} {w : Wire} (ht : m.Trims m')
    (hfits : emitIfFits c m' limit = some w) : c.fromVec w = some m' :=
  hc.fromVec_emit buf m m' w hparse ht (emitIfFits_eq_some.mp hfits).1

end Codec.RoundTrips

end

section

variable {m : Message}

theorem Message.trims_noAdditionals : m.Trims { m with additionals := [] } :=
  ⟨m.answers.length, m.nameServers, m.truncated, .inl rfl, by rw [List.take_length]⟩

theorem Message.trims_answersOnly : m.Trims m.answersOnly :=
  ⟨m.answers.length, [], _, .inr rfl, by rw [List.take_length]; rfl⟩

theorem Message.trims_shortened (n : Nat) : m.Trims (m.shortened n) :=
  ⟨n, [], true, .inr rfl, rfl⟩

theorem Fitted.refl : Fitted m m := ⟨rfl, rfl, rfl, List.prefix_refl _, by simp⟩

theorem fitted_noAdditionals : Fitted m { m with additionals := [] } :=
  ⟨rfl, rfl, rfl, List.prefix_refl _, by simp⟩

theorem fitted_answersOnly : Fitted m m.answersOnly := by
  refine ⟨rfl, rfl, rfl, List.prefix_refl _, ?_⟩
  cases hns : m.nameServers <;> cases hans : m.answers <;> simp [Message.answersOnly, hns, hans]

theorem fitted_shortened {n : Nat} (hn : n < m.answers.length) : Fitted m (m.shortened n) := by
  refine ⟨rfl, rfl, rfl, List.take_prefix .., ⟨fun _ => .inr (.inl fun heq => ?_), fun _ => rfl⟩⟩
  have hlen : (m.answers.take n).length = m.answers.length := congrArg List.length heq
  rw [List.length_take] at hlen
  omega

end

/-- A fitted response is within the limit. If the wire parses, and the header, the question and the
OPT record are within the limit, then the client gets these, a prefix of the answers, and TC if it
was set or what is missing is needed. -/
theorem udp_fitting {c : Codec} (hc : c.RoundTrips) (buf : Wire) (size : Option Nat) :
    (truncateUdp c buf size).1.length ≤ size.getD 512 ∧
      ∀ m, c.fromVec buf = some m →
        (∃ w, emitMessage c m.bare = some w ∧ w.length ≤ size.getD 512) →
        ∃ m', c.fromVec (truncateUdp c buf size).1 = some m' ∧ Fitted m m' := by
  have hfit := truncateUdp_fit c buf size
  refine ⟨hfit.length_le, fun m hm ⟨w₀, hw₀, hle₀⟩ => ?_⟩
  have hbare : emitIfFits c m.bare (size.getD 512) = some w₀ := emitIfFits_eq_some.mpr ⟨hw₀, hle₀⟩
  generalize (truncateUdp c buf size).1 = w at hfit ⊢
  cases hfit with
  | whole => exact ⟨m, hm, .refl⟩
  | unparsed hparse => cases hm.symm.trans hparse
  | dropAdditionals hparse hfits =>
    cases hm.symm.trans hparse
    exact ⟨_, hc.parses hm Message.trims_noAdditionals hfits, fitted_noAdditionals⟩
  | dropAuthority hparse hfits =>
    cases hm.symm.trans hparse
    exact ⟨_, hc.parses hm Message.trims_answersOnly hfits, fitted_answersOnly⟩
  | dropAnswers hparse hbig hn hfits =>
    cases hm.symm.trans hparse
    refine ⟨_, hc.parses hm (Message.trims_shortened _) hfits, fitted_shortened ?_⟩
    -- all the answers do not fit, without TC nor with it
    refine Nat.lt_of_le_of_ne hn fun heq => ?_
    have hbig := hc.emitIfFits_truncated hm Message.trims_answersOnly true hbig
    rw [heq, Message.shortened, List.take_length] at hfits
    cases hfits.symm.trans hbig
  | cut w hparse hbig =>
    cases hm.symm.trans hparse
    -- the header, the question and the OPT record fit, without TC and with it
    have hbig := hc.emitIfFits_truncated hm (Message.trims_shortened 0) m.truncated hbig
    cases hbare.symm.trans hbig

/-- A codec for concrete runs: TC, the number of answers, and an octet for each record. -/
def recordCodec : Codec where
  fromVec
    | tc :: n :: rest =>
      if tc ≤ 1 ∧ n.toNat ≤ rest.length then
        some { isResponse := true, truncated := tc == 1
               answers := (rest.take n.toNat).map ([·])
               nameServers := (rest.drop n.toNat).map ([·]) }
      else none
    | _ => none
  emit m := ((if m.truncated then 1 else 0) :: UInt8.ofNat m.answers.length ::
    (m.answers ++ m.nameServers).flatten, true)

theorem flatten_singletons (xs : List UInt8) : (xs.map ([·])).flatten = xs := by
  induction xs with
  | nil => rfl
  | cons x xs ih => rw [List.map_cons, List.flatten_cons, ih]; rfl

theorem recordCodec_fromVec_emit {truncated : Bool} {xs ys : List UInt8} (h : xs.length < 256) :
    recordCodec.fromVec (recordCodec.emit
        { truncated, answers := xs.map ([·]), nameServers := ys.map ([·]) }).1 =
      some { isResponse := true, truncated
             answers := xs.map ([·]), nameServers := ys.map ([·]) } := by
  have hn : (UInt8.ofNat xs.length).toNat = xs.length := by
    rw [UInt8.toNat_ofNat']
    omega
  have htc : (if truncated then 1 else 0 : UInt8) ≤ 1 := by cases truncated <;> decide
  have htc' : ((if truncated then 1 else 0 : UInt8) == 1) = truncated := by
    cases truncated <;> rfl
  simp only [recordCodec, List.flatten_append, flatten_singletons, List.length_map, hn]
  rw [if_pos ⟨htc, by simp⟩, htc', List.take_left, List.drop_left]

theorem recordCodec_roundTrips : recordCodec.RoundTrips where
  fromVec_emit := by
    rintro w m m' w' hparse ⟨k, ns, truncated, hns, rfl⟩ hemit
    obtain ⟨tc, n, rest, rfl⟩ : ∃ tc n rest, w = tc :: n :: rest := by
      match w, hparse with
      | tc :: n :: rest, _ => exact ⟨tc, n, rest, rfl⟩
    simp only [recordCodec, Option.ite_none_right_eq_some, Option.some.injEq] at hparse
    obtain ⟨-, rfl⟩ := hparse
    have hlen : ((rest.take n.toNat).take k).length < 256 := by
      have := n.toNat_lt
      simp only [List.length_take]
      omega
    obtain ⟨ys, rfl⟩ : ∃ ys : List UInt8, ns = ys.map ([·]) := by
      rcases hns with rfl | rfl
      · exact ⟨_, rfl⟩
      · exact ⟨[], rfl⟩
    dsimp only at hemit ⊢
    rw [← List.map_take] at hemit ⊢
    cases hemit
    exact recordCodec_fromVec_emit hlen
  length_emit := by
    rintro w m m' truncated - -
    rfl

/-- Twenty answers and two authority records, for twelve octets. -/
def sampleResponse : Wire := 0 :: 20 :: (List.replicate 20 7 ++ [9, 9])

theorem udp_fitting_sample : ∃ m m', recordCodec.fromVec sampleResponse = some m ∧
    (truncateUdp recordCodec sampleResponse (some 12)).1 = 1 :: 10 :: List.replicate 10 7 ∧
    recordCodec.fromVec (1 :: 10 :: List.replicate 10 7) = some m' ∧ Fitted m m' := by
  have hwire : (truncateUdp recordCodec sampleResponse (some 12)).1 =
      1 :: 10 :: List.replicate 10 7 := by decide +kernel
  obtain ⟨m', hm', hfitted⟩ := (udp_fitting recordCodec_roundTrips sampleResponse (some 12)).2 _ rfl
    ⟨_, rfl, by decide⟩
  rw [hwire] at hm'
  exact ⟨_, m', rfl, hwire, hm', hfitted⟩

/-! ## Error responses for TCP clients

The response of a TCP client is sent as it is stored, but an error response goes through the UDP
fitting for every client. -/

/-- What is needed of the codec: an error response that can be encoded is parsed from its encoding,
which is as long as the questions and the EDNS part of the query make it, and TC is a bit of the
header. -/
structure Codec.Echoes (c : Codec) : Prop extends c.Lawful, c.RoundTrips where
  fromVec_error : ∀ id rcode query, id < 65536 → emitsError c id rcode query = true →
    c.fromVec (c.emit (errorMessage c id rcode query)).1 = some (errorMessage c id rcode query)
  length_error : ∀ id rcode query, emitsError c id rcode query = true →
    (c.emit (errorMessage c id rcode query)).1.length =
      (c.emit (errorMessage c 0 0 query)).1.length
  fromVec_tc : ∀ w m f, c.fromVec w = some m → w[2]? = some f → m.truncated = f.toNat.testBit 1

/-- How long an error response for the query is. -/
def echoLength (c : Codec) (query : Wire) : Nat := (c.emit (errorMessage c 0 0 query)).1.length

/-- The bytes that are sent are a message, and TC is set in it only if a stored response had it. -/
def SentWhole (c : Codec) (t : Transaction) : Prop :=
  ∃ w m, (sendStage c t).responseWire = some w ∧ c.fromVec w = some m ∧
    (m.truncated = true → ∃ stored ∈ t.responseWire, ∃ m₀, c.fromVec stored = some m₀ ∧
      m₀.truncated = true)

namespace Codec.Echoes

variable {c : Codec} (hc : c.Echoes) {w : Wire} {m : Message} {limit : Nat}

include hc

/-- Bytes that were cut are no message, or have TC. -/
theorem truncated_clip (h : c.fromVec (clip w limit) = some m) : m.truncated = true := by
  have hlen := hc.fromVec_rcode _ _ h
  unfold clip at h hlen
  split at h
  next a b f rest heq =>
    rw [hc.fromVec_tc _ _ (f ||| 2) h rfl, UInt8.toNat_or, Nat.testBit_or]
    exact Bool.or_eq_true_iff.mpr (.inr (by decide))
  next hshort =>
    match hw : w.take limit, hshort with
    | [], _ | [_], _ | [_, _], _ => rw [hw] at hlen; cases hlen
    | a :: b :: f :: rest, hshort => exact absurd rfl (hshort a b f rest)

/-- The fitting of an error response that does not fit sets TC or cuts it. -/
theorem truncated_fit {id rcode : Nat} {query : Wire} (hid : id < 65536)
    (he : emitsError c id rcode query = true) (hbig : limit < echoLength c query)
    (hfit : UdpFit c (c.emit (errorMessage c id rcode query)).1 limit w)
    (hm : c.fromVec w = some m) : m.truncated = true := by
  have hparse := hc.fromVec_error id rcode query hid he
  have hlen : (c.emit (errorMessage c id rcode query)).1.length = echoLength c query :=
    hc.length_error id rcode query he
  have hnot : emitIfFits c (errorMessage c id rcode query) limit = none := by
    rw [emitIfFits, emitMessage, if_pos (show (c.emit _).2 = true from he)]
    simpa [Option.filter, hlen] using hbig
  cases hfit with
  | whole hle =>
    rw [hlen] at hle
    exact absurd hle (Nat.not_le.mpr hbig)
  | unparsed | cut => exact hc.truncated_clip hm
  | dropAdditionals hp hfits | dropAuthority hp hfits =>
    cases hparse.symm.trans hp
    cases hnot.symm.trans hfits
  | dropAnswers hp _ _ hfits =>
    cases hm.symm.trans (hc.parses hp (Message.trims_shortened _) hfits)
    rfl

end Codec.Echoes

/-- **Responses over TCP.** What a TCP client gets is whole exactly when the stored response is a
message, or there is none and an error response is within the UDP payload size. -/
theorem tcp_sentWhole_iff {c : Codec} (hc : c.Echoes) (t : Transaction)
    (htcp : t.protocol = .tcp) (hid : t.dnsId < 65536)
    (he : emitsError c t.dnsId (t.rcode.getD servfail) t.queryWire = true) :
    SentWhole c t ↔
      (∃ w ∈ t.responseWire, (c.fromVec w).isSome = true) ∨
      t.responseWire = none ∧ echoLength c t.queryWire ≤ t.clientUdpPayloadSize.getD 512 := by
  unfold SentWhole sendStage
  cases hw : t.responseWire with
  | some w =>
    simp only [htcp, hw]
    constructor
    · rintro ⟨_, m, ⟨⟩, hm, -⟩
      exact .inl ⟨w, rfl, by rw [hm]; rfl⟩
    · rintro (⟨_, ⟨⟩, hm⟩ | ⟨⟨⟩, _⟩)
      obtain ⟨m, hm⟩ := Option.isSome_iff_exists.mp hm
      exact ⟨w, m, rfl, hm, fun htc => ⟨w, rfl, m, hm, htc⟩⟩
  | none =>
    constructor
    · rintro ⟨_, m, ⟨⟩, hm, htc⟩
      refine .inr ⟨rfl, Nat.le_of_not_lt fun hbig => ?_⟩
      obtain ⟨_, ⟨⟩, _⟩ := htc (hc.truncated_fit hid he hbig (truncateUdp_fit ..) hm)
    · rintro (⟨_, ⟨⟩, _⟩ | ⟨-, hle⟩)
      refine ⟨_, errorMessage c t.dnsId (t.rcode.getD servfail) t.queryWire, rfl, ?_, nofun⟩
      rw [buildErrorResponse, truncateUdp, if_pos (by rw [hc.length_error _ _ _ he]; exact hle)]
      exact hc.fromVec_error _ _ _ hid he

/-- What follows the header: nothing, a question, or a question and EDNS options with their length.
-/
def echoBody : Wire → Option (Option (Option Wire))
  | [] => some none
  | [_] => some (some none)
  | _ :: hi :: lo :: options =>
    if hi.toNat * 256 + lo.toNat = options.length then some (some (some options)) else none
  | _ => none

def echoMessage (id rcode : Nat) (isResponse authoritative truncated : Bool)
    (body : Option (Option Wire)) : Message :=
  { id, isResponse, authoritative, truncated, rcode
    queries := if body.isSome then [{}] else []
    edns := body.join.map fun options => { optionCodes := options.map UInt8.toNat } }

/-- A codec for concrete runs. A message that was cut is refused. -/
def echoCodec : Codec where
  fromVec
    | a :: b :: f :: d :: rest => (echoBody rest).map (echoMessage (a.toNat * 256 + b.toNat)
        (d.toNat % 16) (f.toNat.testBit 7) (f.toNat.testBit 2) (f.toNat.testBit 1))
    | _ => none
  emit m :=
    (UInt8.ofNat (m.id / 256) :: UInt8.ofNat m.id ::
      UInt8.ofNat ((if m.isResponse then 128 else 0) + (if m.authoritative then 4 else 0) +
        (if m.truncated then 2 else 0)) :: UInt8.ofNat m.rcode ::
      match m.queries, m.edns with
      | [], _ => []
      | _, none => [0]
      | _, some e => 0 :: UInt8.ofNat (e.optionCodes.length / 256) ::
          UInt8.ofNat e.optionCodes.length :: e.optionCodes.map UInt8.ofNat, true)

theorem echoCodec_fromVec_emit {id rcode : Nat} (isResponse authoritative truncated : Bool)
    {rest : Wire} {body : Option (Option Wire)} (hbody : echoBody rest = some body)
    (hid : id < 65536) (hr : rcode < 16) :
    echoCodec.fromVec
        (echoCodec.emit (echoMessage id rcode isResponse authoritative truncated body)).1 =
      some (echoMessage id rcode isResponse authoritative truncated body) := by
  have hpair : ∀ n, n < 65536 → n / 256 % 256 * 256 + n % 256 = n := fun n hn => by omega
  have hr : rcode % 256 % 16 = rcode := by omega
  have hflags : ∀ a b c : Bool,
      let f := ((if a then 128 else 0) + (if b then 4 else 0) + (if c then 2 else 0)) % 256
      f.testBit 7 = a ∧ f.testBit 2 = b ∧ f.testBit 1 = c := by decide
  match rest, hbody with
  | [], hbody | [_], hbody =>
    cases hbody
    simpa [echoCodec, echoBody, echoMessage, hpair id hid, hr] using
      hflags isResponse authoritative truncated
  | _ :: hi :: lo :: options, hbody =>
    simp only [echoBody, Option.ite_none_right_eq_some, Option.some.injEq] at hbody
    obtain ⟨hlen, rfl⟩ := hbody
    have hlt : options.length < 65536 := by
      have hhi := hi.toNat_lt
      have hlo := lo.toNat_lt
      rw [← hlen]
      omega
    simpa [echoCodec, echoBody, echoMessage, hpair id hid, hr, hpair _ hlt] using
      hflags isResponse authoritative truncated

theorem echoCodec_fromVec {w : Wire} {m : Message} (h : echoCodec.fromVec w = some m) :
    ∃ a b f d rest body, w = a :: b :: f :: d :: rest ∧ echoBody rest = some body ∧
      m = echoMessage (a.toNat * 256 + b.toNat) (d.toNat % 16) (f.toNat.testBit 7)
        (f.toNat.testBit 2) (f.toNat.testBit 1) body := by
  match w, h with
  | a :: b :: f :: d :: rest, h =>
    obtain ⟨body, hbody, rfl⟩ := Option.map_eq_some_iff.mp h
    exact ⟨a, b, f, d, rest, body, rfl, hbody, rfl⟩

/-- An error response repeats what follows the header of the query. -/
theorem errorMessage_echoCodec (query : Wire) : ∃ rest body, echoBody rest = some body ∧
    ∀ id rcode, errorMessage echoCodec id rcode query =
      echoMessage id (rcode % 16) true true false body := by
  have hnone : (if query = [] then none else echoCodec.fromVec query) = none →
      ∃ rest body, echoBody rest = some body ∧ ∀ id rcode, errorMessage echoCodec id rcode query =
        echoMessage id (rcode % 16) true true false body :=
    fun h => ⟨[], none, rfl, fun id rcode => by rw [errorMessage, h]; rfl⟩
  by_cases hq : query = []
  · exact hnone (if_pos hq)
  rw [if_neg hq] at hnone
  cases hm : echoCodec.fromVec query with
  | none => exact hnone hm
  | some m =>
    obtain ⟨a, b, f, d, rest, body, rfl, hbody, rfl⟩ := echoCodec_fromVec hm
    exact ⟨rest, body, hbody, fun id rcode => by rw [errorMessage, if_neg hq, hm]; rfl⟩

theorem echoCodec_echoes : echoCodec.Echoes where
  fromVec_rcode w m h := by
    obtain ⟨a, b, f, d, rest, body, rfl, -, rfl⟩ := echoCodec_fromVec h
    rfl
  emit_rcode m hm _ := by
    show some ((UInt8.ofNat m.rcode).toNat % 16) = some m.rcode
    rw [UInt8.toNat_ofNat']
    congr 1
    omega
  fromVec_payload w m h e he := by
    obtain ⟨a, b, f, d, rest, body, rfl, -, rfl⟩ := echoCodec_fromVec h
    obtain ⟨options, -, rfl⟩ := Option.map_eq_some_iff.mp he
    exact Nat.le_refl _
  fromVec_emit w m m' w' h := by
    rintro ⟨n, nameServers, truncated, hns, rfl⟩ hemit
    obtain ⟨a, b, f, d, rest, body, rfl, hbody, rfl⟩ := echoCodec_fromVec h
    cases hemit
    have hns : nameServers = [] := by rcases hns with rfl | rfl <;> rfl
    subst hns
    have hid : a.toNat * 256 + b.toNat < 65536 := by
      have ha := a.toNat_lt
      have hb := b.toNat_lt
      omega
    rw [show (echoMessage _ _ _ _ _ body).answers.take n = [] from List.take_nil]
    exact echoCodec_fromVec_emit _ _ truncated hbody hid (Nat.mod_lt _ (by omega))
  length_emit _ _ _ _ _ _ := rfl
  fromVec_error id rcode query hid _ := by
    obtain ⟨rest, body, hbody, herror⟩ := errorMessage_echoCodec query
    rw [herror]
    exact echoCodec_fromVec_emit _ _ _ hbody hid (Nat.mod_lt _ (by omega))
  length_error id rcode query _ := by
    obtain ⟨rest, body, hbody, herror⟩ := errorMessage_echoCodec query
    rw [herror, herror]
    rfl
  fromVec_tc w m f h hf := by
    obtain ⟨a, b, f', d, rest, body, rfl, -, rfl⟩ := echoCodec_fromVec h
    cases hf
    rfl

/-- A query for a TCP client, with as many octets of EDNS options. -/
def sampleTcp (options : Nat) : Transaction :=
  { protocol := .tcp
    queryWire := [0, 7, 0, 0, 0, UInt8.ofNat (options / 256), UInt8.ofNat options] ++
      List.replicate options 0 }

theorem tcp_sentWhole_iff_sample : SentWhole echoCodec (sampleTcp 3) :=
  (tcp_sentWhole_iff echoCodec_echoes (sampleTcp 3) rfl (by decide) rfl).mpr
    (.inr ⟨rfl, by decide +kernel⟩)

/-- The server fails: the error response has the options, and is cut to 512 octets with TC, which are
no message. -/
theorem tcp_error_cut : (sampleTcp 600).protocol = .tcp ∧
    ((sendStage echoCodec (sampleTcp 600)).responseWire.map fun w =>
      (w.length, w[2]?, echoCodec.fromVec w)) = some (512, some 134, none) ∧
    ¬ SentWhole echoCodec (sampleTcp 600) := by
  have hcut : ((sendStage echoCodec (sampleTcp 600)).responseWire.map fun w =>
      (w.length, w[2]?, echoCodec.fromVec w)) = some (512, some 134, none) := by
    decide +kernel
  refine ⟨rfl, hcut, ?_⟩
  rintro ⟨w, m, hw, hm, -⟩
  rw [hw, Option.map_some, hm] at hcut
  simp at hcut

end Conduit
