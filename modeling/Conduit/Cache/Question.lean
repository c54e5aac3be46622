import Conduit.Cache.Truncation

/-!
# The question of a cached answer

A fill stores the answer of a forward under the key of the query. The forwards (`handle_sync`,
`handle_reply`) and the fill look at the sender, the id and the TC bit of an answer, and at what its
TTL is. None of them looks at its QR bit or its question, so a backend, or a sender that guesses the
id, can put an answer to any question under the key (`wrong_answer_stored`).

- `questionOf`: the question that a key is for.
- `answersQuestion`: a message is a response to a question.
- `insertProto`: what a call inserts; lookups and resumes insert nothing.
- `CacheWorld.InsertInv.of_reach`: what holds of every answer that is stored holds of every entry.
- `stored_answers_key`: every entry answers its key, if the upstreams answer what they are asked.
-/

namespace Conduit

open Prog

/-! ## Questions -/

/-- The octets of a question: the name, as it is in a key, the type and the class. -/
abbrev Question := List UInt8 × List UInt8 × List UInt8

def questionOf : CacheKey → Option Question
  | _ :: hi :: lo :: rest =>
    let n := 256 * hi.toNat + lo.toNat
    some (rest.take n, (rest.drop n).take 2, (rest.drop (n + 2)).take 2)
  | _ => none

namespace KeyParts

variable (p : KeyParts)

/-- A question in octets; names are the same if they differ in case only. -/
def question (name : String) (qtype qclass : Nat) : Option Question :=
  (p.normalizeQname name).map fun b => (b, toBeBytes qtype, toBeBytes qclass)

def queryQuestion (t : Transaction) : Option Question :=
  p.question (t.qname.getD ".") (t.qtype.getD 0) (t.qclass.getD 1)

/-- The message is a response with the question alone in its question section. -/
def answersQuestion (question : Option Question) (m : Message) : Bool :=
  match m.queries with
  | [q] => m.isResponse && question.isSome && p.question q.name q.qtype q.qclass == question
  | _ => false

variable {p}

variable {key : CacheKey} {transport : TransportKey}

theorem questionOf_build {qname : String} {qtype qclass : Nat} {queryWire : Wire}
    (h : p.buildKeyFromParts qname qtype qclass queryWire transport = some key) :
    questionOf key = p.question qname qtype qclass := by
  obtain ⟨normalized, flags, rest, hname, rfl, hlen⟩ := exists_of_build h
  rw [question, hname]
  simp [questionOf, toBeBytes, hlen]

theorem questionOf_buildKey {t : Transaction} (h : p.buildKey transport t = some key) :
    questionOf key = p.queryQuestion t :=
  questionOf_build h

end KeyParts

/-! ## What the calls insert -/

/-- The protocol of a call that inserts only what `P` allows. -/
def insertProto (P : CacheKey → Wire → Prop) : Proto Op Op.Resp Unit where
  ok _
    | .insert _ key wire => P key wire
    | _ => True
  may _ _ _ := True
  next _ _ _ := ()

/-- The key that a lookup leaves to a forward or waits for. -/
def CacheLookupOutcome.missed : CacheLookupOutcome → Option CacheKey
  | .miss key _ | .waitAsync key => some key
  | .hit _ _ _ | .bypass => none

section Calls

variable {P : CacheKey → Wire → Prop} {w : CacheWiring} (t : Transaction)

theorem inserts_of_obeys {α : Type} {Q : List GateId → α → Prop} {Q' : Unit → α → Prop}
    {p : StageProg α} (h : Obeys (callProto P false) Q [] p) (hq : ∀ h a, Q h a → Q' () a) :
    Obeys (insertProto P) Q' () p := by
  refine h.coarsen (fun _ => ()) (fun _ o ho => ?_) (fun _ o r _ => ?_) (fun _ _ _ => rfl) hq
  · cases o <;> exact ho
  · cases o <;> first | trivial | exact nofun

theorem lookup_inserts (name : String) :
    Obeys (insertProto P) (fun _ out => ∀ k ∈ out.missed, w.keys.buildQueryKey t = some k) ()
      (lookup w.fns name t) := by
  refine inserts_of_obeys (lookup_obeys (K := (w.keys.buildQueryKey t = some ·)) t name nofun
    fun _ h => h) fun _ out hout k hk => ?_
  cases out with
  | miss _ _ | waitAsync _ => cases hk; exact hout
  | hit _ _ _ | bypass => cases hk

theorem resumeAfterWait_inserts (name : String) (key : CacheKey) :
    Obeys (insertProto P) (fun _ out => out.missed = none) () (resumeAfterWait name key) := by
  refine inserts_of_obeys (resumeAfterWait_obeys (K := fun _ => False) key name nofun)
    fun _ out hout => ?_
  cases out with
  | miss _ _ | waitAsync _ => exact hout.elim
  | hit _ _ _ | bypass => rfl

/-- A fill inserts a wire that makes an entry, under the key or the truncated key of the query. -/
theorem fillProg_inserts (name : String) (key : CacheKey) {answer : Option Wire}
    (hstore : ∀ wire ∈ answer, ∀ cfg, w.fns.entryFromWire cfg wire = true →
      P key wire ∧ ∀ k, w.fns.buildTruncatedUdpKey t = some k → P k wire) :
    Obeys (insertProto P) (fun _ _ => True) () (fillProg w.fns name key t answer) := by
  refine inserts_of_obeys (fillProg_obeys key t name fun wire hwire cfg hentry _ => ?_)
    fun _ _ _ => trivial
  obtain ⟨hkey, htruncated⟩ := hstore wire hwire cfg hentry
  unfold truncatedStoreKey
  split
  · cases hk : w.fns.buildTruncatedUdpKey t with
    | none => exact hkey
    | some k => exact htruncated k hk
  · exact hkey

end Calls

/-! ## What runs insert -/

/-- A call inserts only what `P` allows, and misses only the key of its query. -/
def RegistryCall.Inserts (w : CacheWiring) (P : CacheKey → Wire → Prop) (c : RegistryCall) : Prop :=
  Obeys (insertProto P) (fun _ out => ∀ o ∈ out,
    ∀ k ∈ CacheLookupOutcome.missed o, w.keys.buildQueryKey c.txn = some k) () c.prog

/-- All entries, and what the calls have left to insert, are as `P` allows. -/
structure CacheWorld.InsertInv (w : CacheWiring) (T : Transaction → Prop)
    (P : CacheKey → Wire → Prop) (s : CacheWorld) : Prop where
  store : ∀ i key wire, s.store i key = some wire → P key wire
  txns : ∀ c ∈ s.calls, T c.txn
  calls : ∀ c ∈ s.calls, c.Inserts w P

/-- Lookups are for transactions as `T` has them, and the answers that make an entry are as `P`
allows under the keys of the query. -/
def InsertsMeet (w : CacheWiring) (T : Transaction → Prop) (P : CacheKey → Wire → Prop)
    (s : CacheWorld) : CacheAct → Prop
  | .lookup _ t => T t
  | .fill c mode u => ∀ call ∈ s.calls[c]?, T call.txn →
      ∀ wire ∈ forwardAnswer w.toSyncWiring call.txn u mode,
        (∃ cfg, w.fns.entryFromWire cfg wire = true) →
        ∀ transport key, w.keys.buildKey transport call.txn = some key → P key wire
  | _ => True

namespace CacheWorld.InsertInv

variable {w : CacheWiring} {T : Transaction → Prop} {P : CacheKey → Wire → Prop} {s : CacheWorld}

theorem start (hi : s.InsertInv w T P) {c : RegistryCall} (ht : T c.txn) (hc : c.Inserts w P) :
    (s.start c).InsertInv w T P := by
  have hnew : ∀ c' ∈ (s.start c).calls, c' ∈ s.calls ∨ c' = c := fun c' hc' => by
    simpa [CacheWorld.start] using hc'
  refine ⟨hi.store, fun c' hc' => ?_, fun c' hc' => ?_⟩
  · rcases hnew c' hc' with hold | rfl
    · exact hi.txns c' hold
    · exact ht
  · rcases hnew c' hc' with hold | rfl
    · exact hi.calls c' hold
    · exact hc

theorem op (hi : s.InsertInv w T P) {i : Nat} {call : RegistryCall}
    (hcall : s.calls[i]? = some call) {o : Op}
    {k : o.Resp → StageProg (Option CacheLookupOutcome)} (hprog : call.prog = .op o k)
    {x : CacheChance} (r : o.Resp) (sh : Shared) :
    InsertInv w T P
      { s with
        shared := sh
        store := s.stored x o
        calls := s.calls.set i { call with prog := k r } } := by
  have hmem := List.mem_of_getElem? hcall
  have hobeys := hi.calls call hmem
  unfold RegistryCall.Inserts at hobeys
  rw [hprog] at hobeys
  obtain ⟨hok, hrest⟩ := hobeys
  refine ⟨stored_forall hi.store fun i key wire ho => ?_, fun c hc => ?_, fun c hc => ?_⟩
  · subst ho
    exact hok
  · rcases List.mem_or_eq_of_mem_set hc with hold | rfl
    · exact hi.txns c hold
    · exact hi.txns call hmem
  · rcases List.mem_or_eq_of_mem_set hc with hold | rfl
    · exact hi.calls c hold
    · exact hrest r trivial

theorem step (hi : s.InsertInv w T P) {a : CacheAct} {s' : CacheWorld}
    (hmeets : InsertsMeet w T P s a) (he : s.step w a = some s') : s'.InsertInv w T P := by
  cases a with
  | lookup name t =>
    cases he
    refine hi.start hmeets ((lookup_inserts t name).seq fun _ out hout o ho => ?_)
    cases ho
    exact hout
  | resume c =>
    simp only [CacheWorld.step] at he
    split at he
    · rename_i name t key hcall
      cases he
      have ht : T t := hi.txns _ (List.mem_of_getElem? hcall)
      refine hi.start ht
        ((resumeAfterWait_inserts name key).seq fun _ out hout o ho k hk => ?_)
      cases ho
      rw [hout] at hk
      cases hk
    · cases he
  | fill c mode u =>
    simp only [CacheWorld.step] at he
    split at he
    · rename_i name t key gate hcall
      cases he
      have hmem := List.mem_of_getElem? hcall
      have hkey : w.keys.buildQueryKey t = some key := hi.calls _ hmem _ rfl key rfl
      have ht : T t := hi.txns _ hmem
      refine hi.start ht ((fillProg_inserts t name key fun wire hwire cfg hentry => ?_).seq
        fun _ _ _ _ ho => by cases ho)
      have hP := hmeets _ hcall ht wire hwire ⟨cfg, hentry⟩
      exact ⟨hP .complete key hkey, fun k hk => hP .udpTruncated k hk⟩
    · cases he
  | op c x =>
    simp only [CacheWorld.step] at he
    split at he
    · rename_i name t reads o k hcall
      obtain ⟨⟨r, sh⟩, -, rfl⟩ := Option.map_eq_some_iff.mp he
      exact hi.op hcall rfl r sh
    · cases he
  | setInstances | setConfig | setAsyncCoalesce => cases he; exact ⟨hi.store, hi.txns, hi.calls⟩
  | drop i keep =>
    cases he
    exact ⟨drop_forall hi.store i keep, hi.txns, hi.calls⟩

/-- What holds of every answer that is stored holds of every entry. -/
theorem of_reach {C : CacheWorld → CacheAct → Prop} (h : (cacheWorld w).Reach C s)
    (hC : ∀ s a, C s a → InsertsMeet w T P s a) : s.InsertInv w T P := by
  refine h.inv (P := CacheWorld.InsertInv w T P) ?_ fun s a _ _ hi hc he => hi.step (hC s a hc) he
  rintro s ⟨hcalls, hstore, -⟩
  refine ⟨fun i key wire hwire => ?_, fun c hc => ?_, fun c hc => ?_⟩
  · rw [hstore] at hwire
    cases hwire
  · rw [hcalls] at hc
    cases hc
  · rw [hcalls] at hc
    cases hc

end CacheWorld.InsertInv

/-! ## Runs -/

/-- The answers that an attempt gets from the upstream. -/
def Upstream.wires (u : Upstream) : List Wire := u.udp.toList ++ u.tcp.toList

variable {mode : ForwardMode}

theorem forwardAnswer_mem {w : SyncWiring} {t : Transaction} {u : Upstream} {wire : Wire}
    (h : forwardAnswer w t u mode = some wire) :
    ∃ answer ∈ u.wires, wire = rewriteDnsId answer t.dnsId := by
  have hudp : ∀ answer, u.udp = some answer → answer ∈ u.wires := fun answer h =>
    List.mem_append_left _ (Option.mem_toList.mpr h)
  have htcp : ∀ answer, u.tcp = some answer → answer ∈ u.wires := fun answer h =>
    List.mem_append_right _ (Option.mem_toList.mpr h)
  cases mode with
  | submit =>
    obtain ⟨answer, hanswer, rfl⟩ := Option.map_eq_some_iff.mp h
    exact ⟨answer, hudp answer hanswer, rfl⟩
  | sync =>
    obtain ⟨answer, hanswer, rfl⟩ := Option.map_eq_some_iff.mp h
    refine ⟨answer, ?_, rfl⟩
    unfold syncAnswer at hanswer
    split at hanswer
    · exact htcp answer hanswer
    · obtain ⟨datagram, hdatagram, hfall⟩ := Option.map_eq_some_iff.mp hanswer
      split at hfall
      · cases ht : u.tcp with
        | none =>
          rw [ht, Option.getD_none] at hfall
          exact hudp answer (hfall ▸ hdatagram)
        | some stream =>
          rw [ht, Option.getD_some] at hfall
          exact htcp answer (hfall ▸ ht)
      · exact hudp answer (hfall ▸ hdatagram)

def KeyAnswered (w : CacheWiring) (key : CacheKey) (wire : Wire) : Prop :=
  ∃ m, w.codec.fromVec wire = some m ∧ w.keys.answersQuestion (questionOf key) m = true

/-- Every entry answers its key. -/
def CacheWorld.StoreAnswers (w : CacheWiring) (s : CacheWorld) : Prop :=
  ∀ i key wire, s.store i key = some wire → KeyAnswered w key wire

/-- What the upstream sends for a query is, with the client's id, a response to its question, or it
cannot be parsed. -/
def GenuineAnswers (w : CacheWiring) (s : CacheWorld) : CacheAct → Prop
  | .fill c _ u => ∀ call ∈ s.calls[c]?, ∀ answer ∈ u.wires,
      ∀ m ∈ w.codec.fromVec (rewriteDnsId answer call.txn.dnsId),
        w.keys.answersQuestion (w.keys.queryQuestion call.txn) m = true
  | _ => True

instance (w : CacheWiring) (s : CacheWorld) : (a : CacheAct) → Decidable (GenuineAnswers w s a)
  | .fill _ _ _ => inferInstanceAs (Decidable (∀ call ∈ _, _))
  | .lookup _ _ | .resume _ | .op _ _ | .setInstances _ | .setConfig _ _ | .setAsyncCoalesce _
  | .drop _ _ => .isTrue trivial

variable {s : CacheWorld} {w : CacheWiring}

/-- A genuine answer is one to the key of the query and to its truncated key. -/
theorem GenuineAnswers.insertsMeet {a : CacheAct} (h : GenuineAnswers w s a) :
    InsertsMeet w (fun _ => True) (KeyAnswered w) s a := by
  cases a with
  | fill c mode u =>
    intro call hcall _ wire hwire ⟨cfg, hentry⟩ transport key hkey
    obtain ⟨m, hm⟩ := Option.isSome_iff_exists.mp (Bool.and_eq_true_iff.mp hentry).1
    obtain ⟨answer, hmem, rfl⟩ := forwardAnswer_mem hwire
    refine ⟨m, hm, ?_⟩
    rw [KeyParts.questionOf_buildKey hkey]
    exact h call hcall answer hmem m hm
  | _ => trivial

/-- If every upstream answers what it is asked, every entry of the cache answers its key. -/
theorem stored_answers_key (w : CacheWiring) {s : CacheWorld}
    (h : (cacheWorld w).Reach (GenuineAnswers w) s) : s.StoreAnswers w :=
  (CacheWorld.InsertInv.of_reach h fun _ _ hgenuine => hgenuine.insertsMeet).store

/-! ## Runs on one instance -/

/-- A codec of an id, the QR bit, the name `a.` or `b.`, and an answer of one octet. -/
def octetCodec : Codec where
  fromVec
    | [_, _, flags, name, answer] => some
        { isResponse := flags == 128
          queries := [{ name := if name == 0 then "a." else "b.", qtype := 1, qclass := 1 }]
          answers := [[answer]] }
    | _ => none
  emit m :=
    (toBeBytes m.id ++ (if m.isResponse then 128 else 0) ::
      (m.queries.map fun q => if q.name == "a." then 0 else 1) ++ m.answers.flatten, true)

def octetWiring : CacheWiring where
  codec := octetCodec
  upstreamTransport := .udpOnly
  clientTcpUsesUpstreamTcp := false
  isIpv4 _ := true
  keys :=
    { normalizeQname := fun name => some (if name == "a." then [97] else [98])
      dnssecFlags := fun _ => some (false, false)
      ecsOptionBytes := fun _ => some []
      length_normalized := by
        intro q b h
        cases h
        split <;> decide }
  ttlForWire _ _ := true

/-- A client's query for `a.`, and its key. -/
def queryForA : Transaction where
  protocol := .udp
  qname := some "a."
  qtype := some 1
  qclass := some 1
  queryWire := [0, 0, 0, 0, 0]

def keyOfA : CacheKey := [1, 0, 1, 97, 0, 1, 0, 1, 0, 0, 0]

/-- A client misses, its forward gets `datagram`, and a second client asks the same. -/
def filledWith (mode : ForwardMode) (datagram : Wire) : List CacheAct :=
  CacheAct.lookup "answers" queryForA :: (List.replicate 8 (CacheAct.op 0 {}) ++
    CacheAct.fill 0 mode { backend := "192.0.2.1:53", udp := some datagram } ::
      (List.replicate 10 (CacheAct.op 1 {}) ++
        CacheAct.lookup "answers" queryForA :: List.replicate 5 (CacheAct.op 2 {})))

/-- The entry of the key, and what the second client gets. -/
abbrev CacheWorld.CachedForA (entry served : Wire) (s : CacheWorld) : Prop :=
  s.store 0 keyOfA = some entry ∧ s.calls[2]?.bind (·.served) = some served

theorem not_storeAnswers (h : s.store 0 keyOfA = some [0, 0, 128, 1, 7]) :
    ¬ s.StoreAnswers octetWiring := by
  intro hanswers
  obtain ⟨m, hm, hquestion⟩ := hanswers 0 keyOfA _ h
  cases hm
  revert hquestion
  decide

/-- All forwards are of one runtime. -/
def ForwardsBy (mode : ForwardMode) (_ : CacheWorld) : CacheAct → Prop
  | .fill _ m _ => m = mode
  | _ => True

instance (mode : ForwardMode) (s : CacheWorld) : (a : CacheAct) → Decidable (ForwardsBy mode s a)
  | .fill _ m _ => inferInstanceAs (Decidable (m = mode))
  | .lookup _ _ | .resume _ | .op _ _ | .setInstances _ | .setConfig _ _ | .setAsyncCoalesce _
  | .drop _ _ => .isTrue trivial

theorem wrong_answer_by
    (h : (Lts.exec (cacheWorld octetWiring) (ForwardsBy mode)
      (filledWith mode [9, 9, 128, 1, 7]) (oneInstance false)).any
        (CacheWorld.CachedForA [0, 0, 128, 1, 7] [0, 0, 128, 0, 7] ·) = true) :
    ∃ s, (cacheWorld octetWiring).Reach (ForwardsBy mode) s ∧ ¬ s.StoreAnswers octetWiring ∧
      s.calls[2]?.bind (·.served) = some [0, 0, 128, 0, 7] := by
  obtain ⟨s, hr, hstore, hserved⟩ := Lts.exists_exec (L := cacheWorld octetWiring) (ForwardsBy mode)
    (s := oneInstance false) _ _ ⟨rfl, fun _ _ => rfl, fun _ => rfl⟩ h
  exact ⟨s, hr, not_storeAnswers hstore, hserved⟩

/-- The datagram is an answer to `b.`. Both runtimes store it under the key of `a.`, and the second
client gets its records as the answer to `a.`. -/
theorem wrong_answer_stored :
    (∃ s, (cacheWorld octetWiring).Reach (ForwardsBy .sync) s ∧ ¬ s.StoreAnswers octetWiring ∧
      s.calls[2]?.bind (·.served) = some [0, 0, 128, 0, 7]) ∧
    ∃ s, (cacheWorld octetWiring).Reach (ForwardsBy .submit) s ∧ ¬ s.StoreAnswers octetWiring ∧
      s.calls[2]?.bind (·.served) = some [0, 0, 128, 0, 7] :=
  ⟨wrong_answer_by (by decide +kernel), wrong_answer_by (by decide +kernel)⟩

/-- The answer to `a.` is stored. -/
theorem stored_answers_key_sample : ∃ s,
    (cacheWorld octetWiring).Reach (GenuineAnswers octetWiring) s ∧
      s.store 0 keyOfA = some [0, 0, 128, 0, 7] ∧ s.StoreAnswers octetWiring := by
  obtain ⟨s, hr, hs⟩ := Lts.exists_exec (L := cacheWorld octetWiring)
    (GenuineAnswers octetWiring) (s := oneInstance false) (filledWith .sync [9, 9, 128, 0, 7])
    (·.store 0 keyOfA = some [0, 0, 128, 0, 7])
    ⟨rfl, fun _ _ => rfl, fun _ => rfl⟩ (by decide +kernel)
  exact ⟨s, hr, hs, stored_answers_key octetWiring hr⟩

end Conduit
