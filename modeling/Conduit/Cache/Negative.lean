import Conduit.Cache.Conclusive
import Conduit.Cache.Isolation
import Conduit.Cache.Serve

/-!
# Answers from the NXDOMAIN of an ancestor

`try_ancestor_nxdomain_hit` (`lookup/cache/registry.rs`) takes the text of the query name apart at
its dots and looks for an NXDOMAIN of each parent, the nearest first. An ancestor without an entry
ends the walk. The labels are not looked at, and of the stored answer only the low part of its
response code.

- `ancestorWalk_eq_some`: what a walk finds if no entry changes on the way.
- `CacheWorld.runAlone`: a call that no other one disturbs.
- `ancestor_hit_iff`: when a lookup is answered by the NXDOMAIN of an ancestor.
- `CleanDenials`, `ancestor_denial_sound`: an answer that is found that way denies an ancestor, if
  no denial is about another name and no label of the query has a dot.
-/

namespace Conduit

open Prog

/-! ## The ancestors of a name -/

theorem Name.length_suffix (n : Name) {labels : List Label} (h : labels <:+ n.labels) :
    (labelsWire labels).length + 1 ≤ 255 := by
  obtain ⟨front, hfront⟩ := h
  have hlen := n.length_le
  rw [← hfront, labelsWire, List.flatMap_append, List.length_append] at hlen
  rw [labelsWire]
  omega

def Name.ancestor (n : Name) (labels : List Label) (h : labels <:+ n.labels) : Name where
  labels := labels
  length_le := n.length_suffix h

section

variable {names : NameSyntax}

/-- The parents of label texts are the texts of the suffixes. -/
theorem mem_parentQnames {labels : List Label} {a : String}
    (h : a ∈ parentQnames (labels.map names.labelText)) :
    ∃ rest, rest <:+ labels ∧ rest ≠ labels ∧ a = String.ofList (names.joined rest ++ ['.']) := by
  induction labels with
  | nil => cases h
  | cons l labels ih =>
    cases labels with
    | nil => cases h
    | cons l' labels =>
      rw [List.map_cons, List.map_cons, parentQnames] at h
      rcases List.mem_cons.mp h with rfl | h
      · exact ⟨l' :: labels, List.suffix_cons .., by simp, rfl⟩
      · obtain ⟨rest, hsuffix, hne, rfl⟩ := ih h
        refine ⟨rest, hsuffix.trans (List.suffix_cons ..), ?_, rfl⟩
        rintro rfl
        exact absurd hsuffix.length_le (by simp)

/-- If no label text has a dot, the names of the walk are those of ancestors. -/
theorem mem_ancestorQnames (hnames : names.Lawful) {n : Name} (hn : n.isFqdn = true)
    (hdots : ∀ l ∈ n.labels, '.' ∉ names.labelText l) {a : String}
    (h : a ∈ ancestorQnames (names.toUtf8 n)) :
    ∃ labels, ∃ hs : labels <:+ n.labels, labels ≠ n.labels ∧
      a = names.toUtf8 (n.ancestor labels hs) := by
  have htext : (names.toUtf8 n).toList = names.joined n.labels ++ ['.'] := by
    simp [NameSyntax.toUtf8, NameSyntax.text, hn]
  rw [ancestorQnames, htext, List.rdropWhile_concat_pos _ _ _ (by simp)] at h
  split at h
  · cases h
  next hne =>
  have hlabels : n.labels ≠ [] := by
    intro hnil
    simp [hnil, NameSyntax.joined] at hne
  -- the last label does not end with a dot
  have htrim : (names.joined n.labels).rdropWhile (· == '.') = names.joined n.labels := by
    rcases (NameSyntax.rdropWhile_joined hnames hlabels).2 with heq | heq
    · exact heq
    · obtain ⟨l, hl, cs, hjoined⟩ := names.joined_concat hlabels
      have hlast : (names.labelText l).getLast? = some '.' := by
        rw [← List.getLast?_append_of_ne_nil cs (hnames.labelText_ne_nil l), ← hjoined, ← heq]
        exact List.getLast?_concat
      exact absurd (List.mem_of_getLast? hlast) (hdots l hl)
  have hsplit : (names.joined n.labels).splitOn '.' = n.labels.map names.labelText := by
    refine List.splitOn_intercalate '.' ?_ (by simpa using hlabels)
    intro cs hcs
    obtain ⟨l, hl, rfl⟩ := List.mem_map.mp hcs
    exact hdots l hl
  rw [htrim, hsplit] at h
  obtain ⟨rest, hs, hne, rfl⟩ := mem_parentQnames h
  exact ⟨rest, hs, hne, rfl⟩

end

/-! ## A lookup alone -/

namespace CacheWorld

variable (w : CacheWiring) (x : CacheChance) (t : Transaction)

/-- A call for `t` that no other one disturbs; the outside decides the same at every operation. -/
def runAlone {α : Type} : StageProg α → CacheWorld → Option (α × CacheWorld)
  | .ret a, s => some (a, s)
  | .op o k, s => (o.sem (s.env w x t o) s.shared).bind fun r =>
      runAlone (k r.1) { s with shared := r.2, store := s.stored x o }

/-- What the walk finds if no entry changes on the way. -/
def ancestorHit (s : CacheWorld) (i : InstId) : Option Wire :=
  if (s.config i).negativeCacheEnabled && (s.config i).nxdomainCoversDescendants then
    ancestorWalk (w.keys.ancestorKey t) (s.get x i) (isNxDomain w.codec)
      (ancestorQnames (t.qname.getD "."))
  else none

/-- The entry that the walk gets for a name. -/
def ancestorEntry (s : CacheWorld) (i : InstId) (a : String) : Option Wire :=
  (w.keys.ancestorKey t a).bind (s.get x i)

/-- The walk ends with the wire: it is an NXDOMAIN, and the read of an ancestor gives it. -/
def EndsWalk (s : CacheWorld) (i : InstId) (wire : Wire) : Prop :=
  isNxDomain w.codec wire = true ∧
    ∃ a ∈ ancestorQnames (t.qname.getD "."), s.ancestorEntry w x t i a = some wire

/-- The wire is a fresh NXDOMAIN that is stored for a proper ancestor of the query name. -/
def DeniesAbove (names : NameSyntax) (n : Name) (s : CacheWorld) (i : InstId) (wire : Wire) : Prop :=
  isNxDomain w.codec wire = true ∧ ∃ labels, ∃ hs : labels <:+ n.labels, labels ≠ n.labels ∧
    s.ancestorEntry w x t i (names.toUtf8 (n.ancestor labels hs)) = some wire

/-- The lookup returns a hit that is made of the NXDOMAIN of an ancestor. -/
def HitsAbove (names : NameSyntax) (n : Name) (s : CacheWorld) (cacheName : String) (i : InstId) :
    Prop :=
  ∃ wire served skip s', s.ancestorHit w x t i = some wire ∧ s.DeniesAbove w x t names n i wire ∧
    prepareServedWire w.codec t x.aging wire = some served ∧
    runAlone w x t (lookup w.fns cacheName t) s = some (.hit served (s.config i).name skip, s')

/-- The walk gets to the NXDOMAIN of an ancestor over entries of the names before it, and the answer
can be encoded for the client. -/
def WalksTo (names : NameSyntax) (n : Name) (s : CacheWorld) (i : InstId) : Prop :=
  ∃ near name far wire, ancestorQnames (names.toUtf8 n) = near ++ name :: far ∧
    (∀ a ∈ near, ∃ other, s.ancestorEntry w x t i a = some other ∧
      isNxDomain w.codec other = false) ∧
    s.ancestorEntry w x t i name = some wire ∧ s.DeniesAbove w x t names n i wire ∧
    (prepareServedWire w.codec t x.aging wire).isSome

/-- A lookup without an exact entry, when there is an NXDOMAIN above. -/
structure NoExactEntry (s : CacheWorld) (cacheName : String) (i : InstId) : Prop where
  inst : s.shared.instances cacheName = some i
  rebuilding : x.rebuilding = false
  eligible : t.cacheLookupEligible = true
  negative : (s.config i).negativeCacheEnabled = true
  covers : (s.config i).nxdomainCoversDescendants = true
  exact : ∀ key, w.keys.buildQueryKey t = some key → s.get x i key = none

variable {w x t} {s : CacheWorld} {cacheName : String} {i : InstId}

theorem runAlone_bind {α β : Type} (p : StageProg α) (f : α → StageProg β) (s : CacheWorld) :
    runAlone w x t (p >>= f) s = (runAlone w x t p s).bind fun r => runAlone w x t (f r.1) r.2 := by
  induction p generalizing s with
  | ret a => rfl
  | op o k ih =>
    have hop : ∀ r : o.Resp × Shared, _ := fun r =>
      ih r.1 { s with shared := r.2, store := s.stored x o }
    show ((o.sem (s.env w x t o) s.shared).bind fun r => _) = _
    rw [runAlone, Option.bind_assoc]
    exact Option.bind_congr fun r _ => hop r

theorem runAlone_read {α : Type} {o : Op} {r : o.Resp}
    (hsem : o.sem (s.env w x t o) s.shared = some (r, s.shared)) (hstore : s.stored x o = s.store)
    (k : o.Resp → StageProg α) : runAlone w x t (perform o >>= k) s = runAlone w x t (k r) s := by
  have hop : runAlone w x t (perform o) s = some (r, s) := by
    show ((o.sem (s.env w x t o) s.shared).bind fun r => _) = _
    rw [hsem, hstore]
    rfl
  rw [runAlone_bind, hop]
  rfl

theorem runAlone_walk (isNx : Wire → Bool) (key : String → Option CacheKey) (names : List String) :
    runAlone w x t (walkAncestors isNx i (names.map key)) s =
      some (ancestorWalk key (s.get x i) isNx names, s) := by
  induction names with
  | nil => rfl
  | cons a names ih =>
    rw [List.map_cons, ancestorWalk]
    cases key a with
    | none => rfl
    | some k =>
      rw [walkAncestors, runAlone_read (r := s.get x i k) rfl rfl, Option.bind_some]
      cases s.get x i k with
      | none => rfl
      | some wire =>
        dsimp only
        split
        · rfl
        · exact ih

theorem runAlone_ancestors :
    runAlone w x t (tryAncestorNxdomainHit w.fns i t) s = some (s.ancestorHit w x t i, s) := by
  rw [tryAncestorNxdomainHit, runAlone_read (r := s.config i) rfl rfl, ancestorHit]
  rcases (s.config i).negativeCacheEnabled with _ | _
  · rfl
  · rcases (s.config i).nxdomainCoversDescendants with _ | _
    · rfl
    · exact runAlone_walk ..

theorem endsWalk_of_ancestorHit {wire : Wire} (h : s.ancestorHit w x t i = some wire) :
    s.EndsWalk w x t i wire := by
  unfold ancestorHit at h
  split at h
  · obtain ⟨near, a, far, heq, -, hentry, hnx⟩ := ancestorWalk_eq_some.mp h
    exact ⟨hnx, a, heq ▸ List.mem_append_right near List.mem_cons_self, hentry⟩
  · cases h

/-- The lookup serves what the walk finds. -/
theorem NoExactEntry.runAlone_lookup (h : NoExactEntry w x t s cacheName i) {key : CacheKey}
    (hkey : w.keys.buildQueryKey t = some key) {wire served : Wire}
    (hhit : s.ancestorHit w x t i = some wire)
    (hserved : prepareServedWire w.codec t x.aging wire = some served) :
    runAlone w x t (lookup w.fns cacheName t) s =
      some (.hit served (s.config i).name (s.config i).skipResponseRules, s) := by
  have hkey' : w.fns.buildQueryKey t = some key := hkey
  have hexact : s.get x i key = none := h.exact key hkey
  have hread : runAlone w x t (tryReadHit i key) s = some (none, s) := by
    rw [tryReadHit, runAlone_read (r := none) (by simp [Op.sem, env, hexact]) rfl]
    rfl
  have hfrom : runAlone w x t (hitFrom i wire) s =
      some (.hit served (s.config i).name (s.config i).skipResponseRules, s) := by
    rw [hitFrom, runAlone_read (r := s.config i) rfl rfl,
      runAlone_read (r := some served) (by simp [Op.sem, env, hserved]) rfl]
    rfl
  -- the reads of the key and of the ancestors
  have hreads : runAlone w x t (lookupReads w.fns i key t) s =
      some (some (.hit served (s.config i).name (s.config i).skipResponseRules), s) := by
    rw [lookupReads, runAlone_bind, hread, Option.bind_some]
    dsimp only
    rw [runAlone_bind, runAlone_ancestors, hhit, Option.bind_some]
    dsimp only
    rw [runAlone_bind, hfrom]
    rfl
  rw [lookup, runAlone_read (r := some i) (by simp [Op.sem, h.inst]) rfl]
  dsimp only
  rw [runAlone_read (r := false) (by simp [Op.sem, env, h.rebuilding]) rfl]
  simp only [Bool.false_eq_true, if_false, h.eligible, Bool.not_true, hkey']
  rw [runAlone_bind, hreads]
  rfl

end CacheWorld

/-- A lookup without an exact entry is answered by the NXDOMAIN of an ancestor if and only if the
walk gets to one. -/
theorem ancestor_hit_iff {names : NameSyntax} (hnames : names.Lawful) {w : CacheWiring}
    (hkeys : w.keys = keyParts names w.codec) {x : CacheChance} {s : CacheWorld} {t : Transaction}
    {m : Message} {n : Name} {ty cl : Nat} (ht : t.AsksFor names w.codec m n ty cl)
    {cacheName : String} {i : InstId} (h : CacheWorld.NoExactEntry w x t s cacheName i) :
    s.HitsAbove w x t names n cacheName i ↔ s.WalksTo w x t names n i := by
  have hwalk : s.ancestorHit w x t i = ancestorWalk (w.keys.ancestorKey t) (s.get x i)
      (isNxDomain w.codec) (ancestorQnames (names.toUtf8 n)) := by
    rw [CacheWorld.ancestorHit, h.negative, h.covers, ht.qname, Bool.and_self, if_pos rfl,
      Option.getD_some]
  constructor
  · rintro ⟨wire, served, -, -, hfound, hdenies, hserved, -⟩
    obtain ⟨near, name, far, heq, hnear, hname, -⟩ := ancestorWalk_eq_some.mp (hwalk ▸ hfound)
    exact ⟨near, name, far, wire, heq, hnear, hname, hdenies, Option.isSome_of_eq_some hserved⟩
  · rintro ⟨near, name, far, wire, heq, hnear, hname, hdenies, hserved⟩
    obtain ⟨served, hserved⟩ := Option.isSome_iff_exists.mp hserved
    have hfound : s.ancestorHit w x t i = some wire :=
      hwalk.trans (ancestorWalk_eq_some.mpr ⟨near, name, far, heq, hnear, hname, hdenies.1⟩)
    -- an ancestor's key has been built, so the option of the query can be encoded
    obtain ⟨key, hkey⟩ : ∃ key, w.keys.buildQueryKey t = some key := by
      obtain ⟨-, labels, hs, -, hentry⟩ := hdenies
      obtain ⟨above, habove, -⟩ := Option.bind_eq_some_iff.mp hentry
      obtain ⟨_, -, hbuildAbove⟩ := buildKeyFromParts_name hnames (n := n.ancestor labels hs) rfl
        (t.qtype.getD 0) (t.qclass.getD 1) ht.message .complete
      rw [hkeys, KeyParts.ancestorKey, hbuildAbove] at habove
      obtain ⟨ecs, hecs, -⟩ := Option.map_eq_some_iff.mp habove
      obtain ⟨name, -, hbuild⟩ := ht.buildKey hnames .complete
      rw [hecs] at hbuild
      rw [hkeys]
      exact ⟨_, hbuild⟩
    exact ⟨wire, served, _, s, hfound, hdenies, hserved, h.runAlone_lookup hkey hfound hserved⟩

/-! ## Denials -/

/-- The message says that its name does not exist: no alias (CNAME or DNAME) moves the denial to
another name. -/
def Message.Denies (recordType : Record → Nat) (m : Message) : Prop :=
  m.responseCode = 3 ∧ ∀ r ∈ m.answers, recordType r ≠ 5 ∧ recordType r ≠ 39

instance (recordType : Record → Nat) (m : Message) : Decidable (m.Denies recordType) :=
  inferInstanceAs (Decidable
    (m.responseCode = 3 ∧ ∀ r ∈ m.answers, recordType r ≠ 5 ∧ recordType r ≠ 39))

/-- Lookups are for parsed queries. -/
def ParsedLookup (names : NameSyntax) (w : CacheWiring) : CacheAct → Prop
  | .lookup _ t => ∃ m n ty cl, t.AsksFor names w.codec m n ty cl
  | _ => True

/-- An answer whose header says NXDOMAIN denies its name. -/
def CleanAnswer (recordType : Record → Nat) (w : CacheWiring) (s : CacheWorld) : CacheAct → Prop
  | .fill c mode u => ∀ call ∈ s.calls[c]?,
      ∀ wire ∈ forwardAnswer w.toSyncWiring call.txn u mode,
        ∀ m ∈ w.codec.fromVec wire, m.rcode = 3 → m.Denies recordType
  | _ => True

instance (recordType : Record → Nat) (w : CacheWiring) (s : CacheWorld) :
    (a : CacheAct) → Decidable (CleanAnswer recordType w s a)
  | .fill _ _ _ => inferInstanceAs (Decidable (∀ call ∈ _, _))
  | .lookup _ _ | .resume _ | .op _ _ | .setInstances _ | .setConfig _ _ | .setAsyncCoalesce _
  | .drop _ _ => .isTrue trivial

def CleanDenials (names : NameSyntax) (recordType : Record → Nat) (w : CacheWiring) (s : CacheWorld)
    (a : CacheAct) : Prop :=
  ParsedLookup names w a ∧ CleanAnswer recordType w s a

def KeyFor (names : NameSyntax) (w : CacheWiring) (n : Name) (key : CacheKey) : Prop :=
  ∃ t m ty cl transport, t.AsksFor names w.codec m n ty cl ∧ w.keys.buildKey transport t = some key

/-- The wire is stored for a proper ancestor of the name, and denies it. -/
def CacheWorld.DeniesAncestorOf (names : NameSyntax) (recordType : Record → Nat) (w : CacheWiring)
    (s : CacheWorld) (i : InstId) (n : Name) (wire : Wire) : Prop :=
  (∃ m, w.codec.fromVec wire = some m ∧ m.Denies recordType) ∧
    ∃ key above, s.store i key = some wire ∧ KeyFor names w above key ∧
      ∃ labels, labels <:+ n.labels ∧ labels ≠ n.labels ∧
        above.lower.labels = labels.map Label.lower

/-- What holds of every entry. -/
def StoredDenial (names : NameSyntax) (recordType : Record → Nat) (w : CacheWiring) (key : CacheKey)
    (wire : Wire) : Prop :=
  (∃ n, KeyFor names w n key) ∧
    ∃ m, w.codec.fromVec wire = some m ∧ (m.rcode = 3 → m.Denies recordType)

theorem CleanDenials.insertsMeet {names : NameSyntax} {recordType : Record → Nat} {w : CacheWiring}
    {s : CacheWorld} {a : CacheAct} (h : CleanDenials names recordType w s a) :
    InsertsMeet w (fun t => ∃ m n ty cl, t.AsksFor names w.codec m n ty cl)
      (StoredDenial names recordType w) s a := by
  cases a with
  | lookup name t => exact h.1
  | fill c mode u =>
    rintro call hcall ⟨m', n, ty, cl, hasks⟩ wire hwire ⟨cfg, hentry⟩ transport key hkey
    obtain ⟨m, hm⟩ := Option.isSome_iff_exists.mp (Bool.and_eq_true_iff.mp hentry).1
    exact ⟨⟨n, call.txn, m', ty, cl, transport, hasks, hkey⟩, m, hm, h.2 call hcall wire hwire m hm⟩
  | _ => trivial

theorem rcode_of_isNxDomain {c : Codec} {wire : Wire} {m : Message} (hm : c.fromVec wire = some m)
    (h : isNxDomain c wire = true) : m.rcode = 3 := by
  rw [isNxDomain, hm] at h
  by_contra hne
  simp only [Option.any_some, EntryKind.fromRcode, if_neg hne, beq_iff_eq] at h
  split at h
  · split at h <;> cases h
  · split at h <;> cases h

/-- What a walk ends with denies an ancestor of the query name, if NXDOMAIN answers deny their names,
and no label of the query is written with a dot. The entries that the walk read before may have
changed since. -/
theorem ancestor_denial_sound {names : NameSyntax} (hnames : names.Lawful)
    {recordType : Record → Nat} {w : CacheWiring} (hkeys : w.keys = keyParts names w.codec)
    {s : CacheWorld} (h : (cacheWorld w).Reach (CleanDenials names recordType w) s)
    {t : Transaction} {m : Message} {n : Name} {ty cl : Nat} (ht : t.AsksFor names w.codec m n ty cl)
    (hdots : ∀ l ∈ n.labels, '.' ∉ names.labelText l) {x : CacheChance} {i : InstId} {wire : Wire}
    (hend : s.EndsWalk w x t i wire) :
    s.DeniesAncestorOf names recordType w i n wire := by
  -- the name that the walk stops at, and its key
  obtain ⟨hnx, a, hmem, hentry⟩ := hend
  rw [ht.qname, Option.getD_some] at hmem
  rw [CacheWorld.ancestorEntry, KeyParts.ancestorKey, ht.qtype, ht.qclass] at hentry
  obtain ⟨labels, hs, hne, rfl⟩ := mem_ancestorQnames hnames ht.isFqdn hdots hmem
  obtain ⟨key, hkey, hget⟩ := Option.bind_eq_some_iff.mp hentry
  have hstore : s.store i key = some wire := by
    unfold CacheWorld.get at hget
    split at hget
    · exact hget
    · cases hget
  obtain ⟨name, hname, hwalk⟩ := buildKeyFromParts_name hnames (n := n.ancestor labels hs) rfl ty cl
    ht.message .complete
  rw [hkeys] at hkey
  obtain ⟨ecs, -, hkey'⟩ := Option.map_eq_some_iff.mp (hwalk.symm.trans hkey)
  -- the name that the entry was stored for
  obtain ⟨⟨above, hfor⟩, m', hm', hclean⟩ :=
    (CacheWorld.InsertInv.of_reach h fun _ _ hc => hc.insertsMeet).store i key wire hstore
  refine ⟨⟨m', hm', hclean (rcode_of_isNxDomain hm' hnx)⟩, key, above, hstore, hfor, labels, hs,
    hne, ?_⟩
  obtain ⟨t', m'', ty', cl', transport, hasks, hbuild⟩ := hfor
  obtain ⟨name', hname', hstored⟩ := hasks.buildKey hnames transport
  rw [hkeys] at hbuild
  obtain ⟨ecs', -, hbuild⟩ := Option.map_eq_some_iff.mp (hstored.symm.trans hbuild)
  have hlayout := KeyLayout.key_inj (queryLayout_fits hname' m'' ecs' transport hasks.ty_lt hasks.cl_lt)
    (queryLayout_fits hname m ecs .complete ht.ty_lt ht.cl_lt) (hbuild.trans hkey'.symm)
  obtain rfl : name' = name := congrArg KeyLayout.name hlayout
  exact (hnames.emit_eq_iff _ _).mp (hname'.trans hname.symm)

/-! ## Runs on one instance -/

/-- A codec of an id, the QR bit, one of four names, and an alias among the answers; responses are
NXDOMAIN. -/
def denialCodec : Codec where
  fromVec
    | [_, _, flags, name, cname] => some
        { isResponse := flags == 128
          rcode := if flags == 128 then 3 else 0
          queries := [{ name := texts.getD name.toNat "", qtype := 1, qclass := 1 }]
          answers := if cname == 1 then [[60, 0, 0, 0, 5, 97]] else [] }
    | _ => none
  emit m :=
    (toBeBytes m.id ++ (if m.isResponse then 128 else 0) ::
      (m.queries.map fun q => UInt8.ofNat (texts.idxOf q.name)) ++
      [UInt8.ofNat m.answers.length], true)
where
  texts : List String := ["a.", "b.a.", "x.b.a.", "x\\.a."]

def denialWiring : CacheWiring where
  toSyncWiring := { octetWiring.toSyncWiring with codec := denialCodec }
  keys := keyParts .octets denialCodec
  ttlForWire cfg wire :=
    (ttlForWire denialCodec RecordOps.octets.ttl wire cfg.negativeCacheEnabled
      (UInt32.ofNat cfg.servfailTtlSecs)).isSome

def octetLabel (b : UInt8) : Label := ⟨[b], by simp, by simp⟩

/-- `x.b.a.` -/
def nameXBA : Name := ⟨[octetLabel 120, octetLabel 98, octetLabel 97], true, by decide⟩

/-- A client's query for the name with this number. -/
def denialQuery (name : UInt8) (text : String) : Transaction where
  queryWire := [0, 0, 0, name, 0]
  qname := some text
  qtype := some 1
  qclass := some 1

theorem denialQuery_asksFor (name : UInt8) (text : String) {n : Name} (hn : n.isFqdn = true)
    (htext : NameSyntax.octets.toUtf8 n = text) {m : Message}
    (hm : denialCodec.fromVec [0, 0, 0, name, 0] = some m) :
    (denialQuery name text).AsksFor .octets denialCodec m n 1 1 :=
  ⟨hm, by rw [denialQuery, htext], hn, rfl, rfl, by decide, by decide⟩

/-- The only entry is the NXDOMAIN of this name. -/
def denialFor (name : UInt8) (text : String) : CacheWorld where
  shared := { instances := fun _ => some 0 }
  config _ := { negativeCacheEnabled := true }
  store _ key :=
    if denialWiring.keys.buildQueryKey (denialQuery name text) = some key then
      some [0, 0, 128, name, 0]
    else none

def keyOfXBA : CacheKey := [1, 0, 7, 1, 120, 1, 98, 1, 97, 0, 0, 1, 0, 1, 0, 0, 0]

theorem denialFor_noExactEntry {name : UInt8} {text : String}
    (h : (denialFor name text).get {} 0 keyOfXBA = none) :
    CacheWorld.NoExactEntry denialWiring {} (denialQuery 2 "x.b.a.") (denialFor name text)
      "answers" 0 := by
  have hkey : denialWiring.keys.buildQueryKey (denialQuery 2 "x.b.a.") = some keyOfXBA := by
    decide +kernel
  refine ⟨rfl, rfl, rfl, rfl, rfl, fun key hkey' => ?_⟩
  cases hkey.symm.trans hkey'
  exact h

/-- The NXDOMAIN of `b.a.` answers `x.b.a.`. -/
theorem ancestor_hit_iff_sample :
    (denialFor 1 "b.a.").HitsAbove denialWiring {} (denialQuery 2 "x.b.a.") .octets nameXBA
      "answers" 0 := by
  have hasks := denialQuery_asksFor 2 "x.b.a." (n := nameXBA) rfl (by decide) rfl
  refine (ancestor_hit_iff NameSyntax.octets_lawful (w := denialWiring) rfl hasks
    (denialFor_noExactEntry (by decide +kernel))).mpr ?_
  refine ⟨[], "b.a.", ["a."], [0, 0, 128, 1, 0], by decide +kernel, nofun, by decide +kernel,
    ⟨by decide +kernel, [octetLabel 98, octetLabel 97], by decide, by decide, by decide +kernel⟩,
    by decide +kernel⟩

/-- There is an NXDOMAIN of `a.`, and no entry of `b.a.`: the lookup of `x.b.a.` misses. -/
theorem ancestor_hit_missed :
    (denialFor 0 "a.").NoExactEntry denialWiring {} (denialQuery 2 "x.b.a.") "answers" 0 ∧
      (denialFor 0 "a.").DeniesAbove denialWiring {} (denialQuery 2 "x.b.a.") .octets nameXBA 0
        [0, 0, 128, 0, 0] ∧
      ¬ (denialFor 0 "a.").HitsAbove denialWiring {} (denialQuery 2 "x.b.a.") .octets nameXBA
        "answers" 0 ∧
      ((CacheWorld.runAlone denialWiring {} (denialQuery 2 "x.b.a.")
        (lookup denialWiring.fns "answers" (denialQuery 2 "x.b.a.")) (denialFor 0 "a.")).map (·.1)) =
          some (.miss keyOfXBA 0) := by
  refine ⟨denialFor_noExactEntry (by decide +kernel), ?_, ?_, by decide +kernel⟩
  · exact ⟨by decide +kernel, [octetLabel 97], by decide, by decide, by decide +kernel⟩
  · rintro ⟨wire, -, -, -, hfound, -⟩
    have hnone : (denialFor 0 "a.").ancestorHit denialWiring {} (denialQuery 2 "x.b.a.") 0 = none := by
      decide +kernel
    cases hnone.symm.trans hfound

/-- `b.a.`, and `x.a` as one label. -/
def nameBA : Name := ⟨[octetLabel 98, octetLabel 97], true, by decide⟩

def nameDotted : Name := ⟨[⟨[120, 46, 97], by simp, by simp⟩], true, by decide⟩

def nameA : Name := ⟨[octetLabel 97], true, by decide⟩

def keyOfNameA : CacheKey := [1, 0, 3, 1, 97, 0, 0, 1, 0, 1, 0, 0, 0]

/-- All lookups are for `a.`. -/
def AsksForA : CacheAct → Prop
  | .lookup _ t => t.queryWire = [0, 0, 0, 0, 0] ∧ t.qname = some "a." ∧ t.qtype = some 1 ∧
      t.qclass = some 1
  | _ => True

instance : (a : CacheAct) → Decidable (AsksForA a)
  | .lookup _ t => inferInstanceAs (Decidable (t.queryWire = [0, 0, 0, 0, 0] ∧ t.qname = some "a." ∧
      t.qtype = some 1 ∧ t.qclass = some 1))
  | .fill _ _ _ | .resume _ | .op _ _ | .setInstances _ | .setConfig _ _ | .setAsyncCoalesce _
  | .drop _ _ => .isTrue trivial

theorem AsksForA.parsedLookup {a : CacheAct} (h : AsksForA a) :
    ParsedLookup .octets denialWiring a := by
  cases a with
  | lookup name t =>
    obtain ⟨hwire, hname, hty, hcl⟩ := h
    have htext : NameSyntax.octets.toUtf8 nameA = "a." := by decide
    exact ⟨_, nameA, 1, 1, by rw [hwire]; rfl, by rw [hname, htext], rfl, hty, hcl, by decide,
      by decide⟩
  | _ => trivial

/-- A lookup of `a.` misses, and the forward gets this answer. -/
def denialStored (datagram : Wire) : List CacheAct :=
  CacheAct.lookup "answers" (denialQuery 0 "a.") :: (List.replicate 8 (CacheAct.op 0 {}) ++
    CacheAct.fill 0 .sync { backend := "192.0.2.1:53", udp := some datagram } ::
      List.replicate 10 (CacheAct.op 1 {}))

/-- An NXDOMAIN of `a.` answers `b.a.`. -/
theorem ancestor_denial_sound_sample : ∃ s,
    (cacheWorld denialWiring).Reach
      (CleanDenials .octets RecordOps.octets.recordType denialWiring) s ∧
      s.DeniesAncestorOf .octets RecordOps.octets.recordType denialWiring 0 nameBA
        [0, 0, 128, 0, 0] := by
  obtain ⟨s, hr, hs⟩ := Lts.exists_exec (L := cacheWorld denialWiring)
    (fun s a => AsksForA a ∧ CleanAnswer RecordOps.octets.recordType denialWiring s a)
    (s := negativeInstance) (denialStored [9, 9, 128, 0, 0])
    (·.ancestorHit denialWiring {} (denialQuery 1 "b.a.") 0 = some [0, 0, 128, 0, 0])
    ⟨rfl, fun _ _ => rfl, fun _ => rfl⟩ (by decide +kernel)
  have hclean := hr.mono (D := CleanDenials .octets RecordOps.octets.recordType denialWiring)
    fun s a h => ⟨h.1.parsedLookup, h.2⟩
  have hasks := denialQuery_asksFor 1 "b.a." (n := nameBA) rfl (by decide) rfl
  exact ⟨s, hclean, ancestor_denial_sound NameSyntax.octets_lawful (w := denialWiring) rfl hclean hasks
    (by decide) (CacheWorld.endsWalk_of_ancestorHit hs)⟩

/-- The answer to `a.` is an NXDOMAIN of what it is an alias of, and it is found for `b.a.`. The
NXDOMAIN of `a.` is found for the name of the label `x.a`, which has no ancestor but the root. -/
theorem wrong_denial_found :
    (∃ s, (cacheWorld denialWiring).Reach (fun _ => ParsedLookup .octets denialWiring) s ∧
      s.ancestorHit denialWiring {} (denialQuery 1 "b.a.") 0 = some [0, 0, 128, 0, 1] ∧
      ¬ s.DeniesAncestorOf .octets RecordOps.octets.recordType denialWiring 0 nameBA
        [0, 0, 128, 0, 1]) ∧
    ∃ s, (cacheWorld denialWiring).Reach (fun _ => ParsedLookup .octets denialWiring) s ∧
      NameSyntax.octets.toUtf8 nameDotted = "x\\.a." ∧
      s.store 0 keyOfNameA = some [0, 0, 128, 0, 0] ∧ KeyFor .octets denialWiring nameA keyOfNameA ∧
      s.ancestorHit denialWiring {} (denialQuery 3 "x\\.a.") 0 = some [0, 0, 128, 0, 0] ∧
      ¬ ∃ labels, labels <:+ nameDotted.labels ∧ labels ≠ nameDotted.labels ∧
        nameA.lower.labels = labels.map Label.lower := by
  constructor
  · obtain ⟨s, hr, hs⟩ := Lts.exists_exec (L := cacheWorld denialWiring) (fun _ a => AsksForA a)
      (s := negativeInstance) (denialStored [9, 9, 128, 0, 1])
      (·.ancestorHit denialWiring {} (denialQuery 1 "b.a.") 0 = some [0, 0, 128, 0, 1])
      ⟨rfl, fun _ _ => rfl, fun _ => rfl⟩ (by decide +kernel)
    refine ⟨s, hr.mono fun _ a h => h.parsedLookup, hs, ?_⟩
    rintro ⟨⟨m, hm, -, halias⟩, -⟩
    cases hm
    exact (halias _ (List.mem_singleton_self _)).1 rfl
  · obtain ⟨s, hr, hstore, hfound⟩ := Lts.exists_exec (L := cacheWorld denialWiring)
      (fun _ a => AsksForA a) (s := negativeInstance) (denialStored [9, 9, 128, 0, 0])
      (fun s => s.store 0 keyOfNameA = some [0, 0, 128, 0, 0] ∧
        s.ancestorHit denialWiring {} (denialQuery 3 "x\\.a.") 0 = some [0, 0, 128, 0, 0])
      ⟨rfl, fun _ _ => rfl, fun _ => rfl⟩ (by decide +kernel)
    have hasks := denialQuery_asksFor 0 "a." (n := nameA) rfl (by decide) rfl
    refine ⟨s, hr.mono fun _ a h => h.parsedLookup, by decide, hstore,
      ⟨_, _, 1, 1, .complete, hasks, by decide +kernel⟩, hfound, ?_⟩
    rintro ⟨labels, hsuffix, hne, heq⟩
    -- a proper suffix of one label is empty
    have hlen : labels.length = 1 := by rw [← List.length_map Label.lower, ← heq]; rfl
    exact hne (hsuffix.eq_of_length hlen)

end Conduit
