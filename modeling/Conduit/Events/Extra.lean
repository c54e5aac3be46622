import Mathlib.Data.List.Nodup
import Mathlib.Data.List.Perm.Basic
import Conduit.Lib.Table

/-!
# Event sinks

The compiled event sinks (`conduit-events/src/compile.rs`), what they read of a transaction
(`view.rs`), their filters (`filters.rs`) and the JSON text of their extra fields (`extra.rs`).

The selectors of a filter and its sampling are functions of the view and its tags; the settings of
the connection to a collector are left out.

- `CompiledSinkInstance`, `CompiledEvents`: the sinks of a snapshot, with distinct names.
- `emitAllowed`, `sinkEventMatches`: whether a sink wants an event.
- `buildExtraJson`: the extra fields of an event.
- `tags_restricted_iff`: when a list of keys exports a part of all the tags.
-/

namespace Conduit

inductive EventKind where
  | query | response | retry
  deriving DecidableEq, Repr

/-- Metadata for the extra fields. -/
structure TxnExtraSource where
  pool : Option String := none
  backend : Option String := none
  attemptCount : Nat := 0
  txnId : Nat := 0
  qname : Option String := none
  rcodeLabel : Option String := none
  client : String := ""
  answerSource : Option String := none
  cacheInstance : Option String := none
  tagBools : List (String × Bool) := []
  tagStrings : List (String × String) := []
  deriving DecidableEq, Repr

structure TxnView where
  txnId : Nat
  globalQueryIndex : Nat := 0
  clientAddr : String := ""
  protocolUdp : Bool := true
  qname : Option String := none
  qtype : Option Nat := none
  rcode : Option Nat := none
  qclass : Option Nat := none
  opcode : Option Nat := none
  ednsOptionCodes : List Nat := []
  queryWire : List UInt8 := []
  responseWire : Option (List UInt8) := none
  attemptCount : Nat := 1
  answerSource : Option String := none
  cacheInstance : Option String := none
  extra : TxnExtraSource := {}

/-! ## Sinks -/

inductive ExtraField where
  | pool | backend | attemptCount | txnId | qname | rcode | answerSource | cacheInstance | tags
  | client | sinkName
  deriving DecidableEq, Repr

inductive TagExportMode where
  | all
  | keys (keys : List String)
  deriving DecidableEq, Repr

structure CompiledSinkFilters where
  selectors : List (TxnView → (String → Bool) → Bool) := []
  tagRequired : Option String := none
  /-- `hash_sample_keyed` with the percentage and the key of the sink. -/
  sampled : TxnView → Bool := fun _ => true
  pool : Option String := none
  backend : Option String := none

structure CompiledSinkInstance where
  name : String
  emitQuery : Bool := true
  emitResponse : Bool := true
  emitRetry : Bool := false
  filters : CompiledSinkFilters := {}
  extraFields : List ExtraField := []
  tagExport : TagExportMode := .keys []

inductive DropPolicy where
  | dropOldest | dropNewest
  deriving DecidableEq, Repr

/-- The sinks of a snapshot. Validation rejects two sinks of one name. -/
structure CompiledEvents where
  sinks : List CompiledSinkInstance
  queueDepth : Nat := 8192
  dropPolicy : DropPolicy := .dropOldest
  distinct : (sinks.map (·.name)).Nodup

def CompiledEvents.enabled (c : CompiledEvents) : Bool := !c.sinks.isEmpty

def CompiledEvents.sinkByName (c : CompiledEvents) (name : String) : Option CompiledSinkInstance :=
  c.sinks.find? (·.name == name)

/-! ## Filters -/

def emitAllowed (sink : CompiledSinkInstance) : EventKind → Bool
  | .query => sink.emitQuery
  | .response => sink.emitResponse
  | .retry => sink.emitRetry

def sinkEventMatches (filters : CompiledSinkFilters) (kind : EventKind) (view : TxnView)
    (tagHas : String → Bool) : Bool :=
  filters.tagRequired.all tagHas &&
  filters.selectors.all (fun s => s view tagHas) &&
  -- a query has no pool or backend yet
  (kind == .query ||
    filters.pool.all (fun p => view.extra.pool == some p) &&
    filters.backend.all (fun b => view.extra.backend == some b)) &&
  filters.sampled view

/-! ## Extra fields -/

/-- The four hexadecimal digits of a control character. -/
def hex4 (n : Nat) : String :=
  String.ofList [Nat.digitChar (n / 4096 % 16), Nat.digitChar (n / 256 % 16),
    Nat.digitChar (n / 16 % 16), Nat.digitChar (n % 16)]

def isControl (c : Char) : Bool := c.toNat < 0x20 || (0x7f ≤ c.toNat && c.toNat < 0xa0)

def jsonEscapeChar (c : Char) : String :=
  if c = '"' then "\\\""
  else if c = '\\' then "\\\\"
  else if c = '\n' then "\\n"
  else if c = '\r' then "\\r"
  else if c = '\t' then "\\t"
  else if isControl c then "\\u" ++ hex4 c.toNat
  else c.toString

def jsonEscape (s : String) : String := String.join (s.toList.map jsonEscapeChar)

def jsonString (s : String) : String := "\"" ++ jsonEscape s ++ "\""

/-- `append_field` over the fields of an object, between braces. -/
def jsonObject (fields : List (String × String)) : String :=
  "\x7b" ++ String.intercalate "," (fields.map fun f => jsonString f.1 ++ ":" ++ f.2) ++ "\x7d"

/-- `build_tags_json`: no object without a tag. -/
def buildTagsJson (source : TxnExtraSource) (mode : TagExportMode) : Option String :=
  let fields := match mode with
    | .all =>
      (source.tagBools.filter (·.2)).map (fun t => (t.1, "true")) ++
        source.tagStrings.map fun t => (t.1, jsonString t.2)
    | .keys keys => keys.filterMap fun key =>
      match source.tagBools.find? (·.1 == key) with
      | some t => if t.2 then some (key, "true") else none
      | none => (source.tagStrings.find? (·.1 == key)).map fun t => (key, jsonString t.2)
  if fields.isEmpty then none else some (jsonObject fields)

/-- A field of the object, if the transaction has it. -/
def extraField (sink : CompiledSinkInstance) (source : TxnExtraSource) :
    ExtraField → Option (String × String)
  | .pool => source.pool.map fun v => ("pool", jsonString v)
  | .backend => source.backend.map fun v => ("backend", jsonString v)
  | .attemptCount => some ("attempt_count", toString source.attemptCount)
  | .txnId => some ("txn_id", toString source.txnId)
  | .qname => source.qname.map fun v => ("qname", jsonString v)
  | .rcode => source.rcodeLabel.map fun v => ("rcode", jsonString v)
  | .answerSource => source.answerSource.map fun v => ("answer_source", jsonString v)
  | .cacheInstance => source.cacheInstance.map fun v => ("cache_instance", jsonString v)
  | .client => some ("client", jsonString source.client)
  | .tags => (buildTagsJson source sink.tagExport).map fun v => ("tags", v)
  | .sinkName => some ("sink_name", jsonString sink.name)

def buildExtraJson (sink : CompiledSinkInstance) (source : TxnExtraSource) : Option String :=
  if sink.extraFields.isEmpty then none
  else some (jsonObject (sink.extraFields.filterMap (extraField sink source)))

/-! ## The tags of an event -/

/-- The member of a listed key: its boolean hides its string. -/
def keyMember (source : TxnExtraSource) (key : String) : Option (String × String) :=
  match source.tagBools.find? (·.1 == key) with
  | some t => if t.2 then some (key, "true") else none
  | none => (source.tagStrings.find? (·.1 == key)).map fun t => (key, jsonString t.2)

/-- The members that `build_tags_json` writes. -/
def tagMembers (source : TxnExtraSource) : TagExportMode → List (String × String)
  | .all =>
    (source.tagBools.filter (·.2)).map (fun t => (t.1, "true")) ++
      source.tagStrings.map fun t => (t.1, jsonString t.2)
  | .keys keys => keys.filterMap (keyMember source)

section Tags

variable {source : TxnExtraSource} {keys : List String} {k v : String}

theorem mem_tagMembers_all : (k, v) ∈ tagMembers source .all ↔
    ((k, true) ∈ source.tagBools ∧ v = "true") ∨
      ∃ s, (k, s) ∈ source.tagStrings ∧ v = jsonString s := by
  simp only [tagMembers, List.mem_append, List.mem_map, List.mem_filter, Prod.mk.injEq]
  refine or_congr ⟨?_, fun h => ⟨(k, true), ⟨h.1, rfl⟩, rfl, h.2.symm⟩⟩
    ⟨?_, fun ⟨s, h, hv⟩ => ⟨(k, s), h, rfl, hv.symm⟩⟩
  · rintro ⟨⟨k', b⟩, ⟨hm, rfl⟩, rfl, rfl⟩
    exact ⟨hm, rfl⟩
  · rintro ⟨⟨k', s⟩, hm, rfl, rfl⟩
    exact ⟨s, hm, rfl⟩

theorem keyMember_fst {m : String × String} (h : keyMember source k = some m) : m.1 = k := by
  unfold keyMember at h
  split at h
  · split at h <;> cases h
    rfl
  · obtain ⟨t, -, rfl⟩ := Option.map_eq_some_iff.mp h
    rfl

theorem nodup_tagMembers_keys (hk : keys.Nodup) :
    ((tagMembers source (.keys keys)).map (·.1)).Nodup := by
  rw [tagMembers, List.map_filterMap]
  refine hk.filterMap ?_
  intro k k' v hv hv'
  obtain ⟨m, hm, rfl⟩ := Option.map_eq_some_iff.mp hv
  obtain ⟨m', hm', heq⟩ := Option.map_eq_some_iff.mp hv'
  rw [← keyMember_fst hm, ← keyMember_fst hm', heq]

variable (hb : (source.tagBools.map (·.1)).Nodup) (hs : (source.tagStrings.map (·.1)).Nodup)
include hb hs

theorem mem_tagMembers_keys : (k, v) ∈ tagMembers source (.keys keys) ↔
    k ∈ keys ∧ (((k, true) ∈ source.tagBools ∧ v = "true") ∨
      (∀ b, (k, b) ∉ source.tagBools) ∧ ∃ s, (k, s) ∈ source.tagStrings ∧ v = jsonString s) := by
  have hmem : (k, v) ∈ tagMembers source (.keys keys) ↔
      k ∈ keys ∧ keyMember source k = some (k, v) := by
    rw [tagMembers, List.mem_filterMap]
    refine ⟨?_, fun h => ⟨k, h⟩⟩
    rintro ⟨key, hkey, hm⟩
    obtain rfl := keyMember_fst hm
    exact ⟨hkey, hm⟩
  rw [hmem, keyMember]
  refine and_congr_right fun _ => ?_
  have hbool : ∀ t, source.tagBools.find? (·.1 == k) = some t ↔ _ := fun _ => Table.find?_iff_mem hb
  have hstring : ∀ t, source.tagStrings.find? (·.1 == k) = some t ↔ _ :=
    fun _ => Table.find?_iff_mem hs
  cases hfind : source.tagBools.find? (·.1 == k) with
  | some t =>
    have := (hbool t).mp hfind
    grind
  | none =>
    have : ∀ b, (k, b) ∉ source.tagBools := fun b hm => by
      have := (hbool (k, b)).mpr ⟨hm, rfl⟩
      grind
    simp [this, hstring]
    grind

omit hs in
/-- No key is exported twice, as long as a key with a true boolean has no string. -/
theorem nodup_tagMembers_all (hs : (source.tagStrings.map (·.1)).Nodup) :
    ((tagMembers source .all).map (·.1)).Nodup ↔
      ∀ k s, (k, true) ∈ source.tagBools → (k, s) ∉ source.tagStrings := by
  have htrue : ((source.tagBools.filter (·.2)).map (·.1)).Nodup :=
    hb.sublist (List.filter_sublist.map _)
  simp only [tagMembers, List.map_append, List.map_map, List.nodup_append]
  refine ⟨fun h k s hk hks => ?_, fun h => ⟨htrue, hs, ?_⟩⟩
  · exact h.2.2 k (List.mem_map.mpr ⟨(k, true), List.mem_filter.mpr ⟨hk, rfl⟩, rfl⟩) k
      (List.mem_map.mpr ⟨(k, s), hks, rfl⟩) rfl
  · intro a ha b hbm heq
    obtain ⟨⟨k, b⟩, hm, rfl⟩ := List.mem_map.mp ha
    obtain ⟨⟨k', s⟩, hm', rfl⟩ := List.mem_map.mp hbm
    obtain ⟨hmem, rfl⟩ := List.mem_filter.mp hm
    obtain rfl : k = k' := heq
    exact h k s hmem hm'

/-- The keys exported are a restriction of all the tags, without a key twice, exactly if no key
with a true boolean has a string, and no listed key with a false one does. -/
theorem tags_restricted_iff (hk : keys.Nodup) :
    (∀ mode, buildTagsJson source mode = if (tagMembers source mode).isEmpty then none
      else some (jsonObject (tagMembers source mode))) ∧
    (((tagMembers source (.keys keys)).Perm
        ((tagMembers source .all).filter (·.1 ∈ keys)) ∧
      ((tagMembers source .all).map (·.1)).Nodup ∧
      ((tagMembers source (.keys keys)).map (·.1)).Nodup) ↔
    (∀ k s, (k, true) ∈ source.tagBools → (k, s) ∉ source.tagStrings) ∧
      ∀ k ∈ keys, ∀ s, (k, false) ∈ source.tagBools → (k, s) ∉ source.tagStrings) := by
  refine ⟨fun mode => by cases mode <;> rfl, ?_⟩
  have hkeys : ((tagMembers source (.keys keys)).map (·.1)).Nodup := nodup_tagMembers_keys hk
  rw [nodup_tagMembers_all hb hs, and_comm, and_iff_left hkeys]
  refine and_congr_right fun htrue => ?_
  have hall := (nodup_tagMembers_all hb hs).mpr htrue
  rw [List.perm_ext_iff_of_nodup hkeys.of_map (hall.of_map.filter _)]
  constructor
  · -- a hidden string is a member of all the tags only
    intro h k hkey s hfalse hks
    have hm : (k, jsonString s) ∈ tagMembers source .all :=
      mem_tagMembers_all.mpr (.inr ⟨s, hks, rfl⟩)
    have hm' := (h _).mpr (List.mem_filter.mpr ⟨hm, by simpa using hkey⟩)
    obtain ⟨-, ⟨ht, -⟩ | ⟨hnone, -⟩⟩ := (mem_tagMembers_keys hb hs).mp hm'
    · exact htrue k s ht hks
    · exact hnone false hfalse
  · rintro h ⟨k, v⟩
    rw [mem_tagMembers_keys hb hs, List.mem_filter, mem_tagMembers_all, Bool.forall_bool]
    grind

end Tags

/-- The key `a` has a boolean, which is `b`, and a string. -/
def twiceTagged (b : Bool) : TxnExtraSource :=
  { tagBools := [("a", b)], tagStrings := [("a", "x"), ("c", "y")] }

theorem tags_restricted_iff_false : (tagMembers (twiceTagged false) (.keys ["c"])).Perm
    ((tagMembers (twiceTagged false) .all).filter (·.1 ∈ ["c"])) :=
  ((tags_restricted_iff (by decide) (by decide) (by decide)).2.mpr (by simp [twiceTagged])).1

theorem tags_not_restricted :
    ¬ (tagMembers (twiceTagged false) (.keys ["a"])).Perm
        ((tagMembers (twiceTagged false) .all).filter (·.1 ∈ ["a"])) ∧
      ¬ ((tagMembers (twiceTagged true) .all).map (·.1)).Nodup := by
  decide +kernel

theorem CompiledEvents.sinkByName_of_mem {c : CompiledEvents} {i : CompiledSinkInstance}
    (h : i ∈ c.sinks) : c.sinkByName i.name = some i :=
  (Table.find?_iff_mem c.distinct).mpr ⟨h, rfl⟩

end Conduit
