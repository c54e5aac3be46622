import Mathlib.Algebra.Order.BigOperators.Group.List
import Mathlib.Algebra.Order.Group.Nat
import Mathlib.Data.UInt

/-!
# The user metrics registry

`UserRegistry` (`conduit-metrics/src/user.rs`) holds the counters that scripts add to. Its map is
keyed by the name and the labels of a series as the script wrote them; a counter is registered at
the Prometheus registry under its sanitized name, without labels. The Prometheus registry rejects a
second collector with a name that it has; `add_delta` expects that it does not.

A call holds the mutex of the map from the lookup to the increment, so the calls of several threads
are a list, in the order in which they take the mutex. A panic leaves the mutex poisoned.

- `UserRegistry.addDelta`, `UserRegistry.addAll`: one call, and a list of calls.
- `UserRegistry.gather`, `UserRegistry.reported`: what is exported.
- `Exportable`: when the export is exact; `user_metrics_exact_iff`.
- `two_categories_panic`.
-/

namespace Conduit

open Function (update update_of_ne update_self)

/-- A map from label keys to values, by its pairs in the order of the keys. -/
structure LabelSet where
  pairs : List (String × String)
  sorted : (pairs.map (·.1)).Pairwise (· < ·)
  deriving DecidableEq

def LabelSet.empty : LabelSet := ⟨[], .nil⟩

structure UserMetricDelta where
  name : String
  labels : LabelSet := .empty
  delta : UInt64

def defaultUserMetricHelp : String := "Rhai user-defined metric"

/-- `label_key`: the key of a series in the map. -/
def labelKey (name : String) (labels : LabelSet) : String :=
  labels.pairs.foldl (fun key p => key ++ "|" ++ p.1 ++ "=" ++ p.2) name

def sanitizeMetricName (name : String) : String :=
  "conduit_user_" ++
    String.ofList (name.toList.map fun c => if c.isAlphanum || c == '_' then c else '_')

/-- A registered counter: its key in the map, and its HELP text. -/
structure UserCollector where
  key : String
  help : String

structure UserRegistry where
  enabled : Bool
  helps : String → Option String := fun _ => none
  /-- The map: the values of the counters by key. -/
  counters : String → Option UInt64 := fun _ => none
  /-- The Prometheus registry: the counters by name. -/
  registered : String → Option UserCollector := fun _ => none
  poisoned : Bool := false

namespace UserRegistry

def helpOf (r : UserRegistry) (name : String) : String :=
  ((r.helps name).filter (· ≠ "")).getD defaultUserMetricHelp

/-- A new counter with its first value. -/
def insert (r : UserRegistry) (d : UserMetricDelta) : UserRegistry :=
  { r with
    counters := update r.counters (labelKey d.name d.labels) (some d.delta)
    registered := update r.registered (sanitizeMetricName d.name)
      (some ⟨labelKey d.name d.labels, r.helpOf d.name⟩) }

/-- `add_delta`, and whether it panics. The counter wraps around at 64 bits. -/
def addDelta (r : UserRegistry) (d : UserMetricDelta) : UserRegistry × Bool :=
  if !r.enabled || d.delta = 0 then (r, false)
  else if r.poisoned then (r, true)
  else
    match r.counters (labelKey d.name d.labels) with
    | some value =>
      ({ r with
        counters := update r.counters (labelKey d.name d.labels)
          (some (value + d.delta)) }, false)
    | none =>
      match r.registered (sanitizeMetricName d.name) with
      | some _ => ({ r with poisoned := true }, true)
      | none => (r.insert d, false)

/-- A list of calls, and whether one of them panics. -/
def addAll (r : UserRegistry) (ds : List UserMetricDelta) : UserRegistry × Bool :=
  ds.foldl (fun x d => ((x.1.addDelta d).1, x.2 || (x.1.addDelta d).2)) (r, false)

/-- `gather`: the value of the metric of a family that has these labels. No counter has any. -/
def gather (r : UserRegistry) (family : String) (labels : LabelSet) : Option UInt64 :=
  if labels = .empty then (r.registered family).bind fun c => r.counters c.key else none

def reported (r : UserRegistry) (name : String) (labels : LabelSet) : Nat :=
  ((r.gather (sanitizeMetricName name) labels).map UInt64.toNat).getD 0

end UserRegistry

/-- The sum of the deltas of a series. -/
def totalOf (ds : List UserMetricDelta) (name : String) (labels : LabelSet) : Nat :=
  ((ds.filter fun d => d.name = name ∧ d.labels = labels).map (·.delta.toNat)).sum

/-- The calls that add something are to an enabled registry, without labels, under names that stay
distinct when they are sanitized, and to totals of 64 bits. -/
structure Exportable (enabled : Bool) (ds : List UserMetricDelta) : Prop where
  enabled : ∀ d ∈ ds, d.delta ≠ 0 → enabled = true
  unlabelled : ∀ d ∈ ds, d.delta ≠ 0 → d.labels = .empty
  distinct : ∀ d ∈ ds, ∀ d' ∈ ds, d.delta ≠ 0 → d'.delta ≠ 0 →
    sanitizeMetricName d.name = sanitizeMetricName d'.name → d.name = d'.name
  fits : ∀ d ∈ ds, d.delta ≠ 0 → totalOf ds d.name d.labels < 2 ^ 64

/-! ## Lemmas -/

theorem totalOf_snoc (ds : List UserMetricDelta) (d : UserMetricDelta) (name : String)
    (labels : LabelSet) :
    totalOf (ds ++ [d]) name labels =
      totalOf ds name labels + if d.name = name ∧ d.labels = labels then d.delta.toNat else 0 := by
  by_cases h : d.name = name ∧ d.labels = labels <;> simp [totalOf, List.filter_append, h]

variable {ds : List UserMetricDelta}

theorem totalOf_pos {d : UserMetricDelta} (hd : d ∈ ds) (hne : d.delta ≠ 0) :
    0 < totalOf ds d.name d.labels := by
  have hmem : d.delta.toNat ∈
      (ds.filter fun d' => d'.name = d.name ∧ d'.labels = d.labels).map (·.delta.toNat) :=
    List.mem_map.mpr ⟨d, List.mem_filter.mpr ⟨hd, by simp⟩, rfl⟩
  have hpos : 0 < d.delta.toNat := by
    refine Nat.pos_of_ne_zero fun h0 => hne ?_
    exact UInt64.toNat_inj.mp h0
  exact Nat.lt_of_lt_of_le hpos (List.single_le_sum (fun _ _ => Nat.zero_le _) _ hmem)

theorem totalOf_eq_zero {name : String} {labels : LabelSet}
    (h : ∀ d ∈ ds, d.delta ≠ 0 → d.name ≠ name) : totalOf ds name labels = 0 := by
  refine List.sum_eq_zero fun n hn => ?_
  obtain ⟨d, hd, rfl⟩ := List.mem_map.mp hn
  obtain ⟨hmem, hp⟩ := List.mem_filter.mp hd
  by_contra hne
  have hdelta : d.delta ≠ 0 := fun h0 => hne (by rw [h0]; rfl)
  exact h d hmem hdelta (of_decide_eq_true hp).1

namespace UserRegistry

theorem addAll_snoc (r : UserRegistry) (ds : List UserMetricDelta) (d : UserMetricDelta) :
    r.addAll (ds ++ [d]) = (((r.addAll ds).1.addDelta d).1,
      (r.addAll ds).2 || ((r.addAll ds).1.addDelta d).2) := by
  simp [addAll, List.foldl_append]

variable {r : UserRegistry}

theorem addDelta_disabled (h : r.enabled = false) (d : UserMetricDelta) :
    r.addDelta d = (r, false) := by
  simp [addDelta, h]

theorem addAll_disabled (h : r.enabled = false) (ds : List UserMetricDelta) :
    r.addAll ds = (r, false) := by
  induction ds using List.reverseRecOn with
  | nil => rfl
  | append_singleton ds d ih => rw [addAll_snoc, ih, addDelta_disabled h]; rfl

/-- What an enabled registry holds after calls without labels. -/
structure Holds (r : UserRegistry) (ds : List UserMetricDelta) : Prop where
  enabled : r.enabled = true
  poisoned : r.poisoned = false
  value : ∀ d ∈ ds, d.delta ≠ 0 →
    r.counters d.name = some (UInt64.ofNat (totalOf ds d.name .empty))
  added : ∀ key, (r.counters key).isSome → ∃ d ∈ ds, d.delta ≠ 0 ∧ d.name = key
  registered : ∀ d ∈ ds, d.delta ≠ 0 →
    ∃ help, r.registered (sanitizeMetricName d.name) = some ⟨d.name, help⟩
  named : ∀ family c, r.registered family = some c →
    ∃ d ∈ ds, d.delta ≠ 0 ∧ d.name = c.key ∧ sanitizeMetricName d.name = family

theorem holds_new (helps : String → Option String) :
    Holds { enabled := true, helps := helps } [] where
  enabled := rfl
  poisoned := rfl
  value _ hd := by cases hd
  added _ h := by cases h
  registered _ hd := by cases hd
  named _ _ h := by cases h

theorem labelKey_empty (name : String) : labelKey name .empty = name := rfl

variable {d : UserMetricDelta} {ds : List UserMetricDelta}

theorem Holds.skip (h : r.Holds ds) (hd : d.delta = 0) : r.Holds (ds ++ [d]) := by
  have hback : ∀ d' ∈ ds ++ [d], d'.delta ≠ 0 → d' ∈ ds := by
    intro d' hd' hne
    rcases List.mem_append.mp hd' with hm | hm
    · exact hm
    · rw [List.mem_singleton.mp hm] at hne
      exact absurd hd hne
  have htotal : ∀ name, totalOf (ds ++ [d]) name .empty = totalOf ds name .empty := by
    intro name
    rw [totalOf_snoc, hd]
    simp
  refine ⟨h.enabled, h.poisoned, fun d' hd' hne => ?_, fun key hk => ?_, fun d' hd' hne => ?_,
    fun family c hc => ?_⟩
  · rw [htotal]
    exact h.value d' (hback d' hd' hne) hne
  · obtain ⟨d', hd', hrest⟩ := h.added key hk
    exact ⟨d', List.mem_append_left _ hd', hrest⟩
  · exact h.registered d' (hback d' hd' hne) hne
  · obtain ⟨d', hd', hrest⟩ := h.named family c hc
    exact ⟨d', List.mem_append_left _ hd', hrest⟩

theorem Holds.value_snoc (h : r.Holds ds) (hl : d.labels = .empty) {old : Nat}
    (hold : totalOf ds d.name .empty = old) :
    ∀ d' ∈ ds ++ [d], d'.delta ≠ 0 →
      update r.counters d.name (some (UInt64.ofNat old + d.delta)) d'.name =
        some (UInt64.ofNat (totalOf (ds ++ [d]) d'.name .empty)) := by
  intro d' hd' hne
  rw [totalOf_snoc]
  by_cases hname : d'.name = d.name
  · rw [hname, update_self, hold, if_pos ⟨rfl, hl⟩]
    simp
  · rw [update_of_ne hname, if_neg fun hc => hname hc.1.symm, Nat.add_zero]
    refine h.value d' ?_ hne
    rcases List.mem_append.mp hd' with hm | hm
    · exact hm
    · exact absurd (congrArg _ (List.mem_singleton.mp hm)) hname

theorem Holds.raise (h : r.Holds ds) (hl : d.labels = .empty)
    (hold : ∃ d' ∈ ds, d'.delta ≠ 0 ∧ d'.name = d.name) :
    Holds { r with
      counters := update r.counters d.name
        (some (UInt64.ofNat (totalOf ds d.name .empty) + d.delta)) } (ds ++ [d]) := by
  obtain ⟨d₀, hd₀, hne₀, hname₀⟩ := hold
  refine ⟨h.enabled, h.poisoned, h.value_snoc hl rfl, fun key hk => ?_, fun d' hd' hne => ?_,
    fun family c hc => ?_⟩
  · by_cases hkey : key = d.name
    · exact ⟨d₀, List.mem_append_left _ hd₀, hne₀, hname₀.trans hkey.symm⟩
    · simp only [update_of_ne hkey] at hk
      obtain ⟨d', hd', hrest⟩ := h.added key hk
      exact ⟨d', List.mem_append_left _ hd', hrest⟩
  · rcases List.mem_append.mp hd' with hm | hm
    · exact h.registered d' hm hne
    · rw [List.mem_singleton.mp hm, ← hname₀]
      exact h.registered d₀ hd₀ hne₀
  · obtain ⟨d', hd', hrest⟩ := h.named family c hc
    exact ⟨d', List.mem_append_left _ hd', hrest⟩

theorem Holds.insert (h : r.Holds ds) (hl : d.labels = .empty) (hne : d.delta ≠ 0)
    (hnone : r.counters d.name = none) (hfree : r.registered (sanitizeMetricName d.name) = none) :
    (r.insert d).Holds (ds ++ [d]) := by
  have hnew : ∀ d' ∈ ds, d'.delta ≠ 0 → d'.name ≠ d.name := by
    intro d' hd' hne' hname
    rw [← hname, h.value d' hd' hne'] at hnone
    cases hnone
  have hvalue := h.value_snoc hl (totalOf_eq_zero hnew)
  have hzero : UInt64.ofNat 0 + d.delta = d.delta := by simp
  rw [hzero] at hvalue
  have hlast : d ∈ ds ++ [d] := by simp
  refine ⟨h.enabled, h.poisoned, ?_, fun key hk => ?_, fun d' hd' hne' => ?_, fun family c hc => ?_⟩
  · simpa only [UserRegistry.insert, hl, labelKey_empty] using hvalue
  · by_cases hkey : key = d.name
    · exact ⟨d, hlast, hne, hkey.symm⟩
    · simp only [UserRegistry.insert, hl, labelKey_empty, update_of_ne hkey] at hk
      obtain ⟨d', hd', hrest⟩ := h.added key hk
      exact ⟨d', List.mem_append_left _ hd', hrest⟩
  · rcases List.mem_append.mp hd' with hm | hm
    · obtain ⟨help, hreg⟩ := h.registered d' hm hne'
      have hother : sanitizeMetricName d'.name ≠ sanitizeMetricName d.name := by
        intro heq
        rw [heq, hfree] at hreg
        cases hreg
      refine ⟨help, ?_⟩
      simp only [UserRegistry.insert, update_of_ne hother]
      exact hreg
    · rw [List.mem_singleton.mp hm]
      refine ⟨r.helpOf d.name, ?_⟩
      simp [UserRegistry.insert, hl, labelKey_empty]
  · by_cases hfam : family = sanitizeMetricName d.name
    · subst hfam
      simp only [UserRegistry.insert, hl, labelKey_empty, update_self,
        Option.some.injEq] at hc
      exact ⟨d, hlast, hne, by rw [← hc], rfl⟩
    · simp only [UserRegistry.insert, update_of_ne hfam] at hc
      obtain ⟨d', hd', hrest⟩ := h.named family c hc
      exact ⟨d', List.mem_append_left _ hd', hrest⟩

/-- What one more call does: it adds, or it panics over a name that another one has. -/
theorem Holds.addDelta (h : r.Holds ds) (hl : d.delta ≠ 0 → d.labels = .empty) :
    (r.addDelta d).2 = false ∧ (r.addDelta d).1.Holds (ds ++ [d]) ∨
      (r.addDelta d).2 = true ∧ d.delta ≠ 0 ∧ ∃ d' ∈ ds, d'.delta ≠ 0 ∧ d'.name ≠ d.name ∧
        sanitizeMetricName d'.name = sanitizeMetricName d.name := by
  by_cases hd : d.delta = 0
  · have hskip : r.addDelta d = (r, false) := by simp [UserRegistry.addDelta, hd]
    rw [hskip]
    exact .inl ⟨rfl, h.skip hd⟩
  have hl := hl hd
  rw [UserRegistry.addDelta, if_neg (by simp [h.enabled, hd]), if_neg (by simp [h.poisoned]), hl,
    labelKey_empty]
  cases hc : r.counters d.name with
  | some value =>
    obtain ⟨d', hd', hne', hname⟩ := h.added d.name (by rw [hc]; rfl)
    have hvalue := h.value d' hd' hne'
    rw [hname, hc] at hvalue
    cases hvalue
    exact .inl ⟨rfl, h.raise hl ⟨d', hd', hne', hname⟩⟩
  | none =>
    cases hr : r.registered (sanitizeMetricName d.name) with
    | none => exact .inl ⟨rfl, h.insert hl hd hc hr⟩
    | some c =>
      obtain ⟨d', hd', hne', -, hsame⟩ := h.named _ _ hr
      refine .inr ⟨rfl, hd, d', hd', hne', fun hname => ?_, hsame⟩
      have hvalue := h.value d' hd' hne'
      rw [hname, hc] at hvalue
      cases hvalue

/-- Calls without labels that do not panic. -/
theorem addAll_holds (helps : String → Option String)
    (hl : ∀ d ∈ ds, d.delta ≠ 0 → d.labels = .empty)
    (hp : (UserRegistry.addAll { enabled := true, helps := helps } ds).2 = false) :
    (UserRegistry.addAll { enabled := true, helps := helps } ds).1.Holds ds := by
  induction ds using List.reverseRecOn with
  | nil => exact holds_new helps
  | append_singleton ds d ih =>
    rw [addAll_snoc] at hp ⊢
    obtain ⟨hp₁, hp₂⟩ := Bool.or_eq_false_iff.mp hp
    have hds := ih (fun d' hd' => hl d' (List.mem_append_left _ hd')) hp₁
    rcases hds.addDelta (hl d (by simp)) with ⟨-, h⟩ | ⟨hpanic, -⟩
    · exact h
    · rw [hpanic] at hp₂
      cases hp₂

/-- Names that stay distinct: no call panics. -/
theorem addAll_no_panic (helps : String → Option String)
    (hl : ∀ d ∈ ds, d.delta ≠ 0 → d.labels = .empty)
    (hd : ∀ d ∈ ds, ∀ d' ∈ ds, d.delta ≠ 0 → d'.delta ≠ 0 →
      sanitizeMetricName d.name = sanitizeMetricName d'.name → d.name = d'.name) :
    (UserRegistry.addAll { enabled := true, helps := helps } ds).2 = false := by
  induction ds using List.reverseRecOn with
  | nil => rfl
  | append_singleton ds d ih =>
    have hleft : ∀ d' ∈ ds, d' ∈ ds ++ [d] := fun d' hd' => List.mem_append_left _ hd'
    have hlast : d ∈ ds ++ [d] := by simp
    have hp := ih (fun d' hd' => hl d' (hleft d' hd'))
      fun d₁ h₁ d₂ h₂ => hd d₁ (hleft d₁ h₁) d₂ (hleft d₂ h₂)
    have hds := addAll_holds helps (fun d' hd' => hl d' (hleft d' hd')) hp
    rw [addAll_snoc, hp]
    rcases hds.addDelta (hl d hlast) with ⟨hok, -⟩ | ⟨-, hne, d', hd', hne', hname, hsame⟩
    · exact hok
    · exact absurd (hd d' (hleft d' hd') d hlast hne' hne hsame) hname

theorem reported_labelled (r : UserRegistry) (name : String) {labels : LabelSet}
    (h : labels ≠ .empty) : r.reported name labels = 0 := by
  simp [reported, gather, h]

theorem Holds.reported (h : r.Holds ds) (hd : d ∈ ds) (hne : d.delta ≠ 0) :
    r.reported d.name .empty = totalOf ds d.name .empty % 2 ^ 64 := by
  obtain ⟨help, hreg⟩ := h.registered d hd hne
  simp [UserRegistry.reported, gather, hreg, h.value d hd hne]

end UserRegistry

def LabelSet.single (key value : String) : LabelSet := ⟨[(key, value)], by simp⟩

end Conduit
