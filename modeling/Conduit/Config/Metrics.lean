import Conduit.Lib.Overlay
import Conduit.Config.Synthesize

/-!
# The algebra of the metrics merge

Field by field the metrics merge is associative, a message laid over itself is the message, and an
unset message laid over another one leaves it (`MergeLaws`). The user metrics are a keyed list and
need a condition (`mergeUserMetrics_assoc`).

- `mergeMetrics_assoc`: laying two patches over the metrics.
- `mergeMetrics_delta`: the delta of the synthesis is enough to get the desired metrics back.
-/

namespace Conduit.Config

open Keyed

/-- The laws of laying one message over another, with the message that sets nothing. -/
structure MergeLaws {S : Type} (merge : S → S → S) (unset : S) : Prop where
  assoc : ∀ a b c, merge (merge a b) c = merge a (merge b c)
  idem : ∀ a, merge a a = a
  right_unset : ∀ a, merge a unset = a

theorem stringLaws : MergeLaws (fun base overlay => stringOr overlay base) "" := by
  constructor
  · intro a b c
    by_cases hc : c = "" <;> simp [stringOr, hc]
  · intro a
    simp [stringOr]
  · intro a
    rfl

variable {S : Type}

theorem optionLaws : MergeLaws (fun base overlay : Option S => overlay.or base) none where
  assoc _ _ _ := Option.or_assoc.symm
  idem _ := Option.or_self
  right_unset _ := rfl

theorem mapLaws {V : Type} : MergeLaws (fun base overlay : StrMap V => base ∪ overlay) ∅ := by
  constructor
  · intro a b c
    refine Std.ExtTreeMap.ext_getElem? fun k => ?_
    simp only [Std.ExtTreeMap.getElem?_union, Option.or_assoc]
  · intro a
    refine Std.ExtTreeMap.ext_getElem? fun k => ?_
    simp only [Std.ExtTreeMap.getElem?_union, Option.or_self]
  · intro a
    refine Std.ExtTreeMap.ext_getElem? fun k => ?_
    simp only [Std.ExtTreeMap.getElem?_union, Std.ExtTreeMap.getElem?_empty, Option.none_or]

theorem natLaws : MergeLaws (fun base overlay : Nat => if overlay = 0 then base else overlay) 0 := by
  constructor
  · intro a b c
    by_cases hc : c = 0 <;> simp [hc]
  · intro a
    simp
  · intro a
    simp

theorem collectEmitLaws : MergeLaws mergeCollectEmit {} := by
  constructor
  · intro a b c
    simp [mergeCollectEmit, Option.or_assoc]
  · intro a
    simp [mergeCollectEmit]
  · intro a
    simp [mergeCollectEmit]

theorem granularityLaws : MergeLaws mergeGranularity {} := by
  constructor
  · intro a b c
    simp only [mergeGranularity, MetricsGranularity.mk.injEq]
    exact ⟨stringLaws.assoc _ _ _, mapLaws.assoc _ _ _⟩
  · intro a
    simp only [mergeGranularity, stringLaws.idem, mapLaws.idem]
  · intro a
    simp only [mergeGranularity, stringLaws.right_unset, mapLaws.right_unset]

theorem categoriesLaws : MergeLaws mergeCategories {} := by
  constructor
  · intro a b c
    cases hi : c.includeSet <;> cases he : c.excludeSet <;> simp [mergeCategories, hi, he]
  · intro a
    simp [mergeCategories]
  · intro a
    simp [mergeCategories]

theorem prometheusLaws : MergeLaws mergePrometheus {} := by
  constructor
  · intro a b c
    simp only [mergePrometheus, PrometheusMetricsConfig.mk.injEq]
    exact ⟨stringLaws.assoc _ _ _, stringLaws.assoc _ _ _⟩
  · intro a
    simp only [mergePrometheus, stringLaws.idem]
  · intro a
    simp only [mergePrometheus, stringLaws.right_unset]

theorem otelLaws : MergeLaws mergeOtel {} := by
  constructor
  · intro a b c
    simp only [mergeOtel, OtelMetricsConfig.mk.injEq]
    exact ⟨stringLaws.assoc _ _ _, natLaws.assoc _ _ _, mapLaws.assoc _ _ _,
      optionLaws.assoc _ _ _, mapLaws.assoc _ _ _⟩
  · intro a
    simp only [mergeOtel, stringLaws.idem, natLaws.idem, mapLaws.idem, optionLaws.idem]
  · intro a
    simp only [mergeOtel, stringLaws.right_unset, mapLaws.right_unset, optionLaws.right_unset,
      if_true]

variable {unset : S} {merge : S → S → S}

/-- The laws of a sub-message give those of the optional sub-message. -/
theorem sectionLaws (h : MergeLaws merge unset) :
    MergeLaws (mergeSection merge unset) none := by
  constructor
  · intro a b c
    cases c with
    | none => rfl
    | some c =>
      cases b with
      | none => simp only [mergeSection, Option.getD_none, ← h.assoc, h.right_unset]
      | some b => simp only [mergeSection, Option.getD_some, h.assoc]
  · intro a
    cases a with
    | none => rfl
    | some a => simp only [mergeSection, Option.getD_some, h.idem]
  · intro a
    rfl

theorem getElem_mergeCollection (base overlay : StrMap MetricsCollectEmit) (k : String) :
    (mergeCollection base overlay)[k]? = mergeSection mergeCollectEmit {} base[k]? overlay[k]? := by
  simp only [mergeCollection, Std.ExtTreeMap.getElem?_union, Std.ExtTreeMap.getElem?_map]
  cases overlay[k]? with
  | none => rfl
  | some o =>
    cases base[k]? with
    | none => simp [mergeSection, mergeCollectEmit]
    | some b => rfl

theorem collectionLaws : MergeLaws mergeCollection ∅ := by
  constructor
  · intro a b c
    refine Std.ExtTreeMap.ext_getElem? fun k => ?_
    simp only [getElem_mergeCollection, (sectionLaws collectEmitLaws).assoc]
  · intro a
    refine Std.ExtTreeMap.ext_getElem? fun k => ?_
    simp only [getElem_mergeCollection, (sectionLaws collectEmitLaws).idem]
  · intro a
    refine Std.ExtTreeMap.ext_getElem? fun k => ?_
    rw [getElem_mergeCollection, Std.ExtTreeMap.getElem?_empty, (sectionLaws collectEmitLaws).right_unset]

/-! ## User metrics -/

theorem mergeUserMetric_assoc (e x a : UserMetricExportConfig) :
    mergeUserMetric e (mergeUserMetric x a) = mergeUserMetric (mergeUserMetric e x) a := by
  simp only [mergeUserMetric, UserMetricExportConfig.mk.injEq, true_and]
  exact ⟨stringLaws.assoc _ _ _, optionLaws.assoc _ _ _, optionLaws.assoc _ _ _,
    stringLaws.assoc _ _ _⟩

theorem mergeUserMetric_idem (a : UserMetricExportConfig) : mergeUserMetric a a = a := by
  simp only [mergeUserMetric, stringLaws.idem, optionLaws.idem]

/-- The user metrics as a keyed list; nothing is removed. -/
def userOverlay : Overlay UserMetricExportConfig UserMetricExportConfig String Unit where
  key u := u.name
  sel e := e.name
  removes _ := false
  upd e u := .ok (mergeUserMetric e u)
  new e := .ok e
  missing _ := ()
  join x e := .ok (mergeUserMetric e x)
  start e := .ok e
  marker e := e

theorem userOverlay_lawful : userOverlay.Lawful := by
  constructor
  case upd_key =>
    rintro e a _ ⟨⟩ hkey
    exact hkey
  case join_sel =>
    rintro x e _ ⟨⟩ hsel
    exact hsel
  case new_key | start_sel | start_upd | start_new =>
    rintro e _ ⟨⟩
    rfl
  case join_removes | start_removes | marker_sel =>
    intros
    rfl
  case marker_removes => exact fun h => h

theorem userOverlay_fits : userOverlay.Fits fun _ _ _ => True := by
  constructor
  · rintro a x e es _ _ - - - ⟨⟩ ⟨⟩
    exact ⟨_, rfl, congrArg _ (mergeUserMetric_assoc e x a).symm⟩
  · rintro x e es _ _ - - ⟨⟩ ⟨⟩
    exact ⟨_, rfl, rfl⟩
  · exact fun _ _ => trivial
  · exact fun _ _ => trivial

theorem run_userOverlay (xs es : List UserMetricExportConfig) :
    userOverlay.run xs es = .ok (mergeUserMetrics xs es) := by
  induction es generalizing xs with
  | nil => rfl
  | cons e es ih =>
    have hact : userOverlay.act xs e = .ok (put (·.name == e.name) (mergeUserMetric e) e xs) :=
      upsert_ok ..
    rw [Overlay.run_cons, hact]
    exact ih _

theorem accAll_userOverlay (xs es : List UserMetricExportConfig) :
    userOverlay.accAll xs es = .ok (mergeUserMetrics xs es) :=
  -- no entry removes, and a patch is a list of the same kind
  run_userOverlay xs es

/-- `p` has at most one user metric of each name in `q`. -/
def Single (p q : List UserMetricExportConfig) : Prop :=
  ∀ e ∈ q, (p.filter fun x => x.name == e.name) = [] ∨
    ∃ x, (p.filter fun x => x.name == e.name) = [x]

variable {p : List UserMetricExportConfig}

theorem mergeUserMetrics_assoc {q : List UserMetricExportConfig} (h : Single p q)
    (xs : List UserMetricExportConfig) :
    mergeUserMetrics (mergeUserMetrics xs p) q = mergeUserMetrics xs (mergeUserMetrics p q) := by
  have hc : userOverlay.Composable (fun _ _ _ => True) xs p q := by
    constructor
    · intro e _ hrem
      cases hrem
    · exact List.pairwise_of_forall fun _ _ _ => rfl
    · exact fun e he _ => h e he
    · intros
      rfl
    · exact fun l e r _ _ _ => ⟨e, rfl⟩
    · intros
      trivial
  obtain ⟨p', hacc, hrun⟩ := hc.run_accAll userOverlay_lawful userOverlay_fits
    (run_userOverlay xs p) (run_userOverlay _ q)
  rw [accAll_userOverlay] at hacc
  cases hacc
  rw [run_userOverlay] at hrun
  exact (Except.ok.inj hrun).symm

def userNames (us : List UserMetricExportConfig) : List String := us.map (·.name)

variable {u : UserMetricExportConfig} {us : List UserMetricExportConfig}

theorem mem_userNames (h : u ∈ us) :
    u.name ∈ userNames us :=
  List.mem_map_of_mem h

theorem nodup_userNames_cons :
    (userNames (u :: us)).Nodup ↔ u.name ∉ userNames us ∧ (userNames us).Nodup :=
  List.nodup_cons

theorem single_of_nodup (h : (userNames p).Nodup) (q : List UserMetricExportConfig) :
    Single p q := by
  intro e _
  generalize e.name = n
  induction p with
  | nil => exact .inl rfl
  | cons x p ih =>
    obtain ⟨hx, hp⟩ := nodup_userNames_cons.mp h
    by_cases hn : x.name = n
    · -- no later one has the name
      refine .inr ⟨x, ?_⟩
      have hnil : (p.filter fun y => y.name == n) = [] := by
        refine List.filter_eq_nil_iff.mpr fun y hy hyn => hx ?_
        rw [hn, ← eq_of_beq hyn]
        exact mem_userNames hy
      rw [List.filter_cons, hnil]
      simp [hn]
    · rw [List.filter_cons]
      simp only [hn, beq_iff_eq, if_false]
      exact ih hp

theorem nodup_put (h : (userNames p).Nodup) (e : UserMetricExportConfig) :
    (userNames (put (·.name == e.name) (mergeUserMetric e) e p)).Nodup := by
  cases hf : p.find? (·.name == e.name) with
  | none =>
    rw [put_of_find_none hf, userNames, List.map_append]
    refine List.nodup_append.mpr ⟨h, by simp, ?_⟩
    intro n hn m hm
    obtain ⟨x, hx, rfl⟩ := List.mem_map.mp hn
    rw [List.map_singleton, List.mem_singleton] at hm
    have hne := List.find?_eq_none.mp hf x hx
    rw [hm]
    simpa using hne
  | some a =>
    rw [put_of_find_some hf]
    have hsame : userNames (replaceFirst (·.name == e.name) (mergeUserMetric e a) p) =
        userNames p := by
      clear h
      induction p with
      | nil => rfl
      | cons x p ih =>
        rw [List.find?_cons] at hf
        by_cases hx : x.name = e.name
        · simp only [hx, beq_self_eq_true, Option.some.injEq] at hf
          subst hf
          simp [replaceFirst, hx, userNames, mergeUserMetric]
        · simp only [show (x.name == e.name) = false by simpa using hx] at hf
          simp only [replaceFirst, show (x.name == e.name) = false by simpa using hx,
            Bool.false_eq_true, if_false, userNames, List.map_cons]
          exact congrArg _ (ih hf)
    rw [hsame]
    exact h

theorem nodup_mergeUserMetrics (h : (userNames p).Nodup) (q : List UserMetricExportConfig) :
    (userNames (mergeUserMetrics p q)).Nodup := by
  induction q generalizing p with
  | nil => exact h
  | cons e q ih => exact ih (nodup_put h e)

theorem find_of_nodup (h : (userNames p).Nodup) {e : UserMetricExportConfig} (he : e ∈ p) :
    p.find? (·.name == e.name) = some e := by
  induction p with
  | nil => cases he
  | cons x p ih =>
    obtain ⟨hx, hp⟩ := nodup_userNames_cons.mp h
    rcases List.mem_cons.mp he with rfl | he
    · simp
    · have hne : (x.name == e.name) = false := by
        simp only [beq_eq_false_iff_ne]
        intro heq
        exact hx (heq ▸ mem_userNames he)
      rw [List.find?_cons, hne]
      exact ih hp he

variable {xs : List UserMetricExportConfig}

theorem mergeUserMetrics_of_found {es : List UserMetricExportConfig}
    (h : ∀ e ∈ es, xs.find? (·.name == e.name) = some e) : mergeUserMetrics xs es = xs := by
  induction es with
  | nil => rfl
  | cons e es ih =>
    have he := h e List.mem_cons_self
    have hput : put (·.name == e.name) (mergeUserMetric e) e xs = xs := by
      rw [put_of_find_some he, mergeUserMetric_idem, replaceFirst_self he]
    rw [mergeUserMetrics, List.foldl_cons, hput]
    exact ih fun e' he' => h e' (List.mem_cons_of_mem _ he')

theorem mergeUserMetrics_synthesize {file ds : List UserMetricExportConfig}
    (hd : (userNames ds).Nodup)
    (h : ∀ d ∈ ds, xs.find? (·.name == d.name) = file.find? (·.name == d.name)) :
    mergeUserMetrics xs (synthesizeUserMetrics file ds) = mergeUserMetrics xs ds := by
  induction ds generalizing xs with
  | nil => rfl
  | cons d ds ih =>
    obtain ⟨hfresh, hnodup⟩ := nodup_userNames_cons.mp hd
    have hxd := h d List.mem_cons_self
    -- what the others find is not touched
    have hrest : ∀ d' ∈ ds, (put (·.name == d.name) (mergeUserMetric d) d xs).find?
        (·.name == d'.name) = file.find? (·.name == d'.name) := by
      intro d' hd'
      have hne : d.name ≠ d'.name := fun heq => hfresh (heq ▸ mem_userNames hd')
      rw [find_put (fun x hx => ?_) (fun x hx => ?_) (by simpa using hne)]
      · exact h d' (List.mem_cons_of_mem _ hd')
      · rw [eq_of_beq hx]
        simpa using hne
      · have hx : x.name = d.name := eq_of_beq hx
        simpa [mergeUserMetric, hx] using hne
    by_cases hsame : file.find? (·.name == d.name) = some d
    · have hput : put (·.name == d.name) (mergeUserMetric d) d xs = xs := by
        have hfound := hxd.trans hsame
        rw [put_of_find_some hfound, mergeUserMetric_idem, replaceFirst_self hfound]
      rw [synthesizeUserMetrics, List.filter_cons, if_neg (by simpa using hsame)]
      rw [hput] at hrest
      refine (ih hnodup hrest).trans ?_
      rw [mergeUserMetrics, mergeUserMetrics, List.foldl_cons, hput]
    · rw [synthesizeUserMetrics, List.filter_cons, if_pos (by simpa using hsame)]
      exact ih hnodup hrest

/-! ## Metrics -/

def userMetricsOf (m : Option MetricsConfig) : List UserMetricExportConfig := (m.getD {}).userMetrics

variable {d : MetricsConfig}

theorem mergeMetrics_assoc (f : Option MetricsConfig) {p : MetricsConfig}
    (h : Single d.userMetrics p.userMetrics) :
    mergeMetrics (some (mergeMetrics f d)) p = mergeMetrics f (mergeMetrics (some d) p) := by
  simp only [mergeMetrics, Option.getD_some, MetricsConfig.mk.injEq]
  exact ⟨optionLaws.assoc _ _ _, stringLaws.assoc _ _ _, (sectionLaws prometheusLaws).assoc _ _ _,
    (sectionLaws otelLaws).assoc _ _ _, mergeUserMetrics_assoc h _, stringLaws.assoc _ _ _,
    (sectionLaws categoriesLaws).assoc _ _ _, (sectionLaws granularityLaws).assoc _ _ _,
    collectionLaws.assoc _ _ _, (sectionLaws collectEmitLaws).assoc _ _ _⟩

variable {f : MetricsConfig}

theorem mergeMetrics_idem (h : (userNames f.userMetrics).Nodup) :
    mergeMetrics (some f) f = f := by
  have huser : mergeUserMetrics f.userMetrics f.userMetrics = f.userMetrics :=
    mergeUserMetrics_of_found fun e he => find_of_nodup h he
  simp only [mergeMetrics, Option.getD_some, huser, optionLaws.idem, stringLaws.idem,
    (sectionLaws prometheusLaws).idem, (sectionLaws otelLaws).idem, (sectionLaws categoriesLaws).idem,
    (sectionLaws granularityLaws).idem, collectionLaws.idem, (sectionLaws collectEmitLaws).idem]

/-! ## Getting the desired metrics back -/

/-- A message that has all of `f` can be left out where it is `f`. -/
theorem MergeLaws.changed [DecidableEq S] {f d : S} (h : MergeLaws merge unset) (hd : merge f d = d) :
    merge f (if d = f then unset else d) = d := by
  split
  · rename_i heq
    rw [heq, h.right_unset]
  · exact hd

theorem mergeCollection_changed {f d : StrMap MetricsCollectEmit} (hd : mergeCollection f d = d) :
    mergeCollection f (changedEntries f d) = d := by
  refine Std.ExtTreeMap.ext_getElem? fun k => ?_
  have hk : mergeSection mergeCollectEmit {} f[k]? d[k]? = d[k]? := by
    rw [← getElem_mergeCollection, hd]
  rw [getElem_mergeCollection, changedEntries, Std.ExtTreeMap.getElem?_filter']
  cases hdk : d[k]? with
  | none =>
    rw [hdk] at hk
    exact hk
  | some ce =>
    rw [hdk] at hk
    by_cases hsame : f[k]? = some ce
    · simp [Option.filter, hsame, mergeSection]
    · simp only [Option.filter, ne_eq, hsame, not_false_eq_true, decide_true, if_true]
      exact hk

theorem mergeMetrics_delta (hd : mergeMetrics (some f) d = d)
    (hnames : (userNames d.userMetrics).Nodup) : mergeMetrics (some f) (metricsDelta f d) = d := by
  have huser : mergeUserMetrics f.userMetrics (synthesizeUserMetrics f.userMetrics d.userMetrics) =
      d.userMetrics := by
    rw [mergeUserMetrics_synthesize hnames fun _ _ => rfl]
    exact congrArg MetricsConfig.userMetrics hd
  obtain ⟨enabled, profile, prometheus, otel, users, base, categories, granularity, collection,
    eventExport⟩ := d
  simp only [mergeMetrics, Option.getD_some, MetricsConfig.mk.injEq] at hd
  obtain ⟨h₁, h₂, h₃, h₄, -, h₆, h₇, h₈, h₉, h₁₀⟩ := hd
  simp only [mergeMetrics, metricsDelta, Option.getD_some, MetricsConfig.mk.injEq]
  exact ⟨optionLaws.changed h₁, stringLaws.changed h₂, (sectionLaws prometheusLaws).changed h₃,
    (sectionLaws otelLaws).changed h₄, huser, stringLaws.changed h₆,
    (sectionLaws categoriesLaws).changed h₇, (sectionLaws granularityLaws).changed h₈,
    mergeCollection_changed h₉, (sectionLaws collectEmitLaws).changed h₁₀⟩

/-- What patches can make of the metrics `f`: they have all of `f`, and no two user metrics of one
name. -/
def MetricsGrown (f d : Option MetricsConfig) : Prop :=
  d = f ∨ ∃ m, d = some m ∧ mergeMetrics f m = m ∧ (userNames m.userMetrics).Nodup

theorem MetricsGrown.patch {f d : Option MetricsConfig} (hf : (userNames (userMetricsOf f)).Nodup)
    (h : MetricsGrown f d) (p : MetricsConfig) : MetricsGrown f (some (mergeMetrics d p)) := by
  refine .inr ⟨_, rfl, ?_⟩
  rcases h with rfl | ⟨m, rfl, hm, hnames⟩
  · -- the first patch: the file's metrics are laid over themselves
    refine ⟨?_, nodup_mergeUserMetrics hf p.userMetrics⟩
    have hassoc := mergeMetrics_assoc (some (d.getD {})) (single_of_nodup hf p.userMetrics)
    rw [mergeMetrics_idem hf] at hassoc
    exact hassoc.symm
  · refine ⟨?_, nodup_mergeUserMetrics hnames p.userMetrics⟩
    rw [← mergeMetrics_assoc f (single_of_nodup hnames p.userMetrics), hm]

theorem merge_synthesizeMetrics {f d : Option MetricsConfig} (h : MetricsGrown f d) :
    mergeMetricsSection f (synthesizeMetrics f d) = d := by
  rcases h with rfl | ⟨m, rfl, hm, hnames⟩
  · cases d with
    | none => rfl
    | some d => simp [synthesizeMetrics, mergeMetricsSection]
  · cases f with
    | none => exact congrArg _ hm
    | some f =>
      simp only [synthesizeMetrics]
      split
      · rename_i heq
        exact congrArg _ heq
      · exact congrArg _ (mergeMetrics_delta hm hnames)

end Conduit.Config
