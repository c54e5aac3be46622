import Conduit.Config.Backends

/-!
# Restoring the backends of a pool

The entries that `synthesizeBackends` makes from the backends of the file and the desired ones, and
when merging them with the file gives the desired backends back.

The merge keeps the order of the file, patches a backend in place, and copies its address, its name
and its weight only. So the desired backends must be, in the order of the file, the backends of the
file as they are, or patched in place, with the removed ones left out, and then the new ones
(`Restorable`).

- `merge_of_restorable`: then the merge gives them.
-/

namespace Conduit.Config

open Keyed

/-- An entry can turn `a` into `b` in place: `b` is found under its name or its address, and the
merge copies what is different. -/
structure Patchable (a b : Backend) : Prop where
  identity : (∃ n, b.named = some n ∧ a.name = some n) ∨
    (b.named = none ∧ b.address = a.address ∧ (b.name = a.name ∨ b.name = some ""))
  probeQname : b.probeQname = a.probeQname
  probeQtype : b.probeQtype = a.probeQtype
  probeSource : b.probeSource = a.probeSource
  transport : b.transport = a.transport
  weight : b.weight = a.weight ∨ b.weight.isSome
  remove : b.remove = none
  /-- More than the marker is different. -/
  differs : a ≠ { b with remove := a.remove }

theorem Patchable.hits {a b : Backend} (h : Patchable a b) : b.hits a = true := by
  rw [hits_iff]
  rcases h.identity with hn | ⟨hn, haddr, -⟩
  · exact .inl hn
  · exact .inr ⟨hn, haddr.symm⟩

theorem Patchable.update {a b : Backend} (h : Patchable a b) (hb : b.address ≠ "") :
    ∃ e, backendDelta a b = some e ∧ Delta a b e ∧ updateBackend e a = b := by
  obtain ⟨e, he⟩ : ∃ e, backendDelta a b = some e := by
    cases he : backendDelta a b with
    | none => exact absurd ((backendDelta_none hb).mp he) h.differs
    | some e => exact ⟨e, rfl⟩
  have hd := delta_of_backendDelta hb he
  refine ⟨e, he, hd, ?_⟩
  have hname : e.name.or a.name = b.name := by
    rcases hd.name with hn | ⟨hn, hsame⟩
    · rw [hn]
      rcases h.identity with ⟨n, hbn, -⟩ | ⟨-, -, hsame | hempty⟩
      · rw [(named_eq_some.mp hbn).1, Option.some_or]
      · rw [hsame, Option.or_self]
      · rw [hempty, Option.some_or]
    · rw [hn, hsame, Option.none_or]
  have hweight : e.weight.or a.weight = b.weight := by
    rw [hd.weight, changed]
    split
    · rename_i hw
      rw [Option.none_or, hw]
    · rcases h.weight with hw | hw
      · rw [hw, Option.or_self]
      · obtain ⟨w, hw⟩ := Option.isSome_iff_exists.mp hw
        rw [hw, Option.some_or]
  have haddr := hd.update_address
  have hqname := h.probeQname
  have hqtype := h.probeQtype
  have hsource := h.probeSource
  have htransport := h.transport
  have hremove := h.remove
  cases b
  simp only [updateBackend, applyBackendOverlay, Backend.mk.injEq]
  exact ⟨haddr, hweight, hname, hqname.symm, hqtype.symm, hsource.symm, htransport.symm, hremove.symm⟩

/-- `Trip B P A K`: from the backends `A` of the file, entries for the desired backends `B` make the
part `K` of `B`, which comes after the part `P`. -/
inductive Trip (B : List Backend) : List Backend → List Backend → List Backend → Prop
  | nil {P} : Trip B P [] []
  /-- The backend stays. With two backends of one address, its entry may be one for the first. -/
  | same {P a A K} (h : ∀ x, findBackend B a = some x → x.remove = none ∨ backendDelta a x = none) :
      Trip B (P ++ [a]) A K → Trip B P (a :: A) (a :: K)
  /-- The backend is patched, and no earlier one has its identity. -/
  | patch {P a b A K} (hfind : findBackend B a = some b) (hfirst : ∀ x ∈ P, b.hits x = false)
      (h : Patchable a b) : Trip B (P ++ [b]) A K → Trip B P (a :: A) (b :: K)
  /-- The backend is gone, and its marker is not for a later one. -/
  | drop {P a A K} (hfind : findBackend B a = none)
      (h : a.named = none → ∀ x ∈ A, x.address ≠ a.address) :
      Trip B P A K → Trip B P (a :: A) K

/-- The desired backends `B` can be restored from the backends `A` of the file. -/
def Restorable (A B : List Backend) : Prop :=
  ∃ K N, B = K ++ N ∧ Trip B [] A K ∧ ∀ n ∈ N, findBackend A n = none

section

variable {pool : String} {A B K N P : List Backend} {a b : Backend}

theorem mergeBackends_cons (mode : MergeMode) (e : Backend) (es bs : List Backend) :
    mergeBackends pool mode bs (e :: es) =
      (mergeBackend pool mode bs e).bind fun bs' => mergeBackends pool mode bs' es := rfl

theorem mergeBackends_append (mode : MergeMode) (es es' bs : List Backend) :
    mergeBackends pool mode bs (es ++ es') =
      (mergeBackends pool mode bs es).bind fun bs' => mergeBackends pool mode bs' es' := by
  unfold mergeBackends
  rw [List.foldlM_append]
  rfl

theorem removeMarkerFor_hits (a : Backend) : (removeMarkerFor a).hits = a.hits := by
  funext x
  unfold removeMarkerFor Backend.hits
  cases hn : a.named with
  | some n =>
    have hne := (named_eq_some.mp hn).2
    simp [Backend.named, Option.filter, hne]
  | none => rfl

theorem removeMarkerFor_remove (a : Backend) : (removeMarkerFor a).remove = some true := by
  unfold removeMarkerFor
  split <;> rfl

theorem removeMarkerFor_identified (ha : a.address ≠ "") : (removeMarkerFor a).Identified := by
  unfold removeMarkerFor
  cases hn : a.named with
  | some n =>
    have hne := (named_eq_some.mp hn).2
    exact .inl (by simp [Backend.named, Option.filter, hne])
  | none => exact .inr ha

theorem mergeBackend_marker (ha : a.address ≠ "") {l r : List Backend}
    (hl : ∀ x ∈ l, a.hits x = false) (hr : ∀ x ∈ r, a.hits x = false) :
    mergeBackend pool .applyToBaseline (l ++ a :: r) (removeMarkerFor a) = .ok (l ++ r) := by
  have hhit : ∃ x ∈ l ++ a :: r, (removeMarkerFor a).hits x = true :=
    ⟨a, by simp, by rw [removeMarkerFor_hits]; exact hits_self a⟩
  rw [mergeBackend_remove (removeMarkerFor_remove a) (removeMarkerFor_identified ha) hhit,
    removeMarkerFor_hits, List.filter_append, List.filter_cons, hits_self a]
  have hkeep : ∀ {s : List Backend}, (∀ x ∈ s, a.hits x = false) →
      s.filter (fun x => !a.hits x) = s := by
    intro s hs
    refine List.filter_eq_self.mpr fun x hx => ?_
    rw [hs x hx]
    rfl
  rw [hkeep hl, hkeep hr]
  rfl

/-- A backend that is in the list, but is not the one that is found for it: another one, which comes
before it, has its address. -/
theorem findBackend_shadow (hok : BackendsOk B) (hB : B = P ++ a :: K) {x : Backend}
    (hfind : findBackend B a = some x) (hne : x ≠ a) :
    ∃ l r, P = l ++ x :: r ∧ ∀ y ∈ l, x.hits y = false := by
  have ha : a ∈ B := hB ▸ by simp
  have hnamed : a.named = none := by
    cases hn : a.named with
    | none => rfl
    | some n =>
      rw [findBackend_named hok ha hn (named_eq_some.mp hn).1] at hfind
      exact absurd (Option.some.inj hfind).symm hne
  rw [findBackend, hnamed, Option.bind_none, Option.none_or, if_neg (hok.address a ha)] at hfind
  obtain ⟨hx, l, r, hl, hbefore⟩ := List.find?_eq_some_iff_append.mp hfind
  have hxa : x.address = a.address := eq_of_beq hx
  have hla : ∀ y ∈ l, y.address ≠ a.address := fun y hy => by simpa using hbefore y hy
  -- `x` comes before `a`
  have hPl : ∃ r', P = l ++ x :: r' := by
    rcases List.append_eq_append_iff.mp (hB.symm.trans hl) with ⟨c, hc, hc'⟩ | ⟨c, hc, hc'⟩
    · cases c with
      | nil => exact absurd (List.cons.inj hc').1.symm hne
      | cons y c =>
        obtain ⟨rfl, -⟩ := List.cons.inj hc'
        exact absurd rfl (hla a (hc ▸ by simp))
    · cases c with
      | nil => exact absurd (List.cons.inj hc').1 hne
      | cons y c =>
        obtain ⟨rfl, -⟩ := List.cons.inj hc'
        exact ⟨c, hc⟩
  obtain ⟨r', hr'⟩ := hPl
  refine ⟨l, r', hr', fun y hy => not_hits (fun n hn => ?_) fun _ => ?_⟩
  · exact (names_split (hl ▸ hok) hn).1 y hy
  · rw [hxa]
    exact hla y hy

/-- The entries for the backends of the file make the first part of the desired backends. -/
theorem merge_trip (hok : BackendsOk B) (ht : Trip B P A K) (hB : B = P ++ (K ++ N))
    (hA : BackendsOk A) :
    mergeBackends pool .applyToBaseline (P ++ A) (A.filterMap (backendEntry B)) = .ok (P ++ K) := by
  induction ht with
  | nil => rfl
  | @same P a A K h ht ih =>
    have hrest := ih (by rw [hB]; simp) (backendsOk_sublist hA (List.sublist_cons_self a A))
    rw [List.append_assoc, List.append_assoc] at hrest
    have ha : a ∈ B := hB ▸ by simp
    obtain ⟨x, hx⟩ : ∃ x, findBackend B a = some x := by
      cases hx : findBackend B a with
      | some x => exact ⟨x, rfl⟩
      | none => exact absurd rfl (((findBackend_none (hok.address a ha)).mp hx).2 a ha)
    have hentry : backendEntry B a = backendDelta a x := by rw [backendEntry, hx]
    cases hd : backendDelta a x with
    | none =>
      rw [List.filterMap_cons, hentry, hd]
      exact hrest
    | some e =>
      -- the entry is for an earlier backend, which already is what it should be
      have hxB : x ∈ B := (findBackend_some hx).1
      have hrem : x.remove = none := (h x hx).resolve_right (by rw [hd]; simp)
      have hne : x ≠ a := by
        rintro rfl
        rw [(backendDelta_none (hok.address x hxB)).mpr rfl] at hd
        cases hd
      have hdelta := delta_of_backendDelta (hok.address x hxB) hd
      have hBa : B = P ++ a :: (K ++ N) := hB
      obtain ⟨l, r, rfl, hl⟩ := findBackend_shadow hok hBa hx hne
      rw [List.filterMap_cons, hentry, hd]
      simp only [mergeBackends_cons]
      rw [List.append_assoc, List.cons_append, mergeBackend_update .applyToBaseline hdelta.remove
        (hdelta.identified (hok.address x hxB)) (by rw [hdelta.hits]; exact hl)
        (by rw [hdelta.hits]; exact hits_self x), hdelta.self hrem]
      simpa [Except.bind] using hrest
  | @patch P a b A K hfind hfirst h ht ih =>
    have hb : b.address ≠ "" := hok.address b (findBackend_some hfind).1
    obtain ⟨e, he, hdelta, hupd⟩ := h.update hb
    have hrest := ih (by rw [hB]; simp) (backendsOk_sublist hA (List.sublist_cons_self a A))
    have hentry : backendEntry B a = some e := by rw [backendEntry, hfind]; exact he
    rw [List.filterMap_cons, hentry]
    simp only [mergeBackends_cons]
    rw [mergeBackend_update .applyToBaseline hdelta.remove (hdelta.identified hb)
      (by rw [hdelta.hits]; exact hfirst) (by rw [hdelta.hits]; exact h.hits), hupd]
    simpa [Except.bind] using hrest
  | @drop P a A K hfind h ht ih =>
    have ha : a.address ≠ "" := hA.address a List.mem_cons_self
    obtain ⟨hnames, haddrs⟩ := (findBackend_none ha).mp hfind
    have hP : ∀ x ∈ P, x ∈ B := fun x hx => hB ▸ List.mem_append_left _ hx
    have hl : ∀ x ∈ P, a.hits x = false := fun x hx =>
      not_hits (fun n hn => hnames n hn x (hP x hx)) fun _ => haddrs x (hP x hx)
    have hr : ∀ x ∈ A, a.hits x = false := fun x hx =>
      not_hits (fun n hn => (names_split (l := []) hA hn).2 x hx) fun hn => h hn x hx
    have hentry : backendEntry B a = some (removeMarkerFor a) := by rw [backendEntry, hfind]
    rw [List.filterMap_cons, hentry]
    simp only [mergeBackends_cons]
    rw [mergeBackend_marker ha hl hr]
    exact ih hB (backendsOk_sublist hA (List.sublist_cons_self a A))

/-- What a trip keeps has the address or the name of a backend of the file. -/
theorem Trip.exists_match (ht : Trip B P A K) {k : Backend} (hk : k ∈ K) :
    ∃ a ∈ A, a.address = k.address ∨ ∃ n, k.named = some n ∧ a.name = some n := by
  induction ht with
  | nil => cases hk
  | @same P a A K h ht ih =>
    rcases List.mem_cons.mp hk with rfl | hk
    · exact ⟨k, List.mem_cons_self, .inl rfl⟩
    · obtain ⟨x, hx, hm⟩ := ih hk
      exact ⟨x, List.mem_cons_of_mem _ hx, hm⟩
  | @patch P a b A K hfind hfirst h ht ih =>
    rcases List.mem_cons.mp hk with rfl | hk
    · refine ⟨a, List.mem_cons_self, ?_⟩
      rcases h.identity with hn | ⟨-, haddr, -⟩
      · exact .inr hn
      · exact .inl haddr.symm
    · obtain ⟨x, hx, hm⟩ := ih hk
      exact ⟨x, List.mem_cons_of_mem _ hx, hm⟩
  | @drop P a A K hfind h ht ih =>
    obtain ⟨x, hx, hm⟩ := ih hk
    exact ⟨x, List.mem_cons_of_mem _ hx, hm⟩

/-- A backend that the file does not have comes with an address of its own and no marker. -/
theorem Derived.new (hd : Derived A B) (hb : b ∈ B) (hfind : findBackend A b = none) :
    b.address ≠ "" ∧ b.address ∉ addresses A ∧ b.remove = none := by
  have haddr := hd.ok.address b hb
  have hnot : b.address ∉ addresses A :=
    not_mem_addresses.mpr ((findBackend_none haddr).mp hfind).2
  exact ⟨haddr, hnot, hd.unmarked b hb hnot⟩

theorem Derived.hits_new (hd : Derived A B) {l r : List Backend} (hB : B = l ++ b :: r)
    (hfind : findBackend A b = none) : ∀ x ∈ l, b.hits x = false := by
  intro x hx
  refine not_hits (fun m hm => (names_split (hB ▸ hd.ok) hm).1 x hx) fun _ heq => ?_
  -- a second backend with the address would have the address of one of the file
  have hpair := List.pairwise_append.mp (hB ▸ hd.fresh)
  have hmem := hpair.2.2 x hx b List.mem_cons_self heq
  exact (hd.new (hB ▸ by simp) hfind).2.1 (heq ▸ hmem)

theorem merge_appended {L : List Backend} (hN : ∀ n ∈ N, n.remove = none ∧ n.address ≠ "")
    (hmiss : ∀ l n r, N = l ++ n :: r → ∀ x ∈ L ++ l, n.hits x = false) :
    mergeBackends pool .applyToBaseline L N = .ok (L ++ N) := by
  induction N generalizing L with
  | nil =>
    rw [List.append_nil]
    rfl
  | cons n N ih =>
    obtain ⟨hrem, haddr⟩ := hN n List.mem_cons_self
    have hfirst : ∀ x ∈ L, n.hits x = false := by simpa using hmiss [] n N rfl
    rw [mergeBackends_cons, mergeBackend_append .applyToBaseline hrem haddr hfirst]
    have hrest : mergeBackends pool .applyToBaseline (L ++ [n]) N = .ok (L ++ [n] ++ N) := by
      refine ih (fun m hm => hN m (List.mem_cons_of_mem _ hm)) fun l m r hl x hx => ?_
      refine hmiss (n :: l) m r (by rw [hl]; rfl) x ?_
      simpa using hx
    simpa [Except.bind] using hrest

theorem merge_added (hd : Derived A B) (hB : B = K ++ N) (hN : ∀ n ∈ N, findBackend A n = none) :
    mergeBackends pool .applyToBaseline K (N.map Backend.unmarked) = .ok B := by
  have hmem : ∀ n ∈ N, n ∈ B := fun n hn => hB ▸ List.mem_append_right _ hn
  have hself : N.map Backend.unmarked = N := by
    refine (List.map_congr_left fun n hn => ?_).trans (List.map_id N)
    exact unmarked_of_none (hd.new (hmem n hn) (hN n hn)).2.2
  rw [hself, hB]
  refine merge_appended (fun n hn => ?_) fun l n r hl x hx => ?_
  · obtain ⟨haddr, -, hrem⟩ := hd.new (hmem n hn) (hN n hn)
    exact ⟨hrem, haddr⟩
  · refine hd.hits_new (l := K ++ l) (r := r) (by rw [hB, hl]; simp) (hN n (hl ▸ by simp)) x hx

/-- **Restorable backends are restored.** -/
theorem merge_of_restorable (hA : BackendsOk A) (hd : Derived A B) (h : Restorable A B) :
    mergeBackends pool .applyToBaseline A (synthesizeBackends A B) = .ok B := by
  obtain ⟨K, N, hB, ht, hN⟩ := h
  have hadded : (B.filter fun d => (findBackend A d).isNone) = N := by
    have hK : (K.filter fun d => (findBackend A d).isNone) = [] := by
      refine List.filter_eq_nil_iff.mpr fun k hk hnone => ?_
      have haddr := hd.ok.address k (hB ▸ List.mem_append_left _ hk)
      obtain ⟨hname, hnew⟩ := (findBackend_none haddr).mp (Option.isNone_iff_eq_none.mp hnone)
      obtain ⟨a, ha, heq | ⟨n, hkn, han⟩⟩ := ht.exists_match hk
      · exact hnew a ha heq
      · exact hname n hkn a ha han
    have hN' : (N.filter fun d => (findBackend A d).isNone) = N := by
      refine List.filter_eq_self.mpr fun n hn => ?_
      rw [hN n hn]
      rfl
    rw [hB, List.filter_append, hK, hN', List.nil_append]
  have htrip : mergeBackends pool .applyToBaseline A (A.filterMap (backendEntry B)) = .ok K :=
    merge_trip hd.ok ht hB hA
  rw [synthesizeBackends, hadded, mergeBackends_append, htrip]
  exact merge_added hd hB hN

end

end Conduit.Config
