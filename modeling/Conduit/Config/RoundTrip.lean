import Mathlib.Data.List.Nodup
import Conduit.Config.Restore
import Conduit.Config.Configurator

/-!
# The round trip of an overlay

`synthesizeOverlay` makes an overlay from the file and a desired configuration; the merge of the
file and that overlay is meant to be the desired configuration again.

- `restorable_of_merge`: where no two backends of the file have one address, the backends come back
  only if they are restorable.
- `synthesize_round_trip`: when the whole configuration comes back.
-/

namespace Conduit.Config

open Keyed

/-! ## Backends with addresses of their own -/

section

variable {pool : String} {A B : List Backend} {a b x y : Backend}

theorem eq_of_address (h : (addresses B).Nodup) (hx : x ∈ B) (hy : y ∈ B)
    (heq : x.address = y.address) : x = y :=
  List.inj_on_of_nodup_map h hx hy heq

theorem eq_of_name (h : BackendsOk B) (hx : x ∈ B) (hy : y ∈ B) {n : String} (hne : n ≠ "")
    (hxn : x.name = some n) (hyn : y.name = some n) : x = y := by
  have hn : x.named = some n := named_eq_some.mpr ⟨hxn, hne⟩
  have hfind := findBackend_named h hx hn hxn
  rw [findBackend_named h hy hn hyn] at hfind
  exact (Option.some.inj hfind).symm

theorem mergeBackend_ok {bs cs : List Backend} {e : Backend}
    (h : mergeBackend pool .applyToBaseline bs e = .ok cs) :
    cs = bs.filter (fun x => !e.hits x) ∨
      upsert e.hits (fun b => .ok (updateBackend e b)) (newBackend pool e) bs = .ok cs := by
  have hid := identified_of_mergeBackend h
  by_cases hrem : e.remove.getD false = true
  · left
    have hremove : removeBackend pool bs e = .ok cs := by simpa [mergeBackend, hrem] using h
    rw [removeBackend_eq_removeAll pool bs hid, removeAll] at hremove
    split at hremove
    · exact (Except.ok.inj hremove).symm
    · cases hremove
  · right
    rw [Bool.not_eq_true] at hrem
    rw [← mergeBackend_eq_upsert pool .applyToBaseline bs hrem hid]
    exact h

theorem mem_of_not_hit {bs cs es : List Backend}
    (h : mergeBackends pool .applyToBaseline bs es = .ok cs) (hx : x ∈ bs)
    (hmiss : ∀ e ∈ es, e.hits x = false) : x ∈ cs := by
  induction es generalizing bs with
  | nil =>
    cases h
    exact hx
  | cons e es ih =>
    rw [mergeBackends_cons] at h
    obtain ⟨bs', hstep, h⟩ := bind_eq_ok.mp h
    refine ih h ?_ fun e' he' => hmiss e' (List.mem_cons_of_mem _ he')
    have he : e.hits x = false := hmiss e List.mem_cons_self
    rcases mergeBackend_ok hstep with rfl | hup
    · exact List.mem_filter.mpr ⟨hx, by rw [he]; rfl⟩
    · exact mem_of_upsert hup hx he

/-! ## What the merge makes of the backends of the file -/

/-- The backend that the entry for `a` leaves. -/
def restored (B : List Backend) (a : Backend) : Option Backend :=
  (findBackend B a).map fun b => ((backendDelta a b).map (updateBackend · a)).getD a

theorem restored_spec (hok : BackendsOk B) (h : restored B a = some x) :
    ∃ b, findBackend B a = some b ∧ b ∈ B ∧ x.address = b.address ∧
      (x.name = a.name ∨ x.name = b.name) := by
  obtain ⟨b, hfind, hx⟩ := Option.map_eq_some_iff.mp h
  have hb : b ∈ B := (findBackend_some hfind).1
  have haddr := hok.address b hb
  refine ⟨b, hfind, hb, ?_⟩
  cases hd : backendDelta a b with
  | none =>
    rw [hd] at hx
    cases hx
    have hsame := congrArg Backend.address ((backendDelta_none haddr).mp hd)
    exact ⟨hsame, .inl rfl⟩
  | some e =>
    rw [hd] at hx
    cases hx
    have hdelta := delta_of_backendDelta haddr hd
    refine ⟨hdelta.update_address, ?_⟩
    change e.name.or a.name = a.name ∨ e.name.or a.name = b.name
    rcases hdelta.name with hn | ⟨hn, -⟩
    · rw [hn]
      cases b.name with
      | none => exact .inl rfl
      | some n => exact .inr rfl
    · rw [hn]
      exact .inl rfl

/-- A desired backend with a name is found for a backend of the file of that name only. -/
def Aligned (A B : List Backend) : Prop :=
  ∀ a ∈ A, ∀ b n, findBackend B a = some b → b.named = some n → a.name = some n

theorem Aligned.hits (h : Aligned A B) (ha : a ∈ A) (hfind : findBackend B a = some b) :
    b.hits a = true := by
  rw [hits_iff]
  cases hn : b.named with
  | some n => exact .inl ⟨n, rfl, h a ha b n hfind hn⟩
  | none =>
    obtain ⟨-, ⟨n, han, hbn⟩ | ⟨haddr, -⟩⟩ := findBackend_some hfind
    · rw [named_eq_some.mpr ⟨hbn, (named_eq_some.mp han).2⟩] at hn
      cases hn
    · exact .inr ⟨rfl, haddr.symm⟩

/-- Where the backends come back, they are aligned: else no entry is for `a`, which then stays
beside the desired backend of the same address. -/
theorem aligned_of_merge (hA : (addresses A).Nodup) (hB : (addresses B).Nodup) (hok : BackendsOk B)
    (hAok : BackendsOk A)
    (h : mergeBackends pool .applyToBaseline A (synthesizeBackends A B) = .ok B) : Aligned A B := by
  intro a ha b n hfind hbn
  by_contra hne
  obtain ⟨hb, ⟨k, hak, hbk⟩ | ⟨haddr, hnames⟩⟩ := findBackend_some hfind
  · -- found by name
    have hkn : k = n := Option.some.inj (hbk.symm.trans (named_eq_some.mp hbn).1)
    exact hne (hkn ▸ (named_eq_some.mp hak).1)
  have hmiss : ∀ e ∈ synthesizeBackends A B, e.hits a = false := by
    intro e he
    rcases List.mem_append.mp he with he | he
    · obtain ⟨a', ha', hentry⟩ := List.mem_filterMap.mp he
      cases hfind' : findBackend B a' with
      | none =>
        rw [backendEntry, hfind'] at hentry
        cases hentry
        rw [removeMarkerFor_hits, Bool.eq_false_iff, ne_eq, hits_iff]
        -- the marker of `a'` would be that of `a`
        intro hhit
        have hsame : a' = a := by
          rcases hhit with ⟨m, hm, ham⟩ | ⟨-, haddr'⟩
          · exact eq_of_name hAok ha' ha (named_eq_some.mp hm).2 (named_eq_some.mp hm).1 ham
          · exact eq_of_address hA ha' ha haddr'.symm
        rw [hsame, hfind] at hfind'
        cases hfind'
      | some b' =>
        rw [backendEntry, hfind'] at hentry
        have hb' := (findBackend_some hfind').1
        rw [(delta_of_backendDelta (hok.address b' hb') hentry).hits]
        refine not_hits (fun m hm ham => ?_) fun hn heq => ?_
        · obtain ⟨hname, hm⟩ := named_eq_some.mp hm
          exact hnames m (named_eq_some.mpr ⟨ham, hm⟩) b' hb' hname
        · rw [eq_of_address hB hb' hb (heq.symm.trans haddr.symm), hbn] at hn
          cases hn
    · obtain ⟨d, hd, rfl⟩ := List.mem_map.mp he
      obtain ⟨hdB, hnone⟩ := List.mem_filter.mp hd
      obtain ⟨hdname, hdaddr⟩ :=
        (findBackend_none (hok.address d hdB)).mp (Option.isNone_iff_eq_none.mp hnone)
      exact not_hits (fun m hm => hdname m hm a ha) fun _ => hdaddr a ha
  have haB : a ∈ B := mem_of_not_hit h ha hmiss
  have hab : a = b := eq_of_address hB haB hb haddr.symm
  exact hne (hab ▸ (named_eq_some.mp hbn).1)

theorem restored_not_hit {e : Backend} {done : List Backend} (hok : BackendsOk B)
    (hx : x ∈ done.filterMap (restored B))
    (hname : ∀ n, e.named = some n → ∀ a ∈ done, ∀ b, findBackend B a = some b →
      a.name ≠ some n ∧ b.name ≠ some n)
    (haddr : e.named = none → ∀ a ∈ done, ∀ b, findBackend B a = some b → b.address ≠ e.address) :
    e.hits x = false := by
  obtain ⟨a, ha, hrest⟩ := List.mem_filterMap.mp hx
  obtain ⟨b, hfind, -, hxaddr, hxname⟩ := restored_spec hok hrest
  refine not_hits (fun n hn => ?_) fun hn => hxaddr ▸ haddr hn a ha b hfind
  obtain ⟨hane, hbne⟩ := hname n hn a ha b hfind
  rcases hxname with hxname | hxname
  · rw [hxname]
    exact hane
  · rw [hxname]
    exact hbne

/-- The entries for the backends of the file, one after the other. -/
theorem merge_restored (hA : (addresses A).Nodup) (hB : (addresses B).Nodup) (hAok : BackendsOk A)
    (hok : BackendsOk B) (hal : Aligned A B) {done rest : List Backend} (hsplit : A = done ++ rest) :
    mergeBackends pool .applyToBaseline (done.filterMap (restored B) ++ rest)
        (rest.filterMap (backendEntry B)) = .ok (A.filterMap (restored B)) := by
  induction rest generalizing done with
  | nil =>
    rw [hsplit, List.append_nil, List.append_nil]
    rfl
  | cons a rest ih =>
    have ha : a ∈ A := hsplit ▸ by simp
    have hdone : ∀ a' ∈ done, a' ∈ A := fun a' ha' => hsplit ▸ List.mem_append_left _ ha'
    obtain ⟨hother, hlater⟩ := addresses_split (hsplit ▸ hA)
    have haddr := hAok.address a ha
    have hnext := @ih (done ++ [a]) (by rw [hsplit]; simp)
    rw [List.filterMap_append, List.append_assoc] at hnext
    cases hfind : findBackend B a with
    | none =>
      -- the marker of `a` removes it alone
      obtain ⟨hnames, haddrs⟩ := (findBackend_none haddr).mp hfind
      have hl : ∀ x ∈ done.filterMap (restored B), a.hits x = false := by
        intro x hx
        refine restored_not_hit hok hx (fun n hn a' ha' b' hb' => ⟨?_, ?_⟩) fun _ a' _ b' hb' => ?_
        · exact (names_split (hsplit ▸ hAok) hn).1 a' ha'
        · exact hnames n hn b' (findBackend_some hb').1
        · exact haddrs b' (findBackend_some hb').1
      have hr : ∀ x ∈ rest, a.hits x = false := by
        intro x hx
        exact not_hits (fun n hn => (names_split (hsplit ▸ hAok) hn).2 x hx) fun _ =>
          (hlater x hx).symm
      have hentry : backendEntry B a = some (removeMarkerFor a) := by rw [backendEntry, hfind]
      have hgone : restored B a = none := by rw [restored, hfind]; rfl
      rw [List.filterMap_cons, hentry]
      simp only [mergeBackends_cons]
      rw [mergeBackend_marker haddr hl hr]
      simpa [hgone, Except.bind] using hnext
    | some b =>
      have hb := (findBackend_some hfind).1
      cases hd : backendDelta a b with
      | none =>
        have hentry : backendEntry B a = none := by rw [backendEntry, hfind]; exact hd
        have hsame : restored B a = some a := by simp [restored, hfind, hd]
        rw [List.filterMap_cons, hentry]
        simpa [hsame] using hnext
      | some e =>
        -- the delta finds `a`: another backend with its identity would be `b` itself
        have hdelta := delta_of_backendDelta (hok.address b hb) hd
        have hl : ∀ x ∈ done.filterMap (restored B), b.hits x = false := by
          intro x hx
          refine restored_not_hit hok hx (fun n hn a' ha' b' hb' => ?_) fun hn a' ha' b' hb' heq => ?_
          · have han := hal a ha b n hfind hn
            have hne := (named_eq_some.mp hn).2
            have hfirst : a'.name ≠ some n :=
              (names_split (hsplit ▸ hAok) (named_eq_some.mpr ⟨han, hne⟩)).1 a' ha'
            refine ⟨hfirst, fun hb'n => hfirst ?_⟩
            exact hal a' (hdone a' ha') b' n hb' (named_eq_some.mpr ⟨hb'n, hne⟩)
          · -- both are found by their address
            have hbb := eq_of_address hB (findBackend_some hb').1 hb heq
            have hit := hits_iff.mp (hal.hits ha hfind)
            have hit' := hits_iff.mp (hal.hits (hdone a' ha') hb')
            rw [hbb] at hit'
            simp only [hn, reduceCtorEq, false_and, exists_false, true_and, false_or] at hit hit'
            exact hother a' ha' (hit'.trans hit.symm)
        have hentry : backendEntry B a = some e := by rw [backendEntry, hfind]; exact hd
        have hupd : restored B a = some (updateBackend e a) := by simp [restored, hfind, hd]
        rw [List.filterMap_cons, hentry]
        simp only [mergeBackends_cons]
        rw [mergeBackend_update .applyToBaseline hdelta.remove (hdelta.identified (hok.address b hb))
          (by rw [hdelta.hits]; exact hl) (by rw [hdelta.hits]; exact hal.hits ha hfind)]
        simpa [hupd, Except.bind] using hnext

/-- The desired backends that the file does not have. -/
def added (A B : List Backend) : List Backend := B.filter fun d => (findBackend A d).isNone

theorem mem_added {d : Backend} : d ∈ added A B ↔ d ∈ B ∧ findBackend A d = none := by
  simp [added]

theorem merge_synthesized (hA : (addresses A).Nodup) (hAok : BackendsOk A) (hd : Derived A B)
    (hal : Aligned A B) :
    mergeBackends pool .applyToBaseline A (synthesizeBackends A B) =
      .ok (A.filterMap (restored B) ++ added A B) := by
  have hB := hd.nodup hA
  have hfile : mergeBackends pool .applyToBaseline A (A.filterMap (backendEntry B)) =
      .ok (A.filterMap (restored B)) :=
    merge_restored hA hB hAok hd.ok hal (List.nil_append A).symm
  have hnew : ∀ d ∈ added A B, d.remove = none ∧ d.address ≠ "" := by
    intro d hdN
    obtain ⟨hdB, hnone⟩ := mem_added.mp hdN
    obtain ⟨haddr, -, hrem⟩ := hd.new hdB hnone
    exact ⟨hrem, haddr⟩
  have hself : (added A B).map Backend.unmarked = added A B := by
    refine (List.map_congr_left fun d hdN => ?_).trans (List.map_id _)
    exact unmarked_of_none (hnew d hdN).1
  rw [synthesizeBackends, mergeBackends_append, hfile]
  change mergeBackends pool .applyToBaseline _ ((added A B).map Backend.unmarked) = _
  rw [hself]
  refine merge_appended hnew fun l d r hl x hx => ?_
  have hdN : d ∈ added A B := hl ▸ by simp
  obtain ⟨hdB, hnone⟩ := mem_added.mp hdN
  obtain ⟨hnames, haddrs⟩ := (findBackend_none (hd.ok.address d hdB)).mp hnone
  -- a backend of the file for which `d` were found would have its name or its address
  have hfound : ∀ a ∈ A, findBackend B a ≠ some d := by
    intro a ha hfind
    obtain ⟨-, ⟨n, han, hdn⟩ | ⟨haddr, -⟩⟩ := findBackend_some hfind
    · obtain ⟨hname, hne⟩ := named_eq_some.mp han
      exact hnames n (named_eq_some.mpr ⟨hdn, hne⟩) a ha hname
    · exact haddrs a ha haddr.symm
  rcases List.mem_append.mp hx with hx | hx
  · refine restored_not_hit hd.ok hx (fun n hn a ha b hb => ⟨hnames n hn a ha, fun hbn => ?_⟩)
      fun _ a ha b hb heq => ?_
    · obtain ⟨hname, hne⟩ := named_eq_some.mp hn
      exact hfound a ha (eq_of_name hd.ok (findBackend_some hb).1 hdB hne hbn hname ▸ hb)
    · exact hfound a ha (eq_of_address hB (findBackend_some hb).1 hdB heq ▸ hb)
  · have hsub : (added A B).Sublist B := List.filter_sublist
    refine not_hits (fun n hn => ?_) fun _ => ?_
    · exact (names_split (hl ▸ backendsOk_sublist hd.ok hsub) hn).1 x hx
    · have hnodup : (addresses (added A B)).Nodup := (hsub.map _).nodup hB
      exact (addresses_split (hl ▸ hnodup)).1 x hx

theorem patchable_of_update {e : Backend} (hb : b.address ≠ "") (hd : backendDelta a b = some e)
    (hupd : updateBackend e a = b) (hit : b.hits a = true) : Patchable a b := by
  have hdelta := delta_of_backendDelta hb hd
  have hname : e.name.or a.name = b.name := congrArg Backend.name hupd
  have hweight : e.weight.or a.weight = b.weight := congrArg Backend.weight hupd
  have hqname := congrArg Backend.probeQname hupd
  have hqtype := congrArg Backend.probeQtype hupd
  have hsource := congrArg Backend.probeSource hupd
  have htransport := congrArg Backend.transport hupd
  have hremove : none = b.remove := congrArg Backend.remove hupd
  refine ⟨?_, hqname.symm, hqtype.symm, hsource.symm, htransport.symm, ?_, hremove.symm, fun hsame => ?_⟩
  · refine (hits_iff.mp hit).imp id fun ⟨hn, haddr⟩ => ⟨hn, haddr.symm, ?_⟩
    cases hbn : b.name with
    | none =>
      rw [hbn] at hname
      exact .inl (Option.or_eq_none_iff.mp hname).2.symm
    | some n =>
      right
      by_contra hne
      rw [named_eq_some.mpr ⟨hbn, fun h => hne (congrArg some h)⟩] at hn
      cases hn
  · cases hbw : b.weight with
    | some w => exact .inr rfl
    | none =>
      rw [hbw] at hweight
      exact .inl (Option.or_eq_none_iff.mp hweight).2.symm
  · rw [(backendDelta_none hb).mpr hsame] at hd
    cases hd

/-- **Backends with addresses of their own come back only if they are restorable.** -/
theorem restorable_of_merge (hA : (addresses A).Nodup) (hAok : BackendsOk A) (hd : Derived A B)
    (h : mergeBackends pool .applyToBaseline A (synthesizeBackends A B) = .ok B) :
    Restorable A B := by
  have hB := hd.nodup hA
  have hal := aligned_of_merge hA hB hd.ok hAok h
  have heq : A.filterMap (restored B) ++ added A B = B := by
    rw [merge_synthesized hA hAok hd hal] at h
    exact Except.ok.inj h
  -- what is left of a backend has the address of the desired one, so it is the desired one
  have hrest : ∀ a ∈ A, ∀ b, findBackend B a = some b → restored B a = some b := by
    intro a ha b hfind
    obtain ⟨x, hx⟩ : ∃ x, restored B a = some x := by simp [restored, hfind]
    obtain ⟨b', hfind', hb', haddr, -⟩ := restored_spec hd.ok hx
    rw [hfind] at hfind'
    cases hfind'
    have hxB : x ∈ B := heq ▸ List.mem_append_left _ (List.mem_filterMap.mpr ⟨a, ha, hx⟩)
    rw [hx, eq_of_address hB hxB hb' haddr]
  refine ⟨A.filterMap (restored B), added A B, heq.symm, ?_, fun n hn => (mem_added.mp hn).2⟩
  have htrip : ∀ done rest, A = done ++ rest →
      Trip B (done.filterMap (restored B)) rest (rest.filterMap (restored B)) := by
    intro done rest hsplit
    induction rest generalizing done with
    | nil => exact .nil
    | cons a rest ih =>
      have ha : a ∈ A := hsplit ▸ by simp
      have hnext := ih (done ++ [a]) (by rw [hsplit]; simp)
      rw [List.filterMap_append] at hnext
      cases hfind : findBackend B a with
      | none =>
        have hgone : restored B a = none := by rw [restored, hfind]; rfl
        rw [List.filterMap_cons, hgone]
        refine .drop hfind (fun _ x hx => ?_) (by simpa [hgone] using hnext)
        exact ((addresses_split (hsplit ▸ hA)).2 x hx).symm
      | some b =>
        have hr := hrest a ha b hfind
        have hbB := (findBackend_some hfind).1
        have hb := hd.ok.address b hbB
        rw [List.filterMap_cons, hr]
        have hnext : Trip B (done.filterMap (restored B) ++ [b]) rest
            (rest.filterMap (restored B)) := by simpa [hr] using hnext
        cases hdelta : backendDelta a b with
        | none =>
          have hab : a = b := by simpa [restored, hfind, hdelta] using hr
          subst hab
          refine .same (fun x hx => .inr ?_) hnext
          rw [hfind] at hx
          cases hx
          exact hdelta
        | some e =>
          have hupd : updateBackend e a = b := by simpa [restored, hfind, hdelta] using hr
          refine .patch hfind (fun x hx => ?_)
            (patchable_of_update hb hdelta hupd (hal.hits ha hfind)) hnext
          -- no other desired backend has the identity of `b`
          have hBsplit : B = done.filterMap (restored B) ++
              b :: (rest.filterMap (restored B) ++ added A B) := by
            have hkept : A.filterMap (restored B) =
                done.filterMap (restored B) ++ b :: rest.filterMap (restored B) := by
              simp [hsplit, hr]
            rw [← List.cons_append, ← List.append_assoc, ← hkept, heq]
          exact not_hits (fun n hn => (names_split (hBsplit ▸ hd.ok) hn).1 x hx) fun _ =>
            (addresses_split (hBsplit ▸ hB)).1 x hx
  exact htrip [] A rfl

end

/-! ## Pools -/

/-- What an entry for a pool of the file makes of it. -/
def mergedPool (entry : Pool → Option Pool) (file : Pool) : Except ConfigError Pool :=
  match entry file with
  | none => .ok file
  | some e => updatePool .applyToBaseline e file

/-- Entries that keep the names are merged pool by pool. -/
theorem mergePools_entries {entry : Pool → Option Pool} {P F R : List Pool}
    (hentry : ∀ f ∈ F, ∀ e, entry f = some e → e.name = f.name ∧ e.remove = none)
    (hnames : ((P ++ F).map (·.name)).Nodup) :
    mergePools .applyToBaseline (P ++ F) (F.filterMap entry) = .ok R ↔
      ∃ D, R = P ++ D ∧ List.Forall₂ (fun f d => mergedPool entry f = .ok d) F D := by
  induction F generalizing P with
  | nil =>
    simp only [List.append_nil, List.filterMap_nil, List.forall₂_nil_left_iff, exists_eq_right]
    exact ⟨fun h => (Except.ok.inj h).symm, fun h => congrArg _ h.symm⟩
  | cons f F ih =>
    -- the merge of the rest, once `f` has become `d`
    have hrest : ∀ d : Pool, d.name = f.name →
        (mergePools .applyToBaseline (P ++ d :: F) (F.filterMap entry) = .ok R ↔
          ∃ D, R = P ++ d :: D ∧ List.Forall₂ (fun f d => mergedPool entry f = .ok d) F D) := by
      intro d hd
      have htail := ih (P := P ++ [d]) (fun f' hf' => hentry f' (List.mem_cons_of_mem _ hf'))
        (by simpa [hd] using hnames)
      simpa using htail
    simp only [List.forall₂_cons_left_iff, List.filterMap_cons]
    cases he : entry f with
    | none =>
      simp only [mergedPool, he]
      rw [hrest f rfl]
      constructor
      · rintro ⟨D, rfl, hD⟩
        exact ⟨f :: D, rfl, f, D, rfl, hD, rfl⟩
      · rintro ⟨_, rfl, d, D, hd, hD, rfl⟩
        cases hd
        exact ⟨D, rfl, hD⟩
    | some e =>
      obtain ⟨hname, hrem⟩ := hentry f List.mem_cons_self e he
      have hfirst : ∀ p ∈ P, (p.name == e.name) = false := by
        intro p hp
        rw [List.map_append] at hnames
        have hne := (List.nodup_append.mp hnames).2.2 p.name (List.mem_map_of_mem hp) f.name (by simp)
        simpa [hname] using hne
      have hfind : (P ++ f :: F).find? (·.name == e.name) = some f := by
        rw [List.find?_append, List.find?_eq_none.mpr (by simpa using hfirst)]
        simp [hname]
      have hstep : mergePool .applyToBaseline (P ++ f :: F) e =
          (mergedPool entry f).map fun d => P ++ d :: F := by
        rw [mergePool, mergedPool, he, hrem]
        simp only [Option.getD_none, Bool.false_eq_true, if_false]
        rw [upsert_of_find_some hfind]
        congr 1
        funext d
        exact replaceFirst_append hfirst (by simp [hname])
      have hkeep : ∀ d, mergedPool entry f = .ok d → d.name = f.name := by
        intro d hd
        rw [mergedPool, he] at hd
        obtain ⟨bs, -, hd⟩ := bind_eq_ok.mp hd
        cases hd
        rfl
      change (mergePool .applyToBaseline (P ++ f :: F) e).bind
        (fun ps => mergePools .applyToBaseline ps (F.filterMap entry)) = .ok R ↔ _
      rw [hstep, bind_eq_ok]
      constructor
      · rintro ⟨_, hps, h⟩
        obtain ⟨d, hd, rfl⟩ := map_eq_ok_iff.mp hps
        obtain ⟨D, rfl, hD⟩ := (hrest d (hkeep d hd)).mp h
        exact ⟨d :: D, rfl, d, D, hd, hD, rfl⟩
      · rintro ⟨_, rfl, d, D, hd, hD, rfl⟩
        exact ⟨P ++ d :: F, map_eq_ok_iff.mpr ⟨d, hd, rfl⟩,
          (hrest d (hkeep d hd)).mpr ⟨D, rfl, hD⟩⟩

/-- A pool comes back: its backends do, and an entry for it drops no marker. -/
structure PoolBack (f d : Pool) : Prop where
  backends : mergeBackends f.name .applyToBaseline f.backends
    (synthesizeBackends f.backends d.backends) = .ok d.backends
  unmarked : f.remove = none ∨ synthesizeBackends f.backends d.backends = []

theorem mergedPool_iff {D : List Pool} {f d : Pool} (hfind : D.find? (·.name == f.name) = some d)
    (h : PoolDerived f d) : mergedPool (poolEntry D) f = .ok d ↔ PoolBack f d := by
  have hsame := h.same
  cases hempty : (synthesizeBackends f.backends d.backends).isEmpty with
  | true =>
    have hnil := List.isEmpty_iff.mp hempty
    have hentry : poolEntry D f = none := by simp [poolEntry, hfind, hempty]
    simp only [mergedPool, hentry]
    constructor
    · intro heq
      cases heq
      exact ⟨by rw [hnil]; rfl, .inr hnil⟩
    · rintro ⟨hb, -⟩
      rw [hnil] at hb
      rw [hsame, ← Except.ok.inj hb]
  | false =>
    have hne : synthesizeBackends f.backends d.backends ≠ [] := by
      simpa [List.isEmpty_iff] using hempty
    have hentry : poolEntry D f = some { name := f.name
                                         backends := synthesizeBackends f.backends d.backends } := by
      simp [poolEntry, hfind, hempty]
    simp only [mergedPool, hentry, updatePool]
    constructor
    · intro heq
      obtain ⟨bs, hbs, heq⟩ := bind_eq_ok.mp heq
      cases heq
      refine ⟨hbs, .inl ?_⟩
      exact (congrArg Pool.remove hsame).symm
    · rintro ⟨hb, hrem⟩
      refine bind_eq_ok.mpr ⟨d.backends, hb, ?_⟩
      have hrem := hrem.resolve_right hne
      rw [← hrem]
      exact congrArg _ hsame.symm

theorem name_of_same {f d : Pool} (h : PoolDerived f d) : d.name = f.name :=
  (congrArg Pool.name h.same :)

/-- The pools come back exactly if each one does. -/
theorem mergePools_synthesized {F D : List Pool} (hF : (F.map (·.name)).Nodup)
    (h : List.Forall₂ PoolDerived F D) :
    mergePools .applyToBaseline F (synthesizePools F D) = .ok D ↔ List.Forall₂ PoolBack F D := by
  have hnames : D.map (·.name) = F.map (·.name) := by
    have heq : List.Forall₂ (fun a b : Pool => b.name = a.name) F D := h.imp fun _ _ => name_of_same
    clear h hF
    induction heq with
    | nil => rfl
    | cons hab _ ih => rw [List.map_cons, List.map_cons, hab, ih]
  have hnew : (D.filter fun d => !F.any (·.name == d.name)) = [] := by
    refine List.filter_eq_nil_iff.mpr fun d hd => ?_
    have hmem : d.name ∈ F.map (·.name) := hnames ▸ List.mem_map_of_mem hd
    obtain ⟨f, hf, hfd⟩ := List.mem_map.mp hmem
    simpa using ⟨f, hf, hfd⟩
  have hentry : ∀ f ∈ F, ∀ e, poolEntry D f = some e → e.name = f.name ∧ e.remove = none := by
    intro f hf e he
    unfold poolEntry at he
    split at he
    · rename_i hnone
      obtain ⟨d, hd, hdf⟩ := List.mem_map.mp (hnames ▸ List.mem_map_of_mem hf : f.name ∈ D.map (·.name))
      exact absurd hdf (by simpa using List.find?_eq_none.mp hnone d hd)
    · simp only [Option.ite_none_left_eq_some] at he
      obtain ⟨-, he⟩ := he
      cases he
      exact ⟨rfl, rfl⟩
  -- each pool is found under its name
  have hiff : List.Forall₂ (fun f d => mergedPool (poolEntry D) f = .ok d ↔ PoolBack f d) F D := by
    refine List.forall₂_iff_zip.mpr ⟨h.length_eq, fun {f d} hfd => ?_⟩
    have hder := List.forall₂_zip h hfd
    have hd : d ∈ D := (List.of_mem_zip hfd).2
    refine mergedPool_iff ?_ hder
    rw [← name_of_same hder]
    cases hx : D.find? (·.name == d.name) with
    | none => exact absurd (beq_self_eq_true d.name) (List.find?_eq_none.mp hx d hd)
    | some x =>
      have hxd : x.name = d.name := by simpa using List.find?_some hx
      rw [List.inj_on_of_nodup_map (hnames ▸ hF) (List.mem_of_find?_eq_some hx) hd hxd]
  have hmerge := mergePools_entries (P := []) (R := D) hentry hF
  rw [synthesizePools, hnew, List.map_nil, List.append_nil]
  refine hmerge.trans ?_
  simp only [List.nil_append, exists_eq_left']
  exact ⟨List.Forall₂.mp (fun _ _ h => h.mp) hiff, List.Forall₂.mp (fun _ _ h => h.mpr) hiff⟩

/-- The pool `d` can be restored from the pool `f` of the file. The merge drops the marker of a pool
that has an entry. -/
structure PoolRestorable (f d : Pool) : Prop where
  backends : Restorable f.backends d.backends
  unmarked : f.remove = none ∨ d.backends = f.backends ∧ (addresses f.backends).Nodup

theorem synthesizeBackends_self {A : List Backend} (hok : BackendsOk A)
    (hA : (addresses A).Nodup) : synthesizeBackends A A = [] := by
  have hfound : ∀ a ∈ A, findBackend A a = some a := by
    intro a ha
    cases hx : findBackend A a with
    | none => exact absurd rfl (((findBackend_none (hok.address a ha)).mp hx).2 a ha)
    | some x =>
      obtain ⟨hxA, ⟨n, han, hxn⟩ | ⟨haddr, -⟩⟩ := findBackend_some hx
      · obtain ⟨hname, hne⟩ := named_eq_some.mp han
        rw [eq_of_name hok hxA ha hne hxn hname]
      · rw [eq_of_address hA hxA ha haddr]
  rw [synthesizeBackends, List.append_eq_nil_iff, List.map_eq_nil_iff]
  refine ⟨List.filterMap_eq_nil_iff.mpr fun a ha => ?_, List.filter_eq_nil_iff.mpr fun a ha => ?_⟩
  · rw [backendEntry, hfound a ha]
    exact (backendDelta_none (hok.address a ha)).mpr rfl
  · simp [hfound a ha]

theorem poolBack_of_restorable {f d : Pool} (hok : BackendsOk f.backends) (h : PoolDerived f d)
    (hr : PoolRestorable f d) : PoolBack f d := by
  refine ⟨merge_of_restorable hok h.backends hr.backends, hr.unmarked.imp id ?_⟩
  rintro ⟨hsame, hnodup⟩
  rw [hsame]
  exact synthesizeBackends_self hok hnodup

theorem restorable_of_poolBack {f d : Pool} (hok : BackendsOk f.backends)
    (hnodup : (addresses f.backends).Nodup) (h : PoolDerived f d) (hb : PoolBack f d) :
    PoolRestorable f d := by
  refine ⟨restorable_of_merge hnodup hok h.backends hb.backends, hb.unmarked.imp id fun hnil => ?_⟩
  have hmerge := hb.backends
  rw [hnil] at hmerge
  exact ⟨(Except.ok.inj hmerge).symm, hnodup⟩

/-! ## Configurations -/

/-- The desired configuration can be restored: so can its pools, and the file does not name a user
metric twice if the metrics are changed. -/
structure Restores (file desired : Config) : Prop where
  pools : List.Forall₂ PoolRestorable file.pools desired.pools
  metrics : desired.metrics = file.metrics ∨ (userNames (userMetricsOf file.metrics)).Nodup

/-- No pool of the file has two backends of one address, and no two user metrics have one name. -/
structure Distinct (file : Config) : Prop where
  addresses : ∀ p ∈ file.pools, (addresses p.backends).Nodup
  metrics : (userNames (userMetricsOf file.metrics)).Nodup

theorem changed_or {S : Type} [DecidableEq S] {f d : Option S} (h : f.isSome → d.isSome) :
    (changed f d).or f = d := by
  unfold changed
  split
  · rename_i heq
    rw [Option.none_or, heq]
  · cases d with
    | some s => rfl
    | none =>
      cases f with
      | none => rfl
      | some s => exact absurd (h rfl) (by simp)

theorem changed_or_self {S : Type} [DecidableEq S] {f d : Option S} (h : d = f) :
    (changed f d).or f = d := changed_or fun hf => h ▸ hf

theorem listOr_synthesizeList {α : Type} [DecidableEq α] {field : String} {f d l : List α}
    (h : synthesizeList field f d = .ok l) : listOr l f = d := by
  unfold synthesizeList at h
  split at h
  · rename_i heq
    cases h
    exact heq
  · rename_i hne
    split at h
    · cases h
    · rename_i hempty
      cases h
      cases d with
      | cons a d => rfl
      | nil =>
        cases f with
        | nil => rfl
        | cons a f => exact absurd rfl hempty

theorem merge_synthesizeOverlay {file desired overlay : Config} (hd : Desired file desired)
    (hs : synthesizeOverlay file desired = .ok overlay) :
    mergeFileAndOverlay file overlay =
      (mergePools .applyToBaseline file.pools (synthesizePools file.pools desired.pools)).map
        fun pools => { desired with
          pools
          metrics := mergeMetricsSection file.metrics
            (synthesizeMetrics file.metrics desired.metrics) } := by
  obtain ⟨dataSources, hds, hs⟩ := bind_eq_ok.mp hs
  obtain ⟨caches, hc, hs⟩ := bind_eq_ok.mp hs
  cases hs
  simp only [mergeFileAndOverlay, mergeConfigs, changed_or_self hd.listeners,
    changed_or_self hd.forward, changed_or_self hd.control, changed_or_self hd.logging,
    changed_or_self hd.dataplane, changed_or_self hd.shutdown, changed_or_self hd.lookup,
    changed_or_self hd.acls, changed_or hd.orchestrator, changed_or hd.events, changed_or hd.rhai,
    changed_or hd.dataSourceLimits, listOr_synthesizeList hds, listOr_synthesizeList hc,
    ← hd.rules, ← hd.tracing]
  rfl

/-- **A valid file and a configuration that primitives lead to: the merge of the synthesized overlay
is that configuration if it can be restored, and only then, where no two backends of a pool of the
file have one address and no two user metrics one name.** -/
theorem synthesize_round_trip {checks : SectionChecks} {file desired overlay : Config}
    (hv : validate checks file = []) (hr : Reaches file desired)
    (hs : synthesizeOverlay file desired = .ok overlay) :
    (Restores file desired → mergeFileAndOverlay file overlay = .ok desired) ∧
      (Distinct file →
        (mergeFileAndOverlay file overlay = .ok desired ↔ Restores file desired)) := by
  have hok := poolsOk_of_validate hv
  have hd := desired_of_reaches hok hr
  have hpools := mergePools_synthesized hok.names hd.pools
  have hback : Restores file desired → mergeFileAndOverlay file overlay = .ok desired := by
    intro h
    have hmetrics : MetricsGrown file.metrics desired.metrics := by
      rcases hd.metrics with heq | hgrown
      · exact .inl heq
      · exact h.metrics.elim .inl hgrown
    have hall : List.Forall₂ PoolBack file.pools desired.pools := by
      refine List.forall₂_iff_zip.mpr ⟨hd.pools.length_eq, fun {f d} hfd => ?_⟩
      exact poolBack_of_restorable (hok.backends f (List.of_mem_zip hfd).1)
        (List.forall₂_zip hd.pools hfd) (List.forall₂_zip h.pools hfd)
    rw [merge_synthesizeOverlay hd hs, hpools.mpr hall, merge_synthesizeMetrics hmetrics]
    rfl
  refine ⟨hback, fun hdist => ⟨fun h => ⟨?_, .inr hdist.metrics⟩, hback⟩⟩
  rw [merge_synthesizeOverlay hd hs] at h
  obtain ⟨pools, hmerge, heq⟩ := map_eq_ok_iff.mp h
  have hsame : pools = desired.pools := congrArg Config.pools heq
  rw [hsame] at hmerge
  refine List.forall₂_iff_zip.mpr ⟨hd.pools.length_eq, fun {f d} hfd => ?_⟩
  have hf := (List.of_mem_zip hfd).1
  exact restorable_of_poolBack (hok.backends f hf) (hdist.addresses f hf)
    (List.forall₂_zip hd.pools hfd) (List.forall₂_zip (hpools.mp hmerge) hfd)

/-- The sample file with a weight on its backend. -/
def sampleDesired : Config :=
  { sampleFile with
    pools := [{ name := "default", backends := [{ address := "192.0.2.1:53", weight := some 50 }] }] }

theorem sample_restores : Restores sampleFile sampleDesired := by
  refine ⟨.cons ⟨⟨[{ address := "192.0.2.1:53", weight := some 50 }], [], rfl, ?_, by simp⟩,
    .inl rfl⟩ .nil, .inl rfl⟩
  refine .patch (b := { address := "192.0.2.1:53", weight := some 50 }) rfl (by simp) ?_ .nil
  exact ⟨.inr ⟨rfl, rfl, .inl rfl⟩, rfl, rfl, rfl, rfl, .inr rfl, rfl, by simp⟩

theorem synthesize_round_trip_weight :
    ∃ overlay, synthesizeOverlay sampleFile sampleDesired = .ok overlay ∧
      mergeFileAndOverlay sampleFile overlay = .ok sampleDesired := by
  have hreach : Reaches sampleFile sampleDesired :=
    .mutate (.setBackendWeight "default" "192.0.2.1:53" 50) .refl rfl
  have hv : validate sampleChecks sampleFile = [] := rfl
  refine ⟨_, rfl, ?_⟩
  exact (synthesize_round_trip hv hreach rfl).1 sample_restores

/-- Two backends, the second with a weight. -/
def weightedFile : Config :=
  { sampleFile with
    pools := [{ name := "default"
                backends := [{ address := "192.0.2.1:53" }
                            , { address := "192.0.2.2:53", weight := some 50 }] }] }

/-- The second backend was removed and added again without a weight. -/
def unweightedDesired : Config :=
  { sampleFile with
    pools := [{ name := "default"
                backends := [{ address := "192.0.2.1:53" }, { address := "192.0.2.2:53" }] }] }

/-- A delta cannot say that a weight is gone, so the backend that was added again gets the weight of
the file back. -/
theorem weight_comes_back :
    ∃ (checks : SectionChecks) (file desired overlay : Config), validate checks file = [] ∧
      Reaches file desired ∧ synthesizeOverlay file desired = .ok overlay ∧
      mergeFileAndOverlay file overlay = .ok file ∧ file ≠ desired := by
  refine ⟨sampleChecks, weightedFile, unweightedDesired, _, rfl, ?_, rfl, rfl, ?_⟩
  · exact .mutate (.addBackend "default" { address := "192.0.2.2:53" })
      (.mutate (.removeBackend "default" "192.0.2.2:53") .refl rfl) rfl
  · intro h
    exact absurd (congrArg Config.pools h) (by decide)

end Conduit.Config
