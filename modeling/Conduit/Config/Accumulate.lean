import Conduit.Config.Backends
import Conduit.Config.Configurator

/-!
# Accumulated overlays

A merge apply accumulates its patch onto the overlay, and lays the overlay over the file. The patch
is never laid over the effective configuration. The accumulated overlay knows the earlier patches
and not the file, so it gives the configuration of the patches one after the other only if they are
`Compatible`.

An entry for a backend can use its name or its address. A `Scheme` says which names and addresses
the entries use, and gives every backend one key (`Scheme.key`), so that backends and pools are
overlays of keyed lists (`Keyed.Overlay`). Entries for backends that no earlier entry is for need no
scheme (`Fresh`).

- `mergeBackends_compose`, `mergePools_compose`: the patches of one pool, and of all pools.
- `merge_accumulated`: two patches of configurations, and two merge applies.
- `accumulated_differs`: patches that are not compatible.
-/

namespace Conduit.Config

open Keyed

/-! ## The keys of backends -/

/-- What entries know a backend by. -/
inductive BackendKey where
  | name (name : String)
  | address (address : String)
  deriving DecidableEq

/-- How the entries of patches say which backends they are for. -/
structure Scheme where
  /-- The names that entries use. -/
  names : String → Bool
  /-- The addresses that entries without a name use. -/
  addresses : String → Bool
  nonempty : addresses "" = false

theorem named_updateBackend (e a : Backend) :
    (updateBackend e a).named = if e.name.isSome then e.named else a.named := by
  cases he : e.name with
  | some | none => simp [updateBackend, applyBackendOverlay, Backend.named, he]

theorem updateBackend_assoc (e x a : Backend) :
    updateBackend e (updateBackend x a) = updateBackend (updateBackend e x) a := by
  simp only [updateBackend, applyBackendOverlay, Backend.mk.injEq, and_true]
  exact ⟨stringLaws.assoc _ _ _, optionLaws.assoc _ _ _, optionLaws.assoc _ _ _⟩

namespace Scheme

variable (S : Scheme)

def nameOf (b : Backend) : Option String := b.named.filter S.names

/-- What the entries know a backend by. -/
def key (b : Backend) : BackendKey :=
  match S.nameOf b with
  | some name => .name name
  | none => .address b.address

/-- A backend that entries know by its name is not known by its address as well. -/
def Clear (b : Backend) : Prop := S.nameOf b = none ∨ S.addresses b.address = false

/-- The entry uses a name or an address of the scheme. -/
structure Entry (e : Backend) : Prop where
  name : ∀ n, e.named = some n → S.names n = true ∧ S.addresses e.address = false
  address : e.named = none → S.addresses e.address = true

/-- The removal that an accumulated patch keeps. -/
def marker (e : Backend) : Backend :=
  match S.nameOf e with
  | some name => { name := some name, remove := some true }
  | none => { address := e.address, remove := some true }

variable {S}

section

variable {e a b x : Backend} {n : String}

theorem key_eq_name : S.key b = .name n ↔ S.nameOf b = some n := by
  unfold key
  cases S.nameOf b <;> simp

theorem key_eq_address {s : String} : S.key b = .address s ↔ S.nameOf b = none ∧ b.address = s := by
  unfold key
  cases S.nameOf b <;> simp

theorem nameOf_update (e a : Backend) :
    S.nameOf (updateBackend e a) = if e.name.isSome then S.nameOf e else S.nameOf a := by
  rw [nameOf, named_updateBackend]
  split <;> rfl

theorem key_update (h : S.key a = S.key e) : S.key (updateBackend e a) = S.key e := by
  cases hn : S.nameOf e with
  | some n =>
    rw [key_eq_name.mpr hn, key_eq_name] at h
    rw [key_eq_name.mpr hn, key_eq_name, nameOf_update, hn, h, ite_self]
  | none =>
    rw [key_eq_address.mpr ⟨hn, rfl⟩, key_eq_address] at h
    rw [key_eq_address.mpr ⟨hn, rfl⟩, key_eq_address, nameOf_update, hn, h.1, ite_self]
    refine ⟨rfl, ?_⟩
    simp only [updateBackend, applyBackendOverlay, stringOr, h.2, ite_self]

theorem key_marker (e : Backend) : S.key (S.marker e) = S.key e := by
  unfold marker
  cases hn : S.nameOf e with
  | some n =>
    obtain ⟨hnamed, hused⟩ := Option.filter_eq_some_iff.mp hn
    rw [key_eq_name.mpr hn, key_eq_name]
    refine Option.filter_eq_some_iff.mpr ⟨?_, hused⟩
    exact named_eq_some.mpr ⟨rfl, (named_eq_some.mp hnamed).2⟩
  | none => exact (key_eq_address.mpr ⟨hn, rfl⟩).symm

/-! ### The entries of a scheme -/

theorem Entry.nameOf_eq (h : S.Entry e) : S.nameOf e = e.named := by
  cases hn : e.named with
  | some n => exact Option.filter_eq_some_iff.mpr ⟨hn, (h.name n hn).1⟩
  | none => rw [nameOf, hn]; rfl

theorem Entry.clear (h : S.Entry e) : S.Clear e := by
  cases hn : e.named with
  | some n => exact .inr (h.name n hn).2
  | none => exact .inl (by rw [h.nameOf_eq, hn])

theorem Entry.identified (h : S.Entry e) : e.Identified := by
  cases hn : e.named with
  | some n => exact .inl (by rw [hn]; rfl)
  | none =>
    refine .inr fun hempty => ?_
    have hused := h.address hn
    rw [hempty, S.nonempty] at hused
    cases hused

theorem Entry.hits_eq (h : S.Entry e) (hx : S.Clear x) : e.hits x = (S.key x == S.key e) := by
  rw [Bool.eq_iff_iff, hits_iff, beq_iff_eq]
  cases hn : e.named with
  | some n =>
    obtain ⟨hname, hne⟩ := named_eq_some.mp hn
    rw [key_eq_name.mpr (h.nameOf_eq.trans hn), key_eq_name, nameOf, Option.filter_eq_some_iff,
      named_eq_some]
    simp [(h.name n hn).1, hne]
  | none =>
    rw [key_eq_address.mpr ⟨h.nameOf_eq.trans hn, rfl⟩, key_eq_address]
    simp only [reduceCtorEq, false_and, exists_false, false_or, true_and]
    refine ⟨fun haddr => ⟨hx.resolve_right ?_, haddr⟩, And.right⟩
    rw [haddr, h.address hn]
    exact Bool.noConfusion

theorem Entry.clear_update (h : S.Entry e) (ha : S.Clear a) (hkey : S.key a = S.key e) :
    S.Clear (updateBackend e a) := by
  cases hn : e.named with
  | some n =>
    have hname := key_eq_name.mp (hkey.trans (key_eq_name.mpr (h.nameOf_eq.trans hn)))
    refine .inr ?_
    simp only [updateBackend, applyBackendOverlay, stringOr]
    split
    · exact ha.resolve_left (by simp [hname])
    · exact (h.name n hn).2
  | none =>
    have hnone := h.nameOf_eq.trans hn
    have ha := (key_eq_address.mp (hkey.trans (key_eq_address.mpr ⟨hnone, rfl⟩))).1
    exact .inl (by rw [nameOf_update, hnone, ha, ite_self])

theorem Entry.update (h : S.Entry e) (hx : S.Entry x) (hkey : S.key x = S.key e) :
    S.Entry (updateBackend e x) := by
  cases hn : e.named with
  | some n =>
    have hxn := key_eq_name.mp (hkey.trans (key_eq_name.mpr (h.nameOf_eq.trans hn)))
    rw [hx.nameOf_eq] at hxn
    have hnamed : (updateBackend e x).named = some n := by
      rw [named_updateBackend, hn, hxn, ite_self]
    constructor
    · rintro m hm
      refine ⟨by rw [← Option.some.inj (hnamed.symm.trans hm)]; exact (h.name n hn).1, ?_⟩
      simp only [updateBackend, applyBackendOverlay, stringOr]
      split
      · exact (hx.name n hxn).2
      · exact (h.name n hn).2
    · intro hnone
      rw [hnamed] at hnone
      cases hnone
  | none =>
    have hnone := h.nameOf_eq.trans hn
    obtain ⟨hxn, haddr⟩ := key_eq_address.mp (hkey.trans (key_eq_address.mpr ⟨hnone, rfl⟩))
    rw [hx.nameOf_eq] at hxn
    have hnamed : (updateBackend e x).named = none := by
      rw [named_updateBackend, hn, hxn, ite_self]
    constructor
    · intro m hm
      rw [hnamed] at hm
      cases hm
    · intro _
      simp only [updateBackend, applyBackendOverlay, stringOr, haddr, ite_self]
      exact h.address hn

theorem Entry.unmarked (h : S.Entry e) : S.Entry e.unmarked := ⟨h.name, h.address⟩

theorem Entry.marker (h : S.Entry e) : S.Entry (S.marker e) := by
  unfold Scheme.marker
  rw [h.nameOf_eq]
  cases hn : e.named with
  | some n =>
    refine ⟨fun m hm => ?_, fun hnone => ?_⟩
    · have heq : n = m := Option.some.inj (named_eq_some.mp hm).1
      exact ⟨heq ▸ (h.name n hn).1, S.nonempty⟩
    · have hsome : ({ name := some n, remove := some true } : Backend).named = some n :=
        named_eq_some.mpr ⟨rfl, (named_eq_some.mp hn).2⟩
      rw [hsome] at hnone
      cases hnone
  | none =>
    refine ⟨fun m hm => ?_, fun _ => h.address hn⟩
    cases (named_eq_some.mp hm).1

end

end Scheme

/-! ## Backends -/

/-- The backend that an entry adds: it needs an address. -/
def addedBackend (pool : String) (e : Backend) : Except ConfigError Backend :=
  let name := e.named.getD ""
  if e.address = "" then
    .error (.invalid s!"overlay pool '{pool}' references unknown backend name '{name}'")
  else .ok e.unmarked

variable {pool : String} {e : Backend}

theorem addedBackend_eq_ok {b : Backend} :
    addedBackend pool e = .ok b ↔ e.address ≠ "" ∧ b = e.unmarked := by
  unfold addedBackend
  split
  · exact ⟨fun h => (nomatch h), fun h => absurd ‹_› h.1⟩
  · exact ⟨fun h => ⟨‹_›, (Except.ok.inj h).symm⟩, fun h => congrArg _ h.2.symm⟩

theorem newBackend_eq_added (h : e.Identified) :
    newBackend pool e = addedBackend pool e := by
  cases hn : e.named with
  | some n => rw [newBackend, addedBackend, hn]; rfl
  | none =>
    have haddr : e.address ≠ "" := h.resolve_left (by simp [hn])
    rw [newBackend_of_address haddr, addedBackend, if_neg haddr]

/-- The removal that accumulated entries keep. -/
def Backend.removal (e : Backend) : Backend :=
  match e.named with
  | some name => { name := some name, remove := some true }
  | none => { address := e.address, remove := some true }

theorem accumulate_removal {p : List Backend} (hrem : e.remove.getD false = true)
    (hid : e.Identified) :
    mergeBackend pool .accumulateOverlay p e =
      .ok (p.filter (fun x => !e.hits x) ++ [e.removal]) := by
  rw [mergeBackend, hrem, Backend.removal]
  cases hn : e.named with
  | some n => simp [accumulateBackendRemove, Backend.hits, hn, bne]
  | none =>
    have haddr : e.address ≠ "" := hid.resolve_left (by simp [hn])
    simp [accumulateBackendRemove, Backend.hits, hn, bne, haddr]

def backendOverlay (S : Scheme) (pool : String) : Overlay Backend Backend BackendKey ConfigError where
  key := S.key
  sel := S.key
  removes e := e.remove.getD false
  upd e a := .ok (updateBackend e a)
  new := addedBackend pool
  missing := missingBackend pool
  join x e := .ok (updateBackend e x)
  start := addedBackend pool
  marker := S.marker

section

variable {S : Scheme} {pool : String}

theorem backendOverlay_lawful : (backendOverlay S pool).Lawful := by
  constructor
  case upd_key =>
    rintro e a _ ⟨⟩ hkey
    exact Scheme.key_update hkey
  case join_sel =>
    rintro x e _ ⟨⟩ hsel
    exact Scheme.key_update hsel
  case join_removes =>
    rintro x e _ ⟨⟩
    rfl
  case new_key | start_sel | start_removes | start_upd | start_new =>
    intro e e' hstart
    rw [(addedBackend_eq_ok.mp hstart).2]
    rfl
  case marker_sel => exact Scheme.key_marker
  case marker_removes =>
    intro e _
    show (S.marker e).remove.getD false = true
    unfold Scheme.marker
    split <;> rfl

theorem backendOverlay_fits : (backendOverlay S pool).Fits fun _ _ _ => True := by
  constructor
  · rintro a x e es _ _ - - - ⟨⟩ ⟨⟩
    exact ⟨_, rfl, congrArg _ (updateBackend_assoc e x a).symm⟩
  · rintro x e es a _ - hsel hnew ⟨⟩
    obtain ⟨haddr, rfl⟩ := addedBackend_eq_ok.mp hnew
    refine ⟨_, rfl, addedBackend_eq_ok.mpr ⟨?_, rfl⟩⟩
    simp only [updateBackend, applyBackendOverlay, stringOr]
    split
    · exact haddr
    · assumption
  · exact fun _ _ => trivial
  · exact fun _ _ => trivial

variable {e : Backend} {xs : List Backend}

/-- One entry, on clear backends. -/
theorem mergeBackend_eq_act (hxs : ∀ x ∈ xs, S.Clear x) (he : S.Entry e) :
    mergeBackend pool .applyToBaseline xs e = (backendOverlay S pool).act xs e := by
  have hhits : ∀ x ∈ xs, e.hits x = (S.key x == S.key e) := fun x hx => he.hits_eq (hxs x hx)
  cases hrem : e.remove.getD false with
  | true =>
    have hmerge : mergeBackend pool .applyToBaseline xs e = removeBackend pool xs e := by
      rw [mergeBackend, hrem]
      rfl
    rw [hmerge, removeBackend_eq_removeAll pool xs he.identified, removeAll_congr hhits]
    exact (if_pos hrem).symm
  | false =>
    rw [mergeBackend_eq_upsert pool _ xs hrem he.identified, newBackend_eq_added he.identified,
      upsert_congr hhits]
    exact (if_neg (by simp [backendOverlay, hrem])).symm

variable {p : List Backend}

theorem mergeBackend_eq_acc (hp : ∀ x ∈ p, S.Entry x) (he : S.Entry e) :
    mergeBackend pool .accumulateOverlay p e = (backendOverlay S pool).acc p e := by
  have hhits : ∀ x ∈ p, e.hits x = (S.key x == S.key e) := fun x hx => he.hits_eq (hp x hx).clear
  cases hrem : e.remove.getD false with
  | true =>
    have hmarker : e.removal = S.marker e := by
      rw [Backend.removal, Scheme.marker, he.nameOf_eq]
    have hfilter : (p.filter fun x => !e.hits x) = p.filter fun x => S.key x != S.key e :=
      List.filter_congr fun x hx => by rw [hhits x hx, bne]
    rw [accumulate_removal hrem he.identified, hfilter, hmarker]
    exact (if_pos hrem).symm
  | false =>
    rw [mergeBackend_eq_upsert pool _ p hrem he.identified, newBackend_eq_added he.identified,
      upsert_congr hhits]
    exact (if_neg (by simp [backendOverlay, hrem])).symm

/-- The merge with a pool is the overlay of the keyed list. -/
theorem mergeBackends_eq_run {es : List Backend} (hxs : ∀ x ∈ xs, S.Clear x)
    (hes : ∀ e ∈ es, S.Entry e) :
    mergeBackends pool .applyToBaseline xs es = (backendOverlay S pool).run xs es ∧
      ∀ ys, (backendOverlay S pool).run xs es = .ok ys → ∀ y ∈ ys, S.Clear y := by
  refine Overlay.foldlM_congr (fun xs hxs e he => mergeBackend_eq_act hxs (hes e he))
    (fun xs ys hxs e he => Overlay.act_forall ?_ ?_ hxs) hxs
  · rintro a _ ha hkey ⟨⟩
    exact (hes e he).clear_update ha hkey
  · intro a hnew
    rw [(addedBackend_eq_ok.mp hnew).2]
    exact (hes e he).unmarked.clear

theorem mergeBackends_eq_accAll {q : List Backend} (hp : ∀ x ∈ p, S.Entry x)
    (hq : ∀ e ∈ q, S.Entry e) :
    mergeBackends pool .accumulateOverlay p q = (backendOverlay S pool).accAll p q ∧
      ∀ p', (backendOverlay S pool).accAll p q = .ok p' → ∀ x ∈ p', S.Entry x := by
  refine Overlay.foldlM_congr (fun p hp e he => mergeBackend_eq_acc hp (hq e he))
    (fun p p' hp e he => Overlay.acc_forall (fun _ => (hq e he).marker) ?_ ?_ hp) hp
  · rintro x _ hx hkey ⟨⟩
    exact (hq e he).update hx hkey
  · intro e' hstart
    rw [(addedBackend_eq_ok.mp hstart).2]
    exact (hq e he).unmarked

end

/-- The entries `q` for a pool can be accumulated onto `p`, for a pool with the backends `xs`. -/
structure BackendsFit (S : Scheme) (pool : String) (xs p q : List Backend) : Prop where
  clear : ∀ x ∈ xs, S.Clear x
  entries : ∀ e ∈ p ++ q, S.Entry e
  composable : (backendOverlay S pool).Composable (fun _ _ _ => True) xs p q

variable {S : Scheme} {xs p q : List Backend}

/-- **The patches of one pool.** -/
theorem mergeBackends_compose {ys zs : List Backend} (h : BackendsFit S pool xs p q)
    (hp : mergeBackends pool .applyToBaseline xs p = .ok ys)
    (hq : mergeBackends pool .applyToBaseline ys q = .ok zs) :
    ∃ p', mergeBackends pool .accumulateOverlay p q = .ok p' ∧
      mergeBackends pool .applyToBaseline xs p' = .ok zs := by
  obtain ⟨hentp, hentq⟩ := List.forall_mem_append.mp h.entries
  obtain ⟨hrun, hclear⟩ := mergeBackends_eq_run h.clear hentp
  obtain ⟨hacc, hentries⟩ := mergeBackends_eq_accAll hentp hentq
  rw [hrun] at hp
  rw [(mergeBackends_eq_run (hclear ys hp) hentq).1] at hq
  obtain ⟨p', hp', hzs⟩ :=
    h.composable.run_accAll backendOverlay_lawful backendOverlay_fits hp hq
  refine ⟨p', hacc.trans hp', ?_⟩
  rw [(mergeBackends_eq_run h.clear (hentries p' hp')).1, hzs]

variable {q' : List Backend}

theorem BackendsFit.part (h : BackendsFit S pool xs p (q ++ q')) : BackendsFit S pool xs p q where
  clear := h.clear
  entries e he := h.entries e (by grind)
  composable := h.composable.part fun _ => trivial

theorem BackendsFit.rest {p' : List Backend} (h : BackendsFit S pool xs p (q ++ q'))
    (hacc : mergeBackends pool .accumulateOverlay p q = .ok p') :
    BackendsFit S pool xs p' q' := by
  have hp : ∀ e ∈ p, S.Entry e := fun e he => h.entries e (by grind)
  have hq : ∀ e ∈ q, S.Entry e := fun e he => h.entries e (by grind)
  obtain ⟨heq, hentries⟩ := mergeBackends_eq_accAll (S := S) hp hq
  rw [heq] at hacc
  refine ⟨h.clear, List.forall_mem_append.mpr ⟨hentries p' hacc, ?_⟩, ?_⟩
  · exact fun e he => h.entries e (by grind)
  · exact h.composable.rest backendOverlay_lawful backendOverlay_fits hacc

/-! ### Entries for other backends -/

/-- The entries `q` are for backends that no entry before them is for, and none needs a backend to
be known by its name. -/
structure Fresh (p q : List Backend) : Prop where
  apart : ∀ e ∈ q, ∀ x ∈ p, e.hits x = false
  once : q.Pairwise fun e e' => e'.hits e = false
  stands : ∀ e ∈ q, e.address ≠ "" ∨ e.remove.getD false = true ∧ e.named.isSome = true

section

variable {e' : Backend}

/-- A later entry that is for what an accumulated one is for is for the same backend. -/
theorem hits_removal (he' : e'.address ≠ "" ∨ e'.named.isSome = true)
    (h : e'.hits e.removal = true) : e'.hits e = true := by
  rw [hits_iff] at h ⊢
  unfold Backend.removal at h
  cases hn : e.named with
  | some n =>
    rw [hn] at h
    rcases h with ⟨m, hm, hname⟩ | ⟨hnone, haddr⟩
    · cases hname
      exact .inl ⟨n, hm, (named_eq_some.mp hn).1⟩
    · exact absurd haddr.symm (he'.resolve_right (by simp [hnone]))
  | none =>
    rw [hn] at h
    rcases h with ⟨m, -, hname⟩ | ⟨hnone, haddr⟩
    · cases hname
    · exact .inr ⟨hnone, haddr⟩

theorem mergeBackend_removal (hrem : e.remove.getD false = true) (xs : List Backend) :
    mergeBackend pool .applyToBaseline xs e.removal =
      mergeBackend pool .applyToBaseline xs e := by
  have hsame : e.removal.named = e.named ∧ (e.named = none → e.removal.address = e.address) ∧
      e.removal.remove.getD false = true := by
    unfold Backend.removal
    cases hn : e.named with
    | some n => exact ⟨named_eq_some.mpr ⟨rfl, (named_eq_some.mp hn).2⟩, nofun, rfl⟩
    | none => exact ⟨rfl, fun _ => rfl, rfl⟩
  obtain ⟨hnamed, haddr, hremoves⟩ := hsame
  rw [mergeBackend, mergeBackend, hrem, hremoves, if_pos rfl, if_pos rfl]
  simp only [removeBackend, hnamed]
  cases hn : e.named with
  | some n => rfl
  | none => simp only [haddr hn]

/-- An entry for another backend is appended, with the effect that it has on the backends. -/
theorem Fresh.acc (pool : String) (h : Fresh p (e :: q)) :
    ∃ e', mergeBackend pool .accumulateOverlay p e = .ok (p ++ [e']) ∧
      (∀ xs, mergeBackend pool .applyToBaseline xs e' = mergeBackend pool .applyToBaseline xs e) ∧
      Fresh (p ++ [e']) q := by
  have hstands := h.stands e List.mem_cons_self
  have hid : e.Identified := hstands.symm.imp_left And.right
  have hapart := h.apart e List.mem_cons_self
  obtain ⟨honce, honce'⟩ := List.pairwise_cons.mp h.once
  have hnext : ∀ e', (∀ x ∈ q, x.hits e' = true → x.hits e = true) → Fresh (p ++ [e']) q := by
    intro e' he'
    refine ⟨fun x hx y hy => ?_, honce', fun x hx => h.stands x (List.mem_cons_of_mem _ hx)⟩
    rcases List.mem_append.mp hy with hy | hy
    · exact h.apart x (List.mem_cons_of_mem _ hx) y hy
    · rw [List.mem_singleton.mp hy]
      refine Bool.eq_false_iff.mpr fun hhits => ?_
      exact Bool.eq_false_iff.mp (honce x hx) (he' x hx hhits)
  cases hrem : e.remove.getD false with
  | true =>
    have hfilter : (p.filter fun x => !e.hits x) = p :=
      List.filter_eq_self.mpr fun x hx => by rw [hapart x hx]; rfl
    refine ⟨e.removal, ?_, mergeBackend_removal hrem, hnext _ fun x hx => hits_removal ?_⟩
    · rw [accumulate_removal hrem hid, hfilter]
    · exact (h.stands x (List.mem_cons_of_mem _ hx)).imp_right And.right
  | false =>
    have haddr : e.address ≠ "" := hstands.resolve_right (by simp [hrem])
    refine ⟨e.unmarked, ?_, fun xs => ?_, hnext _ fun x _ => id⟩
    · have hnone : p.find? e.hits = none :=
        List.find?_eq_none.mpr fun x hx => by simp [hapart x hx]
      rw [mergeBackend_eq_upsert pool _ p hrem hid, upsert_of_find_none hnone,
        newBackend_eq_added hid, addedBackend, if_neg haddr]
      rfl
    · rw [mergeBackend_eq_upsert pool _ xs hrem hid,
        mergeBackend_eq_upsert pool _ xs (e := e.unmarked) rfl hid]
      rfl

/-- Patches whose entries are for other backends. -/
theorem Fresh.accAll (pool : String) (h : Fresh p (q ++ q')) :
    ∃ p', mergeBackends pool .accumulateOverlay p q = .ok p' ∧ Fresh p' q' ∧
      ∀ xs ys zs, mergeBackends pool .applyToBaseline xs p = .ok ys →
        mergeBackends pool .applyToBaseline ys q = .ok zs →
        mergeBackends pool .applyToBaseline xs p' = .ok zs := by
  induction q generalizing p with
  | nil =>
    refine ⟨p, rfl, h, ?_⟩
    rintro xs ys _ hp ⟨⟩
    exact hp
  | cons e q ih =>
    obtain ⟨e', hacc, happly, hfresh⟩ := Fresh.acc pool h
    obtain ⟨p', hp', hrest, hrun⟩ := ih hfresh
    refine ⟨p', ?_, hrest, fun xs ys zs hp hq => ?_⟩
    · rw [mergeBackends, List.foldlM_cons, hacc]
      exact hp'
    · rw [mergeBackends, List.foldlM_cons] at hq
      obtain ⟨us, hus, hq⟩ := bind_eq_ok.mp hq
      refine hrun xs us zs ?_ hq
      rw [mergeBackends, List.foldlM_append]
      refine bind_eq_ok.mpr ⟨ys, hp, ?_⟩
      rw [List.foldlM_cons, happly, hus]
      rfl

end

/-! ## Pools -/

theorem updatePool_eq_ok {mode : MergeMode} {e b b' : Pool} :
    updatePool mode e b = .ok b' ↔
      ∃ bs, mergeBackends b.name mode b.backends e.backends = .ok bs ∧
        { b with remove := none, backends := bs } = b' := by
  exact map_eq_ok_iff

/-- A pool that only the patches have: entries that remove nothing give the same backends whether
the earlier markers are there or not. -/
theorem mergeBackends_unmarked {bs es cs : List Backend}
    (hes : ∀ e ∈ es, e.remove.getD false = false)
    (h : mergeBackends pool .applyToBaseline (bs.map Backend.unmarked) es = .ok cs) :
    ∃ bs', mergeBackends pool .accumulateOverlay bs es = .ok bs' ∧
      bs'.map Backend.unmarked = cs := by
  induction es generalizing bs with
  | nil =>
    cases h
    exact ⟨bs, rfl, rfl⟩
  | cons e es ih =>
    obtain ⟨he, hes⟩ := List.forall_mem_cons.mp hes
    rw [mergeBackends, List.foldlM_cons] at h
    obtain ⟨ds, hd, h⟩ := bind_eq_ok.mp h
    have hid : e.Identified := identified_of_mergeBackend hd
    have hnew : newBackend pool e = (newBackend pool e).map Backend.unmarked := by
      rw [newBackend_eq_added hid, addedBackend]
      split <;> rfl
    have hmap : upsert e.hits (fun b => .ok (updateBackend e b)) (newBackend pool e)
        (bs.map Backend.unmarked) = (upsert e.hits (fun b => .ok (updateBackend e b))
          (newBackend pool e) bs).map (List.map Backend.unmarked) := by
      refine upsert_map ?_ ?_ hnew bs
      · exact fun _ => rfl
      · exact fun _ => rfl
    rw [mergeBackend_eq_upsert pool _ _ he hid, hmap, map_eq_ok_iff] at hd
    obtain ⟨bs₁, hbs₁, rfl⟩ := hd
    obtain ⟨bs', hbs', hcs⟩ := ih hes h
    refine ⟨bs', ?_, hcs⟩
    rw [mergeBackends, List.foldlM_cons, mergeBackend_eq_upsert pool _ _ he hid, hbs₁]
    exact hbs'

/-- The pools of a configuration as a keyed list. -/
def poolOverlay : Overlay Pool Pool String ConfigError where
  key p := p.name
  sel e := e.name
  removes e := e.remove.getD false
  upd e p := updatePool .applyToBaseline e p
  new e := .ok (addedPool .applyToBaseline e)
  missing e := .invalid s!"overlay requests remove of unknown pool '{e.name}'"
  join x e := updatePool .accumulateOverlay e x
  start e := .ok (addedPool .accumulateOverlay e)
  marker e := { name := e.name, remove := some true }

/-- `x`, the first entry for a pool, fits with the later entries `es`: in a pool of the file their
backends can be accumulated, and in a pool that the patches add no backend is removed. -/
def PoolsFit : Option Pool → Pool → List Pool → Prop
  | some a, x, es =>
    (∃ S, BackendsFit S x.name a.backends x.backends (es.flatMap (·.backends))) ∨
      Fresh x.backends (es.flatMap (·.backends))
  | none, _, es => ∀ e ∈ es.flatMap (·.backends), e.remove.getD false = false

theorem poolOverlay_lawful : poolOverlay.Lawful := by
  constructor
  case upd_key =>
    intro e a a' hupd hkey
    obtain ⟨bs, -, rfl⟩ := updatePool_eq_ok.mp hupd
    exact hkey
  case join_sel =>
    intro x e x' hjoin hsel
    obtain ⟨bs, -, rfl⟩ := updatePool_eq_ok.mp hjoin
    exact hsel
  case join_removes =>
    intro x e x' hjoin
    obtain ⟨bs, -, rfl⟩ := updatePool_eq_ok.mp hjoin
    rfl
  case new_key | start_sel | start_removes | start_upd | start_new =>
    rintro e _ ⟨⟩
    rfl
  case marker_sel | marker_removes => exact fun _ => rfl

theorem poolOverlay_fits : poolOverlay.Fits PoolsFit := by
  constructor
  · rintro a x e es a₁ a₂ hfit hkey hsel hx he
    have hname : a.name = x.name := hkey.trans hsel.symm
    obtain ⟨bs₁, hbs₁, rfl⟩ := updatePool_eq_ok.mp hx
    obtain ⟨bs₂, hbs₂, rfl⟩ := updatePool_eq_ok.mp he
    rw [hname] at hbs₁ hbs₂
    have hcompose : ∃ p', mergeBackends x.name .accumulateOverlay x.backends e.backends = .ok p' ∧
        mergeBackends x.name .applyToBaseline a.backends p' = .ok bs₂ := by
      rw [PoolsFit, List.flatMap_cons] at hfit
      rcases hfit with ⟨S, hfit⟩ | hfresh
      · exact mergeBackends_compose hfit.part hbs₁ hbs₂
      · obtain ⟨p', hacc, -, hrun⟩ := Fresh.accAll x.name hfresh
        exact ⟨p', hacc, hrun _ _ _ hbs₁ hbs₂⟩
    obtain ⟨p', hacc, hrun⟩ := hcompose
    refine ⟨_, updatePool_eq_ok.mpr ⟨p', hacc, rfl⟩, updatePool_eq_ok.mpr ⟨bs₂, ?_, rfl⟩⟩
    rw [hname]
    exact hrun
  · rintro x e es _ a₂ hfit hsel ⟨⟩ he
    obtain ⟨bs₂, hbs₂, rfl⟩ := updatePool_eq_ok.mp he
    rw [PoolsFit, List.flatMap_cons] at hfit
    obtain ⟨bs', hacc, rfl⟩ := mergeBackends_unmarked (List.forall_mem_append.mp hfit).1 hbs₂
    exact ⟨_, updatePool_eq_ok.mpr ⟨bs', hacc, rfl⟩, rfl⟩
  · intro a x e es x' hfit hjoin
    obtain ⟨bs, hacc, rfl⟩ := updatePool_eq_ok.mp hjoin
    cases a with
    | some a =>
      rw [PoolsFit, List.flatMap_cons] at hfit
      rcases hfit with ⟨S, hfit⟩ | hfresh
      · exact .inl ⟨S, hfit.rest hacc⟩
      · obtain ⟨p', hacc', hrest, -⟩ := Fresh.accAll x.name hfresh
        obtain rfl := Except.ok.inj (hacc'.symm.trans hacc)
        exact .inr hrest
    | none =>
      rw [PoolsFit, List.flatMap_cons] at hfit
      exact (List.forall_mem_append.mp hfit).2
  · rintro (a | a) e _ es hfit ⟨⟩
    · exact hfit
    · exact hfit

def Pool.NamesRemoved (e : Pool) : Prop := e.remove.getD false = true → e.name ≠ ""

section

variable {mode : MergeMode} {xs ys p q es : List Pool} {e : Pool}

theorem namesRemoved_of_mergePool (h : mergePool mode xs e = .ok ys) : e.NamesRemoved := by
  intro hrem hempty
  simp only [mergePool, hrem, hempty, if_true] at h
  cases h

theorem namesRemoved_of_mergePools (h : mergePools mode xs es = .ok ys) :
    ∀ e ∈ es, e.NamesRemoved := by
  induction es generalizing xs with
  | nil => simp
  | cons e es ih =>
    rw [mergePools, List.foldlM_cons] at h
    obtain ⟨zs, he, hes⟩ := bind_eq_ok.mp h
    exact List.forall_mem_cons.mpr ⟨namesRemoved_of_mergePool he, ih hes⟩

theorem mergePool_eq_act (he : e.NamesRemoved) :
    mergePool .applyToBaseline xs e = poolOverlay.act xs e := by
  cases hrem : e.remove.getD false with
  | true => simp only [mergePool, Overlay.act, poolOverlay, hrem, he hrem, if_true, if_false]
  | false => simp only [mergePool, Overlay.act, poolOverlay, hrem, Bool.false_eq_true, if_false]

theorem mergePool_eq_acc (he : e.NamesRemoved) :
    mergePool .accumulateOverlay p e = poolOverlay.acc p e := by
  cases hrem : e.remove.getD false with
  | true => simp only [mergePool, Overlay.acc, poolOverlay, hrem, he hrem, if_true, if_false]
  | false => simp only [mergePool, Overlay.acc, poolOverlay, hrem, Bool.false_eq_true, if_false]

theorem mergePools_eq_run (hes : ∀ e ∈ es, e.NamesRemoved) :
    mergePools .applyToBaseline xs es = poolOverlay.run xs es :=
  (Overlay.foldlM_congr (I := fun _ => True) (fun _ _ e he => mergePool_eq_act (hes e he))
    (fun _ _ _ _ _ _ => trivial) trivial).1

theorem mergePools_eq_accAll (hp : ∀ x ∈ p, x.NamesRemoved) (hq : ∀ e ∈ q, e.NamesRemoved) :
    mergePools .accumulateOverlay p q = poolOverlay.accAll p q ∧
      ∀ p', poolOverlay.accAll p q = .ok p' → ∀ x ∈ p', x.NamesRemoved := by
  refine Overlay.foldlM_congr (fun p _ e he => mergePool_eq_acc (hq e he))
    (fun p p' hp e he => Overlay.acc_forall (fun hrem _ => hq e he hrem) ?_ ?_ hp) hp
  · intro x x' _ _ hjoin hrem
    rw [show x'.remove.getD false = false from poolOverlay_lawful.join_removes hjoin] at hrem
    cases hrem
  · rintro _ ⟨⟩ hrem
    cases hrem

/-- **The patches of all pools.** -/
theorem mergePools_compose {zs : List Pool} (h : poolOverlay.Composable PoolsFit xs p q)
    (hp : mergePools .applyToBaseline xs p = .ok ys)
    (hq : mergePools .applyToBaseline ys q = .ok zs) :
    ∃ p', mergePools .accumulateOverlay p q = .ok p' ∧
      mergePools .applyToBaseline xs p' = .ok zs := by
  have hnp := namesRemoved_of_mergePools hp
  have hnq := namesRemoved_of_mergePools hq
  obtain ⟨hacc, hnames⟩ := mergePools_eq_accAll hnp hnq
  rw [mergePools_eq_run hnp] at hp
  rw [mergePools_eq_run hnq] at hq
  obtain ⟨p', hp', hzs⟩ := h.run_accAll poolOverlay_lawful poolOverlay_fits hp hq
  exact ⟨p', hacc.trans hp', (mergePools_eq_run (hnames p' hp')).trans hzs⟩

end

/-! ## Configurations -/

variable {α : Type}

theorem listOr_assoc (a b c : List α) : listOr c (listOr b a) = listOr (listOr c b) a := by
  cases c <;> rfl

theorem mergeMetrics_unset (f : Option MetricsConfig) : mergeMetrics f {} = f.getD {} := by
  simp only [mergeMetrics, optionLaws.right_unset, stringLaws.right_unset,
    (sectionLaws prometheusLaws).right_unset, (sectionLaws otelLaws).right_unset,
    (sectionLaws categoriesLaws).right_unset, (sectionLaws granularityLaws).right_unset,
    collectionLaws.right_unset, (sectionLaws collectEmitLaws).right_unset]
  rfl

theorem mergeMetricsSection_assoc (f : Option MetricsConfig) {d p : Option MetricsConfig}
    (h : Single (userMetricsOf d) (userMetricsOf p)) :
    mergeMetricsSection (mergeMetricsSection f d) p =
      mergeMetricsSection f (mergeMetricsSection d p) := by
  cases p with
  | none => rfl
  | some p =>
    cases d with
    | some d => exact congrArg some (mergeMetrics_assoc f h)
    | none =>
      have hassoc := mergeMetrics_assoc f (d := {}) (p := p) h
      rw [mergeMetrics_unset] at hassoc
      exact congrArg some hassoc

structure Compatible (file patch₁ patch₂ : Config) : Prop where
  pools : poolOverlay.Composable PoolsFit file.pools patch₁.pools patch₂.pools
  metrics : Single (userMetricsOf patch₁.metrics) (userMetricsOf patch₂.metrics)

variable {patch₁ patch₂ file merged : Config}

theorem mergeOverlayPatches_compose {merged' : Config}
    (h₁ : mergeFileAndOverlay file patch₁ = .ok merged)
    (h₂ : mergeFileAndOverlay merged patch₂ = .ok merged') (h : Compatible file patch₁ patch₂) :
    ∃ overlay, mergeOverlayPatches patch₁ patch₂ = .ok overlay ∧
      mergeFileAndOverlay file overlay = .ok merged' := by
  obtain ⟨ys, hys, rfl⟩ := map_eq_ok_iff.mp h₁
  obtain ⟨zs, hzs, rfl⟩ := map_eq_ok_iff.mp h₂
  obtain ⟨p', hacc, hrun⟩ := mergePools_compose h.pools hys hzs
  refine ⟨_, map_eq_ok_iff.mpr ⟨p', hacc, rfl⟩, map_eq_ok_iff.mpr ⟨zs, hrun, ?_⟩⟩
  simp only [Option.or_assoc, listOr_assoc, mergeMetricsSection_assoc _ h.metrics]

/-! ## Merge applies -/

def mergeProposal (patch : Config) : PolicyProposal := { source := .grpc, overlay := some patch }

section

variable {e : EffectiveConfig} {patch overlay merged : Config}

theorem effective_of_some (h : e.overlay = some overlay)
    (hm : mergeFileAndOverlay e.file overlay = .ok merged) : e.effective = merged := by
  obtain ⟨file, overlay', hmerges⟩ := e
  subst h
  unfold EffectiveConfig.effective
  split
  · rename_i heq
    cases heq
    split
    · rename_i heq
      exact Except.ok.inj (heq.symm.trans hm)
    · rename_i heq
      cases heq.symm.trans hm
  · rename_i heq
    cases heq

theorem setOverlay_of_merge (hm : mergeFileAndOverlay e.file overlay = .ok merged) :
    ∃ e', e.setOverlay overlay = .ok e' ∧ e'.file = e.file ∧ e'.overlay = some overlay ∧
      e'.effective = merged := by
  have hset : e.setOverlay overlay =
      .ok ⟨e.file, some overlay, by rintro _ ⟨⟩; rw [hm]; rfl⟩ := by
    unfold EffectiveConfig.setOverlay
    split
    · rfl
    · rename_i heq
      cases heq.symm.trans hm
  exact ⟨_, hset, rfl, rfl, effective_of_some rfl hm⟩

theorem mergeFileAndOverlay_of_empty {base : Config} (h : isOverlayPatchEmpty patch = true)
    (hv : patch.schemaVersion = base.schemaVersion) : mergeFileAndOverlay base patch = .ok base := by
  obtain ⟨version, listeners, forward, orchestrator, events, rhai, pools, control, rules, logging,
    dataSources, metrics, tracing, dataplane, shutdown, dataSourceLimits, caches, lookup, acls⟩ :=
    patch
  simp only [isOverlayPatchEmpty, Bool.and_eq_true, Option.isNone_iff_eq_none,
    List.isEmpty_iff] at h
  obtain ⟨⟨⟨⟨⟨⟨⟨⟨⟨⟨⟨⟨⟨⟨⟨rfl, rfl⟩, rfl⟩, rfl⟩, rfl⟩, rfl⟩, rfl⟩, rfl⟩, rfl⟩, rfl⟩, rfl⟩, rfl⟩, rfl⟩,
    rfl⟩, rfl⟩, rfl⟩ := h
  cases hv
  rfl

/-- **One merge apply.** The patch is laid over the effective configuration, if it can be
accumulated onto the overlay. -/
theorem applyOverlayMode_merge (hallowed : validateOverlayPatch patch = [])
    (hempty : isOverlayPatchEmpty patch = true → patch.schemaVersion = e.effective.schemaVersion)
    (hm : mergeFileAndOverlay e.effective patch = .ok merged)
    (hacc : ∀ o, e.overlay = some o → ∃ o', mergeOverlayPatches o patch = .ok o' ∧
      mergeFileAndOverlay e.file o' = .ok merged) :
    ∃ e', applyOverlayMode e (mergeProposal patch) = .ok e' ∧ e'.file = e.file ∧
      e'.effective = merged ∧ (e.overlay = none → ∀ o, e'.overlay = some o → o = patch) := by
  have hreject : rejectForbiddenOverlayFields patch = .ok () := if_pos hallowed
  cases hp : isOverlayPatchEmpty patch with
  | true =>
    rw [mergeFileAndOverlay_of_empty hp (hempty hp)] at hm
    cases hm
    refine ⟨e, ?_, rfl, rfl, fun hnone o ho => ?_⟩
    · simp only [applyOverlayMode, mergeProposal, hreject, hp]
      rfl
    · rw [hnone] at ho
      cases ho
  | false =>
    cases ho : e.overlay with
    | none =>
      rw [effective_of_none ho] at hm
      obtain ⟨e', hset, hfile, hover, heff⟩ := setOverlay_of_merge hm
      refine ⟨e', ?_, hfile, heff, fun _ o ho' => Option.some.inj (ho'.symm.trans hover)⟩
      simp only [applyOverlayMode, mergeProposal, hreject, hp, ho]
      exact hset
    | some o =>
      obtain ⟨o', ho', hm'⟩ := hacc o ho
      obtain ⟨e', hset, hfile, -, heff⟩ := setOverlay_of_merge hm'
      refine ⟨e', ?_, hfile, heff, fun hnone => (nomatch hnone)⟩
      simp only [applyOverlayMode, mergeProposal, hreject, hp, ho, ho']
      exact hset

end

def onePool (backends : List Backend) : Config where
  schemaVersion := 1
  pools := [{ name := "p", backends := backends }]

def sampleBackends : List Backend :=
  [{ name := some "a", address := "1", weight := some 5 }, { name := some "b", address := "2" }]

def samplePatch : List Backend := [{ name := some "a", weight := some 6 }]

/-- The weight again, and the other backend removed. -/
def sampleNext : List Backend :=
  [{ name := some "a", weight := some 7 }, { name := some "b", remove := some true }]

/-- All entries use names. -/
def Scheme.byName : Scheme := ⟨fun _ => true, fun _ => false, rfl⟩

theorem nil_or_single_of_filter (c : α → Bool) (x : α) :
    [x].filter c = [] ∨ ∃ y, [x].filter c = [y] := by
  cases hc : c x with
  | true => exact .inr ⟨x, by simp [hc]⟩
  | false => exact .inl (by simp [hc])

theorem sample_backendsFit :
    BackendsFit Scheme.byName "p" sampleBackends samplePatch sampleNext := by
  refine ⟨fun _ _ => .inr rfl, ?_, ?_⟩
  · intro e he
    refine ⟨fun _ _ => ⟨rfl, rfl⟩, fun hnone => ?_⟩
    have hall : ∀ e ∈ samplePatch ++ sampleNext, e.named ≠ none := by decide
    exact absurd hnone (hall e he)
  · constructor
    · decide
    · decide
    · exact fun e _ _ => nil_or_single_of_filter _ _
    · decide
    · intro l e r heq hrem hnot
      -- the first entry updates what the first patch has, the second one removes
      rcases l with _ | ⟨y, l⟩
      · cases heq
        exact absurd (by decide) (hnot { name := some "a", weight := some 6 } (by simp [samplePatch]))
      · rcases l with _ | ⟨z, l⟩
        · cases heq
          cases hrem
        · simp [sampleNext] at heq
    · exact fun _ _ _ _ _ => trivial

theorem sample_compatible :
    Compatible (onePool sampleBackends) (onePool samplePatch) (onePool sampleNext) := by
  refine ⟨?_, fun e he => by cases he⟩
  constructor
  · decide
  · decide
  · exact fun e _ _ => nil_or_single_of_filter _ _
  · decide
  · exact fun _ e _ _ _ _ => ⟨_, rfl⟩
  · intro k x es hne hups
    have hk : k = "p" := by
      by_contra hk
      exact hne (by simp [Overlay.updates, poolOverlay, onePool, Ne.symm hk])
    subst hk
    cases hups
    exact .inl ⟨Scheme.byName, sample_backendsFit⟩

/-- A configuration with one metrics section. -/
def withUsers (users : List UserMetricExportConfig) : Config where
  schemaVersion := 1
  metrics := some { userMetrics := users }

/-- Files and patches that are not compatible. -/
def clashes : List (Config × Config × Config) :=
  let file := onePool [{ name := some "a", address := "1", weight := some 5 }, { address := "2" }]
  [ -- an update of a removed backend
    (file, onePool [{ name := some "a", remove := some true }],
      onePool [{ name := some "a", address := "3" }]),
    -- the same in one patch
    (file, onePool [{ address := "2", weight := some 6 }],
      onePool [{ name := some "a", remove := some true }, { name := some "a", address := "3" }]),
    -- a removal of what the first patch adds
    (file, onePool [{ address := "3" }], onePool [{ address := "3", remove := some true }]),
    -- a name that only the file has
    (file, onePool [{ address := "2", weight := some 6 }],
      onePool [{ name := some "a", weight := some 7 }]),
    -- two entries for a backend
    (file, onePool [{ name := some "a", weight := some 6 }, { name := some "a", weight := some 7 }],
      onePool [{ name := some "a", weight := some 8 }]),
    -- an address that is used with a name and without
    (file, onePool [{ address := "2", weight := some 6 }, { name := some "a", address := "2" }],
      onePool [{ address := "2", weight := some 7 }]),
    -- an update of a removed pool
    (file, { schemaVersion := 1, pools := [{ name := "p", remove := some true }] },
      onePool [{ address := "3" }]),
    -- a removal in a pool that the first patch adds
    ({ schemaVersion := 1 }, onePool [{ address := "3" }],
      onePool [{ address := "3", remove := some true }]),
    -- two entries for a user metric
    ({ schemaVersion := 1 }, withUsers [{ name := "u", help := "1" }, { name := "u", help := "2" }],
      withUsers [{ name := "u", help := "3" }])]

def keyedLists (c : Config) : List Pool × List UserMetricExportConfig :=
  (c.pools, userMetricsOf c.metrics)

theorem ne_of_keyedLists
    (h : ((mergeOverlayPatches patch₁ patch₂).bind (mergeFileAndOverlay file)).map keyedLists ≠
      .ok (keyedLists merged)) :
    ∀ overlay, mergeOverlayPatches patch₁ patch₂ = .ok overlay →
      mergeFileAndOverlay file overlay ≠ .ok merged := by
  intro overlay hacc hmerge
  refine h ?_
  rw [hacc, Except.bind, hmerge]
  rfl

end Conduit.Config
