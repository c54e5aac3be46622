import Mathlib.Data.List.Nodup

/-!
# Tickets

Tickets are drawn by holders, a holder has at most one of them, and a ticket that is no longer held
has been settled. The ledger is a history: the tickets with their holders, and the settled tickets.

- `Tickets.Sound`: every ticket is held or settled once, and not both.
- `Sound.draw`, `Sound.settle`: drawing a new ticket, and settling the one that is held.
- `Sound.count_settled`: how often a ticket is settled.
- `Sound.open_unique`: a holder has at most one ticket that is not settled.
-/

namespace Tickets

open Function (update update_of_ne update_self)

variable {τ κ : Type}

structure Sound (drawn : List (τ × κ)) (settled : List τ) (held : κ → Option τ) : Prop where
  drawn_nodup : (drawn.map Prod.fst).Nodup
  settled_nodup : settled.Nodup
  settled_drawn : ∀ t ∈ settled, t ∈ drawn.map Prod.fst
  held_drawn : ∀ k t, held k = some t → (t, k) ∈ drawn ∧ t ∉ settled
  complete : ∀ t k, (t, k) ∈ drawn → t ∈ settled ∨ held k = some t

namespace Sound

variable {drawn : List (τ × κ)} {settled : List τ} {held : κ → Option τ} {t : τ} {k : κ}

theorem nil : Sound ([] : List (τ × κ)) [] fun _ => none :=
  ⟨List.nodup_nil, List.nodup_nil, nofun, nofun, nofun⟩

theorem draw [DecidableEq κ] (h : Sound drawn settled held) (hfresh : t ∉ drawn.map Prod.fst)
    (hk : held k = none) :
    Sound ((t, k) :: drawn) settled (update held k (some t)) where
  drawn_nodup := List.nodup_cons.mpr ⟨hfresh, h.drawn_nodup⟩
  settled_nodup := h.settled_nodup
  settled_drawn t' ht' := List.mem_cons_of_mem _ (h.settled_drawn t' ht')
  held_drawn k' t' hheld := by
    by_cases hk' : k' = k
    · subst hk'
      rw [update_self] at hheld
      cases hheld
      exact ⟨List.mem_cons_self .., fun hs => hfresh (h.settled_drawn t hs)⟩
    · rw [update_of_ne hk'] at hheld
      obtain ⟨hdrawn, hsettled⟩ := h.held_drawn k' t' hheld
      exact ⟨List.mem_cons_of_mem _ hdrawn, hsettled⟩
  complete t' k' hdrawn := by
    rcases List.mem_cons.mp hdrawn with heq | hdrawn
    · cases heq
      exact .inr (update_self ..)
    · rcases h.complete t' k' hdrawn with hs | hheld
      · exact .inl hs
      · refine .inr ?_
        rwa [update_of_ne]
        rintro rfl
        cases hk.symm.trans hheld

theorem holder_eq (h : Sound drawn settled held) {k' : κ} (hk : (t, k) ∈ drawn)
    (hk' : (t, k') ∈ drawn) : k = k' :=
  congrArg Prod.snd (List.inj_on_of_nodup_map h.drawn_nodup hk hk' rfl)

theorem settle [DecidableEq κ] (h : Sound drawn settled held) (hk : held k = some t) :
    Sound drawn (t :: settled) (update held k none) where
  drawn_nodup := h.drawn_nodup
  settled_nodup := List.nodup_cons.mpr ⟨(h.held_drawn k t hk).2, h.settled_nodup⟩
  settled_drawn t' ht' := by
    rcases List.mem_cons.mp ht' with rfl | ht'
    · exact List.mem_map_of_mem (h.held_drawn k t' hk).1
    · exact h.settled_drawn t' ht'
  held_drawn k' t' hheld := by
    have hne : k' ≠ k := by
      rintro rfl
      rw [update_self] at hheld
      cases hheld
    rw [update_of_ne hne] at hheld
    obtain ⟨hdrawn, hsettled⟩ := h.held_drawn k' t' hheld
    refine ⟨hdrawn, fun hmem => ?_⟩
    rcases List.mem_cons.mp hmem with rfl | hmem
    · exact hne (h.holder_eq hdrawn (h.held_drawn k t' hk).1)
    · exact hsettled hmem
  complete t' k' hdrawn := by
    rcases h.complete t' k' hdrawn with hs | hheld
    · exact .inl (List.mem_cons_of_mem t hs)
    · by_cases hne : k' = k
      · subst hne
        cases hk.symm.trans hheld
        exact .inl (List.mem_cons_self ..)
      · exact .inr (by rwa [update_of_ne hne])

/-- A ticket is settled once it is no longer held. -/
theorem count_settled [DecidableEq τ] (h : Sound drawn settled held) (hdrawn : (t, k) ∈ drawn) :
    settled.count t = if held k = some t then 0 else 1 := by
  split
  next hheld => exact List.count_eq_zero_of_not_mem (h.held_drawn k t hheld).2
  next hheld =>
    exact List.count_eq_one_of_mem h.settled_nodup ((h.complete t k hdrawn).resolve_right hheld)

/-- A holder has at most one ticket that is not settled. -/
theorem open_unique (h : Sound drawn settled held) {t' : τ} (hdrawn : (t, k) ∈ drawn)
    (hdrawn' : (t', k) ∈ drawn) (hopen : t ∉ settled) (hopen' : t' ∉ settled) : t = t' := by
  have hheld := (h.complete t k hdrawn).resolve_left hopen
  have hheld' := (h.complete t' k hdrawn').resolve_left hopen'
  exact Option.some.inj (hheld.symm.trans hheld')

end Sound

end Tickets
