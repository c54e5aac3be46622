import Mathlib.Data.List.Rotate
import Mathlib.Data.List.Perm.Basic

/-!
# Groups of a list

The elements of a list by key, the groups in the order of their first element (`groups`), and the
list of the groups one after the other, each of them rotated (`Rotates`).

- `firsts`: the keys in the order of their first occurrence.
- `groups_eq`: what the groups are.
- `Rotates.perm`: nothing is lost or added.
- `Rotates.filter_alone`: elements that are alone in their group stay in order.
-/

namespace Groups

variable {α κ : Type} [DecidableEq κ]

/-- The keys in the order of their first occurrence. -/
def firsts : List κ → List κ
  | [] => []
  | k :: ks => k :: (firsts ks).filter (· ≠ k)

/-- Put an element behind its group, or into a new group. -/
def place (key : α → κ) (x : α) : List (κ × List α) → List (κ × List α)
  | [] => [(key x, [x])]
  | (k, xs) :: gs => if k = key x then (k, xs ++ [x]) :: gs else (k, xs) :: place key x gs

def groups (key : α → κ) (xs : List α) : List (κ × List α) := xs.foldl (fun gs x => place key x gs) []

def ofKey (key : α → κ) (xs : List α) (k : κ) : List α := xs.filter fun x => key x = k

/-- `ys` has the groups of `xs`, one after the other in the order of their first element, and each
of them rotated. -/
def Rotates (key : α → κ) (xs ys : List α) : Prop :=
  ∃ bs : List (κ × List α), ys = bs.flatMap Prod.snd ∧ bs.map Prod.fst = firsts (xs.map key) ∧
    ∀ b ∈ bs, b.2 ~r ofKey key xs b.1

/-! ## Keys -/

section

variable {k : κ} {ks : List κ}

theorem mem_firsts : k ∈ firsts ks ↔ k ∈ ks := by
  induction ks with
  | nil => simp [firsts]
  | cons a ks ih => by_cases h : k = a <;> simp [firsts, ih, h]

theorem nodup_firsts : (firsts ks).Nodup := by
  induction ks with
  | nil => exact List.nodup_nil
  | cons a ks ih =>
    refine List.nodup_cons.mpr ⟨?_, ih.filter _⟩
    simp

theorem firsts_of_nodup (h : ks.Nodup) : firsts ks = ks := by
  induction ks with
  | nil => rfl
  | cons a ks ih =>
    obtain ⟨ha, hks⟩ := List.nodup_cons.mp h
    rw [firsts, ih hks, List.filter_eq_self.mpr fun k hk => ?_]
    simp only [ne_eq, decide_eq_true_eq]
    rintro rfl
    exact ha hk

theorem firsts_filter (Q : κ → Bool) : firsts (ks.filter Q) = (firsts ks).filter Q := by
  induction ks with
  | nil => rfl
  | cons a ks ih =>
    cases ha : Q a with
    | true =>
      rw [List.filter_cons_of_pos ha, firsts, firsts, List.filter_cons_of_pos ha, ih,
        List.filter_filter, List.filter_filter]
      refine congrArg _ (List.filter_congr fun k _ => ?_)
      rw [Bool.and_comm]
    | false =>
      rw [List.filter_cons_of_neg (by simp [ha]), firsts, List.filter_cons_of_neg (by simp [ha]), ih,
        List.filter_filter]
      refine List.filter_congr fun k _ => ?_
      by_cases hk : k = a <;> simp [hk, ha]

theorem firsts_concat : firsts (ks ++ [k]) = if k ∈ ks then firsts ks else firsts ks ++ [k] := by
  induction ks with
  | nil => simp [firsts]
  | cons a ks ih =>
    rw [List.cons_append, firsts, firsts, ih]
    by_cases hk : k ∈ ks
    · simp [hk]
    · rw [if_neg hk]
      by_cases ha : k = a
      · simp [ha, List.filter_append]
      · simp [ha, hk, List.filter_append]

end

/-! ## Groups -/

section

variable {key : α → κ}

/-- `place`, on groups that are told by their keys. -/
theorem place_map {ks : List κ} (hks : ks.Nodup) (f : κ → List α) (x : α) :
    place key x (ks.map fun k => (k, f k)) =
      if key x ∈ ks then ks.map fun k => (k, if k = key x then f k ++ [x] else f k)
      else (ks.map fun k => (k, f k)) ++ [(key x, [x])] := by
  induction ks with
  | nil => simp [place]
  | cons k ks ih =>
    obtain ⟨hk, hks⟩ := List.nodup_cons.mp hks
    rw [List.map_cons, place, ih hks]
    by_cases heq : k = key x
    · have hrest : (ks.map fun k' => (k', if k' = key x then f k' ++ [x] else f k')) =
          ks.map fun k' => (k', f k') := by
        refine List.map_congr_left fun k' hk' => ?_
        rw [if_neg]
        rintro rfl
        exact hk (heq ▸ hk')
      simp only [heq, if_true, List.mem_cons, true_or, List.map_cons]
      rw [hrest]
    · by_cases hmem : key x ∈ ks
      · simp [heq, hmem]
      · simp [heq, hmem, Ne.symm heq]

theorem groups_eq (xs : List α) :
    groups key xs = (firsts (xs.map key)).map fun k => (k, ofKey key xs k) := by
  induction xs using List.reverseRecOn with
  | nil => rfl
  | append_singleton xs x ih =>
    have hlast : groups key (xs ++ [x]) = place key x (groups key xs) := by
      rw [groups, List.foldl_append]
      rfl
    have hkey : ∀ k, ofKey key (xs ++ [x]) k = ofKey key xs k ++ if key x = k then [x] else [] := by
      intro k
      by_cases h : key x = k <;> simp [ofKey, List.filter_append, h]
    rw [hlast, ih, place_map nodup_firsts, List.map_append, List.map_singleton, firsts_concat]
    by_cases hmem : key x ∈ xs.map key
    · rw [if_pos (mem_firsts.mpr hmem), if_pos hmem]
      refine List.map_congr_left fun k _ => ?_
      rw [hkey]
      by_cases h : k = key x
      · simp [h]
      · simp [h, Ne.symm h]
    · have hnone : ofKey key xs (key x) = [] := by
        refine List.filter_eq_nil_iff.mpr fun y hy hyx => hmem ?_
        exact List.mem_map.mpr ⟨y, hy, by simpa using hyx⟩
      rw [if_neg (mt mem_firsts.mp hmem), if_neg hmem, List.map_append, List.map_singleton, hkey, hnone]
      simp only [if_true, List.nil_append]
      refine congrArg (· ++ _) (List.map_congr_left fun k hk => ?_)
      rw [hkey, if_neg, List.append_nil]
      rintro rfl
      exact hmem (mem_firsts.mp hk)

theorem mem_ofKey {xs : List α} {k : κ} {x : α} : x ∈ ofKey key xs k ↔ x ∈ xs ∧ key x = k := by
  simp [ofKey]

theorem ofKey_filter (Q : κ → Bool) (xs : List α) (k : κ) :
    ofKey key (xs.filter fun x => Q (key x)) k = if Q k then ofKey key xs k else [] := by
  rw [ofKey, List.filter_filter]
  split
  next h =>
    refine List.filter_congr fun x _ => ?_
    by_cases hx : key x = k <;> simp [hx, h]
  next h =>
    refine List.filter_eq_nil_iff.mpr fun x _ hx => h ?_
    obtain ⟨hx, hQ⟩ : key x = k ∧ Q (key x) := by simpa using hx
    exact hx ▸ hQ

theorem flatMap_ofKey_perm {ks : List κ} (hks : ks.Nodup) {xs : List α}
    (h : ∀ x ∈ xs, key x ∈ ks) : (ks.flatMap (ofKey key xs)).Perm xs := by
  induction ks generalizing xs with
  | nil =>
    have hnil : xs = [] := List.eq_nil_iff_forall_not_mem.mpr fun x hx => by simpa using h x hx
    rw [hnil]
    rfl
  | cons k ks ih =>
    obtain ⟨hk, hks⟩ := List.nodup_cons.mp hks
    -- the elements of the other keys
    have hothers : ks.flatMap (ofKey key xs) =
        ks.flatMap (ofKey key (xs.filter fun x => !decide (key x = k))) := by
      refine List.flatMap_congr fun k' hk' => ?_
      rw [ofKey, ofKey, List.filter_filter]
      refine List.filter_congr fun x _ => ?_
      by_cases hx : key x = k'
      · have hne : k' ≠ k := by
          rintro rfl
          exact hk hk'
        simp [hx, hne]
      · simp [hx]
    have hrest : ∀ x ∈ xs.filter fun x => !decide (key x = k), key x ∈ ks := by
      intro x hx
      obtain ⟨hmem, hne⟩ := List.mem_filter.mp hx
      rcases List.mem_cons.mp (h x hmem) with heq | hmem'
      · simp [heq] at hne
      · exact hmem'
    rw [List.flatMap_cons, hothers]
    exact ((ih hks hrest).append_left _).trans (List.filter_append_perm _ xs)

theorem flatMap_ofKey_of_nodup {xs : List α} (h : (xs.map key).Nodup) :
    (xs.map key).flatMap (ofKey key xs) = xs := by
  induction xs with
  | nil => rfl
  | cons x xs ih =>
    obtain ⟨hx, hxs⟩ := List.nodup_cons.mp h
    have hself : ofKey key (x :: xs) (key x) = [x] := by
      have hnone : ofKey key xs (key x) = [] := by
        refine List.filter_eq_nil_iff.mpr fun y hy hyx => hx ?_
        exact List.mem_map.mpr ⟨y, hy, by simpa using hyx⟩
      rw [ofKey, List.filter_cons_of_pos (by simp)]
      exact congrArg _ hnone
    have hrest : (xs.map key).flatMap (ofKey key (x :: xs)) = (xs.map key).flatMap (ofKey key xs) := by
      refine List.flatMap_congr fun k hk => ?_
      refine List.filter_cons_of_neg ?_
      simp only [decide_eq_true_eq]
      rintro rfl
      exact hx hk
    rw [List.map_cons, List.flatMap_cons, hself, hrest, ih hxs]
    rfl

end

/-! ## Elements alone in their group -/

section

variable {key : α → κ} {xs : List α}

/-- The elements that are alone in their group. -/
def alone (key : α → κ) (xs : List α) : List α :=
  xs.filter fun x => decide ((ofKey key xs (key x)).length = 1)

theorem ofKey_alone (k : κ) :
    ofKey key (alone key xs) k =
      if (ofKey key xs k).length = 1 then ofKey key xs k else [] := by
  have h : ofKey key (alone key xs) k =
      if decide ((ofKey key xs k).length = 1) then ofKey key xs k else [] :=
    ofKey_filter (fun k => decide ((ofKey key xs k).length = 1)) xs k
  simpa only [decide_eq_true_eq] using h

theorem nodup_alone : ((alone key xs).map key).Nodup := by
  refine List.nodup_iff_count_le_one.mpr fun k => ?_
  have hcount : ((alone key xs).map key).count k = (ofKey key (alone key xs) k).length := by
    rw [List.count, List.countP_map, List.countP_eq_length_filter]
    rfl
  rw [hcount, ofKey_alone]
  split
  next h => exact h.le
  next => exact Nat.zero_le 1

theorem flatMap_firsts_alone :
    (firsts (xs.map key)).flatMap (ofKey key (alone key xs)) = alone key xs := by
  have hkeys : (alone key xs).map key =
      (xs.map key).filter fun k => decide ((ofKey key xs k).length = 1) := by
    rw [List.filter_map]
    rfl
  -- the other keys have no elements left
  have hothers : ∀ ks : List κ, ks.flatMap (ofKey key (alone key xs)) =
      (ks.filter fun k => decide ((ofKey key xs k).length = 1)).flatMap
        (ofKey key (alone key xs)) := by
    intro ks
    induction ks with
    | nil => rfl
    | cons k ks ih =>
      by_cases hk : (ofKey key xs k).length = 1
      · rw [List.filter_cons_of_pos (by simpa using hk), List.flatMap_cons, List.flatMap_cons, ih]
      · rw [List.filter_cons_of_neg (by simpa using hk), List.flatMap_cons, ih, ofKey_alone,
          if_neg hk, List.nil_append]
  rw [hothers, ← firsts_filter, ← hkeys, firsts_of_nodup nodup_alone,
    flatMap_ofKey_of_nodup nodup_alone]

end

/-! ## Rotated groups -/

section

variable {key : α → κ} {xs ys : List α}

omit [DecidableEq κ] in
theorem forall₂_rotated {f : κ → List α} {ks : List κ} {bs : List (κ × List α)}
    (h : List.Forall₂ (fun g b => b.1 = g.1 ∧ b.2 ~r g.2) (ks.map fun k => (k, f k)) bs) :
    bs.map Prod.fst = ks ∧ ∀ b ∈ bs, b.2 ~r f b.1 := by
  induction ks generalizing bs with
  | nil =>
    cases h
    exact ⟨rfl, nofun⟩
  | cons k ks ih =>
    obtain - | ⟨⟨hkey, hrot⟩, hrest⟩ := h
    obtain ⟨hkeys, hrots⟩ := ih hrest
    refine ⟨by rw [List.map_cons, hkey, hkeys], fun b hb => ?_⟩
    rcases List.mem_cons.mp hb with rfl | hb
    · rwa [hkey]
    · exact hrots b hb

theorem rotates_of_forall₂ {bs : List (κ × List α)} (hys : ys = bs.flatMap Prod.snd)
    (hbs : List.Forall₂ (fun g b => b.1 = g.1 ∧ b.2 ~r g.2) (groups key xs) bs) :
    Rotates key xs ys := by
  rw [groups_eq] at hbs
  exact ⟨bs, hys, forall₂_rotated hbs⟩

theorem rotates_of_length_le_one (h : xs.length ≤ 1) : Rotates key xs xs := by
  match xs, h with
  | [], _ => exact ⟨[], rfl, rfl, nofun⟩
  | [x], _ =>
    refine ⟨[(key x, [x])], rfl, rfl, fun b hb => ?_⟩
    cases List.mem_singleton.mp hb
    have hself : ofKey key [x] (key x) = [x] := by simp [ofKey]
    rw [hself]

end

namespace Rotates

variable {key : α → κ} {xs ys : List α}

theorem perm (h : Rotates key xs ys) : ys.Perm xs := by
  obtain ⟨bs, rfl, hkeys, hrot⟩ := h
  have hgroups : (bs.flatMap Prod.snd).Perm (bs.flatMap fun b => ofKey key xs b.1) :=
    List.Perm.flatMap_left bs fun b hb => (hrot b hb).perm
  have hkeys' : (bs.flatMap fun b => ofKey key xs b.1) =
      (firsts (xs.map key)).flatMap (ofKey key xs) := by
    rw [← hkeys, List.flatMap_map]
  refine hgroups.trans ?_
  rw [hkeys']
  exact flatMap_ofKey_perm nodup_firsts fun x hx => mem_firsts.mpr (List.mem_map_of_mem hx)

theorem filter_alone (h : Rotates key xs ys) :
    (ys.filter fun y => decide ((ofKey key xs (key y)).length = 1)) = alone key xs := by
  obtain ⟨bs, rfl, hkeys, hrot⟩ := h
  -- a group is kept whole, and then it is a single element, or dropped whole
  have hgroup : ∀ b ∈ bs, (b.2.filter fun y => decide ((ofKey key xs (key y)).length = 1)) =
      ofKey key (alone key xs) b.1 := by
    intro b hb
    have hkey : ∀ y ∈ b.2, key y = b.1 := fun y hy =>
      (mem_ofKey.mp ((hrot b hb).mem_iff.mp hy)).2
    rw [ofKey_alone]
    split
    next hone =>
      obtain ⟨x, hx⟩ := List.length_eq_one_iff.mp hone
      have hb2 : b.2 = [x] := List.isRotated_singleton_iff.mp (hx ▸ hrot b hb)
      have hkx : key x = b.1 := hkey x (by rw [hb2]; exact List.mem_singleton_self x)
      rw [hx, hb2, List.filter_cons_of_pos (by simp [hkx, hx])]
      rfl
    next hone =>
      refine List.filter_eq_nil_iff.mpr fun y hy => ?_
      rw [hkey y hy]
      simpa using hone
  have hkeys' : (bs.flatMap fun b => ofKey key (alone key xs) b.1) =
      (firsts (xs.map key)).flatMap (ofKey key (alone key xs)) := by
    rw [← hkeys, List.flatMap_map]
  rw [List.filter_flatMap, List.flatMap_congr hgroup, hkeys', flatMap_firsts_alone]

/-- Some of the elements that are alone in their group. -/
theorem sublist_of_alone (h : Rotates key xs ys) {zs : List α} (hsub : zs.Sublist xs)
    (hsingle : ∀ z ∈ zs, ofKey key xs (key z) = [z]) : zs.Sublist ys := by
  have hzs : zs.filter (fun z => decide ((ofKey key xs (key z)).length = 1)) = zs :=
    List.filter_eq_self.mpr fun z hz => by simp [hsingle z hz]
  have halone : zs.Sublist (alone key xs) := hzs ▸ hsub.filter _
  rw [← h.filter_alone] at halone
  exact halone.trans List.filter_sublist

end Rotates

end Groups
